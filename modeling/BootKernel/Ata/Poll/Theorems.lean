import BootKernel.Ata.Irq.Addresses
import BootKernel.Ata.Irq.Theorems
import BootKernel.Ata.Poll.Original
import BootKernel.Ata.Poll.Trace

/-!
# What the polling driver guarantees

The accesses of the polling driver to the ports, whatever the drive answers to each read.
-/

namespace BootKernel

open PortProgram

/-! ## The rewrite -/

theorem exec_some_eq_iff {P : Ports AtaBuffer (List AtaEvent)} {x y : Poll Bool}
    {t : List AtaEvent} :
    exec P (x >>= fun b => .ret (some b)) () t = exec P (y >>= fun b => .ret (some b)) () t ↔
      exec P x () t = exec P y () t := by
  rw [exec_bind, exec_bind]
  simp [exec, Prod.ext_iff]

/-- The rewritten functions make the same accesses as the original ones and return the same, except
that `ata_init` does so only if the drive makes it give up before it writes the command. -/
theorem rewritten_same_iff (dev : Answer AtaBuffer) (t : List AtaEvent) (f : PollCall) :
    SameAccesses dev t f ↔ (f = .init → InitRefused dev t) := by
  by_cases hf : f = .init
  · subst hf
    have hsame : SameAccesses dev t .init ↔ InitRefused dev t :=
      exec_some_eq_iff.trans (init_same_iff dev t)
    rw [hsame]
    exact ⟨fun h _ => h, fun h => h rfl⟩
  · refine iff_of_true ?_ fun h => absurd h hf
    rw [SameAccesses, PollCall.original_eq hf]

/-- A drive that is ready at once: the rewritten function does not write the sector count. -/
theorem rewritten_init_differs : ¬ SameAccesses (fun _ _ => 0x50) [] .init := by
  intro h
  obtain ⟨k, -, hrefuses, -⟩ := (init_same_iff _ _).mp (exec_some_eq_iff.mp h)
  rcases hrefuses with hfloat | ⟨-, herr⟩
  · exact absurd hfloat (by decide : ¬ (0x50 : BitVec 8) = ataStatusFloating)
  · exact absurd herr (by decide : ¬ ataStatusHasError 0x50 = true)

/-! ## The trace of a transfer -/

/-- A transfer of sectors that the commands can address tells the drive one command and one block for
each sector in turn, where one more command may still wait for its block. Each command comes after a
ready status and each block right after a status that offers it, and the transfer succeeds only if all
sectors have been moved and the last status is ready. -/
theorem pollTransfer_trace (dev : Answer AtaBuffer) {r : PollTransfer} (hfits : r.io.Fits)
    (t₀ : List AtaEvent) :
    ∃ (es : List AtaEvent) (m : Nat) (waits : Bool),
      (exec (traced dev) r.prog () t₀).2.2 = t₀ ++ es ∧
      (∀ t : Taskfile,
        (t.decode es).2 = r.io.served m ++ if waits then [r.io.command m] else []) ∧
      m ≤ r.io.sectorCount.toNat ∧ (waits = true → m < r.io.sectorCount.toNat) ∧
      Guarded PollGuard es ∧
      ((exec (traced dev) r.prog () t₀).1 = true →
        m = r.io.sectorCount.toNat ∧ waits = false ∧
          ∃ pre st, es = pre ++ [.inb ataRegStatus st] ∧ StatusReady st) := by
  obtain ⟨es, hruns, htrace⟩ := exec_traced dev r.prog () t₀
  have hrun := PollTransfer.runs hruns
  obtain ⟨m, waits, hm, hwaits, hdone, hdecode⟩ := hrun.accesses
  refine ⟨es, m, waits, htrace, fun t => ?_, hm, hwaits, hrun.guarded, fun hres => ?_⟩
  · have ht := hdecode t
    rw [r.io.reached_eq hfits hm] at ht
    refine ht.trans (congrArg (_ ++ ·) ?_)
    cases waits with
    | false => rfl
    | true => exact congrArg ([·]) (r.io.addressed_eq hfits (hwaits rfl))
  · obtain ⟨hall, hnone⟩ := hdone hres
    rw [hres] at hrun
    exact ⟨hall, hnone, hrun.ends_ready⟩

theorem pollTransfer_trace_read :
    ∃ (es : List AtaEvent) (m : Nat) (waits : Bool),
      (exec (traced fun _ _ => 0x58) (PollTransfer.read28 5 0x100000 2).prog () []).2.2 = [] ++ es ∧
      (∀ t : Taskfile, (t.decode es).2 = (AtaIo.mk .read28 5 0x100000 2).served m ++
        if waits then [(AtaIo.mk .read28 5 0x100000 2).command m] else []) ∧ m ≤ 2 := by
  obtain ⟨es, m, waits, htrace, hdecode, hm, -⟩ :=
    pollTransfer_trace (fun _ _ => 0x58) (r := .read28 5 0x100000 2) (by decide) []
  exact ⟨es, m, waits, htrace, hdecode, hm⟩

/-! ## The sectors that commands address -/

/-- A request to one of the two drivers. -/
inductive SectorRequest where
  | irq (r : AtaRequest) (q : AtaIo) (hio : r.io? = some q)
  | poll (r : PollTransfer)

namespace SectorRequest

def io : SectorRequest → AtaIo
  | .irq _ q _ => q
  | .poll r => r.io

/-- The accesses that a driver can make for the request since it has accepted it. -/
def Accesses (es : List AtaEvent) : SectorRequest → Prop
  | .irq r _ _ => ∃ (dev : Answer AtaBuffer) (s : AtaState) (as : List AtaAction),
      (ataBegin dev s r).1 = true ∧ (ataRun dev (ataBegin dev s r).2 as).trace = s.trace ++ es
  | .poll r => ∃ (dev : Answer AtaBuffer) (t : List AtaEvent),
      (exec (traced dev) r.prog () t).2.2 = t ++ es

end SectorRequest

theorem AtaIo.PollRun.inTurn {q : AtaIo} {es : List AtaEvent} {b : Bool} (h : q.PollRun 0 es b)
    (t : Taskfile) : q.InTurn (t.decode es).2 := by
  obtain ⟨m, waits, hm, hwaits, -, hdecode⟩ := h.accesses
  have hreached (k : Nat) :
      addresses (q.reached k) = (List.range k).map fun j => some (q.address j) := by
    induction k with
    | zero => rfl
    | succ k ih =>
        have htransfer : (q.transfer k).address? = none := by
          rw [AtaIo.transfer]
          split
          · rfl
          · rfl
        have hboth : addresses [q.addressed k, q.transfer k] = [some (q.address k)] := by
          simp only [addresses, List.filterMap_cons, htransfer]
          rfl
        rw [q.reached_succ, addresses_append, ih, List.range_succ, List.map_append, hboth]
        rfl
  have hall : (t.decode es).2 = q.reached m ++ if waits then [q.addressed m] else [] := hdecode t
  rw [hall]
  cases waits with
  | false => exact ⟨m, hm, by simpa using hreached m⟩
  | true =>
      refine ⟨m + 1, hwaits rfl, ?_⟩
      rw [addresses_append, hreached, List.range_succ, List.map_append]
      rfl

/-- Whatever the drive answers, the commands of a request address its sectors in turn, each as far as
the address registers reach, so exactly if the request does not reach past the last sector. Whether a
request is accepted does not depend on its address. -/
theorem request_addresses (S : SectorRequest) :
    (∀ es, S.Accesses es → ∀ t : Taskfile, S.io.InTurn (t.decode es).2) ∧
      (S.io.Fits → ∀ k < S.io.sectorCount.toNat, S.io.address k = S.io.lba.toNat + k) ∧
      ∀ r q hio, S = .irq r q hio → ∀ (dev : Answer AtaBuffer) (s : AtaState),
        (ataBegin dev s r).1 = true ↔ s.ctx.step = .idle ∧ q.sectorCount ≠ 0 := by
  refine ⟨fun es h t => ?_, fun hfits k hk => ?_, ?_⟩
  · cases S with
    | poll r =>
        obtain ⟨dev, t₀, htrace⟩ := h
        obtain ⟨es', hruns, htrace'⟩ := exec_traced dev r.prog () t₀
        obtain rfl := List.append_cancel_left (htrace.symm.trans htrace')
        exact (PollTransfer.runs hruns).inTurn t
    | irq r q hio =>
        obtain ⟨dev, s, as, hres, htrace⟩ := h
        rcases ataBegin_cases dev s r with ⟨-, hacc, hctx⟩ | ⟨hno, -, -⟩
        · rw [AtaRequest.started_of_io hio] at hctx
          obtain ⟨es', htrace', hissuing⟩ :=
            ataRun_issuing hctx (hacc.2 q hio) (AtaRequest.io?_phase hio) t as
          rw [ataBegin_trace] at htrace'
          obtain rfl := List.append_cancel_left (htrace.symm.trans htrace')
          exact hissuing.inTurn
        · rw [hno] at hres
          cases hres
  · unfold AtaIo.Fits at hfits
    exact Nat.mod_eq_of_lt (by omega)
  · rintro r q hio rfl dev s
    rcases ataBegin_cases dev s r with ⟨hres, hacc, -⟩ | ⟨hres, hacc, -⟩
    · exact iff_of_true hres ⟨hacc.1, hacc.2 q hio⟩
    · refine iff_of_false (by simp [hres]) fun ⟨hidle, hn⟩ => hacc ⟨hidle, fun q' hq' => ?_⟩
      rw [hio] at hq'
      cases hq'
      exact hn

/-- A read of the last sector and the one after it is accepted, and its second command reads the boot
sector. -/
theorem request_wraps :
    (ataBegin readyDrive ataStart (.read28 0x0FFFFFFF 0x100000 2)).1 = true ∧
      ¬ (AtaIo.mk .read28 0x0FFFFFFF 0x100000 2).Fits ∧
      (addresses (Taskfile.decode ⟨0, ⟨0, 0⟩, ⟨0, 0⟩, ⟨0, 0⟩, ⟨0, 0⟩⟩
        (ataRun readyDrive (ataBegin readyDrive ataStart (.read28 0x0FFFFFFF 0x100000 2)).2
          (sectorCalls ++ sectorCalls)).trace).2) = [some 0x0FFFFFFF, some 0] := by
  decide

end BootKernel
