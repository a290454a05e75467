import BootKernel.Ata.Irq.Preemption
import BootKernel.Ata.Irq.Theorems

/-!
# The bytes of a request

Interrupts may come between any two operations of the driver. At every point the memory and the disk
are as if some of the first sectors of the request had been copied in one go, and all of them when
the driver says that it is done. What a read overwrites behind its sectors is a part of the copy.
-/

namespace BootKernel

open PortProgram

/-! ## The drive's side -/

/-- The registers of the drive, and the accesses to the disk so far. -/
abbrev DriveLog := Taskfile × List (DiskAccess AtaBuffer)

def DriveLog.add (g : DriveLog) (e : AtaEvent) : DriveLog := ((g.1.step e).1, g.2 ++ (g.1.step e).2)

/-- The driver with what the drive has been told. The handler only reads the status, and speaks to
the interrupt controllers. -/
def ataServing : System AtaBuffer AtaContext DriveLog AtaCall where
  call k := k.action.prog
  handler := irq14Ata
  onPort e _ g := g.add e
  onStore _ _ g := g
  onInterrupt _ _ g := g

theorem DriveLog.foldl_add (es : List AtaEvent) (g : DriveLog) :
    es.foldl DriveLog.add g = ((g.1.decode es).1, g.2 ++ (g.1.decode es).2) := by
  induction es generalizing g with
  | nil => exact Prod.ext rfl (List.append_nil g.2).symm
  | cons e es ih =>
      rw [List.foldl_cons, ih]
      simp only [DriveLog.add, Taskfile.decode, List.append_assoc]

/-! ## Any interrupts at all -/

abbrev anyInterrupt (done : Bool) : AtaContext × DriveLog → AtaContext × DriveLog → Prop :=
  ataServing.Interrupted (fun _ _ _ => True) done

theorem anyInterrupt_cases {done : Bool} {x y : AtaContext × DriveLog} (h : anyInterrupt done x y) :
    y.1.unflagged = x.1.unflagged ∧ y.2 = x.2 := by
  obtain ⟨v, -, rfl⟩ := h
  exact ⟨rfl, rfl⟩

section

variable {q : AtaIo} {c c' : AtaContext} {g : DriveLog} {es : List AtaEvent}

/-- The accesses so far are the first ones of the request. -/
def AtaIo.Begun (q : AtaIo) (g : DriveLog) : Prop := g.2 <+: q.served q.sectorCount.toNat

/-- Between two calls. -/
def AtaIo.Between (q : AtaIo) (x : AtaContext × DriveLog) : Prop :=
  x.1.Ok ∧ q.Progress x.1 x.2.1 x.2.2

theorem AtaIo.served_prefix (q : AtaIo) {k n : Nat} (h : k ≤ n) : q.served k <+: q.served n := by
  obtain ⟨d, rfl⟩ := Nat.exists_eq_add_of_le h
  induction d with
  | zero => exact List.prefix_rfl
  | succ d ih =>
      rw [← Nat.add_assoc, q.served_succ]
      exact (ih (Nat.le_add_right k d)).trans (List.prefix_append _ _)

theorem AtaIo.Between.begun {x : AtaContext × DriveLog} (h : q.Between x) : q.Begun x.2 := by
  have hp := h.2
  have hle : q.moved x.1 ≤ q.sectorCount.toNat := Nat.sub_le _ _
  rw [Begun, hp.accesses]
  split
  case isTrue =>
    rw [List.append_nil]
    exact q.served_prefix hle
  case isFalse hbatch =>
    have hpos : 0 < x.1.sectorsLeft.toNat := by
      have hne := hp.pending hbatch
      bv_omega
    have hlt : q.moved x.1 + 1 ≤ q.sectorCount.toNat := by
      have hleft := hp.left_le
      unfold AtaIo.moved
      omega
    refine List.IsPrefix.trans ?_ (q.served_prefix hlt)
    rw [q.served_succ]
    exact (List.prefix_append_right_inj _).mpr ⟨[q.transfer (q.moved x.1)], rfl⟩

theorem AtaIo.Begun.before {e : AtaEvent} (h : q.Begun (g.add e)) : q.Begun g :=
  (List.prefix_append g.2 _).trans h

theorem AtaIo.Between.of_unflagged (h : q.Between (c, g)) (hc : c'.unflagged = c.unflagged) :
    q.Between (c', g) := by
  rw [eq_of_unflagged hc]
  exact ⟨h.1.flags _ _, h.2.flags _ _⟩

theorem AtaIo.Between.call (h : q.Between (c, g)) (hop : q.op.phase = .io) (hfits : q.Fits)
    {k : AtaCall} {u : Unit} (hr : UpTo k.action.prog c es u c') :
    q.Between (c', es.foldl DriveLog.add g) := by
  obtain ⟨c₀, c₁, hc₀, hstep, hc₁⟩ := AtaCall.upTo hr
  obtain ⟨hok, hp⟩ := h.of_unflagged hc₀
  rw [DriveLog.foldl_add]
  refine AtaIo.Between.of_unflagged ⟨hstep.ok hok, ?_⟩ hc₁.symm
  have hp : q.Progress c₀ g.1 g.2 := hp
  exact hstep.progress hp hok hop hfits

/-- What is left of a call keeps the accesses those of the request. -/
abbrev Serves (q : AtaIo) (p : Ata Unit) (x : AtaContext × DriveLog) : Prop :=
  Safe ataServing (anyInterrupt false) (fun x => q.Begun x.2) q.Between p x

theorem serves_of_upTo {p : Ata Unit} {x : AtaContext × DriveLog}
    (h : ∀ es u c', UpTo p x.1 es u c' → q.Between (c', es.foldl DriveLog.add x.2)) : Serves q p x :=
  Safe.of_runsUpTo (fun _ _ _ => rfl) (fun _ _ _ => rfl) (fun _ _ hxy => anyInterrupt_cases hxy)
    (fun _ _ hadd => hadd.before) (fun _ hx => hx.begun) h

theorem serves_call (hop : q.op.phase = .io) (hfits : q.Fits) (k : AtaCall)
    {x : AtaContext × DriveLog} (hx : q.Between x) : Serves q (ataServing.call k) x :=
  serves_of_upTo fun _ _ _ hr => hx.call hop hfits hr

theorem stable_between (done : Bool) : Stable (anyInterrupt done) q.Between := by
  rintro ⟨c, g⟩ ⟨c', g'⟩ hxy h
  obtain ⟨hc, rfl⟩ := anyInterrupt_cases hxy
  exact h.of_unflagged hc

/-- The function that begins the request is interrupted like any other. -/
theorem serves_begin {r : AtaRequest} (hio : r.io? = some q) (hop : q.op.phase = .io)
    (hn : q.sectorCount ≠ 0) (hidle : c.step = .idle) (t : Taskfile) :
    Serves q (AtaCall.begin r).action.prog (c, (t, [])) := by
  refine serves_of_upTo fun es u c' hr => ?_
  obtain ⟨c₀, c₁, hc₀, hstep, hc₁⟩ := AtaCall.upTo hr
  have hidle₀ : c₀.step = .idle := (congrArg (·.step) hc₀).trans hidle
  generalize hk : (AtaCall.begin r).action = a at hstep
  cases hstep with
  | accepted =>
      cases hk
      rw [AtaRequest.started_of_io hio] at hc₁
      exact AtaIo.Between.of_unflagged ⟨q.start_ok hop hn, q.start_progress t⟩ hc₁.symm
  | refused hno =>
      cases hk
      exact absurd ⟨hidle₀, fun q' hq' => Option.some.inj (hio.symm.trans hq') ▸ hn⟩ hno
  | tick => cases hk
  | irq14 => cases hk

/-- The accesses that have begun are those for some sectors, and maybe one more command. -/
theorem AtaIo.prefix_served {ds : List (DiskAccess AtaBuffer)} {n : Nat} (h : ds <+: q.served n) :
    ∃ k ≤ n, ds = q.served k ∨ ds = q.served k ++ [q.command k] := by
  induction n with
  | zero => exact ⟨0, Nat.le_refl 0, .inl (List.prefix_nil.mp h)⟩
  | succ n ih =>
      rw [q.served_succ, List.append_cons, List.prefix_concat_iff] at h
      rcases h with rfl | h
      · exact ⟨n + 1, Nat.le_refl _, .inl (by rw [q.served_succ, List.append_assoc]; rfl)⟩
      · rw [List.prefix_concat_iff] at h
        rcases h with rfl | h
        · exact ⟨n, Nat.le_succ n, .inr rfl⟩
        · obtain ⟨k, hk, hds⟩ := ih h
          exact ⟨k, Nat.le_succ_of_le hk, hds⟩

theorem AtaIo.Begun.image (h : q.Begun g) (hop : q.op.phase = .io) (hbuf : q.BufferFits) (s : Store) :
    ∃ k ≤ q.sectorCount.toNat, (g.2.foldl Store.move s).image = s.image.copy q k := by
  obtain ⟨k, hk, hds | hds⟩ := q.prefix_served h
  · exact ⟨k, hk, by rw [hds, move_served hop hbuf s hk]⟩
  · refine ⟨k, hk, ?_⟩
    rw [hds, List.foldl_append, ← move_served hop hbuf s hk]
    exact move_command _ q k

theorem AtaIo.Between.image {x : AtaContext × DriveLog} (h : q.Between x) (hop : q.op.phase = .io)
    (hbuf : q.BufferFits) (s : Store) :
    (x.2.2.foldl Store.move s).image = s.image.copy q (q.moved x.1) := by
  rw [h.2.accesses]
  exact move_pending hop hbuf s (Nat.sub_le _ _) _

end

/-- A request, from the call that begins it and with any interrupts. -/
@[irreducible]
def ataRequested (r : AtaRequest) (c : AtaContext) (t : Taskfile) (ms : List (Move AtaCall)) :
    Paused AtaBuffer AtaContext DriveLog :=
  ataServing.moves ⟨(AtaCall.begin r).action.prog, c, (t, [])⟩ ms

/-- At every point some of the first sectors have been copied, and nothing else has changed than what a read
overwrites behind them. Between two calls they are the ones that `sectors_left` does not count, and all of them
once the driver says that it is done. -/
theorem ataRequested_image {r : AtaRequest} {q : AtaIo} (hio : r.io? = some q)
    (hn : q.sectorCount ≠ 0) (hfits : q.Fits) (hbuf : q.BufferFits) {c : AtaContext}
    (hidle : c.step = .idle) (t : Taskfile) (s : Store) (ms : List (Move AtaCall)) :
    (∃ k ≤ q.sectorCount.toNat,
      ((ataRequested r c t ms).record.2.foldl Store.move s).image = s.image.copy q k) ∧
    ((ataRequested r c t ms).rest.done = true →
      ((ataRequested r c t ms).record.2.foldl Store.move s).image = s.image.copy q
        (q.sectorCount.toNat - (ataRequested r c t ms).state.sectorsLeft.toNat) ∧
      ((ataRequested r c t ms).state.step = .ioDone →
        (ataRequested r c t ms).state.sectorsLeft = 0)) := by
  have hop := AtaRequest.io?_phase hio
  have hsafe : Serves q (ataRequested r c t ms).rest (ataRequested r c t ms).point := by
    rw [ataRequested]
    exact ataServing.moves_rest_safe (fun k x hx => serves_call hop hfits k hx) (stable_between true)
      (serves_begin hio hop hn hidle t) (System.respects_of_forall (fun _ _ _ => trivial) _ ms)
  refine ⟨(hsafe.inv fun _ hx => hx.begun).image hop hbuf s, fun hdone => ?_⟩
  have hbetween := hsafe.of_done hdone
  exact ⟨hbetween.image hop hbuf s, fun hs => (hbetween.2.finished hs).1⟩

/-! ## What is written is read -/

/-- Sectors that the polling driver writes are read back by the interrupt driven one, with whichever
of the two kinds of address each of them uses. Nothing else changes but the bytes behind the ones read. -/
theorem write_then_read {dev : Pc → BitVec 16 → BitVec 8} {m m' : Pc} {w : PollTransfer}
    (hwrites : ¬ w.io.op.Reads) (hwfits : w.io.Fits) (hwbuf : w.io.BufferFits)
    (hrun : (wrapperBoard dev).run w.prog.lift m = (true, m')) {r : AtaRequest} {q : AtaIo}
    (hio : r.io? = some q) (hreads : q.op.Reads) (hlba : q.lba = w.io.lba)
    (hcount : q.sectorCount = w.io.sectorCount) (hn : q.sectorCount ≠ 0) (hfits : q.Fits)
    (hbuf : q.BufferFits) {c : AtaContext} (hidle : c.step = .idle) (t : Taskfile)
    {ms : List (Move AtaCall)} (hrest : (ataRequested r c t ms).rest.done = true)
    (hdone : (ataRequested r c t ms).state.step = .ioDone) :
    ((ataRequested r c t ms).record.2.foldl Store.move m'.store).image =
      ⟨(m.store.ram.storeBytes (q.addr.toNat + 512 * q.sectorCount.toNat) blockOverrun
          fun _ => ataStatusFloating).storeBytes q.addr.toNat (512 * q.sectorCount.toNat)
            fun i => m.store.ram (w.io.addr.toNat + i),
        m.store.disk.storeBytes (512 * q.lba.toNat) (512 * q.sectorCount.toNat)
          fun i => m.store.ram (w.io.addr.toNat + i)⟩ := by
  obtain ⟨es, hruns, heffects⟩ := (wrapperBoard dev).run_lift w.prog m
  rw [hrun] at hruns heffects
  obtain ⟨k, -, hall, hwritten⟩ :=
    (PollTransfer.runs hruns).image w.io_phase hwfits hwbuf m.taskfile m.store
  have hk : k = q.sectorCount.toNat := (hall rfl).trans (congrArg BitVec.toNat hcount.symm)
  have hstore : m'.store.image = m.store.image.copy w.io q.sectorCount.toNat := by
    rw [show m' = _ from heffects, wrapperBoard_store, hwritten, hk]
  obtain ⟨himage, hleft⟩ :=
    (ataRequested_image hio hn hfits hbuf hidle t m'.store ms).2 hrest
  have hcount₀ : q.sectorCount.toNat ≠ 0 := fun h => hn (BitVec.eq_of_toNat_eq h)
  rw [himage, hleft hdone, hstore, hlba]
  refine (Image.copy_copy hwrites hreads hlba).trans ?_
  rw [if_neg hcount₀]
  rfl

/-! ## A sample run -/

/-- A read of one sector. The handler records the status of the block when the driver waits for it,
or in the middle of the tick that looks at the flag. -/
def readMoves : List (Move AtaCall) :=
  List.replicate 30 (.step 0) ++ ticking 5 0 ++ .interrupt 0x58 :: ticking 2 0 ++ ticking 1 0x50

/-- A machine whose disk holds the same byte everywhere, and the point after the read. -/
abbrev readPoint : Paused AtaBuffer AtaContext DriveLog :=
  ataRequested (.read48 5 0x8000 1) gAtaCtx (diskOf 7).taskfile readMoves

def readRequest : AtaIo := ⟨.read48, 5, 0x8000, 1⟩

theorem readPoint_done : readPoint.rest.done = true ∧ readPoint.state.step = .ioDone := by
  decide +kernel

theorem ataRequested_image_read :
    (readPoint.record.2.foldl Store.move (diskOf 7).store).image =
      (diskOf 7).store.image.copy readRequest
        (readRequest.sectorCount.toNat - readPoint.state.sectorsLeft.toNat) :=
  ((ataRequested_image (q := readRequest) rfl (by decide) (by decide) (by decide) rfl
    (diskOf 7).taskfile (diskOf 7).store readMoves).2 readPoint_done.1).1

/-- Bytes of the memory, written to a disk by one driver and read by the other. -/
theorem write_then_read_sector :
    ∃ m', (wrapperBoard servingDrive).run (ataDiskWrite48Poll 5 0x100 1).lift (diskOf 7) = (true, m') ∧
      (readPoint.record.2.foldl Store.move m'.store).image.ram (readRequest.addr.toNat + 3) =
        (diskOf 7).store.ram (0x100 + 3) := by
  have hwritten : ((wrapperBoard servingDrive).run (ataDiskWrite48Poll 5 0x100 1).lift (diskOf 7)).1 = true := by
    decide +kernel
  have hrun := Prod.eta ((wrapperBoard servingDrive).run (ataDiskWrite48Poll 5 0x100 1).lift (diskOf 7))
  rw [hwritten] at hrun
  generalize ((wrapperBoard servingDrive).run (ataDiskWrite48Poll 5 0x100 1).lift (diskOf 7)).2 = m' at hrun
  refine ⟨m', hrun.symm, ?_⟩
  have himage := write_then_read (w := .write48 5 0x100 1) (r := .read48 5 0x8000 1)
    (q := readRequest) (by decide) (by decide) (by decide) hrun.symm rfl (by decide) rfl rfl (by decide)
    (by decide) (by decide) rfl (diskOf 7).taskfile readPoint_done.1 readPoint_done.2
  have hbyte : 3 < 512 * readRequest.sectorCount.toNat := by decide
  rw [himage]
  dsimp only
  rw [Memory.storeBytes_apply _ _ _ _ hbyte]
  rfl

end BootKernel
