import BootKernel.Ata.Poll.Trace
import BootKernel.Io.Drive
import BootKernel.Loader.Theorems

/-!
# What the transfers move

Both drivers are meant to copy sectors between the disk and the memory. Here the copy is one operation on what the
two hold, and what the drive and the wrappers make of the accesses of a driver is such a copy. A read overwrites
some bytes behind the sectors as well.
-/

namespace BootKernel

open PortProgram

/-! ## Copies -/

/-- What is in the memory and on the disk. -/
structure Image where
  ram : Memory
  disk : Memory

def Store.image (s : Store) : Image := ⟨s.ram, s.disk⟩

/-- The bytes behind a sector that its block overwrites, where the wrapper takes the port for the low half of the
count. -/
def blockOverrun : Nat := 2 * movedWords ataRegData 256 - 512

/-- The first `k` sectors of a request, copied. What a read takes from the drive behind a sector floats. -/
def Image.copy (x : Image) (q : AtaIo) (k : Nat) : Image :=
  if q.op.Reads then
    { x with
      ram := (x.ram.storeBytes (q.addr.toNat + 512 * k) (if k = 0 then 0 else blockOverrun)
        fun _ => ataStatusFloating).storeBytes q.addr.toNat (512 * k) fun i => x.disk (512 * q.lba.toNat + i) }
  else
    { x with disk := x.disk.storeBytes (512 * q.lba.toNat) (512 * k) fun i => x.ram (q.addr.toNat + i) }

/-- The memory that a request touches does not reach past the last address. -/
def AtaIo.BufferFits (q : AtaIo) : Prop := q.addr.toNat + 512 * q.sectorCount.toNat + blockOverrun ≤ 2 ^ 64

instance (q : AtaIo) : Decidable q.BufferFits := inferInstanceAs (Decidable (_ ≤ _))

theorem blockOverrun_eq : blockOverrun = 480 := by decide

section

variable {x : Image} {q w r : AtaIo} {k n : Nat}

theorem Image.copy_of_reads (h : q.op.Reads) : x.copy q k =
    ⟨(x.ram.storeBytes (q.addr.toNat + 512 * k) (if k = 0 then 0 else blockOverrun)
      fun _ => ataStatusFloating).storeBytes q.addr.toNat (512 * k) fun i => x.disk (512 * q.lba.toNat + i),
      x.disk⟩ :=
  if_pos h

theorem Image.copy_of_writes (h : ¬ q.op.Reads) : x.copy q k =
    ⟨x.ram, x.disk.storeBytes (512 * q.lba.toNat) (512 * k) fun i => x.ram (q.addr.toNat + i)⟩ :=
  if_neg h

theorem Image.copy_zero (x : Image) (q : AtaIo) : x.copy q 0 = x := by
  by_cases h : q.op.Reads
  · rw [copy_of_reads h, Memory.storeBytes_zero, if_pos rfl, Memory.storeBytes_zero]
  · rw [copy_of_writes h, Memory.storeBytes_zero]

/-- What was written is read back, to wherever it is read, and only the bytes behind it have changed as well. -/
theorem Image.copy_copy (hw : ¬ w.op.Reads) (hr : r.op.Reads) (hlba : r.lba = w.lba) :
    (x.copy w n).copy r n =
      ⟨(x.ram.storeBytes (r.addr.toNat + 512 * n) (if n = 0 then 0 else blockOverrun)
        fun _ => ataStatusFloating).storeBytes r.addr.toNat (512 * n) fun i => x.ram (w.addr.toNat + i),
        x.disk.storeBytes (512 * w.lba.toNat) (512 * n) fun i => x.ram (w.addr.toNat + i)⟩ := by
  rw [copy_of_reads hr, copy_of_writes hw, hlba]
  refine congrArg (Image.mk · _) (Memory.storeBytes_congr _ _ _ _ fun i hi => ?_)
  exact Memory.storeBytes_apply x.disk _ _ (fun i => x.ram (w.addr.toNat + i)) hi

/-! ## The accesses of a request -/

/-- The bytes that the block of one sector puts in the memory, when the drive gives no more than the sector. -/
def blockByte (f : Nat → BitVec 8) (i : Nat) : BitVec 8 := if i < 512 then f i else ataStatusFloating

/-- The command and the block of one sector copy it. -/
theorem move_sector {s : Store} (hop : q.op.phase = .io)
    (haddr : (q.addr + BitVec.ofNat 64 (512 * k)).toNat = q.addr.toNat + 512 * k) :
    ([q.command k, q.transfer k].foldl Store.move s).image =
      if q.op.Reads then
        ⟨s.ram.storeBytes (q.addr.toNat + 512 * k) (512 + blockOverrun)
          (blockByte fun i => s.disk (512 * (q.lba.toNat + k) + i)), s.disk⟩
      else
        ⟨s.ram, s.disk.storeBytes (512 * (q.lba.toNat + k)) 512
          fun i => s.ram (q.addr.toNat + 512 * k + i)⟩ := by
  have hmoved : 2 * movedWords ataRegData (BitVec.ofNat 64 256) = 512 + blockOverrun := by decide
  by_cases hr : q.op.Reads
  · have hcode : blockCommand q.op.code (q.lba.toNat + k) 1 =
        some ⟨false, 512 * (q.lba.toNat + k), 512 * 1⟩ := by
      rcases hr with h | h
      · rw [h]; rfl
      · rw [h]; rfl
    simp only [List.foldl, AtaIo.command, AtaIo.transfer, if_pos hr, Store.move, DiskAccess.moved,
      Store.perform, hcode, haddr, hmoved, Store.image]
    rfl
  · have hcode : blockCommand q.op.code (q.lba.toNat + k) 1 =
        some ⟨true, 512 * (q.lba.toNat + k), 512 * 1⟩ := by
      cases h : q.op with
      | none | init28 | init48 => rw [h] at hop; cases hop
      | read28 => exact absurd (.inl h) hr
      | read48 => exact absurd (.inr h) hr
      | write28 | write48 => rfl
    simp only [List.foldl, AtaIo.command, AtaIo.transfer, if_neg hr, Store.move, DiskAccess.moved,
      Store.perform, hcode, haddr, hmoved, Store.image]
    rw [Nat.min_eq_right (Nat.le_add_right 512 _)]

/-- One more block takes the place of what was behind the blocks before. -/
theorem storeBytes_block (m : Memory) (a n : Nat) (f : Nat → BitVec 8) :
    ((m.storeBytes (a + 512 * n) (if n = 0 then 0 else blockOverrun) fun _ => ataStatusFloating).storeBytes a
      (512 * n) f).storeBytes (a + 512 * n) (512 + blockOverrun) (blockByte fun i => f (512 * n + i)) =
      (m.storeBytes (a + 512 * (n + 1)) blockOverrun fun _ => ataStatusFloating).storeBytes a (512 * (n + 1)) f := by
  have hbefore : (if n = 0 then 0 else blockOverrun) ≤ blockOverrun := by
    split
    · exact Nat.zero_le _
    · exact Nat.le_refl _
  funext x
  simp only [Memory.storeBytes, blockByte]
  by_cases hblock : a + 512 * n ≤ x ∧ x < a + 512 * n + (512 + blockOverrun)
  · rw [if_pos hblock]
    by_cases hsector : x < a + 512 * (n + 1)
    · rw [if_pos (by omega), if_pos (by omega)]
      exact congrArg f (by omega)
    · rw [if_neg (by omega), if_neg (by omega), if_pos (by omega)]
  · rw [if_neg hblock]
    by_cases hfirst : a ≤ x ∧ x < a + 512 * n
    · rw [if_pos hfirst, if_pos (by omega)]
    · rw [if_neg hfirst, if_neg (by omega), if_neg (by omega), if_neg (by omega)]

/-- The accesses that serve the first sectors copy them. -/
theorem move_served (hop : q.op.phase = .io) (hbuf : q.BufferFits) (s : Store)
    (hn : n ≤ q.sectorCount.toNat) :
    ((q.served n).foldl Store.move s).image = s.image.copy q n := by
  induction n with
  | zero => exact (Image.copy_zero s.image q).symm
  | succ n ih =>
      unfold AtaIo.BufferFits at hbuf
      have haddr : (q.addr + BitVec.ofNat 64 (512 * n)).toNat = q.addr.toNat + 512 * n := by
        rw [blockOverrun_eq] at hbuf
        rw [BitVec.toNat_add, BitVec.toNat_ofNat, Nat.add_mod_mod, Nat.mod_eq_of_lt (by omega)]
      have ih := ih (by omega)
      rw [q.served_succ, List.foldl_append, move_sector hop haddr]
      by_cases hr : q.op.Reads
      · rw [Image.copy_of_reads hr] at ih
        obtain ⟨hram, hdisk⟩ := Image.mk.inj ih
        rw [if_pos hr, Image.copy_of_reads hr, hram, hdisk, if_neg (Nat.succ_ne_zero n),
          ← storeBytes_block s.image.ram q.addr.toNat n]
        refine congrArg (Image.mk · _) (congrArg (Memory.storeBytes _ _ _) (congrArg blockByte (funext fun i => ?_)))
        exact congrArg s.disk (by omega)
      · rw [Image.copy_of_writes hr] at ih
        obtain ⟨hram, hdisk⟩ := Image.mk.inj ih
        rw [if_neg hr, Image.copy_of_writes hr, hram, hdisk]
        refine congrArg (Image.mk _) ?_
        rw [show 512 * (n + 1) = 512 * n + 512 by omega, ← Memory.storeBytes_append, Nat.mul_add]
        refine congrArg (Memory.storeBytes _ _ _) (funext fun i => congrArg s.ram ?_)
        omega

theorem move_command (s : Store) (q : AtaIo) (k : Nat) :
    ([q.command k].foldl Store.move s).image = s.image := rfl

/-- A command that still waits for its block copies nothing. -/
theorem move_pending (hop : q.op.phase = .io) (hbuf : q.BufferFits) (s : Store)
    (hn : n ≤ q.sectorCount.toNat) (waits : Prop) [Decidable waits] :
    ((q.served n ++ if waits then [] else [q.command n]).foldl Store.move s).image =
      s.image.copy q n := by
  rw [List.foldl_append, ← move_served hop hbuf s hn]
  split
  · rfl
  · exact move_command _ q n

end

/-! ## The polling driver -/

/-- What transfers one after the other may do to an image, and what they may return: each copies its
first sectors, and all of them if it returns 1. -/
inductive Copies : List PollTransfer → List Bool → Image → Image → Prop where
  | nil {x} : Copies [] [] x x
  | cons {r rs b bs x y k} : k ≤ r.io.sectorCount.toNat → (b = true → k = r.io.sectorCount.toNat) →
      Copies rs bs (x.copy r.io k) y → Copies (r :: rs) (b :: bs) x y

theorem PollTransfer.io_phase (r : PollTransfer) : r.io.op.phase = .io := by
  cases r with
  | read28 | write28 | read48 | write48 => rfl

theorem AtaIo.PollRun.image {q : AtaIo} {es : List AtaEvent} {b : Bool} (h : q.PollRun 0 es b)
    (hop : q.op.phase = .io) (hfits : q.Fits) (hbuf : q.BufferFits) (t : Taskfile) (s : Store) :
    ∃ k ≤ q.sectorCount.toNat, (b = true → k = q.sectorCount.toNat) ∧
      ((t.decode es).2.foldl Store.move s).image = s.image.copy q k := by
  obtain ⟨k, waits, hk, hlt, hall, hdecode⟩ := h.accesses
  refine ⟨k, hk, fun hb => (hall hb).1, ?_⟩
  have hes : (t.decode es).2 = q.reached k ++ if waits then [q.addressed k] else [] := hdecode t
  rw [hes, q.reached_eq hfits hk]
  cases waits with
  | false =>
      rw [if_neg Bool.false_ne_true, List.append_nil]
      exact move_served hop hbuf s hk
  | true =>
      rw [if_pos rfl, q.addressed_eq hfits (hlt rfl), List.foldl_append,
        ← move_served hop hbuf s hk]
      exact move_command _ q k

/-- The machine whose accesses are made by the wrappers. -/
def wrapperBoard (dev : Pc → BitVec 16 → BitVec 8) : Board AtaBuffer Pc where
  answer port m := dev m port
  effect e m :=
    { m with
      store := (m.taskfile.step e).2.foldl Store.move m.store
      taskfile := (m.taskfile.step e).1
      trace := m.trace ++ [e] }

theorem wrapperBoard_store (dev : Pc → BitVec 16 → BitVec 8) (es : List AtaEvent) (m : Pc) :
    ((wrapperBoard dev).effects es m).store = (m.taskfile.decode es).2.foldl Store.move m.store := by
  induction es generalizing m with
  | nil => rfl
  | cons e es ih =>
      refine (ih _).trans ?_
      simp only [Taskfile.decode, List.foldl_append]
      rfl

/-- Transfers that are asked for one after the other. -/
def pollTransfers : List PollTransfer → Poll (List Bool)
  | [] => return []
  | r :: rs => do
      let b ← r.prog
      let bs ← pollTransfers rs
      return b :: bs

/-- On a disk whose answers are arbitrary, every list of transfers is a list of copies. -/
theorem run_pollTransfers {dev : Pc → BitVec 16 → BitVec 8} {rs : List PollTransfer}
    (hfits : ∀ r ∈ rs, r.io.Fits ∧ r.io.BufferFits) (m : Pc) :
    Copies rs ((wrapperBoard dev).run (pollTransfers rs).lift m).1 m.store.image
      ((wrapperBoard dev).run (pollTransfers rs).lift m).2.store.image := by
  induction rs generalizing m with
  | nil => exact .nil
  | cons r rs ih =>
      obtain ⟨hr, hbuf⟩ := hfits r List.mem_cons_self
      obtain ⟨es, hruns, heffects⟩ := (wrapperBoard dev).run_lift r.prog m
      obtain ⟨k, hk, hall, himage⟩ := (PollTransfer.runs hruns).image r.io_phase hr hbuf m.taskfile m.store
      have hstore : ((wrapperBoard dev).run r.prog.lift m).2.store.image = m.store.image.copy r.io k := by
        rw [heffects, wrapperBoard_store, himage]
      have hrest := ih (fun r' hr' => hfits r' (List.mem_cons_of_mem r hr'))
        ((wrapperBoard dev).run r.prog.lift m).2
      rw [hstore] at hrest
      rw [pollTransfers, Prog.lift_bind, Board.run_bind, Prog.lift_bind, Board.run_bind]
      exact .cons hk hall hrest

theorem run_pollTransfers_two :
    let run := (wrapperBoard servingDrive).run
      (pollTransfers [.write48 5 0x100 1, .read28 5 0x8000 1]).lift (diskOf 7)
    Copies [.write48 5 0x100 1, .read28 5 0x8000 1] run.1 (diskOf 7).store.image run.2.store.image :=
  run_pollTransfers (by decide) (diskOf 7)

end BootKernel
