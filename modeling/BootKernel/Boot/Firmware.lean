import BootKernel.Boot.E820

/-!
# Firmware that may do anything

The loop of `get_e820_map` against firmware that answers each call as it likes, also by what it has
been asked before. The counter of the loop bounds the calls, and the descriptors that the kernel reads
through `boot_info_t` are those of the calls that succeeded.
-/

namespace BootKernel

/-! ## The loop -/

/-- The loop of `get_e820_map` where the firmware sees the calls before. -/
def e820LoopOf (int15 : List Int15Call → RealMode → RealMode) (bootinfo : BitVec 16) :
    Nat → RealMode → List Int15Call → Option (RealMode × List Int15Call)
  | 0, _, _ => none
  | fuel + 1, s, calls =>
      let request := e820Request bootinfo s
      let s := int15 calls request
      let calls := calls ++ [⟨request, s.cf⟩]
      if s.cf then some (s, calls) else
      let s := { s with bp := s.bp + 1 }
      if e820Max ≤ s.bp then some (s, calls)
      else if s.ebx ≠ 0 then e820LoopOf int15 bootinfo fuel s calls
      else some (s, calls)

def getE820MapOf (int15 : List Int15Call → RealMode → RealMode) (bootinfo : BitVec 16) (fuel : Nat)
    (s : RealMode) : Option (RealMode × List Int15Call) :=
  match e820LoopOf int15 bootinfo fuel (e820Start s) [] with
  | none => none
  | some (s, calls) =>
      some ({ s with mem := s.mem.storeBytes bootinfo.toNat 2 fun i => s.bp.extractLsb' (8 * i) 8 }, calls)

theorem e820LoopOf_const (int15 : RealMode → RealMode) (bootinfo : BitVec 16) (fuel : Nat) (s : RealMode)
    (calls : List Int15Call) :
    e820LoopOf (fun _ => int15) bootinfo fuel s calls = e820Loop int15 bootinfo fuel s calls := by
  induction fuel generalizing s calls with
  | zero => rfl
  | succ fuel ih => simp only [e820LoopOf, e820Loop, ih]

/-- Firmware that looks at the state alone is such firmware. -/
theorem getE820MapOf_const (int15 : RealMode → RealMode) (bootinfo : BitVec 16) (fuel : Nat) (s : RealMode) :
    getE820MapOf (fun _ => int15) bootinfo fuel s = getE820Map int15 bootinfo fuel s := by
  rw [getE820MapOf, e820LoopOf_const]
  cases h : e820Loop int15 bootinfo fuel (e820Start s) [] with
  | none => rw [getE820Map, h]
  | some r => rw [getE820Map, h]

/-! ## What the kernel reads -/

/-- The descriptor in the 24 bytes from `a`. -/
def e820EntryAt (m : Memory) (a : Nat) : E820Entry where
  base := m.load64 a
  length := m.load64 (a + 8)
  type := (m.load64 (a + 16)).setWidth 32
  attr := (m.load64 (a + 16) >>> 32).setWidth 32

/-- The field `e820_count` of `boot_info_t`. -/
def bootInfoCount (m : Memory) (bootinfo : Nat) : BitVec 16 := m (bootinfo + 1) ++ m bootinfo

/-- The address of element `i` of the field `e820_map`. -/
def bootInfoEntry (bootinfo i : Nat) : Nat := bootinfo + 2 + 24 * i

/-- The descriptors that `pmm_init` is called with. -/
def bootInfoMap (m : Memory) (bootinfo : Nat) : List E820Entry :=
  (List.range (bootInfoCount m bootinfo).toNat).map fun i => e820EntryAt m (bootInfoEntry bootinfo i)

/-- The label `bootinfo`. Stage 2 is loaded into the 16 KiB from `0x8000`. -/
structure BootInfoLabel where
  label : BitVec 16
  loaded : label.toNat + 2 + 24 * 64 ≤ 0xC000

/-- The state `t` and the calls after the loop, where the array of `boot_info_t` has 64 elements. -/
structure FirmwareBounded (bootinfo : Nat) (t : RealMode) (calls : List Int15Call) : Prop where
  calls_le : calls.length ≤ 64
  count_le : (bootInfoCount t.mem bootinfo).toNat ≤ 64
  inside : ∀ i call, calls[i]? = some call → call.request.destination = bootInfoEntry bootinfo i ∧
    bootInfoEntry bootinfo i + 24 ≤ bootInfoEntry bootinfo 64
  read : ∀ i e, (bootInfoMap t.mem bootinfo)[i]? = some e → i < 64 ∧
    ∃ call, calls[i]? = some call ∧ call.carry = false ∧ e = e820EntryAt t.mem call.request.destination

section

variable {int15 : List Int15Call → RealMode → RealMode} {B : BootInfoLabel} {s : RealMode}
  {calls : List Int15Call} {fuel k : Nat}

theorem e820Request_di (bootinfo : BitVec 16) (s : RealMode) :
    (e820Request bootinfo s).di = e820Map bootinfo + s.bp * e820EntrySize := by
  simp only [e820Request]
  rw [RealMode.ax_setAx, RealMode.ax_setAx]
  rfl

theorem e820Request_destination (B : BootInfoLabel) (hk : k < 64) (hbp : s.bp = BitVec.ofNat 16 k)
    (hes : s.es = 0) : (e820Request B.label s).destination = bootInfoEntry B.label.toNat k := by
  have hfits := B.loaded
  have hdi : (e820Request B.label s).di.toNat = B.label.toNat + 2 + 24 * k := by
    have htwo : (2 : BitVec 16).toNat = 2 := rfl
    have hsize : e820EntrySize.toNat = 24 := rfl
    rw [e820Request_di, hbp, e820Map, BitVec.toNat_add, BitVec.toNat_add, BitVec.toNat_mul,
      BitVec.toNat_ofNat, htwo, hsize]
    omega
  have hseg : (e820Request B.label s).es = s.es := rfl
  rw [RealMode.destination, hdi, hseg, hes, bootInfoEntry]
  simp

/-- The calls so far all succeeded, each with its own element as the destination. -/
structure CallsSucceeded (B : BootInfoLabel) (calls : List Int15Call) : Prop where
  carry : ∀ call ∈ calls, call.carry = false
  destination : ∀ i call, calls[i]? = some call →
    call.request.destination = bootInfoEntry B.label.toNat i

theorem destination_concat {request : RealMode} (carry : Bool)
    (h : ∀ i call, calls[i]? = some call → call.request.destination = bootInfoEntry B.label.toNat i)
    (hreq : request.destination = bootInfoEntry B.label.toNat calls.length) (i : Nat) (call : Int15Call)
    (hi : (calls ++ [⟨request, carry⟩])[i]? = some call) :
    call.request.destination = bootInfoEntry B.label.toNat i := by
  rcases Nat.lt_trichotomy i calls.length with hlt | rfl | hgt
  · rw [List.getElem?_append_left hlt] at hi
    exact h i call hi
  · rw [List.getElem?_concat_length] at hi
    cases hi
    exact hreq
  · rw [List.getElem?_eq_none (by simp; omega)] at hi
    cases hi

/-- What the loop leaves: BP counts the calls that succeeded, which come first. -/
structure LoopBounded (B : BootInfoLabel) (t : RealMode) (calls : List Int15Call) : Prop where
  calls_le : calls.length ≤ 64
  count_le : t.bp.toNat ≤ calls.length
  carry : ∀ i call, i < t.bp.toNat → calls[i]? = some call → call.carry = false
  destination : ∀ i call, calls[i]? = some call →
    call.request.destination = bootInfoEntry B.label.toNat i

section
variable {t request : RealMode}

theorem CallsSucceeded.concat (h : CallsSucceeded B calls)
    (hreq : request.destination = bootInfoEntry B.label.toNat calls.length) :
    CallsSucceeded B (calls ++ [⟨request, false⟩]) := by
  refine ⟨fun call hcall => ?_, destination_concat false h.destination hreq⟩
  rcases List.mem_append.mp hcall with hcall | hcall
  · exact h.carry call hcall
  · rw [List.mem_singleton.mp hcall]

/-- The loop ends after a call that succeeded. -/
theorem CallsSucceeded.ended (h : CallsSucceeded B calls) (hle : calls.length ≤ 64)
    (hbp : t.bp.toNat = calls.length) : LoopBounded B t calls where
  calls_le := hle
  count_le := Nat.le_of_eq hbp
  carry _ call _ hcall := h.carry call (List.mem_of_getElem? hcall)
  destination := h.destination

/-- The loop ends with a call that failed, which BP does not count. -/
theorem CallsSucceeded.refused (h : CallsSucceeded B calls) (hlt : calls.length < 64)
    (hbp : t.bp.toNat = calls.length)
    (hreq : request.destination = bootInfoEntry B.label.toNat calls.length) :
    LoopBounded B t (calls ++ [⟨request, true⟩]) where
  calls_le := by
    simp only [List.length_append, List.length_singleton]
    omega
  count_le := by
    simp only [List.length_append, List.length_singleton]
    omega
  carry i call hi hcall := by
    rw [hbp] at hi
    rw [List.getElem?_append_left hi] at hcall
    exact h.carry call (List.mem_of_getElem? hcall)
  destination := destination_concat true h.destination hreq

end

theorem e820LoopOf_bounded (hkeeps : ∀ calls s, (int15 calls s).bp = s.bp ∧ (int15 calls s).es = s.es)
    (hfuel : 64 ≤ calls.length + fuel) (hlt : calls.length < 64)
    (hbp : s.bp = BitVec.ofNat 16 calls.length) (hes : s.es = 0) (h : CallsSucceeded B calls) :
    ∃ t calls', e820LoopOf int15 B.label fuel s calls = some (t, calls') ∧ LoopBounded B t calls' := by
  induction fuel generalizing s calls with
  | zero => omega
  | succ fuel ih =>
      have hreq := e820Request_destination B hlt hbp hes
      obtain ⟨hkbp, hkes⟩ := hkeeps calls (e820Request B.label s)
      have hbp' : (int15 calls (e820Request B.label s)).bp = s.bp := hkbp
      have hes' : (int15 calls (e820Request B.label s)).es = 0 := hkes.trans hes
      simp only [e820LoopOf]
      generalize int15 calls (e820Request B.label s) = t at hbp' hes'
      have hnat : t.bp.toNat = calls.length := by
        rw [hbp', hbp, BitVec.toNat_ofNat]
        omega
      cases hcf : t.cf with
      | true => exact ⟨t, _, rfl, h.refused hlt hnat hreq⟩
      | false =>
          have hsucc := h.concat hreq
          have hlength : (calls ++ [(⟨e820Request B.label s, false⟩ : Int15Call)]).length = calls.length + 1 :=
            List.length_append
          have hnext : (t.bp + 1).toNat = calls.length + 1 := by
            have hone : (1 : BitVec 16).toNat = 1 := rfl
            rw [BitVec.toNat_add, hnat, hone]
            omega
          simp only [Bool.false_eq_true, if_false]
          by_cases hmax : e820Max ≤ t.bp + 1
          · rw [if_pos hmax]
            exact ⟨_, _, rfl, hsucc.ended (by omega) (hnext.trans hlength.symm)⟩
          · rw [if_neg hmax]
            by_cases hebx : t.ebx ≠ 0
            · rw [if_pos hebx]
              have hmax' : ¬ 64 ≤ calls.length + 1 := fun hle => hmax (by
                rw [BitVec.le_def, hnext]
                exact hle)
              refine ih (by omega) (by omega) ?_ hes' hsucc
              apply BitVec.eq_of_toNat_eq
              rw [hnext, BitVec.toNat_ofNat, hlength]
              omega
            · rw [if_neg hebx]
              exact ⟨_, _, rfl, hsucc.ended (by omega) (hnext.trans hlength.symm)⟩

theorem bootInfoCount_storeBytes (m : Memory) (bootinfo : Nat) (v : BitVec 16) :
    bootInfoCount (m.storeBytes bootinfo 2 fun i => v.extractLsb' (8 * i) 8) bootinfo = v := by
  have hlow : m.storeBytes bootinfo 2 (fun i => v.extractLsb' (8 * i) 8) bootinfo =
      v.extractLsb' 0 8 := by
    simp [Memory.storeBytes]
  have hhigh : m.storeBytes bootinfo 2 (fun i => v.extractLsb' (8 * i) 8) (bootinfo + 1) =
      v.extractLsb' 8 8 := by
    simp [Memory.storeBytes]
  rw [bootInfoCount, hlow, hhigh]
  apply BitVec.eq_of_getLsbD_eq
  intro i hi
  simp only [BitVec.getLsbD_append, BitVec.getLsbD_extractLsb']
  grind

theorem LoopBounded.firmware {t u : RealMode} (h : LoopBounded B t calls)
    (hcount : bootInfoCount u.mem B.label.toNat = t.bp) : FirmwareBounded B.label.toNat u calls where
  calls_le := h.calls_le
  count_le := by
    rw [hcount]
    exact h.count_le.trans h.calls_le
  inside := fun i call hcall => by
    have hlt := (List.getElem?_eq_some_iff.mp hcall).1
    have hle := h.calls_le
    refine ⟨h.destination i call hcall, ?_⟩
    unfold bootInfoEntry
    omega
  read := fun i e he => by
    obtain ⟨j, hj, rfl⟩ : ∃ j, (List.range t.bp.toNat)[i]? = some j ∧
        e820EntryAt u.mem (bootInfoEntry B.label.toNat j) = e := by
      rwa [bootInfoMap, hcount, List.getElem?_map, Option.map_eq_some_iff] at he
    obtain ⟨hlt, rfl⟩ : i < t.bp.toNat ∧ i = j := by
      obtain ⟨hlt, hget⟩ := List.getElem?_eq_some_iff.mp hj
      rw [List.length_range] at hlt
      rw [List.getElem_range] at hget
      exact ⟨hlt, hget⟩
    have hcalls := Nat.lt_of_lt_of_le hlt h.count_le
    have hcall := List.getElem?_eq_getElem hcalls
    refine ⟨Nat.lt_of_lt_of_le hcalls h.calls_le, calls[i], hcall, h.carry i _ hlt hcall, ?_⟩
    rw [h.destination i _ hcall]

end

/-- Whatever the firmware answers, `get_e820_map` ends after at most 64 calls, each with a destination
inside the array, and the kernel reads descriptors only where a call succeeded. -/
theorem getE820MapOf_bounded {int15 : List Int15Call → RealMode → RealMode}
    (hkeeps : ∀ calls s, (int15 calls s).bp = s.bp ∧ (int15 calls s).es = s.es) (B : BootInfoLabel)
    {s : RealMode} (hes : s.es = 0) {fuel : Nat} (hfuel : 64 ≤ fuel) :
    ∃ t calls, getE820MapOf int15 B.label fuel s = some (t, calls) ∧
      FirmwareBounded B.label.toNat t calls := by
  have hnone : CallsSucceeded B [] := ⟨by simp, by simp⟩
  have hturns : 64 ≤ ([] : List Int15Call).length + fuel := hfuel.trans (Nat.le_add_left fuel _)
  have hbp : (e820Start s).bp = BitVec.ofNat 16 ([] : List Int15Call).length := rfl
  obtain ⟨t, calls, heq, h⟩ := e820LoopOf_bounded hkeeps hturns (Nat.zero_lt_succ 63) hbp hes hnone
  rw [getE820MapOf, heq]
  exact ⟨_, calls, rfl, h.firmware (bootInfoCount_storeBytes t.mem B.label.toNat t.bp)⟩

/-- Firmware that never ends the list. -/
def endlessInt15 (_ : List Int15Call) (s : RealMode) : RealMode := { s with ebx := 1, cf := false }

theorem getE820MapOf_bounded_endless :
    ∃ t calls, getE820MapOf endlessInt15 0x8180 64 sampleRealMode = some (t, calls) ∧
      FirmwareBounded 0x8180 t calls := by
  have hkeeps (calls : List Int15Call) (s : RealMode) :
      (endlessInt15 calls s).bp = s.bp ∧ (endlessInt15 calls s).es = s.es := ⟨rfl, rfl⟩
  have hes : sampleRealMode.es = 0 := rfl
  exact getE820MapOf_bounded hkeeps ⟨0x8180, by decide⟩ hes (Nat.le_refl 64)

end BootKernel
