import BootKernel.Vmm.Lemmas.Boot

/-!
# Enough free frames

A run of free frames that is long enough for every table that a function can create. Each allocation
takes the first free frame, so it shortens the run by at most one, and none of them fails.
-/

namespace BootKernel

/-- A run of `k` free frames among those that an allocation looks at. -/
def Room (p : Pmm) (k : Nat) : Prop :=
  ∃ b, b + k ≤ 2 ^ 30 ∧ ∀ f, b ≤ f → f < b + k → p.used f = false

section
variable {p : Pmm} {g k : Nat} {m : Machine}

theorem Room.mono {k' : Nat} (h : Room p k) (hle : k' ≤ k) : Room p k' := by
  obtain ⟨b, hb, hfree⟩ := h
  exact ⟨b, by omega, fun f hlo hhi => hfree f hlo (by omega)⟩

theorem Room.not_full (h : Room p (k + 1)) : ¬ ∀ f < 2 ^ 30, p.used f = true := by
  obtain ⟨b, hb, hfree⟩ := h
  intro hfull
  have hused := hfull b (by omega)
  rw [hfree b (Nat.le_refl b) (by omega)] at hused
  cases hused

/-- The frame that is taken is at most the first one of the run. -/
theorem Room.taken (h : Room p (k + 1)) (htaken : Machine.Taken p g) :
    Room (frameBitmapSet p (BitVec.ofNat 64 g)) k := by
  obtain ⟨b, hb, hfree⟩ := h
  have hlt := htaken.lt
  have hle : g ≤ b := by
    by_contra hbg
    have hused := htaken.first b (by omega)
    rw [hfree b (Nat.le_refl b) (by omega)] at hused
    cases hused
  refine ⟨b + 1, by omega, fun f hlo hhi => ?_⟩
  rw [used_frameBitmapSet, frameIdx_toNat (by omega), hfree f (by omega) (by omega), Bool.or_false,
    decide_eq_false_iff_not]
  omega

/-- The state has as many failures as before, and room for `k` more frames. -/
structure Roomy (fails k : Nat) (m : Machine) : Prop where
  failures : m.failures = fails
  room : Room m.pmm k

theorem Roomy.emit {fails : Nat} (h : Roomy fails k m) {e : Event} (he : e ≠ .alloc pmmInvalidFrame) :
    Roomy fails k (m.emit e) :=
  ⟨(Machine.failures_emit he m).trans h.failures, h.room⟩

theorem Roomy.setEntry {fails n : Nat} {i : Fin 512} {v : BitVec 64} (h : Roomy fails k m) :
    Roomy fails k (m.setEntry n i v) :=
  ⟨m.failures_setEntry.trans h.failures, h.room⟩

theorem Roomy.createTable {fails n : Nat} {i : Fin 512} (h : Roomy fails (k + 1) m)
    (htaken : Machine.Taken m.pmm g) : Roomy fails k (m.createTable n i g) :=
  ⟨m.failures_createTable.trans h.failures, h.room.taken htaken⟩

end

section
variable {fails k n : Nat} {m : Machine}

theorem vmmPteGetOfflineLoop_room (va : BitVec 64) (shifts : List Nat) (hn : n < 2 ^ 51)
    (h : Roomy fails (shifts.length + k) m) :
    Roomy fails k (vmmPteGetOfflineLoop true va shifts (frameAddr n) m).2 := by
  induction shifts generalizing n m with
  | nil =>
      rw [List.length_nil, Nat.zero_add] at h
      exact h
  | cons shift shifts ih =>
      rw [List.length_cons, Nat.add_right_comm] at h
      have hread : Roomy fails (shifts.length + k + 1) (m.readEntry n (vaIndex va shift)) :=
        h.emit (by simp)
      by_cases hpres : tableEntry m.mem n (vaIndex va shift) &&& pagePresent = 0
      · rcases vmmPteGetOfflineLoop_absent hn hpres with ⟨hfull, -⟩ | ⟨g, htaken, heq⟩
        · exact absurd hfull h.room.not_full
        · have hlt := htaken.lt
          rw [heq]
          exact ih (by omega) ((hread.createTable htaken).emit (by simp))
      · have hlt := entryFrame_lt (tableEntry m.mem n (vaIndex va shift))
        rw [vmmPteGetOfflineLoop_present hn hpres]
        exact ih (by omega) (Roomy.emit ⟨hread.failures, hread.room.mono (by omega)⟩ (by simp))

theorem vmmPageMapInternal_room {root : Nat} {va paddr flags : BitVec 64} (hroot : root < 2 ^ 51)
    (h : Roomy fails (3 + k) m) :
    Roomy fails k (vmmPageMapInternal (frameAddr root) va paddr flags m) := by
  have hloop := vmmPteGetOfflineLoop_room va (levelsShift.take 3) hroot h
  refine ⟨(vmmPageMapInternal_failures _ _ _ _ _).trans hloop.failures, ?_⟩
  have hpmm : (vmmPageMapInternal (frameAddr root) va paddr flags m).pmm =
      (vmmPteGetOfflineLoop true va (levelsShift.take 3) (frameAddr root) m).2.pmm := by
    rw [vmmPageMapInternal, vmmPteGetOffline]
    rcases vmmPteGetOfflineLoop true va (levelsShift.take 3) (frameAddr root) m with
      ⟨_ | table, m'⟩
    · rfl
    · simp only
      split <;> rfl
  rw [hpmm]
  exact hloop.room

theorem identityLoop_room {fuel root : Nat} (start : BitVec 64) {bound : BitVec 64} {addr : BitVec 64 → BitVec 64}
    {r : Bool × Machine} (hroot : root < 2 ^ 51) (hbound : bound.toNat ≤ 2 ^ 47)
    (h : Roomy fails (3 * ((bound.toNat + 4095 - start.toNat) / 4096) + k) m)
    (hloop : Loop.forStep bound pageSize (fun i m =>
      (true, vmmPageMapInternal (frameAddr root) (addr i) (addr i) pageWritable m)) fuel start m =
        some r) : Roomy fails k r.2 := by
  refine Loop.forStep_rule_of_eq
    (fun i s => Roomy fails (3 * ((bound.toNat + 4095 - i) / 4096) + k) s)
    (fun _ s => Roomy fails k s) (by rw [pageSize_toNat]; omega) (by rw [pageSize_toNat]; omega)
    ?_ ?_ h hloop
  · intro i s hlt hs
    have hlt' := BitVec.lt_def.mp hlt
    have hcount : 3 * ((bound.toNat + 4095 - i.toNat) / 4096) + k =
        3 + (3 * ((bound.toNat + 4095 - (i.toNat + 4096)) / 4096) + k) := by omega
    rw [hcount] at hs
    rw [pageSize_toNat, if_pos rfl]
    exact vmmPageMapInternal_room hroot hs
  · intro i s _ hs
    exact ⟨hs.failures, hs.room.mono (by omega)⟩

theorem vmmPage1gbMapOffline_room {root : Nat} (va paddr flags : BitVec 64) (hroot : root < 2 ^ 51)
    (h : Roomy fails (k + 1) m) :
    (vmmPage1gbMapOffline (frameAddr root) va paddr flags m).1 = true ∧
      Roomy fails k (vmmPage1gbMapOffline (frameAddr root) va paddr flags m).2 := by
  rcases vmmPage1gbMapOffline_cases (m := m) hroot with
    ⟨m', -, -, hfull⟩ | ⟨m₁, n, heq, -, -, hfails, hcore⟩
  · exact absurd hfull h.room.not_full
  · rw [heq]
    refine ⟨rfl, Roomy.setEntry ⟨hfails.trans h.failures, ?_⟩⟩
    rcases hcore with hcore | ⟨-, g, htaken, hcore⟩
    · rw [hcore]
      exact h.room.mono (by omega)
    · rw [hcore]
      exact h.room.taken htaken

theorem vmmHhdmCreate_room {fuel root : Nat} {r : Bool × Machine} (hroot : root < 2 ^ 51)
    (hceil : (pmmHighestAddressGet m.pmm).toNat ≤ 2 ^ 48)
    (h : Roomy fails (gibCount (pmmHighestAddressGet m.pmm) + k) m)
    (hloop : vmmHhdmCreate fuel (frameAddr root) m = some r) : r.1 = true ∧ Roomy fails k r.2 := by
  rw [vmmHhdmCreate] at hloop
  rw [gibCount] at h
  generalize pmmHighestAddressGet m.pmm = c at hceil h hloop
  have hzero : (0 : BitVec 64).toNat = 0 := rfl
  refine Loop.forStep_rule_of_eq
    (fun i s => Roomy fails ((c.toNat + (2 ^ 30 - 1) - i) / 2 ^ 30 + k) s)
    (fun r s => r = true ∧ Roomy fails k s) (by rw [gibSize_toNat]; omega)
    (by rw [gibSize_toNat]; omega) ?_ ?_ (by rw [hzero, Nat.sub_zero]; exact h) hloop
  · intro p s hlt hs
    have hlt' := BitVec.lt_def.mp hlt
    have hcount : (c.toNat + (2 ^ 30 - 1) - p.toNat) / 2 ^ 30 + k =
        (c.toNat + (2 ^ 30 - 1) - (p.toNat + 2 ^ 30)) / 2 ^ 30 + k + 1 := by omega
    rw [hcount] at hs
    obtain ⟨hok, hroom⟩ := vmmPage1gbMapOffline_room (p + hhdmOffset) p
      (pageWritable ||| pageNx) hroot hs
    rw [gibSize_toNat, if_pos hok]
    exact hroom
  · intro i s _ hs
    exact ⟨rfl, hs.failures, hs.room.mono (by omega)⟩

end

/-- The most frames that `vmm_kernel_map` can take, three for each page. -/
def kernelFrames (env : BootEnv) : Nat :=
  3 * (((env.image.kernelEnd - env.image.kernelStart).toNat + 4095) / 4096) +
    3 * (((alignUp (env.rsp + pageSize)).toNat + 4095 -
      (alignDown (env.rsp - 256 * 1024)).toNat) / 4096)

/-- The most frames that `vmm_init` can take: the root, one for each GiB of the direct map, and those
for the identity pages. -/
def bootFrames (env : BootEnv) (ceiling : BitVec 64) : Nat :=
  gibCount ceiling + (kernelFrames env + 0) + 1

theorem vmmKernelMap_room {fuel fails root k : Nat} {env : BootEnv} {m m' : Machine}
    (hroot : root < 2 ^ 51) (hlow : env.Low)
    (h : Roomy fails (kernelFrames env + k) m)
    (hmap : vmmKernelMap fuel env (frameAddr root) m = some m') : Roomy fails k m' := by
  have himage := hlow.image
  have hstack := hlow.stack
  have hend := hlow.end_toNat
  have hsize : (env.image.kernelEnd - env.image.kernelStart).toNat =
      env.image.kernelEnd.toNat - env.image.kernelStart.toNat :=
    BitVec.toNat_sub_of_le (BitVec.le_def.mpr env.image.start_le_end)
  have hzero : (0 : BitVec 64).toNat = 0 := rfl
  simp only [vmmKernelMap] at hmap
  split at hmap
  · cases hmap
  · rename_i r₁ m₁ hloop₁
    split at hmap
    · cases hmap
    · rename_i r₂ m₂ hloop₂
      cases hmap
      rw [kernelFrames, Nat.add_assoc] at h
      have h₁ := identityLoop_room 0 hroot (by omega) (by rw [hzero, Nat.sub_zero]; exact h) hloop₁
      exact identityLoop_room _ hroot (by omega) h₁ hloop₂

/-- With that many free frames in a row no allocation of `vmm_init` fails, and the rest stays free. -/
theorem vmmInit_roomy {fuel k : Nat} {env : BootEnv} {m m' : Machine} {r : Bool} (hlow : env.Low)
    (hceil : (pmmHighestAddressGet m.pmm).toNat ≤ 2 ^ 48)
    (hroom : Room m.pmm (bootFrames env (pmmHighestAddressGet m.pmm) + k))
    (h : vmmInit fuel env m = some (r, m')) : r = true ∧ Roomy m.failures k m' := by
  have hroom' : Room m.pmm (gibCount (pmmHighestAddressGet m.pmm) + (kernelFrames env + k) + 1) :=
    hroom.mono (by rw [bootFrames]; omega)
  rcases vmmInit_cases fuel env m with ⟨-, hfull⟩ | ⟨root, m₁, htaken, hcore, hsame, heq⟩
  · exact absurd hfull hroom'.not_full
  · have hlt := htaken.lt
    have hpmm : m₁.pmm = frameBitmapSet m.pmm (BitVec.ofNat 64 root) := by
      rw [hcore]
      rfl
    have hceil₁ : pmmHighestAddressGet m₁.pmm = pmmHighestAddressGet m.pmm := by
      rw [hpmm]
      exact frameBitmapSet_ceiling _ _
    have h₁ : Roomy m.failures (gibCount (pmmHighestAddressGet m₁.pmm) + (kernelFrames env + k)) m₁ :=
      ⟨hsame, by rw [hceil₁, hpmm]; exact hroom'.taken htaken⟩
    rw [heq] at h
    split at h
    · cases h
    · rename_i hhhdm
      cases (vmmHhdmCreate_room (by omega) (by rw [hceil₁]; exact hceil) h₁ hhhdm).1
    · rename_i m₂ hhhdm
      obtain ⟨-, h₂⟩ := vmmHhdmCreate_room (by omega) (by rw [hceil₁]; exact hceil) h₁ hhhdm
      split at h
      · cases h
      · rename_i m₃ hkernel
        cases h
        have h₃ := vmmKernelMap_room (by omega) hlow h₂ hkernel
        exact ⟨rfl, (Machine.failures_emit (by simp) _).trans h₃.failures, h₃.room⟩

theorem vmmInit_room {fuel : Nat} {env : BootEnv} {m m' : Machine} {r : Bool} (hlow : env.Low)
    (hceil : (pmmHighestAddressGet m.pmm).toNat ≤ 2 ^ 48)
    (hroom : Room m.pmm (bootFrames env (pmmHighestAddressGet m.pmm)))
    (h : vmmInit fuel env m = some (r, m')) : r = true ∧ m'.failures = m.failures := by
  obtain ⟨hr, hroomy⟩ := vmmInit_roomy (k := 0) hlow hceil hroom h
  exact ⟨hr, hroomy.failures⟩

/-! ## The online walker -/

section
variable {create : Bool} {va : BitVec 64} {shifts : List Nat} {n t k root : Nat} {m m' : Machine}
  {c c' : Core}

theorem Descent.room (hd : Descent create va shifts n m t m') (h : Room m.pmm (shifts.length + k)) :
    Room m'.pmm k := by
  induction hd with
  | here => exact h.mono (by rw [List.length_nil]; omega)
  | follow _ _ ih => exact ih (h.mono (by rw [List.length_cons]; omega))
  | enter _ _ htaken _ ih =>
      rw [List.length_cons, Nat.add_right_comm] at h
      exact ih (h.taken htaken)

/-- Every table lies among the frames that an allocation looks at. -/
def LowTables (root : Nat) (c : Core) : Prop := ∀ f, Radix.Reaches (slots c.mem) root f → f < 2 ^ 30

theorem LowTables.grow (h : LowTables root c) (ht : PageTree c root) (hgrow : Grow root c c') :
    LowTables root c' := by
  induction hgrow with
  | refl => exact h
  | tail hprev hstep ih =>
      cases hstep with
      | mk hp hlen hempty hfree hg =>
          have hlink := (ht.grow hprev).tree.link hp hlen hempty hfree hg
          rintro f ⟨q, hq⟩
          rcases (hlink.descend q f).mp hq with hq | ⟨-, rfl⟩
          · exact ih f ⟨q, hq⟩
          · exact hg

theorem hhdm_entryPtr_ne_zero (ht : t < 2 ^ 30) (va : BitVec 64) :
    entryPtr (Window.hhdm.base (frameAddr t)) ((va >>> 12) &&& 0x1FF) ≠ 0 := by
  have hidx : (8#64 * ((va >>> 12) &&& 0x1FF)).toNat < 4096 := by
    have hlt := (vaIndex va 12).isLt
    have h8 : (8#64).toNat = 8 := rfl
    rw [BitVec.toNat_mul, index_toNat, h8]
    omega
  have haddr : (frameAddr t).toNat < 2 ^ 42 := by
    rw [frameAddr_toNat (by omega)]
    omega
  rw [entryPtr, Window.base, vmmPhysToVirt]
  generalize 8#64 * ((va >>> 12) &&& 0x1FF) = x at hidx
  generalize frameAddr t = a at haddr
  intro h
  have hoff := hhdmOffset_toNat
  have hval : (a.toNat + hhdmOffset.toNat + x.toNat) % 2 ^ 64 = 0 := by
    have hsum := congrArg BitVec.toNat h
    rw [BitVec.toNat_add, BitVec.toNat_add, Nat.mod_add_mod] at hsum
    exact hsum
  omega

theorem vmmPageMap_room (paddr flags : BitVec 64) (ht : PageTree m.toCore root) (hps : WalksToPt m.mem root va)
    (hlow : LowTables root m.toCore) (h : Room m.pmm (3 + k)) :
    (vmmPageMap (frameAddr root) va paddr flags m).1 = true ∧
      Room (vmmPageMap (frameAddr root) va paddr flags m).2.pmm k := by
  have hroot := ht.root_lt
  rcases vmmPteGetLoop_descent true va (levelsShift.take 3) m (show root < 2 ^ 51 by omega) with
    ⟨t, m', heq, hd⟩ | ⟨above, shift, below, t, m₁, m', hsplit, hd, -, hstuck, -⟩
  · obtain ⟨hgrow, -, hend⟩ := hd.grow [] [vaIndex va 12] ht rfl hps rfl (by decide)
    have hlt := hlow.grow ht hgrow t ⟨_, hend⟩
    have hget : vmmPteGet (frameAddr root) va true m =
        (entryPtr (Window.hhdm.base (frameAddr t)) ((va >>> 12) &&& 0x1FF), m') := by
      rw [vmmPteGet, heq]
      rfl
    have hroom : Room m'.pmm k := hd.room h
    simp only [vmmPageMap, hget, if_neg (hhdm_entryPtr_ne_zero hlt va), invlpg, Machine.store64,
      Machine.emit]
    exact ⟨trivial, hroom⟩
  · -- the walk cannot get stuck, since each level above has taken at most one of the frames
    have hlen := congrArg List.length hsplit
    simp only [levelsShift, List.length_take, List.length_append, List.length_cons, List.length_nil] at hlen
    have hroom : Room m₁.pmm (0 + 1) := hd.room (h.mono (by omega))
    cases hstuck with
    | absent hcreate => cases hcreate
    | full _ hfull => exact absurd hfull hroom.not_full

/-- After `vmm_page_map` has succeeded the page maps the given frame, and the others what they did. -/
theorem vmmPageMap_walk {paddr flags : BitVec 64} (ht : PageTree m.toCore root) (hps : WalksToPt m.mem root va)
    (hlow : LowTables root m.toCore) (hok : (vmmPageMap (frameAddr root) va paddr flags m).1 = true) :
    PageTree (vmmPageMap (frameAddr root) va paddr flags m).2.toCore root ∧
      LowTables root (vmmPageMap (frameAddr root) va paddr flags m).2.toCore ∧
      (∃ t, Radix.descend (slots (vmmPageMap (frameAddr root) va paddr flags m).2.mem) 0 root (ptPath va) =
        some t) ∧
      ∀ vb, walk (vmmPageMap (frameAddr root) va paddr flags m).2.mem root vb =
        if vaPath vb = vaPath va then some (3, pageEntry paddr flags) else walk m.mem root vb := by
  obtain ⟨c, t, hgrow, hend, -, hcore⟩ := vmmPageMap_success ht hps hok
  have hgrown := ht.grow hgrow
  obtain ⟨hset, hwalk⟩ := hgrown.tree.setPage hend (pageEntry paddr flags)
  rw [hcore]
  refine ⟨hset, fun f hf => ?_, ⟨t, ?_⟩, fun vb => ?_⟩
  · rw [hgrown.tree.setPage_reaches hend] at hf
    exact hlow.grow ht hgrow f hf
  · rw [hgrown.tree.setEntry_descend hend (entrySlot_pt_ne_node (ptPath_length _) _)
      (entrySlot_pt_ne_node (ptPath_length _) _)]
    exact hend
  · rw [hwalk, if_neg (pageEntry_present _ _)]
    exact congrArg _ (hgrown.lookup _)

end

end BootKernel
