import BootKernel.Vmm.Lemmas.Boot

/-!
# Identity pages under a large page

With a ceiling above 2^47 the direct map wraps round, and the first GiB of the lower half lies under a
large page when `vmm_kernel_map` runs. The walker follows that page into ordinary memory. If each word
there happens to name the frame `t`, every identity page is written into `t` and nowhere else.
-/

namespace BootKernel

/-- Every walk below 1 GiB is led to the frame `t`. -/
structure Detour (mem : Memory) (root n pd t : Nat) : Prop where
  pml4 : tableEntry mem root 0 &&& pagePresent ≠ 0
  pml4_frame : entryFrame (tableEntry mem root 0) = n
  pdpt : tableEntry mem n 0 &&& pagePresent ≠ 0
  pdpt_frame : entryFrame (tableEntry mem n 0) = pd
  links : ∀ i, tableEntry mem pd i &&& pagePresent ≠ 0
  links_frame : ∀ i, entryFrame (tableEntry mem pd i) = t
  apart : root ≠ t ∧ n ≠ t ∧ pd ≠ t
  nonzero : t ≠ 0
  root_lt : root < 2 ^ 40

section
variable {mem mem' : Memory} {root n pd t : Nat} {m : Machine}

theorem Detour.congr (h : Detour mem root n pd t)
    (hsame : ∀ f i, f ≠ t → tableEntry mem' f i = tableEntry mem f i) : Detour mem' root n pd t := by
  obtain ⟨hroot, hn, hpd⟩ := h.apart
  refine ⟨?_, ?_, ?_, ?_, fun i => ?_, fun i => ?_, h.apart, h.nonzero, h.root_lt⟩
  · rw [hsame _ _ hroot]
    exact h.pml4
  · rw [hsame _ _ hroot]
    exact h.pml4_frame
  · rw [hsame _ _ hn]
    exact h.pdpt
  · rw [hsame _ _ hn]
    exact h.pdpt_frame
  · rw [hsame _ _ hpd]
    exact h.links i
  · rw [hsame _ _ hpd]
    exact h.links_frame i

theorem vaIndex_low {va : BitVec 64} (hva : va.toNat < 2 ^ 30) : vaIndex va 39 = 0 ∧ vaIndex va 30 = 0 := by
  constructor
  · apply Fin.ext
    simp only [vaIndex, Fin.val_zero]
    omega
  · apply Fin.ext
    simp only [vaIndex, Fin.val_zero]
    omega

theorem vmmPteGetOfflineLoop_follow {f : Nat} (va : BitVec 64) (shift : Nat) (shifts : List Nat)
    (hn : n < 2 ^ 40) (hpres : tableEntry m.mem n (vaIndex va shift) &&& pagePresent ≠ 0)
    (hframe : entryFrame (tableEntry m.mem n (vaIndex va shift)) = f) :
    ∃ m' : Machine, m'.toCore = m.toCore ∧
      vmmPteGetOfflineLoop true va (shift :: shifts) (frameAddr n) m =
        vmmPteGetOfflineLoop true va shifts (frameAddr f) m' := by
  rw [vmmPteGetOfflineLoop_present (by omega) hpres, hframe]
  exact ⟨(m.readEntry n (vaIndex va shift)).emit (.follow (tableEntry m.mem n (vaIndex va shift))), rfl, rfl⟩

theorem vmmPageMapInternal_detour {va : BitVec 64} (paddr flags : BitVec 64) (h : Detour m.mem root n pd t)
    (hva : va.toNat < 2 ^ 30) :
    (vmmPageMapInternal (frameAddr root) va paddr flags m).toCore =
      { m.toCore with mem := setEntry m.mem t (vaIndex va 12) (pageEntry paddr flags) } := by
  obtain ⟨h39, h30⟩ := vaIndex_low hva
  have ht : t < 2 ^ 40 := h.links_frame 0 ▸ entryFrame_lt _
  have hn : n < 2 ^ 40 := h.pml4_frame ▸ entryFrame_lt _
  have hpd : pd < 2 ^ 40 := h.pdpt_frame ▸ entryFrame_lt _
  obtain ⟨m₁, hcore₁, hloop₁⟩ :=
    vmmPteGetOfflineLoop_follow va 39 [30, 21] h.root_lt (h39.symm ▸ h.pml4) (h39.symm ▸ h.pml4_frame)
  rw [← hcore₁] at h
  obtain ⟨m₂, hcore₂, hloop₂⟩ :=
    vmmPteGetOfflineLoop_follow va 30 [21] hn (h30.symm ▸ h.pdpt) (h30.symm ▸ h.pdpt_frame)
  rw [← hcore₂] at h
  obtain ⟨m₃, hcore₃, hloop₃⟩ :=
    vmmPteGetOfflineLoop_follow va 21 [] hpd (h.links _) (h.links_frame _)
  have hshifts : levelsShift.take 3 = [39, 30, 21] := rfl
  have hloop : vmmPteGetOfflineLoop true va (levelsShift.take 3) (frameAddr root) m =
      (some (frameAddr t), m₃) := by
    rw [hshifts, hloop₁, hloop₂, hloop₃, vmmPteGetOfflineLoop]
  have hnull := entryPtr_ne_zero (show t < 2 ^ 51 by omega) h.nonzero (index_toNat va 12)
  have hstore := m₃.store64_entry .identity (show t < 2 ^ 51 by omega) va 12 (pageEntry paddr flags)
  simp only [Window.base, pageEntry] at hstore
  simp only [vmmPageMapInternal, vmmPteGetOffline, hloop, hnull, ne_eq, not_false_eq_true, ↓reduceIte,
    hstore, pageEntry, Machine.setEntry, Machine.emit, hcore₃, hcore₂, hcore₁]

/-- A loop over pages below 1 GiB writes into `t` alone, and its last page stays there. -/
theorem identityLoop_detour {fuel : Nat} (base : Nat) (start bound : BitVec 64) (addr : BitVec 64 → BitVec 64)
    {r : Bool × Machine} (h : Detour m.mem root n pd t)
    (haddr : ∀ i, i < bound → (addr i).toNat = base + i.toNat) (hlow : base + bound.toNat ≤ 2 ^ 30)
    (hle : start.toNat ≤ bound.toNat) (hstart : start.toNat % 4096 = 0) (hbound : bound.toNat % 4096 = 0)
    (hloop : Loop.forStep bound pageSize (fun i m =>
      (true, vmmPageMapInternal (frameAddr root) (addr i) (addr i) pageWritable m)) fuel start m =
        some r) :
    r.2.pmm = m.pmm ∧ (∀ f i, f ≠ t → tableEntry r.2.mem f i = tableEntry m.mem f i) ∧
      ∀ last, start.toNat ≤ last.toNat → last.toNat + 4096 = bound.toNat →
        tableEntry r.2.mem t (vaIndex (addr last) 12) = pageEntry (addr last) pageWritable := by
  refine Loop.forStep_rule_of_eq
    (fun i (s : Machine) => i % 4096 = 0 ∧ i ≤ bound.toNat ∧ s.pmm = m.pmm ∧
      (∀ f j, f ≠ t → tableEntry s.mem f j = tableEntry m.mem f j) ∧
      ∀ last : BitVec 64, start.toNat ≤ last.toNat → last.toNat + 4096 = i →
        tableEntry s.mem t (vaIndex (addr last) 12) = pageEntry (addr last) pageWritable)
    (fun _ (s : Machine) => s.pmm = m.pmm ∧ (∀ f j, f ≠ t → tableEntry s.mem f j = tableEntry m.mem f j) ∧
      ∀ last : BitVec 64, start.toNat ≤ last.toNat → last.toNat + 4096 = bound.toNat →
        tableEntry s.mem t (vaIndex (addr last) 12) = pageEntry (addr last) pageWritable)
    (by rw [pageSize_toNat]; omega) (by rw [pageSize_toNat]; omega) ?_ ?_
    ⟨hstart, hle, rfl, fun _ _ _ => rfl, fun last _ _ => by omega⟩ hloop
  · rintro i s hlt ⟨hmod, -, hpmm, hsame, -⟩
    have hlt' := BitVec.lt_def.mp hlt
    have hi := haddr i hlt
    have hcore := vmmPageMapInternal_detour (addr i) pageWritable
      (h.congr hsame) (show (addr i).toNat < 2 ^ 30 by omega)
    rw [pageSize_toNat, if_pos rfl]
    refine ⟨by omega, by omega, ?_, fun f j hf => ?_, fun last _ hlast => ?_⟩
    · rw [hcore]
      exact hpmm
    · rw [hcore]
      exact (tableEntry_store64_ne fun hft => hf hft.1).trans (hsame f j hf)
    · obtain rfl : last = i := BitVec.eq_of_toNat_eq (by omega)
      rw [hcore]
      exact tableEntry_store64_same _ _ _ _
  · rintro i s hge ⟨-, hle, hpmm, hsame, hlast⟩
    obtain rfl : i = bound.toNat := by omega
    exact ⟨hpmm, hsame, hlast⟩

/-- After `vmm_kernel_map` the bitmap and every frame but `t` are as before, and the slot of the last page round the
stack is in `t`. -/
theorem vmmKernelMap_detour {fuel : Nat} {env : BootEnv} {m' : Machine} (h : Detour m.mem root n pd t)
    (hlow : env.Low) (himage : env.image.kernelEnd.toNat ≤ 2 ^ 30) (hstack : env.rsp.toNat + 8192 < 2 ^ 30)
    (hmap : vmmKernelMap fuel env (frameAddr root) m = some m') :
    m'.pmm = m.pmm ∧ (∀ f i, f ≠ t → tableEntry m'.mem f i = tableEntry m.mem f i) ∧
      ∀ last, last.toNat + 4096 = (alignUp (env.rsp + pageSize)).toNat →
        tableEntry m'.mem t (vaIndex last 12) = pageEntry last pageWritable := by
  have hwindow := hlow.window
  have hstart := hlow.start_toNat
  have hend := hlow.end_toNat
  have halign₁ := env.image.start_aligned
  have halign₂ := env.image.end_aligned
  have hle := env.image.start_le_end
  have hsize : (env.image.kernelEnd - env.image.kernelStart).toNat =
      env.image.kernelEnd.toNat - env.image.kernelStart.toNat :=
    BitVec.toNat_sub_of_le (BitVec.le_def.mpr hle)
  have hzero : (0 : BitVec 64).toNat = 0 := rfl
  simp only [vmmKernelMap] at hmap
  split at hmap
  · cases hmap
  · rename_i r₁ m₁ hloop₁
    split at hmap
    · cases hmap
    · rename_i r₂ m₂ hloop₂
      cases hmap
      obtain ⟨hpmm₁, hsame₁, -⟩ := identityLoop_detour env.image.kernelStart.toNat 0
        (env.image.kernelEnd - env.image.kernelStart) (fun i => env.image.kernelStart + i) h
        (fun i hi => by
          have hlt := BitVec.lt_def.mp hi
          rw [BitVec.toNat_add]
          omega)
        (by omega) (by omega) (by omega) (by omega) hloop₁
      obtain ⟨hpmm₂, hsame₂, hlast⟩ := identityLoop_detour 0 (alignDown (env.rsp - 256 * 1024))
        (alignUp (env.rsp + pageSize)) (fun i => i) (h.congr hsame₁) (fun i _ => (Nat.zero_add _).symm)
        (by omega) (by omega) (by omega) (by omega) hloop₂
      exact ⟨hpmm₂.trans hpmm₁, fun f i hf => (hsame₂ f i hf).trans (hsame₁ f i hf),
        fun last h => hlast last (by omega) h⟩

end

end BootKernel
