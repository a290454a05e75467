import Mathlib.Data.List.Infix
import Mathlib.Data.Set.Insert

/-!
# Radix trees in a heap

A radix tree is stored as nodes with indexed slots. What a slot holds may depend on the depth at
which its node is read, as in a page table. A node is named by the path of indexes that leads to it,
and a tree is unshared when no node has two paths: then a write to one slot changes the lookups
through that slot and no others.
-/

namespace Radix

variable {ν ι L : Type}

/-- What one slot holds. -/
inductive Slot (ν L : Type) where
  | empty
  | node (n : ν)
  | leaf (l : L)
deriving DecidableEq, Repr

/-- The slots of every node, as they are read at a given depth. -/
abbrev Heap (ν ι L : Type) := Nat → ν → ι → Slot ν L

/-- The node that the path leads to from the node `n` at depth `d`. -/
def descend (h : Heap ν ι L) (d : Nat) (n : ν) : List ι → Option ν
  | [] => some n
  | i :: p =>
      match h d n i with
      | .node n' => descend h (d + 1) n' p
      | _ => none

/-- The leaf that the path runs into, with the depth of the slot that holds it. -/
def lookup (h : Heap ν ι L) (d : Nat) (n : ν) : List ι → Option (Nat × L)
  | [] => none
  | i :: p =>
      match h d n i with
      | .empty => none
      | .node n' => lookup h (d + 1) n' p
      | .leaf l => some (d, l)

variable {h h' : Heap ν ι L} {d : Nat} {n r : ν} {i : ι} {p q : List ι}

/-! ## Paths -/

theorem descend_append (h : Heap ν ι L) (d : Nat) (n : ν) (p q : List ι) :
    descend h d n (p ++ q) = (descend h d n p).bind fun m => descend h (d + p.length) m q := by
  induction p generalizing d n with
  | nil => simp [descend]
  | cons i p ih =>
      simp only [List.cons_append, descend]
      split
      · rw [ih]
        simp only [List.length_cons, Nat.add_right_comm d 1, Nat.add_assoc]
      · rfl

/-- A path to a node is a path to its parent followed by a slot that holds the node. -/
theorem descend_snoc {m : ν} :
    descend h d r (p ++ [i]) = some m ↔
      ∃ n, descend h d r p = some n ∧ h (d + p.length) n i = .node m := by
  rw [descend_append]
  cases hp : descend h d r p with
  | none => simp
  | some n =>
      simp only [Option.bind_some, descend, Option.some.injEq, exists_eq_left']
      split <;> simp_all

/-- A slot that holds no node ends every path. -/
theorem descend_snoc_of_not_node (hp : descend h d r p = some n)
    (hs : ∀ m, h (d + p.length) n i ≠ .node m) : descend h d r (p ++ [i]) = none := by
  rw [Option.eq_none_iff_forall_ne_some]
  intro m hm
  obtain ⟨n', hn', hnode⟩ := descend_snoc.mp hm
  rw [hp] at hn'
  cases hn'
  exact hs m hnode

theorem lookup_append {m : ν} (hp : descend h d n p = some m) (q : List ι) :
    lookup h d n (p ++ q) = lookup h (d + p.length) m q := by
  induction p generalizing d n with
  | nil => simp only [descend, Option.some.injEq] at hp; subst hp; rfl
  | cons i p ih =>
      simp only [descend] at hp
      split at hp
      · rename_i n' hs
        simp only [List.cons_append, lookup, hs, ih hp, List.length_cons, Nat.add_right_comm d 1,
          Nat.add_assoc]
      · cases hp

theorem lookup_snoc {m : ν} (hp : descend h d n p = some m) (i : ι) (q : List ι) :
    lookup h d n (p ++ i :: q) =
      match h (d + p.length) m i with
      | .empty => none
      | .node m' => lookup h (d + p.length + 1) m' q
      | .leaf l => some (d + p.length, l) := by
  rw [lookup_append hp]
  rfl

/-- A lookup that ends in a leaf passes only through nodes above it. -/
theorem lookup_eq_some {l : L} {k : Nat} (hl : lookup h d n p = some (k, l)) :
    ∃ q i q' m, p = q ++ i :: q' ∧ k = d + q.length ∧ descend h d n q = some m ∧
      h k m i = .leaf l := by
  induction p generalizing d n with
  | nil => cases hl
  | cons i p ih =>
      simp only [lookup] at hl
      split at hl
      · cases hl
      · rename_i n' hs
        obtain ⟨q, j, q', m, rfl, rfl, hq, hleaf⟩ := ih hl
        refine ⟨i :: q, j, q', m, rfl, ?_, by simp [descend, hs, hq], hleaf⟩
        simp only [List.length_cons]; omega
      · rename_i hs
        cases hl
        exact ⟨[], i, p, n, rfl, rfl, rfl, hs⟩

/-! ## Two heaps that agree on what a path visits -/

/-- A path sees only the slots it goes through. -/
theorem congr_along (p : List ι)
    (hag : ∀ q i q' m, p = q ++ i :: q' → descend h d n q = some m →
      h' (d + q.length) m i = h (d + q.length) m i) :
    descend h' d n p = descend h d n p ∧ lookup h' d n p = lookup h d n p := by
  induction p generalizing d n with
  | nil => exact ⟨rfl, rfl⟩
  | cons i p ih =>
      have hi : h' d n i = h d n i := hag [] i p n rfl rfl
      simp only [descend, lookup, hi]
      cases hs : h d n i with
      | empty => exact ⟨rfl, rfl⟩
      | leaf l => exact ⟨rfl, rfl⟩
      | node n' =>
          apply ih
          intro q j q' m hp hq
          have := hag (i :: q) j q' m (by rw [hp]; rfl) (by simp [descend, hs, hq])
          simpa only [List.length_cons, Nat.add_right_comm d 1, Nat.add_assoc] using this

/-- Some path from the root leads to the node. -/
def Reaches (h : Heap ν ι L) (r n : ν) : Prop := ∃ p, descend h 0 r p = some n

/-- Changes outside the tree are not seen. -/
theorem congr_reaches (hag : ∀ d n i, Reaches h r n → h' d n i = h d n i) (p : List ι) :
    descend h' 0 r p = descend h 0 r p ∧ lookup h' 0 r p = lookup h 0 r p :=
  congr_along p fun q _ _ _ _ hq => hag _ _ _ ⟨q, hq⟩

/-! ## Unshared trees -/

/-- No node has two paths. -/
def Unshared (h : Heap ν ι L) (r : ν) : Prop :=
  ∀ p q n, descend h 0 r p = some n → descend h 0 r q = some n → p = q

theorem Unshared.congr (hu : Unshared h r) (hd : ∀ p, descend h' 0 r p = descend h 0 r p) :
    Unshared h' r := by
  intro p q n hp hq
  rw [hd] at hp hq
  exact hu p q n hp hq

section Write
variable {n₀ : ν} {i₀ : ι} {p₀ : List ι}

/-- Only the slot `i₀` of the node `n₀` differs. -/
def DiffersAt (h h' : Heap ν ι L) (n₀ : ν) (i₀ : ι) : Prop :=
  ∀ d n i, ¬ (n = n₀ ∧ i = i₀) → h' d n i = h d n i

/-- A write to one slot is seen only by the paths through that slot. -/
theorem DiffersAt.congr_off_path (hdiff : DiffersAt h h' n₀ i₀) (hu : Unshared h r)
    (hp₀ : descend h 0 r p₀ = some n₀) (hp : ¬ p₀ ++ [i₀] <+: p) :
    descend h' 0 r p = descend h 0 r p ∧ lookup h' 0 r p = lookup h 0 r p := by
  apply congr_along
  intro q i q' m hq hm
  apply hdiff
  rintro ⟨rfl, rfl⟩
  obtain rfl := hu q p₀ m hm hp₀
  exact hp ⟨q', by simp [hq]⟩

/-- The path to the written slot itself is unchanged. -/
theorem DiffersAt.descend_self (hdiff : DiffersAt h h' n₀ i₀) (hu : Unshared h r)
    (hp₀ : descend h 0 r p₀ = some n₀) : descend h' 0 r p₀ = some n₀ := by
  rw [(hdiff.congr_off_path hu hp₀ ?_).1, hp₀]
  intro hpre
  have := hpre.length_le
  simp only [List.length_append, List.length_singleton] at this
  omega

/-- Writing a leaf, or clearing one, keeps every path to a node. -/
theorem DiffersAt.descend_of_not_node (hdiff : DiffersAt h h' n₀ i₀) (hu : Unshared h r)
    (hp₀ : descend h 0 r p₀ = some n₀) (hold : ∀ m, h p₀.length n₀ i₀ ≠ .node m)
    (hnew : ∀ m, h' p₀.length n₀ i₀ ≠ .node m) (p : List ι) :
    descend h' 0 r p = descend h 0 r p := by
  by_cases hp : p₀ ++ [i₀] <+: p
  · obtain ⟨q, rfl⟩ := hp
    have hp₀' := hdiff.descend_self hu hp₀
    have hnone : descend h 0 r (p₀ ++ [i₀]) = none :=
      descend_snoc_of_not_node hp₀ (by simpa using hold)
    have hnone' : descend h' 0 r (p₀ ++ [i₀]) = none :=
      descend_snoc_of_not_node hp₀' (by simpa using hnew)
    rw [descend_append h', descend_append h, hnone, hnone']
    rfl
  · exact (hdiff.congr_off_path hu hp₀ hp).1

/-- Linking a node whose slots are all empty into an empty slot changes no lookup. -/
theorem DiffersAt.lookup_of_link (hdiff : DiffersAt h h' n₀ i₀) (hu : Unshared h r)
    (hp₀ : descend h 0 r p₀ = some n₀) (hold : h p₀.length n₀ i₀ = .empty) {m₀ : ν}
    (hnew : h' p₀.length n₀ i₀ = .node m₀) (hempty : ∀ d i, h' d m₀ i = .empty) (p : List ι) :
    lookup h' 0 r p = lookup h 0 r p := by
  by_cases hp : p₀ ++ [i₀] <+: p
  · obtain ⟨q, rfl⟩ := hp
    have hp₀' := hdiff.descend_self hu hp₀
    simp only [List.append_assoc, List.singleton_append]
    rw [lookup_snoc hp₀, lookup_snoc hp₀']
    simp only [Nat.zero_add, hold, hnew]
    cases q with
    | nil => rfl
    | cons i q => simp [lookup, hempty]
  · exact (hdiff.congr_off_path hu hp₀ hp).2

/-- The nodes after linking an empty node: the old ones, and the new one on its own path. -/
theorem DiffersAt.descend_of_link (hdiff : DiffersAt h h' n₀ i₀) (hu : Unshared h r)
    (hp₀ : descend h 0 r p₀ = some n₀) (hold : h p₀.length n₀ i₀ = .empty) {m₀ : ν}
    (hnew : h' p₀.length n₀ i₀ = .node m₀) (hempty : ∀ d i, h' d m₀ i = .empty) (p : List ι) (n : ν) :
    descend h' 0 r p = some n ↔ descend h 0 r p = some n ∨ p = p₀ ++ [i₀] ∧ n = m₀ := by
  by_cases hp : p₀ ++ [i₀] <+: p
  · obtain ⟨q, rfl⟩ := hp
    have hp₀' := hdiff.descend_self hu hp₀
    have hlink : descend h' 0 r (p₀ ++ [i₀]) = some m₀ :=
      descend_snoc.mpr ⟨n₀, hp₀', by simpa using hnew⟩
    have hnone : descend h 0 r (p₀ ++ [i₀]) = none :=
      descend_snoc_of_not_node hp₀ (by simp [hold])
    rw [descend_append h', descend_append h, hlink, hnone]
    cases q with
    | nil => simp [descend, eq_comm]
    | cons i q => simp [descend, hempty]
  · rw [(hdiff.congr_off_path hu hp₀ hp).1]
    constructor
    · exact Or.inl
    · rintro (hn | ⟨rfl, -⟩)
      · exact hn
      · exact absurd (List.prefix_refl _) hp

/-- Linking a fresh node keeps the tree unshared. -/
theorem DiffersAt.unshared_of_link (hdiff : DiffersAt h h' n₀ i₀) (hu : Unshared h r)
    (hp₀ : descend h 0 r p₀ = some n₀) (hold : h p₀.length n₀ i₀ = .empty) {m₀ : ν}
    (hnew : h' p₀.length n₀ i₀ = .node m₀) (hempty : ∀ d i, h' d m₀ i = .empty)
    (hfresh : ¬ Reaches h r m₀) : Unshared h' r := by
  intro p q n hp hq
  rw [hdiff.descend_of_link hu hp₀ hold hnew hempty] at hp hq
  rcases hp with hp | ⟨rfl, rfl⟩
  · rcases hq with hq | ⟨-, rfl⟩
    · exact hu p q n hp hq
    · exact absurd ⟨p, hp⟩ hfresh
  · rcases hq with hq | ⟨rfl, -⟩
    · exact absurd ⟨q, hq⟩ hfresh
    · rfl

end Write

/-! ## The set of paths to nodes -/

/-- The paths that lead to a node. -/
def nodePaths (h : Heap ν ι L) (r : ν) : Set (List ι) := {p | ∃ n, descend h 0 r p = some n}

/-- The paths from the end of `p` down along `q`. -/
def branch (p q : List ι) : Set (List ι) := {s | ∃ t, t <+: q ∧ s = p ++ t}

theorem mem_branch_nil : p ∈ branch [] q ↔ p <+: q := by simp [branch]

theorem branch_nil (p : List ι) : branch p [] = {p} := by
  ext s
  simp [branch]

theorem branch_cons (p : List ι) (i : ι) (q : List ι) :
    branch p (i :: q) = insert p (branch (p ++ [i]) q) := by
  ext s
  simp only [branch, Set.mem_ofPred_eq, Set.mem_insert_iff, List.prefix_cons_iff]
  constructor
  · rintro ⟨t, rfl | ⟨t', rfl, ht'⟩, rfl⟩
    · exact Or.inl (List.append_nil p)
    · exact Or.inr ⟨t', ht', by simp⟩
  · rintro (rfl | ⟨t, ht, rfl⟩)
    · exact ⟨[], Or.inl rfl, (List.append_nil s).symm⟩
    · exact ⟨i :: t, Or.inr ⟨t, rfl, ht⟩, by simp⟩

theorem self_mem_branch (p q : List ι) : p ∈ branch p q := ⟨[], List.nil_prefix, (List.append_nil p).symm⟩

end Radix
