import Mathlib

/-! References from holders to things that count the holders they have. -/
namespace UzOS.References

open Function Set

variable {ι κ : Type}

/-- The holders that refer to `k`. -/
def aimedAt (p : ι → Option κ) (k : κ) : Set ι := {i | p i = some k}

/-- The holders of `k` without `i`, and `i`. -/
theorem encard_without [DecidableEq κ] (p : ι → Option κ) (i : ι) (k : κ) :
    (aimedAt p k).encard = (aimedAt p k \ {i}).encard + if p i = some k then 1 else 0 := by
  by_cases holds : p i = some k
  · have member : i ∈ aimedAt p k := holds
    rw [if_pos holds, encard_sdiff_singleton_add_one member]
  have other : i ∉ aimedAt p k := holds
  rw [if_neg holds, sdiff_singleton_eq_self other, add_zero]

/-- One holder lets go of `p i` and takes `v`. -/
theorem encard_update [DecidableEq ι] [DecidableEq κ] (p : ι → Option κ) (i : ι) (v : Option κ)
    (k : κ) :
    (aimedAt (Function.update p i v) k).encard + (if p i = some k then 1 else 0) =
      (aimedAt p k).encard + if v = some k then 1 else 0 := by
  have rest : aimedAt (Function.update p i v) k \ {i} = aimedAt p k \ {i} := by
    ext j
    by_cases own : j = i
    · simp [own]
    · simp [aimedAt, own]
  rw [encard_without _ i, encard_without p i, rest, update_self]
  rw [add_assoc, add_assoc, add_comm (if v = some k then (1 : ℕ∞) else 0)]

/-- Only living things are referred to, and each has counted its holders. -/
structure Counts (p : ι → Option κ) (alive : κ → Prop) (n : κ → Nat) : Prop where
  aimed : ∀ {i k}, p i = some k → alive k
  counted : ∀ {k}, alive k → (aimedAt p k).encard = n k

variable {p : ι → Option κ} {alive alive' : κ → Prop} {n n' : κ → Nat}

variable (h : Counts p alive n)
include h

theorem Counts.pos {i : ι} {k : κ} (refers : p i = some k) : n k ≠ 0 := by
  intro zero
  have empty : (aimedAt p k).encard = 0 := by rw [h.counted (h.aimed refers), zero]; rfl
  exact notMem_empty i ((Set.encard_eq_zero.mp empty) ▸ refers)

/-- Someone holds what has a count. -/
theorem Counts.exists_of_ne_zero {k : κ} (lives : alive k) (some : n k ≠ 0) :
    ∃ i, p i = .some k := by
  by_contra none
  push Not at none
  have empty : aimedAt p k = ∅ := eq_empty_of_forall_notMem none
  have zero := h.counted lives
  rw [empty, encard_empty] at zero
  exact some (by exact_mod_cast zero.symm)

/-- One holder lets go of `p i` and takes `v`; things come to life and go. -/
theorem Counts.change [DecidableEq ι] [DecidableEq κ] (i : ι) (v : Option κ)
    (aim : ∀ k, v = some k → alive' k)
    (born : ∀ k, alive' k → ¬ alive k → n' k = if v = some k then 1 else 0)
    (kept : ∀ k, alive' k → alive k →
      n' k + (if p i = some k then 1 else 0) = n k + if v = some k then 1 else 0)
    (gone : ∀ k, alive k → ¬ alive' k → n k = if p i = some k then 1 else 0) :
    Counts (Function.update p i v) alive' n' where
  aimed := by
    intro j k refers
    by_cases own : j = i
    · rw [own, update_self] at refers
      exact aim k refers
    have before : p j = some k := by rwa [update_of_ne own] at refers
    by_contra dead
    have lived := h.aimed before
    have last := gone k lived dead
    have after : (aimedAt (Function.update p i v) k).encard = 0 := by
      have moved := encard_update p i v k
      have away : v ≠ some k := fun same => dead (aim k same)
      rw [h.counted lived, last] at moved
      split_ifs at moved
      · simpa using moved
      · simpa using moved
    rw [encard_eq_zero] at after
    exact notMem_empty j (after ▸ refers)
  counted := by
    intro k lives
    have moved := encard_update p i v k
    by_cases lived : alive k
    · have books := kept k lives lived
      rw [h.counted lived] at moved
      have cast : ((n' k : ℕ∞)) + (if p i = some k then 1 else 0) =
          n k + if v = some k then 1 else 0 := by
        split_ifs at books ⊢ <;> exact_mod_cast books
      rw [← cast] at moved
      split_ifs at moved
      · exact WithTop.add_right_cancel ENat.one_ne_top moved
      · simpa using moved
    · have nobody : ∀ j, p j ≠ some k := fun j refers => lived (h.aimed refers)
      have empty : aimedAt p k = ∅ := eq_empty_of_forall_notMem nobody
      rw [empty, if_neg (nobody i), add_zero] at moved
      rw [moved, born k lives lived]
      split_ifs <;> simp

/-- Nobody lets go of anything or takes it; things come to life and go. -/
theorem Counts.alter (born : ∀ k, alive' k → ¬ alive k → n' k = 0)
    (kept : ∀ k, alive' k → alive k → n' k = n k) (gone : ∀ k, alive k → ¬ alive' k → n k = 0) :
    Counts p alive' n' where
  aimed := by
    intro i k refers
    by_contra dead
    exact h.pos refers (gone k (h.aimed refers) dead)
  counted := by
    intro k lives
    by_cases lived : alive k
    · rw [h.counted lived, kept k lives lived]
    rw [born k lives lived]
    have nobody : aimedAt p k = ∅ :=
      eq_empty_of_forall_notMem fun i refers => lived (h.aimed refers)
    rw [nobody, encard_empty]
    rfl

end UzOS.References
