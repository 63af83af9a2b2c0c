import Mathlib

/-! Pointers between the slots of a table, where the slot pointed to counts
those that point to it. -/
namespace UzOS.Pointers

open Finset Function

variable {ι : Type} [Fintype ι] [DecidableEq ι]

def inbound (p : ι → Option ι) (k : ι) : Nat := (Finset.univ.filter fun i => p i = some k).card

theorem inbound_eq_zero {p : ι → Option ι} {k : ι} (none : ∀ i, p i ≠ some k) : inbound p k = 0 := by
  unfold inbound
  rw [card_eq_zero, filter_eq_empty_iff]
  exact fun i _ => none i

/-- One pointer is turned from `p i` to `v`. -/
theorem inbound_update (p : ι → Option ι) (i : ι) (v : Option ι) (k : ι) :
    inbound (Function.update p i v) k + (if p i = some k then 1 else 0) =
      inbound p k + if v = some k then 1 else 0 := by
  have split (q : ι → Option ι) : inbound q k =
      (if q i = some k then 1 else 0) + ∑ j ∈ Finset.univ.erase i, if q j = some k then 1 else 0 := by
    rw [inbound, card_filter]
    exact (add_sum_erase _ (fun j => if q j = some k then 1 else 0) (mem_univ i)).symm
  have rest : (∑ j ∈ Finset.univ.erase i, if Function.update p i v j = some k then 1 else 0) =
      ∑ j ∈ Finset.univ.erase i, if p j = some k then 1 else 0 :=
    sum_congr rfl fun j member => by rw [update_of_ne (ne_of_mem_erase member)]
  rw [split p, split (Function.update p i v), update_self]
  omega

/-- Every pointer finds its target open, and each slot but `but` has counted
the pointers to it right. -/
structure Balanced (but : Option ι) (p : ι → Option ι) (isOpen : ι → Bool) (count : ι → Int) :
    Prop where
  aimed : ∀ {i l}, p i = some l → isOpen l = true
  counted : ∀ {k}, some k ≠ but → count k = inbound p k

variable {but : Option ι} {p : ι → Option ι} {isOpen : ι → Bool} {count : ι → Int}

variable (h : Balanced but p isOpen count)
include h

theorem Balanced.unaimed {k : ι} (closed : isOpen k = false) (i : ι) :
    p i ≠ some k := fun aimed => by cases closed.symm.trans (h.aimed aimed)

/-- Nobody points to a slot that is not open, and it has counted nobody. -/
theorem Balanced.zero {k : ι} (closed : isOpen k = false)
    (counts : some k ≠ but) : count k = 0 := by
  rw [h.counted counts, inbound_eq_zero (h.unaimed closed)]
  rfl

/-- One slot gets a new pointer and is opened, left open or closed. -/
theorem Balanced.update (i : ι) {v : Option ι} {b : Bool}
    {count' : ι → Int} (safe : isOpen i → b ∨ ∀ j, p j ≠ some i)
    (aim : ∀ l, v = some l → l ≠ i ∧ isOpen l)
    (books : ∀ k, some k ≠ but →
      count' k + (if p i = some k then 1 else 0) = count k + if v = some k then 1 else 0) :
    Balanced but (Function.update p i v) (Function.update isOpen i b) count' where
  aimed := by
    intro j l points
    by_cases own : j = i
    · subst own
      rw [update_self] at points
      obtain ⟨apart, found⟩ := aim l points
      rw [update_of_ne apart]
      exact found
    · rw [update_of_ne own] at points
      by_cases target : l = i
      · subst target
        rw [update_self]
        exact (safe (h.aimed points)).resolve_right fun none => none j points
      rw [update_of_ne target]
      exact h.aimed points
  counted := by
    intro k counts
    have before := h.counted counts
    have changed := books k counts
    have turned := inbound_update p i v k
    split_ifs at changed turned <;> omega

omit h in
/-- A slot nobody points to counts again. -/
theorem Balanced.settle {i : ι} (h : Balanced (some i) p isOpen count) (none : ∀ j, p j ≠ some i)
    (zero : count i = 0) : Balanced Option.none p isOpen count where
  aimed := h.aimed
  counted := by
    intro k _
    by_cases here : k = i
    · subst here
      rw [zero, inbound_eq_zero none]
      rfl
    · exact h.counted fun same => here (Option.some.inj same)

end UzOS.Pointers
