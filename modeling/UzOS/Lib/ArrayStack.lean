import Mathlib

/-! A stack kept in an array with a counter: entry 0 is the oldest. -/
namespace UzOS.ArrayStack

open List

variable {α : Type} {f : Nat → α} {n : Nat} {stack : List α}

/-- The first `n` entries of `f` are `stack`, whose head is the newest. -/
def Holds (f : Nat → α) (n : Nat) (stack : List α) : Prop :=
  (List.range n).map f = stack.reverse

theorem holds_nil (f : Nat → α) : Holds f 0 [] := rfl

theorem Holds.length (holds : Holds f n stack) : stack.length = n := by
  have same := congrArg List.length holds
  simpa using same.symm

theorem Holds.push (holds : Holds f n stack) (x : α) :
    Holds (Function.update f n x) (n + 1) (x :: stack) := by
  have below : (List.range n).map (Function.update f n x) = (List.range n).map f := by
    apply map_congr_left
    intro i inside
    exact Function.update_of_ne (mem_range.mp inside).ne x f
  unfold Holds at holds ⊢
  rw [range_succ, map_append, below, holds]
  simp

theorem Holds.pop (holds : Holds f (n + 1) stack) :
    ∃ rest, stack = f n :: rest ∧ Holds f n rest := by
  unfold Holds at holds
  cases stack with
  | nil => simp at holds
  | cons x rest =>
    rw [range_succ, map_append, reverse_cons] at holds
    obtain ⟨below, top⟩ := append_inj' holds rfl
    obtain rfl : f n = x := by simpa using top
    exact ⟨rest, rfl, below⟩

end UzOS.ArrayStack
