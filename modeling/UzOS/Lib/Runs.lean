import Mathlib

/-! Runs of a deterministic machine over a list of events, and conditions that every
step of a run meets. -/
namespace UzOS.Runs

open Bool

variable {σ ε : Type} {step : σ → ε → σ}

def run (step : σ → ε → σ) (s : σ) (events : List ε) : σ := events.foldl step s

/-- Every step of the run meets the condition. -/
def everyStep (step : σ → ε → σ) (ok : σ → ε → Bool) (s : σ) : List ε → Bool
  | [] => true
  | e :: rest => ok s e && everyStep step ok (step s e) rest

theorem run_append (s : σ) (pre post : List ε) :
    run step s (pre ++ post) = run step (run step s pre) post := List.foldl_append

theorem run_single (s : σ) (e : ε) : run step s [e] = step s e := rfl

section
variable {ok : σ → ε → Bool} {s : σ}

theorem everyStep_join (pre post : List ε) : everyStep step ok s (pre ++ post) =
    (everyStep step ok s pre && everyStep step ok (run step s pre) post) := by
  induction pre generalizing s with
  | nil => rfl
  | cons e rest ih =>
    rw [List.cons_append, everyStep, ih, everyStep, Bool.and_assoc]
    rfl

theorem everyStep_append (pre post : List ε) (all : everyStep step ok s (pre ++ post)) :
    everyStep step ok s pre ∧ everyStep step ok (run step s pre) post := by
  rwa [everyStep_join, and_eq_true] at all

/-- The first step after a part of such a run meets it too. -/
theorem everyStep_next {pre post : List ε} {e : ε}
    (all : everyStep step ok s (pre ++ e :: post)) : ok (run step s pre) e :=
  (and_eq_true_iff.mp (everyStep_append pre (e :: post) all).2).1

theorem everyStep_of_all (events : List ε)
    (all : ∀ pre e post, events = pre ++ e :: post → ok (run step s pre) e) :
    everyStep step ok s events := by
  induction events generalizing s with
  | nil => rfl
  | cons e rest ih =>
    apply and_eq_true_iff.mpr
    constructor
    · exact all [] e rest rfl
    · apply ih
      rintro pre e' post rfl
      exact all (e :: pre) e' post rfl

theorem everyStep_and {ok' : σ → ε → Bool} (events : List ε)
    (one : everyStep step ok s events) (two : everyStep step ok' s events) :
    everyStep step (fun s e => ok s e && ok' s e) s events := by
  induction events generalizing s with
  | nil => rfl
  | cons e rest ih =>
    obtain ⟨first, others⟩ := and_eq_true_iff.mp one
    obtain ⟨first', others'⟩ := and_eq_true_iff.mp two
    simp only [everyStep, first, first', ih others others', Bool.and_self]

/-- What every step that meets the condition keeps holds along such a run. -/
theorem run_keeps {P : σ → Prop} (keeps : ∀ s e, P s → ok s e → P (step s e))
    (start : P s) (events : List ε) (all : everyStep step ok s events) :
    P (run step s events) := by
  induction events generalizing s with
  | nil => exact start
  | cons e rest ih =>
    obtain ⟨first, others⟩ := and_eq_true_iff.mp all
    exact ih (keeps s e start first) others

/-- What every step keeps holds along every run. -/
theorem run_invariant {P : σ → Prop} (keeps : ∀ s e, P s → P (step s e)) (start : P s)
    (events : List ε) : P (run step s events) := by
  induction events generalizing s with
  | nil => exact start
  | cons e rest ih => exact ih (keeps s e start)

end

end UzOS.Runs
