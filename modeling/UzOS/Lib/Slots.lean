import Mathlib

/-! Loops over the slots of a fixed table. -/
namespace UzOS

open List

/-- For the numerals of tables with 32 slots. -/
instance slots32 : NeZero 32 := ⟨by decide⟩

variable {σ α : Type} {n : Nat}

/-- `for (i = 0; i < n; i++) body(i)` -/
def forSlots (body : σ → Fin n → σ) (s : σ) : σ := (List.finRange n).foldl body s

/-- What every round keeps holds after the loop. -/
theorem forSlots_keeps {P : σ → Prop} {body : σ → Fin n → σ} {s : σ} (start : P s)
    (round : ∀ s i, P s → P (body s i)) : P (forSlots body s) := by
  unfold forSlots
  generalize List.finRange n = rounds
  induction rounds generalizing s with
  | nil => exact start
  | cons i rest ih => exact ih (round s i start)

/-- In a loop whose rounds change their own slot only, each round finds its slot as
it was before the loop. -/
theorem forSlots_fresh (get : σ → Fin n → α) {P : σ → Prop} {body : σ → Fin n → σ} {s : σ}
    (start : P s) (round : ∀ t i, P t → get t i = get s i → P (body t i))
    (other : ∀ t i j, j ≠ i → get (body t i) j = get t j) : P (forSlots body s) := by
  have rounds (todo : List (Fin n)) (once : todo.Nodup) (t : σ) (here : P t)
      (fresh : ∀ j ∈ todo, get t j = get s j) : P (todo.foldl body t) := by
    induction todo generalizing t with
    | nil => exact here
    | cons i rest ih =>
      obtain ⟨apart, once⟩ := nodup_cons.mp once
      apply ih once
      · exact round t i here (fresh i mem_cons_self)
      · intro j later
        have differs : j ≠ i := fun same => apart (same ▸ later)
        rw [other t i j differs]
        exact fresh j (mem_cons_of_mem i later)
  exact rounds _ (nodup_finRange n) s start fun _ _ => rfl

section Pointwise

variable {P : σ → Prop} (get : σ → Fin n → α) {body : σ → Fin n → σ} {f : Fin n → α → α}

private theorem foldl_pointwise (keeps : ∀ s i, P s → P (body s i))
    (own : ∀ s i, P s → get (body s i) i = f i (get s i))
    (other : ∀ s i j, P s → j ≠ i → get (body s i) j = get s j) (rounds : List (Fin n))
    (once : rounds.Nodup) {s : σ} (start : P s) (j : Fin n) :
    get (rounds.foldl body s) j = if j ∈ rounds then f j (get s j) else get s j := by
  induction rounds generalizing s with
  | nil => simp
  | cons i rest ih =>
    obtain ⟨fresh, once⟩ := nodup_cons.mp once
    rw [foldl_cons, ih once (keeps s i start)]
    by_cases here : j = i
    · subst here
      simp [fresh, own s j start]
    · simp [here, other s i j start here]

/-- A loop whose rounds each change their own slot only, by a rule that reads
nothing else that the loop changes, applies the rule to every slot. -/
theorem forSlots_pointwise (keeps : ∀ s i, P s → P (body s i))
    (own : ∀ s i, P s → get (body s i) i = f i (get s i))
    (other : ∀ s i j, P s → j ≠ i → get (body s i) j = get s j) {s : σ} (start : P s)
    (j : Fin n) : get (forSlots body s) j = f j (get s j) := by
  have all := foldl_pointwise get keeps own other _ (nodup_finRange n) start j
  simpa [forSlots] using all

end Pointwise

/-- The first slot that passes the test. -/
def findSlot (test : Fin n → Bool) : Option (Fin n) := (List.finRange n).find? test

variable {test : Fin n → Bool}

theorem findSlot_some {i : Fin n} (found : findSlot test = some i) : test i := List.find?_some found

theorem findSlot_none (found : findSlot test = none) (i : Fin n) : test i = false := by
  have none := List.find?_eq_none.mp found i (mem_finRange i)
  simpa using none

section Oldest

variable {ω : Type} [LT ω] [DecidableLT ω]

/-- Of the slots that pass the test, the first with the smallest order. -/
def oldestSlot (test : Fin n → Bool) (order : Fin n → ω) : Option (Fin n) :=
  (List.finRange n).foldl (fun best i =>
    if test i && best.all fun b => decide (order i < order b) then some i else best) none

variable {order : Fin n → ω}

private theorem oldest_foldl (rounds : List (Fin n))
    (best : Option (Fin n)) (passes : ∀ b, best = some b → test b) :
    let result := rounds.foldl (fun best i =>
      if test i && best.all fun b => decide (order i < order b) then some i else best) best
    (∀ b, result = some b → test b) ∧
      (result = none → best = none ∧ ∀ i ∈ rounds, test i = false) := by
  induction rounds generalizing best with
  | nil => exact ⟨passes, fun gone => ⟨gone, by simp⟩⟩
  | cons i rest ih =>
    simp only [foldl_cons]
    split
    · next taken =>
      have here : test i := (Bool.and_eq_true_iff.mp taken).1
      obtain ⟨some_ok, none_ok⟩ := ih (some i) (by simpa using here)
      exact ⟨some_ok, fun gone => absurd (none_ok gone).1 (by simp)⟩
    · next kept =>
      obtain ⟨some_ok, none_ok⟩ := ih best passes
      refine ⟨some_ok, fun gone => ?_⟩
      obtain ⟨empty, others⟩ := none_ok gone
      have here : test i = false := by simpa [empty] using kept
      exact ⟨empty, by simpa [here] using others⟩

theorem oldestSlot_some {i : Fin n} (found : oldestSlot test order = some i) : test i :=
  (oldest_foldl _ none (by simp)).1 i found

theorem oldestSlot_none (found : oldestSlot test order = none) (i : Fin n) : test i = false :=
  ((oldest_foldl _ none (by simp)).2 found).2 i (mem_finRange i)

end Oldest

end UzOS
