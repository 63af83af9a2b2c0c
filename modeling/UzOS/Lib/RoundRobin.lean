import Mathlib

/-! A ring of slots scanned from the slot after a given one round to that slot itself,
and the first slot of the highest rank such a scan finds. -/
namespace UzOS.RoundRobin

open List

variable {n : Nat}

/-- How many places after `start` a slot comes: 1 for the next one, `n` for `start`. -/
def ahead (start i : Fin n) : Nat :=
  if start.val < i.val then i.val - start.val else i.val + n - start.val

theorem ahead_pos (start i : Fin n) : 0 < ahead start i := by
  unfold ahead
  split <;> omega

theorem ahead_le (start i : Fin n) : ahead start i ≤ n := by
  unfold ahead
  split <;> omega

theorem ahead_lt {start i : Fin n} (other : i ≠ start) : ahead start i < n := by
  unfold ahead
  split <;> omega

theorem ahead_inj (start : Fin n) {i j : Fin n} (same : ahead start i = ahead start j) : i = j := by
  apply Fin.ext
  unfold ahead at same
  split at same <;> split at same <;> omega

theorem ahead_self (start : Fin n) : ahead start start = n := by
  simp [ahead]

/-- A slot on the way to `i` cuts the way in two. -/
theorem ahead_add {start next i : Fin n} (between : ahead start next < ahead start i) :
    ahead start next + ahead next i = ahead start i := by
  unfold ahead at between ⊢
  split_ifs at between ⊢ <;> omega

/-- The slot `k + 1` places after `start`. -/
def place (start k : Fin n) : Fin n :=
  ⟨(start.val + (k.val + 1)) % n, Nat.mod_lt _ (Nat.zero_lt_of_lt k.isLt)⟩

@[simp] theorem ahead_place (start k : Fin n) : ahead start (place start k) = k.val + 1 := by
  unfold ahead place
  by_cases inside : start.val + (k.val + 1) < n
  · simp only [Nat.mod_eq_of_lt inside]
    split <;> omega
  have wraps : (start.val + (k.val + 1)) % n = start.val + (k.val + 1) - n := by
    rw [Nat.mod_eq_sub_mod (by omega), Nat.mod_eq_of_lt (by omega)]
  simp only [wraps]
  split <;> omega

/-- The slots in the order of the scan. -/
def after (start : Fin n) : List (Fin n) := List.ofFn (place start)

theorem mem_after (start i : Fin n) : i ∈ after start := by
  have pos := ahead_pos start i
  have bound := ahead_le start i
  rw [after, mem_ofFn]
  refine ⟨⟨ahead start i - 1, by omega⟩, ?_⟩
  apply ahead_inj start
  simp only [ahead_place]
  omega

theorem after_sorted (start : Fin n) :
    (after start).Pairwise fun i j => ahead start i < ahead start j := by
  rw [after]
  simp

section Best

variable {ι ρ : Type} [LinearOrder ρ]

/-- One round of the scan: a strictly higher rank takes over. -/
def better (ok : ι → Bool) (rank : ι → ρ) (best : Option ι) (i : ι) : Option ι :=
  if ok i && best.all fun b => decide (rank b < rank i) then some i else best

/-- The first of the highest rank among those in the list that pass the test. -/
def firstBest (ok : ι → Bool) (rank : ι → ρ) (order : List ι) : Option ι :=
  order.foldl (better ok rank) none

/-- What the scan holds: nothing while nobody passed, else the first highest so far. -/
def Leads (ok : ι → Bool) (rank : ι → ρ) (seen : List ι) : Option ι → Prop
  | none => ∀ i ∈ seen, ok i = false
  | some b => ok b = true ∧ ∃ pre post, seen = pre ++ b :: post ∧
      (∀ i ∈ pre, ok i = true → rank i < rank b) ∧ ∀ i ∈ post, ok i = true → rank i ≤ rank b

variable {ok : ι → Bool} {rank : ι → ρ}

theorem Leads.round {seen : List ι} {best : Option ι} (leads : Leads ok rank seen best) (i : ι) :
    Leads ok rank (seen ++ [i]) (better ok rank best i) := by
  unfold better
  cases best with
  | none =>
    cases here : ok i with
    | false =>
      intro j found
      rcases mem_append.mp found with early | late
      · exact leads j early
      · rw [mem_singleton.mp late, here]
    | true =>
      refine ⟨here, seen, [], by simp, ?_, by simp⟩
      intro j found passes
      rw [leads j found] at passes
      cases passes
  | some b =>
    obtain ⟨passes, pre, post, rfl, below, atMost⟩ := leads
    by_cases takes : ok i ∧ rank b < rank i
    · have step : (ok i && (some b).all fun b => decide (rank b < rank i)) := by
        simp [takes.1, takes.2]
      rw [if_pos step]
      refine ⟨takes.1, pre ++ b :: post, [], by simp, ?_, by simp⟩
      intro j found fine
      rcases mem_append.mp found with early | late
      · exact lt_trans (below j early fine) takes.2
      rcases mem_cons.mp late with rfl | late
      · exact takes.2
      · exact lt_of_le_of_lt (atMost j late fine) takes.2
    · have step : ¬ (ok i && (some b).all fun b => decide (rank b < rank i)) := by
        simpa using takes
      rw [if_neg step]
      refine ⟨passes, pre, post ++ [i], by simp, below, ?_⟩
      intro j found fine
      rcases mem_append.mp found with early | late
      · exact atMost j early fine
      rw [mem_singleton.mp late] at fine ⊢
      exact not_lt.mp fun higher => takes ⟨fine, higher⟩

theorem firstBest_leads (ok : ι → Bool) (rank : ι → ρ) (order : List ι) :
    Leads ok rank order (firstBest ok rank order) := by
  have rounds (seen rest : List ι) (best : Option ι) (leads : Leads ok rank seen best) :
      Leads ok rank (seen ++ rest) (rest.foldl (better ok rank) best) := by
    induction rest generalizing seen best with
    | nil => simpa using leads
    | cons i rest ih => simpa using ih (seen ++ [i]) _ (leads.round i)
  exact rounds [] order none (by simp [Leads])

end Best

section Scan

variable {ρ : Type} [LinearOrder ρ] {ok : Fin n → Bool} {rank : Fin n → ρ} {start b : Fin n}

/-- `b` passes, nobody ranks higher, and of its equals it comes first after `start`. -/
structure First (ok : Fin n → Bool) (rank : Fin n → ρ) (start b : Fin n) : Prop where
  passes : ok b = true
  highest : ∀ i, ok i = true → rank i ≤ rank b
  earliest : ∀ i, ok i = true → rank i = rank b → ahead start b ≤ ahead start i

theorem First.unique {c : Fin n} (one : First ok rank start b) (two : First ok rank start c) :
    b = c := by
  have same : rank b = rank c := le_antisymm (two.highest b one.passes) (one.highest c two.passes)
  apply ahead_inj start
  exact le_antisymm (one.earliest c two.passes same.symm) (two.earliest b one.passes same)

theorem scan_none (found : firstBest ok rank (after start) = none) (i : Fin n) : ok i = false := by
  have leads := firstBest_leads ok rank (after start)
  rw [found] at leads
  exact leads i (mem_after start i)

theorem scan_first (found : firstBest ok rank (after start) = some b) : First ok rank start b := by
  have leads := firstBest_leads ok rank (after start)
  rw [found] at leads
  obtain ⟨passes, pre, post, whole, below, atMost⟩ := leads
  have sorted := after_sorted start
  rw [whole, pairwise_append] at sorted
  have place (i : Fin n) : i ∈ pre ∨ i = b ∨ i ∈ post := by
    have inside := mem_after start i
    rw [whole] at inside
    simpa using inside
  constructor
  · exact passes
  · intro i fine
    rcases place i with early | rfl | late
    · exact (below i early fine).le
    · exact le_refl _
    · exact atMost i late fine
  · intro i fine same
    rcases place i with early | rfl | late
    · exact absurd same (below i early fine).ne
    · exact le_refl _
    · exact ((pairwise_cons.mp sorted.2.1).1 i late).le

theorem scan_eq (first : First ok rank start b) : firstBest ok rank (after start) = some b := by
  cases found : firstBest ok rank (after start) with
  | none => exact absurd first.passes (by simp [scan_none found b])
  | some c => rw [(scan_first found).unique first]

/-- The scan does not pass by anyone of the highest rank. -/
theorem First.reaches (first : First ok rank start b) {p : Fin n} (passes : ok p)
    (top : ∀ i, ok i → rank i ≤ rank p) : ahead start b ≤ ahead start p :=
  first.earliest p passes (le_antisymm (first.highest p passes) (top b first.passes))

/-- Scan after scan, each from where the last one ended: before a slot's turn comes again,
everyone had a turn who was of the highest rank all the time. -/
theorem First.turn_between {ok : Nat → Fin n → Bool} {rank : Nat → Fin n → ρ} {turn : Nat → Fin n}
    {j k : Nat} {p : Fin n}
    (turns : ∀ l, j ≤ l → l < k → First (ok l) (rank l) (turn l) (turn (l + 1)))
    (passes : ∀ l, j ≤ l → l < k → ok l p)
    (top : ∀ l, j ≤ l → l < k → ∀ i, ok l i → rank l i ≤ rank l p)
    (later : j < k) (again : turn j = turn k) (other : p ≠ turn j) :
    ∃ l, j < l ∧ l < k ∧ turn l = p := by
  by_contra never
  have reach (l : Nat) (start : j ≤ l) (inside : l < k) :=
    (turns l start inside).reaches (passes l start inside) (top l start inside)
  -- The slot `p` stays nearer than the one whose turn comes again.
  have nearer (l : Nat) (start : j ≤ l) : l < k → ahead (turn l) p < ahead (turn l) (turn k) := by
    induction l, start using Nat.le_induction with
    | base =>
      intro _
      rw [← again, ahead_self]
      exact ahead_lt other
    | succ l start ih =>
      intro inside
      have before := ih (by omega)
      have missed : ahead (turn l) (turn (l + 1)) ≠ ahead (turn l) p :=
        fun same => never ⟨l + 1, by omega, inside, ahead_inj (turn l) same⟩
      have next := reach l start (by omega)
      have one := ahead_add (lt_of_le_of_ne next missed)
      have two := ahead_add (lt_of_le_of_lt next before)
      omega
  obtain ⟨l, rfl⟩ : ∃ l, k = l + 1 := ⟨k - 1, by omega⟩
  have last := reach l (by omega) (by omega)
  have before := nearer l (by omega) (by omega)
  omega

end Scan

end UzOS.RoundRobin
