import UzOS.Lib.Runs

/-! Load averages (core/loadavg/loadavg.c): the fixed-point recurrence, and when
what is shown settles at a constant load. -/
namespace UzOS.Cpu

def loadavgOne : Nat := 2048
def loadavgSampleSeconds : Nat := 5

/-- EXP_1, EXP_5 and EXP_15 -/
def decay : Fin 3 → Nat := ![1884, 2014, 2037]

/-- The averages, in units of `loadavgOne`, and the ticks since the last sample. -/
structure Loadavg where
  averages : Fin 3 → Nat
  ticks : Nat

def blend (load e active : Nat) : Nat :=
  (load * e + active * (loadavgOne - e)) % 2 ^ 32 / loadavgOne

/-- One sample, with `n` processes runnable. -/
def sample (n : Nat) (averages : Fin 3 → Nat) : Fin 3 → Nat :=
  fun i => blend (averages i) (decay i) (n * loadavgOne)

def loadavgTick (hz n : Nat) (s : Loadavg) : Loadavg :=
  let ticks := (s.ticks + 1) % 2 ^ 32
  if hz = 0 then s
  else if ticks < loadavgSampleSeconds * hz % 2 ^ 32 then { s with ticks }
  else { averages := sample n s.averages, ticks := 0 }

def hundredths (average : Nat) : Nat := (average * 100 + loadavgOne / 2) % 2 ^ 32 / loadavgOne

def loadavgGet (averages : Fin 3 → Nat) : Fin 3 → Nat := fun i => hundredths (averages i)

/-- The two numbers loadavg_format prints with a dot between them. -/
def loadavgFormat (hundredths : Nat) : Nat × Nat := (hundredths / 100, hundredths % 100)

/-- A tick leaves the averages alone or is a sample. -/
theorem loadavgTick_averages (hz n : Nat) (s : Loadavg) :
    (loadavgTick hz n s).averages = s.averages ∨
      (loadavgTick hz n s).averages = sample n s.averages := by
  rw [loadavgTick]
  split
  · exact .inl rfl
  split
  · exact .inl rfl
  · exact .inr rfl

/-- Along a run of ticks at a constant load the averages are those after some samples. -/
theorem ticks_averages (hz n k : Nat) (s : Loadavg) :
    ∃ j, ((loadavgTick hz n)^[k] s).averages = (sample n)^[j] s.averages := by
  induction k generalizing s with
  | zero => exact ⟨0, rfl⟩
  | succ k ih =>
    obtain ⟨j, rest⟩ := ih (loadavgTick hz n s)
    rw [Function.iterate_succ_apply, rest]
    rcases loadavgTick_averages hz n s with same | sampled
    · exact ⟨j, by rw [same]⟩
    · exact ⟨j + 1, by rw [sampled, Function.iterate_succ_apply]⟩

/-- The recurrence of one average at load `n`. -/
def next (n : Nat) (i : Fin 3) (load : Nat) : Nat := blend load (decay i) (n * loadavgOne)

theorem next_lt (n : Nat) (i : Fin 3) (load : Nat) : next n i load < 2 ^ 21 := by
  rw [next, blend, loadavgOne]
  omega

theorem sample_iterate (n j : Nat) (start : Fin 3 → Nat) (i : Fin 3) :
    (sample n)^[j] start i = (next n i)^[j] (start i) := by
  induction j generalizing start with
  | zero => rfl
  | succ j ih => rw [Function.iterate_succ_apply, Function.iterate_succ_apply, ih, sample, next]

section
variable {n load : Nat} (few : n ≤ 64) (i : Fin 3)

theorem shown_iff (below : load ≤ n * 2048) (small : load < 2 ^ 21) :
    loadavgFormat (hundredths load) = (n, 0) ↔ n * 2048 ≤ load + 10 := by
  have value : (load * 100 + 2048 / 2) / 2048 = 100 * n ↔ n * 2048 ≤ load + 10 := by omega
  rw [loadavgFormat, hundredths, loadavgOne, Nat.mod_eq_of_lt (by omega), ← value, Prod.mk.injEq]
  generalize (load * 100 + 2048 / 2) / 2048 = hundredths
  omega

include few

/-- Below `2 ^ 21` nothing overflows. -/
theorem next_eq (small : load < 2 ^ 21) :
    next n i load = (load * decay i + n * 2048 * (2048 - decay i)) / 2048 := by
  have inside : load * decay i + n * 2048 * (2048 - decay i) < 2 ^ 32 := by
    fin_cases i <;> simp [decay] <;> omega
  rw [next, blend, loadavgOne, Nat.mod_eq_of_lt inside]

/-- From above, the average comes down to the load, by one at least. -/
theorem next_above (small : load < 2 ^ 21) (above : n * 2048 < load) :
    n * 2048 ≤ next n i load ∧ next n i load < load := by
  rw [next_eq few i small]
  fin_cases i <;> simp [decay] <;> omega

/-- Within ten units below the load the rounding holds the average where it is. -/
theorem next_fixed (below : load ≤ n * 2048) (near : n * 2048 ≤ load + 10) :
    next n i load = load := by
  rw [next_eq few i (by omega)]
  fin_cases i <;> simp [decay] <;> omega

/-- From further below, it never comes that near. -/
theorem next_below (below : load + 10 < n * 2048) (j : Nat) :
    (next n i)^[j] load + 10 < n * 2048 := by
  induction j with
  | zero => exact below
  | succ j ih =>
    rw [Function.iterate_succ_apply', next_eq few i (by omega)]
    revert ih
    fin_cases i <;> simp [decay] <;> omega

/-- An average that is not too far below the load comes to rest there. -/
theorem next_rests (small : load < 2 ^ 21) (near : n * 2048 ≤ load + 10) :
    ∃ k, (next n i)^[k] load ≤ n * 2048 ∧ n * 2048 ≤ (next n i)^[k] load + 10 := by
  -- The excess over the load shrinks with every sample.
  induction excess : load - n * 2048 using Nat.strong_induction_on generalizing load with
  | _ excess ih =>
    by_cases below : load ≤ n * 2048
    · exact ⟨0, below, near⟩
    · have down := next_above few i small (by omega)
      obtain ⟨k, rests⟩ := ih _ (by omega) (next_lt n i load) (by omega) rfl
      exact ⟨k + 1, rests⟩

end

/-- At a constant load each average shown is the load from some sample on if and
only if the first sample takes it above the load or at most ten units below. -/
theorem loadavg_settles_iff (n : Fin 65) (start : Fin 3 → Nat) (i : Fin 3) :
    (∃ k, ∀ j ≥ k, loadavgFormat (loadavgGet ((sample n)^[j] start) i) = (n.val, 0)) ↔
      (n * 2048 - 10) * 2048 ≤ (start i * decay i + n * 2048 * (2048 - decay i)) % 2 ^ 32 := by
  have few : n.val ≤ 64 := by omega
  have first : (n * 2048 - 10) * 2048 ≤
      (start i * decay i + n * 2048 * (2048 - decay i)) % 2 ^ 32 ↔
      n * 2048 ≤ next n i (start i) + 10 := by
    rw [next, blend, loadavgOne]
    omega
  have small := next_lt n i (start i)
  simp only [first, loadavgGet, sample_iterate]
  constructor
  · rintro ⟨k, settled⟩
    by_contra low
    have stays := next_below few i (Nat.lt_of_not_le low) k
    have shown := settled (k + 1) (Nat.le_succ k)
    rw [Function.iterate_succ_apply, shown_iff (by omega) (by omega)] at shown
    omega
  · intro near
    obtain ⟨k, low, high⟩ := next_rests few i small near
    refine ⟨k + 1, fun j late => ?_⟩
    obtain ⟨more, rfl⟩ := Nat.exists_eq_add_of_le' late
    rw [Function.iterate_add_apply, Function.iterate_succ_apply,
      Function.iterate_fixed (next_fixed few i low high)]
    exact (shown_iff low (by omega)).mpr high

/-- With one process running from an idle start, the averages come to a stand at
0.99, 0.97 and 0.91. -/
theorem loadavg_stuck :
    let rest := (sample 1)^[600] 0
    sample 1 rest = rest ∧ loadavgFormat ∘ loadavgGet rest = ![(0, 99), (0, 97), (0, 91)] := by
  decide +kernel

end UzOS.Cpu
