import UzOS.Lib.Word

/-! Byte buffers as functions from an index, the two ways the code copies into
them, and the list of elements a straight or a circular stretch holds. -/
namespace UzOS

open List
namespace Buffer
variable {α : Type}

/-- The `len` elements from `start` on. -/
def slice (b : Nat → α) (start len : Nat) : List α :=
  (List.range len).map fun i => b (start + i)

/-- Overwrite the elements from `start` on. -/
def blit (b : Nat → α) (start : Nat) (xs : List α) : Nat → α := fun i =>
  if start ≤ i then (xs[i - start]?).getD (b i) else b i

section
variable (b : Nat → α) (start : Nat) (xs : List α)

variable (n len i m : Nat)

@[simp] theorem slice_length : (slice b start len).length = len := by simp [slice]

theorem slice_getElem? (h : i < len) : (slice b start len)[i]? = some (b (start + i)) := by
  simp [slice, h]

theorem slice_add : slice b start (n + m) = slice b start n ++ slice b (start + n) m := by
  simp [slice, range_add, add_assoc]

theorem slice_take (h : n ≤ m) : (slice b start m).take n = slice b start n := by
  obtain ⟨k, rfl⟩ := Nat.le.dest h
  rw [slice_add, take_left' (slice_length ..)]

theorem slice_drop (h : n ≤ m) : (slice b start m).drop n = slice b (start + n) (m - n) := by
  obtain ⟨k, rfl⟩ := Nat.le.dest h
  rw [slice_add, drop_left' (slice_length ..), Nat.add_sub_cancel_left]

theorem slice_congr {a b : Nat → α} {start len : Nat}
    (h : ∀ i, start ≤ i → i < start + len → a i = b i) : slice a start len = slice b start len := by
  apply map_congr_left
  intro i hi
  have := mem_range.mp hi
  exact h _ (by omega) (by omega)

theorem blit_before (h : i < start) : blit b start xs i = b i := by simp [blit, not_le.mpr h]

theorem blit_after (h : start + xs.length ≤ i) : blit b start xs i = b i := by
  simp only [blit]
  split
  · rw [List.getElem?_eq_none (by omega), Option.getD_none]
  · rfl

theorem blit_inside (h : i < xs.length) : blit b start xs (start + i) = xs[i] := by simp [blit, h]

theorem slice_blit : slice (blit b start xs) start xs.length = xs := by
  apply ext_getElem (by simp)
  intro i _ hi
  simp [slice, blit_inside b start xs i hi]

/-- Appending right after a stretch leaves the stretch alone and adds to it. -/
theorem slice_blit_append (xs : List α) :
    slice (blit b (start + len) xs) start (len + xs.length) = slice b start len ++ xs := by
  rw [slice_add, slice_blit]
  congr 1
  exact slice_congr fun i _ hi => blit_before b _ xs i hi

end

theorem slice_inj {a b : Nat → α} {start len : Nat} :
    slice a start len = slice b start len ↔ ∀ i, start ≤ i → i < start + len → a i = b i := by
  refine ⟨fun same i low high => ?_, slice_congr⟩
  obtain ⟨k, rfl⟩ := Nat.le.dest low
  have here := congrArg (fun l => l[k]?) same
  simpa [slice_getElem? _ _ _ _ (show k < len by omega)] using here

/-- Extend with `z` up to length `n`. -/
def pad (z : α) (xs : List α) (n : Nat) : List α := xs ++ List.replicate (n - xs.length) z

/-- Replace the elements from `off` on by `ys`, as far as they go. -/
def overwrite (xs : List α) (off : Nat) (ys : List α) : List α :=
  xs.take off ++ ys ++ xs.drop (off + ys.length)

/-- A buffer that holds `z` beyond its first `n` elements. -/
def cleared (z : α) (b : Nat → α) (n : Nat) : Nat → α := fun i => if i < n then b i else z

theorem pad_slice (z : α) (b : Nat → α) (n m : Nat) :
    pad z (slice b 0 n) m = slice (cleared z b n) 0 (max n m) := by
  apply ext_getElem?
  intro i
  by_cases low : i < n
  · rw [pad, List.getElem?_append_left (by simpa using low), slice_getElem? _ _ _ _ low,
      slice_getElem? _ _ _ _ (by omega)]
    simp [cleared, low]
  by_cases high : i < m
  · rw [pad, List.getElem?_append_right (by simpa using low), slice_getElem? _ _ _ _ (by omega)]
    simp [cleared, List.getElem?_replicate]
    omega
  · rw [List.getElem?_eq_none (by simp [pad]; omega), List.getElem?_eq_none (by simp; omega)]

theorem overwrite_slice (b : Nat → α) (k off : Nat) (ys : List α) (within : off ≤ k) :
    overwrite (slice b 0 k) off ys = slice (blit b off ys) 0 (max k (off + ys.length)) := by
  rw [overwrite, slice_take _ _ _ _ within]
  by_cases inside : off + ys.length ≤ k
  · rw [slice_drop _ _ _ _ inside, show max k (off + ys.length) = off + ys.length +
      (k - (off + ys.length)) by omega, slice_add, ← slice_blit_append b 0 off ys]
    simp only [zero_add]
    congr 1
    exact slice_congr fun i low _ => (blit_after b off ys i low).symm
  · rw [drop_eq_nil_of_le (by simp; omega), ← slice_blit_append b 0 off ys,
      show max k (off + ys.length) = off + ys.length by omega]
    simp

/-! Circular stretches. -/

/-- The `len` elements a ring of `cap` cells holds from `head` on. -/
def ringRead (cap : Nat) (b : Nat → α) (head len : Nat) : List α :=
  (List.range len).map fun i => b ((head + i) % cap)

/-- Store the elements one after another, wrapping at the end of the ring. -/
def ringPut (cap : Nat) (b : Nat → α) (pos : Nat) : List α → Nat → α
  | [] => b
  | x :: xs => ringPut cap (fun i => if i = pos % cap then x else b i) (pos + 1) xs

section
variable (cap : Nat) (b : Nat → α) (head pos : Nat) (xs : List α)

variable (len : Nat)

@[simp] theorem ringRead_length : (ringRead cap b head len).length = len := by simp [ringRead]

theorem ringRead_add (n m : Nat) :
    ringRead cap b head (n + m) = ringRead cap b head n ++ ringRead cap b (head + n) m := by
  simp [ringRead, range_add, add_assoc]

theorem ringRead_mod : ringRead cap b (head % cap) len = ringRead cap b head len := by
  simp [ringRead]

theorem ringRead_congr {cap : Nat} {a b : Nat → α} {head len : Nat}
    (h : ∀ i, i < len → a ((head + i) % cap) = b ((head + i) % cap)) :
    ringRead cap a head len = ringRead cap b head len := by
  apply map_congr_left
  intro i hi
  exact h i (mem_range.mp hi)

/-- Reading off the front of a ring. -/
theorem ringRead_split (n : Nat) (h : n ≤ len) :
    ringRead cap b head n ++ ringRead cap b ((head + n) % cap) (len - n) =
      ringRead cap b head len := by
  obtain ⟨k, rfl⟩ := Nat.le.dest h
  rw [ringRead_mod, Nat.add_sub_cancel_left, ringRead_add]

theorem mod_ne_of_lt_cap {cap a b : Nat} (hab : a < b) (hb : b < a + cap) : a % cap ≠ b % cap := by
  intro e
  have hd := Nat.dvd_of_mod_eq_zero (Nat.sub_mod_eq_zero_of_mod_eq e.symm)
  have := Nat.le_of_dvd (by omega) hd
  omega

/-- A stretch that leaves room for the stored elements keeps its own. -/
theorem ringPut_frame (j : Nat) (hj : j < pos) (hcap : pos + xs.length ≤ j + cap) :
    ringPut cap b pos xs (j % cap) = b (j % cap) := by
  induction xs generalizing b pos with
  | nil => rfl
  | cons x xs ih =>
    rw [length_cons] at hcap
    rw [ringPut, ih _ _ (by omega) (by omega)]
    exact if_neg (mod_ne_of_lt_cap hj (by omega))

theorem ringRead_ringPut_self (hcap : xs.length ≤ cap) :
    ringRead cap (ringPut cap b pos xs) pos xs.length = xs := by
  induction xs generalizing b pos with
  | nil => rfl
  | cons x xs ih =>
    rw [length_cons] at hcap
    rw [length_cons, add_comm, ringRead_add, ringPut, ih _ _ (by omega)]
    simp only [ringRead, range_one, map_cons]
    rw [ringPut_frame _ _ _ _ _ (by omega) (by omega)]
    simp

/-- Storing behind the last element of a ring with room appends to its contents. -/
theorem ringRead_append (cap : Nat) (b : Nat → α) (head len : Nat) (xs : List α)
    (hcap : len + xs.length ≤ cap) :
    ringRead cap (ringPut cap b (head + len) xs) head (len + xs.length) =
      ringRead cap b head len ++ xs := by
  rw [ringRead_add, ringRead_ringPut_self _ _ _ _ (by omega)]
  congr 1
  apply ringRead_congr
  intro i hi
  exact ringPut_frame _ _ _ _ _ (by omega) (by omega)

end

end Buffer
end UzOS
