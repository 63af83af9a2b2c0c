import UzOS.Lib.Word

/-! One's complement sums of 16-bit words: carrying the overflow back in keeps
the sum modulo `2 ^ 16 - 1`, and the complement brings it to all ones. -/
namespace UzOS.OnesComplement

/-- The sum a 16-bit one's complement adder ends with. Zero comes from zero
only; every other multiple of 65535 gives 65535. -/
def norm (n : Nat) : Nat := if n = 0 then 0 else (n - 1) % 65535 + 1

/-- Carry the overflow back in once. -/
def endAround (n : Nat) : Nat := n % 65536 + n / 65536

@[simp] theorem norm_zero : norm 0 = 0 := rfl

theorem norm_of_ne {n : Nat} (positive : n ≠ 0) : norm n = (n - 1) % 65535 + 1 := if_neg positive

theorem norm_of_lt {n : Nat} (small : n < 65536) : norm n = n := by
  by_cases zero : n = 0
  · simp [zero]
  rw [norm_of_ne zero]
  omega

theorem norm_endAround (n : Nat) : norm (endAround n) = norm n := by
  by_cases zero : n = 0
  · simp [zero, endAround]
  have some_left : endAround n ≠ 0 := by
    simp only [endAround]
    omega
  rw [norm_of_ne zero, norm_of_ne some_left, endAround]
  omega

/-- Adding the complement of a sum gives all ones. -/
theorem norm_complement (n : Nat) : norm (n + (65535 - norm n)) = 65535 := by
  by_cases zero : n = 0
  · simp [zero, norm_of_ne]
  rw [norm_of_ne zero, norm_of_ne (by omega)]
  omega

/-- The bytes of a 16-bit word, low byte first. -/
def bytes16 (x : U16) : List U8 := [x.setWidth 8, (x >>> 8).setWidth 8]

/-- The bytes of a 32-bit word, low byte first. -/
def bytes32 (x : U32) : List U8 :=
  bytes16 (x.setWidth 16) ++ bytes16 ((x >>> 16).setWidth 16)

/-- Bytes added up as 16-bit words, low byte first; an odd last byte counts as
a word of its own. -/
def wordSum : List U8 → Nat
  | a :: b :: rest => a.toNat + 256 * b.toNat + wordSum rest
  | [a] => a.toNat
  | [] => 0

theorem wordSum_bytes16 (x : U16) (rest : List U8) :
    wordSum (bytes16 x ++ rest) = x.toNat + wordSum rest := by
  simp only [bytes16, List.cons_append, List.nil_append, wordSum]
  have value : (x.setWidth 8).toNat + 256 * ((x >>> 8).setWidth 8).toNat = x.toNat := by
    simp only [BitVec.toNat_setWidth, BitVec.toNat_ushiftRight]
    omega
  rw [value]

/-- Bytes that fill whole words are added up on their own. -/
theorem wordSum_append {front : List U8} (even : front.length % 2 = 0) (rest : List U8) :
    wordSum (front ++ rest) = wordSum front + wordSum rest := by
  fun_induction wordSum front with
  | case1 a b front ih =>
    simp only [List.length_cons] at even
    simp only [List.cons_append, wordSum, ih (by omega)]
    omega
  | case2 a => simp at even
  | case3 => simp

theorem wordSum_le (data : List U8) : wordSum data ≤ 65535 * ((data.length + 1) / 2) := by
  fun_induction wordSum data with
  | case1 a b rest ih | case2 a =>
    simp only [List.length_cons]
    omega
  | case3 => simp

end UzOS.OnesComplement
