import Mathlib

/-! Fixed-width words, and positions on a circle of `2 ^ w` numbers that are
compared by the sign of their difference. -/
namespace UzOS

abbrev U8 := BitVec 8
abbrev U16 := BitVec 16
abbrev U32 := BitVec 32

/-- Is any bit of `bit` set in the flag byte `f`? -/
def flagSet (f bit : U8) : Bool := (f &&& bit) != 0

/-- Clearing the low `k` bits rounds down. -/
theorem toNat_and_allOnes_shiftLeft {w : Nat} (x : BitVec w) (k : Nat) :
    (x &&& BitVec.allOnes w <<< k).toNat = x.toNat / 2 ^ k * 2 ^ k := by
  have shifts : x &&& BitVec.allOnes w <<< k = (x >>> k) <<< k := by
    apply BitVec.eq_of_getLsbD_eq
    intro i inside
    simp only [BitVec.getLsbD_shiftLeft]
    by_cases low : i < k
    · simp [low]
    have back : k + (i - k) = i := by omega
    have small : i - k < w := by omega
    simp [low, inside, back, small]
  rw [shifts, BitVec.toNat_shiftLeft, BitVec.toNat_ushiftRight, Nat.shiftRight_eq_div_pow,
    Nat.shiftLeft_eq]
  exact Nat.mod_eq_of_lt (lt_of_le_of_lt (Nat.div_mul_le_self _ _) x.isLt)

namespace Serial
variable {w : Nat}

def lt (a b : BitVec w) : Bool := decide ((a - b).toInt < 0)
def le (a b : BitVec w) : Bool := decide ((a - b).toInt ≤ 0)
def gt (a b : BitVec w) : Bool := decide (0 < (a - b).toInt)
def ge (a b : BitVec w) : Bool := decide (0 ≤ (a - b).toInt)

/-- Two offsets from one base that are both below the circle's length name the
same position only when they are equal. -/
theorem offset_inj {base : BitVec w} {i k : Nat} (hi : i < 2 ^ w) (hk : k < 2 ^ w)
    (h : base + BitVec.ofNat w i = base + BitVec.ofNat w k) : i = k := by
  have e : BitVec.ofNat w i = BitVec.ofNat w k := by
    have := congrArg (fun x => x - base) h
    simpa [BitVec.add_sub_cancel] using this
  have := congrArg BitVec.toNat e
  simpa [Nat.mod_eq_of_lt hi, Nat.mod_eq_of_lt hk] using this

theorem offset_add (base : BitVec w) (i j : Nat) :
    base + BitVec.ofNat w (i + j) = base + BitVec.ofNat w i + BitVec.ofNat w j := by
  rw [BitVec.ofNat_add, BitVec.add_assoc]

end Serial
end UzOS
