import UzOS.Lib.Buffer

/-! Little-endian 32-bit words in a byte memory. -/
namespace UzOS.Memory

open BitVec Buffer

def word (m : Nat → U8) (a : Nat) : U32 := m (a + 3) ++ m (a + 2) ++ m (a + 1) ++ m a

def wordBytes (v : U32) : List U8 :=
  [v.extractLsb' 0 8, v.extractLsb' 8 8, v.extractLsb' 16 8, v.extractLsb' 24 8]

def setWord (m : Nat → U8) (a : Nat) (v : U32) : Nat → U8 := Buffer.blit m a (wordBytes v)

section
variable {m m' : Nat → U8} {a b : Nat}

theorem word_congr (same : ∀ x, a ≤ x → x < a + 4 → m' x = m x) : word m' a = word m a := by
  rw [word, word, same (a + 3) (by omega) (by omega), same (a + 2) (by omega) (by omega),
    same (a + 1) (by omega) (by omega), same a (by omega) (by omega)]

theorem setWord_outside (v : U32) {x : Nat} (outside : x < a ∨ a + 4 ≤ x) :
    setWord m a v x = m x := by
  obtain before | after := outside
  · exact blit_before _ _ _ _ before
  · exact blit_after _ _ _ _ (by simpa [wordBytes] using after)

theorem word_setWord (v : U32) : word (setWord m a v) a = v := by
  have byte : ∀ i (inside : i < (wordBytes v).length),
      setWord m a v (a + i) = (wordBytes v)[i] := fun i => blit_inside m a _ i
  have first := byte 0 (by simp [wordBytes])
  have second := byte 1 (by simp [wordBytes])
  have third := byte 2 (by simp [wordBytes])
  have fourth := byte 3 (by simp [wordBytes])
  rw [add_zero] at first
  rw [word, first, second, third, fourth]
  simp only [wordBytes, List.getElem_cons_zero, List.getElem_cons_succ]
  apply eq_of_getLsbD_eq
  simp only [getLsbD_append, getLsbD_extractLsb']
  grind

theorem word_setWord_of_apart (v : U32) (apart : a + 4 ≤ b ∨ b + 4 ≤ a) :
    word (setWord m a v) b = word m b :=
  word_congr fun _ _ _ => setWord_outside v (by omega)

end

/-- Consecutive words from `a` on. -/
def storeWords (m : Nat → U8) (a : Nat) : List U32 → Nat → U8
  | [] => m
  | v :: rest => storeWords (setWord m a v) (a + 4) rest

section
variable {m : Nat → U8} {a : Nat} {vs : List U32}

theorem storeWords_outside {x : Nat} (outside : x < a ∨ a + 4 * vs.length ≤ x) :
    storeWords m a vs x = m x := by
  induction vs generalizing m a with
  | nil => rfl
  | cons v rest ih =>
    rw [List.length_cons] at outside
    rw [storeWords, ih (by omega), setWord_outside v (by omega)]

theorem word_storeWords {i : Nat} (inside : i < vs.length) :
    word (storeWords m a vs) (a + 4 * i) = vs[i] := by
  induction vs generalizing m a i with
  | nil => exact absurd inside (by simp)
  | cons v rest ih =>
    cases i with
    | zero =>
      have first : word (storeWords (setWord m a v) (a + 4) rest) a = word (setWord m a v) a :=
        word_congr fun x _ _ => storeWords_outside (by omega)
      simpa [storeWords] using first.trans (word_setWord v)
    | succ i =>
      have next := ih (m := setWord m a v) (a := a + 4) (i := i) (by simpa using inside)
      rw [storeWords, show a + 4 * (i + 1) = a + 4 + 4 * i by omega, next]
      rfl

end

end UzOS.Memory
