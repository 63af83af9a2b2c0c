import UzOS.Lib.Word

/-! Memory whose every access is checked: bytes that may only be read inside
their length, buffers that may only be written inside theirs, and rules for
programs that never fault. -/
namespace UzOS.Checked

open List

inductive Fault where
  | load (i : Nat)
  | store (i : Nat)
  | unfinished
  deriving DecidableEq

/-- A buffer of `N` bytes. -/
abbrev Buf (N : Nat) := Fin N → U8

variable {α β : Type} {N : Nat}

def load (mem : List U8) (i : Nat) : Except Fault U8 :=
  match mem[i]? with
  | some b => .ok b
  | none => .error (.load i)

def store (buf : Buf N) (i : Nat) (b : U8) : Except Fault (Buf N) :=
  if h : i < N then .ok (Function.update buf ⟨i, h⟩ b) else .error (.store i)

/-- Store bytes from an index on. -/
def storeAll (buf : Buf N) (i : Nat) : List U8 → Except Fault (Buf N)
  | [] => .ok buf
  | b :: rest => store buf i b >>= fun buf => storeAll buf (i + 1) rest

/-- Load `n` bytes from an index on. -/
def loadAll (mem : List U8) : Nat → Nat → Except Fault (List U8)
  | _, 0 => .ok []
  | i, n + 1 => load mem i >>= fun b => loadAll mem (i + 1) n >>= fun rest => .ok (b :: rest)

/-- memcpy -/
def copy (buf : Buf N) (target : Nat) (mem : List U8) (source n : Nat) : Except Fault (Buf N) :=
  loadAll mem source n >>= storeAll buf target

/-- Big-endian words. -/
def load16 (mem : List U8) (i : Nat) : Except Fault U16 :=
  load mem i >>= fun hi => load mem (i + 1) >>= fun lo => .ok (hi ++ lo)

def load32 (mem : List U8) (i : Nat) : Except Fault U32 :=
  load16 mem i >>= fun hi => load16 mem (i + 2) >>= fun lo => .ok (hi ++ lo)

/-- The program ends without a fault, and what it returns is as said. -/
def Ends (x : Except Fault α) (post : α → Prop) : Prop := ∃ a, x = .ok a ∧ post a

section
variable {x : Except Fault α} {f : α → Except Fault β} {mid : α → Prop} {post : β → Prop}

theorem Ends.pure {a : β} (holds : post a) : Ends (.ok a) post := ⟨a, rfl, holds⟩

theorem Ends.bind (first : Ends x mid) (next : ∀ a, mid a → Ends (f a) post) :
    Ends (x >>= f) post := by
  obtain ⟨a, rfl, holds⟩ := first
  exact next a holds

theorem Ends.weaken {y : Except Fault β} {weaker : β → Prop} (ends : Ends y post)
    (implies : ∀ a, post a → weaker a) : Ends y weaker := by
  obtain ⟨a, rfl, holds⟩ := ends
  exact ⟨a, rfl, implies a holds⟩

@[simp] theorem ok_bind (a : α) (f : α → Except Fault β) : (Except.ok a >>= f) = f a := rfl

end

/-! Loads. -/

variable {mem bytes : List U8} {i : Nat} {buf out : Buf N}

theorem load_some {b : U8} (here : mem[i]? = some b) : load mem i = .ok b := by rw [load, here]

theorem load_ends (inside : i < mem.length) : Ends (load mem i) fun b => mem[i]? = some b :=
  ⟨mem[i], load_some (List.getElem?_eq_getElem inside), List.getElem?_eq_getElem inside⟩

theorem load_inside {b : U8} (loaded : load mem i = .ok b) : i < mem.length := by
  by_contra outside
  rw [load, List.getElem?_eq_none (Nat.le_of_not_lt outside)] at loaded
  cases loaded

theorem bind_eq_ok {x : Except Fault α} {f : α → Except Fault β} {b : β} (done : x >>= f = .ok b) :
    ∃ a, x = .ok a ∧ f a = .ok b := by
  cases x with
  | error fault => cases done
  | ok a => exact ⟨a, rfl, done⟩

theorem load16_inside {v : U16} (loaded : load16 mem i = .ok v) : i + 2 ≤ mem.length := by
  obtain ⟨hi, -, rest⟩ := bind_eq_ok loaded
  obtain ⟨lo, second, -⟩ := bind_eq_ok rest
  have := load_inside second
  omega

theorem load32_inside {v : U32} (loaded : load32 mem i = .ok v) : i + 4 ≤ mem.length := by
  obtain ⟨hi, -, rest⟩ := bind_eq_ok loaded
  obtain ⟨lo, second, -⟩ := bind_eq_ok rest
  have := load16_inside second
  omega

theorem load16_ends (inside : i + 2 ≤ mem.length) : Ends (load16 mem i) fun _ => True :=
  (load_ends (by omega)).bind fun _ _ => (load_ends (by omega)).bind fun _ _ => .pure trivial

theorem load32_ends (inside : i + 4 ≤ mem.length) : Ends (load32 mem i) fun _ => True :=
  (load16_ends (by omega)).bind fun _ _ => (load16_ends (by omega)).bind fun _ _ => .pure trivial

theorem loadAll_eq {n : Nat} (inside : i + n ≤ mem.length) :
    loadAll mem i n = .ok ((mem.drop i).take n) := by
  induction n generalizing i with
  | zero => rfl
  | succ n ih =>
    have here : mem[i]? = some mem[i] := List.getElem?_eq_getElem (by omega)
    have split : (mem.drop i).take (n + 1) = mem[i] :: (mem.drop (i + 1)).take n := by
      rw [drop_eq_getElem_cons (by omega), take_succ_cons]
    rw [loadAll, load_some here, split]
    rw [ih (by omega)]
    rfl

/-! Stores. -/

theorem store_ends (inside : i < N) (b : U8) :
    Ends (store buf i b) fun out => ∀ k : Fin N, out k = if k.val = i then b else buf k := by
  refine ⟨_, dif_pos inside, fun k => ?_⟩
  by_cases here : k.val = i
  · have same : k = ⟨i, inside⟩ := Fin.ext here
    rw [if_pos here, same, Function.update_self]
  · rw [if_neg here, Function.update_of_ne fun same => here (congrArg Fin.val same)]

/-- The stored bytes, and everything else as it was. -/
theorem storeAll_ends (inside : i + bytes.length ≤ N) :
    Ends (storeAll buf i bytes) fun out =>
      ∀ k : Fin N, out k =
        if i ≤ k.val then (bytes[k.val - i]?).getD (buf k) else buf k := by
  induction bytes generalizing buf i with
  | nil => exact .pure fun k => by simp
  | cons b rest ih =>
    simp only [length_cons] at inside
    refine (store_ends (show i < N by omega) b).bind fun mid first => ?_
    refine (ih (by omega)).weaken fun out others k => ?_
    rw [others k, first k]
    by_cases later : i + 1 ≤ k.val
    · have index : k.val - i = (k.val - (i + 1)) + 1 := by omega
      rw [if_pos later, if_neg (by omega), if_pos (by omega), index, List.getElem?_cons_succ]
    by_cases here : k.val = i
    · simp [here]
    · rw [if_neg later, if_neg here, if_neg (by omega)]

/-- Copying nothing reads nothing. -/
theorem copy_ends {target : Nat} {source n : Nat} (reads : n = 0 ∨ source + n ≤ mem.length)
    (writes : target + n ≤ N) :
    Ends (copy buf target mem source n) fun out =>
      ∀ k : Fin N, out k =
        if target ≤ k.val then (((mem.drop source).take n)[k.val - target]?).getD (buf k)
        else buf k := by
  have loaded : loadAll mem source n = .ok ((mem.drop source).take n) := by
    obtain rfl | inside := reads
    · rfl
    · exact loadAll_eq inside
  have short := length_take_le n (mem.drop source)
  rw [copy, loaded]
  exact storeAll_ends (by omega)

/-! Strings. -/

def Terminated (buf : Buf N) : Prop := ∃ k, buf k = 0

/-- The last byte is NUL, so whatever stands before it is terminated. -/
def Sealed (buf : Buf N) : Prop := ∀ k : Fin N, k.val + 1 = N → buf k = 0

theorem Sealed.terminated (tight : Sealed buf) (some_room : 0 < N) : Terminated buf :=
  ⟨⟨N - 1, by omega⟩, tight _ (by simp only; omega)⟩

theorem Sealed.store {b : U8} (tight : Sealed buf)
    (stored : ∀ k : Fin N, out k = if k.val = i then b else buf k) (harmless : i + 1 < N ∨ b = 0) :
    Sealed out := by
  intro k last
  rw [stored k]
  split
  · obtain before | zero := harmless
    · omega
    · exact zero
  · exact tight k last

theorem Sealed.storeAll (tight : Sealed buf) (stored : ∀ k : Fin N, out k =
      if i ≤ k.val then (bytes[k.val - i]?).getD (buf k) else buf k)
    (before : i + bytes.length < N) : Sealed out := by
  intro k last
  rw [stored k]
  split
  · rw [List.getElem?_eq_none (by omega)]
    exact tight k last
  · exact tight k last

/-- The buffer begins with these bytes. -/
def Holds (buf : Buf N) (bytes : List U8) : Prop :=
  ∀ k (inside : k < bytes.length), ∃ room : k < N, buf ⟨k, room⟩ = bytes[k]

theorem Holds.nil (buf : Buf N) : Holds buf [] := nofun

/-- Bytes stored behind those that are there. -/
theorem Holds.append {more : List U8} (holds : Holds buf bytes)
    (room : bytes.length + more.length ≤ N) (stored : ∀ k : Fin N, out k =
      if bytes.length ≤ k.val then (more[k.val - bytes.length]?).getD (buf k) else buf k) :
    Holds out (bytes ++ more) := by
  intro k inside
  rw [length_append] at inside
  refine ⟨by omega, ?_⟩
  rw [stored]
  split
  · rename_i behind
    simp only at behind
    rw [getElem_append_right behind, List.getElem?_eq_getElem (by simp only; omega),
      Option.getD_some]
  · rename_i before
    simp only [not_le] at before
    rw [getElem_append_left before]
    exact (holds k before).2

theorem Holds.push {b : U8} (holds : Holds buf bytes) (room : bytes.length < N)
    (stored : ∀ k : Fin N, out k = if k.val = bytes.length then b else buf k) :
    Holds out (bytes ++ [b]) := by
  refine holds.append (by simpa using room) fun k => ?_
  rw [stored k]
  by_cases here : k.val = bytes.length
  · simp [here]
  rw [if_neg here]
  split
  · rw [List.getElem?_eq_none (by simp only [length_singleton]; omega), Option.getD_none]
  · rfl

theorem Holds.load (holds : Holds buf bytes) {k : Nat} (inside : k < bytes.length) :
    load (List.ofFn buf) k = .ok bytes[k] := by
  obtain ⟨room, value⟩ := holds k inside
  apply load_some
  rw [List.getElem?_ofFn, dif_pos room, value]

end UzOS.Checked
