import UzOS.Dns.Safety

/-! A question and its answer: which names that can be asked for are recognised
in the reply. -/
namespace UzOS.Dns

open Checked List

/-! Labels. -/

/-- The wire format of a name, without compression. -/
def wire (labels : List (List U8)) : List U8 :=
  labels.flatMap (fun label => BitVec.ofNat 8 label.length :: label) ++ [0]

/-- What a label may be. -/
structure GoodLabel (label : List U8) : Prop where
  some_bytes : label ≠ []
  short : label.length ≤ 63

/-- A text with one more label behind it. -/
def addLabel (text label : List U8) : List U8 := if text = [] then label else text ++ dot :: label

/-- Labels put behind a text, with dots between. -/
def join (text : List U8) (labels : List (List U8)) : List U8 := labels.foldl addLabel text

theorem wire_cons (label : List U8) (rest : List (List U8)) :
    wire (label :: rest) = BitVec.ofNat 8 label.length :: (label ++ wire rest) := by
  simp [wire]

variable {label text msg : List U8} {labels : List (List U8)} {i jumps next : Nat}

theorem GoodLabel.length_byte (good : GoodLabel label) :
    (BitVec.ofNat 8 label.length).toNat = label.length := by
  have := good.short
  rw [BitVec.toNat_ofNat]
  omega

theorem GoodLabel.positive (good : GoodLabel label) : 0 < label.length :=
  length_pos_of_ne_nil good.some_bytes

theorem GoodLabel.byte_ne_zero (good : GoodLabel label) : BitVec.ofNat 8 label.length ≠ 0 := by
  intro zero
  have value := good.length_byte
  have positive := good.positive
  rw [zero] at value
  exact absurd value (ne_of_lt positive)

theorem wire_injective {a b : List (List U8)} (goodA : ∀ label ∈ a, GoodLabel label)
    (goodB : ∀ label ∈ b, GoodLabel label) (same : wire a = wire b) : a = b := by
  induction a generalizing b with
  | nil =>
    cases b with
    | nil => rfl
    | cons y ys => exact absurd (List.cons.inj same).1.symm (goodB y mem_cons_self).byte_ne_zero
  | cons x xs ih =>
    have goodX := goodA x mem_cons_self
    cases b with
    | nil => exact absurd (List.cons.inj same).1 goodX.byte_ne_zero
    | cons y ys =>
      have goodY := goodB y mem_cons_self
      rw [wire_cons, wire_cons] at same
      obtain ⟨size, bytes⟩ := List.cons.inj same
      have length : x.length = y.length := by rw [← goodX.length_byte, size, goodY.length_byte]
      obtain ⟨first, rest⟩ := append_inj bytes length
      rw [first, ih (fun label member => goodA label (mem_cons_of_mem _ member))
        (fun label member => goodB label (mem_cons_of_mem _ member)) rest]

theorem addLabel_length (text label : List U8) :
    text.length + label.length ≤ (addLabel text label).length := by
  rw [addLabel]
  split
  · rename_i empty
    simp [empty]
  simp only [length_append, length_cons]
  omega

theorem addLabel_length_le (text label : List U8) :
    (addLabel text label).length ≤ text.length + 1 + label.length := by
  rw [addLabel]
  split
  · omega
  simp only [length_append, length_cons]
  omega

theorem join_length_le (text : List U8) (labels : List (List U8)) :
    text.length ≤ (join text labels).length := by
  induction labels generalizing text with
  | nil => exact le_refl _
  | cons label rest ih =>
    have one := addLabel_length text label
    exact le_trans (by omega) (ih (addLabel text label))

/-- What stands before a text stays there. -/
theorem join_append (front : List U8) (some_text : text ≠ []) (labels : List (List U8)) :
    join (front ++ text) labels = front ++ join text labels := by
  induction labels generalizing text with
  | nil => rfl
  | cons label rest ih =>
    have added : addLabel (front ++ text) label = front ++ addLabel text label := by
      rw [addLabel, addLabel, if_neg some_text, if_neg (by simp [some_text]), append_assoc]
    have more : addLabel text label ≠ [] := by
      rw [addLabel, if_neg some_text]
      simp
    change join (addLabel (front ++ text) label) rest = front ++ join (addLabel text label) rest
    rw [added, ih more]

theorem join_cons (some_bytes : label ≠ []) (more : labels ≠ [])
    (good : ∀ label ∈ labels, GoodLabel label) :
    join [] (label :: labels) = label ++ dot :: join [] labels := by
  cases labels with
  | nil => exact absurd rfl more
  | cons next rest =>
    have next_bytes := (good next mem_cons_self).some_bytes
    change join (addLabel label next) rest = label ++ dot :: join next rest
    rw [addLabel, if_neg some_bytes, show label ++ dot :: next = (label ++ [dot]) ++ next by simp,
      join_append _ next_bytes]
    simp

/-! What encode_name writes. -/

/-- The text of the name is its labels joined by dots, maybe with a dot at the end. -/
structure Spells (name : List U8) (labels : List (List U8)) : Prop where
  good : ∀ label ∈ labels, GoodLabel label
  dotless : ∀ label ∈ labels, dot ∉ label
  text : name = join [] labels ∨ labels ≠ [] ∧ name = join [] labels ++ [dot]

theorem Spells.of_nil (spells : Spells [] labels) : labels = [] := by
  obtain text | ⟨-, text⟩ := spells.text
  · cases labels with
    | nil => rfl
    | cons label rest =>
      have positive := (spells.good label mem_cons_self).positive
      have long : label.length ≤ (join [] (label :: rest)).length := join_length_le label rest
      rw [← text] at long
      exact absurd long (Nat.not_le_of_lt positive)
  · simp at text

/-- One more label in front of a name. -/
theorem Spells.cons_text {rest : List U8} (good : GoodLabel label) (spells : Spells rest labels) :
    label ++ dot :: rest = join [] (label :: labels) ∨
      label ++ dot :: rest = join [] (label :: labels) ++ [dot] := by
  by_cases last : labels = []
  · subst last
    right
    obtain text | ⟨some_labels, -⟩ := spells.text
    · rw [text]
      rfl
    · exact absurd rfl some_labels
  · have joined := join_cons good.some_bytes last spells.good
    obtain text | ⟨-, text⟩ := spells.text
    · left
      rw [joined, text]
    rw [joined, text]
    simp

theorem takeWhile_dot (name : List U8) :
    name = name.takeWhile (· ≠ dot) ∨ ∃ rest, name = name.takeWhile (· ≠ dot) ++ dot :: rest := by
  induction name with
  | nil => exact .inl rfl
  | cons c cs ih =>
    by_cases here : c = dot
    · exact .inr ⟨cs, by simp [here]⟩
    have step : (c :: cs).takeWhile (· ≠ dot) = c :: cs.takeWhile (· ≠ dot) := by simp [here]
    rw [step]
    obtain whole | ⟨rest, split⟩ := ih
    · exact .inl (by rw [← whole])
    · exact .inr ⟨rest, by rw [cons_append, ← split]⟩

variable {bytes more name : List U8} {rounds : Nat}

theorem encodeLoop_spells {max : Nat} {out : List U8}
    (encoded : encodeLoop max rounds name out = some bytes) :
    ∃ labels, bytes = out ++ wire labels ∧ Spells name labels := by
  induction rounds generalizing name out with
  | zero =>
    cases name with
    | nil =>
      cases encoded
      exact ⟨[], rfl, by simp, by simp, .inl rfl⟩
    | cons c cs => cases encoded
  | succ rounds ih =>
    cases name with
    | nil =>
      cases encoded
      exact ⟨[], rfl, by simp, by simp, .inl rfl⟩
    | cons c cs =>
      rw [encodeLoop] at encoded
      generalize whole : c :: cs = name at encoded
      have cut := takeWhile_dot name
      generalize front : name.takeWhile (· ≠ dot) = label at encoded
      split at encoded
      · cases encoded
      rename_i fits
      rw [not_or, not_or] at fits
      have good : GoodLabel label :=
        ⟨fun empty => fits.1 (by rw [empty]; rfl), Nat.le_of_not_lt fits.2.1⟩
      obtain ⟨labels, wired, spells⟩ := ih encoded
      refine ⟨label :: labels, ?_, ?_, ?_, ?_⟩
      · rw [wired, wire_cons]
        simp
      · intro l member
        obtain rfl | later := mem_cons.mp member
        · exact good
        · exact spells.good l later
      · intro l member
        obtain rfl | later := mem_cons.mp member
        · intro inside
          rw [← front] at inside
          simpa using mem_takeWhile_imp inside
        · exact spells.dotless l later
      · rw [show name.takeWhile (· ≠ dot) = label from front] at cut
        obtain alone | ⟨rest, split⟩ := cut
        · have nothing : (name.drop label.length).drop 1 = [] := by
            rw [alone]
            simp
          rw [nothing] at spells
          rw [spells.of_nil]
          exact .inl alone
        · have behind : (name.drop label.length).drop 1 = rest := by
            rw [split]
            simp
          rw [behind] at spells
          rw [split]
          exact (spells.cons_text good).imp id fun text => ⟨by simp, text⟩

/-- Labels without dots do not end in one. -/
theorem join_last (last : text.getLast? ≠ some dot) (good : ∀ label ∈ labels, GoodLabel label)
    (dotless : ∀ label ∈ labels, dot ∉ label) : (join text labels).getLast? ≠ some dot := by
  induction labels generalizing text with
  | nil => exact last
  | cons label rest ih =>
    have some_bytes := (good label mem_cons_self).some_bytes
    have ending : label.getLast? ≠ some dot := fun same =>
      dotless label mem_cons_self (List.mem_of_getLast? same)
    have added : (addLabel text label).getLast? ≠ some dot := by
      rw [addLabel]
      split
      · exact ending
      rw [List.getLast?_append_of_ne_nil _ (by simp), List.getLast?_cons_of_ne_nil some_bytes]
      exact ending
    exact ih added (fun l member => good l (mem_cons_of_mem _ member))
      fun l member => dotless l (mem_cons_of_mem _ member)

/-- Whether a name was given without a dot at its end. -/
theorem Spells.plain_iff (spells : Spells name labels) :
    name = join [] labels ↔ name.getLast? ≠ some dot := by
  have last : (join [] labels).getLast? ≠ some dot := join_last (by simp) spells.good spells.dotless
  constructor
  · rintro rfl
    exact last
  · intro plain
    obtain text | ⟨-, text⟩ := spells.text
    · exact text
    rw [text] at plain
    simp at plain

section
variable {name : List U8} {labels : List (List U8)} (spells : Spells name labels)
include spells

theorem Spells.length_le : (join [] labels).length ≤ name.length := by
  obtain text | ⟨-, text⟩ := spells.text
  · rw [text]
  rw [text]
  simp

theorem Spells.plain_of_length (same : (join [] labels).length = name.length) :
    name = join [] labels := by
  obtain text | ⟨-, text⟩ := spells.text
  · exact text
  rw [text] at same
  simp at same

theorem Spells.proper (given : 0 ∉ name) : 0 ∉ join [] labels := by
  obtain text | ⟨-, text⟩ := spells.text
  · rwa [← text]
  rw [text] at given
  exact fun zero => given (mem_append_left _ zero)

end

/-! What read_name reads. -/

/-- The name stored at a position of the message: its labels, the pointers that
have to be followed, and where it ends as it is stored there. -/
inductive NameAt (msg : List U8) : Nat → List (List U8) → Nat → Nat → Prop
  | root {i : Nat} (zero : msg[i]? = some 0) : NameAt msg i [] 0 (i + 1)
  | label {i : Nat} {label : List U8} {labels : List (List U8)} {jumps next : Nat}
      (good : GoodLabel label) (size : msg[i]? = some (BitVec.ofNat 8 label.length))
      (bytes : (msg.drop (i + 1)).take label.length = label)
      (rest : NameAt msg (i + 1 + label.length) labels jumps next) :
      NameAt msg i (label :: labels) jumps next
  | pointer {i : Nat} {high low : U8} {labels : List (List U8)} {jumps next : Nat}
      (here : msg[i]? = some high) (marked : high &&& 0xC0#8 = 0xC0#8)
      (behind : msg[i + 1]? = some low) (rest : NameAt msg (target high low) labels jumps next) :
      NameAt msg i labels (jumps + 1) (i + 2)

theorem NameAt.good (name : NameAt msg i labels jumps next) :
    ∀ label ∈ labels, GoodLabel label := by
  induction name with
  | root zero => simp
  | label good size bytes rest ih =>
    intro l member
    obtain rfl | later := mem_cons.mp member
    · exact good
    · exact ih l later
  | pointer here marked behind rest ih => exact ih

theorem NameAt.inside (name : NameAt msg i labels jumps next) : i < msg.length := by
  cases name with
  | root zero => exact (List.getElem?_eq_some_iff.mp zero).1
  | label good size bytes rest => exact (List.getElem?_eq_some_iff.mp size).1
  | pointer here marked behind rest => exact (List.getElem?_eq_some_iff.mp here).1

/-- A name in wire format is there without pointers. -/
theorem nameAt_wire (good : ∀ label ∈ labels, GoodLabel label)
    (bytes : msg.drop i = wire labels ++ more) :
    NameAt msg i labels 0 (i + (wire labels).length) := by
  induction labels generalizing i with
  | nil =>
    apply NameAt.root
    rw [← List.head?_drop, bytes]
    rfl
  | cons label rest ih =>
    rw [wire_cons] at bytes
    have behind : msg.drop (i + 1) = label ++ (wire rest ++ more) := by
      rw [← drop_drop, bytes]
      simp
    have tail : msg.drop (i + 1 + label.length) = wire rest ++ more := by
      rw [← drop_drop, behind]
      simp
    have length : i + (wire (label :: rest)).length =
        i + 1 + label.length + (wire rest).length := by
      rw [wire_cons]
      simp
      omega
    rw [length]
    refine .label (good label mem_cons_self) ?_ ?_
      (ih (fun l member => good l (mem_cons_of_mem _ member)) tail)
    · rw [← List.head?_drop, bytes]
      rfl
    · rw [behind]
      simp

/-- A label length is neither a pointer nor the end. -/
theorem GoodLabel.not_pointer (good : GoodLabel label) :
    BitVec.ofNat 8 label.length &&& 0xC0#8 ≠ 0xC0#8 := by
  have short := good.short
  generalize label.length = n at short
  interval_cases n <;> decide

/-- What is read in the end. -/
structure Found (labels : List (List U8)) (text : List U8) (w : Walk) (jumps next : Nat)
    (r : Bool × Walk) : Prop where
  fits : r.1 = true ↔ w.pointers + jumps ≤ maxPointers ∧ (join text labels).length < dnsNameMax
  holds : r.1 = true → Holds r.2.out (join text labels ++ [0])
  pos : r.1 = true → r.2.pos = if w.jumped then w.pos else next

/-- Where the next label goes, and what stands before it. -/
theorem putDot_holds {out : Text} (holds : Holds out text) (room : text.length < dnsNameMax)
    (label : List U8) :
    Ends (putDot text.length out) fun r => ∃ front, Holds r.2 front ∧ front.length = r.1 ∧
      front ++ label = addLabel text label := by
  rw [putDot]
  by_cases empty : text = []
  · subst empty
    exact .pure ⟨[], Holds.nil _, rfl, rfl⟩
  rw [if_pos (by simpa using empty)]
  refine (store_ends room dot).bind fun next stored => ?_
  refine .pure ⟨text ++ [dot], holds.push room stored, by simp, ?_⟩
  rw [addLabel, if_neg empty]
  simp

section
variable {msg : List U8} {w : Walk} {text : List U8}

theorem Found.stopped {labels : List (List U8)} {jumps next : Nat}
    (never : ¬ (w.pointers + jumps ≤ maxPointers ∧ (join text labels).length < dnsNameMax)) :
    Found labels text w jumps next (false, w) :=
  ⟨⟨nofun, fun both => absurd both never⟩, nofun,
    nofun⟩

variable {rounds : Nat}

theorem readNameLoop_root (zero : msg[w.here]? = some 0) (length : text.length = w.n)
    (room : w.n < dnsNameMax) (followed : w.pointers ≤ maxPointers) (holds : Holds w.out text) :
    Ends (readNameLoop msg (rounds + 1) w) (Found [] text w 0 (w.here + 1)) := by
  have inside := (List.getElem?_eq_some_iff.mp zero).1
  rw [readNameLoop, if_neg (Nat.not_le_of_lt inside), load_some zero]
  rw [← length] at room ⊢
  refine (store_ends room 0).bind fun out stored => ?_
  exact .pure ⟨iff_of_true rfl ⟨followed, room⟩, fun _ => holds.push room stored, fun _ => rfl⟩

/-- One label is read: the buffer has it behind what was there. -/
theorem readNameLoop_label {label : List U8} (good : GoodLabel label)
    (size : msg[w.here]? = some (BitVec.ofNat 8 label.length))
    (bytes : (msg.drop (w.here + 1)).take label.length = label) (length : text.length = w.n)
    (fits : w.n + label.length + 2 ≤ dnsNameMax) (holds : Holds w.out text)
    {post : Bool × Walk → Prop}
    (next : ∀ out, Holds out (addLabel text label) → Ends (readNameLoop msg rounds
      { w with
        n := (addLabel text label).length, here := w.here + 1 + label.length, out := out }) post) :
    Ends (readNameLoop msg (rounds + 1) w) post := by
  have inside := (List.getElem?_eq_some_iff.mp size).1
  have byte := good.length_byte
  have short := good.short
  have whole := congrArg List.length bytes
  rw [length_take, length_drop] at whole
  rw [readNameLoop, if_neg (Nat.not_le_of_lt inside), load_some size, ok_bind,
    if_neg good.not_pointer, if_neg good.byte_ne_zero, byte, if_neg (by omega)]
  rw [← length] at fits ⊢
  refine (putDot_holds holds (by omega) label).bind fun dotted added => ?_
  obtain ⟨front, before, place, joined⟩ := added
  have long := congrArg List.length joined
  have most := addLabel_length_le text label
  rw [length_append] at long
  refine (copy_ends (.inr (by omega)) (by omega)).bind fun out copied => ?_
  rw [bytes, ← place] at copied
  have kept := before.append (by omega) copied
  rw [joined] at kept
  rw [← place, ← length_append, joined]
  exact next out kept

theorem readNameLoop_too_long {label : List U8} (good : GoodLabel label)
    (size : msg[w.here]? = some (BitVec.ofNat 8 label.length))
    (long : dnsNameMax < w.n + label.length + 2) :
    readNameLoop msg (rounds + 1) w = .ok (false, w) := by
  have inside := (List.getElem?_eq_some_iff.mp size).1
  rw [readNameLoop, if_neg (Nat.not_le_of_lt inside), load_some size, ok_bind,
    if_neg good.not_pointer, if_neg good.byte_ne_zero, good.length_byte,
    if_pos (.inr (.inr long))]

end

theorem readNameLoop_found (name : NameAt msg i labels jumps next) {w : Walk} (here : w.here = i)
    (length : text.length = w.n) (room : w.n < dnsNameMax) (followed : w.pointers ≤ maxPointers)
    (holds : Holds w.out text) (enough : (dnsNameMax - w.n) + (maxPointers - w.pointers) < rounds) :
    Ends (readNameLoop msg rounds w) (Found labels text w jumps next) := by
  induction name generalizing rounds w text with
  | root zero =>
    subst here
    obtain ⟨rounds, rfl⟩ : ∃ r, rounds = r + 1 := ⟨rounds - 1, by omega⟩
    exact readNameLoop_root zero length room followed holds
  | @label i label labels jumps next good size bytes rest ih =>
    subst here
    obtain ⟨rounds, rfl⟩ : ∃ r, rounds = r + 1 := ⟨rounds - 1, by omega⟩
    by_cases fits : w.n + label.length + 2 ≤ dnsNameMax
    · have low := addLabel_length text label
      have high := addLabel_length_le text label
      have positive := good.positive
      refine readNameLoop_label good size bytes length fits holds fun out kept => ?_
      have later := @ih _ rounds { w with
        n := (addLabel text label).length, here := w.here + 1 + label.length, out := out }
        rfl rfl (by simp only; omega) followed kept (by simp only; omega)
      exact later.weaken fun r found => ⟨found.fits, found.holds, found.pos⟩
    · rw [readNameLoop_too_long good size (Nat.lt_of_not_le fits)]
      refine .pure (Found.stopped fun both => ?_)
      have added : w.n + label.length + 1 ≤ (addLabel text label).length := by
        have short := good.short
        have limit : dnsNameMax = 128 := rfl
        rw [addLabel, if_neg (ne_nil_of_length_pos (by omega))]
        simp only [length_append, length_cons]
        omega
      have long := join_length_le (addLabel text label) labels
      have all : (join text (label :: labels)).length = (join (addLabel text label) labels).length :=
        rfl
      omega
  | @pointer i high low labels jumps next first marked second rest ih =>
    subst here
    obtain ⟨rounds, rfl⟩ : ∃ r, rounds = r + 1 := ⟨rounds - 1, by omega⟩
    have inside := (List.getElem?_eq_some_iff.mp first).1
    have behind := (List.getElem?_eq_some_iff.mp second).1
    rw [readNameLoop, if_neg (Nat.not_le_of_lt inside), load_some first, ok_bind, if_pos marked]
    split
    · refine .pure (Found.stopped fun both => ?_)
      omega
    rw [load_some second]
    have later := @ih _ rounds { w with
      pos := if w.jumped then w.pos else w.here + 2
      jumped := true, pointers := w.pointers + 1, here := target high low }
      rfl length room (by simp only; omega) holds (by simp only; omega)
    refine later.weaken fun r found => ⟨?_, found.holds, found.pos⟩
    rw [found.fits, add_assoc, add_comm 1 jumps]

theorem readName_found {pos : Nat} (name : NameAt msg pos labels jumps next) (out : Text) :
    Ends (readName msg pos out) (Found labels [] ⟨pos, pos, 0, false, 0, out⟩ jumps next) :=
  readNameLoop_found name rfl rfl (show 0 < dnsNameMax by decide) zero_le (Holds.nil _)
    (Nat.lt_succ_self _)

/-! Comparing names. -/

theorem lower_eq_zero {c : U8} (same : lower c = lower 0) : c = 0 := by
  have zero : lower 0 = 0 := rfl
  rw [zero, lower] at same
  split at same
  · rename_i letter
    have high : c.toNat ≤ 90 := letter.2
    have value := congrArg BitVec.toNat same
    simp at value
    omega
  · exact same

section
variable {a : Text} {s : List U8} (holds : Holds a (s ++ [0]))
include holds

theorem load_char {i : Nat} (more : i < s.length) : load (List.ofFn a) i = .ok s[i] := by
  rw [holds.load (by simp only [length_append]; omega), getElem_append_left more]

theorem load_end : load (List.ofFn a) s.length = .ok 0 := by
  rw [holds.load (by simp)]
  simp

/-- A terminated string and a C string compare as texts, without case. -/
theorem sameName_iff (proper : 0 ∉ s) {name : List U8} (given : 0 ∉ name) {i : Nat}
    (inside : i ≤ s.length) :
    Ends (sameName a i name) fun same => same ↔ (s.drop i).map lower = name.map lower := by
  induction name generalizing i with
  | nil =>
    obtain rfl | more := Nat.eq_or_lt_of_le inside
    · rw [sameName, load_end holds]
      exact .pure (by simp)
    have proper_char : s[i] ≠ 0 := fun zero => proper (zero ▸ getElem_mem more)
    rw [sameName, load_char holds more]
    refine .pure (iff_of_false (fun same => ?_) (by simpa using more))
    exact proper_char (lower_eq_zero (eq_of_beq same))
  | cons b rest ih =>
    obtain rfl | more := Nat.eq_or_lt_of_le inside
    · have given_char : b ≠ 0 := fun zero => given (zero ▸ mem_cons_self)
      rw [sameName, load_end holds]
      refine .pure (iff_of_false (fun same => ?_) (by simp))
      exact given_char (lower_eq_zero (eq_of_beq same).symm)
    · have proper_char : s[i] ≠ 0 := fun zero => proper (zero ▸ getElem_mem more)
      have split : s.drop i = s[i] :: s.drop (i + 1) := drop_eq_getElem_cons more
      rw [sameName, load_char holds more, ok_bind, split, map_cons, map_cons, List.cons.injEq]
      by_cases same : lower s[i] = lower b
      · rw [if_pos ⟨proper_char, same⟩]
        refine (ih (fun zero => given (mem_cons_of_mem _ zero)) more).weaken fun r later => ?_
        rw [later]
        exact (and_iff_right same).symm
      · rw [if_neg fun both => same both.2]
        exact .pure (iff_of_false (fun equal => same (eq_of_beq equal)) fun both => same both.1)

end

/-! The answer to a question. -/

/-- A response to `query`: the same id, the QR flag, the question as it was
asked, and one A record, whose owner is stored with `jumps` compression pointers
and ends at `next`. Flags and whatever follows the record are free. -/
structure Response (id : U16) (query msg : List U8) (labels : List (List U8)) (jumps next : Nat)
    (address : U32) : Prop where
  id : load16 msg 0 = .ok id
  flags : ∃ flags, load16 msg 2 = .ok flags ∧ flags &&& flagQr ≠ 0
  qdcount : load16 msg 4 = .ok 1
  ancount : load16 msg 6 = .ok 1
  echo : ∃ more, msg.drop headerSize = query.drop headerSize ++ more
  owner : NameAt msg query.length labels jumps next
  type : load16 msg next = .ok dnsTypeA
  class_in : load16 msg (next + 2) = .ok classIn
  ttl : ∃ ttl, load32 msg (next + 4) = .ok ttl
  rdlen : load16 msg (next + 8) = .ok 4
  address : load32 msg (next + 10) = .ok address

theorem bytes16_append (x : U16) : (x >>> 8).setWidth 8 ++ x.setWidth 8 = x := by
  apply BitVec.eq_of_getLsbD_eq
  intro i inside
  rw [BitVec.getLsbD_append]
  interval_cases i <;> simp

theorem load16_bytes16 {x : U16} (bytes : msg.drop i = bytes16 x ++ more) :
    load16 msg i = .ok x := by
  have first : msg[i]? = some ((x >>> 8).setWidth 8) := by
    rw [← List.head?_drop, bytes]
    rfl
  have second : msg[i + 1]? = some (x.setWidth 8) := by
    rw [← List.head?_drop, ← drop_drop, bytes]
    rfl
  rw [load16, load_some first, ok_bind, load_some second, ok_bind, bytes16_append]

/-- The question of a query. -/
theorem buildQuery_question {id : U16} {name : CString} {query : List U8}
    (built : buildQuery id name dnsTypeA = some query)
    (named : encodeName name.val (msgMax - headerSize - 4) = some bytes) :
    query.drop headerSize = bytes ++ (bytes16 dnsTypeA ++ bytes16 classIn) ∧
      query.length = headerSize + bytes.length + 4 := by
  rw [buildQuery, named, Option.map_some, Option.some.injEq] at built
  subst built
  constructor
  · simp [bytes16, headerSize]
  · simp [bytes16, headerSize]
    omega

section
variable {id : U16} {query msg : List U8} {labels : List (List U8)} {jumps next : Nat}
  {address : U32} (reply : Response id query msg labels jumps next address)
include reply

theorem Response.question {id' : U16} {name : CString}
    (built : buildQuery id' name dnsTypeA = some query)
    (named : encodeName name.val (msgMax - headerSize - 4) = some (wire labels)) :
    NameAt msg headerSize labels 0 (headerSize + (wire labels).length) ∧
      load16 msg (headerSize + (wire labels).length) = .ok dnsTypeA ∧
      query.length = headerSize + (wire labels).length + 4 := by
  obtain ⟨question, length⟩ := buildQuery_question built named
  obtain ⟨more, echo⟩ := reply.echo
  rw [question, append_assoc] at echo
  have behind : msg.drop (headerSize + (wire labels).length) =
      bytes16 dnsTypeA ++ (bytes16 classIn ++ more) := by
    rw [← drop_drop, echo, drop_left, append_assoc]
  exact ⟨nameAt_wire reply.owner.good echo, load16_bytes16 behind, length⟩

/-- The data of the record is the address. -/
theorem Response.readRecordData {r : Record} (type : r.type = dnsTypeA) :
    Ends (readRecordData msg (next + 10) 4 r) fun out =>
      out.type = dnsTypeA ∧ out.ip = address := by
  refine (store_ends (by decide) 0).bind fun text _ => ?_
  rw [if_pos type, reply.address]
  exact .pure ⟨type, rfl⟩

/-- The one record is read if the pointers of its owner can be followed. -/
theorem Response.record (short : (join [] labels).length < dnsNameMax) {out : Result}
    (empty : out.count = 0) :
    Ends (answersLoop msg 1 query.length out) fun result =>
      (result.count = 1 ∧ (result.answers 0).type = dnsTypeA ∧ (result.answers 0).ip = address) ↔
        jumps ≤ maxPointers := by
  have room : out.count < dnsMaxRecords := by
    rw [empty]
    decide
  have slot : (⟨out.count, room⟩ : Fin dnsMaxRecords) = 0 := Fin.ext empty
  have inside := load32_inside reply.address
  obtain ⟨ttl, stamp⟩ := reply.ttl
  rw [answersLoop, dif_pos room]
  refine (readName_found reply.owner _).bind fun r found => ?_
  have followed : r.1 ↔ jumps ≤ maxPointers := by
    rw [found.fits, zero_add]
    exact and_iff_left short
  dsimp only
  by_cases read : r.1
  · have place : r.2.pos = next := found.pos read
    rw [if_neg (by simp only [read]; simp; omega), place, reply.type, ok_bind,
      reply.class_in, ok_bind, stamp, ok_bind, reply.rdlen, ok_bind]
    rw [if_neg (show ¬ next + 10 + (4 : U16).toNat > msg.length from not_lt.mpr inside)]
    refine (reply.readRecordData rfl).bind fun record right => ?_
    obtain ⟨type, ip⟩ := right
    have stored : Function.update out.answers ⟨out.count, room⟩ record 0 = record := by
      rw [slot, Function.update_self]
    refine .pure (iff_of_true ⟨?_, ?_, ?_⟩ (followed.mp read))
    · exact congrArg (· + 1) empty
    · exact (congrArg Record.type stored).trans type
    · exact (congrArg Record.ip stored).trans ip
  · rw [if_pos (by simp [read])]
    refine .pure (iff_of_false (fun all => ?_) fun few => read (followed.mpr few))
    exact absurd (all.1.symm.trans empty) (by decide)

end

/-- The response is taken as the answer, and its record is the one asked for. -/
def Yields (address : U32) (r : Bool × Result) : Prop :=
  r.1 = true ∧ r.2.count = 1 ∧ (r.2.answers 0).type = dnsTypeA ∧ (r.2.answers 0).ip = address

/-- For every name build_query accepts and every response to the question that
carries one A record for that name, parse_answer ends, and yields the address
exactly if the name was given without a dot at its end, is no longer than the
buffer read_name fills, and the record's owner is stored with no more pointers
than read_name follows. -/
theorem answer_yields_iff {id : U16} {name : CString} {query msg : List U8}
    (built : buildQuery id name dnsTypeA = some query) {labels : List (List U8)} {jumps next : Nat}
    {address : U32} (named : encodeName name.val (msgMax - headerSize - 4) = some (wire labels))
    (reply : Response id query msg labels jumps next address) (qname : Text) (out : Result) :
    Ends (parseAnswer msg id name dnsTypeA qname out) fun r =>
      Yields address r ↔
        name.val.getLast? ≠ some dot ∧ name.val.length < dnsNameMax ∧ jumps ≤ maxPointers := by
  obtain ⟨question, asked, length⟩ := reply.question built named
  obtain ⟨labels', wired, spells⟩ := encodeLoop_spells named
  have same_labels : labels' = labels := wire_injective spells.good reply.owner.good wired.symm
  subst same_labels
  obtain ⟨flags, flagged, qr⟩ := reply.flags
  have inside := load16_inside asked
  have ours : ¬ (id ≠ id ∨ flags &&& flagQr = 0 ∨ (1 : U16) ≠ 1) := by
    rintro (other | quiet | more)
    · exact other rfl
    · exact qr quiet
    · exact more rfl
  rw [parseAnswer, if_neg (by omega), reply.id, ok_bind, flagged, ok_bind, reply.qdcount, ok_bind,
    if_neg ours]
  refine (readName_found question qname).bind fun r found => ?_
  dsimp only
  by_cases short : (join [] labels').length < dnsNameMax
  swap
  · -- the question cannot be read back
    have unread : ¬ r.1 = true := fun read => short (found.fits.mp read).2
    have long := spells.length_le
    rw [if_pos (by simp [unread])]
    exact .pure (iff_of_false (fun taken => by cases taken.1) fun all => short (by omega))
  have read : r.1 = true := found.fits.mpr ⟨zero_le, short⟩
  have place : r.2.pos = headerSize + (wire labels').length := found.pos read
  have before := reply.owner.inside
  rw [if_neg (by simp only [read]; simp; omega), place, ← length]
  refine (sameName_iff (found.holds read) (spells.proper name.property) name.property
    zero_le).bind fun same matches_name => ?_
  rw [drop_zero] at matches_name
  by_cases plain : name.val = join [] labels'
  · have equal : same = true := matches_name.mpr (by rw [plain])
    rw [if_neg (by simp [equal]), asked, ok_bind, reply.ancount, ok_bind]
    refine Ends.bind (reply.record short rfl) fun result taken => .pure ?_
    rw [Yields, taken, ← spells.plain_iff, plain]
    simp [short]
  · have apart : ¬ same = true := fun equal => plain (spells.plain_of_length
      (by simpa using congrArg List.length (matches_name.mp equal)))
    rw [if_pos (by simp [apart])]
    exact .pure (iff_of_false (fun taken => by cases taken.1) fun all =>
      plain (spells.plain_iff.mpr all.1))

/-- The query for `a`, and a response that points back to its name: 10.0.2.15. -/
def smallQuery : List U8 := [0, 7, 1, 0, 0, 1, 0, 0, 0, 0, 0, 0, 1, 97, 0, 0, 1, 0, 1]

def smallReply : List U8 :=
  [0, 7, 129, 128, 0, 1, 0, 1, 0, 0, 0, 0, 1, 97, 0, 0, 1, 0, 1,
    192, 12, 0, 1, 0, 1, 0, 0, 0, 60, 0, 4, 10, 0, 2, 15]

theorem smallReply_response : Response 7 smallQuery smallReply [[97]] 1 21 0x0A00020F where
  id := rfl
  flags := ⟨0x8180, rfl, by decide⟩
  qdcount := rfl
  ancount := rfl
  echo := ⟨smallReply.drop 19, rfl⟩
  owner := @NameAt.pointer _ _ 192 12 _ _ _ rfl rfl rfl
    (.label ⟨by simp, by simp⟩ rfl rfl (.root rfl))
  type := rfl
  class_in := rfl
  ttl := ⟨60, rfl⟩
  rdlen := rfl
  address := rfl

theorem answer_yields_small :
    ∃ r, parseAnswer smallReply 7 ⟨[97], by decide⟩ dnsTypeA (fun _ => 0) .cleared = .ok r ∧
      Yields 0x0A00020F r := by
  obtain ⟨r, ends, yields⟩ := @answer_yields_iff 7 ⟨[97], by decide⟩ _ _ rfl _ _ _ _ rfl
    smallReply_response (fun _ => 0) .cleared
  exact ⟨r, ends, yields.mpr (by decide)⟩

/-- Asked for as `a.`, the same question gets the same response, which is not
taken as the answer. -/
theorem trailing_dot_unanswered :
    buildQuery 7 ⟨[97, 46], by decide⟩ dnsTypeA = some smallQuery ∧
      Response 7 smallQuery smallReply [[97]] 1 21 0x0A00020F ∧
      (parseAnswer smallReply 7 ⟨[97, 46], by decide⟩ dnsTypeA (fun _ => 0) .cleared).map Prod.fst =
        .ok false :=
  ⟨rfl, smallReply_response, rfl⟩

end UzOS.Dns
