import UzOS.Dns.Message

/-! Reading an answer ends, stays inside the message and the buffers, and leaves
every string terminated, whatever the message says. -/
namespace UzOS.Dns

open Checked List

/-! Names. -/

/-- What reading a name does to its buffer. -/
structure Reads (before : Text) (r : Bool × Walk) : Prop where
  tight : Sealed before → Sealed r.2.out
  terminated : r.1 = true → Terminated r.2.out

variable (msg : List U8) {n start : Nat}

theorem putDot_ends {out : Text} (room : n + 1 < dnsNameMax) :
    Ends (putDot n out) fun r => n ≤ r.1 ∧ r.1 ≤ n + 1 ∧ (Sealed out → Sealed r.2) := by
  rw [putDot]
  split
  · refine (store_ends (by omega) dot).bind fun next stored => ?_
    exact .pure ⟨by omega, le_refl _, fun tight => tight.store stored (.inl room)⟩
  · exact .pure ⟨le_refl _, by omega, id⟩

theorem copy_sealed {buf : Text} {mem : List U8} {source : Nat}
    (reads : n = 0 ∨ source + n ≤ mem.length) (writes : start + n < dnsNameMax) :
    Ends (copy buf start mem source n) fun out => Sealed buf → Sealed out := by
  have short := length_take_le n (mem.drop source)
  exact (copy_ends reads (by omega)).weaken fun out stored tight => tight.storeAll stored (by omega)

/-- Each round of read_name takes room in the buffer or one of the pointers that
may be followed, and keeps the last byte of the buffer. -/
theorem readNameLoop_ends {rounds : Nat} {w : Walk} (room : w.n < dnsNameMax)
    (enough : (dnsNameMax - w.n) + (maxPointers - w.pointers) < rounds) :
    Ends (readNameLoop msg rounds w) (Reads w.out) := by
  induction rounds generalizing w with
  | zero => omega
  | succ rounds ih =>
    rw [readNameLoop]
    split
    · exact .pure ⟨id, nofun⟩
    refine (load_ends (by omega)).bind fun size _ => ?_
    split
    · split
      · exact .pure ⟨id, nofun⟩
      refine (load_ends (by omega)).bind fun low _ => ?_
      apply ih
      · exact room
      · simp only
        omega
    split
    · refine (store_ends room 0).bind fun out stored => ?_
      refine .pure ⟨fun tight => tight.store stored (.inr rfl), fun _ => ⟨⟨w.n, room⟩, ?_⟩⟩
      simp only [stored, if_true]
    rename_i some_bytes
    split
    · exact .pure ⟨id, nofun⟩
    have positive : 0 < size.toNat := Nat.pos_of_ne_zero fun zero =>
      some_bytes (BitVec.eq_of_toNat_eq zero)
    refine (putDot_ends (by omega)).bind fun dotted ⟨low, high, kept⟩ => ?_
    refine (copy_sealed (by omega) (by omega)).bind fun out copied => ?_
    refine (@ih ⟨w.pos, w.here + 1 + size.toNat, dotted.1 + size.toNat, w.jumped, w.pointers, out⟩
      (by simp only; omega) (by simp only; omega)).weaken fun r reads => ?_
    exact ⟨fun tight => reads.tight (copied (kept tight)), reads.terminated⟩

theorem readName_ends (pos : Nat) (out : Text) : Ends (readName msg pos out) (Reads out) :=
  readNameLoop_ends msg (w := ⟨pos, pos, 0, false, 0, out⟩) (show 0 < dnsNameMax by decide)
    (Nat.lt_succ_self _)

/-- The comparison stops at the NUL of the buffer at the latest. -/
theorem sameName_ends {a : Text} {i : Nat} (name : List U8)
    (stop : ∃ k : Fin dnsNameMax, i ≤ k.val ∧ a k = 0) :
    Ends (sameName a i name) fun _ => True := by
  induction name generalizing i with
  | nil => exact (load_ends (by rw [length_ofFn]; omega)).bind fun c _ => .pure trivial
  | cons b rest ih =>
    obtain ⟨k, later, zero⟩ := stop
    have inside : i < dnsNameMax := by omega
    refine (load_ends (by rw [length_ofFn]; exact inside)).bind fun c here => ?_
    rw [List.getElem?_ofFn, dif_pos inside, Option.some.injEq] at here
    split
    · rename_i more
      refine ih ⟨k, ?_, zero⟩
      have apart : k.val ≠ i := by
        rintro rfl
        exact more.1 (here.symm.trans zero)
      omega
    · exact .pure trivial

/-! Records. -/

theorem format_ends (out : Text) (start : Nat) (chars : List U8) :
    Ends (format out start chars) fun r => Sealed out → Sealed r.1 := by
  rw [format]
  split
  · exact .pure id
  have short := length_take_le (dnsNameMax - start - 1) chars
  refine (storeAll_ends (by omega)).bind fun mid stored => ?_
  refine (store_ends (by omega) 0).bind fun last ended => ?_
  exact .pure fun tight => (tight.storeAll stored (by omega)).store ended (.inr rfl)

theorem aaaaLoop_ends {msg : List U8} {left i : Nat} {text : Text}
    (inside : start + i + 2 * left ≤ msg.length) :
    Ends (aaaaLoop msg start left i n text) fun out => Sealed text → Sealed out := by
  induction left generalizing i n text with
  | zero => exact .pure id
  | succ left ih =>
    refine (load16_ends (by omega)).bind fun v _ => ?_
    refine (format_ends text n _).bind fun r kept => ?_
    exact (ih (by omega)).weaken fun out later tight => later (kept tight)

theorem txtSize_ends {msg : List U8} {rdlen : Nat} (inside : start + rdlen ≤ msg.length) :
    Ends (txtSize msg start rdlen) fun size => (size = 0 ∨ size + 1 ≤ rdlen) ∧ size < dnsNameMax := by
  have first : Ends (if rdlen ≠ 0 then load msg start else .ok 0) fun _ => True := by
    split
    · exact (load_ends (by omega)).weaken fun _ _ => trivial
    · exact .pure trivial
  have limit : dnsNameMax = 128 := rfl
  refine first.bind fun b _ => .pure ?_
  split_ifs <;> simp <;> omega

/-- The data of a record is inside the message. Its text is terminated because
the buffer's last byte was NUL: a name that cannot be read to its end leaves
the labels before that without one. -/
theorem readRecordData_ends {msg : List U8} {rdlen : Nat} {r : Record}
    (inside : start + rdlen ≤ msg.length) :
    Ends (readRecordData msg start rdlen r) fun out =>
      out.name = r.name ∧ (Sealed r.text → Sealed out.text) := by
  rw [readRecordData]
  refine (store_ends (by decide) 0).bind fun text stored => ?_
  have kept : Sealed r.text → Sealed text := fun tight => tight.store stored (.inr rfl)
  have unread : Ends (.ok { r with text := text }) fun out : Record =>
      out.name = r.name ∧ (Sealed r.text → Sealed out.text) := .pure ⟨rfl, kept⟩
  split
  · split
    · exact (load32_ends (by omega)).bind fun ip _ => .pure ⟨rfl, kept⟩
    · exact unread
  split
  · refine (readName_ends msg start text).bind fun w reads => ?_
    exact .pure ⟨rfl, fun tight => reads.tight (kept tight)⟩
  split
  · split
    · refine (load16_ends (by omega)).bind fun preference _ => ?_
      refine (readName_ends msg (start + 2) text).bind fun w reads => ?_
      exact .pure ⟨rfl, fun tight => reads.tight (kept tight)⟩
    · exact unread
  split
  · refine (txtSize_ends inside).bind fun size ⟨small, short⟩ => ?_
    refine (copy_sealed (by omega) (by omega)).bind fun copied later => ?_
    refine (store_ends short 0).bind fun out ended => ?_
    exact .pure ⟨rfl, fun tight => (later (kept tight)).store ended (.inr rfl)⟩
  split
  · split
    · refine (aaaaLoop_ends (by omega)).bind fun out later => ?_
      exact .pure ⟨rfl, fun tight => later (kept tight)⟩
    · exact unread
  · exact unread

/-! Answers. -/

/-- Every buffer of the result ends in NUL. -/
def Result.Tight (out : Result) : Prop :=
  ∀ i, Sealed (out.answers i).name ∧ Sealed (out.answers i).text

variable {out : Result}

theorem Result.Tight.set (tight : out.Tight) (i : Fin dnsMaxRecords) {r : Record}
    (name : Sealed r.name) (text : Sealed r.text) : (out.set i r).Tight := by
  intro k
  by_cases same : k = i
  · subst same
    simp only [Result.set, Function.update_self]
    exact ⟨name, text⟩
  simp only [Result.set, Function.update_of_ne same]
  exact tight k

theorem Result.cleared_tight : Result.cleared.Tight := fun _ => ⟨fun _ _ => rfl, fun _ _ => rfl⟩

theorem answersLoop_ends {left pos : Nat} (tight : out.Tight) :
    Ends (answersLoop msg left pos out) Result.Tight := by
  induction left generalizing pos out with
  | zero => exact .pure tight
  | succ left ih =>
    rw [answersLoop]
    split
    swap
    · exact .pure tight
    rename_i room
    have old := tight ⟨out.count, room⟩
    refine (readName_ends msg pos _).bind fun w reads => ?_
    have name := reads.tight old.1
    dsimp only
    split
    · exact .pure (tight.set _ name old.2)
    rename_i header
    rw [Bool.or_eq_true, decide_eq_true_eq] at header
    refine (load16_ends (by omega)).bind fun type _ => ?_
    refine (load16_ends (by omega)).bind fun cls _ => ?_
    refine (load32_ends (by omega)).bind fun ttl _ => ?_
    refine (load16_ends (by omega)).bind fun rdlen _ => ?_
    split
    · exact .pure (tight.set _ name old.2)
    split
    · refine (readRecordData_ends (by omega)).bind fun r ⟨same, text⟩ => ?_
      exact ih (tight.set _ (same ▸ name) (text old.2))
    · exact ih (tight.set _ name old.2)

theorem parseAnswer_ends (id : U16) (name : CString) (type : U16) (qname : Text) (tight : out.Tight) :
    Ends (parseAnswer msg id name type qname out) fun r => r.2.Tight := by
  rw [parseAnswer]
  split
  · exact .pure tight
  rename_i header
  rw [headerSize] at header
  refine (load16_ends (by omega)).bind fun theirId _ => ?_
  refine (load16_ends (by omega)).bind fun flags _ => ?_
  refine (load16_ends (by omega)).bind fun qdcount _ => ?_
  split
  · exact .pure tight
  refine (readName_ends msg headerSize qname).bind fun w reads => ?_
  dsimp only
  split
  · exact .pure tight
  rename_i question
  rw [Bool.or_eq_true, not_or, decide_eq_true_eq] at question
  have found : w.1 := by simpa using question.1
  obtain ⟨k, zero⟩ := reads.terminated found
  refine (sameName_ends name.val ⟨k, zero_le, zero⟩).bind fun same _ => ?_
  split
  · exact .pure tight
  refine (load16_ends (by omega)).bind fun asked _ => ?_
  split
  · exact .pure tight
  refine (load16_ends (by omega)).bind fun ancount _ => ?_
  refine (answersLoop_ends msg ?_).bind fun result kept => ?_
  · exact tight
  · exact .pure kept

theorem hearReplies_ends (id : U16) (name : CString) (type : U16) (replies : List (List U8 × Text))
    (tight : out.Tight) : Ends (hearReplies id name type replies out) Result.Tight := by
  induction replies generalizing out with
  | nil => exact .pure tight
  | cons reply rest ih =>
    refine (parseAnswer_ends reply.1 id name type reply.2 tight).bind fun r kept => ?_
    dsimp only
    split
    · exact .pure kept
    · exact ih kept

/-- For every message, whatever it contains: read_name ends without leaving the
message or its buffer and terminates a name it finds; so does read_record_data
on data that parse_answer found inside the message, and parse_answer, for a
result whose buffers ended in NUL. They do in dns_query, which clears the
result before it hears the first datagram. -/
theorem dns_parser_safe :
    (∀ msg pos out, Ends (readName msg pos out) fun r => r.1 = true → Terminated r.2.out) ∧
      (∀ msg start rdlen r, start + rdlen ≤ List.length msg → Sealed r.text →
        Ends (readRecordData msg start rdlen r) fun out => Terminated out.text) ∧
      (∀ msg id name type qname out, Result.Tight out →
        Ends (parseAnswer msg id name type qname out) fun r =>
          ∀ i, Terminated (r.2.answers i).name ∧ Terminated (r.2.answers i).text) ∧
      ∀ id name type replies, Ends (hearReplies id name type replies .cleared) fun out =>
        ∀ i, Terminated (out.answers i).name ∧ Terminated (out.answers i).text := by
  have strings : ∀ out : Result, out.Tight →
      ∀ i, Terminated (out.answers i).name ∧ Terminated (out.answers i).text :=
    fun out tight i => ⟨(tight i).1.terminated (by decide), (tight i).2.terminated (by decide)⟩
  refine ⟨?_, ?_, ?_, ?_⟩
  · intro msg pos out
    exact (readName_ends msg pos out).weaken fun r reads => reads.terminated
  · intro msg start rdlen r inside tight
    exact (readRecordData_ends inside).weaken fun out kept => (kept.2 tight).terminated (by decide)
  · intro msg id name type qname out tight
    exact (parseAnswer_ends msg id name type qname tight).weaken fun r kept => strings r.2 kept
  · intro id name type replies
    exact (hearReplies_ends id name type replies Result.cleared_tight).weaken strings

/-- A CNAME that points at itself. -/
theorem dns_parser_safe_cyclic :
    Ends (readRecordData [0xC0, 0] 0 2 { Result.cleared.answers 0 with type := dnsTypeCname })
      fun out => Terminated out.text :=
  dns_parser_safe.2.1 _ _ _ _ (by decide) (fun _ _ => rfl)

end UzOS.Dns
