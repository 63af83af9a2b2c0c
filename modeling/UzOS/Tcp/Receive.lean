import UzOS.Tcp.Frame

/-! The receive stream: whatever order, overlap, duplication or loss the
segments of one byte stream arrive in, the program reads that stream. -/
namespace UzOS.Tcp

/-- What a segment may do to the receiving half: append `bytes` that are next
in line, then take a FIN that is next in line. -/
structure Accepts (c : Conn) (s : Seg) (c' : Conn) (bytes : List U8) (fin : Bool) : Prop where
  used : c'.used = c.used
  irs : c'.rx.irs = c.rx.irs
  room : c'.rx.rcvLen ≤ tcpBufSize
  unread : c'.unread = c.unread ++ bytes
  next : c'.rx.rcvNxt = c.rx.rcvNxt + BitVec.ofNat 32 (bytes.length + fin.toNat)
  finReceived : c'.rx.finReceived = (c.rx.finReceived || fin)
  inLine : bytes ≠ [] → c.state.receives = true ∧
    ∃ old, s.seq + BitVec.ofNat 32 old = c.rx.rcvNxt ∧ bytes <+: s.data.drop old
  finInLine : fin = true → s.has tcpFin = true ∧ c.rx.finReceived = false ∧
    s.seq + BitVec.ofNat 32 s.data.length = c.rx.rcvNxt + BitVec.ofNat 32 bytes.length
  receives : c'.state.receives = true → c.state.receives = true ∧ fin = false
  waits : c'.state = .synSent → c.state = .synSent

theorem Keeps.unread {c c' : Conn} (h : Keeps c c') : c'.unread = c.unread := by
  simp only [Conn.unread, h.rx]

theorem Keeps.accepts {c c' : Conn} (h : Keeps c c') (s : Seg) (room : c.rx.rcvLen ≤ tcpBufSize) :
    Accepts c s c' [] false where
  used := h.used
  irs := by rw [h.rx]
  room := by rw [h.rx]; exact room
  unread := by rw [h.unread, List.append_nil]
  next := by simp [h.rx]
  finReceived := by simp [h.rx]
  inLine := fun e => absurd rfl e
  finInLine := nofun
  receives := fun e => ⟨h.moves.receives e, rfl⟩
  waits := h.moves.waits

/-- Sending before or after a segment is taken changes nothing of what it did. -/
theorem Accepts.around {a b c d : Conn} {s : Seg} {bytes : List U8} {fin : Bool}
    (h : Keeps a b) (t : Accepts b s c bytes fin) (k : Keeps c d) : Accepts a s d bytes fin where
  used := by rw [k.used, t.used, h.used]
  irs := by rw [k.rx, t.irs, h.rx]
  room := by rw [k.rx]; exact t.room
  unread := by rw [k.unread, t.unread, h.unread]
  next := by rw [k.rx, t.next, h.rx]
  finReceived := by rw [k.rx, t.finReceived, h.rx]
  inLine := by
    intro e
    obtain ⟨receives, old, line⟩ := t.inLine e
    exact ⟨h.moves.receives receives, old, h.rx ▸ line⟩
  finInLine := by
    intro e
    have line := t.finInLine e
    rw [h.rx] at line
    exact line
  receives := by
    intro e
    obtain ⟨before, noFin⟩ := t.receives (k.moves.receives e)
    exact ⟨h.moves.receives before, noFin⟩
  waits := fun e => h.moves.waits (t.waits (k.moves.waits e))

variable (now : U32) (c : Conn) (s : Seg)

theorem store_unread (bytes : List U8) (fits : c.rx.rcvLen + bytes.length ≤ tcpBufSize) :
    ({ c with rx := c.rx.store bytes } : Conn).unread = c.unread ++ bytes :=
  Buffer.ringRead_append _ _ _ _ _ fits

/-- take_data stores some bytes of the segment that start at exactly the next
expected one, and nothing else. -/
theorem takeData_spec (r : Rx) (seq : U32) (data : List U8) (room : r.rcvLen ≤ tcpBufSize) :
    ∃ bytes, (takeData r seq data).1 = r.store bytes ∧ r.rcvLen + bytes.length ≤ tcpBufSize ∧
      (bytes ≠ [] → ∃ old, seq + BitVec.ofNat 32 old = r.rcvNxt ∧ bytes <+: data.drop old) := by
  have nothing : r.store [] = r := by
    cases r
    simp [Rx.store, Buffer.ringPut]
  have fits (xs : List U8) : r.rcvLen + (xs.take (tcpBufSize - r.rcvLen)).length ≤ tcpBufSize := by
    have := List.length_take_le (tcpBufSize - r.rcvLen) xs
    omega
  unfold takeData
  by_cases stale : Serial.lt seq r.rcvNxt
  · simp only [stale]
    split
    · exact ⟨[], nothing.symm, by simpa using room, fun e => absurd rfl e⟩
    refine ⟨_, rfl, fits _, fun _ => ⟨(r.rcvNxt - seq).toNat, ?_, List.take_prefix _ _⟩⟩
    bv_omega
  · simp only [stale, Bool.false_and, Bool.false_eq_true, ↓reduceIte, Bool.not_false, Bool.true_and,
      bne_iff_ne]
    split
    · exact ⟨[], nothing.symm, by simpa using room, fun e => absurd rfl e⟩
    rename_i next
    refine ⟨_, rfl, fits _, fun _ => ⟨0, ?_, List.take_prefix _ _⟩⟩
    rw [not_not] at next
    simp [next]

theorem takeFin_receives : (takeFin now c).state.receives = false := by
  unfold takeFin
  cases h : c.state <;> simp [tcpSetState, State.receives]

theorem takeFin_waits (h : (takeFin now c).state = .synSent) : c.state = .synSent := by
  unfold takeFin at h
  cases state : c.state <;> simp_all [tcpSetState]

theorem takeFin_rx :
    (takeFin now c).used = c.used ∧
    (takeFin now c).rx = { c.rx with rcvNxt := c.rx.rcvNxt + 1, finReceived := true } := by
  unfold takeFin
  split <;> exact ⟨rfl, rfl⟩

theorem segmentText_accepts (room : c.rx.rcvLen ≤ tcpBufSize) :
    ∃ bytes fin, Accepts c s (segmentText now c s).conn bytes fin := by
  unfold segmentText
  extract_lets took taken fin c1 c2
  obtain ⟨bytes, stored, fits, line⟩ : ∃ bytes, taken.1 = c.rx.store bytes ∧
      c.rx.rcvLen + bytes.length ≤ tcpBufSize ∧
      (bytes ≠ [] → c.state.receives ∧
        ∃ old, s.seq + BitVec.ofNat 32 old = c.rx.rcvNxt ∧ bytes <+: s.data.drop old) := by
    by_cases h : took
    · obtain ⟨bytes, e, fits, line⟩ := takeData_spec c.rx s.seq s.data room
      have takes : c.state.takesData := (Bool.and_eq_true_iff.mp h).2
      refine ⟨bytes, ?_, fits, fun n => ⟨State.receives_of_takesData takes, line n⟩⟩
      rw [← e]
      exact congrArg Prod.fst (if_pos h)
    · refine ⟨[], ?_, by simpa using room, fun n => absurd rfl n⟩
      have e : taken = (c.rx, true) := if_neg h
      rw [e]
      simp [Rx.store, Buffer.ringPut]
  have h1 : c1.rx = c.rx.store bytes := stored
  have sent (d : Conn) : Keeps d ((if took || fin then sendAck d else quiet d).andThen
      (tcpOutput now)).conn := by
    refine Keeps.output ?_ now
    split <;> exact ⟨rfl, rfl, .refl _⟩
  have unread1 : c1.unread = c.unread ++ bytes := by
    rw [← store_unread c bytes fits]
    simp only [Conn.unread, h1]
  refine ⟨bytes, fin, .around (Keeps.refl c) ?_ (sent c2)⟩
  cases hf : fin with
  | false =>
    have e2 : c2 = c1 := if_neg (by simp [hf])
    rw [e2]
    exact {
      used := rfl
      irs := by rw [h1]; rfl
      room := by rw [h1]; exact fits
      unread := unread1
      next := by rw [h1]; rfl
      finReceived := by rw [h1]; simp [Rx.store]
      inLine := line
      finInLine := fun e => by cases e
      receives := fun e => ⟨e, rfl⟩
      waits := id }
  | true =>
    have e2 : c2 = takeFin now c1 := if_pos hf
    obtain ⟨used2, rx2⟩ := takeFin_rx now c1
    have taking : s.has tcpFin ∧ s.seq + BitVec.ofNat 32 s.data.length = c1.rx.rcvNxt ∧
        c1.rx.finReceived = false := by
      have := hf
      simp only [fin, Bool.and_eq_true, beq_iff_eq, Bool.not_eq_true'] at this
      exact ⟨this.1.1.1, this.1.2, this.2⟩
    rw [e2]
    exact {
      used := used2
      irs := by rw [rx2, h1]; rfl
      room := by rw [rx2, h1]; exact fits
      unread := by
        rw [← unread1]
        simp only [Conn.unread, rx2]
      next := by
        rw [rx2, h1]
        simp only [Rx.store, BitVec.ofNat_add]
        rw [BitVec.add_assoc]
        rfl
      finReceived := by rw [rx2]; simp
      inLine := line
      finInLine := by
        intro _
        rw [h1] at taking
        exact ⟨taking.1, taking.2.2, taking.2.1⟩
      receives := by
        intro e
        rw [takeFin_receives] at e
        cases e
      waits := takeFin_waits now c1 }

theorem segmentOpen_accepts (room : c.rx.rcvLen ≤ tcpBufSize) :
    Freed (segmentOpen now c s).conn ∨
    ∃ bytes fin, Accepts c s (segmentOpen now c s).conn bytes fin := by
  unfold segmentOpen
  rw [andThen_conn]
  rcases takeAck_keeps now c s.ack s.window with freed | kept
  · left
    rw [if_pos (by simp [freed.used])]
    exact freed
  · split
    · exact .inr ⟨[], false, kept.accepts s room⟩
    split
    · exact .inl ⟨rfl, rfl⟩
    obtain ⟨bytes, fin, h⟩ := segmentText_accepts now _ s (by rw [kept.rx]; exact room)
    exact .inr ⟨bytes, fin, .around kept h (Keeps.refl _)⟩

theorem Verdict.accepts {found : Prop} {now : U32} {c : Conn} {s : Seg} {r : Reply}
    (h : Verdict found now s c r) (past : found → c.state ≠ .synSent)
    (room : c.rx.rcvLen ≤ tcpBufSize) :
    Freed r.conn ∨ ∃ bytes fin, Accepts c s r.conn bytes fin := by
  have keeps {c' : Conn} (h : KeepsOrFrees c c') :
      Freed c' ∨ ∃ bytes fin, Accepts c s c' bytes fin := by
    rcases h with freed | kept
    · exact .inl freed
    · exact .inr ⟨[], false, kept.accepts s room⟩
  cases h with
  | noted => exact keeps (.inr ⟨rfl, rfl, .refl _⟩)
  | ended error => exact keeps ((Keeps.refl c).finish now error)
  | freed => exact .inl (tcpFree_freed c)
  | answered came state | crossed came state => exact absurd state (past came)
  | confirmed received =>
    have kept : Keeps c (establish now c s.ack) :=
      .moved (s := .synReceived) (t := .established) ⟨by decide, by decide, by decide⟩
      received rfl rfl rfl
    rcases segmentOpen_accepts now (establish now c s.ack) s room with freed | ⟨bytes, fin, h⟩
    · exact .inl freed
    · exact .inr ⟨bytes, fin, .around kept h (Keeps.refl _)⟩
  | taken => exact segmentOpen_accepts now c s room

/-- Every segment frees the slot or is accepted in line. -/
theorem segment_accepts (room : c.rx.rcvLen ≤ tcpBufSize) :
    Freed (segment now c s).conn ∨ ∃ bytes fin, Accepts c s (segment now c s).conn bytes fin :=
  Verdict.accepts (segment_verdict False.elim) False.elim room

end UzOS.Tcp
