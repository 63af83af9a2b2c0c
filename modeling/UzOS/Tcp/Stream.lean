import UzOS.Tcp.Receive

/-! Receive-stream integrity over whole runs: the bytes a program has read,
followed by those still in the ring, are a prefix of what the peer sent. -/
namespace UzOS.Tcp

open List Serial

/-- The payload of `s` is that of the stream `S`: the byte at sequence number
`irs + 1 + i` is `S[i]`, and a FIN stands right behind all of `S`. -/
structure Agrees (irs : U32) (S : List U8) (s : Seg) : Prop where
  bytes : ∀ j b, s.data[j]? = some b →
    ∃ i, S[i]? = some b ∧ s.seq + BitVec.ofNat 32 j = irs + 1 + BitVec.ofNat 32 i
  fin : s.has tcpFin = true →
    s.seq + BitVec.ofNat 32 s.data.length = irs + 1 + BitVec.ofNat 32 S.length

variable {irs : U32} {S read : List U8} {s : Seg} {segs : List Seg} {c c' : Conn}

theorem slice_agrees (i : Nat) (seq : s.seq = irs + 1 + BitVec.ofNat 32 i)
    (data : s.data <+: S.drop i) (j : Nat) (b : U8) (h : s.data[j]? = some b) :
    ∃ i, S[i]? = some b ∧ s.seq + BitVec.ofNat 32 j = irs + 1 + BitVec.ofNat 32 i := by
  have inside : j < s.data.length := (List.getElem?_eq_some_iff.mp h).1
  refine ⟨i + j, ?_, by rw [seq, offset_add]⟩
  obtain ⟨rest, e⟩ := data
  rw [← List.getElem?_drop, ← e, List.getElem?_append_left inside, h]

theorem Agrees.of_slice (i : Nat) (seq : s.seq = irs + 1 + BitVec.ofNat 32 i)
    (data : s.data <+: S.drop i) (fin : s.has tcpFin → i + s.data.length = S.length) :
    Agrees irs S s where
  bytes := slice_agrees i seq data
  fin := by
    intro h
    rw [seq, ← offset_add, fin h]

/-- The bytes of `text` came from `segs`: the one at place `irs + 1 + j` was
carried there by one of them. -/
def Carried (irs : U32) (segs : List Seg) (text : List U8) : Prop :=
  ∀ j b, text[j]? = some b → ∃ s ∈ segs, ∃ k,
    s.data[k]? = some b ∧ s.seq + BitVec.ofNat 32 k = irs + 1 + BitVec.ofNat 32 j

/-- The receiving half of `c` after the program has read `read`: those bytes
and the ones that wait came from `segs`, and so did a FIN behind the last. -/
structure Traced (irs : U32) (segs : List Seg) (read : List U8) (c : Conn) : Prop where
  start : c.rx.irs = irs
  room : c.rx.rcvLen ≤ tcpBufSize
  next : c.rx.rcvNxt =
    irs + 1 + BitVec.ofNat 32 ((read ++ c.unread).length + c.rx.finReceived.toNat)
  text : Carried irs segs (read ++ c.unread)
  fin : c.rx.finReceived = true → ∃ s ∈ segs, s.has tcpFin = true ∧
    s.seq + BitVec.ofNat 32 s.data.length = irs + 1 + BitVec.ofNat 32 (read ++ c.unread).length
  half : c.rx.finReceived = true → c.state.receives = false

theorem unread_length (c : Conn) : c.unread.length = c.rx.rcvLen := by simp [Conn.unread]

theorem Carried.front {text rest : List U8} (h : Carried irs segs (text ++ rest)) :
    Carried irs segs text := by
  intro j b at_
  have inside : j < text.length := (List.getElem?_eq_some_iff.mp at_).1
  exact h j b (by rw [List.getElem?_append_left inside]; exact at_)

theorem Carried.more {segs' : List Seg} {text : List U8} (h : Carried irs segs text)
    (more : segs ⊆ segs') : Carried irs segs' text := by
  intro j b at_
  obtain ⟨s, member, carried⟩ := h j b at_
  exact ⟨s, more member, carried⟩

theorem Traced.more {segs' : List Seg} (h : Traced irs segs read c) (more : segs ⊆ segs') :
    Traced irs segs' read c :=
  { h with
    text := h.text.more more
    fin := by
      intro e
      obtain ⟨s, member, carried⟩ := h.fin e
      exact ⟨s, more member, carried⟩ }

/-- Segments of one stream deliver a prefix of it. -/
theorem Carried.agrees {text : List U8} (h : Carried irs segs text) (short : S.length < 2 ^ 31)
    (agrees : ∀ s ∈ segs, Agrees irs S s) : text <+: S := by
  have place (j : Nat) (b : U8) (low : j < 2 ^ 32) (at_ : text[j]? = some b) : S[j]? = some b := by
    obtain ⟨s, member, k, carried, here⟩ := h j b at_
    obtain ⟨i, hi, there⟩ := (agrees s member).bytes k b carried
    have inside : i < S.length := (List.getElem?_eq_some_iff.mp hi).1
    rw [offset_inj low (by omega) (here.symm.trans there)]
    exact hi
  have within : text.length ≤ S.length := by
    by_contra beyond
    have at_ := List.getElem?_eq_getElem (show S.length < text.length by omega)
    have inside := place S.length _ (by omega) at_
    rw [List.getElem?_eq_none (le_refl _)] at inside
    cases inside
  rw [prefix_iff_getElem?]
  intro j hj
  exact place j _ (by omega) (List.getElem?_eq_getElem hj)

theorem Traced.agrees (h : Traced irs segs read c) (short : S.length < 2 ^ 31)
    (agrees : ∀ s ∈ segs, Agrees irs S s) :
    read ++ c.unread <+: S ∧ (c.rx.finReceived → read ++ c.unread = S) := by
  have text := h.text.agrees short agrees
  have within := text.length_le
  refine ⟨text, fun e => ?_⟩
  obtain ⟨s, member, flag, here⟩ := h.fin e
  have there := (agrees s member).fin flag
  exact text.eq_of_length (offset_inj (by omega) (by omega) (here.symm.trans there))

theorem Accepts.traced {bytes : List U8} {fin : Bool} (member : s ∈ segs)
    (h : Accepts c s c' bytes fin) (d : Traced irs segs read c) : Traced irs segs read c' := by
  have open_ (n : bytes ≠ [] ∨ fin) : c.rx.finReceived = false := by
    rcases n with n | n
    · cases e : c.rx.finReceived
      · rfl
      · have := d.half e
        rw [(h.inLine n).1] at this
        cases this
    · exact (h.finInLine n).2.1
  have unread : read ++ c'.unread = read ++ c.unread ++ bytes := by rw [h.unread, append_assoc]
  exact {
    start := h.irs.trans d.start
    room := h.room
    next := by
      rw [h.next, d.next, ← offset_add, h.finReceived, unread]
      congr 2
      cases hf : fin with
      | false => simp; omega
      | true => simp [open_ (.inr hf)]; omega
    text := by
      intro j b at_
      rw [unread] at at_
      by_cases old : j < (read ++ c.unread).length
      · rw [List.getElem?_append_left old] at at_
        exact d.text j b at_
      rw [List.getElem?_append_right (by omega)] at at_
      generalize gap : j - (read ++ c.unread).length = t at at_
      have new : bytes ≠ [] := by
        intro e
        rw [e] at at_
        cases at_
      obtain ⟨-, offset, line, rest, e⟩ := h.inLine new
      have inside : t < bytes.length := (List.getElem?_eq_some_iff.mp at_).1
      refine ⟨s, member, offset + t, ?_, ?_⟩
      · rw [← List.getElem?_drop, ← e, List.getElem?_append_left inside, at_]
      · rw [offset_add, line, d.next, open_ (.inl new), Bool.toNat_false, add_zero,
          ← offset_add, show (read ++ c.unread).length + t = j by omega]
    fin := by
      intro e
      cases hf : fin with
      | true =>
        obtain ⟨flag, -, line⟩ := h.finInLine hf
        refine ⟨s, member, flag, ?_⟩
        rw [line, d.next, open_ (.inr hf), Bool.toNat_false, add_zero, ← offset_add, unread]
        simp only [length_append]
      | false =>
        rw [h.finReceived, hf, Bool.or_false] at e
        have none : bytes = [] := by
          by_contra n
          rw [open_ (.inl n)] at e
          cases e
        rw [unread, none, append_nil]
        exact d.fin e
    half := by
      intro e
      cases r : c'.state.receives with
      | false => rfl
      | true =>
        obtain ⟨before, hf⟩ := h.receives r
        rw [h.finReceived, hf, Bool.or_false] at e
        rw [d.half e] at before
        cases before }

/-- recv takes bytes off the front of the ring, or nothing; peeking takes
nothing. -/
theorem tcpRecv_spec (c : Conn) (len : Nat) :
    (tcpRecv c len false).2.1 ++ (tcpRecv c len false).2.2.conn.unread = c.unread ∧
    (tcpRecv c len false).2.2.conn.rx.rcvLen ≤ c.rx.rcvLen ∧
    (tcpRecv c len false).2.2.conn.rx.irs = c.rx.irs ∧
    (tcpRecv c len false).2.2.conn.rx.rcvNxt = c.rx.rcvNxt ∧
    (tcpRecv c len false).2.2.conn.rx.finReceived = c.rx.finReceived ∧
    (tcpRecv c len false).2.2.conn.state = c.state ∧
    (tcpRecv c len false).2.2.conn.used = c.used := by
  unfold tcpRecv
  split
  · exact ⟨rfl, le_refl _, rfl, rfl, rfl, rfl, rfl⟩
  extract_lets n after
  have within : n ≤ c.rx.rcvLen := by
    simp only [n]
    split <;> omega
  have front : Buffer.ringRead tcpBufSize c.rx.rcvbuf c.rx.rcvHead n ++ after.unread = c.unread :=
    Buffer.ringRead_split _ _ _ _ _ within
  simp only [Bool.false_eq_true, ↓reduceIte]
  split <;> exact ⟨front, Nat.sub_le _ _, rfl, rfl, rfl, rfl, rfl⟩

theorem tcpRecv_peek (c : Conn) (len : Nat) : (tcpRecv c len true).2.2.conn = c := by
  unfold tcpRecv
  split <;> rfl

theorem Traced.recv (d : Traced irs segs read c) (len : Nat) :
    Traced irs segs (read ++ (tcpRecv c len false).2.1) (tcpRecv c len false).2.2.conn := by
  obtain ⟨front, shorter, irs', next, fin, state, -⟩ := tcpRecv_spec c len
  have same : read ++ (tcpRecv c len false).2.1 ++ (tcpRecv c len false).2.2.conn.unread =
      read ++ c.unread := by
    rw [append_assoc, front]
  exact {
    start := irs'.trans d.start
    room := le_trans shorter d.room
    next := by rw [same, next, fin]; exact d.next
    text := by rw [same]; exact d.text
    fin := by rw [same, fin]; exact d.fin
    half := by rw [fin, state]; exact d.half }

theorem Keeps.traced (h : Keeps c c') (d : Traced irs segs read c) : Traced irs segs read c' where
  start := by rw [h.rx]; exact d.start
  room := by rw [h.rx]; exact d.room
  next := by rw [h.unread, h.rx]; exact d.next
  text := by rw [h.unread]; exact d.text
  fin := by rw [h.unread, h.rx]; exact d.fin
  half := by
    intro e
    rw [h.rx] at e
    cases r : c'.state.receives with
    | false => rfl
    | true => rw [← h.moves.receives r, d.half e]

/-! Runs. -/

/-- What can happen to a connection that is in use. -/
inductive Event where
  | segment (now : U32) (s : Seg)
  | recv (len : Nat)
  | peek (len : Nat)
  | send (now : U32) (buf : List U8)
  | shutdownWrite (now : U32)
  | close (now : U32)
  | tick (now : U32)

/-- A connection and the bytes tcp_recv has handed to its program. -/
structure Reader where
  conn : Conn
  read : List U8

/-- A slot that was freed gets no more calls: lookup and tick pass it over,
and no socket holds it. -/
def Reader.step (w : Reader) (e : Event) : Reader :=
  if w.conn.used then
    match e with
    | .segment now s => ⟨(segment now w.conn s).conn, w.read⟩
    | .recv len => ⟨(tcpRecv w.conn len false).2.2.conn, w.read ++ (tcpRecv w.conn len false).2.1⟩
    | .peek len => ⟨(tcpRecv w.conn len true).2.2.conn, w.read⟩
    | .send now buf => ⟨(tcpSend now w.conn buf).2.conn, w.read⟩
    | .shutdownWrite now => ⟨(tcpShutdownWrite now w.conn).conn, w.read⟩
    | .close now => ⟨(tcpClose now w.conn).conn, w.read⟩
    | .tick now => ⟨(tcpTick now w.conn).conn, w.read⟩
  else w

def Event.segment? : Event → Option Seg
  | .segment _ s => some s
  | _ => none

/-- The invariant of a run: everything read is accounted for, and everything
that waits while the slot is in use. -/
def Intact (irs : U32) (segs : List Seg) (w : Reader) : Prop :=
  (Freed w.conn ∧ Carried irs segs w.read) ∨ Traced irs segs w.read w.conn

theorem KeepsOrFrees.intact (h : KeepsOrFrees c c') (d : Traced irs segs read c) :
    Intact irs segs ⟨c', read⟩ := by
  rcases h with freed | kept
  · exact .inl ⟨freed, d.text.front⟩
  · exact .inr (kept.traced d)

theorem step_intact (w : Reader) (e : Event) (arrives : ∀ s, e.segment? = some s → s ∈ segs)
    (h : Intact irs segs w) : Intact irs segs (w.step e) := by
  unfold Reader.step
  split
  · rename_i used
    rcases h with ⟨freed, -⟩ | d
    · cases freed.used.symm.trans used
    cases e with
    | segment now s =>
      rcases segment_accepts now w.conn s d.room with freed | ⟨bytes, fin, h⟩
      · exact .inl ⟨freed, d.text.front⟩
      · exact .inr (h.traced (arrives s rfl) d)
    | recv len => exact .inr (d.recv len)
    | peek len => exact .inr (by dsimp only; rw [tcpRecv_peek]; exact d)
    | send now buf => exact .inr ((tcpSend_keeps now w.conn buf).traced d)
    | shutdownWrite now => exact .inr ((tcpShutdownWrite_keeps now w.conn).traced d)
    | close now => exact (tcpClose_keeps now w.conn).intact d
    | tick now => exact (tcpTick_keeps now w.conn).intact d
  · exact h

theorem run_intact (events : List Event) (w : Reader)
    (arrive : ∀ e ∈ events, ∀ s, e.segment? = some s → s ∈ segs) (h : Intact irs segs w) :
    Intact irs segs (events.foldl Reader.step w) := by
  induction events generalizing w with
  | nil => exact h
  | cons e es ih =>
    apply ih
    · intro e' member
      exact arrive e' (mem_cons_of_mem e member)
    · exact step_intact w e (arrive e mem_cons_self) h

/-- A connection as its first handshake leaves it: nothing received yet. -/
structure Handshaken (c : Conn) : Prop where
  used : c.used = true
  next : c.rx.rcvNxt = c.rx.irs + 1
  empty : c.rx.rcvLen = 0
  noFin : c.rx.finReceived = false

theorem Handshaken.traced (h : Handshaken c) (segs : List Seg) : Traced c.rx.irs segs [] c := by
  have none : [] ++ c.unread = [] := by simp [Conn.unread, h.empty, Buffer.ringRead]
  exact {
    start := rfl
    room := by rw [h.empty]; exact zero_le
    next := by simp [none, h.noFin, h.next]
    text := by
      rw [none]
      intro j b at_
      cases at_
    fin := fun e => by cases h.noFin.symm.trans e
    half := fun e => by cases h.noFin.symm.trans e }

theorem newChild_handshaken (now : U32) (l : Conn) (slot : Nat) (isn : U32) (s : Seg) :
    Handshaken (newChild now l slot isn s).conn := by
  have armed (c : Conn) (h : Handshaken c) : Handshaken (armTimer now c) := by
    obtain ⟨used, rx, -⟩ := armTimer_keeps now c
    exact ⟨used.trans h.used, by rw [rx]; exact h.next, by rw [rx]; exact h.empty,
      by rw [rx]; exact h.noFin⟩
  have opened : Handshaken
      (tcpSendSegment (childConn now l slot isn s) (tcpSyn ||| tcpAck) isn []).conn :=
    ⟨rfl, rfl, rfl, rfl⟩
  exact armed _ opened

theorem takeSyn_handshaken (used : c'.used) (empty : c.rx.rcvLen = 0)
    (noFin : c.rx.finReceived = false) (taken : c'.rx = (takeSyn c s).rx) : Handshaken c' := by
  refine ⟨used, ?_, ?_, ?_⟩
  · rw [taken]; rfl
  · rw [taken]; exact empty
  · rw [taken]; exact noFin

/-- Whatever happens to a connection after its handshake, as long as the
segments that arrive carry the stream `S`: what its program has read and what
waits in the ring are the first `rcvNxt - (irs + 1)` bytes of `S`, not
counting a FIN, and a FIN was taken only behind all of them. -/
theorem receive_stream_integrity (c : Conn) (S : List U8) (events : List Event)
    (handshaken : Handshaken c) (short : S.length < 2 ^ 31)
    (agrees : ∀ now s, Event.segment now s ∈ events → Agrees c.rx.irs S s) :
    let w := events.foldl Reader.step ⟨c, []⟩
    let n := (w.conn.rx.rcvNxt - (c.rx.irs + 1) - BitVec.ofNat 32 w.conn.rx.finReceived.toNat).toNat
    w.conn.rx.rcvLen ≤ tcpBufSize ∧ w.read ++ w.conn.unread <+: S ∧
      (w.conn.used = true →
        w.read ++ w.conn.unread = S.take n ∧ n ≤ S.length ∧
        (w.conn.rx.finReceived = true → n = S.length)) := by
  intro w n
  have agree (s : Seg) (member : s ∈ events.filterMap Event.segment?) : Agrees c.rx.irs S s := by
    obtain ⟨e, among, here⟩ := mem_filterMap.mp member
    cases e with
    | segment now t =>
      cases here
      exact agrees now s among
    | _ => cases here
  have intact : Intact c.rx.irs (events.filterMap Event.segment?) w :=
    run_intact events _ (fun e among s here => mem_filterMap.mpr ⟨e, among, here⟩)
      (.inr (handshaken.traced _))
  rcases intact with ⟨freed, text⟩ | d
  · have none : w.conn.unread = [] := by
      simp only [Conn.unread, freed.rx]
      rfl
    refine ⟨by rw [freed.rx]; exact zero_le, ?_, fun used => ?_⟩
    · rw [none, append_nil]
      exact text.agrees short agree
    · cases freed.used.symm.trans used
  · obtain ⟨text, all⟩ := d.agrees short agree
    have within := text.length_le
    have place : n = (w.read ++ w.conn.unread).length := by
      simp only [n]
      rw [d.next]
      cases w.conn.rx.finReceived <;> simp only [Bool.toNat_false, Bool.toNat_true] <;> bv_omega
    refine ⟨d.room, text, fun _ => ⟨?_, by omega, ?_⟩⟩
    · rw [place]
      exact prefix_iff_eq_take.mp text
    · intro fin
      rw [place, all fin]

/-- A segment of the peer in the run below, whose stream starts at 100. -/
def peerSegment (seq : U32) (flags : U8) (data : List U8) : Seg :=
  ⟨0x0a000002, 0x0a000001, 2000, 80, seq, 42, flags, 1000, [], data⟩

/-- The end of the stream 1, 2, 3 arrives before its start, and its middle twice. -/
theorem receive_stream_integrity_reordered :
    (([Event.segment 1 (peerSegment 101 tcpAck [2, 3]), .segment 2 (peerSegment 100 tcpAck [1, 2]),
      .recv 1, .segment 3 (peerSegment 101 (tcpFin ||| tcpAck) [2, 3]), .recv 9].foldl Reader.step
        ⟨(newChild 0 Conn.zero 0 41 (peerSegment 99 tcpSyn [])).conn, []⟩).read = [1, 2, 3]) ∧
    (([Event.segment 1 (peerSegment 101 tcpAck [2, 3]), .segment 2 (peerSegment 100 tcpAck [1, 2]),
      .recv 1, .segment 3 (peerSegment 101 (tcpFin ||| tcpAck) [2, 3]), .recv 9].foldl Reader.step
        ⟨(newChild 0 Conn.zero 0 41 (peerSegment 99 tcpSyn [])).conn, []⟩).conn.rx.rcvLen
      ≤ tcpBufSize) := by
  refine ⟨by decide +kernel, (receive_stream_integrity _ [1, 2, 3] _ (newChild_handshaken _ _ _ _ _)
    (by decide) ?_).1⟩
  intro now s member
  simp only [mem_cons, reduceCtorEq, not_mem_nil, or_false, false_or] at member
  rcases member with ⟨-, rfl⟩ | ⟨-, rfl⟩ | ⟨-, rfl⟩
  · exact .of_slice 1 (by decide) (by decide) (by decide)
  · exact .of_slice 0 (by decide) (by decide) (by decide)
  · exact .of_slice 1 (by decide) (by decide) (by decide)

end UzOS.Tcp
