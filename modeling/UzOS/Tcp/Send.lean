import UzOS.Tcp.Fit
import UzOS.Tcp.Frame

/-! The send buffer: whatever is acknowledged, sent again or probed, every
segment of a connection carries bytes its program handed to tcp_send, at
their own place in the stream. -/
namespace UzOS.Tcp

open Buffer List

/-- The connection accepts no more bytes: it was shut down for writing, or it
is gone. -/
def Conn.frozen (c : Conn) : Bool := !c.used || c.tx.finWanted

/-- What a segment of a connection may carry that started at `iss` and has
accepted `acc` so far: a SYN at `iss`, a stretch of `acc` at its place, a FIN
behind all of `acc` once nothing can follow. -/
structure Carries (iss : U32) (acc : List U8) (frozen : Bool) (s : Seg) : Prop where
  syn : s.has tcpSyn = true → s.seq = iss
  data : s.data ≠ [] → ∃ i, s.seq = iss + 1 + BitVec.ofNat 32 i ∧ s.data <+: acc.drop i
  fin : s.has tcpFin = true → frozen = true ∧
    s.seq + BitVec.ofNat 32 s.data.length = iss + 1 + BitVec.ofNat 32 acc.length

variable {iss : U32} {acc : List U8} {c : Conn} {r : Reply}

variable (now : U32) (l : Conn) (slot : Nat) {c' : Conn} {wire : List Seg} {acc' : List U8}

variable {s : Seg}

theorem Carries.grows {frozen frozen' : Bool} (h : Carries iss acc frozen s)
    (more : acc <+: acc') (end_ : frozen → frozen' ∧ acc' = acc) :
    Carries iss acc' frozen' s where
  syn := h.syn
  data := by
    intro n
    obtain ⟨i, seq, data⟩ := h.data n
    obtain ⟨rest, rfl⟩ := more
    exact ⟨i, seq, data.trans ⟨rest.drop (i - acc.length), drop_append.symm⟩⟩
  fin := by
    intro f
    obtain ⟨done, place⟩ := h.fin f
    obtain ⟨done', same⟩ := end_ done
    exact ⟨done', by rw [same]; exact place⟩

theorem Seg.Hollow.carries {frozen : Bool} (h : s.Hollow) : Carries iss acc frozen s where
  syn := fun e => by cases h.syn.symm.trans e
  data := fun e => absurd h.data e
  fin := fun e => by cases h.fin.symm.trans e

/-! The sending half, by state. -/

/-- Before the handshake is through only the SYN is out. -/
structure Opening (iss : U32) (acc : List U8) (t : Tx) : Prop where
  start : t.iss = iss
  una : t.sndUna = iss
  nxt : t.sndNxt = iss + 1
  none : acc = []
  empty : t.sndLen = 0
  fin : t.finSent = false

/-- The buffer holds the end of what was accepted, and `sndUna` is the place
of its first byte; at most the buffer and a FIN are in flight. -/
structure Flowing (iss : U32) (acc : List U8) (t : Tx) : Prop where
  within : t.sndLen ≤ acc.length
  room : t.sndLen ≤ tcpBufSize
  buffer : Buffer.slice t.sndbuf 0 t.sndLen = acc.drop (acc.length - t.sndLen)
  una : t.sndUna = iss + 1 + BitVec.ofNat 32 (acc.length - t.sndLen)
  flight : (t.sndNxt - t.sndUna).toNat ≤ t.sndLen + t.finSent.toNat
  fin : t.finSent = true → t.finWanted = true ∧ (t.sndNxt - t.sndUna).toNat = t.sndLen + 1

structure Sending (iss : U32) (acc : List U8) (c : Conn) : Prop where
  used : c.used = true
  fault : 0 ≤ c.error
  bound : c.state ≠ .listen
  opening : c.state.opening = true → Opening iss acc c.tx
  flowing : c.state.outputs = true → Flowing iss acc c.tx
  early : c.state = .established ∨ c.state = .closeWait → c.tx.finSent = false
  drained : c.state.drained = true → c.tx.sndLen = 0
  silent : c.state = .closed → c.timers.rtxAt = 0

/-- What a function did to a connection and put on the wire. -/
structure Emits (iss : U32) (acc : List U8) (c : Conn) (r : Reply) : Prop where
  live : r.conn.used = false ∨ Sending iss acc r.conn
  wire : ∀ s ∈ r.sent, Carries iss acc r.conn.frozen s
  frozen : c.frozen = true → r.conn.frozen = true

theorem Emits.quiet (h : Sending iss acc c') (frozen : c.frozen → c'.frozen) :
    Emits iss acc c (quiet c') :=
  ⟨.inr h, fun s m => by simp at m, frozen⟩

/-- One function after another, the second only on a connection in use. -/
theorem Emits.andThen {f : Conn → Reply} (h : Emits iss acc c r)
    (k : Emits iss acc r.conn (f r.conn)) : Emits iss acc c (r.andThen f) where
  live := k.live
  wire := by
    intro s m
    rw [andThen_sent, mem_append] at m
    rcases m with m | m
    · exact (h.wire s m).grows (prefix_refl _) fun e => ⟨k.frozen e, rfl⟩
    · exact k.wire s m
  frozen := fun e => k.frozen (h.frozen e)

/-- A function that starts by changing fields that matter to nothing sent. -/
theorem Emits.of_frozen (h : Emits iss acc c' r) (frozen : c.frozen → c'.frozen) :
    Emits iss acc c r :=
  ⟨h.live, h.wire, fun e => h.frozen (frozen e)⟩

/-- A connection, or what is left of it, and everything it has sent. -/
structure Speaks (iss : U32) (acc : List U8) (c : Conn) (wire : List Seg) : Prop where
  live : c.used = false ∨ Sending iss acc c
  wire : ∀ s ∈ wire, Carries iss acc c.frozen s

theorem Speaks.sending (h : Speaks iss acc c wire) (used : c.used) : Sending iss acc c := by
  rcases h.live with unused | sending
  · cases unused.symm.trans used
  · exact sending

/-- A function of the connection ran, and perhaps took bytes of the program. -/
theorem Speaks.emits (h : Speaks iss acc c wire) (k : Emits iss acc' c r) (grows : acc <+: acc')
    (none : c.frozen → acc' = acc) : Speaks iss acc' r.conn (wire ++ r.sent) := by
  refine ⟨k.live, fun s member => ?_⟩
  rcases mem_append.mp member with old | new
  · exact (h.wire s old).grows grows fun frozen => ⟨k.frozen frozen, none frozen⟩
  · exact k.wire s new

/-- Nothing but the sending half, the state and a CLOSED connection's timer matters. -/
theorem Sending.same (h : Sending iss acc c) (used : c'.used = c.used) (error : c'.error = c.error)
    (state : c'.state = c.state) (tx : c'.tx = c.tx)
    (rtx : c.state = .closed → c'.timers.rtxAt = c.timers.rtxAt) : Sending iss acc c' where
  used := used.trans h.used
  fault := by rw [error]; exact h.fault
  bound := by rw [state]; exact h.bound
  opening := by rw [state, tx]; exact h.opening
  flowing := by rw [state, tx]; exact h.flowing
  early := by rw [state, tx]; exact h.early
  drained := by rw [state, tx]; exact h.drained
  silent := by
    rw [state]
    intro e
    rw [rtx e, h.silent e]

theorem Sending.of_flowing (used : c.used) (fault : 0 ≤ c.error)
    (outputs : c.state.outputs) (flow : Flowing iss acc c.tx)
    (early : c.state = .established ∨ c.state = .closeWait → c.tx.finSent = false) :
    Sending iss acc c := by
  obtain ⟨bound, opening, drained, open_⟩ := State.outputs_only outputs
  exact {
    used := used
    fault := fault
    bound := bound
    opening := fun e => by rw [opening] at e; cases e
    flowing := fun _ => flow
    early := early
    drained := fun e => by rw [drained] at e; cases e
    silent := fun e => absurd e open_ }

theorem Sending.of_drained (used : c.used) (fault : 0 ≤ c.error)
    (drained : c.state.drained) (empty : c.tx.sndLen = 0) : Sending iss acc c := by
  obtain ⟨bound, opening, outputs, open_⟩ := State.drained_only drained
  exact {
    used := used
    fault := fault
    bound := bound
    opening := fun e => by rw [opening] at e; cases e
    flowing := fun e => by rw [outputs] at e; cases e
    early := fun e => by rcases e with e | e <;> rw [e] at drained <;> cases drained
    drained := fun _ => empty
    silent := fun e => absurd e open_ }

theorem Sending.of_opening (used : c.used) (fault : 0 ≤ c.error)
    (state : c.state.opening) (opening : Opening iss acc c.tx) : Sending iss acc c := by
  obtain ⟨bound, outputs, drained, open_⟩ := State.opening_only state
  exact {
    used := used
    fault := fault
    bound := bound
    opening := fun _ => opening
    flowing := fun e => by rw [outputs] at e; cases e
    early := fun _ => opening.fin
    drained := fun e => by rw [drained] at e; cases e
    silent := fun e => absurd e open_ }

theorem Sending.arm (h : Sending iss acc c) (now : U32) (open_ : c.state ≠ .closed) :
    Sending iss acc (armTimer now c) := by
  unfold armTimer
  split
  · exact h.same rfl rfl rfl rfl fun e => absurd e open_
  · exact h

theorem armTimer_state (c : Conn) :
    (armTimer now c).state = c.state ∧ (armTimer now c).frozen = c.frozen := by
  unfold armTimer
  split <;> exact ⟨rfl, rfl⟩

theorem tcpFree_sent (c : Conn) : (tcpFree c).sent = [] := by simp [Reply.sent, tcpFree]

theorem tcpFree_emits (iss : U32) (acc : List U8) (c c' : Conn) : Emits iss acc c (tcpFree c') :=
  ⟨.inl rfl, fun s m => by simp [tcpFree_sent] at m, fun _ => rfl⟩

theorem tcpFinish_emits (iss : U32) (acc : List U8) (now : U32) (c : Conn) (error : Int)
    (used : c.used) (fault : 0 ≤ error) : Emits iss acc c (tcpFinish now c error) := by
  unfold tcpFinish
  dsimp only
  split
  · refine .quiet ?_ id
    exact {
      used := used
      fault := fault
      bound := nofun
      opening := nofun
      flowing := nofun
      early := fun e => by rcases e with e | e <;> cases e
      drained := nofun
      silent := fun _ => rfl }
  · exact tcpFree_emits iss acc c _

section
variable (h : Sending iss acc c)
include h

variable (flags : U8) {d : Conn} {t : Tx} {now : U32}

/-- A segment that carries what it may. -/
theorem tcpSendSegment_emits (seq : U32) (data : List U8)
    (carries : ∀ s : Seg, s.flags = flags → s.seq = seq → s.data = data →
      Carries iss acc c.frozen s) : Emits iss acc c (tcpSendSegment c flags seq data) where
  live := .inr (h.same rfl rfl rfl rfl fun _ => rfl)
  wire := by
    intro s m
    rw [show (tcpSendSegment c flags seq data).sent = [_] from rfl, mem_singleton] at m
    exact carries s (by rw [m]; rfl) (by rw [m]; rfl) (by rw [m]; rfl)
  frozen := id

/-- An ACK or a RST. -/
theorem sendEmpty_emits (seq : U32) (syn : flagSet flags tcpSyn = false)
    (fin : flagSet flags tcpFin = false) : Emits iss acc c (tcpSendSegment c flags seq []) := by
  apply tcpSendSegment_emits h
  intro s f _ data
  have hollow : s.Hollow := ⟨data, by rw [Seg.has, f]; exact syn, by rw [Seg.has, f]; exact fin⟩
  exact hollow.carries

theorem sendAck_emits : Emits iss acc c (sendAck c) := sendEmpty_emits h _ _ rfl rfl

/-- The SYN of either kind, again and again. -/
theorem sendSyn_emits (fin : flagSet flags tcpFin = false) :
    Emits iss acc c (tcpSendSegment c flags iss []) := by
  apply tcpSendSegment_emits h
  intro s f seq data
  exact ⟨fun _ => seq, fun n => absurd data n, fun e => by rw [Seg.has, f, fin] at e; cases e⟩

/-- The SYN of a new connection, its timer armed. -/
theorem openSyn_emits (open_ : c.state ≠ .closed) (now : U32) (flags : U8)
    (fin : flagSet flags tcpFin = false) :
    Emits iss acc c ((tcpSendSegment c flags iss []).andThen fun c => quiet (armTimer now c)) := by
  refine (sendSyn_emits h flags fin).andThen (.quiet (Sending.arm ?_ now open_) ?_)
  · exact h.same rfl rfl rfl rfl fun _ => rfl
  · intro frozen
    exact (armTimer_state now _).2.trans frozen

theorem Sending.fit (outputs : c.state.outputs) : Fit c.state c.tx := by
  have flow := h.flowing outputs
  refine .of_outputs outputs flow.room (fun sent => (flow.fin sent).1) (fun waits => ?_)
    (fun sent => .inr (flow.fin sent).2) fun half sent => ?_
  · simpa [waits] using flow.flight
  · cases (h.early half).symm.trans sent

/-! Output. -/

omit h in
theorem Flowing.place (h : Flowing iss acc t) :
    t.sndNxt = iss + 1 + BitVec.ofNat 32 (acc.length - t.sndLen + (t.sndNxt - t.sndUna).toNat) := by
  rw [Serial.offset_add, ← h.una, BitVec.ofNat_toNat, BitVec.setWidth_eq]
  bv_omega

omit h in
theorem Flowing.piece (h : Flowing iss acc t) (from_ n : Nat) (inside : from_ + n ≤ t.sndLen) :
    Buffer.slice t.sndbuf from_ n <+: acc.drop (acc.length - t.sndLen + from_) := by
  rw [← drop_drop, ← h.buffer, slice_drop _ _ _ _ (by omega), zero_add,
    ← slice_take _ _ n _ (show n ≤ t.sndLen - from_ by omega)]
  exact take_prefix _ _

omit h in
theorem Flowing.advance (h : Flowing iss acc t) (fin : t.finSent = false) (n : Nat)
    (inside : (t.sndNxt - t.sndUna).toNat + n ≤ t.sndLen) :
    Flowing iss acc { t with sndNxt := t.sndNxt + BitVec.ofNat 32 n } where
  within := h.within
  room := h.room
  buffer := h.buffer
  una := h.una
  flight := by
    have room := h.room
    simp only [tcpBufSize] at room
    rw [fin, Bool.toNat_false, add_zero]
    bv_omega
  fin := fun e => by rw [fin] at e; cases e

theorem outputPiece_emits (outputs : c.state.outputs)
    (fin : c.tx.finSent = false) (now : U32) : Emits iss acc c (outputPiece now c) := by
  have flow := h.flowing outputs
  have inside : (c.tx.sndNxt - c.tx.sndUna).toNat + c.pieceLen ≤ c.tx.sndLen :=
    (h.fit outputs).piece_inside outputs fin
  unfold outputPiece
  have sending : Sending iss acc (c.advance c.pieceLen) :=
    .of_flowing h.used h.fault outputs (flow.advance fin _ inside) h.early
  obtain ⟨state, tx, -, used, -, error⟩ := piece_same now c
  have armed := sending.same used error state tx fun closed =>
    absurd closed (State.outputs_only outputs).2.2.2
  refine Emits.of_frozen (tcpSendSegment_emits armed _ _ _ ?_) ?_
  · intro s flags seq data
    refine ⟨?_, fun _ => ⟨_, seq.trans flow.place, ?_⟩, ?_⟩
    · intro e
      rw [Seg.has, flags] at e
      cases e
    · rw [data]
      exact flow.piece _ _ inside
    · intro e
      rw [Seg.has, flags] at e
      cases e
  · unfold Conn.frozen
    rw [used, tx]
    exact id

omit h in
theorem outputPass_stop (h : outputPass now c = .stop d) : d = c ∨ d = armTimer now c := by
  unfold outputPass at h
  split at h
  · cases h; exact .inl rfl
  split at h
  · cases h; exact .inr rfl
  · cases h

omit h in
theorem outputPass_sent (h : outputPass now c = .sent r) :
    r = outputPiece now c ∧ c.tx.finSent = false := by
  unfold outputPass at h
  split at h
  · cases h
  rename_i goes
  split at h
  · cases h
  cases h
  simp only [Bool.or_eq_true, not_or, Bool.not_eq_true] at goes
  exact ⟨rfl, goes.1⟩

omit h in
theorem outputPiece_state (now : U32) (c : Conn) : (outputPiece now c).conn.state = c.state :=
  (piece_same now c).1

/-- The loop only moves `sndNxt` and timers. -/
theorem outputLoop_emits (now : U32) (fuel : Nat)
    (outputs : c.state.outputs) :
    Emits iss acc c (outputLoop now fuel c) ∧ (outputLoop now fuel c).conn.state = c.state := by
  induction fuel generalizing c with
  | zero => exact ⟨.quiet h id, rfl⟩
  | succ fuel ih =>
    rw [outputLoop]
    split
    · rename_i d stop
      rcases outputPass_stop stop with rfl | rfl
      · exact ⟨.quiet h id, rfl⟩
      obtain ⟨state, frozen⟩ := armTimer_state now c
      exact ⟨.quiet (h.arm now (State.outputs_only outputs).2.2.2) (by rw [frozen]; exact id), state⟩
    · rename_i r sent
      obtain ⟨rfl, fin⟩ := outputPass_sent sent
      have piece := outputPiece_emits h outputs fin now
      have state := outputPiece_state now c
      have used := (outputPiece_keeps now c).used.trans h.used
      rcases piece.live with gone | live
      · rw [used] at gone
        cases gone
      obtain ⟨rest, same⟩ := ih live (by rw [state]; exact outputs)
      exact ⟨piece.andThen rest, same.trans state⟩

omit h in
theorem Flowing.sendFin (h : Flowing iss acc t) (wanted : t.finWanted)
    (out : t.sndNxt - t.sndUna = BitVec.ofNat 32 t.sndLen) :
    Flowing iss acc { t with sndNxt := t.sndNxt + 1, finSent := true } := by
  have room := h.room
  simp only [tcpBufSize] at room
  have flight : (t.sndNxt + 1 - t.sndUna).toNat = t.sndLen + 1 := by bv_omega
  exact {
    within := h.within
    room := h.room
    buffer := h.buffer
    una := h.una
    flight := le_of_eq flight
    fin := fun _ => ⟨wanted, flight⟩ }

theorem outputFin_emits (outputs : c.state.outputs) (now : U32) :
    Emits iss acc c (outputFin now c) := by
  unfold outputFin
  split
  · rename_i due
    simp only [Bool.and_eq_true, beq_iff_eq] at due
    obtain ⟨⟨wanted, -⟩, out⟩ := due
    have flow := h.flowing outputs
    have place : c.tx.sndNxt = iss + 1 + BitVec.ofNat 32 acc.length := by
      have within := h.flowing outputs |>.within
      have place := flow.place
      rw [show c.tx.sndNxt - c.tx.sndUna = _ from out] at place
      have room := flow.room
      simp only [tcpBufSize] at room
      rw [BitVec.toNat_ofNat, Nat.mod_eq_of_lt (by omega), Nat.sub_add_cancel within] at place
      exact place
    obtain ⟨tx, used, error, outputs', later⟩ := finOut_spec now outputs
    have sending : Sending iss acc (finOut now c) := by
      refine .of_flowing (used.trans h.used) (error ▸ h.fault) outputs' ?_ fun e => absurd e later
      rw [tx]
      exact flow.sendFin wanted out
    have frozen : (armTimer now (finOut now c)).frozen := by
      rw [(armTimer_state now _).2, Conn.frozen, tx]
      simp [wanted]
    refine Emits.of_frozen (tcpSendSegment_emits (sending.arm now ?_) _ _ _ ?_) fun _ => frozen
    · exact (State.outputs_only outputs').2.2.2
    · intro s flags seq data
      refine ⟨?_, fun n => absurd data n, fun _ => ⟨frozen, ?_⟩⟩
      · intro e
        rw [Seg.has, flags] at e
        cases e
      · rw [seq, data, place]
        simp
  · exact .quiet h id

theorem tcpOutput_emits (now : U32) : Emits iss acc c (tcpOutput now c) := by
  unfold tcpOutput
  split
  · rename_i outputs
    obtain ⟨loop, state⟩ := outputLoop_emits h now (c.unsent.toNat + 1) outputs
    rcases loop.live with gone | live
    · rw [(outputLoop_keeps now _ c).used, h.used] at gone
      cases gone
    · exact loop.andThen (outputFin_emits live (by rw [state]; exact outputs) now)
  · exact .quiet h id

/-! Acknowledgments. -/

omit h in
theorem ackedData_le (t : Tx) (ack : U32) : t.ackedData ack ≤ t.sndLen := by
  have cut (n : Nat) : (if t.sndLen < n then t.sndLen else n) ≤ t.sndLen := by split <;> omega
  exact cut _

omit h in
/-- The acknowledged bytes leave the front of the buffer. -/
theorem slice_dropAcked (t : Tx) (ack : U32) :
    Buffer.slice (t.dropAcked ack).sndbuf 0 (t.dropAcked ack).sndLen =
      (Buffer.slice t.sndbuf 0 t.sndLen).drop (t.ackedData ack) := by
  rw [slice_drop _ _ _ _ (ackedData_le t ack)]
  apply map_congr_left
  intro i hi
  have inside := mem_range.mp hi
  simp only [Tx.dropAcked] at inside ⊢
  rw [if_pos (by omega)]
  congr 1
  omega

omit h in
theorem Flowing.dropAcked (h : Flowing iss acc t) {ack : U32} (acked : Acked t ack)
    (notFin : t.finAcked ack = false) : Flowing iss acc (t.dropAcked ack) := by
  obtain ⟨len, short, fewer⟩ := acked.data notFin
  have data : t.ackedData ack = (ack - t.sndUna).toNat := by
    have inside := ackedData_le t ack
    simp only [Tx.dropAcked] at len
    omega
  have flight := h.flight
  have accepted := h.within
  exact {
    within := by rw [len]; omega
    room := by rw [len]; exact le_trans (Nat.sub_le _ _) h.room
    buffer := by
      rw [slice_dropAcked, h.buffer, data, drop_drop, len]
      congr 1
      omega
    una := by
      rw [len, show acc.length - (t.sndLen - (ack - t.sndUna).toNat) =
        acc.length - t.sndLen + (ack - t.sndUna).toNat by omega, Serial.offset_add, ← h.una,
        BitVec.ofNat_toNat, BitVec.setWidth_eq]
      simp only [Tx.dropAcked]
      bv_omega
    flight := by
      rw [len]
      simp only [Tx.dropAcked]
      omega
    fin := by
      intro sent
      obtain ⟨wanted, all⟩ := h.fin sent
      refine ⟨wanted, ?_⟩
      rw [len]
      simp only [Tx.dropAcked]
      omega }

theorem Sending.acknowledge (synced : c.state.synced) (now : U32)
    {ack : U32} (after : Serial.gt ack c.tx.sndUna) (upto : Serial.le ack c.tx.sndNxt)
    (goesOn : ¬(c.tx.finAcked ack ∧ c.state = .lastAck)) :
    Sending iss acc (acknowledge now c ack).conn := by
  by_cases outputs : c.state.outputs
  · have fit := h.fit outputs
    have acked := fit.acked synced after upto
    have to_ := fit.acknowledged synced acked now
    generalize (Tcp.acknowledge now c ack).conn = d at to_
    cases to_ with
    | part _ notFin =>
      exact .of_flowing h.used h.fault outputs ((h.flowing outputs).dropAcked acked notFin) h.early
    | all s drained fin => exact .of_drained h.used h.fault drained (acked.fin fin).1
    | ended state fin => exact absurd ⟨fin, state⟩ goesOn
  · have drained : c.state.drained := by simpa [State.synced, outputs] using synced
    have empty : (c.tx.dropAcked ack).sndLen = 0 := by
      show c.tx.sndLen - _ = 0
      rw [h.drained drained, Nat.zero_sub]
    unfold Tcp.acknowledge
    split
    · rename_i state
      rw [state] at outputs
      exact absurd rfl outputs
    · rename_i state
      rw [state] at outputs
      exact absurd rfl outputs
    · rename_i fin state
      exact absurd ⟨fin, state⟩ goesOn
    · exact .of_drained h.used h.fault drained empty

/-! Segments. -/

theorem Sending.takeFin (synced : c.state.synced) (now : U32) :
    Sending iss acc (takeFin now c) := by
  have early := h.early
  have flowing := h.flowing
  have drained := h.drained
  unfold Tcp.takeFin
  split
  · rename_i state
    rw [state] at early flowing
    exact .of_flowing h.used h.fault rfl (flowing rfl) fun _ => early (.inl rfl)
  · rename_i state
    rw [state] at synced
    cases synced
  · rename_i state
    rw [state] at flowing
    exact .of_flowing h.used h.fault rfl (flowing rfl) fun e => by rcases e with e | e <;> cases e
  · rename_i state
    rw [state] at drained
    exact .of_drained h.used h.fault rfl (drained rfl)
  · exact h.same rfl rfl rfl rfl fun _ => rfl

theorem Sending.takeWindow (ack : U32) (window : U16) :
    Sending iss acc (takeWindow c ack window) := by
  unfold Tcp.takeWindow
  split
  · exact { h with
      opening := fun e => { h.opening e with }
      flowing := fun e => { h.flowing e with } }
  · exact h

theorem Heard.sends (k : Heard now c d) : Sending iss acc d := by
  cases k with
  | acked ack synced after upto goesOn => exact h.acknowledge synced now after upto goesOn
  | window ack window => exact h.takeWindow ack window
  | stored => exact h.same rfl rfl rfl rfl fun _ => rfl
  | finTaken synced => exact h.takeFin synced now

omit h in
theorem Heard.frozen (k : Heard now c d) : d.frozen = c.frozen := by
  cases k with
  | acked ack _ _ _ goesOn =>
    unfold acknowledge
    dsimp only
    split
    · rfl
    · rfl
    · rename_i fin state
      exact absurd ⟨fin, state⟩ goesOn
    · rfl
  | window ack window =>
    unfold takeWindow
    split <;> rfl
  | stored => rfl
  | finTaken =>
    unfold takeFin
    dsimp only
    split <;> rfl

theorem Trail.emits (k : Trail now c r) : Emits iss acc c r := by
  induction k with
  | ended c => exact .quiet h id
  | heard k _ ih => exact (ih (k.sends h)).of_frozen fun e => k.frozen.trans e
  | answers _ ih => exact (sendAck_emits h).andThen (ih (h.same rfl rfl rfl rfl fun _ => rfl))
  | @closes c ack window state fin =>
    have finished : Emits iss acc c (acknowledge now c ack) := by
      rw [acknowledge_closes state fin]
      refine Emits.of_frozen (tcpFinish_emits iss acc now _ 0 ?_ (by decide)) id
      exact h.used
    refine finished.andThen ⟨?_, fun s m => by simp at m, fun e => ?_⟩
    · rcases finished.live with gone | live
      · left
        unfold takeWindow
        split <;> exact gone
      · exact .inr (live.takeWindow ack window)
    · exact (@Heard.window now _ ack window).frozen.trans e
  | resets c =>
    exact (sendEmpty_emits h (tcpRst ||| tcpAck) _ rfl rfl).andThen (tcpFree_emits iss acc _ _)
  | output c => exact tcpOutput_emits h now

omit h in
/-- The ACK of our SYN: the stream starts, empty. -/
theorem Opening.establish (h : Opening iss acc c.tx) (used : c.used) (fault : 0 ≤ c.error)
    (now ack : U32) (answers : ack = iss + 1) : Sending iss acc (establish now c ack) := by
  refine .of_flowing used fault rfl ?_ fun _ => h.fin
  exact {
    within := by rw [h.none]; exact le_of_eq h.empty
    room := le_trans (le_of_eq h.empty) zero_le
    buffer := by
      show Buffer.slice c.tx.sndbuf 0 c.tx.sndLen = _
      rw [h.none, h.empty, drop_nil]
      rfl
    una := by
      show ack = _
      simp [answers, h.none]
    flight := by
      show (c.tx.sndNxt - ack).toNat ≤ _
      simp [h.nxt, answers]
    fin := fun e => by cases h.fin.symm.trans e }

theorem Verdict.emits (v : Verdict True now s c r) : Emits iss acc c r := by
  have opening (state : c.state.opening) : Opening iss acc c.tx := h.opening state
  cases v with
  | noted since n segsOut answer hollow =>
    refine ⟨.inr (h.same rfl rfl rfl rfl fun _ => rfl), fun t sent => ?_, id⟩
    cases answer with
    | none => cases sent
    | some u =>
      rw [mem_singleton.mp sent]
      exact (hollow u rfl).carries
  | ended error fault => exact tcpFinish_emits iss acc now c error h.used fault
  | freed => exact tcpFree_emits iss acc c c
  | answered _ state syn right =>
    have opening := opening (by rw [state]; rfl)
    have taken : Opening iss acc (takeSyn c s).tx := { opening with }
    rw [opening.start] at right
    exact (sendAck_emits (taken.establish h.used h.fault now s.ack right)).of_frozen id
  | crossed _ state =>
    have opening := opening (by rw [state]; rfl)
    have taken : Opening iss acc (takeSyn c s).tx := { opening with }
    have received : Sending iss acc (tcpSetState now (takeSyn c s) .synReceived) :=
      .of_opening h.used h.fault rfl taken
    rw [opening.start]
    exact (sendSyn_emits received (tcpSyn ||| tcpAck) rfl).of_frozen id
  | confirmed state right =>
    have opening := opening (by rw [state]; rfl)
    rw [opening.start] at right
    have started := opening.establish h.used h.fault now s.ack right
    exact ((segmentOpen_trail rfl s).emits started).of_frozen id
  | taken synced => exact (segmentOpen_trail (synced trivial) s).emits h

/-! Timers. -/

theorem Sending.goBack (started : c.state.opening = false) : Sending iss acc (goBack c) :=
  { h with
    opening := fun e => by cases started.symm.trans e
    flowing := by
      intro e
      have flow := h.flowing e
      exact { flow with
        flight := by
          show (c.tx.sndUna - c.tx.sndUna).toNat ≤ _
          simp
        fin := nofun }
    early := fun _ => rfl }

/-! The calls of the program. -/

omit h in
theorem Flowing.enqueue {bytes : List U8} (h : Flowing iss acc c.tx)
    (fits : c.tx.sndLen + bytes.length ≤ tcpBufSize) (fin : c.tx.finSent = false) :
    Flowing iss (acc ++ bytes) (enqueue c bytes).tx := by
  have within := h.within
  have same : (acc ++ bytes).length - (c.tx.sndLen + bytes.length) = acc.length - c.tx.sndLen := by
    rw [length_append]
    omega
  exact {
    within := by
      rw [length_append]
      exact Nat.add_le_add_right within _
    room := fits
    buffer := by
      show Buffer.slice (Buffer.blit c.tx.sndbuf c.tx.sndLen bytes) 0 (c.tx.sndLen + bytes.length) =
        (acc ++ bytes).drop ((acc ++ bytes).length - (c.tx.sndLen + bytes.length))
      have appended := slice_blit_append c.tx.sndbuf 0 c.tx.sndLen bytes
      rw [zero_add] at appended
      rw [appended, h.buffer, same, drop_append_of_le_length (by omega)]
    una := by
      show c.tx.sndUna = iss + 1 +
        BitVec.ofNat 32 ((acc ++ bytes).length - (c.tx.sndLen + bytes.length))
      rw [same]
      exact h.una
    flight := by
      have flight := h.flight
      show (c.tx.sndNxt - c.tx.sndUna).toNat ≤ c.tx.sndLen + bytes.length + c.tx.finSent.toNat
      omega
    fin := fun e => by cases fin.symm.trans e }

theorem Sending.wantFin : Sending iss acc (wantFin c) :=
  { h with
    opening := fun e => { h.opening e with }
    flowing := fun e => { h.flowing e with fin := fun sent => ⟨rfl, ((h.flowing e).fin sent).2⟩ } }

theorem tcpShutdownWrite_emits (now : U32) : Emits iss acc c (tcpShutdownWrite now c) := by
  unfold tcpShutdownWrite
  split
  · exact (tcpOutput_emits h.wantFin now).of_frozen fun _ => by simp [Conn.frozen, wantFin]
  · exact .quiet h id

omit h in
/-- A window probe is the first byte of the buffer. -/
theorem Flowing.probe (h : Flowing iss acc c.tx) (shut : c.tx.sndUna = c.tx.sndNxt)
    (some_ : c.tx.sndLen ≠ 0) (flags : s.flags = tcpAck) (seq : s.seq = c.tx.sndNxt)
    (data : s.data = Buffer.slice c.tx.sndbuf 0 1) : Carries iss acc c.frozen s := by
  refine ⟨?_, fun _ => ⟨acc.length - c.tx.sndLen, ?_, ?_⟩, ?_⟩
  · intro e
    rw [Seg.has, flags] at e
    cases e
  · rw [seq, ← h.una]
    exact shut.symm
  · rw [data]
    exact h.piece 0 1 (by omega)
  · intro e
    rw [Seg.has, flags] at e
    cases e

theorem Spoken.emits {flags : U8} {seq : U32} {data : List U8} (spoken : Spoken c flags seq data)
    (open_ : c.state ≠ .closed) : Emits iss acc c (tcpSendSegment c flags seq data) := by
  cases spoken with
  | syn flags fin state =>
    rw [(h.opening state).start]
    exact sendSyn_emits h flags fin
  | probe started shut some_ =>
    have outputs : c.state.outputs := by
      have bound := h.bound
      have drained := h.drained
      cases state : c.state <;> simp_all [State.outputs, State.opening, State.drained]
    apply tcpSendSegment_emits h
    intro s flags seq data
    exact (h.flowing outputs).probe shut some_ flags seq data
  | ack => exact sendAck_emits h

theorem Script.emits {new shut : Prop} {t : Dialog} (script : Script False False new shut now c t)
    (open_ : c.state ≠ .closed) : Emits iss acc c (Dialog.reply t) := by
  induction script with
  | done c => exact .quiet h id
  | moved may | listens may | opens may | writes may | hears may | leaves may => exact may.elim
  | released _ ih | counted _ _ _ ih =>
    refine (ih ?_ open_).of_frozen id
    exact h.same rfl rfl rfl rfl fun _ => rfl
  | retried _ _ _ ih =>
    refine (ih ?_ open_).of_frozen id
    exact h.same rfl rfl rfl rfl fun e => absurd e open_
  | finishes =>
    rw [tcpOutputTalk_reply]
    exact (tcpOutput_emits h.wantFin now).of_frozen fun _ => by simp [Conn.frozen, wantFin]
  | @goesBack c n due started =>
    rw [tcpOutputTalk_reply]
    have again : Sending iss acc (retry now { c with timers.retries := n }) :=
      h.same rfl rfl rfl rfl fun e => absurd e open_
    exact (tcpOutput_emits (again.goBack started) now).of_frozen id
  | sent spoken => exact spoken.emits h open_
  | aborts c =>
    rw [reset_reply]
    have reset := sendEmpty_emits h (tcpRst ||| tcpAck) c.tx.sndNxt rfl rfl
    exact reset.andThen (tcpFree_emits iss acc _ _)
  | freed c =>
    rw [tell_done_reply (tcpFree_one c)]
    exact tcpFree_emits iss acc c c
  | ended c error fault =>
    rw [tell_done_reply (tcpFinish_one now c error)]
    exact tcpFinish_emits iss acc now c error h.used fault

theorem tcpTick_emits (now : U32) : Emits iss acc c (tcpTick now c) := by
  by_cases closed : c.state = .closed
  · have idle : tcpTick now c = quiet c := by simp [tcpTick, closed, h.silent closed]
    rw [idle]
    exact .quiet h id
  · rw [← tcpTickTalk_reply]
    exact @Script.emits iss acc c h now True True _ tick_script closed

theorem tcpClose_emits (now : U32) : Emits iss acc c (tcpClose now c) := by
  by_cases closed : c.state = .closed
  · simp only [tcpClose, closed]
    exact tcpFree_emits iss acc c _
  · rw [← tcpCloseTalk_reply]
    exact @Script.emits iss acc c h now True True _ (close_script fun l => absurd l h.bound) closed

end

/-- What tcp_send took of `buf`. -/
def sentBytes (result : Int) (buf : List U8) : List U8 := buf.take result.toNat

theorem sentBytes_of_nonpos {result : Int} (h : result ≤ 0) (buf : List U8) :
    sentBytes result buf = [] := by
  rw [sentBytes, Int.toNat_of_nonpos h, take_zero]

/-- tcp_send stores what it says it took, and takes nothing once the
connection is shut down. -/
theorem tcpSend_emits (h : Sending iss acc c) (now : U32) (buf : List U8) :
    Emits iss (acc ++ sentBytes (tcpSend now c buf).1 buf) c (tcpSend now c buf).2 ∧
    (c.frozen → sentBytes (tcpSend now c buf).1 buf = []) := by
  have refused {e : Int} (nonpos : e ≤ 0) :
      Emits iss (acc ++ sentBytes e buf) c (quiet c) ∧ (c.frozen → sentBytes e buf = []) := by
    rw [sentBytes_of_nonpos nonpos, append_nil]
    exact ⟨.quiet h id, fun _ => rfl⟩
  unfold tcpSend
  split
  · exact refused (show -netEagain ≤ 0 by decide)
  split
  · apply refused
    have fault := h.fault
    dsimp only
    split
    · omega
    · split <;> decide
  · rename_i stay
    split
    · exact refused (show -netEpipe ≤ 0 by decide)
    rename_i wanted
    dsimp only
    split
    · exact refused (show -netEagain ≤ 0 by decide)
    have state : c.state = .established ∨ c.state = .closeWait := by
      simpa [or_iff_not_imp_left] using stay
    have outputs : c.state.outputs := by rcases state with e | e <;> rw [e] <;> rfl
    have took : sentBytes (buf.take (tcpBufSize - c.tx.sndLen)).length buf =
        buf.take (tcpBufSize - c.tx.sndLen) := by
      rw [length_take]
      exact take_eq_take_iff.mpr (by omega)
    have fits : c.tx.sndLen + (buf.take (tcpBufSize - c.tx.sndLen)).length ≤ tcpBufSize := by
      have := length_take_le (tcpBufSize - c.tx.sndLen) buf
      omega
    rw [took]
    have stored : Sending iss _ (enqueue c (buf.take (tcpBufSize - c.tx.sndLen))) :=
      .of_flowing h.used h.fault outputs ((h.flowing outputs).enqueue fits (h.early state)) h.early
    refine ⟨(tcpOutput_emits stored now).of_frozen id, ?_⟩
    intro frozen
    simp only [Conn.frozen, h.used] at frozen
    exact absurd frozen wanted

/-! Opening and receiving. -/

/-- A connect() that opens the connection leaves everything but its addresses
to openActive. -/
theorem tcpConnect_opens (ip : U32) (port : U16) {route : Option U32} {ephemeral : Option U16}
    (isn : U32) (opens : c.opens route ephemeral) :
    ∃ d : Conn, (tcpConnect now c ip port route ephemeral isn).2 = openActive now d isn ∧
      d.used = c.used ∧ d.error = c.error ∧ d.tx = c.tx ∧ d.rx = c.rx := by
  simp only [Conn.opens, Bool.and_eq_true, Bool.or_eq_true, beq_iff_eq, bne_iff_ne] at opens
  obtain ⟨⟨closed, routed⟩, bound⟩ := opens
  obtain ⟨src, rfl⟩ := Option.isSome_iff_exists.mp routed
  unfold tcpConnect
  rw [if_neg (not_not.mpr closed)]
  by_cases unbound : c.localPort = 0
  · obtain ⟨p, rfl⟩ := Option.isSome_iff_exists.mp (bound.resolve_left (not_not.mpr unbound))
    simp only [unbound]
    exact ⟨_, rfl, rfl, rfl, rfl, rfl⟩
  simp only [unbound]
  exact ⟨_, rfl, rfl, rfl, rfl, rfl⟩

theorem openActive_emits (isn : U32) (used : c.used) (fault : 0 ≤ c.error)
    (empty : c.tx.sndLen = 0) (fin : c.tx.finSent = false) :
    Emits isn [] (openConn now c isn) (openActive now c isn) := by
  have opening : Sending isn [] (openConn now c isn) :=
    .of_opening used fault rfl ⟨rfl, rfl, rfl, rfl, empty, fin⟩
  exact openSyn_emits opening nofun now tcpSyn rfl

theorem newChild_emits (isn : U32) (s : Seg) :
    Emits isn [] (childConn now l slot isn s) (newChild now l slot isn s) := by
  have opening : Sending isn [] (childConn now l slot isn s) :=
    .of_opening rfl (Int.le_refl 0) rfl ⟨rfl, rfl, rfl, rfl, rfl, rfl⟩
  exact openSyn_emits opening nofun now (tcpSyn ||| tcpAck) rfl

/-- The ACK of a cookie makes an ESTABLISHED connection with nothing sent. -/
theorem cookieConn_sends (mss : U16) (s : Seg) :
    Sending (s.ack - 1) [] (cookieConn now l slot mss s) := by
  refine .of_flowing rfl (Int.le_refl 0) rfl ?_ fun _ => rfl
  exact {
    within := le_refl 0
    room := zero_le
    buffer := rfl
    una := by
      show s.ack = s.ack - 1 + 1 + 0
      bv_omega
    flight := by
      show (s.ack - s.ack).toNat ≤ 0
      simp
    fin := nofun }

theorem cookieChild_emits (mss : U16) (s : Seg) :
    Emits (s.ack - 1) [] (cookieConn now l slot mss s) (cookieChild now l slot mss s) := by
  have sending := cookieConn_sends now l slot mss s
  unfold cookieChild
  split
  · exact (segment_verdict fun _ => .inr rfl).emits sending
  · exact .quiet sending id

theorem refuse_hollow (c : Conn) (s t : Seg) (sent : t ∈ (⟨c, refuse s⟩ : Reply).sent) :
    t.Hollow := by
  unfold refuse at sent
  split at sent
  · cases sent
  split at sent
  · rw [show (Reply.sent ⟨c, _⟩ : List Seg) = [_] from rfl, mem_singleton] at sent
    subst sent
    exact sendRaw_hollow rfl rfl
  rw [show (Reply.sent ⟨c, _⟩ : List Seg) = [_] from rfl, mem_singleton] at sent
  subst sent
  exact sendRaw_hollow rfl rfl

theorem tcpReceive_emits (h : c.used = false ∨ Sending iss acc c) (now : U32) (s : Seg) :
    Emits iss acc c (tcpReceive now c s) := by
  unfold tcpReceive
  split
  · exact ⟨h, fun t m => (by simp at m), id⟩
  split
  · exact ⟨h, fun t m => (refuse_hollow c s t m).carries, id⟩
  rename_i found
  rw [Bool.not_eq_true, Bool.not_eq_false'] at found
  obtain ⟨used, open_⟩ := Conn.matches_spec found
  rcases h with unused | sending
  · cases unused.symm.trans used
  have counted : Sending iss acc c.counted := sending.same rfl rfl rfl rfl fun _ => rfl
  exact ((dispatch_verdict counted.bound open_).emits counted).of_frozen id

theorem tcpRecv_emits (h : Sending iss acc c) (len : Nat) (peek : Bool) :
    Emits iss acc c (tcpRecv c len peek).2.2 := by
  unfold tcpRecv
  split
  · exact .quiet h id
  extract_lets n after
  have taken : Sending iss acc after := h.same rfl rfl rfl rfl fun _ => rfl
  split
  · exact .quiet h id
  split
  · exact (sendAck_emits taken).of_frozen id
  · exact .quiet taken id

end UzOS.Tcp
