import UzOS.Tcp.Moves

/-! The sequence variables of a connection against its send buffer, kept by
every move, also of a connection that was opened again. -/
namespace UzOS.Tcp

open Bool

/-- The sending half in a state. A FIN that was sent follows everything in the
buffer; one left over from an earlier connection has nothing in flight. -/
structure Fit (s : State) (t : Tx) : Prop where
  room : t.sndLen ≤ tcpBufSize
  wanted : t.finSent = true → t.finWanted = true
  opening : s.opening = true → t.sndUna = t.iss ∧ t.sndNxt = t.iss + 1
  flight : s.outputs = true → t.finSent = false → (t.sndNxt - t.sndUna).toNat ≤ t.sndLen
  fin : s.outputs = true → t.finSent = true →
    t.sndNxt = t.sndUna ∨ (t.sndNxt - t.sndUna).toNat = t.sndLen + 1
  early : s = .established ∨ s = .closeWait → t.finSent = true → t.sndNxt = t.sndUna
  drained : s.drained = true → t.finSent = true ∧ t.sndNxt = t.sndUna

/-- Only what the state requires has to be shown. -/
theorem Fit.of_outputs {s : State} {t : Tx} (outputs : s.outputs) (room : t.sndLen ≤ tcpBufSize)
    (wanted : t.finSent → t.finWanted)
    (flight : t.finSent = false → (t.sndNxt - t.sndUna).toNat ≤ t.sndLen)
    (fin : t.finSent → t.sndNxt = t.sndUna ∨ (t.sndNxt - t.sndUna).toNat = t.sndLen + 1)
    (early : s = .established ∨ s = .closeWait → t.finSent → t.sndNxt = t.sndUna) :
    Fit s t := by
  obtain ⟨-, opening, drained, -⟩ := State.outputs_only outputs
  exact {
    room := room
    wanted := wanted
    opening := fun e => by rw [opening] at e; cases e
    flight := fun _ => flight
    fin := fun _ => fin
    early := early
    drained := fun e => by rw [drained] at e; cases e }

theorem Fit.of_closed {t : Tx} (room : t.sndLen ≤ tcpBufSize)
    (wanted : t.finSent → t.finWanted) : Fit .closed t where
  room := room
  wanted := wanted
  opening := nofun
  flight := nofun
  fin := nofun
  early := fun e => by rcases e with e | e <;> cases e
  drained := nofun

theorem Fit.of_drained {s : State} {t : Tx} (drained : s.drained) (room : t.sndLen ≤ tcpBufSize)
    (wanted : t.finSent → t.finWanted)
    (all : t.finSent ∧ t.sndNxt = t.sndUna) : Fit s t := by
  obtain ⟨-, opening, outputs, -⟩ := State.drained_only drained
  exact {
    room := room
    wanted := wanted
    opening := fun e => by rw [opening] at e; cases e
    flight := fun e => by rw [outputs] at e; cases e
    fin := fun e => by rw [outputs] at e; cases e
    early := fun e => by rcases e with rfl | rfl <;> cases drained
    drained := fun _ => all }

theorem Fit.of_opening {s : State} {t : Tx} (opening : s.opening) (room : t.sndLen ≤ tcpBufSize)
    (wanted : t.finSent → t.finWanted)
    (syn : t.sndUna = t.iss ∧ t.sndNxt = t.iss + 1) : Fit s t := by
  obtain ⟨-, outputs, drained, -⟩ := State.opening_only opening
  exact {
    room := room
    wanted := wanted
    opening := fun _ => syn
    flight := fun e => by rw [outputs] at e; cases e
    fin := fun e => by rw [outputs] at e; cases e
    early := fun e => by rcases e with rfl | rfl <;> cases opening
    drained := fun e => by rw [drained] at e; cases e }

theorem zero_fit : Fit Conn.zero.state Conn.zero.tx :=
  .of_closed zero_le nofun

variable {s : State} {t : Tx}

/-- Nothing is in flight but what is in the buffer and a FIN. -/
theorem Fit.near (h : Fit s t) (synced : s.synced) :
    (t.sndNxt - t.sndUna).toNat ≤ t.sndLen + t.finSent.toNat := by
  rcases (or_eq_true _ _).mp synced with outputs | drained
  · cases sent : t.finSent with
    | false => exact h.flight outputs sent
    | true =>
      rcases h.fin outputs sent with none | all
      · simp [none]
      · exact le_of_eq all
  · simp [(h.drained drained).2]

/-- The window after a piece of `n` more bytes. -/
theorem Fit.advance (h : Fit s t) (later : s.later) (waits : t.finSent = false) (n : Nat)
    (inside : s.outputs → (t.sndNxt - t.sndUna).toNat + n ≤ t.sndLen) :
    Fit s { t with sndNxt := t.sndNxt + BitVec.ofNat 32 n } := by
  rcases State.later_cases later with synced | rfl
  · rcases (or_eq_true _ _).mp synced with outputs | drained
    · refine .of_outputs outputs h.room h.wanted ?_ ?_ ?_
      · have inside := inside outputs
        bv_omega
      · intro sent
        cases waits.symm.trans sent
      · intro _ sent
        cases waits.symm.trans sent
    · cases waits.symm.trans (h.drained drained).1
  · exact .of_closed h.room h.wanted

/-- The FIN behind everything. -/
theorem Fit.sendFin (h : Fit s t) {s' : State} (outputs : s'.outputs)
    (half : ¬(s' = .established ∨ s' = .closeWait)) (wanted : t.finWanted)
    (out : t.sndNxt - t.sndUna = BitVec.ofNat 32 t.sndLen) :
    Fit s' { t with sndNxt := t.sndNxt + 1, finSent := true } := by
  have room := h.room
  simp only [tcpBufSize] at room
  refine .of_outputs outputs h.room (fun _ => wanted) ?_ (fun _ => .inr ?_) fun e => absurd e half
  · intro e
    cases e
  · bv_omega

/-- What an acceptable acknowledgment leaves. -/
structure Acked (t : Tx) (ack : U32) : Prop where
  covers : (ack - t.sndUna).toNat ≤ (t.sndNxt - t.sndUna).toNat
  some : ack ≠ t.sndUna
  fin : t.finAcked ack = true → (t.dropAcked ack).sndLen = 0 ∧ ack = t.sndNxt ∧ t.finSent = true
  data : t.finAcked ack = false →
    (t.dropAcked ack).sndLen = t.sndLen - (ack - t.sndUna).toNat ∧
    (ack - t.sndUna).toNat ≤ t.sndLen ∧
    (t.sndNxt - ack).toNat = (t.sndNxt - t.sndUna).toNat - (ack - t.sndUna).toNat

variable {ack : U32} {c : Conn}

/-- An acceptable acknowledgment covers a part of the flight. -/
theorem ack_within {una nxt ack : U32} (after : Serial.gt ack una)
    (upto : Serial.le ack nxt) (near : (nxt - una).toNat < 2 ^ 31) :
    (ack - una).toNat ≤ (nxt - una).toNat := by
  simp only [Serial.gt, Serial.le, decide_eq_true_eq] at after upto
  rw [BitVec.toInt_eq_toNat_cond] at after upto
  split at after <;> split at upto <;> bv_omega

theorem Fit.acked (h : Fit s t) (synced : s.synced) (after : Serial.gt ack t.sndUna)
    (upto : Serial.le ack t.sndNxt) : Acked t ack := by
  have room := h.room
  have flight := h.near synced
  have one := toNat_le t.finSent
  simp only [tcpBufSize] at room
  have covers := ack_within after upto (by omega)
  have some : ack ≠ t.sndUna := by
    rintro rfl
    simp [Serial.gt] at after
  have all (sent : t.finSent) : (t.sndNxt - t.sndUna).toNat = t.sndLen + 1 := by
    have moved : t.sndNxt ≠ t.sndUna := by
      intro same
      rw [same] at covers
      bv_omega
    rcases (or_eq_true _ _).mp synced with outputs | drained
    · exact (h.fin outputs sent).resolve_left moved
    · exact absurd (h.drained drained).2 moved
  refine ⟨covers, some, ?_, ?_⟩
  · intro fin
    obtain ⟨sent, rfl⟩ : t.finSent ∧ ack = t.sndNxt := by simpa [Tx.finAcked] using fin
    have all := all sent
    have data : t.ackedData t.sndNxt = t.sndLen := by
      simp only [Tx.ackedData, fin, ↓reduceIte]
      have : (t.sndNxt - t.sndUna - 1).toNat = t.sndLen := by bv_omega
      rw [this, if_neg (lt_irrefl _)]
    exact ⟨by rw [Tx.dropAcked, data, Nat.sub_self], rfl, sent⟩
  · intro notFin
    have short : (ack - t.sndUna).toNat ≤ t.sndLen := by
      cases sent : t.finSent with
      | false =>
        rw [sent, toNat_false] at flight
        omega
      | true =>
        have all := all sent
        have before : ack ≠ t.sndNxt := by simpa [Tx.finAcked, sent] using notFin
        bv_omega
    have data : t.ackedData ack = (ack - t.sndUna).toNat := by
      simp only [Tx.ackedData, notFin, false_eq_true, ↓reduceIte]
      rw [show ack - t.sndUna - 0 = ack - t.sndUna by bv_omega, if_neg (by omega)]
    refine ⟨by rw [Tx.dropAcked, data], short, ?_⟩
    bv_omega

/-- An acknowledgment is only acceptable while something is in flight. -/
theorem Acked.flying (h : Acked t ack) : t.sndNxt ≠ t.sndUna := by
  have covers := h.covers
  have some := h.some
  bv_omega

theorem Fit.dropAcked (h : Fit s t) (synced : s.synced) (acked : Acked t ack)
    (notFin : t.finAcked ack = false) : Fit s (t.dropAcked ack) := by
  rcases (or_eq_true _ _).mp synced with outputs | drained
  · obtain ⟨len, short, fewer⟩ := acked.data notFin
    have room := h.room
    refine .of_outputs outputs (by rw [len]; omega) h.wanted ?_ ?_ ?_
    · intro waits
      have flight := h.flight outputs waits
      show (t.sndNxt - ack).toNat ≤ _
      omega
    · intro sent
      refine .inr ?_
      have all := (h.fin outputs sent).resolve_left acked.flying
      show (t.sndNxt - ack).toNat = _
      omega
    · intro half sent
      exact absurd (h.early half sent) acked.flying
  · exact absurd (h.drained drained).2 acked.flying

/-- A connection that was acknowledged in full. -/
theorem Fit.finAcked (h : Fit s t) (acked : Acked t ack) (fin : t.finAcked ack) {s' : State}
    (drained : s'.drained) : Fit s' (t.dropAcked ack) := by
  obtain ⟨empty, all, sent⟩ := acked.fin fin
  exact .of_drained drained (by rw [empty]; exact zero_le) h.wanted ⟨sent, all.symm⟩

theorem tcpFinish_fit (now : U32) (c : Conn) (error : Int) (h : Fit s c.tx) :
    Fit (tcpFinish now c error).conn.state (tcpFinish now c error).conn.tx := by
  unfold tcpFinish
  dsimp only
  split
  · exact .of_closed h.room h.wanted
  · exact zero_fit

/-- Where an acknowledged FIN leads, and that it only comes while the state waits for it. -/
theorem Fit.waits_for_fin (h : Fit s t) (synced : s.synced) (acked : Acked t ack)
    (fin : t.finAcked ack) : s = .finWait1 ∨ s = .closing ∨ s = .lastAck := by
  have sent := (acked.fin fin).2.2
  have early := fun half => acked.flying (h.early half sent)
  have drained := fun full => acked.flying (h.drained full).2
  cases s with
  | finWait1 => exact .inl rfl
  | closing => exact .inr (.inl rfl)
  | lastAck => exact .inr (.inr rfl)
  | established => exact absurd (.inl rfl) early
  | closeWait => exact absurd (.inr rfl) early
  | finWait2 | timeWait => exact absurd rfl drained
  | closed | listen | synSent | synReceived => cases synced

/-- What an acceptable acknowledgment makes of a connection. -/
inductive AckedTo (now : U32) (c : Conn) (ack : U32) : Conn → Prop where
  | part (outputs : c.state.outputs = true) (notFin : c.tx.finAcked ack = false) :
      AckedTo now c ack (c.acked now ack)
  | all (s : State) (drained : s.drained = true) (fin : c.tx.finAcked ack = true)
      (off : (c.acked now ack).timers.rtxAt = 0) :
      AckedTo now c ack (tcpSetState now (c.acked now ack) s)
  | ended (state : c.state = .lastAck) (fin : c.tx.finAcked ack = true) :
      AckedTo now c ack (tcpFinish now (c.acked now ack) 0).conn

theorem Fit.acknowledged (h : Fit c.state c.tx) (synced : c.state.synced)
    (acked : Acked c.tx ack) (now : U32) : AckedTo now c ack (acknowledge now c ack).conn := by
  have off (fin : c.tx.finAcked ack) : (c.acked now ack).timers.rtxAt = 0 := by
    simp [Conn.acked, Timers.acked, (acked.fin fin).2.1]
  unfold acknowledge
  split
  · rename_i fin _
    exact .all .finWait2 rfl fin (off fin)
  · rename_i fin _
    exact .all .timeWait rfl fin (off fin)
  · rename_i fin state
    exact .ended state fin
  · rename_i notWait1 notClosing notLast
    refine .part ?_ ?_
    · exact ((or_eq_true _ _).mp synced).resolve_right fun drained =>
        acked.flying (h.drained drained).2
    · refine eq_false_iff.mpr fun fin => ?_
      rcases h.waits_for_fin synced acked fin with state | state | state
      · exact notWait1 fin state
      · exact notClosing fin state
      · exact notLast fin state

theorem acknowledge_fit (now : U32) (h : Fit c.state c.tx) (synced : c.state.synced)
    (acked : Acked c.tx ack) :
    Fit (acknowledge now c ack).conn.state (acknowledge now c ack).conn.tx := by
  have to_ := h.acknowledged synced acked now
  generalize (acknowledge now c ack).conn = d at to_
  cases to_ with
  | part _ notFin => exact h.dropAcked synced acked notFin
  | all s drained fin => exact h.finAcked acked fin drained
  | ended state fin =>
    have done : Fit .finWait2 (c.tx.dropAcked ack) := h.finAcked acked fin rfl
    exact tcpFinish_fit (s := .finWait2) now _ 0 done

theorem pieceLen_le (c : Conn) : c.pieceLen ≤ c.unsent.toNat := by
  have least : (if c.unsent < c.room then c.unsent else c.room).toNat ≤ c.unsent.toNat := by
    split
    · exact le_refl _
    · bv_omega
  unfold Conn.pieceLen
  generalize (if c.unsent < c.room then c.unsent else c.room) = n at least
  dsimp only
  split <;> omega

theorem Fit.unsent (h : Fit c.state c.tx) (outputs : c.state.outputs)
    (waits : c.tx.finSent = false) : c.unsent.toNat = c.tx.sndLen - c.flight.toNat := by
  have room := h.room
  have flight := h.flight outputs waits
  simp only [tcpBufSize] at room
  simp only [Conn.unsent, Conn.flight]
  bv_omega

/-- With nothing in flight the whole buffer is unsent. -/
theorem Fit.unsent_landed (h : Fit c.state c.tx) (same : c.tx.sndNxt = c.tx.sndUna) :
    c.unsent.toNat = c.tx.sndLen := by
  have room := h.room
  simp only [tcpBufSize] at room
  simp only [Conn.unsent, Conn.flight]
  bv_omega

theorem Fit.piece_inside (h : Fit c.state c.tx) (outputs : c.state.outputs)
    (waits : c.tx.finSent = false) : c.flight.toNat + c.pieceLen ≤ c.tx.sndLen := by
  have unsent := h.unsent outputs waits
  have flight : c.flight.toNat ≤ c.tx.sndLen := h.flight outputs waits
  have piece := pieceLen_le c
  omega

theorem Fit.takeFin (h : Fit c.state c.tx) (synced : c.state.synced) (now : U32) :
    Fit (takeFin now c).state (takeFin now c).tx := by
  rw [(takeFin_same now synced).2.2.1]
  unfold UzOS.Tcp.takeFin
  cases state : c.state with
  | established =>
    rw [state] at h
    exact .of_outputs rfl h.room h.wanted (h.flight rfl) (h.fin rfl) fun _ => h.early (.inl rfl)
  | finWait1 =>
    rw [state] at h
    refine .of_outputs rfl h.room h.wanted (h.flight rfl) (h.fin rfl) fun half => ?_
    rcases half with half | half <;> cases half
  | finWait2 =>
    rw [state] at h
    exact .of_drained rfl h.room h.wanted (h.drained rfl)
  | synReceived =>
    rw [state] at synced
    cases synced
  | _ =>
    rw [state] at h
    exact h

/-- The handshake's ACK leaves nothing in flight. -/
theorem Fit.establish {d : Conn} (h : Fit c.state c.tx) (opening : c.state.opening)
    (now : U32) (nxt : d.tx.sndNxt = c.tx.sndNxt) (len : d.tx.sndLen = c.tx.sndLen)
    (sent : d.tx.finSent = c.tx.finSent) (wanted : d.tx.finWanted = c.tx.finWanted) :
    Fit .established (establish now d (c.tx.iss + 1)).tx := by
  have syn := (h.opening opening).2
  have all : d.tx.sndNxt = c.tx.iss + 1 := nxt.trans syn
  refine .of_outputs rfl (len.symm ▸ h.room : d.tx.sndLen ≤ _) ?_ ?_ ?_ ?_
  · intro e
    exact wanted.trans (h.wanted (sent.symm.trans e))
  · intro _
    show (d.tx.sndNxt - (c.tx.iss + 1)).toNat ≤ _
    rw [all]
    simp
  · exact fun _ => .inl all
  · exact fun _ _ => all

theorem finOut_spec (now : U32) (outputs : c.state.outputs) :
    (finOut now c).tx = { c.tx with sndNxt := c.tx.sndNxt + 1, finSent := true } ∧
    (finOut now c).used = c.used ∧ (finOut now c).error = c.error ∧
    (finOut now c).state.outputs ∧
    ¬((finOut now c).state = .established ∨ (finOut now c).state = .closeWait) := by
  unfold finOut
  split
  · exact ⟨rfl, rfl, rfl, rfl, fun e => by rcases e with e | e <;> cases e⟩
  · exact ⟨rfl, rfl, rfl, rfl, fun e => by rcases e with e | e <;> cases e⟩
  rename_i notOpen notHalf
  exact ⟨rfl, rfl, rfl, outputs, fun e => e.elim notOpen notHalf⟩

theorem Move.fit {rst shut : Prop} {now : U32} {a b : Conn} (h : Move rst shut now a b)
    (fit : Fit a.state a.tx) : Fit b.state b.tx := by
  cases h with
  | noted | stored => exact fit
  | blocked =>
    obtain ⟨state, tx, -⟩ := armTimer_same now a
    rw [state, tx]
    exact fit
  | piece later live waits held room =>
    obtain ⟨state, tx, -⟩ := piece_same now a
    rw [state, tx]
    exact fit.advance later waits _ fun outputs => fit.piece_inside outputs waits
  | fin later live wanted waits out =>
    obtain ⟨state, tx, -⟩ := armTimer_same now (finOut now a)
    rw [state, tx]
    rcases State.later_cases later with synced | closed
    · rcases (or_eq_true _ _).mp synced with outputs | drained
      · obtain ⟨tx, -, -, outputs', half⟩ := finOut_spec now outputs
        rw [tx]
        exact fit.sendFin outputs' half wanted out
      · cases waits.symm.trans (fit.drained drained).1
    · have state : (finOut now a).state = .closed := by simp [finOut, closed]
      rw [state]
      refine .of_closed ?_ fun _ => ?_ <;> simp only [finOut, closed]
      · exact fit.room
      · exact wanted
  | acked ack synced after upto =>
    exact acknowledge_fit now fit synced (fit.acked synced after upto)
  | window => exact { fit with }
  | finTaken synced first => exact fit.takeFin synced now
  | confirmed state | answered s state =>
    exact fit.establish (by rw [state]; rfl) now rfl rfl rfl rfl
  | crossed s state => exact .of_opening rfl fit.room fit.wanted (fit.opening (by rw [state]; rfl))
  | ended error => exact tcpFinish_fit now a error fit
  | freed => exact zero_fit

theorem Moves.fit {rst shut : Prop} {now : U32} {a b : Conn} (h : Moves rst shut now a b)
    (fit : Fit a.state a.tx) : Fit b.state b.tx :=
  h.keeps (P := fun c => Fit c.state c.tx) fit fun move => move.fit

end UzOS.Tcp
