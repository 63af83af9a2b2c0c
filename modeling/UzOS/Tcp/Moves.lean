import UzOS.Tcp.Script

/-! What sending and receiving can do to a connection, one move at a time.
Every function of tcp.c that works on a connected one is a chain of these, and
so is everything drained in the middle of it. -/
namespace UzOS.Tcp

open Bool

/-- The states a connection does not come back from to its handshake. -/
def State.later (s : State) : Bool := s.synced || s = .closed

/-- `rst` says that the connection may be ended from outside, `shut` that
output may go on after it was. -/
inductive Move (rst shut : Prop) (now : U32) : Conn → Conn → Prop where
  | noted (c : Conn) (since : U32) (n : Nat) (segsIn segsOut : U32) :
      Move rst shut now c
        { c with challengeSince := since, challenges := n, segsIn := segsIn, segsOut := segsOut }
  | blocked (c : Conn) (later : c.state.later = true) (live : c.state = .closed → shut)
      (waits : c.tx.finSent = false) (held : c.unsent ≠ 0) (full : c.room = 0) :
      Move rst shut now c (armTimer now c)
  | piece (c : Conn) (later : c.state.later = true) (live : c.state = .closed → shut)
      (waits : c.tx.finSent = false) (held : c.unsent ≠ 0) (room : c.room ≠ 0) :
      Move rst shut now c (armTimer now (startTiming now (c.advance c.pieceLen)))
  | fin (c : Conn) (later : c.state.later = true) (live : c.state = .closed → shut)
      (wanted : c.tx.finWanted = true) (waits : c.tx.finSent = false)
      (out : c.flight = BitVec.ofNat 32 c.tx.sndLen) :
      Move rst shut now c (armTimer now (finOut now c))
  | acked (c : Conn) (ack : U32) (synced : c.state.synced = true)
      (after : Serial.gt ack c.tx.sndUna = true) (upto : Serial.le ack c.tx.sndNxt = true) :
      Move rst shut now c (acknowledge now c ack).conn
  | window (c : Conn) (wnd : U32) (probes : Nat) :
      Move rst shut now c { c with tx.sndWnd := wnd, timers.probes := probes }
  | stored (c : Conn) (seq : U32) (data : List U8) (takes : c.state.takesData = true) :
      Move rst shut now c { c with rx := (takeData c.rx seq data).1 }
  | finTaken (c : Conn) (synced : c.state.synced = true) (first : c.rx.finReceived = false) :
      Move rst shut now c (takeFin now c)
  | confirmed (c : Conn) (state : c.state = .synReceived) :
      Move rst shut now c (establish now c (c.tx.iss + 1))
  | answered (c : Conn) (s : Seg) (state : c.state = .synSent) :
      Move rst shut now c (establish now (takeSyn c s) (c.tx.iss + 1))
  | crossed (c : Conn) (s : Seg) (state : c.state = .synSent) :
      Move rst shut now c (tcpSetState now (takeSyn c s) .synReceived)
  | ended (c : Conn) (error : Int) (allowed : rst) : Move rst shut now c (tcpFinish now c error).conn
  | freed (c : Conn) : Move rst shut now c .zero

def Moves (rst shut : Prop) (now : U32) : Conn → Conn → Prop :=
  Relation.ReflTransGen (Move rst shut now)

variable {rst shut : Prop} {now : U32}

theorem Moves.refl (c : Conn) : Moves rst shut now c c := Relation.ReflTransGen.refl

variable {a b c : Conn} {ok : Arrival → Bool}

theorem Move.moves (h : Move rst shut now a b) : Moves rst shut now a b := .single h

theorem Moves.trans (h : Moves rst shut now a b) (k : Moves rst shut now b c) :
    Moves rst shut now a c := Relation.ReflTransGen.trans h k

theorem Moves.then (h : Moves rst shut now a b) (k : Move rst shut now b c) :
    Moves rst shut now a c := Relation.ReflTransGen.tail h k

/-- What one move keeps every chain keeps. -/
theorem Moves.keeps {P : Conn → Prop} (h : Moves rst shut now a b) (start : P a)
    (one : ∀ {a b}, Move rst shut now a b → P a → P b) : P b := by
  induction h with
  | refl => exact start
  | tail _ move ih => exact one move ih

variable {shut' : Prop} {s : State}

theorem Move.mono {rst' : Prop} (h : Move rst shut now a b) (r : rst → rst') (s : shut → shut') :
    Move rst' shut' now a b := by
  cases h with
  | noted since n segsIn segsOut => exact .noted a since n segsIn segsOut
  | blocked later live waits held full => exact .blocked a later (fun e => s (live e)) waits held full
  | piece later live waits held room => exact .piece a later (fun e => s (live e)) waits held room
  | fin later live wanted waits out => exact .fin a later (fun e => s (live e)) wanted waits out
  | acked ack synced after upto => exact .acked a ack synced after upto
  | window wnd probes => exact .window a wnd probes
  | stored seq data takes => exact .stored a seq data takes
  | finTaken synced first => exact .finTaken a synced first
  | confirmed state => exact .confirmed a state
  | answered s' state => exact .answered a s' state
  | crossed s' state => exact .crossed a s' state
  | ended error allowed => exact .ended a error (r allowed)
  | freed => exact .freed a

theorem Moves.mono {rst' : Prop} (h : Moves rst shut now a b) (r : rst → rst') (s : shut → shut') :
    Moves rst' shut' now a b := by
  induction h with
  | refl => exact Moves.refl _
  | tail _ move ih => exact ih.then (move.mono r s)

/-! The states. -/

theorem State.later_of_synced (h : s.synced) : s.later := by simp [State.later, h]

theorem State.synced_of_outputs (h : s.outputs) : s.synced := by
  simp [State.synced, h]

theorem State.outputs_only (h : s.outputs) :
    s ≠ .listen ∧ s.opening = false ∧ s.drained = false ∧ s ≠ .closed := by
  cases s <;> first | decide | cases h

theorem State.opening_only (h : s.opening) :
    s ≠ .listen ∧ s.outputs = false ∧ s.drained = false ∧ s ≠ .closed := by
  cases s <;> first | decide | cases h

theorem State.drained_only (h : s.drained) :
    s ≠ .listen ∧ s.opening = false ∧ s.outputs = false ∧ s ≠ .closed := by
  cases s <;> first | decide | cases h

theorem armTimer_same (now : U32) (c : Conn) :
    (armTimer now c).state = c.state ∧ (armTimer now c).tx = c.tx ∧ (armTimer now c).rx = c.rx ∧
    (armTimer now c).used = c.used ∧ (armTimer now c).sock = c.sock := by
  unfold armTimer
  split <;> exact ⟨rfl, rfl, rfl, rfl, rfl⟩

/-- What is left in place when a piece goes out. -/
theorem piece_same (now : U32) (c : Conn) :
    let d := armTimer now (startTiming now (c.advance c.pieceLen))
    d.state = c.state ∧ d.tx = (c.advance c.pieceLen).tx ∧ d.rx = c.rx ∧ d.used = c.used ∧
      d.timers.rtoMs = c.timers.rtoMs ∧ d.error = c.error := by
  unfold startTiming armTimer
  split <;> split <;> exact ⟨rfl, rfl, rfl, rfl, rfl, rfl⟩

theorem finOut_state (now : U32) (c : Conn) (later : c.state.later) :
    (finOut now c).state.later := by
  unfold finOut
  split <;> first | rfl | exact later

theorem tcpFinish_gone (now : U32) (c : Conn) (error : Int) :
    (tcpFinish now c error).conn.state = .closed := by
  unfold tcpFinish
  dsimp only
  split <;> rfl

theorem acknowledge_state (now : U32) (c : Conn) (ack : U32) (later : c.state.later) :
    (acknowledge now c ack).conn.state.later := by
  unfold acknowledge
  split
  · rfl
  · rfl
  · rw [tcpFinish_gone]
    rfl
  · exact later

/-- The peer's FIN moves the state only, and never into or out of the states of our own FIN. -/
theorem takeFin_same (now : U32) {c : Conn} (synced : c.state.synced) :
    let d := takeFin now c
    d.state.outputs = c.state.outputs ∧ d.state.drained = c.state.drained ∧ d.tx = c.tx ∧
      d.used = c.used ∧ d.timers.rtxAt = c.timers.rtxAt ∧ d.timers.rtoMs = c.timers.rtoMs := by
  unfold takeFin
  cases state : c.state <;> rw [state] at synced <;>
    first | (simp [tcpSetState, State.outputs, State.drained]; done) | cases synced

/-- The handshake does not come back. -/
theorem Move.later (h : Move rst shut now a b) (later : a.state.later) :
    b.state.later := by
  cases h with
  | noted | window | stored => exact later
  | blocked => rw [(armTimer_same now a).1]; exact later
  | piece =>
    rw [(piece_same now a).1]
    exact later
  | fin =>
    rw [(armTimer_same now _).1]
    exact finOut_state now a later
  | acked ack => exact acknowledge_state now a ack later
  | finTaken =>
    unfold takeFin
    split <;> first | rfl | exact later
  | confirmed | answered | freed => rfl
  | crossed s state =>
    rw [state] at later
    cases later
  | ended error =>
    rw [tcpFinish_gone]
    rfl

/-- A slot that is not in use is CLOSED. -/
def Conn.Gone (c : Conn) : Prop := c.used = false → c.state = .closed

theorem Move.gone (h : Move rst shut now a b) (gone : a.Gone) : b.Gone := by
  cases h with
  | noted | window | stored => exact gone
  | blocked =>
    obtain ⟨state, -, -, used, -⟩ := armTimer_same now a
    exact fun e => state.trans (gone (used.symm.trans e))
  | piece =>
    obtain ⟨state, -, -, used, -⟩ := piece_same now a
    exact fun e => state.trans (gone (used.symm.trans e))
  | fin =>
    obtain ⟨state, -, -, used, -⟩ := armTimer_same now (finOut now a)
    intro e
    have closed := gone (by
      rw [used] at e
      unfold finOut at e
      cases s : a.state <;> rw [s] at e <;> exact e)
    rw [state]
    simp [finOut, closed]
  | acked ack synced =>
    intro e
    unfold acknowledge at e ⊢
    have used : a.used := by
      cases used : a.used with
      | true => rfl
      | false =>
        rw [gone used] at synced
        cases synced
    split at e
    · cases used.symm.trans e
    · cases used.symm.trans e
    · exact tcpFinish_gone now _ 0
    · cases used.symm.trans e
  | finTaken synced =>
    intro e
    obtain ⟨-, -, -, used, -⟩ := takeFin_same now synced
    rw [gone (used.symm.trans e)] at synced
    cases synced
  | confirmed state | answered s state | crossed s state =>
    intro e
    cases state.symm.trans (gone e)
  | ended error => exact fun _ => tcpFinish_gone now a error
  | freed => exact fun _ => rfl

theorem Moves.gone (h : Moves rst shut now a b) (gone : a.Gone) : b.Gone :=
  h.keeps gone fun move => move.gone

theorem Moves.later (h : Moves rst shut now a b) (later : a.state.later) :
    b.state.later := h.keeps later fun move => move.later

/-! Output. -/

theorem send_moves (c : Conn) (flags : U8) (seq : U32) (data : List U8) :
    Move rst shut now c (tcpSendSegment c flags seq data).conn := .noted c _ _ _ _

/-- Nothing more is put out on a connection that was ended, unless `shut`. -/
def Conn.Open (shut : Prop) (c : Conn) : Prop :=
  c.state = .closed → c.tx.finSent = false → c.unsent ≠ 0 ∨ c.tx.finWanted = true → shut

/-- What the others may do in the middle of output. -/
structure Meets (rst shut : Prop) (now : U32) (env : Conn → Conn → Prop) : Prop where
  moves : ∀ {a b}, env a b → Moves rst shut now a b
  leaves : ∀ {a b}, env a b → a.state.later = true → (a.state = .closed → shut) → b.Open shut

theorem outputPass_cases (now : U32) (c : Conn) :
    (outputPass now c = .stop c ∧ (c.tx.finSent ∨ c.unsent = 0)) ∨
    (outputPass now c = .stop (armTimer now c) ∧ c.tx.finSent = false ∧ c.unsent ≠ 0 ∧ c.room = 0) ∨
    (outputPass now c = .sent (outputPiece now c) ∧ c.tx.finSent = false ∧ c.unsent ≠ 0 ∧
      c.room ≠ 0) := by
  unfold outputPass
  cases fin : c.tx.finSent with
  | true => exact .inl ⟨rfl, .inl rfl⟩
  | false =>
    rw [Bool.false_or]
    by_cases none : c.unsent = 0
    · exact .inl ⟨if_pos (beq_iff_eq.mpr none), .inr none⟩
    rw [if_neg (by rw [beq_iff_eq]; exact none)]
    by_cases full : c.room = 0
    · exact .inr (.inl ⟨if_pos (beq_iff_eq.mpr full), rfl, none, full⟩)
    · exact .inr (.inr ⟨if_neg (by rw [beq_iff_eq]; exact full), rfl, none, full⟩)

theorem outputPiece_moves (later : c.state.later) (live : c.state = .closed → shut)
    (waits : c.tx.finSent = false) (held : c.unsent ≠ 0) (room : c.room ≠ 0) :
    Moves rst shut now c (outputPiece now c).conn :=
  (Move.piece c later live waits held room).moves.then (send_moves _ _ _ _)

section
variable {env : Conn → Conn → Prop} (meets : Meets rst shut now env) {start : Conn}
include meets

theorem outputLoopTalk_moves (fuel : Nat) {c : Conn} (moved : Moves rst shut now start c)
    (later : c.state.later) (live : c.Open shut) :
    (outputLoopTalk now fuel c).Safe env (Moves rst shut now start)
      fun d => Moves rst shut now start d ∧ d.state.later ∧ d.Open shut := by
  induction fuel generalizing c with
  | zero => exact ⟨moved, later, live⟩
  | succ fuel ih =>
    rw [outputLoopTalk]
    rcases outputPass_cases now c with ⟨pass, -⟩ | ⟨pass, waits, held, full⟩ |
      ⟨pass, waits, held, room⟩
    · rw [pass]
      exact ⟨moved, later, live⟩
    · rw [pass]
      have move : Move rst shut now c (armTimer now c) :=
        .blocked c later (fun closed => live closed waits (.inl held)) waits held full
      obtain ⟨state, tx, -⟩ := armTimer_same now c
      refine ⟨moved.then move, move.later later, ?_⟩
      unfold Conn.Open Conn.unsent Conn.flight
      rw [state, tx]
      exact live
    · rw [pass]
      have shutdown : c.state = .closed → shut := fun closed => live closed waits (.inl held)
      have move := moved.trans (outputPiece_moves later shutdown waits held room)
      have state : (outputPiece now c).conn.state = c.state := (piece_same now c).1
      refine ⟨move, fun d reached => ih (move.trans (meets.moves reached)) ?_ ?_⟩
      · exact (meets.moves reached).later (by rw [state]; exact later)
      · exact meets.leaves reached (by rw [state]; exact later) (by rw [state]; exact shutdown)

theorem outputFinTalk_moves {c : Conn} (moved : Moves rst shut now start c)
    (later : c.state.later) (live : c.Open shut) :
    (outputFinTalk now c).Safe env (Moves rst shut now start) (Moves rst shut now start) := by
  unfold outputFinTalk outputFin
  split
  · rename_i due
    simp only [and_eq_true, beq_iff_eq, not_eq_true'] at due
    obtain ⟨⟨wanted, waits⟩, out⟩ := due
    have move := moved.then (.fin c later (fun closed => live closed waits (.inr wanted)) wanted
      waits out)
    have sent := move.then (send_moves _ (tcpFin ||| tcpAck) c.tx.sndNxt [])
    exact ⟨sent, fun d reached => sent.trans (meets.moves reached)⟩
  · exact moved

theorem tcpOutputTalk_moves {c : Conn} (moved : Moves rst shut now start c) :
    (tcpOutputTalk now c).Safe env (Moves rst shut now start) (Moves rst shut now start) := by
  unfold tcpOutputTalk
  split
  · rename_i outputs
    have later := State.later_of_synced (State.synced_of_outputs outputs)
    have live : c.Open shut := fun closed => by rw [closed] at outputs; cases outputs
    exact (outputLoopTalk_moves meets _ moved later live).andThen fun d ⟨moved, later, live⟩ =>
      outputFinTalk_moves meets moved later live
  · exact moved

end

/-- Nobody interferes while an arriving segment is handled. -/
theorem meets_eq : Meets rst shut now Eq where
  moves := fun e => e ▸ .refl _
  leaves := fun e _ live closed _ _ => live (e ▸ closed)

theorem tcpOutput_moves (c : Conn) : Moves rst shut now c (tcpOutput now c).conn := by
  rw [← tcpOutputTalk_reply]
  exact (tcpOutputTalk_moves meets_eq (.refl c)).alone fun _ => rfl

/-! Input. -/

/-- What a segment does to a connection in step 5 and 6, before anything goes out. -/
inductive Heard (now : U32) : Conn → Conn → Prop where
  | acked (c : Conn) (ack : U32) (synced : c.state.synced = true)
      (after : Serial.gt ack c.tx.sndUna = true) (upto : Serial.le ack c.tx.sndNxt = true)
      (goesOn : ¬(c.tx.finAcked ack = true ∧ c.state = .lastAck)) :
      Heard now c (acknowledge now c ack).conn
  | window (c : Conn) (ack : U32) (window : U16) : Heard now c (takeWindow c ack window)
  | stored (c : Conn) (seq : U32) (data : List U8) (takes : c.state.takesData = true) :
      Heard now c { c with rx := (takeData c.rx seq data).1 }
  | finTaken (c : Conn) (synced : c.state.synced = true) (first : c.rx.finReceived = false) :
      Heard now c (takeFin now c)

theorem takeWindow_move (c : Conn) (ack : U32) (window : U16) :
    Move rst shut now c (takeWindow c ack window) := by
  unfold takeWindow
  split
  · exact .window ..
  · exact .window c c.tx.sndWnd c.timers.probes

theorem Heard.move (h : Heard now a b) : Move rst shut now a b := by
  cases h with
  | acked ack synced after upto => exact .acked a ack synced after upto
  | window ack window => exact takeWindow_move a ack window
  | stored seq data takes => exact .stored a seq data takes
  | finTaken synced first => exact .finTaken a synced first

/-- How segment() goes on from its ACK: the connection is over, is reset, or
comes to tcp_output. -/
inductive Trail (now : U32) : Conn → Reply → Prop where
  | ended (c : Conn) (gone : c.state = .closed ∨ c.used = false) : Trail now c (quiet c)
  | heard {a b : Conn} {r : Reply} (h : Heard now a b) (rest : Trail now b r) : Trail now a r
  | answers {c : Conn} (rest : Trail now (sendAck c).conn (tcpOutput now (sendAck c).conn)) :
      Trail now c ((sendAck c).andThen (tcpOutput now))
  | closes {c : Conn} {ack : U32} (window : U16) (state : c.state = .lastAck)
      (fin : c.tx.finAcked ack = true) (after : Serial.gt ack c.tx.sndUna = true)
      (upto : Serial.le ack c.tx.sndNxt = true) :
      Trail now c ((acknowledge now c ack).andThen fun c => quiet (takeWindow c ack window))
  | resets (c : Conn) :
      Trail now c ((tcpSendSegment c (tcpRst ||| tcpAck) c.tx.sndNxt []).andThen tcpFree)
  | output (c : Conn) : Trail now c (tcpOutput now c)

theorem Trail.moves {r : Reply} (h : Trail now c r) : Moves rst shut now c r.conn := by
  induction h with
  | ended c => exact .refl c
  | heard h _ ih => exact h.move.moves.trans ih
  | answers _ ih => exact (send_moves _ _ _ _).moves.trans ih
  | closes window state fin after upto =>
    exact (Move.acked _ _ (by rw [state]; rfl) after upto).moves.then (takeWindow_move _ _ window)
  | resets c => exact (Move.freed c).moves
  | output c => exact tcpOutput_moves c

theorem takeWindow_state (c : Conn) (ack : U32) (window : U16) :
    (takeWindow c ack window).state = c.state := by
  unfold takeWindow
  split <;> rfl

theorem acknowledge_goesOn {ack : U32} (synced : c.state.synced)
    (goesOn : ¬(c.tx.finAcked ack ∧ c.state = .lastAck)) :
    ∃ d, acknowledge now c ack = quiet d ∧ d.state.synced := by
  unfold acknowledge
  split
  · exact ⟨_, rfl, rfl⟩
  · exact ⟨_, rfl, rfl⟩
  · rename_i fin state
    exact absurd ⟨fin, state⟩ goesOn
  · exact ⟨_, rfl, synced⟩

/-- The connection with what `ack` acknowledges taken off. -/
def Conn.acked (now : U32) (c : Conn) (ack : U32) : Conn :=
  { c with
    tx := c.tx.dropAcked ack
    timers := c.timers.acked now ack (decide (ack ≠ c.tx.sndNxt)) }

theorem acknowledge_closes {ack : U32} (state : c.state = .lastAck) (fin : c.tx.finAcked ack) :
    acknowledge now c ack = tcpFinish now (c.acked now ack) 0 := by
  simp only [acknowledge, fin, state, Conn.acked]

theorem takeAck_trail (synced : c.state.synced) (ack : U32) (window : U16)
    {f : Conn → Reply} (stops : ∀ d, d.state = .closed → f d = quiet d)
    (rest : ∀ d, d.state.synced → Trail now d (f d)) :
    Trail now c ((takeAck now c ack window).andThen f) := by
  have windowed (d : Conn) (synced : d.state.synced) :
      Trail now d (f (takeWindow d ack window)) := by
    refine .heard (.window d ack window) (rest _ ?_)
    rw [takeWindow_state]
    exact synced
  unfold takeAck
  split
  · rename_i good
    obtain ⟨after, upto⟩ := and_eq_true_iff.mp good
    by_cases last : c.tx.finAcked ack ∧ c.state = .lastAck
    · have closed : (takeWindow (acknowledge now c ack).conn ack window).state = .closed := by
        rw [takeWindow_state, acknowledge_closes last.2 last.1]
        exact tcpFinish_gone now _ 0
      have same (r : Reply) (stops : f r.conn = quiet r.conn) : r.andThen f = r := by
        simp [Reply.andThen, stops, quiet]
      rw [same _ (stops _ closed)]
      exact .closes window last.2 last.1 after upto
    · obtain ⟨d, same, synced'⟩ := @acknowledge_goesOn now c ack synced last
      refine .heard (.acked c ack synced after upto last) ?_
      rw [same]
      exact windowed d synced'
  · exact windowed c synced

theorem State.later_cases (h : s.later) : s.synced ∨ s = .closed := by
  simpa [State.later] using h

theorem segmentText_trail (synced : c.state.synced) (s : Seg) :
    Trail now c (segmentText now c s) := by
  unfold segmentText
  extract_lets took taken fin stored heard
  have ends (d : Conn) : Trail now d ((if took || fin then sendAck d else quiet d).andThen
      (tcpOutput now)) := by
    split
    · exact .answers (.output _)
    · exact .output d
  have finished : Trail now stored ((if took || fin then sendAck heard else quiet heard).andThen
      (tcpOutput now)) := by
    by_cases due : fin
    · have first : stored.rx.finReceived = false := by simpa using (and_eq_true_iff.mp due).2
      have same : heard = takeFin now stored := if_pos due
      rw [same]
      exact .heard (.finTaken stored synced first) (ends _)
    · have same : heard = stored := if_neg due
      rw [same]
      exact ends stored
  by_cases takes : took
  · have same : stored = { c with rx := (takeData c.rx s.seq s.data).1 } := by
      simp only [stored, taken, takes, ↓reduceIte]
    exact .heard (same ▸ .stored c s.seq s.data (and_eq_true_iff.mp takes).2) finished
  · have same : stored = c := by simp only [stored, taken, takes, false_eq_true, ↓reduceIte]
    rw [← same]
    exact finished

theorem segmentOpen_trail (synced : c.state.synced) (s : Seg) :
    Trail now c (segmentOpen now c s) := by
  refine takeAck_trail synced s.ack s.window (fun d closed => ?_) fun d synced => ?_
  · simp [closed]
  · split
    · rename_i gone
      exact .ended d (by simpa using gone)
    split
    · exact .resets d
    · exact segmentText_trail synced s

theorem Verdict.moves {s : Seg} {r : Reply} (h : Verdict True now s c r)
    (allowed : s.has tcpRst → rst) : Moves rst shut now c r.conn := by
  cases h with
  | noted since n segsOut => exact (Move.noted c since n c.segsIn segsOut).moves
  | ended error fault reset => exact (Move.ended c error (allowed reset)).moves
  | freed => exact (Move.freed c).moves
  | answered _ state syn right =>
    rw [right]
    exact (Move.answered c s state).moves.then (send_moves _ _ _ _)
  | crossed _ state => exact (Move.crossed c s state).moves.then (send_moves _ _ _ _)
  | confirmed state right =>
    rw [right]
    exact (Move.confirmed c state).moves.trans (segmentOpen_trail rfl s).moves
  | taken synced => exact (segmentOpen_trail (synced trivial) s).moves

theorem Conn.matches_spec {s : Seg} (h : c.matches s) :
    c.used ∧ c.state ≠ .closed := by
  simp only [Conn.matches, and_eq_true, bne_iff_ne] at h
  exact ⟨h.1.1.1.1.1.1, h.1.1.1.2⟩

/-- A connection that lookup() finds for a segment is past CLOSED and LISTEN. -/
theorem matches_verdict {s : Seg} (h : c.matches s) :
    Verdict True now s c.counted (dispatch now c.counted s) := by
  simp only [Conn.matches, and_eq_true, bne_iff_ne] at h
  exact dispatch_verdict h.1.1.1.1.2 h.1.1.1.2

theorem tcpReceive_moves (c : Conn) (s : Seg) (allowed : s.has tcpRst → rst) :
    Moves rst shut now c (tcpReceive now c s).conn := by
  unfold tcpReceive
  split
  · exact .refl c
  split
  · exact .refl c
  rename_i found
  have counted : Moves rst shut now c c.counted := (Move.noted c _ _ _ _).moves
  exact counted.trans ((matches_verdict (by simpa using found)).moves allowed)

theorem tcpIcmpError_moves (c : Conn) (seq : U32) (err : Int) (allowed : rst) :
    Moves rst shut now c (tcpIcmpError now c seq err).conn := by
  unfold tcpIcmpError
  split
  · exact (Move.ended c _ allowed).moves
  · exact .refl c

/-- Could the arrival end the connection from outside? -/
def Arrival.resets : Arrival → Bool
  | .segment s => s.has tcpRst
  | .unreachable _ _ => true

theorem hear_moves (c : Conn) (a : Arrival) (allowed : a.resets → rst) :
    Moves rst shut now c (hear now c a) := by
  cases a with
  | segment s => exact tcpReceive_moves c s allowed
  | unreachable seq err => exact tcpIcmpError_moves c seq err (allowed rfl)

theorem hears_moves (c : Conn) (arrivals : List Arrival)
    (allowed : ∀ a ∈ arrivals, a.resets → rst) :
    Moves rst shut now c (arrivals.foldl (hear now) c) := by
  induction arrivals generalizing c with
  | nil => exact .refl c
  | cons a rest ih =>
    exact (hear_moves c a (allowed a List.mem_cons_self)).trans
      (ih _ fun b member => allowed b (List.mem_cons_of_mem _ member))

/-! What is drained in a send. -/

/-- Arrivals, each of them one that `ok` admits, in the middle of something. -/
def Drained (ok : Arrival → Bool) (now : U32) (c c' : Conn) : Prop :=
  ∃ arrivals : List Arrival, (∀ a ∈ arrivals, ok a = true) ∧ c' = arrivals.foldl (hear now) c

theorem Drained.refl (ok : Arrival → Bool) (now : U32) (c : Conn) : Drained ok now c c :=
  ⟨[], nofun, rfl⟩

theorem Drained.moves (h : Drained ok now a b)
    (allowed : ∀ arrival, ok arrival → arrival.resets → rst) :
    Moves rst shut now a b := by
  obtain ⟨arrivals, all, rfl⟩ := h
  exact hears_moves a arrivals fun arrival member => allowed arrival (all arrival member)

theorem drain_drained (now : U32) (arrivals : List Arrival) (all : ∀ a ∈ arrivals, ok a)
    (e : Effect) (c : Conn) : Drained ok now c (drain now arrivals e c) := by
  cases e with
  | send s => exact ⟨arrivals, all, rfl⟩
  | dequeue | abortChildren => exact .refl ok now c

/-- Whatever is drained, if output may go on after the connection was ended. -/
theorem meets_drained : Meets True True now (Drained ok now) where
  moves := fun h => h.moves fun _ _ _ => trivial
  leaves := fun _ _ _ _ _ _ => trivial

/-- A whole turn: what its dialog comes to under everything that may be drained. -/
theorem turn_safe {mid post : Conn → Prop} (t : Turn) (quiet : post c)
    (all : ∀ arrivals ∈ t.drained, ∀ a ∈ arrivals, ok a)
    (safe : c.used → (t.act.isCall → c.sock.isSome) →
      (t.act.dialog t.now c).Safe (Drained ok t.now) mid post) : post (c.turn t) := by
  unfold Conn.turn
  split
  · rename_i allowed
    simp only [and_eq_true, or_eq_true, not_eq_true'] at allowed
    refine (safe allowed.1 fun call => ?_).run ?_ _ ?_
    · exact allowed.2.resolve_left fun other => by cases call.symm.trans other
    · exact fun e c _ => drain_drained t.now [] nofun e c
    · exact fun arrivals member e c _ => drain_drained t.now arrivals (all arrivals member) e c
  · exact quiet

section
variable {env : Conn → Conn → Prop} {mid post : Conn → Prop}

/-- A step with at most one effect, then whatever follows from where it is resumed. -/
theorem tell_safe {r : Reply} {next : Conn → Dialog} (calm : ∀ c, env c c) (left : mid r.conn)
    (rest : ∀ d, env r.conn d → (next d).Safe env mid post) : (r.tell next).Safe env mid post := by
  unfold Reply.tell
  split
  · exact rest r.conn (calm _)
  · exact ⟨left, rest⟩

end

end UzOS.Tcp
