import UzOS.Tcp.Sound

/-! A connection's first life: from tcp_new on, through any calls, segments and
ticks, until it is CLOSED again. -/
namespace UzOS.Tcp

open Runs (run)

/-- `opened` says that the connection has left CLOSED. -/
structure Life where
  conn : Conn
  opened : Bool

/-- How a connection comes to be: a socket's, a listener's child, or the child
an ACK with a good SYN cookie makes, while the clock reads `now`. -/
inductive Born (now : U32) : Life → Prop where
  | socket (uid : U32) (sock : Nat) : Born now ⟨{ tcpNew now uid with sock := some sock }, false⟩
  | child (l : Conn) (slot : Nat) (isn : U32) (s : Seg) :
      Born now ⟨(newChild now l slot isn s).conn, true⟩
  | cookie (l : Conn) (slot : Nat) (mss : U16) (s : Seg) (good : mss ≠ 0) :
      Born now ⟨(cookieChild now l slot mss s).conn, true⟩

/-- CLOSED again. -/
def Life.over (w : Life) : Bool := w.opened && w.conn.state == .closed

/-- Does the turn make the connection leave CLOSED? -/
def Turn.opens (t : Turn) (c : Conn) : Bool :=
  match t.act with
  | .connect _ _ route ephemeral _ => c.used && c.sock.isSome && c.opens route ephemeral
  | _ => false

def Life.step (w : Life) (t : Turn) : Life :=
  if w.over then w
  else
    let c := w.conn.turn t
    ⟨c, w.opened || t.opens w.conn || c.state != .closed⟩

/-- What holds of a connection at any time of its first life. -/
structure Invariant (c : Conn) : Prop where
  sndLen : c.tx.sndLen ≤ 8192
  rcvLen : c.rx.rcvLen ≤ 8192
  rcvHead : c.rx.rcvHead < 8192
  flight : c.state.outputs = true → (c.tx.sndNxt - c.tx.sndUna).toNat ≤ c.tx.sndLen + c.tx.finSent.toNat
  unsent : c.state.outputs = true → c.tx.finSent = false →
    c.unsent.toNat = c.tx.sndLen - (c.tx.sndNxt - c.tx.sndUna).toNat
  finWanted : c.tx.finSent = true → c.tx.finWanted = true
  finUnsent : c.state = .established ∨ c.state = .closeWait → c.tx.finSent = false
  drained : c.state = .finWait2 ∨ c.state = .timeWait →
    c.tx.sndUna = c.tx.sndNxt ∧ c.tx.sndLen = 0
  finReceived : c.rx.finReceived = true ↔
    c.state = .closeWait ∨ c.state = .closing ∨ c.state = .lastAck ∨ c.state = .timeWait

theorem State.finSeen_iff (s : State) :
    s.finSeen ↔ s = .closeWait ∨ s = .closing ∨ s = .lastAck ∨ s = .timeWait := by
  cases s <;> simp [State.finSeen]

theorem Sound.invariant {c : Conn} (h : Sound c) (heard : c.rx.finReceived = c.state.finSeen) :
    Invariant c where
  sndLen := h.fit.room
  rcvLen := h.rcvLen
  rcvHead := h.rcvHead
  flight := fun outputs => h.fit.near (State.synced_of_outputs outputs)
  unsent := fun outputs waits => h.fit.unsent outputs waits
  finWanted := h.fit.wanted
  finUnsent := h.early
  drained := fun state => by
    have drained : c.state.drained := by rcases state with e | e <;> rw [e] <;> rfl
    exact ⟨(h.fit.drained drained).2.symm, h.empty drained⟩
  finReceived := by rw [heard]; exact State.finSeen_iff _

/-- Nobody asked for a FIN: none is sent, and no state that waits for its
acknowledgment is reached. -/
def Conn.Unasked (c : Conn) : Prop :=
  c.tx.finWanted = false ∧ c.tx.finSent = false ∧ c.state.drained = false

theorem Move.unasked {rst shut : Prop} {now : U32} {a b : Conn} (h : Move rst shut now a b)
    (un : a.Unasked) : b.Unasked := by
  obtain ⟨wanted, sent, other⟩ := un
  cases h with
  | noted | window | stored => exact ⟨wanted, sent, other⟩
  | blocked =>
    obtain ⟨state, tx, -⟩ := armTimer_same now a
    unfold Conn.Unasked
    rw [state, tx]
    exact ⟨wanted, sent, other⟩
  | piece =>
    obtain ⟨state, tx, -⟩ := piece_same now a
    unfold Conn.Unasked
    rw [state, tx]
    exact ⟨wanted, sent, other⟩
  | fin later live asked => cases wanted.symm.trans asked
  | acked ack =>
    have notFin : a.tx.finAcked ack = false := by simp [Tx.finAcked, sent]
    unfold acknowledge
    rw [notFin]
    exact ⟨wanted, sent, other⟩
  | finTaken synced =>
    obtain ⟨-, drained, tx, -⟩ := takeFin_same now synced
    unfold Conn.Unasked
    rw [drained, tx]
    exact ⟨wanted, sent, other⟩
  | confirmed | answered | crossed => exact ⟨wanted, sent, rfl⟩
  | ended error =>
    unfold tcpFinish
    dsimp only
    split
    · exact ⟨wanted, sent, rfl⟩
    · exact ⟨rfl, rfl, rfl⟩
  | freed => exact ⟨rfl, rfl, rfl⟩

/-- Until it has left CLOSED a connection is as new. -/
structure Life.Held (w : Life) : Prop where
  sound : Sound w.conn
  calm : w.conn.Calm
  fresh : w.opened = false → w.conn.state = .closed ∧ Fresh w.conn

/-! How it begins. -/

variable (now : U32) (l : Conn) (slot : Nat) (mss : U16) (s : Seg) {w : Life}

theorem tcpNew_held (uid : U32) (sock : Nat) :
    Life.Held ⟨{ tcpNew now uid with sock := some sock }, false⟩ where
  sound := zero_sound.of_idle (.of_closed zero_le nofun) (.inl rfl) rfl rfl
    nofun
  calm := .of_other rfl
  fresh := fun _ => ⟨rfl, rfl, rfl, rfl, rfl, rfl⟩

theorem childConn_sound (isn : U32) (s : Seg) : Sound (childConn now l slot isn s) where
  fit := .of_opening rfl zero_le nofun ⟨rfl, rfl⟩
  rcvLen := zero_le
  rcvHead := by show 0 < tcpBufSize; decide
  fresh := fun _ => ⟨rfl, rfl⟩
  early := fun e => by rcases e with e | e <;> cases e
  all := nofun
  empty := nofun
  heard := fun _ => rfl

theorem newChild_held (isn : U32) (s : Seg) :
    Life.Held ⟨(newChild now l slot isn s).conn, true⟩ := by
  obtain ⟨state, tx, rx, -⟩ :=
    armTimer_same now (tcpSendSegment (childConn now l slot isn s) (tcpSyn ||| tcpAck) isn []).conn
  exact {
    sound := (childConn_sound now l slot isn s).same state tx rx
    calm := .of_other (congrArg State.drained state)
    fresh := nofun }

theorem cookieConn_sound : Sound (cookieConn now l slot mss s) where
  fit := by
    refine .of_outputs rfl zero_le nofun (fun _ => ?_)
      nofun nofun
    show (s.ack - s.ack).toNat ≤ 0
    simp
  rcvLen := zero_le
  rcvHead := by show 0 < tcpBufSize; decide
  fresh := nofun
  early := fun _ => rfl
  all := nofun
  empty := nofun
  heard := fun _ => rfl

theorem cookieChild_moves {shut : Prop} :
    Moves True shut now (cookieConn now l slot mss s) (cookieChild now l slot mss s).conn := by
  unfold cookieChild
  split
  · exact (segment_verdict fun _ => .inr rfl).moves fun _ => trivial
  · exact .refl _

theorem cookieChild_held : Life.Held ⟨(cookieChild now l slot mss s).conn, true⟩ := by
  have sound := cookieConn_sound now l slot mss s
  have calm : (cookieConn now l slot mss s).Calm := .of_other rfl
  have steps : Steps True True now _ _ := (Steps.refl _).moves (cookieChild_moves now l slot mss s)
  obtain ⟨sound, calm⟩ := steps.sound sound calm
  exact ⟨sound, calm, nofun⟩

theorem Born.held {now : U32} (h : Born now w) : w.Held := by
  cases h with
  | socket uid sock => exact tcpNew_held now uid sock
  | child l slot isn s => exact newChild_held now l slot isn s
  | cookie l slot mss s => exact cookieChild_held now l slot mss s

/-! How it goes on. -/

/-- Whatever is drained in a turn of a first life, and whenever it is. -/
theorem Life.Held.dialog (h : w.Held) (alive : w.over = false) (used : w.conn.used)
    (now : U32) (act : Act) :
    (act.dialog now w.conn).Safe (Drained (fun _ => true) now) (Steps True True now w.conn)
      (Steps True True now w.conn) := by
  refine dialog_steps meets_drained (Drained.refl _ now) used act (fun _ closed => ?_) ?_
  · cases opened : w.opened with
    | false => exact (h.fresh opened).2
    | true => simp [Life.over, opened, closed] at alive
  · intro a b _ state unasked drained
    have start : a.Unasked := ⟨(unasked trivial).1, (unasked trivial).2, by rw [state]; rfl⟩
    have moves : Moves True True now a b := drained.moves fun _ _ _ => trivial
    exact ⟨(moves.keeps start fun move => move.unasked).2.2, .inr trivial⟩

theorem free_run (c : Conn) (drained : List (List Arrival)) :
    ((tcpFree c).tell .done).run (drain now) [] drained = .zero := by
  unfold tcpFree Reply.tell
  cases c.listener <;> rfl

/-- A connection that was not opened is as new after any turn that does not open it. -/
theorem turn_fresh {c : Conn} (closed : c.state = .closed) (fresh : Fresh c) (t : Turn)
    (unopened : t.opens c = false) (still : (c.turn t).state = .closed) : Fresh (c.turn t) := by
  obtain ⟨now, act, drained⟩ := t
  unfold Conn.turn at still ⊢
  split at still
  · rename_i allowed
    rw [if_pos allowed]
    cases act with
    | bind ip port =>
      show Fresh (if c.localPort = 0 then _ else _)
      split
      · exact { fresh with }
      · exact fresh
    | listen backlog ephemeral =>
      change (tcpListen now c backlog ephemeral).2.state = .closed at still
      show Fresh (tcpListen now c backlog ephemeral).2
      unfold tcpListen at still ⊢
      split
      · exact fresh
      rename_i listens
      rw [if_neg listens] at still
      split
      · exact fresh
      rename_i named
      rw [named] at still
      cases still
    | connect ip port route ephemeral isn =>
      have never : c.opens route ephemeral = false := by
        simp only [Bool.and_eq_true, Bool.or_eq_true] at allowed
        have held := allowed.2.resolve_left nofun
        simpa [Turn.opens, allowed.1, held] using unopened
      have same : (tcpConnectTalk now c ip port route ephemeral isn).2 = .done c := by
        unfold tcpConnectTalk
        rw [if_neg (not_not.mpr closed)]
        cases route with
        | none => rfl
        | some src =>
          have bound : c.localPort = 0 ∧ ephemeral = none := by
            simpa [Conn.opens, closed] using never
          simp [bound.1, bound.2]
      show Fresh ((tcpConnectTalk now c ip port route ephemeral isn).2.run _ _ _)
      rw [same]
      exact fresh
    | accept sock =>
      have same : tcpAcceptTalk now c sock = .done c := by simp [tcpAcceptTalk, Conn.ready, closed]
      show Fresh ((tcpAcceptTalk now c sock).run _ _ _)
      rw [same]
      exact fresh
    | send buf =>
      have same : (tcpSendTalk now c buf).2 = .done c := by simp [tcpSendTalk, closed]
      show Fresh ((tcpSendTalk now c buf).2.run _ _ _)
      rw [same]
      exact fresh
    | recv len peek =>
      show Fresh (((tcpRecv c len peek).2.2.tell .done).run _ _ _)
      unfold tcpRecv
      split
      · exact fresh
      dsimp only
      split
      · exact fresh
      have deaf : c.state.takesData = false := by rw [closed]; rfl
      rw [deaf, Bool.and_false]
      exact { fresh with }
    | shutdownWrite =>
      have same : tcpShutdownWriteTalk now c = .done c := by simp [tcpShutdownWriteTalk, closed]
      show Fresh ((tcpShutdownWriteTalk now c).run _ _ _)
      rw [same]
      exact fresh
    | close =>
      have same : tcpCloseTalk now c = (tcpFree { c with sock := none }).tell .done := by
        simp [tcpCloseTalk, closed]
      show Fresh ((tcpCloseTalk now c).run _ _ _)
      rw [same, free_run]
      exact ⟨rfl, rfl, rfl, rfl, rfl⟩
    | arrive a =>
      have same : hear now c a = c := by
        cases a with
        | segment s =>
          have other : c.matches s = false := by simp [Conn.matches, closed]
          simp only [hear, tcpReceive, other]
          split <;> rfl
        | unreachable seq err => simp [hear, tcpIcmpError, closed]
      show Fresh (hear now c a)
      rw [same]
      exact fresh
    | tick =>
      have same : tcpTickTalk now c = .done c := by simp [tcpTickTalk, closed, fresh.rtxAt]
      show Fresh ((tcpTickTalk now c).run _ _ _)
      rw [same]
      exact fresh
  · rename_i refused
    rw [if_neg refused]
    exact fresh

theorem Life.Held.step (h : w.Held) (t : Turn) : (w.step t).Held := by
  unfold Life.step
  split
  · exact h
  rename_i alive
  rw [Bool.not_eq_true] at alive
  have steps : Steps True True t.now w.conn (w.conn.turn t) :=
    turn_safe t (.refl _) (fun _ _ _ _ => rfl) fun used _ => h.dialog alive used t.now t.act
  obtain ⟨sound, calm⟩ := steps.sound h.sound h.calm
  refine ⟨sound, calm, fun unopened => ?_⟩
  simp only [Bool.or_eq_false_iff, bne_eq_false_iff_eq] at unopened
  obtain ⟨⟨never, now⟩, closed⟩ := unopened
  exact ⟨closed, turn_fresh (h.fresh never).1 (h.fresh never).2 t now closed⟩

theorem Life.Held.run (h : w.Held) (turns : List Turn) : (run Life.step w turns).Held := by
  induction turns generalizing w with
  | nil => exact h
  | cons t rest ih => exact ih (h.step t)

theorem Life.Held.invariant (h : w.Held) (alive : w.over = false) : Invariant w.conn := by
  refine h.sound.invariant ?_
  by_cases closed : w.conn.state = .closed
  · have opened : w.opened = false := by
      cases opened : w.opened with
      | false => rfl
      | true => simp [Life.over, opened, closed] at alive
    rw [(h.fresh opened).2.finReceived, closed]
    rfl
  · exact h.sound.heard closed

/-- In every state of a connection's first life the invariant holds, and it
holds too whenever one of its sends lets segments in, unless one of those has
ended it. -/
theorem connection_invariant (w : Life) (now : U32) (born : Born now w) (turns : List Turn)
    (alive : (run Life.step w turns).over = false) :
    Invariant (run Life.step w turns).conn ∧
    ((run Life.step w turns).conn.used = true → ∀ (now : U32) (act : Act),
      (act.dialog now (run Life.step w turns).conn).Safe (Drained (fun _ => true) now)
        (fun c => c.state ≠ .closed → Invariant c) fun c => c.state ≠ .closed → Invariant c) := by
  have held := born.held.run turns
  refine ⟨held.invariant alive, fun used now act => (held.dialog alive used now act).imp ?_ ?_⟩
  all_goals
    intro c steps open_
    have sound := (steps.sound held.sound held.calm).1
    exact sound.invariant (sound.heard open_)

/-- A segment of the peer on lo in the runs below. -/
def loSegment (seq ack : U32) (flags : U8) : Arrival :=
  .segment ⟨0x7f000001, 0x7f000001, 80, 1000, seq, ack, flags, 1000, [], []⟩

/-- A connection to oneself: every answer is there before the send returns. -/
def loTurns : List Turn :=
  [⟨5, .bind 0x7f000001 1000, []⟩,
   ⟨10, .connect 0x7f000001 80 (some 0x7f000001) none 100, [[loSegment 500 101 (tcpSyn ||| tcpAck)]]⟩,
   ⟨20, .send [1, 2, 3], [[loSegment 501 104 tcpAck]]⟩,
   ⟨30, .shutdownWrite, [[loSegment 501 105 tcpAck]]⟩]

def loLife : Life := ⟨{ tcpNew 0 0 with sock := some 7 }, false⟩

theorem connection_invariant_lo :
    (run Life.step loLife loTurns).conn.state = .finWait2 ∧
    Invariant (run Life.step loLife loTurns).conn :=
  ⟨by decide +kernel, (connection_invariant loLife 0 (.socket 0 7) loTurns (by decide +kernel)).1⟩

end UzOS.Tcp
