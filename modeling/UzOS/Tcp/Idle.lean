import UzOS.Tcp.Watch

/-! An armed timer means that something is outstanding, as long as no answer is
handled between a send and the arming of its timer: then a connection with
nothing to wait for is not retransmitted on and does not time out. -/
namespace UzOS.Tcp

open Runs (run)

/-- An unacknowledged SYN, data or FIN, or data held back by a closed window. -/
def Conn.outstanding (c : Conn) : Bool :=
  c.state.opening ||
    (c.state.outputs && (c.tx.sndNxt != c.tx.sndUna ||
      (!c.tx.finSent && c.unsent != 0 && c.room == 0)))

/-- In the middle of a function: something was sent, or is about to be. -/
def Conn.Busy (c : Conn) : Prop :=
  c.state.opening = true ∨ (c.state.outputs = true ∧ (c.tx.sndNxt ≠ c.tx.sndUna ∨
    (c.tx.finSent = false ∧ (c.tx.sndLen ≠ 0 ∨ c.tx.finWanted = true))))

structure Idle (c : Conn) : Prop where
  fit : Fit c.state c.tx
  timed : Timed c
  busy : c.timers.rtxAt ≠ 0 → c.Busy

variable {c a b : Conn} {now : U32}

theorem Conn.Busy.same {d : Conn} (h : c.Busy) (state : d.state = c.state) (tx : d.tx = c.tx) :
    d.Busy := by
  unfold Conn.Busy
  rw [state, tx]
  exact h

theorem Conn.Busy.open_ (h : c.Busy) : c.state ≠ .closed ∧ c.state ≠ .listen ∧
    c.state.drained = false := by
  rcases h with opening | ⟨outputs, -⟩
  · obtain ⟨listen, -, drained, closed⟩ := State.opening_only opening
    exact ⟨closed, listen, drained⟩
  obtain ⟨listen, -, drained, closed⟩ := State.outputs_only outputs
  exact ⟨closed, listen, drained⟩

/-- Output that waits for its FIN is in a state to output. -/
theorem Fit.outputs (fit : Fit c.state c.tx) (later : c.state.later)
    (live : c.state = .closed → False) (waits : c.tx.finSent = false) :
    c.state.outputs := by
  cases outputs : c.state.outputs with
  | true => rfl
  | false =>
    rcases State.later_silent later outputs with drained | closed
    · cases waits.symm.trans (fit.drained drained).1
    · exact (live closed).elim

theorem Fit.held (fit : Fit c.state c.tx) (outputs : c.state.outputs)
    (waits : c.tx.finSent = false) (held : c.unsent ≠ 0) : c.tx.sndLen ≠ 0 := by
  have unsent := fit.unsent outputs waits
  intro none
  rw [none, Nat.zero_sub] at unsent
  exact held (BitVec.eq_of_toNat_eq unsent)

theorem Move.busy {rst : Prop} (h : Move rst False now a b) (fit : Fit a.state a.tx)
    (busy : a.timers.rtxAt ≠ 0 → a.Busy) : b.timers.rtxAt ≠ 0 → b.Busy := by
  cases h with
  | noted | stored => exact fun e => (busy e).same rfl rfl
  | blocked later live waits held =>
    obtain ⟨state, tx, -⟩ := armTimer_same now a
    have outputs := fit.outputs later live waits
    have start : a.Busy := .inr ⟨outputs, .inr ⟨waits, .inl (fit.held outputs waits held)⟩⟩
    exact fun _ => start.same state tx
  | piece later live waits held =>
    obtain ⟨state, tx, -⟩ := piece_same now a
    have outputs := fit.outputs later live waits
    intro _
    refine .inr ⟨by rw [state]; exact outputs, .inr ?_⟩
    rw [tx]
    exact ⟨waits, .inl (fit.held outputs waits held)⟩
  | fin later live wanted waits out =>
    have outputs := fit.outputs later live waits
    obtain ⟨state, tx, -⟩ := armTimer_same now (finOut now a)
    obtain ⟨tx', -, -, outputs', -⟩ := finOut_spec now outputs
    have room := fit.room
    simp only [tcpBufSize] at room
    intro _
    refine .inr ⟨by rw [state]; exact outputs', .inl ?_⟩
    rw [tx, tx']
    unfold Conn.flight at out
    bv_omega
  | acked ack synced after upto =>
    have to_ := fit.acknowledged synced (fit.acked synced after upto) now
    generalize (acknowledge now a ack).conn = d at to_
    cases to_ with
    | part outputs =>
      refine fun e => .inr ⟨outputs, .inl fun same => e ?_⟩
      have all : ack = a.tx.sndNxt := same.symm
      simp [Conn.acked, Timers.acked, all]
    | all _ _ _ off => exact fun e => absurd off e
    | ended =>
      unfold tcpFinish
      dsimp only
      split <;> exact fun e => absurd rfl e
  | window => exact busy
  | finTaken synced first =>
    obtain ⟨same, -, tx, -, timers, -⟩ := takeFin_same now synced
    rw [timers]
    intro e
    rcases busy e with opening | ⟨outputs, some⟩
    · simp [State.synced, State.opening_only opening] at synced
    · exact .inr ⟨same ▸ outputs, by rw [tx]; exact some⟩
  | confirmed | answered | freed => exact fun e => absurd rfl e
  | crossed => exact fun _ => .inl rfl
  | ended error =>
    unfold tcpFinish
    dsimp only
    split <;> exact fun e => absurd rfl e

theorem Deed.busy (h : Deed False False now a b) (fit : Fit a.state a.tx)
    (busy : a.timers.rtxAt ≠ 0 → a.Busy) : b.timers.rtxAt ≠ 0 → b.Busy := by
  cases h with
  | bound | given | released | counted | read => exact fun e => (busy e).same rfl rfl
  | listens backlog used state =>
    intro e
    obtain ⟨closed, listen, -⟩ := (busy e).open_
    rcases state with s | s
    · exact absurd s closed
    · exact absurd s listen
  | opens => exact fun _ => .inl rfl
  | armed open_ due =>
    refine fun _ => .inl ?_
    rw [(armTimer_same now a).1, due.resolve_right id]
    rfl
  | enqueued bytes state wanted fits =>
    intro e
    rcases busy e with opening | ⟨outputs, flies | ⟨waits, some⟩⟩
    · exact .inl opening
    · exact .inr ⟨outputs, .inl flies⟩
    exact .inr ⟨outputs, .inr ⟨waits, some.imp_left fun n => by
      show a.tx.sndLen + bytes.length ≠ 0
      omega⟩⟩
  | wantsFin state =>
    intro e
    rcases busy e with opening | ⟨outputs, flies | ⟨waits, some⟩⟩
    · exact .inl opening
    · exact .inr ⟨outputs, .inl flies⟩
    · exact .inr ⟨outputs, .inr ⟨waits, .inr rfl⟩⟩
  | retried n due => exact fun _ => (busy due).same rfl rfl
  | wentBack n due open_ =>
    intro _
    rcases busy due with opening | ⟨outputs, some⟩
    · cases open_.symm.trans opening
    refine .inr ⟨outputs, .inr ⟨rfl, ?_⟩⟩
    show a.tx.sndLen ≠ 0 ∨ a.tx.finWanted
    rcases some with flies | ⟨-, some⟩
    · cases sent : a.tx.finSent with
      | true => exact .inr (fit.wanted sent)
      | false =>
        have flight := fit.flight outputs sent
        refine .inl fun none => flies ?_
        bv_omega
    · exact some

theorem Step.idle (h : Step False False now a b) (idle : Idle a) : Idle b := by
  cases h with
  | move m => exact ⟨m.fit idle.fit, m.timed idle.timed, m.busy idle.fit idle.busy⟩
  | deed d =>
    have fit := d.fit idle.fit fun due => (idle.busy due).open_.2.2
    exact ⟨fit, d.timed idle.timed, d.busy idle.fit idle.busy⟩

/-! What is drained leaves output alone, unless it resets the connection. -/

/-- A connection that was not reset is CLOSED with its output done. -/
def Conn.Wound (c : Conn) : Prop :=
  c.state.later = true ∧
    (c.state = .closed → c.tx.finSent = true ∨ (c.unsent = 0 ∧ c.tx.finWanted = false))

theorem Conn.Wound.zero : Conn.Wound .zero := ⟨rfl, fun _ => .inr ⟨by decide, rfl⟩⟩

theorem Move.wound (h : Move False False now a b) (wound : a.Wound) : b.Wound := by
  refine ⟨h.later wound.1, ?_⟩
  have done := wound.2
  cases h with
  | noted | window | stored => exact done
  | blocked later live =>
    intro closed
    rw [(armTimer_same now a).1] at closed
    exact (live closed).elim
  | piece later live =>
    intro closed
    exact (live ((piece_same now a).1.symm.trans closed)).elim
  | fin =>
    intro _
    rw [(armTimer_same now _).2.1]
    refine .inl ?_
    unfold finOut
    cases a.state <;> rfl
  | acked ack synced =>
    intro closed
    unfold acknowledge at closed ⊢
    split at closed
    · cases closed
    · cases closed
    · rename_i fin state
      have sent : a.tx.finSent := by
        simp only [Tx.finAcked, Bool.and_eq_true] at fin
        exact fin.1
      unfold tcpFinish
      dsimp only
      split
      · exact .inl sent
      · exact Conn.Wound.zero.2 rfl
    · change a.state = .closed at closed
      rw [closed] at synced
      cases synced
  | finTaken synced =>
    intro closed
    unfold takeFin at closed
    cases state : a.state <;> rw [state] at synced closed <;>
      first | (cases synced; done) | cases closed
  | confirmed | answered | crossed => exact fun e => by cases e
  | ended error allowed => exact allowed.elim
  | freed => exact fun _ => Conn.Wound.zero.2 rfl

/-- An arrival that cannot end the connection from outside. -/
def Arrival.tame (a : Arrival) : Bool := !a.resets

theorem meets_tame : Meets True False now (Drained Arrival.tame now) where
  moves := fun h => h.moves fun _ _ _ => trivial
  leaves := fun {a b} h later live => by
    have moves : Moves False False now a b := h.moves fun arrival tame resets => by
      simp [Arrival.tame, resets] at tame
    have wound : b.Wound := moves.keeps ⟨later, fun e => (live e).elim⟩ fun move => move.wound
    intro closed waits some
    rcases wound.2 closed with sent | ⟨none, unasked⟩
    · cases waits.symm.trans sent
    rcases some with held | wanted
    · exact held none
    · cases unasked.symm.trans wanted

theorem Drained.none (h : Drained (fun _ => false) now a b) : b = a := by
  obtain ⟨arrivals, all, rfl⟩ := h
  cases arrivals with
  | nil => rfl
  | cons arrival rest => cases all arrival List.mem_cons_self

theorem meets_none : Meets True False now (Drained (fun _ => false) now) where
  moves := fun h => h.moves fun _ _ _ => trivial
  leaves := fun h _ live closed _ _ => live (h.none ▸ closed)

/-! At rest what keeps the timer running is out, or held back. -/

theorem outstanding_iff (c : Conn) : c.outstanding ↔
    c.state.opening ∨ (c.state.outputs ∧ (c.tx.sndNxt ≠ c.tx.sndUna ∨
      (c.tx.finSent = false ∧ c.unsent ≠ 0 ∧ c.room = 0))) := by
  simp [Conn.outstanding, and_assoc]

theorem outstanding_same {d : Conn} (state : d.state = c.state) (tx : d.tx = c.tx) :
    d.outstanding = c.outstanding := by
  unfold Conn.outstanding Conn.unsent Conn.room Conn.flight
  rw [state, tx]

theorem Conn.Busy.outstanding (h : c.Busy) (fit : Fit c.state c.tx)
    (rested : c.state.outputs → c.Rested False) : c.outstanding := by
  rw [outstanding_iff]
  rcases h with opening | ⟨outputs, flies | ⟨waits, some⟩⟩
  · exact .inl opening
  · exact .inr ⟨outputs, .inl flies⟩
  refine .inr ⟨outputs, ?_⟩
  rcases rested outputs with sent | ⟨out, unasked⟩ | ⟨held, full, -⟩
  · cases waits.symm.trans sent
  · have len := some.resolve_right fun e => by cases unasked.symm.trans e
    refine .inl fun same => len ?_
    have all := fit.unsent_landed same
    rw [out] at all
    exact all.symm
  · exact .inr ⟨waits, held, full⟩

/-- A timer that runs has something to wait for. -/
def Conn.Waits (c : Conn) : Prop := c.timers.rtxAt ≠ 0 → c.outstanding = true

theorem idle_restful : Restful False False False now Idle Conn.Waits where
  step := fun step idle => step.idle idle
  fit := fun idle => idle.fit
  times := fun {c} idle => {
    mss := fun outputs => idle.timed.mss (idle.timed.used (State.outputs_only outputs).2.2.2)
    arms := fun live => live.elim }
  rests := fun idle rested due => (idle.busy due).outstanding idle.fit rested
  same := fun q state tx rtx due => (outstanding_same state tx).trans (q (rtx ▸ due))
  answered := fun _ _ _ _ rtx _ _ due => absurd rtx due
  armed := fun {c} _ _ due _ => by
    rw [outstanding_iff, (armTimer_same now c).1, due.resolve_right id]
    exact .inl rfl
  retried := fun _ _ q due _ => (outstanding_same rfl rfl).trans (q due)

/-- What the turn drains comes too early for nobody: a connect drains nothing,
and no other call anything that resets the connection. -/
def Turn.prompt (t : Turn) : Bool :=
  t.drained.all fun arrivals => arrivals.all fun a => !t.act.connects && a.tame

structure Conn.Quiet (c : Conn) : Prop where
  idle : Idle c
  rested : c.Waits

theorem Conn.Quiet.turn_of (h : c.Quiet) (t : Turn) {ok : Arrival → Bool}
    (meets : Meets True False t.now (Drained ok t.now))
    (all : ∀ arrivals ∈ t.drained, ∀ a ∈ arrivals, ok a)
    (late : ∀ a b, t.act.connects → a.state = .synSent → Drained ok t.now a b →
      b.state = .synSent) : (c.turn t).Quiet := by
  have never : False → c.state = .closed → Fresh c := False.elim
  have steps : Steps False False t.now c (c.turn t) := by
    refine turn_safe t (.refl c) all fun used _ =>
      dialog_steps meets (Drained.refl _ _) used t.act never fun a b connects state _ drained => ?_
    have still := late a b connects state drained
    exact ⟨by rw [still]; rfl, .inl still⟩
  have rests (used : c.used) :=
    idle_restful.dialog meets h.idle h.rested used t.act never
      fun a b connects state drained => .inl (late a b connects state drained)
  exact ⟨idle_restful.steps steps h.idle, turn_safe t h.rested all fun used _ => rests used⟩

theorem Conn.Quiet.turn (h : c.Quiet) (t : Turn) (prompt : t.prompt) : (c.turn t).Quiet := by
  simp only [Turn.prompt, List.all_eq_true, Bool.and_eq_true, Bool.not_eq_true'] at prompt
  cases connects : t.act.connects with
  | false =>
    refine h.turn_of t meets_tame (fun arrivals member a inside => ?_) fun _ _ e => ?_
    · exact (prompt arrivals member a inside).2
    · cases connects.symm.trans e
  | true =>
    refine h.turn_of t meets_none (fun arrivals member a inside => ?_) fun _ _ _ state drained => ?_
    · cases (prompt arrivals member a inside).1.symm.trans connects
    · rw [drained.none]
      exact state

theorem Conn.Quiet.run (h : c.Quiet) (turns : List Turn) (prompt : ∀ t ∈ turns, t.prompt) :
    (run Conn.turn c turns).Quiet := by
  induction turns generalizing c with
  | nil => exact h
  | cons t rest ih =>
    exact ih (h.turn t (prompt t List.mem_cons_self)) fun u member =>
      prompt u (List.mem_cons_of_mem _ member)

theorem Conn.Quiet.off (idle : Idle c) (off : c.timers.rtxAt = 0) : c.Quiet :=
  ⟨idle, fun due => absurd off due⟩

theorem Born.quiet {w : Life} (h : Born now w) : w.conn.Quiet := by
  have fit := h.held.sound.fit
  cases h with
  | socket uid sock =>
    have timed := (tcpNew_timed now uid).same (b := { tcpNew now uid with sock := some sock })
      nofun rfl rfl rfl
    exact .off ⟨fit, timed, fun due => absurd rfl due⟩ rfl
  | child l slot isn s =>
    obtain ⟨state, tx, -, used, -⟩ :=
      armTimer_same now (tcpSendSegment (childConn now l slot isn s) (tcpSyn ||| tcpAck) isn []).conn
    have opening : (newChild now l slot isn s).conn.state.opening := by rfl
    have timed := (childConn_timed now l slot isn s).same (b := (newChild now l slot isn s).conn)
      (fun e => by cases used.symm.trans e) used (congrArg Tx.mss tx) (armTimer_rto now _)
    exact ⟨⟨fit, timed, fun _ => .inl opening⟩, fun _ => (outstanding_iff _).mpr (.inl opening)⟩
  | cookie l slot mss s good =>
    have watchful := cookieConn_watchful now l slot mss s good
    have start : Idle (cookieConn now l slot mss s) :=
      ⟨watchful.sound.fit, watchful.timed, fun due => absurd rfl due⟩
    have wait : (cookieConn now l slot mss s).Waits := fun due => absurd rfl due
    have idle := idle_restful.moves (cookieChild_moves now l slot mss s) start
    exact ⟨idle, idle_restful.ends start wait idle (cookieChild_ends now l slot mss s)⟩

/-- A tick with the timer off sends nothing and gives up on nothing. -/
theorem tick_off (off : c.timers.rtxAt = 0) (now : U32) :
    (tcpTick now c).sent = [] ∧
    ((tcpTick now c).conn = c ∨ (tcpTick now c).conn = .zero ∨
      (tcpTick now c).conn = (tcpFinish now c 0).conn) := by
  have freed : (tcpFree c).sent = [] ∧ (tcpFree c).conn = .zero := by
    unfold tcpFree
    cases c.listener <;> exact ⟨rfl, rfl⟩
  unfold tcpTick
  dsimp only
  split
  · exact ⟨rfl, .inl rfl⟩
  split
  · split
    · rename_i held
      have stays : (tcpSetState now c .closed).sock.isSome := held
      refine ⟨?_, .inr (.inr rfl)⟩
      unfold tcpFinish
      rw [if_pos stays]
      rfl
    · exact ⟨freed.1, .inr (.inl freed.2)⟩
  · split
    · exact ⟨freed.1, .inr (.inl freed.2)⟩
    simp only [off]
    exact ⟨rfl, .inl rfl⟩

/-- In a run in which nothing is drained in a connect and no reset in any other
call, a timer that runs has something outstanding to wait for. With nothing
outstanding a tick leaves the connection, frees it or ends it without an error:
it is not retransmitted on and does not end with ETIMEDOUT. -/
theorem idle_never_times_out (w : Life) (now : U32) (born : Born now w) (turns : List Turn)
    (prompt : ∀ t ∈ turns, t.prompt = true) :
    ((run Conn.turn w.conn turns).timers.rtxAt ≠ 0 → (run Conn.turn w.conn turns).outstanding = true) ∧
    ((run Conn.turn w.conn turns).outstanding = false → ∀ now : U32,
      (tcpTick now (run Conn.turn w.conn turns)).sent = [] ∧
      ((tcpTick now (run Conn.turn w.conn turns)).conn = run Conn.turn w.conn turns ∨
        (tcpTick now (run Conn.turn w.conn turns)).conn = .zero ∨
        (tcpTick now (run Conn.turn w.conn turns)).conn =
          (tcpFinish now (run Conn.turn w.conn turns) 0).conn)) := by
  have quiet := born.quiet.run turns prompt
  refine ⟨quiet.rested, fun none now => tick_off ?_ now⟩
  by_contra due
  cases none.symm.trans (quiet.rested due)

/-- An exchange of bytes that ends with everything acknowledged. -/
def exchangeTurns : List Turn :=
  sendingTurns 5000 ++ [⟨5010, .arrive (loSegment 501 104 tcpAck), []⟩]

theorem exchange_never_times_out :
    (run Conn.turn loLife.conn exchangeTurns).state = .established ∧
    (tcpTick 90000 (run Conn.turn loLife.conn exchangeTurns)).sent = [] :=
  ⟨by decide +kernel,
    ((idle_never_times_out loLife 0 (.socket 0 7) exchangeTurns (by decide)).2 (by decide +kernel)
      90000).1⟩

/-- The ticks at which the retransmissions of a SYN sent at 10 fall due. -/
def lateTicks : List Turn :=
  [1010, 3010, 7010, 15010, 31010, 61010, 91010, 121010, 151010].map fun now => ⟨now, .tick, []⟩

/-- Two pieces of output, and a reset that is drained after the first. -/
def resetTurn : Turn :=
  ⟨6000, .send (List.replicate 600 0), [[loSegment 501 104 (tcpRst ||| tcpAck)]]⟩

/-- Over lo the SYN's answer is handled before tcp_connect arms the timer: the
connection is established, waits for nothing and ends with ETIMEDOUT. And a
reset drained after the first of two pieces leaves the timer armed when CLOSED. -/
theorem idle_times_out :
    ((run Conn.turn loLife.conn (loTurns.take 2)).state = .established ∧
      (run Conn.turn loLife.conn (loTurns.take 2)).outstanding = false ∧
      (run Conn.turn loLife.conn (loTurns.take 2)).timers.rtxAt ≠ 0 ∧
      (run Conn.turn loLife.conn (loTurns.take 2 ++ lateTicks)).state = .closed ∧
      (run Conn.turn loLife.conn (loTurns.take 2 ++ lateTicks)).error = netEtimedout) ∧
    ((run Conn.turn loLife.conn (exchangeTurns ++ [resetTurn])).state = .closed ∧
      (run Conn.turn loLife.conn (exchangeTurns ++ [resetTurn])).timers.rtxAt ≠ 0) := by
  decide +kernel

end UzOS.Tcp
