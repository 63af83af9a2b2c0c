import UzOS.Tcp.Deeds

/-! Where a connection comes to rest: tcp_output goes on until the window is
full or everything is out, also when it is interrupted on the way. -/
namespace UzOS.Tcp

variable {rst shut : Prop} {now : U32}

/-- The bytes the loop of tcp_output still has before it. -/
def Conn.left (c : Conn) : Nat := if c.tx.finSent then 0 else c.unsent.toNat

variable {c : Conn}

theorem left_same {d : Conn} (tx : d.tx = c.tx) : d.left = c.left := by
  unfold Conn.left Conn.unsent Conn.flight
  rw [tx]

theorem State.later_silent {s : State} (later : s.later) (silent : s.outputs = false) :
    s.drained ∨ s = .closed := by
  rcases State.later_cases later with synced | closed
  · exact .inl (((Bool.or_eq_true _ _).mp synced).resolve_left fun e => by cases silent.symm.trans e)
  · exact .inr closed

/-- What a piece takes off. -/
theorem piece_left (fit : Fit c.state c.tx) (outputs : c.state.outputs)
    (waits : c.tx.finSent = false) : (c.advance c.pieceLen).left + c.pieceLen = c.left := by
  have inside := fit.piece_inside outputs waits
  have room := fit.room
  have waits' : (c.advance c.pieceLen).tx.finSent = false := waits
  simp only [tcpBufSize] at room
  simp only [Conn.left, waits, waits', Bool.false_eq_true, ↓reduceIte]
  simp only [Conn.unsent, Conn.flight, Conn.advance] at inside ⊢
  bv_omega

/-- An acknowledgment takes the same off the buffer and the flight. -/
theorem acked_left (fit : Fit c.state c.tx) (synced : c.state.synced) {ack : U32}
    (acked : Acked c.tx ack) (outputs : (acknowledge now c ack).conn.state.outputs) :
    c.state.outputs ∧ (acknowledge now c ack).conn.left = c.left := by
  have to_ := fit.acknowledged synced acked now
  generalize (acknowledge now c ack).conn = d at to_ outputs
  cases to_ with
  | part before notFin =>
    refine ⟨before, ?_⟩
    obtain ⟨len, short, fewer⟩ := acked.data notFin
    have room := fit.room
    simp only [tcpBufSize] at room
    unfold Conn.left
    show (if c.tx.finSent = true then 0 else _) = _
    split
    · rfl
    show (BitVec.ofNat 32 (c.tx.dropAcked ack).sndLen - (c.tx.sndNxt - ack)).toNat =
      (BitVec.ofNat 32 c.tx.sndLen - (c.tx.sndNxt - c.tx.sndUna)).toNat
    rw [len]
    bv_omega
  | all s drained => cases (State.drained_only drained).2.2.1.symm.trans outputs
  | ended =>
    rw [tcpFinish_gone] at outputs
    cases outputs

/-- Output states are only left, and what is still to be sent only gets less. -/
theorem Move.left {a b : Conn} (h : Move rst shut now a b) (fit : Fit a.state a.tx)
    (later : a.state.later) (outputs : b.state.outputs) :
    a.state.outputs ∧ b.left ≤ a.left := by
  cases h with
  | noted | window | stored => exact ⟨outputs, le_refl _⟩
  | blocked =>
    obtain ⟨state, tx, -⟩ := armTimer_same now a
    exact ⟨state ▸ outputs, le_of_eq (left_same tx)⟩
  | piece _ _ waits =>
    obtain ⟨state, tx, -⟩ := piece_same now a
    rw [state] at outputs
    have less := piece_left fit outputs waits
    exact ⟨outputs, by rw [left_same tx]; omega⟩
  | fin _ _ wanted waits =>
    obtain ⟨state, tx, -⟩ := armTimer_same now (finOut now a)
    have sent : (finOut now a).tx.finSent := by
      unfold finOut
      cases a.state <;> rfl
    refine ⟨?_, by rw [left_same tx, Conn.left, if_pos sent]; exact zero_le⟩
    rw [state] at outputs
    cases before : a.state.outputs with
    | true => rfl
    | false =>
      rcases State.later_silent later before with drained | closed
      · cases waits.symm.trans (fit.drained drained).1
      · simp [finOut, closed, State.outputs] at outputs
  | acked ack synced after upto =>
    obtain ⟨before, same⟩ := acked_left fit synced (fit.acked synced after upto) outputs
    exact ⟨before, le_of_eq same⟩
  | finTaken synced =>
    obtain ⟨same, -, tx, -⟩ := takeFin_same now synced
    exact ⟨same ▸ outputs, le_of_eq (left_same tx)⟩
  | confirmed state | answered s state | crossed s state =>
    rw [state] at later
    cases later
  | ended error =>
    rw [tcpFinish_gone] at outputs
    cases outputs
  | freed => cases outputs

theorem Moves.left {a b : Conn} (h : Moves rst shut now a b) (fit : Fit a.state a.tx)
    (later : a.state.later) (outputs : b.state.outputs) :
    a.state.outputs ∧ b.left ≤ a.left := by
  induction h with
  | refl => exact ⟨outputs, le_refl _⟩
  | tail moves move ih =>
    have moves : Moves rst shut now a _ := moves
    obtain ⟨mid, less⟩ := move.left (moves.fit fit) (moves.later later) outputs
    obtain ⟨start, more⟩ := ih mid
    exact ⟨start, le_trans less more⟩

/-! tcp_output stops where it has to. -/

/-- Every piece carries something. -/
theorem pieceLen_pos (held : c.unsent ≠ 0) (room : c.room ≠ 0) (mss : c.tx.mss ≠ 0) :
    0 < c.pieceLen := by
  have some : (if c.unsent < c.room then c.unsent else c.room).toNat ≠ 0 := by
    split
    · bv_omega
    · bv_omega
  unfold Conn.pieceLen
  generalize (if c.unsent < c.room then c.unsent else c.room) = n at some
  dsimp only
  split
  · bv_omega
  · omega

/-- The loop has ended: the FIN is out, or all of the data, or the window is full. -/
def Conn.Halted (live : Prop) (c : Conn) : Prop :=
  c.tx.finSent = true ∨ c.unsent = 0 ∨ (c.unsent ≠ 0 ∧ c.room = 0 ∧ (live → c.timers.rtxAt ≠ 0))

/-- What interrupted output needs of the others besides `Meets`. -/
structure Times (live : Prop) (now : U32) (c : Conn) : Prop where
  mss : c.state.outputs = true → c.tx.mss ≠ 0
  arms : live → c.state.outputs = true → (armTimer now c).timers.rtxAt ≠ 0

section
variable {live : Prop} {env : Conn → Conn → Prop} (meets : Meets rst shut now env) {start : Conn}
  (times : ∀ d, Moves rst shut now start d → Times live now d)
include meets times

theorem outputLoopTalk_halts (fuel : Nat) {c : Conn} (moved : Moves rst shut now start c)
    (fit : Fit c.state c.tx) (later : c.state.later) (open_ : c.Open shut)
    (enough : c.state.outputs → c.left < fuel) :
    (outputLoopTalk now fuel c).Safe env (Moves rst shut now start) fun d =>
      Moves rst shut now start d ∧ Fit d.state d.tx ∧ d.state.later ∧ d.Open shut ∧
        (d.state.outputs → d.Halted live) := by
  induction fuel generalizing c with
  | zero =>
    refine ⟨moved, fit, later, open_, fun outputs => ?_⟩
    exact absurd (enough outputs) (Nat.not_lt_zero _)
  | succ fuel ih =>
    rw [outputLoopTalk]
    rcases outputPass_cases now c with ⟨pass, stop⟩ | ⟨pass, waits, held, full⟩ |
      ⟨pass, waits, held, room⟩
    · rw [pass]
      exact ⟨moved, fit, later, open_, fun _ => stop.imp_right .inl⟩
    · rw [pass]
      have move : Move rst shut now c (armTimer now c) :=
        .blocked c later (fun closed => open_ closed waits (.inl held)) waits held full
      obtain ⟨state, tx, -⟩ := armTimer_same now c
      refine ⟨moved.then move, move.fit fit, move.later later, ?_, fun outputs =>
        .inr (.inr ⟨?_, ?_, ?_⟩)⟩
      · unfold Conn.Open Conn.unsent Conn.flight
        rw [state, tx]
        exact open_
      · unfold Conn.unsent Conn.flight
        rw [tx]
        exact held
      · unfold Conn.room Conn.flight
        rw [tx]
        exact full
      · exact fun l => (times c moved).arms l (state ▸ outputs)
    · rw [pass]
      have shutdown : c.state = .closed → shut := fun closed => open_ closed waits (.inl held)
      have piece : Moves rst shut now c (outputPiece now c).conn :=
        outputPiece_moves later shutdown waits held room
      have state : (outputPiece now c).conn.state = c.state := (piece_same now c).1
      refine ⟨moved.trans piece, fun d reached => ?_⟩
      have moves : Moves rst shut now (outputPiece now c).conn d := meets.moves reached
      have fit' := piece.fit fit
      have later' := piece.later later
      refine ih (moved.trans (piece.trans moves)) (moves.fit fit') (moves.later later') ?_ ?_
      · exact meets.leaves reached later' (by rw [state]; exact shutdown)
      · intro outputs
        obtain ⟨before, less⟩ := moves.left fit' later' outputs
        rw [state] at before
        have sent : (outputPiece now c).conn.left = (c.advance c.pieceLen).left :=
          left_same (piece_same now c).2.1
        have more := piece_left fit before waits
        have some := pieceLen_pos held room ((times c moved).mss before)
        have bound := enough before
        omega

end

/-- At rest: the FIN is out, or all of the data and none is wanted, or the
window is full and, if `live`, watched. -/
def Conn.Rested (live : Prop) (c : Conn) : Prop :=
  c.tx.finSent = true ∨ (c.unsent = 0 ∧ c.tx.finWanted = false) ∨
    (c.unsent ≠ 0 ∧ c.room = 0 ∧ (live → c.timers.rtxAt ≠ 0))

/-! What an arriving segment comes to: nothing the sender cares about, an end,
the answer to our SYN, or tcp_output. -/

inductive Ends (now : U32) (c : Conn) : Conn → Prop where
  | same {d : Conn} (state : d.state = c.state) (tx : d.tx = c.tx)
      (rtx : d.timers.rtxAt = c.timers.rtxAt) : Ends now c d
  | silent {d : Conn} (outputs : d.state.outputs = false) : Ends now c d
  | answered {d : Conn} (from_ : c.state = .synSent) (state : d.state = .established)
      (rtx : d.timers.rtxAt = 0) (len : d.tx.sndLen = c.tx.sndLen)
      (wanted : d.tx.finWanted = c.tx.finWanted) : Ends now c d
  | output {d : Conn} (moves : Moves True False now c d) : Ends now c (tcpOutput now d).conn

theorem finish_silent (now : U32) (c : Conn) (error : Int) :
    (tcpFinish now c error).conn.state.outputs = false := by
  unfold tcpFinish
  dsimp only
  split <;> rfl

theorem Trail.ends {r : Reply} (h : Trail now c r) (gone : c.Gone) :
    r.conn.state.outputs = false ∨
    ∃ d, Moves True False now c d ∧ r.conn = (tcpOutput now d).conn := by
  induction h with
  | ended c gone_ =>
    have closed : c.state = .closed := gone_.elim id gone
    exact .inl (by rw [quiet_conn, closed]; rfl)
  | heard h _ ih =>
    have move : Move True False now _ _ := h.move
    refine (ih (move.gone gone)).imp_right ?_
    rintro ⟨d, moves, same⟩
    exact ⟨d, move.moves.trans moves, same⟩
  | answers => exact .inr ⟨_, (send_moves _ _ _ _).moves, rfl⟩
  | closes window state fin =>
    rw [andThen_conn, quiet_conn, takeWindow_state, acknowledge_closes state fin]
    exact .inl (finish_silent now _ 0)
  | resets => exact .inl rfl
  | output c => exact .inr ⟨c, .refl c, rfl⟩

theorem Verdict.ends {s : Seg} {r : Reply} (h : Verdict True now s c r) (gone : c.Gone) :
    Ends now c r.conn := by
  have opened {d : Conn} (moved : Moves True False now c d) (synced : d.state.synced) :
      Ends now c (segmentOpen now d s).conn := by
    rcases (segmentOpen_trail synced s).ends (moved.gone gone) with silent | ⟨e, moves, same⟩
    · exact .silent silent
    rw [same]
    exact .output (moved.trans moves)
  cases h with
  | noted => exact .same rfl rfl rfl
  | ended error => exact .silent (finish_silent now c error)
  | freed | crossed => exact .silent rfl
  | answered _ state => exact .answered state rfl rfl rfl rfl
  | confirmed state right =>
    rw [right]
    exact opened (Move.confirmed c state).moves rfl
  | taken synced => exact opened (.refl c) (synced trivial)

theorem hear_ends (c : Conn) (a : Arrival) : Ends now c (hear now c a) := by
  cases a with
  | segment s =>
    unfold hear tcpReceive
    dsimp only
    split
    · exact .same rfl rfl rfl
    split
    · exact .same rfl rfl rfl
    rename_i found
    rw [Bool.not_eq_true, Bool.not_eq_false'] at found
    have used : c.used := (Conn.matches_spec found).1
    have gone : c.counted.Gone := fun e => by cases used.symm.trans e
    have ends : Ends now c.counted (dispatch now c.counted s).conn := (matches_verdict found).ends gone
    generalize (dispatch now c.counted s).conn = d at ends
    cases ends with
    | same state tx rtx => exact .same state tx rtx
    | silent outputs => exact .silent outputs
    | answered from_ state rtx len wanted => exact .answered from_ state rtx len wanted
    | output moves => exact .output ((Move.noted c _ _ _ _).moves.trans moves)
  | unreachable seq err =>
    unfold hear tcpIcmpError
    dsimp only
    split
    · exact .silent (finish_silent now c _)
    · exact .same rfl rfl rfl

/-! A property `Q` of connections at rest, beside an invariant `Inv` of every step. -/

structure Restful (new shut live : Prop) (now : U32) (Inv Q : Conn → Prop) : Prop where
  step : ∀ {a b}, Step new shut now a b → Inv a → Inv b
  fit : ∀ {c}, Inv c → Fit c.state c.tx
  times : ∀ {c}, Inv c → Times live now c
  rests : ∀ {c}, Inv c → (c.state.outputs = true → c.Rested live) → Q c
  same : ∀ {c d}, Q c → d.state = c.state → d.tx = c.tx →
    d.timers.rtxAt = c.timers.rtxAt → Q d
  answered : ∀ {c d}, Inv c → Inv d → c.state = .synSent → d.state = .established →
    d.timers.rtxAt = 0 → d.tx.sndLen = c.tx.sndLen → d.tx.finWanted = c.tx.finWanted → Q d
  armed : ∀ {c}, Inv c → Q c → c.state = .synSent ∨ shut → Q (armTimer now c)
  retried : ∀ {c} (n : Nat), Inv c → Q c → c.timers.rtxAt ≠ 0 →
    Q (retry now { c with timers.retries := n })

section
variable {new shut live : Prop} {Inv Q : Conn → Prop} (h : Restful new shut live now Inv Q)
include h

variable {a b c : Conn}

theorem Restful.steps (steps : Steps new shut now a b) (inv : Inv a) : Inv b :=
  steps.keeps inv h.step

theorem Restful.moves (moves : Moves True shut now a b) (inv : Inv a) : Inv b :=
  h.steps ((Steps.refl a).moves moves) inv

theorem Restful.deed (deed : Deed new shut now a b) (inv : Inv a) : Inv b := h.step (.deed deed) inv

/-- A connection that is not in a state to output is at rest. -/
theorem Restful.silent (inv : Inv c) (silent : c.state.outputs = false) : Q c :=
  h.rests inv fun e => by cases silent.symm.trans e

/-- tcp_output leaves the connection at rest, if the others do. -/
theorem Restful.output {env : Conn → Conn → Prop} (meets : Meets True shut now env)
    (others : ∀ {a b}, env a b → Inv a → Q a → Q b) (inv : Inv c) :
    (tcpOutputTalk now c).Safe env (fun _ => True) Q := by
  unfold tcpOutputTalk
  split
  · rename_i outputs
    have later := State.later_of_synced (State.synced_of_outputs outputs)
    have open_ : c.Open shut := fun closed => by rw [closed] at outputs; cases outputs
    have enough : c.left < c.unsent.toNat + 1 := by
      unfold Conn.left
      split <;> omega
    have loop := outputLoopTalk_halts meets (fun d moves => h.times (h.moves moves inv))
      (c.unsent.toNat + 1) (.refl c) (h.fit inv) later open_ fun _ => enough
    refine (loop.imp (fun _ _ => trivial) fun _ done => done).andThen fun d done => ?_
    obtain ⟨moved, fit, later, open_, halted⟩ := done
    have inv := h.moves moved inv
    unfold outputFinTalk outputFin
    split
    · rename_i due
      simp only [Bool.and_eq_true, beq_iff_eq, Bool.not_eq_true'] at due
      obtain ⟨⟨wanted, waits⟩, out⟩ := due
      have fin : Move True shut now d (armTimer now (finOut now d)) :=
        .fin d later (fun closed => open_ closed waits (.inr wanted)) wanted waits out
      have sent := h.moves (fin.moves.then (send_moves _ (tcpFin ||| tcpAck) d.tx.sndNxt [])) inv
      refine ⟨trivial, fun e reached => others reached sent (h.rests sent fun _ => .inl ?_)⟩
      show (armTimer now (finOut now d)).tx.finSent
      rw [(armTimer_same now _).2.1]
      unfold finOut
      cases d.state <;> rfl
    · rename_i idle
      refine h.rests inv fun outputs => ?_
      rcases halted outputs with sent | out | full
      · exact .inl sent
      · by_cases sent : d.tx.finSent
        · exact .inl sent
        refine .inr (.inl ⟨out, ?_⟩)
        have all : d.flight = BitVec.ofNat 32 d.tx.sndLen := by
          unfold Conn.unsent at out
          bv_omega
        simpa [sent, all] using idle
      · exact .inr (.inr full)
  · rename_i other
    exact h.silent inv (by simpa using other)

theorem Restful.tcpOutput (inv : Inv c) : Q (tcpOutput now c).conn := by
  rw [← tcpOutputTalk_reply]
  exact (h.output meets_eq (fun e _ q => e ▸ q) inv).alone fun _ => rfl

theorem Restful.ends {d : Conn} (inv : Inv c) (q : Q c) (inv' : Inv d) (ends : Ends now c d) :
    Q d := by
  cases ends with
  | same state tx rtx => exact h.same q state tx rtx
  | silent outputs => exact h.silent inv' outputs
  | answered from_ state rtx len wanted => exact h.answered inv inv' from_ state rtx len wanted
  | output moves => exact h.tcpOutput (h.moves (moves.mono id False.elim) inv)

theorem Restful.hear (inv : Inv c) (q : Q c) (a : Arrival) : Q (hear now c a) :=
  h.ends inv q (h.moves (hear_moves c a fun _ => trivial) inv) (hear_ends c a)

theorem Restful.drained {ok : Arrival → Bool} (d : Drained ok now a b) (inv : Inv a) (q : Q a) :
    Q b := by
  obtain ⟨arrivals, -, rfl⟩ := d
  induction arrivals generalizing a with
  | nil => exact q
  | cons arrival rest ih =>
    exact ih (h.moves (hear_moves a arrival fun _ => trivial) inv) (h.hear inv q arrival)

end

/-! Every turn ends at rest. -/

section
variable {new shut live : Prop} {Inv Q : Conn → Prop} (h : Restful new shut live now Inv Q)
  {ok : Arrival → Bool} (meets : Meets True shut now (Drained ok now))
include h

/-- A last step that leaves the connection at rest. -/
theorem Restful.tell {r : Reply} (inv : Inv r.conn) (q : Q r.conn) :
    (r.tell .done).Safe (Drained ok now) (fun _ => True) Q :=
  tell_safe (Drained.refl ok now) trivial fun _ reached => h.drained reached inv q

variable {c : Conn}

theorem Restful.free (inv : Inv c) :
    ((tcpFree c).tell .done).Safe (Drained ok now) (fun _ => True) Q := by
  have zero : Inv .zero := h.step (.move (.freed c)) inv
  exact h.tell zero (h.silent zero rfl)

theorem Restful.sent {c : Conn} (inv : Inv c) (flags : U8) (seq : U32) (data : List U8) :
    Inv (tcpSendSegment c flags seq data).conn :=
  h.step (.move (send_moves c flags seq data)) inv

include meets

theorem Restful.script {free dials : Prop} {t : Dialog} (s : Script free dials new shut now c t)
    (late : ∀ a b, dials → a.state = .synSent → Drained ok now a b → b.state = .synSent ∨ shut)
    (inv : Inv c) (q : Q c) : t.Safe (Drained ok now) (fun _ => True) Q := by
  induction s with
  | done => exact q
  | moved _ deed state tx rtx _ ih => exact ih (h.deed deed inv) (h.same q state tx rtx)
  | listens _ deed state => exact h.silent (h.deed deed inv) (by rw [state]; rfl)
  | @opens a src ip port isn dial used state first =>
    have sent := h.sent (h.deed (.opens a src ip port isn used state first) inv) tcpSyn isn []
    refine tell_safe (Drained.refl ok now) trivial fun e reached => ?_
    have rest := h.drained reached sent (h.silent sent rfl)
    exact h.armed (h.moves (meets.moves reached) sent) rest (late _ e dial rfl reached)
  | writes _ deed => exact h.output meets h.drained (h.deed deed inv)
  | hears _ a => exact h.hear inv q a
  | leaves => exact ⟨trivial, fun _ reached => h.free (h.moves (meets.moves reached) inv)⟩
  | released _ ih => exact ih (h.deed (.released _) inv) (h.same q rfl rfl rfl)
  | counted retries probes _ ih =>
    exact ih (h.deed (.counted _ retries probes) inv) (h.same q rfl rfl rfl)
  | retried n due _ ih => exact ih (h.deed (.retried _ n due) inv) (h.retried n inv q due)
  | finishes state => exact h.output meets h.drained (h.deed (.wantsFin _ state) inv)
  | goesBack n due open_ => exact h.output meets h.drained (h.deed (.wentBack _ n due open_) inv)
  | sent => exact h.tell (h.sent inv _ _ _) (h.same q rfl rfl rfl)
  | aborts c =>
    have sent := h.sent inv (tcpRst ||| tcpAck) c.tx.sndNxt []
    exact tell_safe (Drained.refl ok now) trivial fun _ reached =>
      h.free (h.moves (meets.moves reached) sent)
  | freed => exact h.free inv
  | ended c error =>
    have ended := h.step (.move (.ended c error trivial)) inv
    exact h.tell ended (h.silent ended (finish_silent now c error))

theorem Restful.dialog (inv : Inv c) (q : Q c) (used : c.used) (act : Act)
    (first : new → c.state = .closed → Fresh c)
    (late : ∀ a b, act.connects → a.state = .synSent → Drained ok now a b →
      b.state = .synSent ∨ shut) : (act.dialog now c).Safe (Drained ok now) (fun _ => True) Q :=
  h.script meets (dialog_script used act first) late inv q

end

end UzOS.Tcp
