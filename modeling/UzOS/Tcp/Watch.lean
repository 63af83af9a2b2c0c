import UzOS.Tcp.Rest
import UzOS.Tcp.Life

/-! A sender that is not done has its timer armed. The timer is off when
`rtxAt` is 0, so this needs a clock that no timeout in force adds up to 0 with. -/
namespace UzOS.Tcp

open Runs (run)

/-- No timeout that can be in force takes the clock to exactly 0. -/
def clockOk (now : U32) : Bool :=
  now.toNat + tcpRtoMax.toNat < 2 ^ 32 || 2 ^ 32 < now.toNat + tcpRtoMin.toNat

def rtoOk (rto : U32) : Prop := tcpRtoMin.toNat ≤ rto.toNat ∧ rto.toNat ≤ tcpRtoMax.toNat

variable {now : U32} {a b c : Conn} {shut : Prop}

theorem clock_arms {rto : U32} (clock : clockOk now) (ok : rtoOk rto) : now + rto ≠ 0 := by
  obtain ⟨least, most⟩ := ok
  have far : now.toNat + 30000 < 4294967296 ∨ 4294967296 < now.toNat + 200 := by
    simpa [clockOk, tcpRtoMax, tcpRtoMin] using clock
  have least : 200 ≤ rto.toNat := least
  have most : rto.toNat ≤ 30000 := most
  bv_omega

/-- What every arming of the timer and every piece of output relies on. -/
structure Timed (c : Conn) : Prop where
  gone : c.Gone
  mss : c.used = true → c.tx.mss ≠ 0
  rto : c.used = true → rtoOk c.timers.rtoMs

theorem zero_timed : Timed .zero where
  gone := fun _ => rfl
  mss := nofun
  rto := nofun

theorem Timed.same (h : Timed a) (gone : b.Gone) (used : b.used = a.used)
    (mss : b.tx.mss = a.tx.mss) (rto : b.timers.rtoMs = a.timers.rtoMs) : Timed b where
  gone := gone
  mss := by rw [used, mss]; exact h.mss
  rto := by rw [used, rto]; exact h.rto

theorem armTimer_rto (now : U32) (c : Conn) : (armTimer now c).timers.rtoMs = c.timers.rtoMs := by
  unfold armTimer
  split <;> rfl

theorem finOut_same (now : U32) (c : Conn) :
    (finOut now c).used = c.used ∧ (finOut now c).tx.mss = c.tx.mss ∧
    (finOut now c).timers.rtoMs = c.timers.rtoMs ∧ (finOut now c).tx.sndUna = c.tx.sndUna ∧
    (finOut now c).tx.sndNxt = c.tx.sndNxt + 1 := by
  unfold finOut
  cases c.state <;> exact ⟨rfl, rfl, rfl, rfl, rfl⟩

theorem measure_rto (t : Timers) (rtt : U32) : rtoOk (measure t rtt).rtoMs := by
  have clamp (rto : U32) : rtoOk
      (if rto < tcpRtoMin then tcpRtoMin else if tcpRtoMax < rto then tcpRtoMax else rto) := by
    unfold rtoOk
    split
    · decide
    split
    · decide
    · bv_omega
  exact clamp _

theorem acked_rto (t : Timers) (now ack : U32) (outstanding : Bool) (h : rtoOk t.rtoMs) :
    rtoOk (t.acked now ack outstanding).rtoMs := by
  unfold Timers.acked
  split
  · exact measure_rto t _
  · exact h

theorem tcpFinish_timed (h : Timed c) (error : Int) : Timed (tcpFinish now c error).conn := by
  have closed := tcpFinish_gone now c error
  unfold tcpFinish at closed ⊢
  dsimp only at closed ⊢
  split
  · exact h.same (fun _ => rfl) rfl rfl rfl
  · exact zero_timed

theorem peerMss_ne (h : c.tx.mss ≠ 0) (mss : U16) : peerMss c mss ≠ 0 := by
  unfold peerMss
  split
  · exact h
  unfold defMssClamp
  split
  · split
    · bv_omega
    · decide
  · split <;> decide

theorem Move.timed {rst : Prop} (h : Move rst shut now a b) (timed : Timed a) : Timed b := by
  have gone := h.gone timed.gone
  cases h with
  | noted | window | stored | confirmed => exact timed.same gone rfl rfl rfl
  | blocked =>
    obtain ⟨-, tx, -, used, -⟩ := armTimer_same now a
    exact timed.same gone used (by rw [tx]) (armTimer_rto now a)
  | piece =>
    obtain ⟨-, tx, -, used, rto, -⟩ := piece_same now a
    exact timed.same gone used (by rw [tx]; rfl) rto
  | fin =>
    obtain ⟨-, tx, -, used, -⟩ := armTimer_same now (finOut now a)
    obtain ⟨used', mss, rto, -⟩ := finOut_same now a
    exact timed.same gone (used.trans used') (by rw [tx, mss]) ((armTimer_rto now _).trans rto)
  | acked ack =>
    have next : Timed { a with
        tx := a.tx.dropAcked ack
        timers := a.timers.acked now ack (decide (ack ≠ a.tx.sndNxt)) } :=
      ⟨timed.gone, timed.mss, fun used => acked_rto _ _ _ _ (timed.rto used)⟩
    unfold acknowledge at gone ⊢
    split
    · rename_i fin state
      rw [fin, state] at gone
      exact next.same gone rfl rfl rfl
    · rename_i fin state
      rw [fin, state] at gone
      exact next.same gone rfl rfl rfl
    · exact tcpFinish_timed next 0
    · exact next
  | finTaken synced =>
    obtain ⟨-, -, tx, used, -, rto⟩ := takeFin_same now synced
    exact timed.same gone used (by rw [tx]) rto
  | answered s | crossed s => exact ⟨gone, fun used => peerMss_ne (timed.mss used) _, timed.rto⟩
  | ended error => exact tcpFinish_timed timed error
  | freed => exact zero_timed

theorem Deed.timed {new : Prop} (h : Deed new shut now a b) (timed : Timed a) : Timed b := by
  have doubled : a.used →
      rtoOk (if tcpRtoMax < a.timers.rtoMs * 2 then tcpRtoMax else a.timers.rtoMs * 2) := by
    intro used
    have least : 200 ≤ a.timers.rtoMs.toNat := (timed.rto used).1
    have most : a.timers.rtoMs.toNat ≤ 30000 := (timed.rto used).2
    split
    · exact ⟨by decide, le_refl _⟩
    rename_i short
    have twice : (a.timers.rtoMs * 2).toNat = a.timers.rtoMs.toNat * 2 := by bv_omega
    have short : ¬30000 < a.timers.rtoMs.toNat * 2 := by
      rw [← twice]
      exact short
    refine ⟨?_, ?_⟩ <;> rw [twice]
    · show 200 ≤ _
      omega
    · show _ ≤ 30000
      omega
  cases h with
  | bound | given | released | enqueued | wantsFin | read | counted =>
    exact timed.same timed.gone rfl rfl rfl
  | listens backlog used | opens src ip port isn used =>
    exact timed.same (fun e => by cases used.symm.trans e) rfl rfl rfl
  | armed =>
    obtain ⟨state, tx, -, used, -⟩ := armTimer_same now a
    refine timed.same (fun e => ?_) used (by rw [tx]) (armTimer_rto now a)
    exact state.trans (timed.gone (used.symm.trans e))
  | retried | wentBack => exact ⟨timed.gone, timed.mss, doubled⟩

/-! What is in flight is watched. -/

def Conn.Flying (c : Conn) : Prop :=
  c.state.outputs = true → c.tx.sndNxt ≠ c.tx.sndUna → c.timers.rtxAt ≠ 0

theorem Conn.Flying.silent (silent : c.state.outputs = false) : c.Flying :=
  fun e => by cases silent.symm.trans e

theorem Conn.Flying.landed (same : c.tx.sndNxt = c.tx.sndUna) : c.Flying := fun _ e => absurd same e

theorem Timed.used (h : Timed c) (open_ : c.state ≠ .closed) : c.used := by
  cases used : c.used with
  | true => rfl
  | false => exact absurd (h.gone used) open_

theorem Timed.arms (clock : clockOk now) (h : Timed c) (outputs : c.state.outputs) :
    (armTimer now c).timers.rtxAt ≠ 0 := by
  unfold armTimer
  split
  · exact clock_arms clock (h.rto (h.used (State.outputs_only outputs).2.2.2))
  rename_i armed
  exact armed

section
variable {rst new shut : Prop} {now : U32} (clock : clockOk now = true)
include clock

theorem Move.flying {a b : Conn} (h : Move rst shut now a b) (fit : Fit a.state a.tx)
    (timed : Timed a) (flying : a.Flying) : b.Flying := by
  have timed' := h.timed timed
  cases h with
  | noted | window | stored => exact flying
  | blocked =>
    obtain ⟨state, tx, -⟩ := armTimer_same now a
    intro outputs _
    exact timed.arms clock (state ▸ outputs)
  | piece =>
    intro outputs _
    have next : Timed (startTiming now (a.advance a.pieceLen)) := by
      unfold startTiming
      split <;> exact timed.same timed.gone rfl rfl rfl
    exact next.arms clock ((armTimer_same now _).1 ▸ outputs)
  | fin =>
    intro outputs _
    have used : a.used := by
      obtain ⟨-, -, -, used, -⟩ := armTimer_same now (finOut now a)
      exact ((finOut_same now a).1.symm.trans used.symm).trans
        (timed'.used (State.outputs_only outputs).2.2.2)
    have next : Timed (finOut now a) := by
      obtain ⟨used', mss, rto, -⟩ := finOut_same now a
      exact timed.same (fun e => by cases used.symm.trans (used'.symm.trans e)) used' mss rto
    exact next.arms clock ((armTimer_same now _).1 ▸ outputs)
  | acked ack synced after upto =>
    have to_ := fit.acknowledged synced (fit.acked synced after upto) now
    generalize (acknowledge now a ack).conn = d at to_
    cases to_ with
    | part =>
      intro _ flies
      have more : ack ≠ a.tx.sndNxt := fun e => flies e.symm
      have used : a.used := timed.used fun e => by rw [e] at synced; cases synced
      have ok := acked_rto a.timers now ack true (timed.rto used)
      show (a.timers.acked now ack (decide (ack ≠ a.tx.sndNxt))).rtxAt ≠ 0
      rw [decide_eq_true more]
      exact clock_arms clock ok
    | all _ drained => exact .silent (State.drained_only drained).2.2.1
    | ended => exact .silent (finish_silent now _ 0)
  | finTaken synced first =>
    obtain ⟨outputs, -, tx, -, timers, -⟩ := takeFin_same now synced
    unfold Conn.Flying
    rw [outputs, tx, timers]
    exact flying
  | confirmed state | answered s state => exact .landed (fit.opening (by rw [state]; rfl)).2
  | crossed | freed => exact .silent rfl
  | ended error => exact .silent (finish_silent now a error)

theorem Deed.flying {a b : Conn} (h : Deed new shut now a b) (timed : Timed a) (flying : a.Flying) :
    b.Flying := by
  have timed' := h.timed timed
  cases h with
  | bound | given | released | enqueued | wantsFin | read | counted => exact flying
  | listens | opens => exact .silent rfl
  | armed =>
    obtain ⟨state, -⟩ := armTimer_same now a
    exact fun outputs _ => timed.arms clock (state ▸ outputs)
  | retried n =>
    intro outputs _
    exact clock_arms clock (timed'.rto (timed.used (State.outputs_only outputs).2.2.2))
  | wentBack => exact .landed rfl

end

/-! A first life under such a clock. -/

/-- A connection that waits for the answer to its SYN was not shut down. -/
def Conn.Asking (c : Conn) : Prop := c.state = .synSent → c.tx.finWanted = false

theorem Conn.Asking.past (past : c.state ≠ .synSent) : c.Asking := fun e => absurd e past

theorem Move.asking {rst : Prop} (h : Move rst shut now a b) (asking : a.Asking) : b.Asking := by
  have past (later : a.state.later) : b.state ≠ .synSent := fun e => by
    have stays := h.later later
    rw [e] at stays
    cases stays
  cases h with
  | noted | window => exact asking
  | stored _ _ takes => exact .past fun e => by rw [show a.state = .synSent from e] at takes; cases takes
  | blocked later | piece later | fin later => exact .past (past later)
  | acked ack synced | finTaken synced => exact .past (past (State.later_of_synced synced))
  | confirmed | answered | crossed | freed => exact .past nofun
  | ended error => exact .past (by rw [tcpFinish_gone]; decide)

theorem Deed.asking (h : Deed True shut now a b) (asking : a.Asking) : b.Asking := by
  cases h with
  | bound | given | released | enqueued | read | counted | retried | wentBack => exact asking
  | listens => exact .past nofun
  | opens src ip port isn used state first => exact fun _ => (first trivial).finWanted
  | armed =>
    obtain ⟨state, tx, -⟩ := armTimer_same now a
    intro e
    rw [tx]
    exact asking (state.symm.trans e)
  | wantsFin state =>
    refine .past fun e => ?_
    rcases state with s | s | s <;> cases e.symm.trans s

structure Watchful (c : Conn) : Prop where
  sound : Sound c
  calm : c.Calm
  timed : Timed c
  flying : c.Flying
  asking : c.Asking

theorem Step.watchful (clock : clockOk now) (h : Step True shut now a b) (w : Watchful a) :
    Watchful b := by
  cases h with
  | move m =>
    exact ⟨m.sound w.sound, m.calm w.sound.fit w.calm, m.timed w.timed,
      m.flying clock w.sound.fit w.timed w.flying, m.asking w.asking⟩
  | deed d =>
    exact ⟨d.sound w.sound w.calm, d.calm w.calm, d.timed w.timed, d.flying clock w.timed w.flying,
      d.asking w.asking⟩

theorem Conn.Rested.same {live : Prop} {d : Conn} (h : c.Rested live) (tx : d.tx = c.tx)
    (rtx : live → c.timers.rtxAt ≠ 0 → d.timers.rtxAt ≠ 0) : d.Rested live := by
  unfold Conn.Rested Conn.unsent Conn.room Conn.flight at h ⊢
  rw [tx]
  exact h.imp_right (Or.imp_right fun ⟨held, full, armed⟩ => ⟨held, full, fun l => rtx l (armed l)⟩)

theorem watchful_restful (clock : clockOk now) :
    Restful True True True now Watchful fun c => c.state.outputs → c.Rested True where
  step := fun step w => step.watchful clock w
  fit := fun w => w.sound.fit
  times := fun {c} w => {
    mss := fun outputs => w.timed.mss (w.timed.used (State.outputs_only outputs).2.2.2)
    arms := fun _ outputs => w.timed.arms clock outputs }
  rests := fun _ rested => rested
  same := fun q state tx rtx outputs => (q (state ▸ outputs)).same tx fun _ armed => rtx ▸ armed
  answered := fun {c d} w w' from_ state _ len wanted _ => by
    have empty : d.tx.sndLen = 0 := len.trans (w.sound.fresh (by rw [from_]; rfl)).1
    have flight := w'.sound.fit.flight (by rw [state]; rfl) (w'.sound.early (.inl state))
    refine .inr (.inl ⟨?_, wanted.trans (w.asking from_)⟩)
    unfold Conn.unsent Conn.flight
    bv_omega
  armed := fun {c} w q _ outputs => by
    obtain ⟨state, tx, -⟩ := armTimer_same now c
    exact (q (state ▸ outputs)).same tx fun _ _ => w.timed.arms clock (state ▸ outputs)
  retried := fun {c} n w q due outputs => by
    have deed : Deed True True now c (retry now { c with timers.retries := n }) := .retried c n due
    have timed := deed.timed w.timed
    refine (q outputs).same rfl fun _ _ => ?_
    exact clock_arms clock (timed.rto (w.timed.used (State.outputs_only outputs).2.2.2))

/-- A first life whose connection is watched whenever it is at rest. -/
structure Life.Awake (w : Life) : Prop where
  held : w.Held
  watchful : Watchful w.conn
  rested : w.conn.state.outputs = true → w.conn.Rested True

theorem tcpNew_timed (now uid : U32) : Timed (tcpNew now uid) where
  gone := nofun
  mss := fun _ => by show tcpDefaultMss ≠ 0; decide
  rto := fun _ => by show rtoOk tcpRtoInitial; exact ⟨by decide, by decide⟩

theorem childConn_timed (now : U32) (l : Conn) (slot : Nat) (isn : U32) (s : Seg) :
    Timed (childConn now l slot isn s) where
  gone := nofun
  mss := fun _ => peerMss_ne ((tcpNew_timed now l.uid).mss rfl) _
  rto := fun _ => (tcpNew_timed now l.uid).rto rfl

theorem newChild_awake (now : U32) (l : Conn) (slot : Nat) (isn : U32) (s : Seg) :
    Life.Awake ⟨(newChild now l slot isn s).conn, true⟩ := by
  obtain ⟨state, tx, -, used, -⟩ :=
    armTimer_same now (tcpSendSegment (childConn now l slot isn s) (tcpSyn ||| tcpAck) isn []).conn
  have held := newChild_held now l slot isn s
  have silent : (newChild now l slot isn s).conn.state.outputs = false := congrArg State.outputs state
  refine ⟨held, ⟨held.sound, held.calm, ?_, .silent silent, .past ?_⟩, fun e => ?_⟩
  · exact (childConn_timed now l slot isn s).same (fun e => by cases used.symm.trans e) used
      (congrArg Tx.mss tx) (armTimer_rto now _)
  · exact fun e => by cases state.symm.trans e
  · cases silent.symm.trans e

theorem cookieConn_watchful (now : U32) (l : Conn) (slot : Nat) (mss : U16) (s : Seg) (good : mss ≠ 0) :
    Watchful (cookieConn now l slot mss s) where
  sound := cookieConn_sound now l slot mss s
  calm := .of_other rfl
  timed := {
    gone := nofun
    mss := fun _ => by
      show (if mss < ourMss then mss else ourMss) ≠ 0
      split
      · exact good
      · decide
    rto := (tcpNew_timed now l.uid).rto }
  flying := .landed rfl
  asking := .past nofun

theorem cookieChild_ends (now : U32) (l : Conn) (slot : Nat) (mss : U16) (s : Seg) :
    Ends now (cookieConn now l slot mss s) (cookieChild now l slot mss s).conn := by
  unfold cookieChild
  split
  · exact (segment_verdict fun _ => .inr rfl).ends nofun
  · exact .same rfl rfl rfl

variable {w : Life}

theorem Born.awake (clock : clockOk now) (h : Born now w) : w.Awake := by
  have held := h.held
  cases h with
  | socket uid sock =>
    refine ⟨held, ⟨held.sound, held.calm, ?_, .silent rfl, .past nofun⟩, nofun⟩
    exact (tcpNew_timed now uid).same nofun rfl rfl rfl
  | child l slot isn s => exact newChild_awake now l slot isn s
  | cookie l slot mss s good =>
    have start := cookieConn_watchful now l slot mss s good
    have restful := watchful_restful clock
    have watchful := restful.moves (cookieChild_moves now l slot mss s) start
    have rest : (cookieConn now l slot mss s).state.outputs →
        (cookieConn now l slot mss s).Rested True := by
      refine fun _ => .inr (.inl ⟨?_, rfl⟩)
      show BitVec.ofNat 32 0 - (s.ack - s.ack) = 0
      bv_omega
    refine ⟨held, watchful, ?_⟩
    exact restful.ends start rest watchful (cookieChild_ends now l slot mss s)

theorem Life.Awake.step (h : w.Awake) (t : Turn) (clock : clockOk t.now) : (w.step t).Awake := by
  have held := h.held.step t
  unfold Life.step at held ⊢
  split
  · exact h
  rename_i alive
  rw [if_neg alive] at held
  rw [Bool.not_eq_true] at alive
  have restful := watchful_restful clock
  have first : True → w.conn.state = .closed → Fresh w.conn := fun _ closed => by
    cases opened : w.opened with
    | false => exact (h.held.fresh opened).2
    | true => simp [Life.over, opened, closed] at alive
  have steps : Steps True True t.now w.conn (w.conn.turn t) :=
    turn_safe t (.refl _) (fun _ _ _ _ => rfl) fun used _ => h.held.dialog alive used t.now t.act
  have meets : Meets True True t.now (Drained (fun _ => true) t.now) := meets_drained
  refine ⟨held, restful.steps steps h.watchful, ?_⟩
  exact turn_safe t h.rested (fun _ _ _ _ => rfl) fun used _ =>
    restful.dialog meets h.watchful h.rested used t.act first fun _ _ _ _ _ => .inr trivial

theorem Life.Awake.run (h : w.Awake) (turns : List Turn)
    (clock : ∀ t ∈ turns, clockOk t.now) : (run Life.step w turns).Awake := by
  induction turns generalizing w with
  | nil => exact h
  | cons t rest ih =>
    exact ih (h.step t (clock t List.mem_cons_self)) fun u member =>
      clock u (List.mem_cons_of_mem _ member)

/-- Something accepted is not acknowledged yet, or a wanted FIN is not: in
these states an acknowledged FIN moves the connection on. -/
def Conn.unfinished (c : Conn) : Bool := c.state.outputs && (c.tx.sndLen != 0 || c.tx.finWanted)

theorem Life.Awake.armed (h : w.Awake) (unfinished : w.conn.unfinished) :
    w.conn.timers.rtxAt ≠ 0 := by
  simp only [Conn.unfinished, Bool.and_eq_true, Bool.or_eq_true, bne_iff_ne] at unfinished
  obtain ⟨outputs, some⟩ := unfinished
  have fit := h.held.sound.fit
  rcases h.rested outputs with sent | ⟨out, wanted⟩ | ⟨-, -, armed⟩
  · refine h.watchful.flying outputs fun same => ?_
    have all := h.held.sound.all outputs sent
    rw [same] at all
    simp at all
  · refine h.watchful.flying outputs fun same => ?_
    have len := some.resolve_right fun e => by cases wanted.symm.trans e
    have all := fit.unsent_landed same
    rw [out] at all
    exact len all.symm
  · exact armed trivial

/-- Under a clock that is away from where a timeout takes it to 0, a first
life's connection at rest with anything left to send or to be acknowledged has
its timer armed. -/
theorem sender_never_stalls (w : Life) (now : U32) (born : Born now w) (turns : List Turn)
    (clock : clockOk now = true ∧ ∀ t ∈ turns, clockOk t.now = true)
    (unfinished : (run Life.step w turns).conn.unfinished = true) :
    (run Life.step w turns).conn.timers.rtxAt ≠ 0 :=
  ((born.awake clock.1).run turns clock.2).armed unfinished

/-- Three bytes are sent and not acknowledged. -/
def sendingTurns (now : U32) : List Turn :=
  [⟨5, .bind 0x7f000001 1000, []⟩, ⟨10, .connect 0x7f000001 80 (some 0x7f000001) none 100, []⟩,
   ⟨20, .arrive (loSegment 500 101 (tcpSyn ||| tcpAck)), []⟩, ⟨now, .send [1, 2, 3], []⟩]

theorem sender_never_stalls_sending :
    (run Life.step loLife (sendingTurns 5000)).conn.timers.rtxAt ≠ 0 :=
  sender_never_stalls loLife 0 (.socket 0 7) (sendingTurns 5000) (by decide) (by decide +kernel)

/-- One byte is acknowledged after 100 ms and one after 150 ms, so the timeout becomes 306 ms; the
third is sent that long before the clock wraps. -/
def lateTurns : List Turn :=
  let peer (seq ack : U32) (flags : U8) : Act :=
    .arrive (.segment ⟨0x0a000202, 0x0a00020f, 80, 1000, seq, ack, flags, 1000, [], []⟩)
  [⟨4294966500, .bind 0x0a00020f 1000, []⟩,
   ⟨4294966510, .connect 0x0a000202 80 (some 0x0a00020f) none 100, []⟩,
   ⟨4294966610, peer 500 101 (tcpSyn ||| tcpAck), []⟩,
   ⟨4294966620, .send [1], []⟩, ⟨4294966720, peer 501 102 tcpAck, []⟩,
   ⟨4294966730, .send [2], []⟩, ⟨4294966880, peer 501 103 tcpAck, []⟩,
   ⟨4294966990, .send [3], []⟩]

/-- The timer of the third byte is armed to 0, which is off. -/
theorem sender_stalls :
    let w := run Life.step loLife lateTurns
    w.over = false ∧ w.conn.state = .established ∧ w.conn.unfinished = true ∧
      w.conn.timers.rtoMs = 306 ∧ w.conn.timers.rtxAt = 0 := by
  decide +kernel

end UzOS.Tcp
