import UzOS.Tcp.Deeds
import UzOS.Lib.Runs

/-! The invariant of a connection, from the slot tcp_new hands out until it is
CLOSED again, whatever calls, segments and ticks come and wherever the answers
to its own segments are handled. -/
namespace UzOS.Tcp

/-- The states after the peer's FIN. -/
def State.finSeen : State → Bool
  | .closeWait | .closing | .lastAck | .timeWait => true
  | _ => false

/-- A connection in its first life. -/
structure Sound (c : Conn) : Prop where
  fit : Fit c.state c.tx
  rcvLen : c.rx.rcvLen ≤ tcpBufSize
  rcvHead : c.rx.rcvHead < tcpBufSize
  fresh : c.state.opening = true → c.tx.sndLen = 0 ∧ c.tx.finSent = false
  early : c.state = .established ∨ c.state = .closeWait → c.tx.finSent = false
  all : c.state.outputs = true → c.tx.finSent = true →
    (c.tx.sndNxt - c.tx.sndUna).toNat = c.tx.sndLen + 1
  empty : c.state.drained = true → c.tx.sndLen = 0
  heard : c.state ≠ .closed → c.rx.finReceived = c.state.finSeen

theorem zero_sound : Sound .zero where
  fit := zero_fit
  rcvLen := zero_le
  rcvHead := by decide
  fresh := nofun
  early := fun e => by rcases e with e | e <;> cases e
  all := nofun
  empty := nofun
  heard := fun e => absurd rfl e

variable {a b c d : Conn} {now : U32} {shut : Prop}

theorem Sound.same (h : Sound a) (state : b.state = a.state) (tx : b.tx = a.tx) (rx : b.rx = a.rx) :
    Sound b where
  fit := by rw [state, tx]; exact h.fit
  rcvLen := by rw [rx]; exact h.rcvLen
  rcvHead := by rw [rx]; exact h.rcvHead
  fresh := by rw [state, tx]; exact h.fresh
  early := by rw [state, tx]; exact h.early
  all := by rw [state, tx]; exact h.all
  empty := by rw [state, tx]; exact h.empty
  heard := by rw [state, rx]; exact h.heard

/-- A connection that is CLOSED or listens has nothing to send. -/
theorem Sound.of_idle (h : Sound a) (fit : Fit b.state b.tx)
    (idle : b.state = .closed ∨ b.state = .listen) (len : b.rx.rcvLen = a.rx.rcvLen)
    (head : b.rx.rcvHead = a.rx.rcvHead)
    (heard : b.state = .listen → b.rx.finReceived = false) : Sound b where
  fit := fit
  rcvLen := by rw [len]; exact h.rcvLen
  rcvHead := by rw [head]; exact h.rcvHead
  fresh := fun e => by rcases idle with idle | idle <;> rw [idle] at e <;> cases e
  early := fun e => by rcases idle with idle | idle <;> rw [idle] at e <;> rcases e with e | e <;> cases e
  all := fun e => by rcases idle with idle | idle <;> rw [idle] at e <;> cases e
  empty := fun e => by rcases idle with idle | idle <;> rw [idle] at e <;> cases e
  heard := fun open_ => by
    have listens := idle.resolve_left open_
    rw [heard listens, listens]
    rfl

theorem tcpFinish_sound (h : Sound c) {s : State} (fit : Fit s d.tx)
    (rx : d.rx = c.rx) (error : Int) : Sound (tcpFinish now d error).conn := by
  have done := tcpFinish_fit now d error fit
  unfold tcpFinish at done ⊢
  dsimp only at done ⊢
  split
  · rename_i held
    rw [if_pos held] at done
    exact h.of_idle done (.inl rfl) (congrArg Rx.rcvLen rx) (congrArg Rx.rcvHead rx)
      nofun
  · exact zero_sound

/-- The rest of a state that outputs, behind its `Fit`. -/
theorem Sound.of_outputs (h : Sound a) (fit : Fit b.state b.tx) (outputs : b.state.outputs)
    (len : b.rx.rcvLen = a.rx.rcvLen) (head : b.rx.rcvHead = a.rx.rcvHead)
    (early : b.state = .established ∨ b.state = .closeWait → b.tx.finSent = false)
    (all : b.tx.finSent → (b.tx.sndNxt - b.tx.sndUna).toNat = b.tx.sndLen + 1)
    (heard : b.rx.finReceived = b.state.finSeen) : Sound b := by
  obtain ⟨-, opening, drained, -⟩ := State.outputs_only outputs
  exact {
    fit := fit
    rcvLen := by rw [len]; exact h.rcvLen
    rcvHead := by rw [head]; exact h.rcvHead
    fresh := fun e => by rw [opening] at e; cases e
    early := early
    all := fun _ => all
    empty := fun e => by rw [drained] at e; cases e
    heard := fun _ => heard }

theorem Sound.of_drained (h : Sound a) (fit : Fit b.state b.tx) (drained : b.state.drained)
    (len : b.rx.rcvLen = a.rx.rcvLen) (head : b.rx.rcvHead = a.rx.rcvHead)
    (empty : b.tx.sndLen = 0) (heard : b.rx.finReceived = b.state.finSeen) : Sound b := by
  obtain ⟨-, opening, outputs, -⟩ := State.drained_only drained
  exact {
    fit := fit
    rcvLen := by rw [len]; exact h.rcvLen
    rcvHead := by rw [head]; exact h.rcvHead
    fresh := fun e => by rw [opening] at e; cases e
    early := fun e => by rcases e with e | e <;> rw [e] at drained <;> cases drained
    all := fun e => by rw [outputs] at e; cases e
    empty := fun _ => empty
    heard := fun _ => heard }

theorem acknowledge_sound (h : Sound c) (synced : c.state.synced) {ack : U32}
    (acked : Acked c.tx ack) : Sound (acknowledge now c ack).conn := by
  have fit := acknowledge_fit now h.fit synced acked
  unfold acknowledge at fit ⊢
  have heard := h.heard
  cases fin : c.tx.finAcked ack with
  | true =>
    have empty := (acked.fin fin).1
    rcases h.fit.waits_for_fin synced acked fin with state | state | state <;>
      rw [fin, state] at fit <;> rw [state] at heard ⊢
    · exact h.of_drained fit rfl rfl rfl empty (heard (by decide))
    · exact h.of_drained fit rfl rfl rfl empty (heard (by decide))
    · apply tcpFinish_sound h (s := .finWait2)
      · exact h.fit.finAcked acked fin rfl
      · rfl
  | false =>
    rw [fin] at fit
    rcases (Bool.or_eq_true _ _).mp synced with outputs | drained
    · have open_ := (State.outputs_only outputs).2.2.2
      refine h.of_outputs fit outputs rfl rfl h.early ?_ (heard open_)
      intro sent
      exact (fit.fin outputs sent).resolve_left fun same => by
        have all := h.all outputs sent
        have data := (acked.data fin).2.1
        have same : c.tx.sndNxt = ack := same
        rw [same] at all
        omega
    · exact absurd (h.fit.drained drained).2 acked.flying

theorem finOut_finSeen (now : U32) (c : Conn) :
    (finOut now c).state.finSeen = c.state.finSeen ∧ (finOut now c).rx = c.rx := by
  unfold finOut
  cases c.state <;> exact ⟨rfl, rfl⟩

theorem finOut_sound (h : Sound c) (later : c.state.later)
    (fit : Fit (finOut now c).state (finOut now c).tx) (waits : c.tx.finSent = false)
    (out : c.flight = BitVec.ofNat 32 c.tx.sndLen) : Sound (finOut now c) := by
  obtain ⟨seen, rx⟩ := finOut_finSeen now c
  rcases State.later_cases later with synced | closed
  · rcases (Bool.or_eq_true _ _).mp synced with outputs | drained
    · obtain ⟨tx, -, -, outputs', half⟩ := finOut_spec now outputs
      refine h.of_outputs fit outputs' (congrArg _ rx) (congrArg _ rx) (fun e => absurd e half) ?_ ?_
      · intro _
        have room := h.fit.room
        simp only [tcpBufSize] at room
        have out : c.tx.sndNxt - c.tx.sndUna = BitVec.ofNat 32 c.tx.sndLen := out
        rw [tx]
        bv_omega
      · rw [seen, rx]
        exact h.heard (State.outputs_only outputs).2.2.2
    · cases waits.symm.trans (h.fit.drained drained).1
  · have over_ : (finOut now c).state = .closed := by simp [finOut, closed]
    exact h.of_idle fit (.inl over_) (congrArg _ rx) (congrArg _ rx) fun e => by cases over_.symm.trans e

/-- Bytes that are taken fit into the ring. -/
theorem takeData_bounds (r : Rx) (seq : U32) (data : List U8) (room : r.rcvLen ≤ tcpBufSize) :
    (takeData r seq data).1.rcvLen ≤ tcpBufSize ∧ (takeData r seq data).1.rcvHead = r.rcvHead ∧
    (takeData r seq data).1.finReceived = r.finReceived := by
  have stored (bytes : List U8) :
      (r.store (bytes.take (tcpBufSize - r.rcvLen))).rcvLen ≤ tcpBufSize := by
    simp only [Rx.store, List.length_take]
    omega
  unfold takeData
  dsimp only
  split
  · exact ⟨room, rfl, rfl⟩
  split
  · exact ⟨room, rfl, rfl⟩
  · exact ⟨stored _, rfl, rfl⟩

/-- The peer's FIN comes once, in a state that still receives. -/
theorem Sound.before_fin (h : Sound c) (synced : c.state.synced)
    (first : c.rx.finReceived = false) :
    c.state = .established ∨ c.state = .finWait1 ∨ c.state = .finWait2 := by
  have unseen : c.state ≠ .closed → c.state.finSeen = false := fun open_ =>
    (h.heard open_).symm.trans first
  cases state : c.state with
  | established => exact .inl rfl
  | finWait1 => exact .inr (.inl rfl)
  | finWait2 => exact .inr (.inr rfl)
  | closed | listen | synSent | synReceived =>
    rw [state] at synced
    cases synced
  | closeWait | closing | lastAck | timeWait =>
    rw [state] at unseen
    cases unseen (by decide)

theorem takeFin_sound (h : Sound c) (synced : c.state.synced)
    (first : c.rx.finReceived = false) : Sound (takeFin now c) := by
  have fit := h.fit.takeFin synced now
  have early := h.early
  have all := h.all
  have empty := h.empty
  unfold takeFin at fit ⊢
  dsimp only at fit ⊢
  rcases h.before_fin synced first with state | state | state <;>
    rw [state] at fit early all empty ⊢
  · exact h.of_outputs fit rfl rfl rfl (fun _ => early (.inl rfl)) (all rfl) rfl
  · exact h.of_outputs fit rfl rfl rfl (fun e => by rcases e with e | e <;> cases e) (all rfl) rfl
  · exact h.of_drained fit rfl rfl rfl (empty rfl) rfl

/-- The handshake's ACK. -/
theorem establish_sound {d : Conn} (h : Sound c) (opening : c.state.opening)
    (fit : Fit .established (establish now d (c.tx.iss + 1)).tx)
    (sent : d.tx.finSent = c.tx.finSent) (len : d.rx.rcvLen = c.rx.rcvLen)
    (head : d.rx.rcvHead = c.rx.rcvHead) (fin : d.rx.finReceived = c.rx.finReceived) :
    Sound (establish now d (c.tx.iss + 1)) := by
  have none : d.tx.finSent = false := sent.trans (h.fresh opening).2
  have open_ : c.state ≠ .closed := fun e => by rw [e] at opening; cases opening
  have unseen : c.state.finSeen = false := by
    cases state : c.state <;> rw [state] at opening <;> first | rfl | cases opening
  exact h.of_outputs fit rfl len head (fun _ => none) (fun sent => by cases none.symm.trans sent)
    ((fin.trans (h.heard open_)).trans unseen)

theorem Move.sound {rst : Prop} (h : Move rst shut now a b) (sound : Sound a) : Sound b := by
  have fit := h.fit sound.fit
  cases h with
  | noted => exact sound.same rfl rfl rfl
  | blocked =>
    obtain ⟨state, tx, rx, -⟩ := armTimer_same now a
    exact sound.same state tx rx
  | piece later live waits held room =>
    obtain ⟨state, tx, rx, -⟩ := piece_same now a
    have sent : (armTimer now (startTiming now (a.advance a.pieceLen))).tx.finSent = false := by
      rw [tx]
      exact waits
    rcases State.later_cases later with synced | closed
    · rcases (Bool.or_eq_true _ _).mp synced with outputs | drained
      · refine sound.of_outputs fit (by rw [state]; exact outputs) (congrArg _ rx) (congrArg _ rx)
          (fun _ => sent) (fun e => by cases sent.symm.trans e) ?_
        rw [state, rx]
        exact sound.heard (State.outputs_only outputs).2.2.2
      · cases waits.symm.trans (sound.fit.drained drained).1
    · exact sound.of_idle fit (.inl (state.trans closed)) (congrArg _ rx) (congrArg _ rx)
        fun e => by cases (state.trans closed).symm.trans e
  | fin later live wanted waits out =>
    obtain ⟨state, tx, rx, -⟩ := armTimer_same now (finOut now a)
    rw [state, tx] at fit
    exact (finOut_sound sound later fit waits out).same state tx rx
  | acked ack synced after upto =>
    exact acknowledge_sound sound synced (sound.fit.acked synced after upto)
  | window => exact { sound with fit := fit }
  | stored seq data takes =>
    obtain ⟨len, head, fin⟩ := takeData_bounds a.rx seq data sound.rcvLen
    exact {
      sound with
      rcvLen := len
      rcvHead := by show (takeData a.rx seq data).1.rcvHead < _; rw [head]; exact sound.rcvHead
      heard := fun open_ => fin.trans (sound.heard open_) }
  | finTaken synced first => exact takeFin_sound sound synced first
  | confirmed state | answered s state =>
    exact establish_sound sound (by rw [state]; rfl) fit rfl rfl rfl rfl
  | crossed s state =>
    have opening : a.state.opening := by rw [state]; rfl
    exact {
      fit := fit
      rcvLen := sound.rcvLen
      rcvHead := sound.rcvHead
      fresh := fun _ => sound.fresh opening
      early := fun e => by rcases e with e | e <;> cases e
      all := nofun
      empty := nofun
      heard := fun _ => (sound.heard (by rw [state]; decide)).trans (by rw [state]; rfl) }
  | ended error => exact tcpFinish_sound sound sound.fit rfl error
  | freed => exact zero_sound

/-! Nothing is timed once our FIN is acknowledged. -/

def Conn.Calm (c : Conn) : Prop := c.state.drained = true → c.timers.rtxAt = 0

theorem Conn.Calm.busy (calm : c.Calm) (due : c.timers.rtxAt ≠ 0) : c.state.drained = false := by
  cases drained : c.state.drained with
  | false => rfl
  | true => exact absurd (calm drained) due

theorem Conn.Calm.of_other (other : c.state.drained = false) : c.Calm :=
  fun e => by rw [other] at e; cases e

theorem Move.calm {rst : Prop} (h : Move rst shut now a b) (fit : Fit a.state a.tx) (calm : a.Calm) :
    b.Calm := by
  have unsent (waits : a.tx.finSent = false) : a.state.drained = false := by
    cases drained : a.state.drained with
    | false => rfl
    | true => cases waits.symm.trans (fit.drained drained).1
  cases h with
  | noted | window | stored => exact calm
  | blocked later live waits =>
    exact .of_other ((congrArg _ (armTimer_same now a).1).trans (unsent waits))
  | piece later live waits =>
    refine .of_other (.trans ?_ (unsent waits))
    rw [(piece_same now a).1]
  | fin later live wanted waits =>
    have other := unsent waits
    refine .of_other ?_
    rw [(armTimer_same now _).1]
    unfold finOut
    cases state : a.state <;> rw [state] at other <;> first | rfl | cases other
  | acked ack synced after upto =>
    have to_ := fit.acknowledged synced (fit.acked synced after upto) now
    generalize (acknowledge now a ack).conn = d at to_
    cases to_ with
    | part outputs => exact .of_other (State.outputs_only outputs).2.2.1
    | all _ _ _ off => exact fun _ => off
    | ended => exact .of_other (by rw [tcpFinish_gone]; rfl)
  | finTaken synced first =>
    obtain ⟨-, drained, -, -, timers, -⟩ := takeFin_same now synced
    unfold Conn.Calm
    rw [drained, timers]
    exact calm
  | confirmed | answered | crossed | freed => exact .of_other rfl
  | ended error => exact .of_other (by rw [tcpFinish_gone]; rfl)

/-! The program's and the timers' own steps, in a first life. -/

theorem openConn_sound {isn src ip : U32} {port : U16} (h : Sound c) (fresh : Fresh c)
    (fit : Fit .synSent (openConn now c isn).tx) :
    Sound (openConn now { c with localIp := src, remoteIp := ip, remotePort := port } isn) where
  fit := fit
  rcvLen := h.rcvLen
  rcvHead := h.rcvHead
  fresh := fun _ => ⟨fresh.sndLen, fresh.finSent⟩
  early := fun e => by rcases e with e | e <;> cases e
  all := nofun
  empty := nofun
  heard := fun _ => fresh.finReceived

theorem enqueue_sound {bytes : List U8} (h : Sound c)
    (state : c.state = .established ∨ c.state = .closeWait)
    (fit : Fit c.state (enqueue c bytes).tx) : Sound (enqueue c bytes) := by
  have outputs : c.state.outputs := by rcases state with e | e <;> rw [e] <;> rfl
  have waits : c.tx.finSent = false := h.early state
  refine h.of_outputs fit outputs rfl rfl (fun _ => waits) (fun sent => ?_) ?_
  · cases waits.symm.trans sent
  · exact h.heard (State.outputs_only outputs).2.2.2

theorem goBack_sound (h : Sound c) (fit : Fit c.state (goBack c).tx)
    (open_ : c.state.opening = false) (busy : c.state.drained = false) : Sound (goBack c) where
  fit := fit
  rcvLen := h.rcvLen
  rcvHead := h.rcvHead
  fresh := fun e => by cases open_.symm.trans e
  early := fun _ => rfl
  all := nofun
  empty := fun e => by cases busy.symm.trans e
  heard := h.heard

theorem Deed.sound (h : Deed True shut now a b) (sound : Sound a) (calm : a.Calm) : Sound b := by
  have busy := calm.busy
  have fit := h.fit sound.fit busy
  cases h with
  | bound | given | released | counted | retried => exact sound.same rfl rfl rfl
  | listens backlog used state first =>
    refine sound.of_idle fit (.inr rfl) rfl rfl fun _ => ?_
    rcases state with closed | listens
    · exact (first trivial closed).finReceived
    · exact (sound.heard (by rw [listens]; decide)).trans (by rw [listens]; rfl)
  | opens src ip port isn used state first => exact openConn_sound sound (first trivial) fit
  | armed =>
    obtain ⟨state, tx, rx, -⟩ := armTimer_same now a
    exact sound.same state tx rx
  | enqueued bytes state wanted fits => exact enqueue_sound sound state fit
  | wantsFin => exact { sound with fit := fit }
  | read n =>
    exact {
      sound with
      rcvLen := le_trans (Nat.sub_le _ _) sound.rcvLen
      rcvHead := Nat.mod_lt _ (by decide) }
  | wentBack n due open_ =>
    exact goBack_sound (c := retry now { a with timers.retries := n }) (sound.same rfl rfl rfl) fit open_
      (busy due)

theorem Deed.calm (h : Deed True shut now a b) (calm : a.Calm) : b.Calm := by
  cases h with
  | bound | given | released | counted | read => exact calm
  | listens | opens => exact .of_other rfl
  | armed open_ => exact .of_other ((congrArg _ (armTimer_same now a).1).trans open_)
  | enqueued bytes state | wantsFin state => exact calm
  | retried n due | wentBack n due => exact fun drained => absurd (calm drained) due

theorem Steps.sound (h : Steps True shut now a b) (sound : Sound a) (calm : a.Calm) :
    Sound b ∧ b.Calm :=
  h.keeps (P := fun c => Sound c ∧ c.Calm) ⟨sound, calm⟩ fun step held => by
    cases step with
    | move move => exact ⟨move.sound held.1, move.calm held.1.fit held.2⟩
    | deed deed => exact ⟨deed.sound held.1 held.2, deed.calm held.2⟩

end UzOS.Tcp
