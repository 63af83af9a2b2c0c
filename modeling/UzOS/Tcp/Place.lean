import UzOS.Tcp.Table
import UzOS.Tcp.Moves

/-! What a connection is to the others in the table: its addresses, whose child
it is, and whether it listens. Nothing that goes on at a connection changes
these, unless its slot is freed, and then its listener is told. -/
namespace UzOS.Tcp

def Conn.tuple (c : Conn) : U32 × U16 × U32 × U16 := (c.localIp, c.localPort, c.remoteIp, c.remotePort)

/-- What the others in the table know of a connection. -/
def Conn.place (c : Conn) : Bool × Option Nat × Int × Int × Option Nat × U32 × U16 × U32 × U16 :=
  (c.used, c.listener, c.pending, c.backlog, c.sock, c.tuple)

/-- `calm` says that no listener is ended by a timer. -/
structure Stays (calm : Prop) (c d : Conn) : Prop where
  used : d.used = c.used
  listener : d.listener = c.listener
  pending : d.pending = c.pending
  backlog : d.backlog = c.backlog
  sock : d.sock.isSome = true → c.sock.isSome = true
  tuple : d.tuple = c.tuple
  listen : d.state = .listen → c.state = .listen
  closed : c.state = .closed → d.state = .closed
  ends : c.state = .listen → d.state = .listen ∨ d.state = .closed
  stays : calm → c.state = .listen → d.state = .listen
  timer : calm → d.state = .listen → d.timers.rtxAt = c.timers.rtxAt

variable {calm : Prop} {now : U32}

theorem Stays.refl (c : Conn) : Stays calm c c :=
  ⟨rfl, rfl, rfl, rfl, id, rfl, id, id, .inl, fun _ => id, fun _ _ => rfl⟩

variable {c d : Conn}

theorem Stays.trans {a b : Conn} (h : Stays calm a b) (k : Stays calm b c) : Stays calm a c where
  used := k.used.trans h.used
  listener := k.listener.trans h.listener
  pending := k.pending.trans h.pending
  backlog := k.backlog.trans h.backlog
  sock := fun e => h.sock (k.sock e)
  tuple := k.tuple.trans h.tuple
  listen := fun e => h.listen (k.listen e)
  closed := fun e => k.closed (h.closed e)
  ends := fun l => (h.ends l).elim k.ends fun e => .inr (k.closed e)
  stays := fun e l => k.stays e (h.stays e l)
  timer := fun e l => (k.timer e l).trans (h.timer e (k.listen l))

/-- A connection that stays in its state; a listener keeps its timer. -/
theorem Stays.kept (state : d.state = c.state)
    (rtx : calm → c.state = .listen → d.timers.rtxAt = c.timers.rtxAt)
    (same : d.place = c.place) : Stays calm c d := by
  simp only [Conn.place, Prod.mk.injEq] at same
  obtain ⟨used, listener, pending, backlog, sock, tuple⟩ := same
  exact {
    used := used
    listener := listener
    pending := pending
    backlog := backlog
    sock := fun e => sock ▸ e
    tuple := tuple
    listen := fun e => state ▸ e
    closed := fun e => state.trans e
    ends := fun l => .inl (state.trans l)
    stays := fun _ l => state.trans l
    timer := fun e l => rtx e (state ▸ l) }

/-- Only what concerns nobody else is changed. -/
theorem Stays.inPlace (state : d.state = c.state) (rtx : d.timers.rtxAt = c.timers.rtxAt)
    (same : d.place = c.place) : Stays calm c d :=
  .kept state (fun _ _ => rtx) same

theorem Stays.silent (other : calm → c.state ≠ .listen) (state : d.state = c.state)
    (same : d.place = c.place) : Stays calm c d :=
  .kept state (fun e l => absurd l (other e)) same

/-- A connection that is neither CLOSED nor listens, and does not come to listen. -/
theorem Stays.moved (other : c.state ≠ .listen) (open_ : c.state ≠ .closed)
    (state : d.state ≠ .listen) (same : d.place = c.place) : Stays calm c d := by
  simp only [Conn.place, Prod.mk.injEq] at same
  obtain ⟨used, listener, pending, backlog, sock, tuple⟩ := same
  exact {
    used := used
    listener := listener
    pending := pending
    backlog := backlog
    sock := fun e => sock ▸ e
    tuple := tuple
    listen := fun e => absurd e state
    closed := fun e => absurd e open_
    ends := fun l => absurd l other
    stays := fun _ l => absurd l other
    timer := fun _ l => absurd l state }

/-- What a dialog may find when it goes on: only a program makes a connection
listen, with its timer off where listeners last. -/
def Resumes (calm : Prop) (d d' : Conn) : Prop :=
  (d'.state = .listen → d.state = .listen) ∧ (calm → d'.state = .listen → d'.timers.rtxAt = 0)

/-- A dialog that leaves its connection in its place or frees it, wherever it
is interrupted. -/
inductive Tidy (calm : Prop) : Conn → Dialog → Prop where
  | done {c d : Conn} (stays : Stays calm c d) : Tidy calm c (.done d)
  | gone {c : Conn} (lasts : calm → c.state ≠ .listen) (alone : c.listener = none) :
      Tidy calm c (.done .zero)
  | sent {c d : Conn} {s : Seg} {next : Conn → Dialog} (stays : Stays calm c d)
      (rest : ∀ d', Resumes calm d d' → Tidy calm d' (next d')) : Tidy calm c (.say d (.send s) next)
  | freed {c : Conn} {l : Nat} (lasts : calm → c.state ≠ .listen) (child : c.listener = some l) :
      Tidy calm c (.say .zero (.dequeue l) .done)

variable {t : Dialog}

theorem Tidy.after (stays : Stays calm c d) (h : Tidy calm d t) : Tidy calm c t := by
  cases h with
  | done k => exact .done (stays.trans k)
  | gone lasts alone =>
    exact .gone (fun e l => lasts e (stays.stays e l)) (stays.listener.symm.trans alone)
  | sent k rest => exact .sent (stays.trans k) rest
  | freed lasts child =>
    exact .freed (fun e l => lasts e (stays.stays e l)) (stays.listener.symm.trans child)

theorem Tidy.free (lasts : calm → c.state ≠ .listen) : Tidy calm c ((tcpFree c).tell .done) := by
  unfold tcpFree Reply.tell
  cases child : c.listener with
  | none => exact .gone lasts child
  | some l => exact .freed lasts child

theorem Tidy.finish (lasts : calm → c.state ≠ .listen) (error : Int) :
    Tidy calm c ((tcpFinish now c error).tell .done) := by
  unfold tcpFinish
  dsimp only
  split
  · refine .done ?_
    exact {
      used := rfl
      listener := rfl
      pending := rfl
      backlog := rfl
      sock := id
      tuple := rfl
      listen := nofun
      closed := fun _ => rfl
      ends := fun _ => .inr rfl
      stays := fun e l => absurd l (lasts e)
      timer := nofun }
  · have freed : Tidy calm c ((tcpFree c).tell .done) := .free lasts
    exact freed

theorem Stays.finish (h : Stays calm c d) (lasts : calm → c.state ≠ .listen) (error : Int) :
    Tidy calm c ((tcpFinish now d error).tell .done) :=
  .after h (.finish (fun e l => lasts e (h.listen l)) error)

/-- A segment goes out, and `next` follows. -/
theorem Tidy.send (stays : Stays calm c d) {flags : U8} {seq : U32} {data : List U8}
    {next : Conn → Dialog} (rest : ∀ d', Resumes calm d d' → Tidy calm d' (next d')) :
    Tidy calm c ((tcpSendSegment d flags seq data).tell next) := by
  have counted : Stays calm d (tcpSendSegment d flags seq data).conn := .inPlace rfl rfl rfl
  exact .sent (stays.trans counted) rest

/-! Output. -/

theorem armTimer_place (c : Conn) : (armTimer now c).state = c.state ∧
    (armTimer now c).place = c.place := by
  unfold armTimer
  split <;> exact ⟨rfl, rfl⟩

section
variable (other : calm → c.state ≠ .listen)
include other

theorem armTimer_stays : Stays calm c (armTimer now c) :=
  .silent other (armTimer_place c).1 (armTimer_place c).2

theorem outputPiece_stays : Stays calm c (outputPiece now c).conn := by
  have timed (d : Conn) : (startTiming now d).state = d.state ∧
      (startTiming now d).place = d.place := by
    unfold startTiming
    split <;> exact ⟨rfl, rfl⟩
  have first : Stays calm c (startTiming now (c.advance c.pieceLen)) :=
    .silent other (timed _).1 (timed _).2
  have second : Stays calm _ (armTimer now (startTiming now (c.advance c.pieceLen))) :=
    armTimer_stays fun e l => other e (first.listen l)
  exact first.trans (second.trans (.inPlace rfl rfl rfl))

theorem finOut_stays : Stays calm c (finOut now c) := by
  unfold finOut
  split
  · rename_i state
    exact .moved (by rw [state]; decide) (by rw [state]; decide)
      (by show State.finWait1 ≠ .listen; decide) rfl
  · rename_i state
    exact .moved (by rw [state]; decide) (by rw [state]; decide)
      (by show State.lastAck ≠ .listen; decide) rfl
  · exact .silent other rfl rfl

theorem outputFin_tidy : Tidy calm c (outputFinTalk now c) := by
  unfold outputFinTalk outputFin
  split
  · have out : Stays calm c (finOut now c) := finOut_stays other
    exact .send (out.trans (armTimer_stays fun e l => other e (out.listen l))) fun _ _ => .done (.refl _)
  · exact .done (.refl c)

end

theorem outputLoop_tidy (fuel : Nat) (other : calm → c.state ≠ .listen) :
    Tidy calm c ((outputLoopTalk now fuel c).andThen (outputFinTalk now)) := by
  induction fuel generalizing c with
  | zero => exact outputFin_tidy other
  | succ fuel ih =>
    rw [outputLoopTalk]
    rcases outputPass_cases now c with ⟨pass, -⟩ | ⟨pass, -⟩ | ⟨pass, -⟩ <;> rw [pass]
    · exact outputFin_tidy other
    · have armed : Stays calm c (armTimer now c) := armTimer_stays other
      exact .after armed (outputFin_tidy fun e l => other e (armed.listen l))
    · have piece : Stays calm c (outputPiece now c).conn := outputPiece_stays other
      exact .sent piece fun d resumes => ih fun e l => other e (piece.listen (resumes.1 l))

theorem tcpOutput_tidy (c : Conn) : Tidy calm c (tcpOutputTalk now c) := by
  unfold tcpOutputTalk
  split
  · rename_i outputs
    exact outputLoop_tidy _ fun _ l => by rw [l] at outputs; cases outputs
  · exact .done (.refl c)

theorem Stays.output (h : Stays calm c d) : Tidy calm c (tcpOutputTalk now d) :=
  .after h (tcpOutput_tidy d)

/-! Calls and timers. -/

theorem tcpSend_tidy (c : Conn) (buf : List U8) : Tidy calm c (tcpSendTalk now c buf).2 := by
  unfold tcpSendTalk
  split
  · exact .done (.refl c)
  split
  · exact .done (.refl c)
  split
  · exact .done (.refl c)
  dsimp only
  split
  · exact .done (.refl c)
  have queued : Stays calm c (enqueue c (buf.take (tcpBufSize - c.tx.sndLen))) :=
    .inPlace rfl rfl rfl
  exact queued.output

theorem tcpRecv_tidy (c : Conn) (len : Nat) (peek : Bool) :
    Tidy calm c (tcpRecvTalk c len peek).2.2 := by
  show Tidy calm c ((tcpRecv c len peek).2.2.tell .done)
  unfold tcpRecv
  split
  · exact .done (.refl c)
  dsimp only
  split
  · exact .done (.refl c)
  generalize (if len < c.rx.rcvLen then len else c.rx.rcvLen) = n
  have read : Stays calm c (dequeue c n) := .inPlace rfl rfl rfl
  split
  · exact .send read fun _ _ => .done (.refl _)
  · exact .done read

theorem wantFin_stays (c : Conn) : Stays calm c (wantFin c) := .inPlace rfl rfl rfl

theorem tcpShutdownWrite_tidy (c : Conn) : Tidy calm c (tcpShutdownWriteTalk now c) := by
  unfold tcpShutdownWriteTalk
  split
  · exact (wantFin_stays c).output
  · exact .done (.refl c)

/-- The program lets go of the connection. -/
theorem Stays.release (c : Conn) : Stays calm c { c with sock := none } where
  used := rfl
  listener := rfl
  pending := rfl
  backlog := rfl
  sock := nofun
  tuple := rfl
  listen := id
  closed := id
  ends := .inl
  stays := fun _ => id
  timer := fun _ _ => rfl

theorem Script.tidy {new shut : Prop} (h : Script False False new shut now c t)
    (other : calm → c.state ≠ .listen) : Tidy calm c t := by
  induction h with
  | done c => exact .done (.refl c)
  | moved may | listens may | opens may | writes may | hears may | leaves may => exact may.elim
  | released _ ih => exact .after (.release _) (ih other)
  | counted _ _ _ ih =>
    apply Tidy.after _ (ih other)
    exact .inPlace rfl rfl rfl
  | retried _ _ _ ih =>
    apply Tidy.after _ (ih other)
    exact .silent other rfl rfl
  | finishes => exact (wantFin_stays _).output
  | @goesBack c n =>
    have back : Stays calm c (goBack (retry now { c with timers.retries := n })) := .silent other rfl rfl
    exact back.output
  | sent => exact .send (.refl _) fun _ _ => .done (.refl _)
  | aborts c => exact .send (.refl c) fun _ resumes => .free fun e l => other e (resumes.1 l)
  | freed => exact .free other
  | ended c error => exact .finish other error

/-- The close of a connection that does not listen. -/
theorem tcpClose_tidy (other : c.state ≠ .listen) : Tidy calm c (tcpCloseTalk now c) :=
  @Script.tidy calm now c _ True True (close_script fun l => absurd l other) fun _ => other

/-- A timer that is off in LISTEN leaves listeners alone. -/
theorem tcpTick_tidy (off : c.state = .listen → calm → c.timers.rtxAt = 0) :
    Tidy calm c (tcpTickTalk now c) := by
  by_cases other : calm → c.state ≠ .listen
  · exact @Script.tidy calm now c _ True True tick_script other
  obtain ⟨e, listens⟩ := Classical.not_imp.mp other
  rw [not_not] at listens
  have idle : tcpTickTalk now c = .done c := by simp [tcpTickTalk, listens, off listens e]
  rw [idle]
  exact .done (.refl c)

/-! Arriving segments, which nothing interrupts. -/

/-- What a function leaves of its connection, with the listener told when the
slot was freed. -/
inductive Reply.Tidy (calm : Prop) (c : Conn) (r : Reply) : Prop where
  | stays (stays : Stays calm c r.conn) (told : r.queued = [])
  | freed (lasts : calm → c.state ≠ .listen) (gone : Stays calm .zero r.conn)
      (told : r.queued = c.listener.toList)

theorem andThen_queued (r : Reply) (f : Conn → Reply) :
    (r.andThen f).queued = r.queued ++ (f r.conn).queued := by
  simp [Reply.queued, Reply.andThen]

/-- A dialog that nobody interrupts. -/
theorem Tidy.reply (h : Tidy calm c t) (other : c.state ≠ .listen) :
    (Dialog.reply t).Tidy calm c := by
  induction h with
  | done stays => exact .stays stays rfl
  | gone lasts alone => exact .freed lasts (.refl _) (by rw [alone]; rfl)
  | @sent c d s next stays rest ih =>
    have resumes : Resumes calm d d := ⟨id, fun _ l => absurd (stays.listen l) other⟩
    have queued : (Dialog.reply (.say d (.send s) next)).queued = (Dialog.reply (next d)).queued := rfl
    cases ih d resumes fun l => other (stays.listen l) with
    | stays later told => exact .stays (stays.trans later) (queued.trans told)
    | freed lasts gone told =>
      exact .freed (fun _ => other) gone (queued.trans (told.trans (by rw [stays.listener])))
  | freed lasts child => exact .freed lasts (.refl _) (by rw [child]; rfl)

theorem tcpOutput_reply_tidy (other : c.state ≠ .listen) : (tcpOutput now c).Tidy calm c := by
  rw [← tcpOutputTalk_reply]
  exact (tcpOutput_tidy c).reply other

theorem Stays.finish_reply (h : Stays calm c d) (other : c.state ≠ .listen) (error : Int) :
    (tcpFinish now d error).Tidy calm c := by
  have tidy : Tidy calm c ((tcpFinish now d error).tell .done) := h.finish (fun _ => other) error
  have same := tell_done_reply (tcpFinish_one now d error)
  rw [← same]
  exact tidy.reply other

theorem tcpFree_reply_tidy (other : c.state ≠ .listen) : (tcpFree c).Tidy calm c := by
  refine .freed (fun _ => other) (.refl _) ?_
  unfold tcpFree Reply.queued
  cases c.listener <;> rfl

variable {r : Reply}

/-- First a step that leaves the connection in its place. -/
theorem Reply.Tidy.andThen {f : Conn → Reply} (first : Stays calm c r.conn) (told : r.queued = [])
    (second : (f r.conn).Tidy calm r.conn) : (r.andThen f).Tidy calm c := by
  have queued : (r.andThen f).queued = (f r.conn).queued := by rw [andThen_queued, told, List.nil_append]
  cases second with
  | stays later told => exact .stays (first.trans later) (queued.trans told)
  | freed lasts gone told =>
    refine .freed (fun e l => lasts e (first.stays e l)) gone (queued.trans (told.trans ?_))
    rw [first.listener]

/-- Then a step that leaves what it finds in its place. -/
theorem Reply.Tidy.then {f : Conn → Conn} (first : r.Tidy calm c)
    (second : Stays calm r.conn (f r.conn)) : (r.andThen fun c => quiet (f c)).Tidy calm c := by
  have queued : (r.andThen fun c => quiet (f c)).queued = r.queued := by
    rw [andThen_queued]
    exact List.append_nil _
  cases first with
  | stays stays told => exact .stays (stays.trans second) (queued.trans told)
  | freed lasts gone told => exact .freed lasts (gone.trans second) (queued.trans told)

theorem takeWindow_stays (c : Conn) (ack : U32) (window : U16) :
    Stays calm c (takeWindow c ack window) := by
  unfold takeWindow
  split
  · exact .inPlace rfl rfl rfl
  · exact .refl c

theorem takeFin_stays (synced : c.state.synced) : Stays calm c (takeFin now c) := by
  have other : c.state ≠ .listen := fun l => by rw [l] at synced; cases synced
  have open_ : c.state ≠ .closed := fun l => by rw [l] at synced; cases synced
  unfold takeFin
  split
  · exact .moved other open_ (by show State.closeWait ≠ .listen; decide) rfl
  · exact .moved other open_ (by show State.closeWait ≠ .listen; decide) rfl
  · exact .moved other open_ (by show State.closing ≠ .listen; decide) rfl
  · exact .moved other open_ (by show State.timeWait ≠ .listen; decide) rfl
  · exact .moved other open_ other rfl

theorem Heard.stays (h : Heard now c d) : Stays calm c d := by
  cases h with
  | acked ack synced _ _ goesOn =>
    have other : c.state ≠ .listen := fun l => by rw [l] at synced; cases synced
    have open_ : c.state ≠ .closed := fun l => by rw [l] at synced; cases synced
    unfold acknowledge
    split
    · exact .moved other open_ (by show State.finWait2 ≠ .listen; decide) rfl
    · exact .moved other open_ (by show State.timeWait ≠ .listen; decide) rfl
    · rename_i fin state
      exact absurd ⟨fin, state⟩ goesOn
    · exact .moved other open_ other rfl
  | window ack window => exact takeWindow_stays c ack window
  | stored => exact .inPlace rfl rfl rfl
  | finTaken synced => exact takeFin_stays synced

theorem Trail.tidy (h : Trail now c r) (other : c.state ≠ .listen) : r.Tidy calm c := by
  induction h with
  | ended c => exact .stays (.refl c) rfl
  | @heard a b r h _ ih =>
    have first : Stays calm a b := h.stays
    exact Reply.Tidy.andThen (r := quiet b) (f := fun _ => r) first rfl
      (ih fun l => other (first.listen l))
  | @answers c _ ih =>
    have sent : Stays calm c (sendAck c).conn := .inPlace rfl rfl rfl
    exact .andThen sent rfl (ih other)
  | @closes c ack window state fin =>
    have acked : Stays calm c (c.acked now ack) := .moved other (by rw [state]; decide) other rfl
    rw [acknowledge_closes state fin]
    exact (acked.finish_reply other 0).then (f := fun c => takeWindow c ack window)
      (takeWindow_stays _ ack window)
  | resets c =>
    have sent : Stays calm c (tcpSendSegment c (tcpRst ||| tcpAck) c.tx.sndNxt []).conn :=
      .inPlace rfl rfl rfl
    exact .andThen sent rfl (tcpFree_reply_tidy other)
  | output c => exact tcpOutput_reply_tidy other

theorem Verdict.tidy {s : Seg} (h : Verdict True now s c r) (other : c.state ≠ .listen) :
    r.Tidy calm c := by
  cases h with
  | noted since n segsOut answer =>
    refine .stays (.inPlace rfl rfl rfl) ?_
    cases answer <;> rfl
  | ended error => exact (Stays.refl c).finish_reply other error
  | freed => exact tcpFree_reply_tidy other
  | answered _ state =>
    exact .stays
      (.moved other (by rw [state]; decide) (by show State.established ≠ .listen; decide) rfl) rfl
  | crossed _ state =>
    exact .stays
      (.moved other (by rw [state]; decide) (by show State.synReceived ≠ .listen; decide) rfl) rfl
  | confirmed state =>
    have est : Stays calm c (establish now c s.ack) :=
      .moved other (by rw [state]; decide) (by show State.established ≠ .listen; decide) rfl
    have tidy : (segmentOpen now (establish now c s.ack) s).Tidy calm _ :=
      (segmentOpen_trail (by rfl) s).tidy nofun
    exact Reply.Tidy.andThen (r := quiet _) (f := fun _ => segmentOpen now _ s) est rfl tidy
  | taken synced => exact (segmentOpen_trail (synced trivial) s).tidy other

theorem tcpIcmpError_tidy (c : Conn) (seq : U32) (err : Int) :
    (tcpIcmpError now c seq err).Tidy calm c := by
  unfold tcpIcmpError
  split
  · rename_i opening
    rw [Bool.and_eq_true, decide_eq_true_eq] at opening
    exact (Stays.refl c).finish_reply (by rw [opening.1]; decide) _
  · exact .stays (.refl c) rfl

end UzOS.Tcp
