import UzOS.Tcp.Timer
import UzOS.Lib.Talk

/-! The same calls and timers where a send may be answered before it returns:
netdev_receive on lo drains the backlog inside netdev_transmit, so everything
that arrives is handled in the middle of the function that sent. Sends made
while the backlog is drained only join it: what an arriving segment does is
not interrupted. -/
namespace UzOS.Tcp

abbrev Dialog := Talk Conn Effect

/-- Go on with `next` after a step with at most one effect, from whatever the
connection has become by then. -/
def Reply.tell (r : Reply) (next : Conn → Dialog) : Dialog :=
  match r.effects with
  | [] => next r.conn
  | e :: _ => .say r.conn e next

def outputLoopTalk (now : U32) : Nat → Conn → Dialog
  | 0, c => .done c
  | fuel + 1, c =>
    match outputPass now c with
    | .stop c => .done c
    | .sent r => r.tell (outputLoopTalk now fuel)

variable (now : U32) (c : Conn)

def outputFinTalk : Dialog := (outputFin now c).tell .done

def tcpOutputTalk : Dialog :=
  if c.state.outputs then
    (outputLoopTalk now (c.unsent.toNat + 1) c).andThen (outputFinTalk now)
  else .done c

/-- The SYN is sent first and the timer armed behind it. -/
def openActiveTalk (isn : U32) : Dialog :=
  (tcpSendSegment (openConn now c isn) tcpSyn isn []).tell fun c => .done (armTimer now c)

def tcpConnectTalk (ip : U32) (port : U16) (route : Option U32)
    (ephemeral : Option U16) (isn : U32) : Int × Dialog :=
  if c.state ≠ .closed then
    (if c.state = .synSent then -netEalready else -netEisconn, .done c)
  else match route with
    | none => (-netEnetunreach, .done c)
    | some src =>
      match (if c.localPort = 0 then ephemeral.map fun p => { c with localIp := 0, localPort := p }
        else some c) with
      | none => (-netEaddrinuse, .done c)
      | some c => (-netEinprogress, openActiveTalk now { c with
          localIp := if c.localIp = 0 then src else c.localIp
          remoteIp := ip, remotePort := port } isn)

def tcpSendTalk (buf : List U8) : Int × Dialog :=
  if c.state = .synSent || c.state = .synReceived then (-netEagain, .done c)
  else if c.state ≠ .established && c.state ≠ .closeWait then
    (if c.error ≠ 0 then -c.error else if c.state = .closed then -netEnotconn else -netEpipe, .done c)
  else if c.tx.finWanted then (-netEpipe, .done c)
  else
    let room := tcpBufSize - c.tx.sndLen
    if room = 0 then (-netEagain, .done c)
    else ((buf.take room).length, tcpOutputTalk now (enqueue c (buf.take room)))

/-- The only send of tcp_recv is its last step. -/
def tcpRecvTalk (len : Nat) (peek : Bool) : Int × List U8 × Dialog :=
  let (result, bytes, reply) := tcpRecv c len peek
  (result, bytes, reply.tell .done)

def tcpShutdownWriteTalk : Dialog :=
  if c.state = .established || c.state = .closeWait then tcpOutputTalk now (wantFin c) else .done c

def tcpCloseTalk : Dialog :=
  let c := { c with sock := none }
  match c.state with
  | .listen => .say c .abortChildren fun c => (tcpFree c).tell .done
  | .closed | .synSent => (tcpFree c).tell .done
  | .synReceived | .established | .closeWait =>
    if c.rx.rcvLen ≠ 0 then
      (tcpSendSegment c (tcpRst ||| tcpAck) c.tx.sndNxt []).tell fun c => (tcpFree c).tell .done
    else tcpOutputTalk now (wantFin c)
  | _ => .done c

def resendTalk : Dialog :=
  match c.state with
  | .synSent => (tcpSendSegment c tcpSyn c.tx.iss []).tell .done
  | .synReceived => (tcpSendSegment c (tcpSyn ||| tcpAck) c.tx.iss []).tell .done
  | _ =>
    if c.tx.sndUna = c.tx.sndNxt && c.tx.sndLen ≠ 0 && c.tx.sndWnd = 0 then
      (probe now c).tell .done
    else tcpOutputTalk now (goBack c)

/-- retransmit, up to what it sends. -/
def retry : Conn :=
  let rto := if tcpRtoMax < c.timers.rtoMs * 2 then tcpRtoMax else c.timers.rtoMs * 2
  { c with
    timers.rtoMs := rto, timers.rtxAt := now + rto, timers.rttSeq := 0
    retransmits := c.retransmits + 1 }

def retransmitTalk : Dialog :=
  let limit := if c.state = .synSent || c.state = .synReceived then tcpSynRetries else tcpDataRetries
  let c := { c with timers.retries := c.timers.retries + 1 }
  if limit < c.timers.retries then (tcpFinish now c netEtimedout).tell .done
  else resendTalk now (retry now c)

def tcpTickTalk : Dialog :=
  let inState := now - c.timers.stateSince
  if !c.used then .done c
  else if c.state = .timeWait && tcpTimeWaitMs ≤ inState then
    (if c.sock.isSome then tcpFinish now c 0 else tcpFree c).tell .done
  else if c.state = .finWait2 && c.sock.isNone && tcpFinWait2Ms ≤ inState then
    (tcpFree c).tell .done
  else if c.timers.rtxAt ≠ 0 && 0 ≤ (now - c.timers.rtxAt).toInt then retransmitTalk now c
  else .done c

/-! With nothing drained these are the functions of Output and Timer. -/

def Dialog.reply (t : Dialog) : Reply := ⟨t.alone.1, t.alone.2⟩

variable (now : U32) (c : Conn)

theorem tell_reply {r : Reply} (one : r.effects.length ≤ 1) (next : Conn → Dialog) :
    Dialog.reply (r.tell next) = r.andThen fun c => Dialog.reply (next c) := by
  obtain ⟨conn, effects⟩ := r
  cases effects with
  | nil => rfl
  | cons e rest =>
    cases rest with
    | nil => rfl
    | cons e' rest => simp at one

theorem andThen_reply (t : Dialog) (f : Conn → Dialog) :
    Dialog.reply (t.andThen f) = (Dialog.reply t).andThen fun c => Dialog.reply (f c) := by
  induction t with
  | done c => rfl
  | say c e next ih =>
    have rest := ih c
    simp only [Dialog.reply, Reply.andThen, Reply.mk.injEq] at rest ⊢
    exact ⟨rest.1, congrArg _ rest.2⟩

theorem andThen_quiet (r : Reply) : (r.andThen fun c => quiet c) = r := by
  simp [Reply.andThen, quiet]

/-- A step with at most one effect, and nothing behind it. -/
theorem tell_done_reply {r : Reply} (one : r.effects.length ≤ 1) :
    Dialog.reply (r.tell .done) = r :=
  (tell_reply one _).trans (andThen_quiet r)

theorem tcpSendSegment_one (flags : U8) (seq : U32) (data : List U8) :
    (tcpSendSegment c flags seq data).effects.length ≤ 1 := le_refl 1

theorem tcpFree_one : (tcpFree c).effects.length ≤ 1 := by
  unfold tcpFree
  cases c.listener <;> simp

theorem tcpFinish_one (error : Int) : (tcpFinish now c error).effects.length ≤ 1 := by
  unfold tcpFinish
  dsimp only
  split
  · exact zero_le
  · exact tcpFree_one _

theorem outputFin_one : (outputFin now c).effects.length ≤ 1 := by
  unfold outputFin
  split
  · exact le_refl 1
  · exact zero_le

theorem outputLoopTalk_reply (fuel : Nat) (c : Conn) :
    Dialog.reply (outputLoopTalk now fuel c) = outputLoop now fuel c := by
  induction fuel generalizing c with
  | zero => rfl
  | succ fuel ih =>
    rw [outputLoopTalk, outputLoop]
    cases sent : outputPass now c with
    | stop d => rfl
    | sent r =>
      have one : r.effects.length ≤ 1 := by
        unfold outputPass at sent
        split at sent
        · cases sent
        split at sent
        · cases sent
        cases sent
        exact le_refl 1
      exact (tell_reply one _).trans (congrArg r.andThen (funext ih))

theorem tcpOutputTalk_reply : Dialog.reply (tcpOutputTalk now c) = tcpOutput now c := by
  unfold tcpOutputTalk tcpOutput
  split
  · rw [andThen_reply, outputLoopTalk_reply]
    exact congrArg _ (funext fun c => tell_done_reply (outputFin_one now c))
  · rfl

/-- An aborted connection: the RST, then the slot is freed. -/
theorem reset_reply (flags : U8) (seq : U32) :
    Dialog.reply ((tcpSendSegment c flags seq []).tell fun c => (tcpFree c).tell .done) =
      (tcpSendSegment c flags seq []).andThen tcpFree := by
  rw [tell_reply (tcpSendSegment_one c flags seq [])]
  exact congrArg _ (funext fun c => tell_done_reply (tcpFree_one c))

theorem tcpCloseTalk_reply : Dialog.reply (tcpCloseTalk now c) = tcpClose now c := by
  unfold tcpCloseTalk tcpClose
  cases c.state with
  | listen =>
    exact (tell_reply (r := ⟨_, [.abortChildren]⟩) (le_refl 1) _).trans
      (congrArg _ (funext fun c => tell_done_reply (tcpFree_one c)))
  | closed | synSent => exact tell_done_reply (tcpFree_one _)
  | synReceived | established | closeWait =>
    dsimp only
    split
    · exact reset_reply _ _ _
    · exact tcpOutputTalk_reply now _
  | finWait1 | finWait2 | closing | lastAck | timeWait => rfl

theorem probe_one : (probe now c).effects.length ≤ 1 := by
  unfold probe
  dsimp only
  split
  · exact tcpFinish_one _ _ _
  · exact le_refl 1

theorem resendTalk_reply : Dialog.reply (resendTalk now c) = resend now c := by
  unfold resendTalk resend
  cases c.state with
  | synSent | synReceived => rfl
  | _ =>
    dsimp only
    split
    · exact tell_done_reply (probe_one now c)
    · exact tcpOutputTalk_reply now _

theorem tcpTickTalk_reply : Dialog.reply (tcpTickTalk now c) = tcpTick now c := by
  unfold tcpTickTalk tcpTick
  dsimp only
  split
  · rfl
  split
  · refine tell_done_reply ?_
    split
    · exact tcpFinish_one now c 0
    · exact tcpFree_one c
  · split
    · exact tell_done_reply (tcpFree_one c)
    split
    · unfold retransmitTalk retransmit
      dsimp only
      generalize (if (c.state = .synSent || c.state = .synReceived) = true then _ else _ : Nat) =
        limit
      split
      · exact tell_done_reply (tcpFinish_one _ _ _)
      · exact resendTalk_reply now _
    · rfl

/-! One connection over time. -/

/-- What the stack may bring a connection: a segment, or word from ICMP that
the segment `seq` of ours could not be delivered. -/
inductive Arrival where
  | segment (s : Seg)
  | unreachable (seq : U32) (err : Int)

def hear (now : U32) (c : Conn) : Arrival → Conn
  | .segment s => (tcpReceive now c s).conn
  | .unreachable seq err => (tcpIcmpError now c seq err).conn

variable (now : U32) (c : Conn)

/-- What is drained while a segment is sent. -/
def drain (arrivals : List Arrival) : Effect → Conn → Conn
  | .send _, c => arrivals.foldl (hear now) c
  | _, c => c

def netEinval : Int := 22
def tcpMaxBacklog : Int := 16

/-- `ephemeral` is the port tcp_bind chose for an unbound connection. -/
def tcpListen (backlog : Int) (ephemeral : Option U16) : Int × Conn :=
  if c.state ≠ .closed && c.state ≠ .listen then (-netEinval, c)
  else
    match (if c.localPort = 0 then ephemeral.map fun p => { c with localIp := 0, localPort := p }
      else some c) with
    | none => (-netEaddrinuse, c)
    | some c =>
      let backlog := if backlog < 1 then 1 else if tcpMaxBacklog < backlog then tcpMaxBacklog else backlog
      (0, tcpSetState now { c with backlog := backlog } .listen)

/-- Is the connection one that accept() takes? -/
def Conn.ready : Bool :=
  c.listener.isSome && c.sock.isNone && (c.state = .established || c.state = .closeWait)

/-- accept() gives the connection to the new socket; without one (socket_create
failed) it is closed. -/
def tcpAcceptTalk (sock : Option Nat) : Dialog :=
  if c.ready then
    let c := { c with listener := none, sock := sock }
    if sock.isSome then .done c else tcpCloseTalk now c
  else .done c

/-- What can happen to a connection in use. -/
inductive Act where
  | bind (ip : U32) (port : U16)
  | listen (backlog : Int) (ephemeral : Option U16)
  | connect (ip : U32) (port : U16) (route : Option U32) (ephemeral : Option U16) (isn : U32)
  | accept (sock : Option Nat)
  | send (buf : List U8)
  | recv (len : Nat) (peek : Bool)
  | shutdownWrite
  | close
  | arrive (a : Arrival)
  | tick

/-- Is it a call of the program that holds the connection? -/
def Act.isCall : Act → Bool
  | .accept _ | .arrive _ | .tick => false
  | _ => true

def Act.dialog : Act → Dialog
  | .bind ip port => .done (if c.localPort = 0 then { c with localIp := ip, localPort := port } else c)
  | .listen backlog ephemeral => .done (tcpListen now c backlog ephemeral).2
  | .connect ip port route ephemeral isn => (tcpConnectTalk now c ip port route ephemeral isn).2
  | .accept sock => tcpAcceptTalk now c sock
  | .send buf => (tcpSendTalk now c buf).2
  | .recv len peek => (tcpRecvTalk c len peek).2.2
  | .shutdownWrite => tcpShutdownWriteTalk now c
  | .close => tcpCloseTalk now c
  | .arrive a => .done (hear now c a)
  | .tick => tcpTickTalk now c

/-- A thing that happens while the clock reads `now`, with what is drained in
each of its sends. -/
structure Turn where
  now : U32
  act : Act
  drained : List (List Arrival)

/-- Only a program that still holds the connection calls. -/
def Conn.turn (t : Turn) : Conn :=
  if c.used && (!t.act.isCall || c.sock.isSome) then
    (t.act.dialog t.now c).run (drain t.now) [] t.drained
  else c

end UzOS.Tcp
