import UzOS.Tcp.Conn

/-! tcp.c's sending half: what the window allows goes out, and the calls a
socket makes on its connection. -/
namespace UzOS.Tcp

variable (now : U32) (c : Conn)

/-- Sent, not yet acknowledged. -/
def Conn.flight : U32 := c.tx.sndNxt - c.tx.sndUna

def Conn.unsent : U32 := BitVec.ofNat 32 c.tx.sndLen - c.flight

def Conn.room : U32 := if c.flight < c.tx.sndWnd then c.tx.sndWnd - c.flight else 0

/-- How much of the unsent data one segment carries. -/
def Conn.pieceLen : Nat :=
  let n := if c.unsent < c.room then c.unsent else c.room
  if c.tx.mss.toNat < n.toNat then c.tx.mss.toNat else n.toNat

/-- Time this segment, if none is being timed. -/
def startTiming : Conn :=
  if c.timers.rttSeq = 0 then { c with timers.rttSeq := c.tx.sndNxt, timers.rttStart := now } else c

/-- `n` more bytes are out. -/
def Conn.advance (n : Nat) : Conn :=
  { c with tx.sndNxt := c.tx.sndNxt + BitVec.ofNat 32 n }

/-- Our side is updated first, then the piece goes out: on lo the answer can
arrive before the send returns. -/
def outputPiece : Reply :=
  tcpSendSegment (armTimer now (startTiming now (c.advance c.pieceLen))) (tcpAck ||| tcpPsh)
    c.tx.sndNxt (Buffer.slice c.tx.sndbuf c.flight.toNat c.pieceLen)

/-- One pass of `tcp_output`'s loop: either it breaks, or it sent a piece. -/
inductive Pass where
  | stop (c : Conn)
  | sent (r : Reply)

def outputPass : Pass :=
  if c.tx.finSent || c.unsent == 0 then .stop c
  else if c.room == 0 then .stop (armTimer now c)
  else .sent (outputPiece now c)

/-- The loop. Each pass sends at least one byte of `unsent` (an MSS is never
0), so `unsent + 1` passes are enough to reach a break. -/
def outputLoop (now : U32) : Nat → Conn → Reply
  | 0, c => quiet c
  | fuel + 1, c =>
    match outputPass now c with
    | .stop c => quiet c
    | .sent r => r.andThen (outputLoop now fuel)

/-- The FIN takes one sequence number, and the first one moves the state. -/
def finOut : Conn :=
  let next := { c with tx.sndNxt := c.tx.sndNxt + 1, tx.finSent := true }
  match c.state with
  | .established => tcpSetState now next .finWait1
  | .closeWait => tcpSetState now next .lastAck
  | _ => next

def sendFin : Reply :=
  tcpSendSegment (armTimer now (finOut now c)) (tcpFin ||| tcpAck) c.tx.sndNxt []

/-- The FIN, once all of the data is out. -/
def outputFin : Reply :=
  if c.tx.finWanted && !c.tx.finSent && c.flight == BitVec.ofNat 32 c.tx.sndLen then sendFin now c
  else quiet c

def tcpOutput : Reply :=
  if c.state.outputs then (outputLoop now (c.unsent.toNat + 1) c).andThen (outputFin now)
  else quiet c

/-! Using a connection (sock_tcp.c). -/

/-- The connection a socket gets from tcp_new, perhaps bound. -/
def socketConn (now uid : U32) (sock : Nat) (bindIp : U32) (bindPort : U16) : Conn :=
  { tcpNew now uid with sock := some sock, localIp := bindIp, localPort := bindPort }

/-- An active open, on a connection that has its addresses: the SYN takes one
sequence number. -/
def openConn (isn : U32) : Conn :=
  tcpSetState now { c with tx.iss := isn, tx.sndUna := isn, tx.sndNxt := isn + 1 } .synSent

def openActive (isn : U32) : Reply :=
  (tcpSendSegment (openConn now c isn) tcpSyn isn []).andThen fun c => quiet (armTimer now c)

/-- `route` is what route_lookup found (our address on the way), `ephemeral`
the port tcp_bind chose for an unbound connection, `isn` the new_isn. -/
def tcpConnect (ip : U32) (port : U16) (route : Option U32)
    (ephemeral : Option U16) (isn : U32) : Int × Reply :=
  if c.state ≠ .closed then
    (if c.state = .synSent then -netEalready else -netEisconn, quiet c)
  else match route with
    | none => (-netEnetunreach, quiet c)
    | some src =>
      match (if c.localPort = 0 then ephemeral.map fun p => { c with localIp := 0, localPort := p }
        else some c) with
      | none => (-netEaddrinuse, quiet c)
      | some c => (-netEinprogress, openActive now { c with
          localIp := if c.localIp = 0 then src else c.localIp
          remoteIp := ip, remotePort := port } isn)

/-- Does `tcpConnect` get as far as its SYN? -/
def Conn.opens (route : Option U32) (ephemeral : Option U16) : Bool :=
  c.state == .closed && route.isSome && (c.localPort != 0 || ephemeral.isSome)

/-- Append to the send buffer. -/
def enqueue (bytes : List U8) : Conn :=
  { c with
    tx.sndbuf := Buffer.blit c.tx.sndbuf c.tx.sndLen bytes
    tx.sndLen := c.tx.sndLen + bytes.length }

def tcpSend (buf : List U8) : Int × Reply :=
  if c.state = .synSent || c.state = .synReceived then (-netEagain, quiet c)
  else if c.state ≠ .established && c.state ≠ .closeWait then
    (if c.error ≠ 0 then -c.error else if c.state = .closed then -netEnotconn else -netEpipe, quiet c)
  else if c.tx.finWanted then (-netEpipe, quiet c)
  else
    let room := tcpBufSize - c.tx.sndLen
    if room = 0 then (-netEagain, quiet c)
    else ((buf.take room).length, tcpOutput now (enqueue c (buf.take room)))

/-- The bytes the program has not read yet. -/
def Conn.unread : List U8 :=
  Buffer.ringRead tcpBufSize c.rx.rcvbuf c.rx.rcvHead c.rx.rcvLen

/-- Take `n` bytes off the front of the receive ring. -/
def dequeue (n : Nat) : Conn :=
  { c with
    rx.rcvHead := (c.rx.rcvHead + n) % tcpBufSize
    rx.rcvLen := c.rx.rcvLen - n }

/-- The result, the bytes stored in the caller's buffer, and the connection. -/
def tcpRecv (len : Nat) (peek : Bool) : Int × List U8 × Reply :=
  if c.rx.rcvLen = 0 then
    (if c.rx.finReceived then 0
     else if c.state = .closed then (if c.error ≠ 0 then -c.error else 0)
     else if c.state = .listen then -netEnotconn
     else -netEagain, [], quiet c)
  else
    let n := if len < c.rx.rcvLen then len else c.rx.rcvLen
    let after := dequeue c n
    (n, Buffer.ringRead tcpBufSize c.rx.rcvbuf c.rx.rcvHead n,
      if peek then quiet c
      else if receiveWindow c < c.tx.mss && c.tx.mss ≤ receiveWindow after && c.state.takesData
      then sendAck after
      else quiet after)

def wantFin : Conn := { c with tx.finWanted := true }

def tcpShutdownWrite : Reply :=
  if c.state = .established || c.state = .closeWait then tcpOutput now (wantFin c) else quiet c

/-- The program is done with the connection: data it never read aborts it,
else it lives on as an orphan until its FIN is through. -/
def tcpClose : Reply :=
  let c := { c with sock := none }
  match c.state with
  | .listen => (⟨c, [.abortChildren]⟩ : Reply).andThen tcpFree
  | .closed | .synSent => tcpFree c
  | .synReceived | .established | .closeWait =>
    if c.rx.rcvLen ≠ 0 then (tcpSendSegment c (tcpRst ||| tcpAck) c.tx.sndNxt []).andThen tcpFree
    else tcpOutput now (wantFin c)
  | _ => quiet c

end UzOS.Tcp
