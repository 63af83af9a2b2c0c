import UzOS.Lib.Buffer

/-! One TCP connection of core/tcp/tcp.h, the segments it exchanges, and the
functions of tcp.c that make it, end it and send on it. The clock
(net_now_ms) is an argument of every function that reads it. -/
namespace UzOS.Tcp

def tcpBufSize : Nat := 8192
def tcpDefaultMss : U16 := 536
def ourMss : U16 := 1460
def challengeAcks : Nat := 4
def netTickMs : U32 := 100
def tcpRtoInitial : U32 := 1000
def tcpRtoMin : U32 := 200
def tcpRtoMax : U32 := 30000

def tcpFin : U8 := 0x01
def tcpSyn : U8 := 0x02
def tcpRst : U8 := 0x04
def tcpPsh : U8 := 0x08
def tcpAck : U8 := 0x10

/-- Error numbers, as core/inet/inet.h names them. -/
def netEagain : Int := 11
def netEpipe : Int := 32
def netEaddrinuse : Int := 98
def netEnetunreach : Int := 101
def netEconnreset : Int := 104
def netEisconn : Int := 106
def netEnotconn : Int := 107
def netEtimedout : Int := 110
def netEconnrefused : Int := 111
def netEalready : Int := 114
def netEinprogress : Int := 115

inductive State where
  | closed | listen | synSent | synReceived | established | finWait1 | finWait2
  | closeWait | closing | lastAck | timeWait
  deriving DecidableEq, Repr

/-- The states in which `tcpOutput` has anything to send. -/
def State.outputs : State → Bool
  | .established | .closeWait | .finWait1 | .lastAck | .closing => true
  | _ => false

/-- The states in which data of the peer is taken. -/
def State.takesData : State → Bool
  | .established | .finWait1 | .finWait2 => true
  | _ => false

/-- Sending. `sndbuf` holds the bytes from `sndUna` on: the first
`sndNxt - sndUna` are sent but not acknowledged, the rest unsent. -/
structure Tx where
  iss : U32
  sndUna : U32
  sndNxt : U32
  sndWnd : U32
  mss : U16
  sndbuf : Nat → U8
  sndLen : Nat
  finWanted : Bool
  finSent : Bool

/-- Receiving: a ring of bytes the program has not read yet. -/
structure Rx where
  irs : U32
  rcvNxt : U32
  rcvbuf : Nat → U8
  rcvHead : Nat
  rcvLen : Nat
  finReceived : Bool

structure Timers where
  rtoMs : U32
  srttMs : U32
  rttvarMs : U32
  rttSeq : U32
  rttStart : U32
  rtxAt : U32
  retries : Nat
  probes : Nat
  stateSince : U32

/-- A connection. `sock` and `listener` are the pointers of the source; both
buffers are only indexed below `tcpBufSize`. -/
structure Conn where
  used : Bool
  state : State
  localIp : U32
  remoteIp : U32
  localPort : U16
  remotePort : U16
  sock : Option Nat
  uid : U32
  tx : Tx
  rx : Rx
  timers : Timers
  listener : Option Nat
  backlog : Int
  pending : Int
  challengeSince : U32
  challenges : Nat
  error : Int
  segsIn : U32
  segsOut : U32
  retransmits : U32

/-- A connection slot of zero bytes, as memset leaves it. -/
def Conn.zero : Conn where
  used := false
  state := .closed
  localIp := 0
  remoteIp := 0
  localPort := 0
  remotePort := 0
  sock := none
  uid := 0
  tx := ⟨0, 0, 0, 0, 0, fun _ => 0, 0, false, false⟩
  rx := ⟨0, 0, fun _ => 0, 0, 0, false⟩
  timers := ⟨0, 0, 0, 0, 0, 0, 0, 0, 0⟩
  listener := none
  backlog := 0
  pending := 0
  challengeSince := 0
  challenges := 0
  error := 0
  segsIn := 0
  segsOut := 0
  retransmits := 0

/-- A segment on the wire: the header's fields in host order, the option
bytes after the fixed header, and the data. -/
structure Seg where
  srcIp : U32
  dstIp : U32
  srcPort : U16
  dstPort : U16
  seq : U32
  ack : U32
  flags : U8
  window : U16
  options : List U8
  data : List U8
  deriving DecidableEq, Repr

def Seg.has (s : Seg) (bit : U8) : Bool := flagSet s.flags bit

/-- What a function does besides changing its own connection: send a segment,
take a child out of its listener's queue (`listener->pending--`), or reset the
children of a listener that closes. -/
inductive Effect where
  | send (s : Seg)
  | dequeue (listener : Nat)
  | abortChildren
  deriving DecidableEq, Repr

structure Reply where
  conn : Conn
  effects : List Effect

variable (now : U32) (c : Conn)

def quiet : Reply := ⟨c, []⟩

/-- Run `f` on what `r` left, keeping the effects of both in order. -/
def Reply.andThen (r : Reply) (f : Conn → Reply) : Reply :=
  ⟨(f r.conn).conn, r.effects ++ (f r.conn).effects⟩

def Reply.sent (r : Reply) : List Seg :=
  r.effects.filterMap fun | .send s => some s | _ => none

@[simp] theorem quiet_conn : (quiet c).conn = c := rfl
@[simp] theorem quiet_sent : (quiet c).sent = [] := rfl
@[simp] theorem andThen_conn (r : Reply) (f : Conn → Reply) :
    (r.andThen f).conn = (f r.conn).conn := rfl
@[simp] theorem andThen_sent (r : Reply) (f : Conn → Reply) :
    (r.andThen f).sent = r.sent ++ (f r.conn).sent := by
  simp [Reply.sent, Reply.andThen]

/-! Connections. -/

def tcpSetState (state : State) : Conn :=
  { c with state := state, timers.stateSince := now }

def tcpFree : Reply := ⟨.zero, c.listener.toList.map .dequeue⟩

/-- A socket still holding the connection sees CLOSED and the error; with
nobody holding it the slot is freed. -/
def tcpFinish (error : Int) : Reply :=
  let c := { tcpSetState now c .closed with error := error, timers.rtxAt := 0 }
  if c.sock.isSome then quiet c else tcpFree c

/-- The slot `tcp_new` hands out, once its quota and a free slot are found. -/
def tcpNew (now uid : U32) : Conn :=
  tcpSetState now { Conn.zero with
    used := true, uid := uid, tx.mss := tcpDefaultMss, timers.rtoMs := tcpRtoInitial } .closed

/-! Sending segments. -/

def receiveWindow : U16 := BitVec.ofNat 16 tcpBufSize - BitVec.ofNat 16 c.rx.rcvLen

/-- The MSS option a SYN carries: kind 2, length 4, `ourMss`. -/
def mssOption : List U8 := [2, 4, 5, 180]

def sendRaw (src dst : U32) (sport dport : U16) (seq ack : U32) (flags : U8) (window : U16)
    (mss : Bool) (data : List U8) : Seg :=
  ⟨src, dst, sport, dport, seq, ack, flags, window, if mss then mssOption else [], data⟩

def tcpSendSegment (flags : U8) (seq : U32) (data : List U8) : Reply :=
  ⟨{ c with segsOut := c.segsOut + 1 },
    [.send (sendRaw c.localIp c.remoteIp c.localPort c.remotePort seq
      (if flagSet flags tcpAck then c.rx.rcvNxt else 0) flags (receiveWindow c)
      (flagSet flags tcpSyn) data)]⟩

def sendAck : Reply := tcpSendSegment c tcpAck c.tx.sndNxt []

/-- At most `challengeAcks` answers to unusable segments in `netTickMs`. -/
def challengeAck : Reply :=
  let c := if netTickMs ≤ now - c.challengeSince
    then { c with challengeSince := now, challenges := 0 } else c
  let next := { c with challenges := c.challenges + 1 }
  if c.challenges < challengeAcks then sendAck next else quiet next

def armTimer : Conn :=
  if c.timers.rtxAt = 0 then { c with timers.rtxAt := now + c.timers.rtoMs } else c

end UzOS.Tcp
