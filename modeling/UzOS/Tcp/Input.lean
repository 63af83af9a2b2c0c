import UzOS.Tcp.Output

/-! tcp.c's receiving half: what to do with each arriving segment. -/
namespace UzOS.Tcp

/-- read_mss: walk the option bytes of a SYN for its MSS; 0 when there is
none, or when an option runs past the end before it. -/
def readMssLoop : Nat → List U8 → U16
  | 0, _ => 0
  | _ + 1, [] => 0
  | fuel + 1, kind :: rest =>
    if kind = 0 then 0
    else if kind = 1 then readMssLoop fuel rest
    else match rest with
      | [] => 0
      | len :: body =>
        if len.toNat < 2 || body.length + 2 < len.toNat then 0
        else match decide (kind = 2 ∧ len = 4), body with
          | true, hi :: lo :: _ => hi ++ lo
          | _, _ => readMssLoop fuel (body.drop (len.toNat - 2))

def readMss (s : Seg) : U16 := readMssLoop s.options.length s.options

def tcpMssMin : U16 := 48

def defMssClamp (mss : U16) : U16 := if tcpMssMin ≤ mss then mss else tcpMssMin

variable (now : U32) (c : Conn)

/-- The MSS to use with a peer that announced `mss` (0: it did not). -/
def peerMss (mss : U16) : U16 :=
  if mss = 0 then c.tx.mss else if defMssClamp mss < ourMss then defMssClamp mss else ourMss

/-- The receive window test (def_seq_window_check). -/
def inWindow (seq seglen rcvNxt wnd : U32) : Bool :=
  let first := (seq - rcvNxt).toInt
  let last := (seq + seglen - 1 - rcvNxt).toInt
  if seglen = 0 then
    if wnd = 0 then seq == rcvNxt else 0 ≤ first && first < wnd.toInt
  else if wnd = 0 then false
  else (0 ≤ first && first < wnd.toInt) || (0 ≤ last && last < wnd.toInt)

/-- A new round-trip sample. -/
def measure (t : Timers) (rtt : U32) : Timers :=
  let t :=
    if t.srttMs = 0 then { t with srttMs := rtt, rttvarMs := rtt / 2 }
    else
      let diff := if rtt < t.srttMs then t.srttMs - rtt else rtt - t.srttMs
      { t with rttvarMs := (3 * t.rttvarMs + diff) / 4, srttMs := (7 * t.srttMs + rtt) / 8 }
  let rto := t.srttMs + 4 * t.rttvarMs
  { t with rtoMs := if rto < tcpRtoMin then tcpRtoMin else if tcpRtoMax < rto then tcpRtoMax else rto }

/-- Does `ack` acknowledge our FIN? -/
def Tx.finAcked (t : Tx) (ack : U32) : Bool := t.finSent && ack == t.sndNxt

/-- How many bytes of the send buffer `ack` acknowledges. -/
def Tx.ackedData (t : Tx) (ack : U32) : Nat :=
  let data := (ack - t.sndUna - if t.finAcked ack then 1 else 0).toNat
  if t.sndLen < data then t.sndLen else data

/-- The acknowledged bytes leave the send buffer. -/
def Tx.dropAcked (t : Tx) (ack : U32) : Tx :=
  { t with
    sndbuf := fun i =>
      if i < t.sndLen - t.ackedData ack then t.sndbuf (i + t.ackedData ack) else t.sndbuf i
    sndLen := t.sndLen - t.ackedData ack
    sndUna := ack }

/-- The timers after an acknowledgment that left `outstanding` something or
nothing unacknowledged. -/
def Timers.acked (t : Timers) (now ack : U32) (outstanding : Bool) : Timers :=
  let t := if t.rttSeq != 0 && Serial.ge ack t.rttSeq
    then { measure t (now - t.rttStart) with rttSeq := 0 } else t
  { t with retries := 0, rtxAt := if outstanding then now + t.rtoMs else 0 }

/-- The part of take_ack an acceptable acknowledgment number runs. An
acknowledged FIN moves the state. -/
def acknowledge (ack : U32) : Reply :=
  let next := { c with
    tx := c.tx.dropAcked ack
    timers := c.timers.acked now ack (decide (ack ≠ c.tx.sndNxt)) }
  match c.tx.finAcked ack, c.state with
  | true, .finWait1 => quiet (tcpSetState now next .finWait2)
  | true, .closing => quiet (tcpSetState now next .timeWait)
  | true, .lastAck => tcpFinish now next 0
  | _, _ => quiet next

/-- The peer's window, from an acknowledgment that is not older than ours. -/
def takeWindow (ack : U32) (window : U16) : Conn :=
  if Serial.ge ack c.tx.sndUna then
    { c with
      tx.sndWnd := window.setWidth 32
      timers.probes := if window = 0 then c.timers.probes else 0 }
  else c

def takeAck (ack : U32) (window : U16) : Reply :=
  (if Serial.gt ack c.tx.sndUna && Serial.le ack c.tx.sndNxt then acknowledge now c ack
    else quiet c).andThen fun c => quiet (takeWindow c ack window)

/-- Store bytes that are next in line behind the unread ones. -/
def Rx.store (r : Rx) (bytes : List U8) : Rx :=
  { r with
    rcvbuf := Buffer.ringPut tcpBufSize r.rcvbuf (r.rcvHead + r.rcvLen) bytes
    rcvLen := r.rcvLen + bytes.length
    rcvNxt := r.rcvNxt + BitVec.ofNat 32 bytes.length }

/-- Copy data that is next in line into the receive ring, as far as it fits;
true when the segment's end was reached. -/
def takeData (r : Rx) (seq : U32) (data : List U8) : Rx × Bool :=
  let old := (r.rcvNxt - seq).toNat
  let stale := Serial.lt seq r.rcvNxt
  if stale && data.length ≤ old then (r, old == data.length)
  else
    let data := if stale then data.drop old else data
    if !stale && seq != r.rcvNxt then (r, false)
    else
      let fits := data.take (tcpBufSize - r.rcvLen)
      (r.store fits, fits.length == data.length)

/-- The ACK of our SYN. -/
def establish (ack : U32) : Conn :=
  tcpSetState now { c with tx.sndUna := ack, timers.rtxAt := 0, timers.retries := 0 } .established

/-- The peer's SYN answers ours: where its stream starts, its MSS and window. -/
def takeSyn (s : Seg) : Conn :=
  { c with
    rx.irs := s.seq, rx.rcvNxt := s.seq + 1
    tx.mss := peerMss c (readMss s), tx.sndWnd := s.window.setWidth 32 }

/-- A bare RST that answers the acknowledgment of `s`. -/
def rejectAck (s : Seg) : Reply :=
  ⟨c, [.send (sendRaw c.localIp c.remoteIp c.localPort c.remotePort s.ack 0 tcpRst 0 false [])]⟩

def synSent (s : Seg) : Reply :=
  let ackOk := s.has tcpAck && s.ack == c.tx.iss + 1
  if s.has tcpAck && !ackOk then
    if s.has tcpRst then quiet c else rejectAck c s
  else if s.has tcpRst then
    if ackOk then tcpFinish now c netEconnrefused else quiet c
  else if !s.has tcpSyn then quiet c
  else if ackOk then sendAck (establish now (takeSyn c s) s.ack)
  else tcpSendSegment (tcpSetState now (takeSyn c s) .synReceived) (tcpSyn ||| tcpAck) c.tx.iss []

/-- The peer's FIN takes one sequence number and moves the state. -/
def takeFin : Conn :=
  let next := { c with rx.rcvNxt := c.rx.rcvNxt + 1, rx.finReceived := true }
  match c.state with
  | .established | .synReceived => tcpSetState now next .closeWait
  | .finWait1 => tcpSetState now next .closing
  | .finWait2 => tcpSetState now next .timeWait
  | _ => next

/-- Step 6 of segment(): data, then the FIN, both only when next in line. -/
def segmentText (s : Seg) : Reply :=
  let took := !s.data.isEmpty && c.state.takesData
  let taken := if took then takeData c.rx s.seq s.data else (c.rx, true)
  let fin := s.has tcpFin && taken.2 && s.seq + BitVec.ofNat 32 s.data.length == taken.1.rcvNxt &&
    !taken.1.finReceived
  let c := { c with rx := taken.1 }
  let c := if fin then takeFin now c else c
  (if took || fin then sendAck c else quiet c).andThen (tcpOutput now)

/-- Step 2: only a RST at exactly the next expected byte resets. A connection
in TIME_WAIT runs its full time. -/
def segmentRst (s : Seg) : Reply :=
  if c.state = .timeWait then quiet c
  else if s.seq = c.rx.rcvNxt then
    if c.state = .synReceived && c.listener.isSome then tcpFree c
    else tcpFinish now c (if c.state = .synReceived then netEconnrefused else netEconnreset)
  else challengeAck now c

/-- Step 4's end and step 5: after the acknowledgment the connection may be
over; data for one the program already closed resets it. -/
def segmentOpen (s : Seg) : Reply :=
  (takeAck now c s.ack s.window).andThen fun c =>
    if c.state = .closed || !c.used then quiet c
    else if !s.data.isEmpty && c.sock.isNone && c.listener.isNone &&
        c.state ≠ .established && c.state ≠ .closeWait then
      (tcpSendSegment c (tcpRst ||| tcpAck) c.tx.sndNxt []).andThen tcpFree
    else segmentText now c s

def Seg.seglen (s : Seg) : U32 :=
  BitVec.ofNat 32 s.data.length + (if s.has tcpSyn then 1 else 0) + if s.has tcpFin then 1 else 0

/-- A segment for a synchronized connection. -/
def segment (s : Seg) : Reply :=
  if !inWindow s.seq s.seglen c.rx.rcvNxt ((receiveWindow c).setWidth 32) then
    if s.has tcpRst then quiet c else challengeAck now c
  else if s.has tcpRst then segmentRst now c s
  else if s.has tcpSyn then challengeAck now c
  else if !s.has tcpAck then quiet c
  else if c.state = .synReceived then
    if s.ack ≠ c.tx.iss + 1 then rejectAck c s
    else segmentOpen now (establish now c s.ack) s
  else segmentOpen now c s

/-- The slot `tcp_new` gave a SYN that came for listener `l` in `slot`. -/
def childConn (l : Conn) (slot : Nat) (isn : U32) (s : Seg) : Conn :=
  let c := tcpNew now l.uid
  tcpSetState now { c with
    localIp := s.dstIp, localPort := l.localPort, remoteIp := s.srcIp, remotePort := s.srcPort
    listener := some slot
    rx.irs := s.seq, rx.rcvNxt := s.seq + 1
    tx.iss := isn, tx.sndUna := isn, tx.sndNxt := isn + 1
    tx.sndWnd := s.window.setWidth 32, tx.mss := peerMss c (readMss s) } .synReceived

/-- A SYN for a listener with room in its queue. -/
def newChild (l : Conn) (slot : Nat) (isn : U32) (s : Seg) : Reply :=
  (tcpSendSegment (childConn now l slot isn s) (tcpSyn ||| tcpAck) isn []).andThen fun c =>
    quiet (armTimer now c)

/-- The connection an ACK with a good SYN cookie makes; `mss` is what
def_syn_cookie_check found in it. -/
def cookieConn (l : Conn) (slot : Nat) (mss : U16) (s : Seg) : Conn :=
  tcpSetState now { tcpNew now l.uid with
    localIp := s.dstIp, localPort := l.localPort, remoteIp := s.srcIp, remotePort := s.srcPort
    listener := some slot
    rx.irs := s.seq - 1, rx.rcvNxt := s.seq
    tx.iss := s.ack - 1, tx.sndUna := s.ack, tx.sndNxt := s.ack
    tx.sndWnd := s.window.setWidth 32, tx.mss := if mss < ourMss then mss else ourMss } .established

/-- segment() takes whatever came with the ACK. -/
def cookieChild (l : Conn) (slot : Nat) (mss : U16) (s : Seg) : Reply :=
  if !s.data.isEmpty || s.has tcpFin then segment now (cookieConn now l slot mss s) s
  else quiet (cookieConn now l slot mss s)

/-- def_tcp_flags_ok: no flag at all, SYN with FIN or RST, and FIN, PSH and URG
without ACK are scans. -/
def defTcpFlagsOk (flags : U8) : Bool :=
  let f := flags &&& 0x3F
  f != 0 && f &&& 0x03 != 0x03 && f &&& 0x06 != 0x06 && (f &&& 0x29 != 0x29 || flagSet f tcpAck)

/-- No connection for this segment: the RST that answers it, unless it is one. -/
def refuse (s : Seg) : List Effect :=
  if s.has tcpRst then []
  else if s.has tcpAck then
    [.send (sendRaw s.dstIp s.srcIp s.dstPort s.srcPort s.ack 0 tcpRst 0 false [])]
  else
    [.send (sendRaw s.dstIp s.srcIp s.dstPort s.srcPort 0 (s.seq + s.seglen) (tcpRst ||| tcpAck) 0
      false [])]

/-- Is `c` the exact connection lookup() finds for `s`? -/
def Conn.matches (s : Seg) : Bool :=
  c.used && c.localPort == s.dstPort && c.state != .listen && c.state != .closed &&
    c.remotePort == s.srcPort && c.remoteIp == s.srcIp && c.localIp == s.dstIp

def Conn.counted : Conn := { c with segsIn := c.segsIn + 1 }

/-- The connection found gets the segment. -/
def dispatch (s : Seg) : Reply :=
  if c.state = .synSent then synSent now c s else segment now c s

/-- tcp_receive for a segment that no listener gets: the connection's, or refused. -/
def tcpReceive (s : Seg) : Reply :=
  if !defTcpFlagsOk s.flags then quiet c
  else if !c.matches s then ⟨c, refuse s⟩
  else dispatch now c.counted s

/-- ICMP says the SYN could not be delivered: a connect in progress gives up. -/
def tcpIcmpError (seq : U32) (err : Int) : Reply :=
  if c.state = .synSent && seq == c.tx.iss then tcpFinish now c (-err) else quiet c

end UzOS.Tcp
