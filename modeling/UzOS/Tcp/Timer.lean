import UzOS.Tcp.Input

/-! tcp_timer.c: retransmit, probe a shut window, give up. -/
namespace UzOS.Tcp

def tcpSynRetries : Nat := 5
def tcpDataRetries : Nat := 8
def tcpTimeWaitMs : U32 := 10000
def tcpFinWait2Ms : U32 := 30000
def persistMaxProbes : Nat := 4

variable (now : U32) (c : Conn)

/-- A window probe: one byte beyond the shut window. A window that never
opens ends the connection (persist_timeout). -/
def probe : Reply :=
  let c := { c with timers.probes := c.timers.probes + 1 }
  if persistMaxProbes < c.timers.probes then tcpFinish now c netEtimedout
  else tcpSendSegment c tcpAck c.tx.sndNxt (Buffer.slice c.tx.sndbuf 0 1)

/-- Back to the oldest unacknowledged byte; a FIN that was lost goes again
after the data. -/
def goBack : Conn := { c with tx.sndNxt := c.tx.sndUna, tx.finSent := false }

/-- Everything after the retry limit. -/
def resend : Reply :=
  match c.state with
  | .synSent => tcpSendSegment c tcpSyn c.tx.iss []
  | .synReceived => tcpSendSegment c (tcpSyn ||| tcpAck) c.tx.iss []
  | _ =>
    if c.tx.sndUna = c.tx.sndNxt && c.tx.sndLen ≠ 0 && c.tx.sndWnd = 0 then probe now c
    else tcpOutput now (goBack c)

def retransmit : Reply :=
  let limit := if c.state = .synSent || c.state = .synReceived then tcpSynRetries else tcpDataRetries
  let c := { c with timers.retries := c.timers.retries + 1 }
  if limit < c.timers.retries then tcpFinish now c netEtimedout
  else
    let rto := if tcpRtoMax < c.timers.rtoMs * 2 then tcpRtoMax else c.timers.rtoMs * 2
    resend now { c with
      timers.rtoMs := rto, timers.rtxAt := now + rto, timers.rttSeq := 0
      retransmits := c.retransmits + 1 }

/-- tcp_tick for one slot. -/
def tcpTick : Reply :=
  let inState := now - c.timers.stateSince
  if !c.used then quiet c
  else if c.state = .timeWait && tcpTimeWaitMs ≤ inState then
    if c.sock.isSome then tcpFinish now c 0 else tcpFree c
  else if c.state = .finWait2 && c.sock.isNone && tcpFinWait2Ms ≤ inState then tcpFree c
  else if c.timers.rtxAt ≠ 0 && 0 ≤ (now - c.timers.rtxAt).toInt then retransmit now c
  else quiet c

end UzOS.Tcp
