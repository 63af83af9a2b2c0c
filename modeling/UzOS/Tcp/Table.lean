import UzOS.Tcp.Nested
import UzOS.Lib.Slots
import UzOS.Lib.Runs

/-! The table of all connections: ports, listeners and their children, and which
connection a segment belongs to. -/
namespace UzOS.Tcp

open Runs (run)

abbrev tcpMaxConns : Nat := 24
def tcpUserMax : Nat := 8
def ephemeralLow : U16 := 32768
def ephemeralHigh : U16 := 60999

abbrev Slot := Fin tcpMaxConns

@[ext]
structure Table where
  conns : Slot → Conn
  nextPort : U16

namespace Table

/-- As the kernel starts. -/
def boot : Table := ⟨fun _ => .zero, ephemeralLow⟩

variable (now : U32) (t : Table)

def set (i : Slot) (c : Conn) : Table := { t with conns := Function.update t.conns i c }

/-- `listener->pending += n`, through a pointer. -/
def queue (l : Nat) (n : Int) : Table :=
  if h : l < tcpMaxConns then
    t.set ⟨l, h⟩ { t.conns ⟨l, h⟩ with pending := (t.conns ⟨l, h⟩).pending + n }
  else t

def owned (uid : U32) : Nat :=
  (List.finRange tcpMaxConns).countP fun i => (t.conns i).used && (t.conns i).uid == uid

/-- tcp_new; `cap` says that the user holds CAP_RESOURCE. -/
def tcpNew (uid : U32) (cap : Bool) : Option (Slot × Table) :=
  if cap || t.owned uid < tcpUserMax then
    (findSlot fun i => !(t.conns i).used).map fun i => (i, t.set i (UzOS.Tcp.tcpNew now uid))
  else none

/-! Ports. -/

def portConflict (ip : U32) (port : U16) (reuse : Bool) (self : Slot) : Bool :=
  (List.finRange tcpMaxConns).any fun i =>
    let o := t.conns i
    o.used && i != self && o.localPort == port &&
      !(ip != 0 && o.localIp != 0 && ip != o.localIp) &&
      !(reuse && o.state != .listen && o.state != .closed)

/-- The search for a free port: the port, if any, and the next one to try. -/
def ephemeralLoop (t : Table) (ip : U32) (self : Slot) : Nat → U16 → Option U16 × U16
  | 0, port => (none, port)
  | tries + 1, port =>
    let next := if ephemeralHigh ≤ port then ephemeralLow else port + 1
    if !t.portConflict ip port false self then (some port, next)
    else ephemeralLoop t ip self tries next

def ephemeral (ip : U32) (self : Slot) : Option U16 × U16 :=
  t.ephemeralLoop ip self (ephemeralHigh - ephemeralLow).toNat t.nextPort

def tcpBind (i : Slot) (ip : U32) (port : U16) (reuse : Bool) : Int × Table :=
  if port = 0 then
    let (port, next) := t.ephemeral ip i
    match port with
    | none => (-netEaddrinuse, { t with nextPort := next })
    | some port =>
      (0, { t.set i { t.conns i with localIp := ip, localPort := port } with nextPort := next })
  else if t.portConflict ip port reuse i then (-netEaddrinuse, t)
  else (0, t.set i { t.conns i with localIp := ip, localPort := port })

/-- A port is only looked for when the connection needs one. -/
def tcpListen (i : Slot) (backlog : Int) : Int × Table :=
  let c := t.conns i
  let (port, next) :=
    if (c.state = .closed || c.state = .listen) && c.localPort = 0 then t.ephemeral 0 i
    else (none, t.nextPort)
  let (r, c) := UzOS.Tcp.tcpListen now c backlog port
  (r, { t.set i c with nextPort := next })

/-! Segments. -/

/-- lookup(): the exact connection beats the listener, and the last listener
any other. -/
def lookupLoop (t : Table) (dst : U32) (dport : U16) (src : U32) (sport : U16) :
    List Slot → Option Slot → Option Slot
  | [], listener => listener
  | i :: rest, listener =>
    let c := t.conns i
    if !c.used || c.localPort != dport then lookupLoop t dst dport src sport rest listener
    else if c.state = .listen then
      lookupLoop t dst dport src sport rest
        (if c.localIp = 0 || c.localIp = dst then some i else listener)
    else if c.state != .closed && c.remotePort == sport && c.remoteIp == src && c.localIp == dst then
      some i
    else lookupLoop t dst dport src sport rest listener

def lookup (dst : U32) (dport : U16) (src : U32) (sport : U16) : Option Slot :=
  t.lookupLoop dst dport src sport (List.finRange tcpMaxConns) none

end Table

/-- What the defences answer while a segment is handled: the initial sequence
number and the SYN cookie they make, the mss def_syn_cookie_check finds (0: no
cookie of ours), and whether the listener's user holds CAP_RESOURCE. -/
structure Secrets where
  isn : U32
  cookie : U32
  mss : U16
  cap : Bool

/-- What the stack brings the table: a segment, or an ICMP error about one of
ours, from `src` to `dst`. -/
inductive Packet where
  | segment (s : Seg) (secrets : Secrets)
  | unreachable (src : U32) (sport : U16) (dst : U32) (dport : U16) (seq : U32) (err : Int)

def Effect.sends : Effect → Option Seg
  | .send s => some s
  | _ => none

def Effect.dequeues : Effect → Option Nat
  | .dequeue l => some l
  | _ => none

def Reply.queued (r : Reply) : List Nat := r.effects.filterMap Effect.dequeues

namespace Table

variable (now : U32) (t : Table)

/-- A connection's reply, taken into the table. -/
def take (i : Slot) (r : Reply) : Table × List Seg :=
  (r.queued.foldl (fun t l => t.queue l (-1)) (t.set i r.conn), r.sent)

/-- new_child: with a full queue the SYN is answered by a cookie, and forgotten. -/
def newChild (i : Slot) (s : Seg) (secrets : Secrets) : Table × List Seg :=
  let l := t.conns i
  if l.backlog ≤ l.pending then
    (t, [sendRaw s.dstIp s.srcIp l.localPort s.srcPort secrets.cookie (s.seq + 1) (tcpSyn ||| tcpAck)
      (BitVec.ofNat 16 tcpBufSize) true []])
  else match t.tcpNew now l.uid secrets.cap with
    | none => (t, [])
    | some (k, t) => (t.queue i 1).take k (UzOS.Tcp.newChild now l i secrets.isn s)

/-- cookie_child, if the cookie is ours and there is a slot. -/
def cookieChild (i : Slot) (s : Seg) (secrets : Secrets) : Option (Table × List Seg) :=
  let l := t.conns i
  if secrets.mss = 0 then none
  else (t.tcpNew now l.uid secrets.cap).map fun (k, t) =>
    (t.queue i 1).take k (UzOS.Tcp.cookieChild now l i secrets.mss s)

/-- A segment for the listener in slot `i`. -/
def toListener (i : Slot) (s : Seg) (secrets : Secrets) : Table × List Seg :=
  if s.has tcpRst then (t, [])
  else if s.has tcpAck then
    match t.cookieChild now i s secrets with
    | some made => made
    | none => (t, (refuse s).filterMap Effect.sends)
  else if s.has tcpSyn then t.newChild now i s secrets
  else (t, [])

def tcpReceive : Packet → Table × List Seg
  | .segment s secrets =>
    if !defTcpFlagsOk s.flags then (t, [])
    else match t.lookup s.dstIp s.dstPort s.srcIp s.srcPort with
      | none => (t, (refuse s).filterMap Effect.sends)
      | some i =>
        let c := (t.conns i).counted
        if c.state = .listen then (t.set i c).toListener now i s secrets
        else t.take i (dispatch now c s)
  | .unreachable src sport dst dport seq err =>
    match t.lookup src sport dst dport with
    | none => (t, [])
    | some i => t.take i (tcpIcmpError now (t.conns i) seq err)

def drain (packets : List Packet) : Table :=
  packets.foldl (fun t p => (t.tcpReceive now p).1) t

/-! Calls and timers. -/

/-- One child of a listener that closes: a RST goes out, and is handled at once
where `lo` says that it goes over lo. Nothing answers a RST. -/
def abortChild (lo : Slot → Bool) (i : Slot) (t : Table) (j : Slot) : Table :=
  let child := t.conns j
  if child.used && child.listener == some i.val then
    let r := tcpSendSegment child (tcpRst ||| tcpAck) child.tx.sndNxt []
    let t := t.set j r.conn
    let t := if lo j then t.drain now (r.sent.map fun s => .segment s ⟨0, 0, 0, false⟩) else t
    t.set j .zero
  else t

def abortChildren (lo : Slot → Bool) (i : Slot) (t : Table) : Table :=
  forSlots (abortChild now lo i) t

/-- What goes on at the connection in slot `i`, in the table. -/
def host (now : U32) (lo : Slot → Bool) (i : Slot) : Dialog → Table → Talk Table Seg
  | .done c, t => .done (t.set i c)
  | .say c (.send s) next, t => .say (t.set i c) s fun t => host now lo i (next (t.conns i)) t
  | .say c (.dequeue l) next, t =>
    let t := (t.set i c).queue l (-1)
    host now lo i (next (t.conns i)) t
  | .say c .abortChildren next, t =>
    let t := (t.set i c).abortChildren now lo i
    host now lo i (next (t.conns i)) t

/-- tcp_accept takes the first child that is ready; accept() then gives it to
its socket. -/
def tcpAccept (lo : Slot → Bool) (t : Table) (l : Slot) (sock : Option Nat) : Talk Table Seg :=
  match findSlot fun i => (t.conns i).used && (t.conns i).listener == some l.val && (t.conns i).ready with
  | none => .done t
  | some i =>
    let t := t.queue l (-1)
    host now lo i (tcpAcceptTalk now (t.conns i) sock) t

def tcpConnect (lo : Slot → Bool) (t : Table) (i : Slot) (ip : U32) (port : U16)
    (route : Option U32) (isn : U32) : Talk Table Seg :=
  let c := t.conns i
  let (named, next) :=
    if c.state = .closed && route.isSome && c.localPort = 0 then t.ephemeral 0 i
    else (none, t.nextPort)
  host now lo i (tcpConnectTalk now c ip port route named isn).2 { t with nextPort := next }

def tcpTick (now : U32) (lo : Slot → Bool) : List Slot → Table → Talk Table Seg
  | [], t => .done t
  | i :: rest, t =>
    (host now lo i (tcpTickTalk now (t.conns i)) t).andThen (tcpTick now lo rest)

end Table

/-- What happens to the table. -/
inductive Job where
  | socket (uid : U32) (cap : Bool) (sock : Nat)
  | bind (i : Slot) (ip : U32) (port : U16) (reuse : Bool)
  | listen (i : Slot) (backlog : Int)
  | connect (i : Slot) (ip : U32) (port : U16) (route : Option U32) (isn : U32)
  | accept (i : Slot) (sock : Option Nat)
  | send (i : Slot) (buf : List U8)
  | recv (i : Slot) (len : Nat) (peek : Bool)
  | shutdownWrite (i : Slot)
  | close (i : Slot)
  | arrive (p : Packet)
  | tick

/-- The slot of the connection whose program calls. -/
def Job.caller : Job → Option Slot
  | .bind i .. | .listen i .. | .connect i .. | .accept i .. | .send i .. | .recv i .. |
    .shutdownWrite i | .close i => some i
  | .socket .. | .arrive _ | .tick => none

def Job.talk (now : U32) (lo : Slot → Bool) (t : Table) : Job → Talk Table Seg
  | .socket uid cap sock =>
    match t.tcpNew now uid cap with
    | none => .done t
    | some (i, t) => .done (t.set i { t.conns i with sock := some sock })
  | .bind i ip port reuse =>
    .done (if (t.conns i).localPort = 0 then (t.tcpBind i ip port reuse).2 else t)
  | .listen i backlog => .done (t.tcpListen now i backlog).2
  | .connect i ip port route isn => t.tcpConnect now lo i ip port route isn
  | .accept i sock => t.tcpAccept now lo i sock
  | .send i buf => Table.host now lo i (tcpSendTalk now (t.conns i) buf).2 t
  | .recv i len peek => Table.host now lo i (tcpRecvTalk (t.conns i) len peek).2.2 t
  | .shutdownWrite i => Table.host now lo i (tcpShutdownWriteTalk now (t.conns i)) t
  | .close i => Table.host now lo i (tcpCloseTalk now (t.conns i)) t
  | .arrive p => .done (t.tcpReceive now p).1
  | .tick => Table.tcpTick now lo (List.finRange tcpMaxConns) t

/-- A job while the clock reads `now`, what is drained in each of its sends,
and which RSTs of a listener's close go over lo. -/
structure Round where
  now : U32
  job : Job
  drained : List (List Packet)
  lo : Slot → Bool

/-- Only a program that holds the connection calls. -/
def Round.allowed (r : Round) (t : Table) : Bool :=
  r.job.caller.all fun i => (t.conns i).used && (t.conns i).sock.isSome

def Table.round (t : Table) (r : Round) : Table :=
  if r.allowed t then
    (r.job.talk r.now r.lo t).run (fun packets _ t => t.drain r.now packets) [] r.drained
  else t

end UzOS.Tcp
