import UzOS.Lib.Runs
import UzOS.Lib.Slots
import UzOS.Lib.Word

/-! AF_UNIX sockets (core/unix/unix.c), their part of the socket table
(core/socket/socket.c) and the calls that change either. The bytes in flight are left
out: no function here reads them. -/
namespace UzOS.Unix

abbrev unixMax : Nat := 16
abbrev socketMax : Nat := 32
def unixPathMax : Nat := 108
def unixBacklog : Int := 8
def afUnix : U16 := 1

abbrev EndSlot := Fin unixMax
abbrev SockSlot := Fin socketMax

instance : NeZero unixMax := ⟨by decide⟩

inductive SockType where
  | stream
  | dgram
  deriving DecidableEq

inductive SockState where
  | unconnected
  | listening
  | connecting
  | connected
  | closed
  deriving DecidableEq

inductive Error where
  | einval
  | enobufs
  | eaddrinuse
  | econnrefused
  | eagain
  | enotconn
  deriving DecidableEq

/-- socket_cred_t. -/
structure Cred where
  pid : U32 := 0
  uid : U32 := 0
  gid : U32 := 0
  deriving DecidableEq

/-- An AF_UNIX socket. `serial` counts the sockets made before it; no function of the
source reads it. -/
structure Socket where
  used : Bool := false
  type : SockType := .stream
  state : SockState := .unconnected
  uid : U32 := 0
  pid : U32 := 0
  proto : Option EndSlot := none
  serial : Nat := 0

/-- Whom an end was joined to, for the record: the owner of the end its peer pointer
names, or the listener that a stream client dialled. -/
inductive Link where
  | peer
  | listener (serial : Nat)

/-- unix_sock_t. Every default is what memset leaves; the queue is the first `queued`
entries of the array. -/
structure End where
  used : Bool := false
  sock : Option SockSlot := none
  path : List U8 := []
  peer : Option EndSlot := none
  peerCred : Cred := {}
  queue : List EndSlot := []
  backlog : Int := 0
  link : Link := .peer

/-- The two tables, and the owners of all sockets ever made, by serial number. -/
structure Table where
  sockets : SockSlot → Socket := fun _ => {}
  ends : EndSlot → End := fun _ => {}
  owners : List Cred := []

variable (t : Table) (k : SockSlot)

def Table.setSock (s : Socket) : Table :=
  { t with sockets := Function.update t.sockets k s }

def Table.setEnd (e : EndSlot) (x : End) : Table :=
  { t with ends := Function.update t.ends e x }

/-- DEFENCE peercred_check. -/
def defPeerCred (s : Socket) : Cred := ⟨s.pid, s.uid, s.uid⟩

def newEnd (sock : Option SockSlot) : Option (Table × EndSlot) :=
  (findSlot fun e => !(t.ends e).used).map fun e => (t.setEnd e { used := true, sock }, e)

def endOf : Option (Table × EndSlot) :=
  match (t.sockets k).proto with
  | some e => some (t, e)
  | none => (newEnd t (some k)).map fun made =>
    (made.1.setSock k { t.sockets k with proto := some made.2 }, made.2)

/-- The bound end named `path` (of the right type). -/
def find (path : List U8) (type : SockType) : Option EndSlot :=
  findSlot fun e =>
    (t.ends e).used && (t.ends e).path != [] &&
      (t.ends e).sock.any (fun k => (t.sockets k).type == type) && (t.ends e).path == path

/-- What a program passes in: the family, then the bytes that follow it. -/
structure Address where
  family : U16
  data : Nat → U8

/-- The path out of a sockaddr_un, `none` for -NET_EINVAL. -/
def readPath (addr : Option Address) (len : U32) : Option (List U8) := do
  let a ← addr
  if len.toNat ≤ 2 ∨ a.family ≠ afUnix then none
  let n := min (len.toNat - 2) (unixPathMax - 1)
  let path := ((List.range n).map a.data).takeWhile (· != 0)
  if path = [] then none else some path

def unixBind (addr : Option Address) (len : U32) : Table × Except Error Unit :=
  match readPath addr len with
  | none => (t, .error .einval)
  | some path => match endOf t k with
    | none => (t, .error .enobufs)
    | some (t, u) =>
      if (t.ends u).path ≠ [] then (t, .error .einval)
      else if (findSlot fun e => (t.ends e).used && (t.ends e).path == path).isSome then
        (t, .error .eaddrinuse)
      else (t.setEnd u { t.ends u with path }, .ok ())

def unixListen (backlog : Int) : Table × Except Error Unit :=
  match endOf t k with
  | none => (t, .error .enobufs)
  | some (t, u) =>
    if (t.ends u).path = [] ∨ (t.sockets k).type ≠ .stream then (t, .error .einval)
    else
      let backlog := if backlog < 1 then 1
        else if backlog > unixBacklog then unixBacklog else backlog
      ((t.setEnd u { t.ends u with backlog }).setSock k
        { t.sockets k with state := .listening }, .ok ())

/-- Datagram: only remember the peer. -/
def connectDgram (u target : EndSlot) : Table :=
  (t.setEnd u { t.ends u with
    peer := some target, peerCred := (t.ends target).peerCred, link := .peer }).setSock k
      { t.sockets k with state := .connected }

/-- Join the client's end to the new server end and put that in the queue. Each side's
credentials are recorded by the kernel now, from the sockets' owners. -/
def enqueued (u target serverEnd : EndSlot) (listener : Socket) : Table :=
  let t := t.setEnd serverEnd { t.ends serverEnd with
    peer := some u, peerCred := defPeerCred (t.sockets k), link := .peer }
  let t := t.setEnd u { t.ends u with
    peer := some serverEnd, peerCred := defPeerCred listener,
    link := .listener listener.serial }
  let t := t.setSock k { t.sockets k with state := .connected }
  t.setEnd target { t.ends target with queue := (t.ends target).queue ++ [serverEnd] }

/-- Stream: a new end for the server side, in the listener's queue. `listening` is the
listener's socket. -/
def connectStream (u target : EndSlot) (listening : SockSlot) : Table × Except Error Unit :=
  let listener := t.sockets listening
  if listener.state ≠ .listening then (t, .error .econnrefused)
  else if ((t.ends target).queue.length : Int) ≥ (t.ends target).backlog then
    (t, .error .eagain)
  else match newEnd t none with
    | none => (t, .error .enobufs)
    | some (t, serverEnd) => (enqueued t k u target serverEnd listener, .ok ())

def unixConnect (addr : Option Address) (len : U32) : Table × Except Error Unit :=
  match readPath addr len with
  | none => (t, .error .einval)
  | some path => match endOf t k with
    | none => (t, .error .enobufs)
    | some (t, u) => match find t path (t.sockets k).type with
      | none => (t, .error .econnrefused)
      | some target => match (t.sockets k).type, (t.ends target).sock with
        | .dgram, _ => (connectDgram t k u target, .ok ())
        | .stream, some listening => connectStream t k u target listening
        -- find never names an end without a socket
        | .stream, none => (t, .error .econnrefused)

/-- Who makes a call: its process and user. -/
structure Caller where
  pid : U32
  uid : U32

/-- socket_create for AF_UNIX. `idle` tells which nodes have no descriptor and no socket of
another family. -/
def socketCreate (caller : Caller) (type : SockType) (idle : SockSlot → Bool) :
    Option (Table × SockSlot) :=
  (findSlot fun k => !(t.sockets k).used && idle k).map fun k =>
    let s : Socket :=
      { used := true, type, uid := caller.uid, pid := caller.pid, serial := t.owners.length }
    ({ t.setSock k s with owners := t.owners ++ [⟨caller.pid, caller.uid, caller.uid⟩] }, k)

/-- The end `e` at the head of the queue of `l` gets the new socket. -/
def handOver (l e : EndSlot) (rest : List EndSlot) (ns : SockSlot) : Table :=
  let t := t.setEnd l { t.ends l with queue := rest }
  let t := t.setEnd e { t.ends e with sock := some ns }
  t.setSock ns { t.sockets ns with proto := some e, state := .connected }

def unixAccept (caller : Caller) (idle : SockSlot → Bool) : Table × Except Error SockSlot :=
  match (t.sockets k).proto with
  | none => (t, .error .einval)
  | some l =>
    if (t.sockets k).state ≠ .listening then (t, .error .einval)
    else match (t.ends l).queue with
      | [] => (t, .error .eagain)
      | e :: rest => match socketCreate t caller .stream idle with
        | none => (t, .error .enobufs)
        | some (t, ns) => (handOver t l e rest ns, .ok ns)

/-- `e->peer = 0` -/
def forget (e : EndSlot) : Table := t.setEnd e { t.ends e with peer := none }

def free (e : EndSlot) : Table := t.setEnd e { t.ends e with used := false }

/-- A connection waiting in a closing listener's queue is dropped. -/
def dropWaiting (w : EndSlot) : Table :=
  let t := match (t.ends w).peer with
    | some p => forget t p
    | none => t
  free t w

/-- Tell the other end. -/
def leavePeer (u : EndSlot) : Table :=
  match (t.ends u).peer with
  | some p => if (t.ends p).peer = some u then forget t p else t
  | none => t

/-- A datagram socket connected to `u` forgets it. -/
def forgetUs (u : EndSlot) (t : Table) (i : EndSlot) : Table :=
  if (t.ends i).used && (t.ends i).peer == some u then forget t i else t

def unixClose : Table :=
  match (t.sockets k).proto with
  | none => t
  | some u =>
    let t := (t.ends u).queue.foldl dropWaiting t
    let t := leavePeer t u
    let t := forSlots (forgetUs u) t
    let t := free t u
    t.setSock k { t.sockets k with proto := none }

def socketClose : Table :=
  if (t.sockets k).used then
    let t := unixClose t k
    t.setSock k { t.sockets k with used := false }
  else t

def markConnected (e : EndSlot) : Table :=
  match (t.ends e).sock with
  | some k => t.setSock k { t.sockets k with state := .connected }
  | none => t

/-- Join two ends; each remembers who the other was. -/
def join (a b : EndSlot) (credA credB : Cred) : Table :=
  let t := t.setEnd a { t.ends a with peer := some b, peerCred := credB, link := .peer }
  let t := t.setEnd b { t.ends b with peer := some a, peerCred := credA, link := .peer }
  markConnected (markConnected t a) b

def unixPair (a b : SockSlot) : Table × Except Error Unit :=
  match endOf t a with
  | none => match endOf t b with
    | none => (t, .error .enobufs)
    | some (t, _) => (t, .error .enobufs)
  | some (t, ua) => match endOf t b with
    | none => (t, .error .enobufs)
    | some (t, ub) =>
      (join t ua ub (defPeerCred (t.sockets a)) (defPeerCred (t.sockets b)), .ok ())

def sysSocketpair (caller : Caller) (type : SockType) (idle : SockSlot → Bool) : Table :=
  match socketCreate t caller type idle with
  | none => t
  | some (t, a) => match socketCreate t caller type idle with
    | none => socketClose t a
    | some (t, b) => match unixPair t a b with
      | (t, .ok _) => t
      | (t, .error _) => socketClose (socketClose t a) b

def unixPeerCred : Except Error Cred :=
  match (t.sockets k).proto with
  | none => .error .enotconn
  | some u => if (t.ends u).peer = none then .error .enotconn else .ok (t.ends u).peerCred

/-- getsockopt(SOL_SOCKET, SO_PEERCRED) with room for `len` bytes. -/
def getPeerCred (len : U32) : Except Error Cred :=
  if len.toNat < 12 then .error .einval else unixPeerCred t k

/-- One call. A descriptor that cannot be installed is a close right after the call. -/
inductive Event where
  | socket (caller : Caller) (type : SockType) (idle : SockSlot → Bool)
  | bind (k : SockSlot) (addr : Option Address) (len : U32)
  | listen (k : SockSlot) (backlog : Int)
  | connect (k : SockSlot) (addr : Option Address) (len : U32)
  | accept (k : SockSlot) (caller : Caller) (idle : SockSlot → Bool)
  | socketpair (caller : Caller) (type : SockType) (idle : SockSlot → Bool)
  | close (k : SockSlot)
  /-- send, recv, getsockname and getpeername, which only ask for the end. -/
  | touch (k : SockSlot)

/-- A call on the socket in slot `k`. -/
def call : Event → Table
  | .bind _ addr len => (unixBind t k addr len).1
  | .listen _ backlog => (unixListen t k backlog).1
  | .connect _ addr len => (unixConnect t k addr len).1
  | .accept _ caller idle => (unixAccept t k caller idle).1
  | .close _ => socketClose t k
  | .touch _ => match endOf t k with
    | some (t, _) => t
    | none => t
  | _ => t

/-- The socket that a call is made on. -/
def Event.on : Event → Option SockSlot
  | .bind k _ _ | .listen k _ | .connect k _ _ | .accept k _ _ | .close k | .touch k => some k
  | .socket _ _ _ | .socketpair _ _ _ => none

/-- Only a socket in use has a descriptor to call it by. -/
def step (e : Event) : Table :=
  match e with
  | .socket caller type idle => match socketCreate t caller type idle with
    | some (t, _) => t
    | none => t
  | .socketpair caller type idle => sysSocketpair t caller type idle
  | e => match e.on with
    | some k => if (t.sockets k).used then call t k e else t
    | none => t

abbrev run (events : List Event) : Table := Runs.run step t events

def boot : Table := {}

end UzOS.Unix
