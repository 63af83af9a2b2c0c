import UzOS.Lib.Runs
import UzOS.Lib.Slots
import UzOS.Proc.VmAccess

/-! The port table of UDP (core/udp/udp.c), the SOCK_DGRAM sockets whose endpoints it
holds (core/socket/sock_udp.c, core/socket/socket.c) and the endpoint of the DHCP client
(core/dhcp/dhcp.c). -/
namespace UzOS.Udp

abbrev udpMaxEndpoints : Nat := 32
abbrev socketMax : Nat := 32
def udpEphemeralLow : U16 := 32768
def udpEphemeralHigh : U16 := 60999
def portPrivileged : U16 := 1024
def capNetBind : U32 := 11
def dhcpClientPort : U16 := 68
def ipv4Broadcast : U32 := 0xFFFFFFFF
def udpMaxPayload : Nat := 1600 - 20 - 8

abbrev SockSlot := Fin socketMax

inductive Error where
  | einval
  | eacces
  | emsgsize
  | edestaddrreq
  | eaddrinuse
  | eaddrnotavail
  | enetunreach
  | enobufs
  deriving DecidableEq

/-- udp_endpoint_t. `receive` says that the pointer of that name is set. -/
structure Endpoint where
  localIp : U32 := 0
  localPort : U16 := 0
  remoteIp : U32 := 0
  remotePort : U16 := 0
  uid : U32 := 0
  reuseport : Bool := false
  receive : Bool := false

/-- A SOCK_DGRAM socket. -/
structure Socket where
  used : Bool := false
  uid : U32 := 0
  reuseport : Bool := false
  broadcast : Bool := false
  localIp : U32 := 0
  localPort : U16 := 0
  remoteIp : U32 := 0
  remotePort : U16 := 0
  connected : Bool := false
  udp : Endpoint := {}

/-- Whose an endpoint is: a socket's, or the DHCP client's. -/
abbrev Owner := Option SockSlot

/-- `chosen` records the ports that udp_bind picked itself, the newest first. -/
structure Ports where
  table : Fin udpMaxEndpoints → Option Owner := fun _ => none
  nextEphemeral : U16 := udpEphemeralLow
  sockets : SockSlot → Socket := fun _ => {}
  dhcp : Endpoint := {}
  chosen : List U16 := []

variable (s : Ports) (k : SockSlot)

def Ports.endpoint : Owner → Endpoint
  | some k => (s.sockets k).udp
  | none => s.dhcp

def Ports.setSocket (x : Socket) : Ports :=
  { s with sockets := Function.update s.sockets k x }

def Ports.setEndpoint (o : Owner) (ep : Endpoint) : Ports :=
  match o with
  | some k => s.setSocket k { s.sockets k with udp := ep }
  | none => { s with dhcp := ep }

/-! Binding. -/

/-- DEFENCE reuseport_owner. -/
def defReuseportOk (uid : U32) (wants : Bool) (owner : U32) (has : Bool) : Bool :=
  wants && has && uid == owner

/-- Two endpoints on one port that may both get a datagram. -/
def overlap (a b : U32) : Bool := !(a != 0 && b != 0 && b != a)

/-- The bound endpoint `o` keeps `ep` from the port. -/
def clashes (ep o : Endpoint) (port : U16) : Bool :=
  o.localPort == port && overlap ep.localIp o.localIp &&
    !defReuseportOk ep.uid ep.reuseport o.uid o.reuseport

def portTaken (ep : Endpoint) (port : U16) : Bool :=
  (List.finRange udpMaxEndpoints).any fun i =>
    (s.table i).any fun o => clashes ep (s.endpoint o) port

/-- The next candidate. -/
def advance (port : U16) : U16 :=
  if udpEphemeralHigh ≤ port then udpEphemeralLow else port + 1

/-- The search for a free port, with the tries that are left. -/
def pickPort (taken : U16 → Bool) : Nat → U16 → U16 × Bool
  | 0, next => (next, false)
  | tries + 1, next => if taken next then pickPort taken tries (advance next) else (next, true)

def ephemeralTries : Nat := (udpEphemeralHigh - udpEphemeralLow + 1).toNat

/-- The part of udp_bind that settles the port. -/
def settlePort (o : Owner) : Ports × Option Error :=
  let ep := s.endpoint o
  if ep.localPort = 0 then
    let (next, found) := pickPort (portTaken s ep) ephemeralTries s.nextEphemeral
    if found then
      ({ s with nextEphemeral := next + 1, chosen := next :: s.chosen }.setEndpoint o
        { ep with localPort := next }, none)
    else ({ s with nextEphemeral := next }, some .eaddrinuse)
  else if portTaken s ep ep.localPort then (s, some .eaddrinuse)
  else (s, none)

def udpBind (o : Owner) : Ports × Except Error Unit :=
  match settlePort s o with
  | (s, some e) => (s, .error e)
  | (s, none) => match findSlot fun i => (s.table i).isNone with
    | none => (s, .error .enobufs)
    | some i => ({ s with table := Function.update s.table i (some o) }, .ok ())

def udpUnbind (o : Owner) : Ports :=
  { s with table := fun i => if s.table i = some o then none else s.table i }

/-! Sockets. -/

/-- DEFENCE port_privilege. -/
def defPortBindOk (uid : U32) (port : U16) : Bool :=
  port == 0 || decide (portPrivileged ≤ port) || Proc.capsHas uid capNetBind

/-- `ours` is route_is_local. -/
def doBind (ours : U32 → Bool) (k : SockSlot) (ip : U32) (port : U16) : Ports × Except Error Unit :=
  let x := s.sockets k
  if x.udp.receive then (s, .error .einval)
  else if ip ≠ 0 && !ours ip then (s, .error .eaddrnotavail)
  else if !defPortBindOk x.uid port then (s, .error .eacces)
  else
    let s := s.setEndpoint (some k) { x.udp with
      localIp := ip, reuseport := x.reuseport, localPort := port, uid := x.uid, receive := true }
    match udpBind s (some k) with
    | (s, .error e) =>
      (s.setEndpoint (some k) { s.endpoint (some k) with receive := false }, .error e)
    | (s, .ok ()) =>
      (s.setSocket k { s.sockets k with
        localIp := ip, localPort := (s.sockets k).udp.localPort }, .ok ())

/-- do_bind(s, 0, 0) of a socket that has no port yet. -/
def autobind (ours : U32 → Bool) (k : SockSlot) : Ports × Except Error Unit :=
  if (s.sockets k).udp.receive then (s, .ok ()) else doBind s ours k 0 0

/-- connect to AF_UNSPEC -/
def disconnect : Ports :=
  let x := s.sockets k
  s.setSocket k { x with
    remoteIp := 0, remotePort := 0, connected := false
    udp := { x.udp with remoteIp := 0, remotePort := 0 } }

/-- `route` is route_lookup: the source address towards a destination. -/
def udpSockConnect (ours : U32 → Bool) (route : U32 → Option U32) (k : SockSlot)
    (ip : U32) (port : U16) : Ports × Except Error Unit :=
  if ip ≠ ipv4Broadcast && (route ip).isNone then (s, .error .enetunreach)
  else match autobind s ours k with
    | (s, .error e) => (s, .error e)
    | (s, .ok ()) =>
      let x := s.sockets k
      (s.setSocket k { x with
        remoteIp := ip, remotePort := port, connected := true
        localIp := if x.localIp = 0 && ip ≠ ipv4Broadcast then (route ip).getD 0 else x.localIp
        udp := { x.udp with remoteIp := ip, remotePort := port } }, .ok ())

/-- udp_sock_send up to udp_send; `dest` is the address given, if any. -/
def udpSockSend (ours : U32 → Bool) (k : SockSlot) (dest : Option (U32 × U16))
    (len : Nat) : Ports × Except Error Unit :=
  let x := s.sockets k
  match dest.or (if x.connected then some (x.remoteIp, x.remotePort) else none) with
  | none => (s, .error .edestaddrreq)
  | some (ip, _) =>
    if udpMaxPayload < len then (s, .error .emsgsize)
    else if ip = ipv4Broadcast && !x.broadcast then (s, .error .eacces)
    else autobind s ours k

def udpSockClose : Ports :=
  if (s.sockets k).udp.receive then udpUnbind s (some k) else s

/-- socket_create; `idle` tells which slots have no descriptor and no socket of another
kind. -/
def socketCreate (uid : U32) (idle : SockSlot → Bool) : Ports :=
  match findSlot fun k => !(s.sockets k).used && idle k with
  | none => s
  | some k => s.setSocket k { used := true, uid }

def socketClose : Ports :=
  if (s.sockets k).used then
    let s := udpSockClose s k
    s.setSocket k { s.sockets k with used := false }
  else s

/-- The part of dhcp_start that takes the client's port. -/
def dhcpStart : Ports :=
  if s.dhcp.receive then s
  else
    match udpBind { s with dhcp := { s.dhcp with localPort := dhcpClientPort, receive := true } }
      none with
    | (s, .error _) => { s with dhcp := { s.dhcp with receive := false } }
    | (s, .ok ()) => s

/-! Runs. -/

/-- The calls that change ports; the functions are what the routing says then. -/
inductive Call where
  | create (uid : U32) (idle : SockSlot → Bool)
  | setReuseport (k : SockSlot) (on : Bool)
  | setBroadcast (k : SockSlot) (on : Bool)
  | bind (ours : U32 → Bool) (k : SockSlot) (ip : U32) (port : U16)
  | connect (ours : U32 → Bool) (route : U32 → Option U32) (k : SockSlot) (ip : U32) (port : U16)
  | disconnect (k : SockSlot)
  | send (ours : U32 → Bool) (k : SockSlot) (dest : Option (U32 × U16)) (len : Nat)
  | close (k : SockSlot)
  | dhcpStart

/-- A call on a socket comes through one of its descriptors. -/
def Call.apply : Call → Ports
  | .create uid idle => socketCreate s uid idle
  | .setReuseport k on => onSocket k (s.setSocket k { s.sockets k with reuseport := on })
  | .setBroadcast k on => onSocket k (s.setSocket k { s.sockets k with broadcast := on })
  | .bind ours k ip port => onSocket k (doBind s ours k ip port).1
  | .connect ours route k ip port => onSocket k (udpSockConnect s ours route k ip port).1
  | .disconnect k => onSocket k (Udp.disconnect s k)
  | .send ours k dest len => onSocket k (udpSockSend s ours k dest len).1
  | .close k => socketClose s k
  | .dhcpStart => Udp.dhcpStart s
where
  onSocket (k : SockSlot) (after : Ports) : Ports := if (s.sockets k).used then after else s

end UzOS.Udp
