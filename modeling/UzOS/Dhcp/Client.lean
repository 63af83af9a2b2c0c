import UzOS.Lib.Runs
import UzOS.Lib.Word

/-! The DHCP client (core/dhcp/dhcp.c): its lease, the messages it reads and the clock.
What it sends, its log and the device it configures are left out. -/
namespace UzOS.Dhcp

def bootreply : U8 := 2
def magicCookie : U32 := 0x63825363
def optPad : U8 := 0
def optNetmask : U8 := 1
def optRouter : U8 := 3
def optDns : U8 := 6
def optLease : U8 := 51
def optMsgType : U8 := 53
def optServerId : U8 := 54
def optEnd : U8 := 255
def dhcpOffer : U8 := 2
def dhcpAck : U8 := 5
def dhcpNak : U8 := 6
def dhcpRetryMs : U32 := 2000
def dhcpRetries : Nat := 4

inductive State where
  | off
  | selecting
  | requesting
  | bound
  | failed
  deriving DecidableEq

/-- dhcp_lease_t. `dev` is the MAC address of the device. -/
structure Lease where
  state : State := .off
  dev : Option (List U8) := none
  xid : U32 := 0
  ip : U32 := 0
  server : U32 := 0
  netmask : U32 := 0
  router : U32 := 0
  dns : U32 := 0
  leaseS : U32 := 0
  boundMs : U32 := 0
  tries : Nat := 0
  sentMs : U32 := 0

/-- `earlier` records the server that was known when the lease was bound. -/
structure Client where
  lease : Lease := {}
  knownServer : U32 := 0
  earlier : U32 := 0

/-! Messages. -/

/-- A message: op, htype, hlen, hops, xid at 4, yiaddr at 16, chaddr at 28, the cookie at
236 and the options from 240 on. -/
abbrev Message := List U8

def fixedSize : Nat := 240

def byteAt (m : Message) (i : Nat) : U8 := m.getD i 0

/-- ntohl of the word at `i`. -/
def wordAt (m : Message) (i : Nat) : U32 :=
  byteAt m i ++ byteAt m (i + 1) ++ byteAt m (i + 2) ++ byteAt m (i + 3)

def isOurMac (mac chaddr : List U8) : Bool := (chaddr.take 6) == (mac.take 6)

/-- What one option says. -/
def readOption (code : U8) (value : List U8) (type : U8) (out : Lease) : U8 × Lease :=
  let ip := if 4 ≤ value.length then wordAt value 0 else 0
  let long := decide (4 ≤ value.length)
  let type := if code = optMsgType && decide (1 ≤ value.length) then byteAt value 0 else type
  let out := if code = optNetmask && long then { out with netmask := ip } else out
  let out := if code = optRouter && long then { out with router := ip } else out
  let out := if code = optDns && long then { out with dns := ip } else out
  let out := if code = optLease && long then { out with leaseS := ip } else out
  let out := if code = optServerId && long then { out with server := ip } else out
  (type, out)

/-- The loop of read_options over the bytes that are left. Each round takes one at
least. -/
def readOptionsLoop : Nat → List U8 → U8 → Lease → U8 × Lease
  | 0, _, type, out => (type, out)
  | _ + 1, [], type, out => (type, out)
  | rounds + 1, code :: rest, type, out =>
    if code = optEnd then (type, out)
    else if code = optPad then readOptionsLoop rounds rest type out
    else match rest with
      | [] => (type, out)
      | size :: tail =>
        -- an option runs past the end
        if tail.length < size.toNat then (type, out)
        else
          let (type, out) := readOption code (tail.take size.toNat) type out
          readOptionsLoop rounds (tail.drop size.toNat) type out

def readOptions (m : Message) (out : Lease) : U8 × Lease :=
  readOptionsLoop m.length (m.drop fixedSize) 0 out

/-- DEFENCE dhcp_validate. -/
def defDhcpOfferOk (ip mask router server knownServer : U32) : Bool :=
  if server = 0 || ip = 0 then false
  else if router ≠ 0 && router &&& mask ≠ ip &&& mask then false
  else knownServer == 0 || server == knownServer

/-! The client. -/

variable (s : Client) (now : U32)

/-- The message answers the question that we asked. -/
def forUs (m : Message) : Bool :=
  decide (fixedSize ≤ m.length) && byteAt m 0 == bootreply && wordAt m 4 == s.lease.xid &&
    wordAt m 236 == magicCookie && s.lease.dev.any fun mac => isOurMac mac (m.drop 28)

/-- The type of a message and the lease that it offers. -/
def readOffer (m : Message) : U8 × Lease :=
  let (type, offer) := readOptions m { s.lease with netmask := 0, router := 0, dns := 0, server := 0 }
  (type, { offer with ip := wordAt m 16 })

/-- send_message -/
def sent (lease : Lease) (now : U32) : Lease :=
  { lease with sentMs := now, tries := lease.tries + 1 }

def bindLease : Client where
  lease := { s.lease with state := .bound, boundMs := now, tries := 0 }
  knownServer := s.lease.server
  earlier := s.knownServer

def onMessage (m : Message) (now : U32) : Client :=
  if !forUs s m then s
  else
    let (type, offer) := readOffer s m
    if s.lease.state = .selecting && type = dhcpOffer &&
        defDhcpOfferOk offer.ip offer.netmask offer.router offer.server s.knownServer then
      { s with lease := sent { offer with state := .requesting, tries := 0 } now }
    else if s.lease.state = .requesting && type = dhcpAck && offer.server = s.lease.server then
      bindLease { s with lease := offer } now
    else if s.lease.state = .requesting && type = dhcpNak then
      { s with lease := { s.lease with state := .failed } }
    else s

/-- `xid` is what the clock of the processor gives. -/
def dhcpStart (mac : List U8) (xid now : U32) : Client :=
  { s with lease := sent { dev := some mac, xid, state := .selecting } now }

def dhcpRelease : Client :=
  if s.lease.state ≠ .bound then s
  else { s with lease := { sent s.lease now with state := .off } }

def dhcpTick : Client :=
  if (s.lease.state ≠ .selecting && s.lease.state ≠ .requesting) ||
      now - s.lease.sentMs < dhcpRetryMs then s
  else if dhcpRetries ≤ s.lease.tries then { s with lease := { s.lease with state := .failed } }
  else { s with lease := sent s.lease now }

/-- The client at boot. -/
def initial : Client := {}

/-- What happens to the client, with the time of it. -/
inductive Event where
  | message (m : Message) (now : U32)
  | tick (now : U32)
  | start (mac : List U8) (xid now : U32)
  | release (now : U32)

def step : Event → Client
  | .message m now => onMessage s m now
  | .tick now => dhcpTick s now
  | .start mac xid now => dhcpStart s mac xid now
  | .release now => dhcpRelease s now

end UzOS.Dhcp
