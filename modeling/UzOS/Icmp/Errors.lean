import UzOS.Ipv4.Firewall
import UzOS.Udp.Send

/-! ICMP errors (core/icmp/icmp.c) and the ways a received packet leads to one: the firewall's
REJECT, an unknown protocol (core/ipv4/ipv4.c) and a closed port (core/udp/udp.c). -/
namespace UzOS.Icmp

open Ipv4 Option

def ipprotoIcmp : U8 := 1
def icmpEchoReply : U8 := 0
def icmpDestUnreach : U8 := 3
def icmpEchoRequest : U8 := 8
def icmpProtoUnreach : U8 := 2
def icmpPortUnreach : U8 := 3
def errorQuote : Nat := 8

/-! ## The checks on arrival -/

variable (h : Host) (p : Packet)

/-- `p.payload` is all that follows the header in the frame. -/
def defIpHeaderOk : Bool :=
  let total := (ntohs p.header.totalLength).toNat
  p.header.versionIhl >>> 4 == 4 && decide (p.header.hlen ≤ total) &&
    decide (total ≤ p.header.hlen + p.payload.length) &&
    inetChecksum (p.header.bytes ++ p.options) == 0

/-- packet_trim to the total length. -/
def trim : Packet :=
  { p with payload := p.payload.take ((ntohs p.header.totalLength).toNat - p.header.hlen) }

/-- The loop of def_ip_options_ok; every round takes at least one byte. -/
def optionsLoop : Nat → List U8 → Bool
  | 0, _ | _, [] => true
  | rounds + 1, kind :: rest =>
    if kind = 0 then true
    else if kind = 1 then optionsLoop rounds rest
    else if kind = 0x83 ∨ kind = 0x89 ∨ rest.headD 0 < 2 then false
    else optionsLoop rounds (rest.drop ((rest.headD 0).toNat - 1))

def defIpOptionsOk (opt : List U8) : Bool := optionsLoop opt.length opt

def defMartianOk (src dst : U32) : Bool :=
  if src = 0 then dst == 0xFFFFFFFF
  else if src = 0xFFFFFFFF ∨ 0xE ≤ src >>> 28 then false
  else src != dst

/-- An interface's name, whether it is lo, its address and its mask. -/
structure Iface where
  name : List U8
  loopback : Bool
  ip : U32
  netmask : U32

def Iface.broadcast (dev : Iface) : U32 := dev.ip ||| ~~~dev.netmask

def forUs (dev : Iface) (dst : U32) : Bool :=
  dev.loopback || dst == ipv4Broadcast || dev.ip == 0 || dst == dev.ip || dst == dev.broadcast

/-- The machine as a packet finds it. -/
structure Host where
  /-- The interface the packet came in on, and all of them. -/
  dev : Iface
  ifaces : List Iface
  /-- def_rp_ok: the route to this source leaves through `dev`. -/
  rpOk : U32 → Bool
  /-- The slots of reassembly, its clock, and whether it finds a buffer. -/
  slots : Slots
  now : U32
  wholeAlloc : Bool
  policy : Chain → Target
  table : List Rule
  /-- lookup finds an endpoint for dst, dport, src, sport. -/
  lookup : U32 → U16 → U32 → U16 → Bool
  /-- The two rate limits, and whether packet_alloc finds a buffer. -/
  unreachOk : U32 → Bool
  icmpSendOk : Bool
  alloc : Bool
  /-- What the buffer holds where an empty ICMP message would have its type. -/
  stale : U8

def src : U32 := ntohl p.header.src
def dst : U32 := ntohl p.header.dst

/-- ipv4_receive up to the firewall: the whole packet it goes on with. -/
def Host.accepted : Option Packet :=
  let q := trim p
  if !defIpHeaderOk p || !defIpOptionsOk p.options then none
  else if !h.dev.loopback && (!defMartianOk (src p) (dst p) || (h.dev.ip != 0 && !h.rpOk (src p)))
  then none
  else if !forUs h.dev (dst p) then none
  else
    let whole := if q.frag &&& (ipv4FlagMf ||| ipv4OffsetMask) ≠ 0
      then (ipv4Reassemble h.wholeAlloc h.now h.slots q).1 else some q
    -- def_filter_whole
    whole.filter fun q => q.frag &&& 0x3FFF == 0

/-! ## The complaints -/

/-- udp_receive calls icmp_send_error. -/
def Host.closedPort : Bool :=
  let length := (ntohs (Udp.field p.payload 4)).toNat
  decide (Udp.udpHlen ≤ p.payload.length) && decide (Udp.udpHlen ≤ length) &&
    decide (length ≤ p.payload.length) &&
    (Udp.field p.payload 6 == 0 ||
      Udp.inetChecksumPseudo (src p) (dst p) protoUdp (p.payload.take length) == 0) &&
    !h.lookup (dst p) (ntohs (Udp.field p.payload 2)) (src p) (ntohs (Udp.field p.payload 0)) &&
    dst p != ipv4Broadcast && h.unreachOk (src p)

/-- The code of the error that icmp_send_error is asked for. -/
def Host.complaint : Option U8 :=
  match verdict h.policy h.table .input p (some h.dev.name) with
  | .drop => none
  | .reject => some icmpPortUnreach
  | .accept | .log =>
    if p.header.protocol = ipprotoIcmp ∨ p.header.protocol = protoTcp then none
    else if p.header.protocol = protoUdp then
      if h.closedPort p then some icmpPortUnreach else none
    else some icmpProtoUnreach

/-- An ICMP error: what it is about, its type and code, the quote, from and for whom. -/
structure Error where
  cause : Packet
  type : U8
  code : U8
  quote : List U8
  source : U32
  target : U32

def Host.icmpSendError (cause : Packet) (type code : U8) : Option Error :=
  let inner := cause.payload.headD h.stale
  if dst cause = ipv4Broadcast ∨ cause.frag &&& ipv4OffsetMask ≠ 0 then none
  else if cause.header.protocol = ipprotoIcmp ∧ inner ≠ icmpEchoRequest ∧ inner ≠ icmpEchoReply
  then none
  else if !h.icmpSendOk || !h.alloc then none
  else some ⟨cause, type, code,
    cause.header.bytes ++ cause.options ++ cause.payload.take errorQuote, dst cause, src cause⟩

/-- The error ipv4_receive sends. -/
def Host.ipv4Receive : Option Error := do
  let whole ← h.accepted p
  let code ← h.complaint whole
  h.icmpSendError whole icmpDestUnreach code

/-! ## The rule -/

/-- Destination unreachable, source quench, redirect, time exceeded, parameter problem. -/
def isIcmpError : Prop :=
  p.header.protocol = ipprotoIcmp ∧ ∃ type ∈ p.payload.head?, type ∈ [3#8, 4#8, 5#8, 11#8, 12#8]

/-- The broadcast address of one of our networks. -/
def Host.directed (ip : U32) : Prop :=
  ∃ dev ∈ h.ifaces, dev.ip ≠ 0 ∧ ip = dev.broadcast ∧ ip ≠ dev.ip

/-- What no ICMP error may be about. -/
def Host.Forbidden (cause : Packet) : Prop :=
  isIcmpError cause ∨ cause.frag &&& ipv4OffsetMask ≠ 0 ∨ dst cause = ipv4Broadcast ∨
    h.directed (dst cause)

/-- icmp_send_error has nothing against the packet, and the means to answer it. -/
def Host.passes : Prop :=
  dst p ≠ ipv4Broadcast ∧ p.frag &&& ipv4OffsetMask = 0 ∧
    (p.header.protocol = ipprotoIcmp →
      p.payload.headD h.stale = icmpEchoRequest ∨ p.payload.headD h.stale = icmpEchoReply) ∧
    h.icmpSendOk = true ∧ h.alloc = true

def Host.answers : Prop := (h.complaint p).isSome ∧ h.passes p

variable {h : Host} {p : Packet}

theorem icmpSendError_some {type code : U8} {e : Error}
    (sent : h.icmpSendError p type code = some e) : e.cause = p ∧ h.passes p := by
  unfold Host.icmpSendError at sent
  dsimp only at sent
  split at sent <;> try contradiction
  next plain =>
  split at sent <;> try contradiction
  next echo =>
  split at sent <;> cases sent
  next ready =>
  rw [not_or, not_not] at plain
  refine ⟨rfl, plain.1, plain.2, ?_, ?_⟩
  · intro icmp
    by_contra neither
    exact echo ⟨icmp, not_or.mp neither⟩
  · simpa using ready

theorem icmpSendError_isSome (pass : h.passes p) (type code : U8) :
    (h.icmpSendError p type code).isSome := by
  obtain ⟨limited, start, echo, sendOk, alloc⟩ := pass
  have inner : ¬ (p.header.protocol = ipprotoIcmp ∧ p.payload.headD h.stale ≠ icmpEchoRequest ∧
      p.payload.headD h.stale ≠ icmpEchoReply) := by
    rintro ⟨icmp, notRequest, notReply⟩
    exact (echo icmp).elim notRequest notReply
  unfold Host.icmpSendError
  rw [if_neg (not_or.mpr ⟨limited, not_not.mpr start⟩), if_neg inner, sendOk, alloc]
  rfl

/-- The filter stops every cause but the directed broadcasts. -/
theorem Host.passes.allowed (pass : h.passes p) : h.Forbidden p ↔ h.directed (dst p) := by
  obtain ⟨limited, start, echo, _⟩ := pass
  constructor
  · rintro (⟨icmp, type, first, error⟩ | later | all | directed)
    · have kind := echo icmp
      rw [List.headD_eq_head?_getD, mem_def.mp first] at kind
      rcases kind with rfl | rfl <;> exact absurd error (by decide)
    · exact absurd start later
    · exact absurd all limited
    · exact directed
  · exact fun directed => .inr (.inr (.inr directed))

theorem ipv4Receive_some {e : Error} (sent : h.ipv4Receive p = some e) :
    h.accepted p = some e.cause ∧ h.answers e.cause := by
  simp only [Host.ipv4Receive, bind_eq_bind, bind_eq_some_iff] at sent
  obtain ⟨whole, up, code, asked, sent⟩ := sent
  obtain ⟨rfl, pass⟩ := icmpSendError_some sent
  exact ⟨up, isSome_iff_exists.mpr ⟨code, asked⟩, pass⟩

theorem ipv4Receive_answers {whole : Packet} (up : h.accepted p = some whole)
    (answers : h.answers whole) : ∃ e, h.ipv4Receive p = some e ∧ e.cause = whole := by
  obtain ⟨code, asked⟩ := isSome_iff_exists.mp answers.1
  obtain ⟨e, sent⟩ := isSome_iff_exists.mp
    (icmpSendError_isSome answers.2 icmpDestUnreach code)
  refine ⟨e, ?_, (icmpSendError_some sent).1⟩
  simp only [Host.ipv4Receive, bind_eq_bind, up, asked, bind_some, sent]

/-- An error is sent where none may be exactly when a packet for a directed broadcast address
is answered: icmp_send_error knows the limited broadcast only. -/
theorem no_forbidden_error_iff (h : Host) (p : Packet) :
    (∀ e, h.ipv4Receive p = some e → ¬ h.Forbidden e.cause) ↔
      ¬ ∃ whole, h.accepted p = some whole ∧ h.directed (dst whole) ∧ h.answers whole := by
  constructor
  · rintro quiet ⟨whole, up, directed, answers⟩
    obtain ⟨e, sent, rfl⟩ := ipv4Receive_answers up answers
    exact quiet e sent (answers.2.allowed.mpr directed)
  · intro rare e sent forbidden
    obtain ⟨up, answers⟩ := ipv4Receive_some sent
    exact rare ⟨e.cause, up, answers.2.allowed.mp forbidden, answers⟩

/-- 10.0.2.15/24, with no port open. -/
def lan : Host where
  dev := ⟨[101], false, 0x0A00020F, 0xFFFFFF00⟩
  ifaces := [⟨[101], false, 0x0A00020F, 0xFFFFFF00⟩]
  rpOk _ := true
  slots := .initial
  now := 0
  wholeAlloc := true
  policy _ := .accept
  table := []
  lookup _ _ _ _ := false
  unreachOk _ := true
  icmpSendOk := true
  alloc := true
  stale := 0

/-- An empty datagram of 10.0.2.2 for port 137 of everyone on 10.0.2.0/24. -/
def toEveryone : Packet where
  header := Header.sealed
    ⟨0x45, 0, htons 28, 0, 0, 64, protoUdp, 0, htonl 0x0A000202, htonl 0x0A0002FF⟩
  options := []
  payload := [0, 137, 0, 137, 0, 8, 0, 0]
  whole := by decide

/-- It is answered with a port unreachable. -/
theorem broadcast_answered :
    ∃ e, lan.ipv4Receive toEveryone = some e ∧ e.type = icmpDestUnreach ∧
      e.code = icmpPortUnreach ∧ lan.Forbidden e.cause := by
  have answer : (lan.ipv4Receive toEveryone).map (fun e => (e.type, e.code, dst e.cause)) =
      some (icmpDestUnreach, icmpPortUnreach, 0x0A0002FF) := by decide +kernel
  obtain ⟨e, sent, parts⟩ := map_eq_some_iff.mp answer
  simp only [Prod.mk.injEq] at parts
  obtain ⟨type, code, to'⟩ := parts
  refine ⟨e, sent, type, code, .inr (.inr (.inr ?_))⟩
  rw [to']
  exact ⟨lan.dev, List.mem_singleton.mpr rfl, by decide, by decide, by decide⟩

end UzOS.Icmp
