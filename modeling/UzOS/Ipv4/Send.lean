import UzOS.Ipv4.Fragment

/-! Finding the way out (core/route/route.c) and sending an IPv4 packet
(ipv4_send in core/ipv4/ipv4.c). -/
namespace UzOS.Ipv4

open OnesComplement

def netEnetunreach : Int := 101
def ipv4Broadcast : U32 := 0xFFFFFFFF
def mtuMin : Nat := 68
def mtuMax : Nat := 1500

def ntohl (x : U32) : U32 := htonl x

/-- netdev_t. `running` is netdev_running; the MTU is one the interface calls
let through. -/
structure Netdev where
  ip : U32
  mtu : U16
  broadcast : Bool
  running : Bool
  mtu_range : mtuMin ≤ mtu.toNat ∧ mtu.toNat ≤ mtuMax

theorem ethernet_mtu : mtuMin ≤ (1500 : U16).toNat ∧ (1500 : U16).toNat ≤ mtuMax := by decide

/-- route_t -/
structure Route where
  used : Bool
  dest : U32
  mask : U32
  gateway : U32
  dev : Netdev
  metric : U32

/-- route_result_t -/
structure RouteResult where
  dev : Netdev
  nextHop : U32
  src : U32

/-- The interfaces and the routing table as they stand during a call. -/
structure Net where
  devs : List Netdev
  loopbackDev : Netdev
  table : List Route

def Net.routeIsLocal (net : Net) (ip : U32) : Bool :=
  net.devs.any (fun dev => dev.ip == ip) || ip >>> 24 == 127

/-- One round of the search: the longer prefix, then the smaller metric. -/
def Route.orBest (dest : U32) (best : Option Route) (r : Route) : Option Route :=
  if !r.used || (dest &&& r.mask) != r.dest || !r.dev.running then best
  else match best with
    | none => some r
    | some b =>
      if r.mask > b.mask || (r.mask == b.mask && r.metric < b.metric) then some r else best

def Net.routeLookup (net : Net) (dest : U32) : Option RouteResult :=
  if net.routeIsLocal dest then some ⟨net.loopbackDev, dest, dest⟩
  else match net.table.foldl (Route.orBest dest) none with
    | none => none
    | some best =>
      some ⟨best.dev, if best.gateway ≠ 0 then best.gateway else dest, best.dev.ip⟩

/-- The interface for a limited broadcast: the first working one. -/
def Net.broadcastDev (net : Net) : Option Netdev :=
  net.devs.find? fun dev => dev.broadcast && dev.running

/-- The route ipv4_send takes. -/
def Net.wayOut (net : Net) (dst : U32) : Option RouteResult :=
  if dst = ipv4Broadcast then net.broadcastDev.map fun dev => ⟨dev, ipv4Broadcast, dev.ip⟩
  else net.routeLookup dst

/-- What a send meets: the buffers packet_alloc finds, the id the next packet
gets, and what output() answers for a packet. -/
structure Env where
  alloc : Bool
  allocPiece : Nat → Bool
  nextIpId : U16
  output : Netdev → U32 → Packet → Int

/-- ttl_normalize -/
def defDefaultTtl : U8 := 64

/-- A packet that fits into the link. -/
def Origin.single (o : Origin) (payload : List U8) : Packet where
  header := o.header (BitVec.ofNat 16 (ipv4Hlen + payload.length)) 0
  options := []
  payload := payload
  whole := by
    simp only [Origin.header, fillHeader, Header.sealed, Header.hlen]
    rfl

/-- ipv4_send: the packets handed to output(), and the result. The headroom of
a fresh buffer always has room for the header. -/
def ipv4Send (net : Net) (env : Env) (payload : List U8) (src dst : U32) (protocol ttl : U8) :
    List Packet × Int :=
  match net.wayOut dst with
  | none => ([], -netEnetunreach)
  | some route =>
    let o : Origin :=
      { id := env.nextIpId, ttl := if ttl = 0 then defDefaultTtl else ttl, protocol := protocol
        src := if src = 0 then route.src else src, dst := dst }
    if ipv4Hlen + payload.length > route.dev.mtu.toNat then
      (fragment env.allocPiece (env.output route.dev route.nextHop) route.dev.mtu o payload).getD
        ([], 0)
    else ([o.single payload], env.output route.dev route.nextHop (o.single payload))

/-! What is handed out. -/

theorem ntohl_htonl (x : U32) : ntohl (htonl x) = x := by
  apply BitVec.eq_of_getLsbD_eq
  intro i inside
  simp only [ntohl, htonl]
  interval_cases i <;> simp

variable {payload : List U8}

theorem Origin.single_piece (o : Origin) (positive : 0 < payload.length) :
    Piece o payload (o.single payload) := by
  have frag : (o.single payload).frag = 0 := by
    simp only [Packet.frag, ntohs, Origin.single, Origin.header, fillHeader, Header.sealed,
      htons_htons]
  have place : (o.single payload).offset = 0 := by rw [Packet.offset, frag]; rfl
  have whole : (o.single payload).payload = payload := rfl
  have last : (o.single payload).more = false := by rw [Packet.more, frag]; rfl
  have finish : (o.single payload).finish = payload.length := by
    rw [Packet.finish, place, whole, zero_add]
  constructor
  · exact ⟨_, _, rfl⟩
  · intro k here
    rw [whole, place, zero_add]
  · exact positive
  · exact finish.le
  · rw [last, finish]
    simp
  · intro more
    rw [last] at more
    cases more

/-- Every packet ipv4_send hands out is a piece of what it was given, sent from
the route's address where it was given none. -/
theorem ipv4Send_pieces {net : Net} {env : Env} {src dst : U32}
    {protocol ttl : U8} (positive : 0 < payload.length) (short : payload.length ≤ 1580)
    {p : Packet} (sent : p ∈ (ipv4Send net env payload src dst protocol ttl).1) :
    ∃ route o, net.wayOut dst = some route ∧ o.src = (if src = 0 then route.src else src) ∧
      o.dst = dst ∧ Piece o payload p := by
  rw [ipv4Send] at sent
  cases way : net.wayOut dst with
  | none => simp [way] at sent
  | some route =>
    simp only [way] at sent
    refine ⟨route, ⟨env.nextIpId, if ttl = 0 then defDefaultTtl else ttl, protocol,
      if src = 0 then route.src else src, dst⟩, rfl, rfl, rfl, ?_⟩
    split at sent
    · obtain ⟨ps, -, pieces, -, -, handed⟩ := fragment_pieces
        ⟨env.nextIpId, if ttl = 0 then defDefaultTtl else ttl, protocol,
          if src = 0 then route.src else src, dst⟩ route.dev.mtu_range.1 route.dev.mtu_range.2
        (show payload.length ≤ 1728 by omega)
      obtain ⟨out, ends, first, -⟩ := handed env.allocPiece (env.output route.dev route.nextHop)
      rw [ends] at sent
      exact pieces.each p (first.subset sent)
    · rw [List.mem_singleton] at sent
      subst sent
      exact Origin.single_piece _ positive

/-- The addresses of a piece are its origin's. -/
theorem Piece.addresses {o : Origin} {p : Packet} (piece : Piece o payload p) :
    ntohl p.header.src = o.src ∧ ntohl p.header.dst = o.dst := by
  obtain ⟨total, frag, header⟩ := piece.header
  rw [header]
  exact ⟨ntohl_htonl _, ntohl_htonl _⟩

end UzOS.Ipv4
