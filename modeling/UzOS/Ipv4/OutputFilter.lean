import UzOS.Ipv4.Firewall

/-! The OUTPUT chain and fragments (output and fragment in core/ipv4/ipv4.c): each piece of
a datagram is checked on its own. -/
namespace UzOS.Ipv4

def netEperm : Int := 1

/-- The rules and the policies as they stand, and the names of the interfaces. -/
structure Filter where
  policy : Chain → Target
  table : List Rule
  name : Netdev → List U8

namespace Filter

def accepts (f : Filter) (dev : Netdev) (p : Packet) : Bool :=
  firewallCheck f.policy f.table .output p (some (f.name dev))

/-- No rules at all. -/
def off (f : Filter) : Filter := { f with policy := fun _ => .accept, table := [] }

/-- output() in front of a link that takes every packet. -/
def output (f : Filter) (dev : Netdev) (p : Packet) : Int :=
  if f.accepts dev p then 0 else -netEperm

/-- There are buffers for all of them. -/
def env (f : Filter) (id : U16) : Env where
  alloc := true
  allocPiece _ := true
  nextIpId := id
  output dev _ := f.output dev

/-- What ipv4_send puts on the link of the route. -/
def emitted (f : Filter) (net : Net) (route : RouteResult) (id : U16) (payload : List U8)
    (src dst : U32) (protocol ttl : U8) : List Packet :=
  (ipv4Send net (f.env id) payload src dst protocol ttl).1.filter (f.accepts route.dev)

end Filter

/-- What ipv4_send fills the headers in from. -/
def RouteResult.origin (route : RouteResult) (id : U16) (src dst : U32) (protocol ttl : U8) :
    Origin :=
  { id, ttl := if ttl = 0 then defDefaultTtl else ttl, protocol
    src := if src = 0 then route.src else src, dst }

/-- A packet of the datagram that is not its first, for the eyes of the firewall. -/
def Origin.later (o : Origin) : Packet := o.fragment [] 8 0

section Seen

variable {p q : Packet}

/-- The firewall reads the protocol, the addresses and the transport header. -/
theorem firewallCheck_congr (seen : transport p = transport q)
    (protocol : p.header.protocol = q.header.protocol) (src : p.header.src = q.header.src)
    (dst : p.header.dst = q.header.dst) (policy : Chain → Target) (table : List Rule)
    (chain : Chain) (dev : Option (List U8)) :
    firewallCheck policy table chain p dev = firewallCheck policy table chain q dev := by
  have rules (r : Rule) : r.matches p dev = r.matches q dev := by
    simp only [Rule.matches, protocol, src, dst, seen]
  have same : decided chain p dev table = decided chain q dev table := by
    induction table with
    | nil => rfl
    | cons r rest ih => rw [decided, decided, rules, ih]
  simp only [firewallCheck, verdict, same]

theorem transport_later (away : p.offset ≠ 0) : transport p = (0, 0, 0) := by
  have field : p.frag &&& ipv4OffsetMask ≠ 0 := by
    intro zero
    simp [Packet.offset, zero] at away
  unfold transport
  simp only [field, ne_eq, not_false_eq_true, or_true, if_true, ite_self]

variable (o : Origin) (payload : List U8)

theorem transport_first {len : Nat} (enough : 20 ≤ len) (inside : len ≤ payload.length) :
    transport (o.fragment payload 0 len) = transport (o.single payload) := by
  have first : (o.fragment payload 0 len).frag &&& ipv4OffsetMask = 0 := by
    have place := fragment_offset o payload len (show 0 % 8 = 0 from rfl) (by decide)
    rw [Packet.offset, Nat.mul_eq_zero] at place
    exact BitVec.eq_of_toNat_eq (place.resolve_right (by decide))
  have whole : (o.single payload).frag &&& ipv4OffsetMask = 0 := by
    simp only [Packet.frag, Origin.single, Origin.header, fillHeader, Header.sealed]
    rfl
  have bytes (i : Nat) (low : i < 20) :
      ((payload.drop 0).take len).getD i 0 = payload.getD i 0 := by
    rw [List.drop_zero, List.getD_eq_getElem?_getD, List.getElem?_take_of_lt (by omega),
      List.getD_eq_getElem?_getD]
  have length : ((payload.drop 0).take len).length = len := by simp [inside]
  have long : ¬ len < 4 ∧ ¬ payload.length < 4 ∧ len ≥ 20 ∧ payload.length ≥ 20 := by omega
  unfold transport
  simp only [first, whole]
  simp only [Origin.fragment, Origin.single, Origin.header, fillHeader, Header.sealed, length,
    long, bytes 0 (by decide), bytes 1 (by decide), bytes 2 (by decide), bytes 3 (by decide),
    bytes 13 (by decide)]

end Seen

section Pieces

variable (f : Filter) (dev : Netdev) (o : Origin) {payload : List U8}

theorem accepts_first {len : Nat} (enough : 20 ≤ len) (inside : len ≤ payload.length) :
    f.accepts dev (o.fragment payload 0 len) = f.accepts dev (o.single payload) := by
  unfold Filter.accepts
  exact firewallCheck_congr (transport_first o payload enough inside) rfl rfl rfl _ _ _ _

theorem accepts_later {offset len : Nat} (aligned : offset % 8 = 0) (small : offset < 2 ^ 16)
    (away : 0 < offset) :
    f.accepts dev (o.fragment payload offset len) = f.accepts dev o.later := by
  have place := fragment_offset o payload len aligned small
  have later : o.later.offset ≠ 0 := by
    rw [Origin.later, fragment_offset o [] 0 rfl (by decide)]
    decide
  have seen : transport (o.fragment payload offset len) = transport o.later :=
    (transport_later (by omega)).trans (transport_later later).symm
  unfold Filter.accepts
  exact firewallCheck_congr seen rfl rfl rfl _ _ _ _

theorem cut_size (cut : ipv4Hlen + payload.length > dev.mtu.toNat) :
    20 ≤ pieceSize dev.mtu ∧ pieceSize dev.mtu % 8 = 0 ∧ pieceSize dev.mtu < payload.length ∧
      pieceSize dev.mtu ≤ 1480 := by
  have range := dev.mtu_range
  simp only [mtuMin, mtuMax, ipv4Hlen] at range cut
  rw [pieceSize_eq (by omega)]
  omega

/-- The packets of a datagram that is cut which pass. -/
def Filter.pieces (f : Filter) (dev : Netdev) (o : Origin) (payload : List U8) : List Packet :=
  ((fragment (fun _ => true) (f.output dev) dev.mtu o payload).getD ([], 0)).1.filter
    (f.accepts dev)

variable {f dev o} (room : payload.length ≤ 1728) (cut : ipv4Hlen + payload.length > dev.mtu.toNat)
include cut

theorem pieces_refused (whole : f.accepts dev (o.single payload) = false) :
    f.pieces dev o payload = [] := by
  obtain ⟨low, -, inside, -⟩ := cut_size dev cut
  have first := accepts_first f dev o low inside.le
  have refused : f.output dev (o.fragment payload 0 (pieceSize dev.mtu)) ≠ 0 := by
    simp [Filter.output, first, whole, netEperm]
  rw [Filter.pieces, fragment, fragmentLoop_round _ _ o _ (by omega) rfl]
  simp [inside.le, refused, first, whole]

include room

theorem pieces_pass (whole : f.accepts dev (o.single payload))
    (later : f.accepts dev o.later) : f.pieces dev o payload = f.off.pieces dev o payload ∧
      (f.pieces dev o payload).flatMap Packet.payload = payload := by
  obtain ⟨low, -, inside, -⟩ := cut_size dev cut
  obtain ⟨ps, free, -, bytes, each, handed⟩ :=
    fragment_pieces o dev.mtu_range.1 dev.mtu_range.2 room
  have accepted (p : Packet) (member : p ∈ ps) : f.accepts dev p := by
    obtain ⟨place, aligned, more, rfl⟩ := each p member
    by_cases first : place = 0
    · subst first
      rw [accepts_first f dev o (by omega) (by omega)]
      exact whole
    · rw [accepts_later f dev o aligned (by omega) (by omega)]
      exact later
  obtain ⟨out, loop, -, all⟩ := handed (fun _ => true) (f.output dev)
  have passing : f.pieces dev o payload = ps := by
    rw [Filter.pieces, loop, all (fun _ => rfl) fun p member => if_pos (accepted p member)]
    exact List.filter_eq_self.mpr accepted
  have off : f.off.output dev = fun _ => 0 := rfl
  have unfiltered : f.off.pieces dev o payload = ps := by
    rw [Filter.pieces, off, free]
    exact List.filter_eq_self.mpr fun _ _ => rfl
  exact ⟨passing.trans unfiltered.symm, passing.symm ▸ bytes⟩

theorem pieces_stop (whole : f.accepts dev (o.single payload))
    (later : f.accepts dev o.later = false) :
    (f.pieces dev o payload).flatMap Packet.payload ≠ payload := by
  obtain ⟨low, blocks, inside, high⟩ := cut_size dev cut
  obtain ⟨rounds, length⟩ : ∃ rounds, payload.length = rounds + 1 := ⟨payload.length - 1, by omega⟩
  have first := accepts_first f dev o low inside.le
  have second (len : Nat) : f.accepts dev (o.fragment payload (pieceSize dev.mtu) len) =
      f.accepts dev o.later := accepts_later f dev o blocks (by omega) (by omega)
  have next : (0 + pieceSize dev.mtu) % 2 ^ 16 = pieceSize dev.mtu := by omega
  intro all
  have bytes := congrArg List.length all
  rw [Filter.pieces, fragment, length, fragmentLoop_round _ _ o _ (by omega) rfl, next,
    fragmentLoop_round _ _ o _ inside rfl] at bytes
  simp [inside.le, first, second, whole, later, Filter.output, netEperm] at bytes
  rw [fragment_length o payload (by omega)] at bytes
  omega

end Pieces

section Sending

variable (f : Filter) (net : Net) (id : U16) (src dst : U32) (protocol ttl : U8)
  {payload : List U8} {route : RouteResult}

/-- The firewall keeps all of the datagram or nothing, as it would in one piece, unless the
datagram is cut and only its ports or flags let it pass. -/
theorem filtering_independent_iff (room : payload.length ≤ 1728)
    (way : net.wayOut dst = some route) :
    let o := route.origin id src dst protocol ttl
    let whole := f.accepts route.dev (o.single payload)
    (f.emitted net route id payload src dst protocol ttl =
        (if whole then f.off.emitted net route id payload src dst protocol ttl else []) ∧
      (f.emitted net route id payload src dst protocol ttl).flatMap Packet.payload =
        if whole then payload else []) ↔
    ¬ (ipv4Hlen + payload.length > route.dev.mtu.toNat ∧ whole = true ∧
      f.accepts route.dev o.later = false) := by
  intro o whole
  have sent (f : Filter) : f.emitted net route id payload src dst protocol ttl =
      if ipv4Hlen + payload.length > route.dev.mtu.toNat then f.pieces route.dev o payload
      else [o.single payload].filter (f.accepts route.dev) := by
    simp only [Filter.emitted, ipv4Send, way]
    split <;> rfl
  by_cases cut : ipv4Hlen + payload.length > route.dev.mtu.toNat
  · simp only [sent, cut]
    cases accepted : whole with
    | false => simp [pieces_refused cut accepted]
    | true =>
      cases later : f.accepts route.dev o.later with
      | false => simp [pieces_stop room cut accepted later]
      | true => simpa using pieces_pass room cut accepted later
  · have free : f.off.accepts route.dev (o.single payload) = true := rfl
    have bytes : (o.single payload).payload = payload := rfl
    have same : whole = f.accepts route.dev (o.single payload) := rfl
    cases accepted : whole <;> simp [sent, cut, ← same, accepted, free, bytes]

end Sending

/-- A link with the smallest MTU, and only name queries may go out. -/
def slowLink : Netdev := ⟨0x0A000002, 68, true, true, by decide⟩

def slowNet : Net := ⟨[slowLink], slowLink, [⟨true, 0x0A000000, 0xFFFFFF00, 0, slowLink, 0⟩]⟩

def slowRoute : RouteResult := ⟨slowLink, 0x0A000001, 0x0A000002⟩

def dnsOnly : Filter where
  policy _ := .drop
  table := [{ used := true, chain := .output, protocol := protoUdp, dport := 53 }]
  name _ := []

def query (length : Nat) : List U8 := [0xC0, 0, 0, 53] ++ List.replicate length 0

/-- Every datagram of the protocol may go out, whatever its ports. -/
def udpOnly : Filter where
  policy _ := .drop
  table := [{ used := true, chain := .output, protocol := protoUdp }]
  name _ := []

theorem filtering_independent_pieces :
    let sent := udpOnly.emitted slowNet slowRoute 7 (query 100) 0 0x0A000001 protoUdp 0
    sent.length = 3 ∧ sent.flatMap Packet.payload = query 100 := by
  have property := (filtering_independent_iff udpOnly slowNet 7 0 0x0A000001 protoUdp 0
    (show (query 100).length ≤ 1728 by decide) (show slowNet.wayOut _ = some slowRoute from rfl)).mpr
    (by decide +kernel)
  have accepted : udpOnly.accepts slowRoute.dev
      ((slowRoute.origin 7 0 0x0A000001 protoUdp 0).single (query 100)) = true := by decide +kernel
  exact ⟨by decide +kernel, by simpa only [accepted, if_true] using property.2⟩

/-- The query may go out, but only the first of its three pieces does: the other two do not
show the port. -/
theorem query_cut_short :
    dnsOnly.accepts slowLink ((slowRoute.origin 7 0 0x0A000001 protoUdp 0).single (query 100)) =
        true ∧
      (dnsOnly.off.emitted slowNet slowRoute 7 (query 100) 0 0x0A000001 protoUdp 0).length = 3 ∧
      (dnsOnly.emitted slowNet slowRoute 7 (query 100) 0 0x0A000001 protoUdp 0).length = 1 := by
  decide +kernel

end UzOS.Ipv4
