import UzOS.Ipv4.Send

/-! Sending a UDP datagram (udp_send in core/udp/udp.c), the check the receiver
makes (udp_receive), and when the one passes the other. -/
namespace UzOS.Udp

open OnesComplement Ipv4 BitVec List

def udpHlen : Nat := 8
def packetDataMax : Nat := 1600
def ipprotoUdp : U8 := 17
def netEmsgsize : Int := 90

/-- The pseudo header of inet_checksum_pseudo. -/
def pseudoHeader (src dst : U32) (protocol : U8) (length : U16) : List U8 :=
  bytes32 (htonl src) ++ (bytes32 (htonl dst) ++ ([0, protocol] ++ bytes16 (htons length)))

def inetChecksumPseudo (src dst : U32) (protocol : U8) (data : List U8) : U16 :=
  fold (sumWords (sumWords 0 (pseudoHeader src dst protocol (BitVec.ofNat 16 data.length))) data)

/-- udp_header_t, in network order. -/
structure Header where
  srcPort : U16
  dstPort : U16
  length : U16
  checksum : U16

def Header.bytes (h : Header) : List U8 :=
  bytes16 h.srcPort ++ (bytes16 h.dstPort ++ (bytes16 h.length ++ bytes16 h.checksum))

/-- The header before its checksum is known. -/
def unsummed (sport dport : U16) (data : List U8) : Header :=
  { srcPort := htons sport, dstPort := htons dport
    length := htons (BitVec.ofNat 16 (udpHlen + data.length)), checksum := 0 }

/-- The source address the checksum is computed with. -/
def summedSource (net : Net) (src dst : U32) : U32 :=
  if src = 0 ∧ dst ≠ Ipv4.ipv4Broadcast then
    match net.routeLookup dst with
    | some r => r.src
    | none => src
  else src

/-- The checksum field; a sum of zero is sent as all ones. -/
def filledChecksum (src dst : U32) (bytes : List U8) : U16 :=
  if inetChecksumPseudo src dst ipprotoUdp bytes = 0 then 0xFFFF
  else inetChecksumPseudo src dst ipprotoUdp bytes

/-- The datagram udp_send hands to ipv4_send. -/
def datagram (net : Net) (src : U32) (sport : U16) (dst : U32) (dport : U16) (data : List U8) :
    List U8 :=
  let h := unsummed sport dport data
  { h with
    checksum := filledChecksum (summedSource net src dst) dst (h.bytes ++ data) }.bytes ++ data

/-- udp_send: the packets handed to output(), and the result. -/
def udpSend (net : Net) (env : Env) (src : U32) (sport : U16) (dst : U32) (dport : U16)
    (data : List U8) (ttl : U8) : List Packet × Int :=
  if data.length > packetDataMax - udpHlen - ipv4Hlen then ([], -netEmsgsize)
  else if !env.alloc then ([], -netEnobufs)
  else ipv4Send net env (datagram net src sport dst dport data) (summedSource net src dst) dst
    ipprotoUdp ttl

/-- The 16-bit field of a packet at an offset, as the processor reads it. -/
def field (p : List U8) (k : Nat) : U16 :=
  (p.getD k 0).setWidth 16 ||| ((p.getD (k + 1) 0).setWidth 16 <<< 8)

/-- The datagram carries a checksum, and udp_receive lets it through. -/
def checksumHolds (src dst : U32) (p : List U8) : Bool :=
  let length := (ntohs (field p 4)).toNat
  !(decide (p.length < udpHlen) || decide (length < udpHlen) || decide (length > p.length)) &&
    field p 6 != 0 && inetChecksumPseudo src dst ipprotoUdp (p.take length) == 0

/-! The sums. -/

theorem wordSum_bytes32 (x : U32) (rest : List U8) :
    wordSum (bytes32 x ++ rest) = wordSum (bytes32 x) + wordSum rest :=
  wordSum_append (by simp [bytes32, bytes16]) rest

/-- The sum the checksum of a datagram is taken over. -/
def pseudoSum (src dst : U32) (data : List U8) : Nat :=
  wordSum (bytes32 (htonl src)) + wordSum (bytes32 (htonl dst)) + 256 * ipprotoUdp.toNat +
    (htons (BitVec.ofNat 16 data.length)).toNat + wordSum data

variable (src dst : U32) (h : Header) (protocol : U8) (data : List U8) (length : U16)
  {front : List U8}

theorem wordSum_pseudoHeader :
    wordSum (pseudoHeader src dst ipprotoUdp (BitVec.ofNat 16 data.length)) + wordSum data =
      pseudoSum src dst data := by
  have last := wordSum_bytes16 (htons (BitVec.ofNat 16 data.length)) []
  rw [append_nil] at last
  rw [pseudoHeader, wordSum_bytes32, wordSum_bytes32, List.cons_append, List.cons_append,
    nil_append, wordSum, last, pseudoSum]
  simp [wordSum]
  omega

theorem inetChecksumPseudo_toNat {data : List U8} (short : data.length ≤ 1580) :
    (inetChecksumPseudo src dst ipprotoUdp data).toNat = 65535 - norm (pseudoSum src dst data) := by
  have header := wordSum_le (pseudoHeader src dst ipprotoUdp (BitVec.ofNat 16 data.length))
  have length : (pseudoHeader src dst ipprotoUdp (BitVec.ofNat 16 data.length)).length = 12 := rfl
  have body := wordSum_le data
  rw [inetChecksumPseudo, fold_toNat, sumWords_toNat, sumWords_toNat, ← wordSum_pseudoHeader]
  congr 2
  have start : (0 : U32).toNat = 0 := rfl
  omega

/-- All ones and zero are the same to the adder, once the sum is not zero. -/
theorem pseudo_eq_zero_iff {src dst : U32} {data : List U8} (short : data.length ≤ 1580) :
    inetChecksumPseudo src dst ipprotoUdp data = 0 ↔ pseudoSum src dst data % 65535 = 0 := by
  have positive : 256 * ipprotoUdp.toNat ≤ pseudoSum src dst data := by
    rw [pseudoSum]
    omega
  have protocol : ipprotoUdp.toNat = 17 := rfl
  rw [← toNat_inj, inetChecksumPseudo_toNat src dst short, norm_of_ne (by omega)]
  have zero : (0 : U16).toNat = 0 := rfl
  omega

/-! The header's checksum. -/

theorem wordSum_header :
    wordSum (h.bytes ++ data) =
      wordSum ({ h with checksum := 0 }.bytes ++ data) + h.checksum.toNat := by
  simp only [Header.bytes, List.append_assoc, wordSum_bytes16]
  simp
  omega

theorem pseudoSum_header :
    pseudoSum src dst (h.bytes ++ data) =
      pseudoSum src dst ({ h with checksum := 0 }.bytes ++ data) + h.checksum.toNat := by
  have length : (h.bytes ++ data).length = ({ h with checksum := 0 }.bytes ++ data).length := by rfl
  rw [pseudoSum, pseudoSum, wordSum_header, length]
  omega

theorem filledChecksum_ne_zero (bytes : List U8) : filledChecksum src dst bytes ≠ 0 := by
  rw [filledChecksum]
  split
  · decide
  · assumption

/-- With the filled in field the sum is a multiple of all ones. -/
theorem filled_sum {bytes : List U8} (short : bytes.length ≤ 1580) :
    (pseudoSum src dst bytes + (filledChecksum src dst bytes).toNat) % 65535 = 0 := by
  rw [filledChecksum]
  split
  · rename_i zero
    have sum := (pseudo_eq_zero_iff short).mp zero
    have ones : (0xFFFF : U16).toNat = 65535 := rfl
    omega
  · rw [inetChecksumPseudo_toNat src dst short]
    by_cases none : pseudoSum src dst bytes = 0
    · simp [none]
    rw [norm_of_ne none]
    omega

/-- Another source address changes the sum by its own words. -/
theorem pseudoSum_source (used dst : U32) (data : List U8) :
    pseudoSum src dst data + wordSum (bytes32 (htonl used)) =
      pseudoSum used dst data + wordSum (bytes32 (htonl src)) := by
  rw [pseudoSum, pseudoSum]
  omega

/-! The receiver's check. -/

theorem join_bytes16 (x : U16) :
    (x.setWidth 8).setWidth 16 ||| (((x >>> 8).setWidth 8).setWidth 16 <<< 8) = x := by
  apply eq_of_getLsbD_eq
  intro i inside
  interval_cases i <;> simp

theorem header_length : (h.bytes ++ data).length = udpHlen + data.length := by
  rw [length_append]
  rfl

/-- A datagram whose length field is right is let through on its sum alone. -/
theorem checksumHolds_iff {src dst : U32} {h : Header} {data : List U8}
    (length : h.length = htons (BitVec.ofNat 16 (udpHlen + data.length)))
    (carried : h.checksum ≠ 0) (short : udpHlen + data.length ≤ 1580) :
    checksumHolds src dst (h.bytes ++ data) ↔
      pseudoSum src dst (h.bytes ++ data) % 65535 = 0 := by
  have total := header_length h data
  have lengthField : field (h.bytes ++ data) 4 = h.length := join_bytes16 h.length
  have sumField : field (h.bytes ++ data) 6 = h.checksum := join_bytes16 h.checksum
  have value : (ntohs (field (h.bytes ++ data) 4)).toNat = udpHlen + data.length := by
    rw [lengthField, length, ntohs, htons_htons, toNat_ofNat]
    omega
  have all : (h.bytes ++ data).take (udpHlen + data.length) = h.bytes ++ data :=
    take_of_length_le total.le
  rw [checksumHolds]
  have present : (h.checksum != 0) := bne_iff_ne.mpr carried
  simp only [value, all, sumField, total, present]
  rw [← pseudo_eq_zero_iff (by omega)]
  simp

/-- The words of the address the packet is sent from add up to nothing, where
the checksum was computed without it: a broadcast sent from no address. -/
def SourceSettled (net : Net) (src dst : U32) : Prop :=
  src = 0 → dst = Ipv4.ipv4Broadcast → ∀ dev, net.broadcastDev = some dev →
    wordSum (bytes32 (htonl dev.ip)) % 65535 = 0

/-- The address in the header is the one the checksum is over, except for a
broadcast sent from no address. -/
theorem source_agrees {net : Net} {src dst : U32} {route : RouteResult}
    (way : net.wayOut dst = some route) (given : ¬ (src = 0 ∧ dst = Ipv4.ipv4Broadcast)) :
    (if summedSource net src dst = 0 then route.src else summedSource net src dst) =
      summedSource net src dst := by
  by_cases zero : src = 0
  · have unicast : dst ≠ Ipv4.ipv4Broadcast := fun all => given ⟨zero, all⟩
    rw [Net.wayOut, if_neg unicast] at way
    have found : summedSource net src dst = route.src := by
      rw [summedSource, if_pos ⟨zero, unicast⟩, way]
    rw [found, ite_self]
  · have kept : summedSource net src dst = src := by
      rw [summedSource, if_neg fun both => zero both.1]
    rw [kept, if_neg zero]

/-- Every packet of a datagram carries a piece of it; the checksum in the
datagram verifies against the addresses in the packet's header unless it is a
broadcast sent from no address, through an interface whose address adds
something to the sum. -/
theorem emitted_checksum_verifies_iff (net : Net) (env : Env) (src : U32) (sport : U16) (dst : U32)
    (dport : U16) (data : List U8) (ttl : U8) {p : Packet}
    (sent : p ∈ (udpSend net env src sport dst dport data ttl).1) :
    (∃ o, Piece o (datagram net src sport dst dport data) p) ∧
      (checksumHolds (ntohl p.header.src) (ntohl p.header.dst)
        (datagram net src sport dst dport data) = true ↔ SourceSettled net src dst) := by
  rw [udpSend] at sent
  split at sent
  · simp at sent
  rename_i fits
  split at sent
  · simp at sent
  simp only [packetDataMax, udpHlen, ipv4Hlen] at fits
  have short : udpHlen + data.length ≤ 1580 := by
    rw [udpHlen]
    omega
  have length : (datagram net src sport dst dport data).length = udpHlen + data.length :=
    header_length _ data
  obtain ⟨route, o, way, source, target, piece⟩ := ipv4Send_pieces
    (by rw [length, udpHlen]; omega) (by rw [length]; exact short) sent
  refine ⟨⟨o, piece⟩, ?_⟩
  generalize bytesEq : (unsummed sport dport data).bytes ++ data = bytes
  have sum := filled_sum (summedSource net src dst) dst
    (show bytes.length ≤ 1580 by rw [← bytesEq, header_length]; exact short)
  have holds : checksumHolds o.src dst (datagram net src sport dst dport data) = true ↔
      (pseudoSum o.src dst bytes +
        (filledChecksum (summedSource net src dst) dst bytes).toNat) % 65535 = 0 := by
    rw [datagram, checksumHolds_iff rfl (filledChecksum_ne_zero _ _ _) short, pseudoSum_header,
      ← bytesEq]
    rfl
  rw [piece.addresses.1, piece.addresses.2, target, holds, source]
  by_cases unset : src = 0 ∧ dst = Ipv4.ipv4Broadcast
  · obtain ⟨rfl, rfl⟩ := unset
    have none : summedSource net 0 Ipv4.ipv4Broadcast = 0 := if_neg fun both => both.2 rfl
    rw [Net.wayOut, if_pos rfl, Option.map_eq_some_iff] at way
    obtain ⟨dev, first, rfl⟩ := way
    have swap := pseudoSum_source 0 dev.ip Ipv4.ipv4Broadcast bytes
    have nothing : wordSum (bytes32 (htonl 0)) = 0 := rfl
    have settled : SourceSettled net 0 Ipv4.ipv4Broadcast ↔
        wordSum (bytes32 (htonl dev.ip)) % 65535 = 0 := by
      simp [SourceSettled, first]
    rw [settled]
    rw [none] at sum ⊢
    rw [if_pos rfl]
    dsimp only
    omega
  · have settled : SourceSettled net src dst := fun zero all => absurd ⟨zero, all⟩ unset
    rw [source_agrees way unset]
    exact iff_of_true sum settled

/-- One card at 10.0.2.15 with a route to its network. -/
def card : Netdev := ⟨0x0A00020F, 1500, true, true, Ipv4.ethernet_mtu⟩

def office : Net where
  devs := [card]
  loopbackDev := ⟨0x7F000001, 1500, false, true, Ipv4.ethernet_mtu⟩
  table := [⟨true, 0x0A000200, 0xFFFFFF00, 0, card, 0⟩]

def plenty : Env := ⟨true, fun _ => true, 1, fun _ _ _ => 0⟩

/-- A datagram to a neighbour, from no given address. -/
theorem emitted_checksum_verifies_unicast :
    ∃ p ∈ (udpSend office plenty 0 68 0x0A000202 67 [1] 0).1,
      checksumHolds (ntohl p.header.src) (ntohl p.header.dst)
        (datagram office 0 68 0x0A000202 67 [1]) = true :=
  ⟨_, mem_singleton_self _,
    (emitted_checksum_verifies_iff office plenty 0 68 0x0A000202 67 [1] 0
      (mem_singleton_self _)).2.mpr (fun _ all => absurd all (by decide))⟩

/-- The card sends a broadcast from 10.0.2.15 with a checksum over 0.0.0.0. -/
theorem broadcast_checksum_fails :
    ∃ p ∈ (udpSend office plenty 0 68 Ipv4.ipv4Broadcast 67 [1] 0).1,
      ntohl p.header.src = card.ip ∧
      checksumHolds (ntohl p.header.src) (ntohl p.header.dst)
        (datagram office 0 68 Ipv4.ipv4Broadcast 67 [1]) = false :=
  ⟨_, mem_singleton_self _, by decide, by decide⟩

/-! A checksum field at any even offset. -/

/-- Bytes with the 16-bit field `x` behind `front`. -/
def withField (front : List U8) (x : U16) (back : List U8) : List U8 :=
  front ++ (bytes16 x ++ back)

theorem length_withField (front : List U8) (x : U16) (back : List U8) :
    (withField front x back).length = front.length + 2 + back.length := by
  simp [withField, bytes16]
  omega

theorem wordSum_withField (even : front.length % 2 = 0) (x : U16) (back : List U8) :
    wordSum (withField front x back) = wordSum (withField front 0 back) + x.toNat := by
  simp only [withField, wordSum_append even, wordSum_bytes16]
  simp
  omega

/-- The words of 65535 bytes behind a pseudo header fit the 32-bit sum. -/
theorem sumWords_exact {sum : U32} (low : sum.toNat ≤ 6 * 65535) {data : List U8}
    (short : data.length ≤ 65535) : (sumWords sum data).toNat = sum.toNat + wordSum data := by
  have bound := wordSum_le data
  rw [sumWords_toNat]
  omega

theorem pseudoHeader_low : wordSum (pseudoHeader src dst protocol length) ≤ 6 * 65535 := by
  have bound := wordSum_le (pseudoHeader src dst protocol length)
  have short : (pseudoHeader src dst protocol length).length = 12 := rfl
  omega

theorem sumWords_pseudoHeader :
    (sumWords 0 (pseudoHeader src dst protocol length)).toNat =
      wordSum (pseudoHeader src dst protocol length) := by
  have short : (pseudoHeader src dst protocol length).length ≤ 65535 := by
    simp [pseudoHeader, bytes32, bytes16]
  rw [sumWords_exact zero_le short]
  simp

/-- The complement of the sum, put in the field, brings the sum to all ones. -/
theorem fold_filled {sum : U32} (low : sum.toNat ≤ 6 * 65535) {back : List U8}
    (even : front.length % 2 = 0) (short : front.length + 2 + back.length ≤ 65535) :
    fold (sumWords sum (withField front (fold (sumWords sum (withField front 0 back))) back)) =
      0 := by
  have fits (x : U16) : (withField front x back).length ≤ 65535 := by
    rw [length_withField]
    exact short
  apply eq_of_toNat_eq
  rw [fold_toNat, sumWords_exact low (fits _), wordSum_withField even, fold_toNat,
    sumWords_exact low (fits 0), ← add_assoc, norm_complement]
  rfl

/-- The 32-bit sums are the exact ones, so nothing is lost on the way, and a
checksum filled in where the bytes had a zero field verifies. -/
theorem filled_field_verifies :
    (∀ data : List U8, data.length ≤ 65535 →
      let header := pseudoHeader src dst protocol (BitVec.ofNat 16 data.length)
      (sumWords 0 data).toNat = wordSum data ∧
        (sumWords (sumWords 0 header) data).toNat = wordSum header + wordSum data) ∧
    ∀ front back : List U8, front.length % 2 = 0 → front.length + 2 + back.length ≤ 65535 →
      inetChecksum (withField front (inetChecksum (withField front 0 back)) back) = 0 ∧
        inetChecksumPseudo src dst protocol (withField front
          (inetChecksumPseudo src dst protocol (withField front 0 back)) back) = 0 := by
  constructor
  · intro data short header
    have start := sumWords_pseudoHeader src dst protocol (BitVec.ofNat 16 data.length)
    have low := pseudoHeader_low src dst protocol (BitVec.ofNat 16 data.length)
    constructor
    · rw [sumWords_exact zero_le short]
      simp
    · rw [sumWords_exact (by rw [start]; exact low) short, start]
  · intro front back even short
    constructor
    · exact fold_filled zero_le even short
    · have low (length : U16) := pseudoHeader_low src dst protocol length
      simp only [inetChecksumPseudo, length_withField]
      exact fold_filled (by rw [sumWords_pseudoHeader]; exact low _) even short

/-- An odd number of bytes behind the field. -/
theorem filled_field_verifies_odd :
    inetChecksumPseudo 1 2 17 (withField [8, 0]
      (inetChecksumPseudo 1 2 17 (withField [8, 0] 0 [255])) [255]) = 0 :=
  ((filled_field_verifies 1 2 17).2 [8, 0] [255] rfl (by decide)).2

end UzOS.Udp
