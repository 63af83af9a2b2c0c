import UzOS.Ipv4.Provenance

/-! Cutting a datagram into fragments (fragment in core/ipv4/ipv4.c), and what
the pieces have in common in any order. -/
namespace UzOS.Ipv4

open BitVec List

def netEnobufs : Int := 105

/-- What the header of every fragment of a datagram is filled in from. -/
structure Origin where
  id : U16
  ttl : U8
  protocol : U8
  src : U32
  dst : U32

/-- The data of a piece: MTU minus header, rounded down to 8 bytes. -/
def pieceSize (mtu : U16) : Nat := ((mtu - 20#16) &&& ~~~7#16).toNat

def Origin.header (o : Origin) (total frag : U16) : Header :=
  fillHeader total o.id frag o.ttl o.protocol o.src o.dst

/-- The fragment of `len` bytes from `offset` on. -/
def Origin.fragment (o : Origin) (payload : List U8) (offset len : Nat) : Packet where
  header := o.header (BitVec.ofNat 16 (ipv4Hlen + len))
    ((if offset + len ≥ payload.length then 0 else ipv4FlagMf) ||| BitVec.ofNat 16 (offset / 8))
  options := []
  payload := (payload.drop offset).take len
  whole := by
    simp only [Origin.header, fillHeader, Header.sealed, Header.hlen]
    rfl

/-- The loop of fragment(), with the packets it hands to output() and its
result; `none` if it has not ended after the given rounds. `alloc` says whether
packet_alloc finds a buffer for the piece at an offset. -/
def fragmentLoop (alloc : Nat → Bool) (output : Packet → Int) (o : Origin) (payload : List U8)
    (size : Nat) : Nat → Nat → Option (List Packet × Int)
  | 0, _ => none
  | rounds + 1, offset =>
    if payload.length ≤ offset then some ([], 0)
    else if !alloc offset then some ([], -netEnobufs)
    else
      let len := if payload.length - offset < size then payload.length - offset else size
      let f := o.fragment payload offset len
      if output f ≠ 0 then some ([f], output f)
      else match fragmentLoop alloc output o payload size rounds ((offset + size) % 2 ^ 16) with
        | none => none
        | some (rest, result) => some (f :: rest, result)

/-- fragment(); a loop that ends does so within one round a byte. -/
def fragment (alloc : Nat → Bool) (output : Packet → Int) (mtu : U16) (o : Origin)
    (payload : List U8) : Option (List Packet × Int) :=
  fragmentLoop alloc output o payload (pieceSize mtu) (payload.length + 1) 0

/-! The fields of a piece. -/

theorem htons_htons (x : U16) : htons (htons x) = x := by
  apply eq_of_getLsbD_eq
  intro i inside
  have far : x.getLsbD (8 + (8 + i)) = false := getLsbD_of_ge _ _ (by omega)
  simp only [htons, getLsbD_or, getLsbD_shiftLeft, getLsbD_ushiftRight, far]
  by_cases low : i < 8
  · have high : 8 + i < 16 := by omega
    simp [low, high]
  have back : 8 + (i - 8) = i := by omega
  have small : i - 8 < 8 := by omega
  simp [low, inside, back, small]

theorem pieceSize_eq {mtu : U16} (low : 20 ≤ mtu.toNat) :
    pieceSize mtu = (mtu.toNat - 20) / 8 * 8 := by
  rw [pieceSize, show ~~~7#16 = BitVec.allOnes 16 <<< 3 by decide, toNat_and_allOnes_shiftLeft,
    toNat_sub, toNat_ofNat]
  omega

theorem ofNat_bit_high {blocks i : Nat} (small : blocks < 2 ^ 13) (high : 13 ≤ i) :
    (BitVec.ofNat 16 blocks).getLsbD i = false := by
  rw [getLsbD_ofNat, Nat.testBit_lt_two_pow]
  · simp
  · exact lt_of_lt_of_le small (Nat.pow_le_pow_right (by decide) high)

/-- The offset field is not disturbed by the MF flag. -/
theorem frag_offset (last : Bool) {blocks : Nat} (small : blocks < 2 ^ 13) :
    (((if last then 0 else ipv4FlagMf) ||| BitVec.ofNat 16 blocks) &&& ipv4OffsetMask).toNat =
      blocks := by
  have same : ((if last then 0 else ipv4FlagMf) ||| BitVec.ofNat 16 blocks) &&& ipv4OffsetMask =
      BitVec.ofNat 16 blocks := by
    apply eq_of_getLsbD_eq
    intro i inside
    rw [show ipv4FlagMf = BitVec.twoPow 16 13 by decide,
      show ipv4OffsetMask = BitVec.ofNat 16 (2 ^ 13 - 1) by decide]
    simp only [getLsbD_and, getLsbD_or, getLsbD_ofNat _ (2 ^ 13 - 1), Nat.testBit_two_pow_sub_one]
    by_cases high : 13 ≤ i
    · simp [ofNat_bit_high small high, not_lt.mpr high]
    have bit : (if last then 0 else BitVec.twoPow 16 13 : U16).getLsbD i = false := by
      cases last with
      | true => simp
      | false =>
        simp
        omega
    rw [bit]
    simp [inside, Nat.lt_of_not_le high]
  rw [same, toNat_ofNat]
  omega

/-- The MF flag is not disturbed by the offset field. -/
theorem frag_more (last : Bool) {blocks : Nat} (small : blocks < 2 ^ 13) :
    (((if last then 0 else ipv4FlagMf) ||| BitVec.ofNat 16 blocks) &&& ipv4FlagMf != 0) = !last := by
  have same : ((if last then 0 else ipv4FlagMf) ||| BitVec.ofNat 16 blocks) &&& ipv4FlagMf =
      if last then 0 else ipv4FlagMf := by
    apply eq_of_getLsbD_eq
    intro i inside
    rw [show ipv4FlagMf = BitVec.twoPow 16 13 by decide]
    simp only [getLsbD_and, getLsbD_or]
    by_cases flag : i = 13
    · subst flag
      have clear := ofNat_bit_high (i := 13) small (le_refl _)
      rw [clear]
      cases last <;> simp
    · cases last <;> simp [getLsbD_twoPow] <;> omega
  rw [same]
  cases last <;> decide

/-! The pieces. -/

section
variable (o : Origin) (payload : List U8) {offset : Nat} (len : Nat)

theorem fragment_frag (offset : Nat) :
    (o.fragment payload offset len).frag =
      (if offset + len ≥ payload.length then 0 else ipv4FlagMf) ||| BitVec.ofNat 16 (offset / 8) := by
  simp only [Packet.frag, ntohs, Origin.fragment, Origin.header, fillHeader, Header.sealed,
    htons_htons]

theorem fragment_offset (aligned : offset % 8 = 0) (small : offset < 2 ^ 16) :
    (o.fragment payload offset len).offset = offset := by
  have field := frag_offset (decide (offset + len ≥ payload.length))
    (show offset / 8 < 2 ^ 13 by omega)
  simp only [decide_eq_true_eq] at field
  rw [Packet.offset, fragment_frag]
  omega

theorem fragment_more (small : offset < 2 ^ 16) :
    (o.fragment payload offset len).more = decide (offset + len < payload.length) := by
  have field := frag_more (decide (offset + len ≥ payload.length))
    (show offset / 8 < 2 ^ 13 by omega)
  simp only [decide_eq_true_eq] at field
  rw [Packet.more, fragment_frag, field]
  by_cases last : offset + len ≥ payload.length
  · simp [last]
  · simp [last, Nat.lt_of_not_le last]

theorem fragment_length {len : Nat} (inside : offset + len ≤ payload.length) :
    (o.fragment payload offset len).payload.length = len := by
  simp only [Origin.fragment, length_take, length_drop]
  omega

end

/-- A fragment that fits into the datagram. -/
structure Piece (o : Origin) (payload : List U8) (p : Packet) : Prop where
  header : ∃ total frag, p.header = o.header total frag
  bytes : ∀ k, k < p.payload.length → p.payload[k]? = payload[p.offset + k]?
  positive : 0 < p.payload.length
  inside : p.finish ≤ payload.length
  more : p.more = decide (p.finish < payload.length)
  aligned : p.more = true → p.payload.length % 8 = 0

theorem fragment_piece (o : Origin) {payload : List U8} {offset len : Nat}
    (aligned : offset % 8 = 0) (small : offset < 2 ^ 16) (positive : 0 < len)
    (inside : offset + len ≤ payload.length)
    (blocks : offset + len < payload.length → len % 8 = 0) :
    Piece o payload (o.fragment payload offset len) := by
  have place : (o.fragment payload offset len).offset = offset :=
    fragment_offset o payload len aligned small
  have length : (o.fragment payload offset len).payload.length = len :=
    fragment_length o payload inside
  have finish : (o.fragment payload offset len).finish = offset + len := by
    rw [Packet.finish, place, length]
  have more := fragment_more o payload len small
  constructor
  · exact ⟨_, _, rfl⟩
  · intro k here
    rw [length] at here
    rw [place]
    simp [Origin.fragment, here]
  · rwa [length]
  · rwa [finish]
  · rw [more, finish]
  · rw [more, length]
    simpa using blocks

/-- The pieces of a datagram from `start` on, in any order. -/
structure Pieces (o : Origin) (payload : List U8) (start : Nat) (ps : List Packet) : Prop where
  each : ∀ p ∈ ps, Piece o payload p
  later : ∀ p ∈ ps, start ≤ p.offset
  apart : ps.Pairwise Apart
  cover : ∀ b, start / 8 ≤ b → b < (payload.length + 7) / 8 → ∃ p ∈ ps, p.covers b = true

/-- One piece in front of the later ones. -/
theorem Pieces.cons {o : Origin} {payload : List U8} {start size : Nat} {p : Packet}
    {rest : List Packet} (piece : Piece o payload p) (place : p.offset = start)
    (blocks : size % 8 = 0) (short : p.payload.length ≤ size)
    (full : p.finish < payload.length → p.payload.length = size)
    (pieces : Pieces o payload (start + size) rest) : Pieces o payload start (p :: rest) := by
  have aligned := offset_aligned p
  have finish : p.finish = start + p.payload.length := by rw [Packet.finish, place]
  constructor
  · intro g member
    obtain rfl | old := mem_cons.mp member
    · exact piece
    · exact pieces.each g old
  · intro g member
    obtain rfl | old := mem_cons.mp member
    · omega
    · exact le_trans (Nat.le_add_right _ _) (pieces.later g old)
  · refine pairwise_cons.mpr ⟨fun g member b covered => ?_, pieces.apart⟩
    have beyond := pieces.later g member
    rw [covers_iff] at covered
    by_contra both
    rw [Bool.not_eq_false, covers_iff] at both
    omega
  · intro b low high
    by_cases here : b < (p.finish + 7) / 8
    · exact ⟨p, mem_cons_self, by rw [covers_iff]; omega⟩
    obtain ⟨g, member, covered⟩ := pieces.cover b (by omega) high
    exact ⟨g, mem_cons_of_mem _ member, covered⟩

section Loop

variable (alloc : Nat → Bool) (output : Packet → Int) (o : Origin) {payload : List U8} {size : Nat}

theorem fragmentLoop_round (rounds : Nat) {offset : Nat} (more : offset < payload.length)
    (room : alloc offset) :
    fragmentLoop alloc output o payload size (rounds + 1) offset =
      let piece := o.fragment payload offset (min size (payload.length - offset))
      if output piece ≠ 0 then some ([piece], output piece)
      else (fragmentLoop alloc output o payload size rounds ((offset + size) % 2 ^ 16)).map
        fun rest => (piece :: rest.1, rest.2) := by
  have len : (if payload.length - offset < size then payload.length - offset else size) =
      min size (payload.length - offset) := by
    split <;> omega
  rw [fragmentLoop, if_neg (by omega)]
  simp only [room, Bool.not_true, Bool.false_eq_true, if_false, len]
  split
  · rfl
  · cases fragmentLoop alloc output o payload size rounds ((offset + size) % 2 ^ 16) <;> rfl

/-- With buffers and a willing link the loop ends and cuts the whole datagram. -/
theorem fragmentLoop_pieces (positive : 0 < size) (blocks : size % 8 = 0)
    (noWrap : payload.length + size ≤ 2 ^ 16) (rounds : Nat) {offset : Nat}
    (aligned : offset % 8 = 0) (enough : payload.length - offset < rounds) :
    ∃ ps, fragmentLoop (fun _ => true) (fun _ => 0) o payload size rounds offset = some (ps, 0) ∧
      Pieces o payload offset ps ∧ ps.flatMap Packet.payload = payload.drop offset ∧
      ∀ p ∈ ps, ∃ place, place % 8 = 0 ∧ place < payload.length ∧
        p = o.fragment payload place (min size (payload.length - place)) := by
  induction rounds generalizing offset with
  | zero => omega
  | succ rounds ih =>
    by_cases done : payload.length ≤ offset
    · refine ⟨[], by simp [fragmentLoop, done], ⟨by simp, by simp, .nil, ?_⟩, by simp [done],
        by simp⟩
      intro b low high
      omega
    have more : offset < payload.length := by omega
    obtain ⟨rest, result, pieces, bytes, each⟩ := @ih (offset + size) (by omega) (by omega)
    have next : (offset + size) % 2 ^ 16 = offset + size := Nat.mod_eq_of_lt (by omega)
    have length := fragment_length o payload
      (show offset + min size (payload.length - offset) ≤ payload.length by omega)
    have place := fragment_offset o payload (min size (payload.length - offset)) aligned (by omega)
    refine ⟨o.fragment payload offset (min size (payload.length - offset)) :: rest, ?_, ?_, ?_, ?_⟩
    · rw [fragmentLoop_round _ _ o rounds more rfl, next, result]
      rfl
    · have piece : Piece o payload
          (o.fragment payload offset (min size (payload.length - offset))) :=
        fragment_piece o aligned (by omega) (by omega) (by omega) (by omega)
      apply Pieces.cons piece place blocks (by omega) _ pieces
      intro more
      rw [Packet.finish, place] at more
      omega
    · rw [flatMap_cons, bytes, ← drop_drop]
      simp only [Origin.fragment]
      rw [← length_drop, ← take_eq_take_min, take_append_drop]
    · intro p member
      rcases mem_cons.mp member with rfl | later
      · exact ⟨offset, aligned, more, rfl⟩
      · exact each p later

/-- Whatever the buffers and the link say, the loop hands out the first of these pieces;
with buffers and a link for all of them it hands out all. -/
theorem fragmentLoop_handed (rounds : Nat) {offset : Nat} {ps : List Packet}
    (free : fragmentLoop (fun _ => true) (fun _ => 0) o payload size rounds offset = some (ps, 0)) :
    ∃ out, fragmentLoop alloc output o payload size rounds offset = some out ∧ out.1 <+: ps ∧
      ((∀ offset, alloc offset) → (∀ p ∈ ps, output p = 0) → out = (ps, 0)) := by
  induction rounds generalizing offset ps with
  | zero => cases free
  | succ rounds ih =>
    by_cases done : payload.length ≤ offset
    · rw [fragmentLoop, if_pos done] at free ⊢
      obtain rfl : [] = ps := congrArg Prod.fst (Option.some.inj free)
      exact ⟨_, rfl, prefix_rfl, fun _ _ => rfl⟩
    have more : offset < payload.length := by omega
    rw [fragmentLoop_round _ _ o rounds more rfl] at free
    obtain ⟨⟨rest, result⟩, loop, same⟩ := Option.map_eq_some_iff.mp free
    obtain ⟨rfl, rfl⟩ := Prod.mk.inj same
    obtain ⟨out, handed, first, all⟩ := ih loop
    cases room : alloc offset with
    | false =>
      refine ⟨([], -netEnobufs), by simp [fragmentLoop, done, room], nil_prefix, ?_⟩
      intro rooms
      cases room.symm.trans (rooms offset)
    | true =>
      rw [fragmentLoop_round alloc output o rounds more room, handed]
      dsimp only
      split
      · next refused =>
        refine ⟨_, rfl, by simp, fun _ passes => ?_⟩
        exact absurd (passes _ mem_cons_self) refused
      · refine ⟨_, rfl, by simpa using first, fun rooms passes => ?_⟩
        rw [all rooms fun p member => passes p (mem_cons_of_mem _ member)]

end Loop

/-- fragment() on a datagram that is too long for the link. -/
theorem fragment_pieces (o : Origin) {mtu : U16} {payload : List U8} (low : 68 ≤ mtu.toNat)
    (high : mtu.toNat ≤ 1500) (fits : payload.length ≤ 1728) :
    ∃ ps, fragment (fun _ => true) (fun _ => 0) mtu o payload = some (ps, 0) ∧
      Pieces o payload 0 ps ∧ ps.flatMap Packet.payload = payload ∧
      (∀ p ∈ ps, ∃ place, place % 8 = 0 ∧ place < payload.length ∧
        p = o.fragment payload place (min (pieceSize mtu) (payload.length - place))) ∧
      ∀ alloc output, ∃ out, fragment alloc output mtu o payload = some out ∧ out.1 <+: ps ∧
        ((∀ offset, alloc offset) → (∀ p ∈ ps, output p = 0) → out = (ps, 0)) := by
  have size := pieceSize_eq (show 20 ≤ mtu.toNat by omega)
  obtain ⟨ps, loop, pieces, bytes, each⟩ := @fragmentLoop_pieces o payload (pieceSize mtu)
    (by omega) (by omega) (by omega) (payload.length + 1) 0 rfl (by omega)
  exact ⟨ps, loop, pieces, bytes, each,
    fun alloc output => fragmentLoop_handed alloc output o _ loop⟩

end UzOS.Ipv4
