import UzOS.Ipv4.Fragment

/-! Fragmenting and reassembling give back the datagram, in any order and among
any other traffic. -/
namespace UzOS.Ipv4

open Function List

/-- A fragment as it comes in. -/
structure Arrival where
  packet : Packet
  now : U32
  alloc : Bool

def Arrival.reassemble (a : Arrival) (slots : Slots) : Option Packet × Slots :=
  ipv4Reassemble a.alloc a.now slots a.packet

/-- What ipv4_reassemble returns for each arrival. -/
def outcomes (slots : Slots) : List Arrival → List (Arrival × Option Packet)
  | [] => []
  | a :: rest => (a, (a.reassemble slots).1) :: outcomes (a.reassemble slots).2 rest

/-- What the fragments of a datagram from this origin share. -/
def Origin.key (o : Origin) : U32 × U32 × U16 × U8 :=
  (htonl o.src, htonl o.dst, htons o.id, o.protocol)

def Origin.owns (o : Origin) (a : Arrival) : Bool := a.packet.header.key == o.key

/-- There is a slot for the datagram when its first fragment arrives. -/
def available (o : Origin) (slots : Slots) : List Arrival → Bool
  | [] => true
  | a :: rest =>
    if o.owns a then (findOrNew slots a.packet.header a.now).isSome
    else available o (a.reassemble slots).2 rest

/-- The datagram as it should come out. -/
structure Whole (o : Origin) (data : List U8) (whole : Packet) : Prop where
  payload : whole.payload = data
  src : whole.header.src = htonl o.src
  dst : whole.header.dst = htonl o.dst
  id : whole.header.id = htons o.id
  protocol : whole.header.protocol = o.protocol
  plain : whole.options = []
  frag : whole.header.frag = 0
  totalLength : ntohs whole.header.totalLength = BitVec.ofNat 16 (ipv4Hlen + data.length)
  checksum : inetChecksum whole.header.bytes = 0

section
variable {o : Origin} {payload : List U8} {ps log todo : List Packet} {r : Reasm} {p : Packet}

/-- No piece overlaps the others. -/
theorem Pieces.accepted (pieces : Pieces o payload 0 ps) (fits : payload.length ≤ ipv4ReasmMax)
    (order : (log ++ p :: todo).Perm ps) (tracks : Tracks r log) : r.refuses p = false := by
  have piece := pieces.each p (order.subset (by simp))
  have apart : ∀ g ∈ log, Apart g p := by
    intro g member
    have all := order.symm.pairwise pieces.apart (Std.Symm.symm _ _)
    exact (pairwise_append.mp all).2.2 g member p mem_cons_self
  have clear : defFragNoOverlap r.filled (p.offset / 8) ((p.offset + p.payload.length - 1) / 8) =
      true := by
    rw [noOverlap_iff]
    intro b low high
    by_contra filled
    rw [Bool.not_eq_false] at filled
    obtain ⟨g, member, covered⟩ := (tracks.blocks b).mp filled
    have positive := piece.positive
    have both : p.covers b := by
      rw [covers_iff, Packet.finish]
      omega
    cases both.symm.trans (apart g member b covered)
  have inside := piece.inside
  simp only [Packet.finish] at inside
  have aligned := piece.aligned
  simp only [Reasm.refuses, Bool.or_eq_false_iff, Bool.and_eq_false_iff, Bool.not_eq_false',
    bne_eq_false_iff_eq, defReasmFits, Bool.and_eq_true, decide_eq_true_eq, clear]
  refine ⟨⟨?_, by omega⟩, .inr trivial⟩
  by_cases more : p.more
  · exact .inr (aligned more)
  · exact .inl (by simpa using more)

theorem foldl_announced {length : Nat} (last : ∀ g ∈ log, g.more = false → g.finish = length)
    (start : Nat) :
    log.foldl (fun total g => if g.more then total else g.finish) start =
      if log.all (·.more) then start else length := by
  induction log generalizing start with
  | nil => rfl
  | cons g rest ih =>
    rw [foldl_cons, ih fun g' member => last g' (mem_cons_of_mem _ member)]
    by_cases more : g.more
    · simp [more]
    rw [Bool.not_eq_true] at more
    simp [more, last g mem_cons_self more]

theorem Piece.last (piece : Piece o payload p) (final : p.more = false) :
    p.finish = payload.length := by
  have more := piece.more
  have inside := piece.inside
  rw [final, eq_comm, decide_eq_false_iff_not] at more
  omega

variable (pieces : Pieces o payload 0 ps)
include pieces

/-- The piece that covers the last block is the last piece. -/
theorem Pieces.exists_last (some_bytes : 0 < payload.length) : ∃ g ∈ ps, g.more = false := by
  obtain ⟨g, member, covered⟩ := pieces.cover ((payload.length + 7) / 8 - 1) (by omega) (by omega)
  refine ⟨g, member, ?_⟩
  have piece := pieces.each g member
  rw [covers_iff] at covered
  by_contra notLast
  have more : g.more := by simpa using notLast
  have blocks := piece.aligned more
  have offset := offset_aligned g
  rw [piece.more, decide_eq_true_eq] at more
  simp only [Packet.finish] at covered more
  omega

/-- The slot is complete exactly when no piece is missing. -/
theorem Pieces.complete_iff (some_bytes : 0 < payload.length)
    (order : (log ++ todo).Perm ps) (tracks : Tracks r log) : complete r ↔ todo = [] := by
  have each : ∀ g ∈ log, Piece o payload g :=
    fun g member => pieces.each g (order.subset (mem_append_left _ member))
  have total : r.total = if log.all (·.more) then 0 else payload.length :=
    tracks.total.trans (foldl_announced (fun g member => (each g member).last) 0)
  rw [Ipv4.complete_iff]
  constructor
  · rintro ⟨announced, filled⟩
    by_contra missing
    obtain ⟨p, rest, rfl⟩ := exists_cons_of_ne_nil missing
    have piece := pieces.each p (order.subset (by simp))
    have positive := piece.positive
    have inside := piece.inside
    have length : r.total = payload.length := by
      rw [total] at announced ⊢
      split at announced
      · exact absurd rfl announced
      rename_i notAll
      rw [if_neg notAll]
    simp only [Packet.finish] at inside
    have covered : p.covers (p.offset / 8) := by
      rw [covers_iff, Packet.finish]
      omega
    obtain ⟨g, member, both⟩ := (tracks.blocks _).mp (filled (p.offset / 8) (by omega))
    have all := order.symm.pairwise pieces.apart (Std.Symm.symm _ _)
    have apart := (pairwise_append.mp all).2.2 g member p mem_cons_self
    cases covered.symm.trans (apart _ both)
  · rintro rfl
    rw [append_nil] at order
    obtain ⟨last, member, final⟩ := pieces.exists_last some_bytes
    have notAll : ¬ log.all (·.more) := by
      intro all
      cases final.symm.trans (all_eq_true.mp all last (order.symm.subset member))
    rw [if_neg notAll] at total
    refine ⟨by omega, fun b inside => (tracks.blocks b).mpr ?_⟩
    rw [total] at inside
    obtain ⟨g, listed, covered⟩ := pieces.cover b (by omega) inside
    exact ⟨g, order.symm.subset listed, covered⟩

/-- A slot with all pieces gives the datagram back. -/
theorem Pieces.whole (some_bytes : 0 < payload.length)
    (order : log.Perm ps) (tracks : Tracks r log) (key : r.key = o.key) :
    Whole o payload r.wholePacket := by
  have each : ∀ g ∈ log, Piece o payload g := fun g member => pieces.each g (order.subset member)
  have everything : (log ++ []).Perm ps := by simpa using order
  have done : complete r := (pieces.complete_iff some_bytes everything tracks).mpr rfl
  have total : r.total = payload.length := by
    have value := tracks.total.trans (foldl_announced (fun g member => (each g member).last) 0)
    have announced := ((Ipv4.complete_iff r).mp done).1
    split at value
    · exact absurd value announced
    · exact value
  have clean : raggedFree log := by
    rw [raggedFree_iff]
    intro g member last _
    rw [(each g member).last last, ← tracks.total, total]
  have same : r.header.key = o.key := tracks.header.trans key
  simp only [Header.key, Origin.key, Prod.mk.injEq] at same
  obtain ⟨src, dst, id, protocol⟩ := same
  refine ⟨?_, src, dst, id, protocol, rfl, rfl, ?_, sealed_checksum _⟩
  · have length : r.wholePacket.payload.length = r.total := by simp [Reasm.wholePacket]
    apply ext_getElem?
    intro i
    by_cases inside : i < payload.length
    · obtain ⟨g, member, _, low, value⟩ := tracks.carried done clean (total ▸ inside)
      have here := (each g member).bytes (i - g.offset) (List.getElem?_eq_some_iff.mp value).1
      rw [value, show g.offset + (i - g.offset) = i by omega] at here
      rw [← here]
      simp [Reasm.wholePacket, Buffer.slice_getElem? _ _ _ _ (show i < r.total by omega)]
    · rw [List.getElem?_eq_none (by rw [length]; omega), List.getElem?_eq_none (by omega)]
  · simp only [Reasm.wholePacket, Reasm.wholeHeader, Header.sealed, ntohs, htons_htons, total]

end

/-! Runs. -/

/-- No slot is in use for the datagram. -/
def Absent (o : Origin) (slots : Slots) : Prop :=
  ∀ j, (slots j).used = true → (slots j).key ≠ o.key

/-- Slot `i`, and no other, holds the pieces in `log`. -/
structure Holding (o : Origin) (slots : Slots) (log : List Packet) (i : Slot) : Prop where
  used : (slots i).used = true
  key : (slots i).key = o.key
  tracks : Tracks (slots i) log
  only : ∀ j, j ≠ i → (slots j).used = true → (slots j).key ≠ o.key

/-- The pieces in `log` have arrived. -/
def Pending (o : Origin) (slots : Slots) (log : List Packet) : Prop :=
  (log = [] ∧ Absent o slots) ∨ ∃ i, Holding o slots log i

section
variable {o : Origin} {payload : List U8} {ps log todo : List Packet} {slots : Slots}
  {a : Arrival}

/-- A piece finds its slot. -/
theorem Pending.found (pending : Pending o slots log) (own : a.packet.header.key = o.key)
    (room : log = [] → (findOrNew slots a.packet.header a.now).isSome) :
    ∃ i found, findOrNew slots a.packet.header a.now = some (i, found) ∧ Holding o found log i := by
  obtain ⟨rfl, absent⟩ | ⟨i, holding⟩ := pending
  · obtain ⟨⟨i, found⟩, hit⟩ := Option.isSome_iff_exists.mp (room rfl)
    refine ⟨i, found, hit, ?_⟩
    obtain ⟨holds, _⟩ | ⟨_, _, rfl⟩ := findOrNew_spec hit
    · obtain ⟨used, key⟩ := (holds_iff _ _).mp holds
      exact absurd (key.trans own) (absent i used)
    constructor
    · simp [Reasm.opened]
    · rw [update_self]
      exact own
    · simpa using opened_tracks _ _ _
    · intro j other used
      rw [update_of_ne other] at used ⊢
      exact absent j used
  · have holds : (slots i).holds a.packet.header :=
      (holds_iff _ _).mpr ⟨holding.used, holding.key.trans own.symm⟩
    cases hit : findHolding slots a.packet.header with
    | none => simp [List.find?_eq_none.mp hit i (mem_finRange i)] at holds
    | some j =>
      have held := (holds_iff _ _).mp (by simpa using List.find?_some hit)
      have same : j = i := by
        by_contra other
        exact holding.only j other held.1 (held.2.trans own)
      subst same
      exact ⟨j, slots, by simp [findOrNew, hit], holding⟩

/-- A fragment of another datagram changes nothing for this one. -/
theorem Pending.other (pending : Pending o slots log) (foreign : a.packet.header.key ≠ o.key) :
    Pending o (a.reassemble slots).2 log := by
  cases hit : findOrNew slots a.packet.header a.now with
  | none => simpa only [Arrival.reassemble, ipv4Reassemble, hit] using pending
  | some result =>
    obtain ⟨i, found⟩ := result
    obtain ⟨r, after, taken, _⟩ := reassemble_cases a.alloc hit
    have key : (found i).key = a.packet.header.key := by
      obtain ⟨holds, rfl⟩ | ⟨_, _, rfl⟩ := findOrNew_spec hit
      · exact ((holds_iff _ _).mp holds).2
      · simp [Reasm.opened, Reasm.key, Header.key]
    have others : ∀ j, j ≠ i → found j = slots j := by
      intro j other
      obtain ⟨_, rfl⟩ | ⟨_, _, rfl⟩ := findOrNew_spec hit
      · rfl
      · exact update_of_ne other _ _
    have here : r.used → r.key ≠ o.key := by
      intro used
      rw [(taken used).2]
      exact fun same => foreign (key.symm.trans same)
    have elsewhere : ∀ j, j ≠ i → (a.reassemble slots).2 j = slots j := by
      intro j other
      rw [Arrival.reassemble, after, update_of_ne other, others j other]
    have there : (a.reassemble slots).2 i = r := by rw [Arrival.reassemble, after, update_self]
    obtain ⟨rfl, absent⟩ | ⟨k, holding⟩ := pending
    · refine .inl ⟨rfl, fun j used => ?_⟩
      by_cases same : j = i
      · subst same
        rw [there] at used ⊢
        exact here used
      rw [elsewhere j same] at used ⊢
      exact absent j used
    · have apart : k ≠ i := by
        rintro rfl
        obtain ⟨holds, rfl⟩ | ⟨_, unused, _⟩ := findOrNew_spec hit
        · exact foreign (key.symm.trans holding.key)
        · cases holding.used.symm.trans unused
      refine .inr ⟨k, ?_⟩
      constructor
      · rw [elsewhere k apart]
        exact holding.used
      · rw [elsewhere k apart]
        exact holding.key
      · rw [elsewhere k apart]
        exact holding.tracks
      · intro j other used
        by_cases same : j = i
        · subst same
          rw [there] at used ⊢
          exact here used
        rw [elsewhere j same] at used ⊢
        exact holding.only j other used

/-- A piece that is not the last one missing is kept, and nothing comes out. -/
theorem Pieces.keep (pieces : Pieces o payload 0 ps) (bounds : 0 < payload.length ∧
    payload.length ≤ ipv4ReasmMax) (order : (log ++ a.packet :: todo).Perm ps)
    (missing : todo ≠ []) (pending : Pending o slots log) (own : a.packet.header.key = o.key)
    (room : log = [] → (findOrNew slots a.packet.header a.now).isSome) :
    (a.reassemble slots).1 = none ∧ Pending o (a.reassemble slots).2 (log ++ [a.packet]) := by
  obtain ⟨i, found, hit, holding⟩ := pending.found own room
  have accepted := pieces.accepted bounds.2 order holding.tracks
  have tracks := take_tracks holding.tracks (own.trans holding.key.symm) accepted
  have notYet : complete ((found i).take a.packet) = false := by
    rw [← Bool.not_eq_true, pieces.complete_iff bounds.1 (by simpa using order) tracks]
    exact missing
  simp only [Arrival.reassemble, ipv4Reassemble, hit, accepted, notYet]
  refine ⟨rfl, .inr ⟨i, ?_⟩⟩
  constructor
  · simpa [Reasm.take] using holding.used
  · simpa [Reasm.take, Reasm.key] using holding.key
  · simpa using tracks
  · intro j other used
    simp only [Bool.false_eq_true, if_false, Bool.not_false, if_true, update_of_ne other] at used ⊢
    exact holding.only j other used

/-- With the last missing piece the datagram comes out. -/
theorem Pieces.finishes (pieces : Pieces o payload 0 ps) (bounds : 0 < payload.length ∧
    payload.length ≤ ipv4ReasmMax) (order : (log ++ [a.packet]).Perm ps)
    (pending : Pending o slots log) (own : a.packet.header.key = o.key) (alloc : a.alloc)
    (room : log = [] → (findOrNew slots a.packet.header a.now).isSome) :
    ∃ whole, (a.reassemble slots).1 = some whole ∧ Whole o payload whole := by
  obtain ⟨i, found, hit, holding⟩ := pending.found own room
  have accepted := pieces.accepted bounds.2 order holding.tracks
  have tracks := take_tracks holding.tracks (own.trans holding.key.symm) accepted
  have done : complete ((found i).take a.packet) :=
    (pieces.complete_iff bounds.1 (by simpa using order) tracks).mpr rfl
  refine ⟨_, ?_, pieces.whole bounds.1 order tracks holding.key⟩
  simp [Arrival.reassemble, ipv4Reassemble, hit, accepted, done, alloc]

end

/-- What comes out when the fragments of this datagram arrive. -/
def delivered (o : Origin) (slots : Slots) (traffic : List Arrival) : List (Option Packet) :=
  ((outcomes slots traffic).filter fun r => o.owns r.1).map (·.2)

variable {traffic : List Arrival} {o : Origin}

theorem delivered_own {a : Arrival} (own : o.owns a) (slots : Slots) (rest : List Arrival) :
    delivered o slots (a :: rest) =
      (a.reassemble slots).1 :: delivered o (a.reassemble slots).2 rest := by
  simp [delivered, outcomes, own]

theorem delivered_other {a : Arrival} (foreign : o.owns a = false) (slots : Slots)
    (rest : List Arrival) :
    delivered o slots (a :: rest) = delivered o (a.reassemble slots).2 rest := by
  simp [delivered, outcomes, foreign]

theorem delivered_none (none : traffic.filter o.owns = []) (slots : Slots) :
    delivered o slots traffic = [] := by
  induction traffic generalizing slots with
  | nil => rfl
  | cons a rest ih =>
    obtain ⟨foreign, others⟩ := forall_mem_cons.mp (filter_eq_nil_iff.mp none)
    rw [Bool.not_eq_true] at foreign
    rw [delivered_other foreign, ih (filter_eq_nil_iff.mpr others)]

theorem Pieces.delivered {payload : List U8} {ps log : List Packet} {slots : Slots}
    (pieces : Pieces o payload 0 ps) (bounds : 0 < payload.length ∧ payload.length ≤ ipv4ReasmMax)
    (order : (log ++ (traffic.filter o.owns).map (·.packet)).Perm ps)
    (missing : traffic.filter o.owns ≠ []) (pending : Pending o slots log)
    (alloc : ∀ a ∈ traffic, o.owns a → a.alloc)
    (room : log = [] → available o slots traffic) :
    ∃ whole, Whole o payload whole ∧ delivered o slots traffic =
      List.replicate ((traffic.filter o.owns).length - 1) none ++ [some whole] := by
  induction traffic generalizing log slots with
  | nil => exact absurd rfl missing
  | cons a rest ih =>
    have later : ∀ a ∈ rest, o.owns a → a.alloc :=
      fun a member => alloc a (mem_cons_of_mem _ member)
    by_cases own : o.owns a
    · have key : a.packet.header.key = o.key := by simpa [Origin.owns] using own
      rw [filter_cons_of_pos own] at order
      have slot : log = [] → (findOrNew slots a.packet.header a.now).isSome :=
        fun first => by simpa [available, own] using room first
      rw [delivered_own own, filter_cons_of_pos own]
      by_cases last : rest.filter o.owns = []
      · rw [last] at order
        obtain ⟨whole, result, correct⟩ :=
          pieces.finishes bounds order pending key (alloc a mem_cons_self own) slot
        refine ⟨whole, correct, ?_⟩
        simp [delivered_none last, last, result]
      · obtain ⟨nothing, kept⟩ := pieces.keep bounds order (by simpa using last) pending key slot
        obtain ⟨whole, correct, result⟩ := ih (by simpa using order) last kept later
          (fun empty => absurd empty (by simp))
        refine ⟨whole, correct, ?_⟩
        have count : 0 < (rest.filter o.owns).length := length_pos_iff.mpr last
        rw [nothing, result, length_cons, Nat.add_sub_cancel, ← cons_append,
          ← replicate_succ, Nat.sub_add_cancel count]
    · rw [Bool.not_eq_true] at own
      have key : a.packet.header.key ≠ o.key := by simpa [Origin.owns] using own
      have skip : ¬ o.owns a := by simp [own]
      rw [filter_cons_of_neg skip] at order missing ⊢
      rw [delivered_other own]
      exact ih order missing (pending.other key) later
        (fun first => by simpa [available, own] using room first)

/-- The loop ends with all pieces sent. In whatever order they arrive, and
whatever else arrives between them, nothing comes out until the last of them,
and then the datagram does. -/
theorem fragments_reassemble (o : Origin) (payload : List U8) (mtu : U16)
    (mtuLow : 68 ≤ mtu.toNat) (mtuHigh : mtu.toNat ≤ 1500) (some_bytes : 1 ≤ payload.length)
    (fits : payload.length ≤ ipv4ReasmMax) :
    ∃ pieces, fragment (fun _ => true) (fun _ => 0) mtu o payload = some (pieces, 0) ∧
      ∀ slots traffic, Absent o slots →
        ((traffic.filter o.owns).map (·.packet)).Perm pieces →
        (∀ a ∈ traffic, o.owns a = true → a.alloc = true) →
        available o slots traffic = true →
        ∃ whole, Whole o payload whole ∧ delivered o slots traffic =
          List.replicate (pieces.length - 1) none ++ [some whole] := by
  obtain ⟨ps, sent, pieces, -⟩ := fragment_pieces o mtuLow mtuHigh
    (fits.trans (show ipv4ReasmMax ≤ 1728 by decide))
  refine ⟨ps, sent, fun slots traffic absent order alloc room => ?_⟩
  have count : (traffic.filter o.owns).length = ps.length := by simpa using order.length_eq
  have missing : traffic.filter o.owns ≠ [] := by
    obtain ⟨last, member, _⟩ := pieces.exists_last some_bytes
    rw [← length_pos_iff, count]
    exact length_pos_of_mem member
  have nothingYet : ([] ++ (traffic.filter o.owns).map Arrival.packet).Perm ps := by simpa using order
  rw [← count]
  exact pieces.delivered ⟨some_bytes, fits⟩ nothingYet missing (.inl ⟨rfl, absent⟩) alloc
    (fun _ => room)

/-- A hundred bytes for a link of 68. -/
def longPayload : List U8 := (List.range 100).map (BitVec.ofNat 8)

def sender : Origin := ⟨7, 64, 17, 0x0A000202, 0x0A00020F⟩

/-- The pieces from the last to the first, and a piece of another datagram. -/
def reversedTraffic : List Arrival :=
  [⟨sender.fragment longPayload 96 4, 0, true⟩, ⟨piece 8 0x2000 (List.replicate 8 1), 1, true⟩,
    ⟨sender.fragment longPayload 48 48, 2, true⟩, ⟨sender.fragment longPayload 0 48, 3, true⟩]

theorem fragments_reassemble_reversed :
    ∃ whole, Whole sender longPayload whole ∧
      delivered sender .initial reversedTraffic = [none, none, some whole] := by
  obtain ⟨pieces, sent, reassembles⟩ := fragments_reassemble sender longPayload 68 (by decide)
    (by decide) (by decide) (by decide)
  have cut : fragment (fun _ => true) (fun _ => 0) 68 sender longPayload =
      some ([sender.fragment longPayload 0 48, sender.fragment longPayload 48 48,
        sender.fragment longPayload 96 4], 0) := by
    rfl
  cases cut.symm.trans sent
  have own : reversedTraffic.filter sender.owns =
      [⟨sender.fragment longPayload 96 4, 0, true⟩, ⟨sender.fragment longPayload 48 48, 2, true⟩,
        ⟨sender.fragment longPayload 0 48, 3, true⟩] := by
    rfl
  apply reassembles .initial reversedTraffic
  · intro j used
    cases used
  · rw [own]
    exact reverse_perm [sender.fragment longPayload 0 48, sender.fragment longPayload 48 48,
      sender.fragment longPayload 96 4]
  · intro a member _
    simp only [reversedTraffic, mem_cons, not_mem_nil, or_false] at member
    obtain rfl | rfl | rfl | rfl := member <;> rfl
  · decide +kernel

end UzOS.Ipv4
