import UzOS.Ipv4.Reassembly

/-! Where the bytes of a reassembled datagram come from. -/
namespace UzOS.Ipv4

open Bool Buffer List

/-- The slots, and for each slot the fragments it got since it was opened. -/
structure World where
  slots : Slots
  received : Slot → List Packet

def World.initial : World := ⟨.initial, fun _ => []⟩

inductive Event where
  | packet (alloc : Bool) (now : U32) (p : Packet)
  | tick (now : U32)
  | flush

/-- The fragments of the datagram of `p` since its slot was opened, `p` last. -/
def World.since (w : World) (p : Packet) : List Packet :=
  match findHolding w.slots p.header with
  | some i => w.received i ++ [p]
  | none => [p]

def World.step (w : World) : Event → World
  | .packet alloc now p =>
    { slots := (ipv4Reassemble alloc now w.slots p).2
      received := match findOrNew w.slots p.header now with
        | some (i, _) => Function.update w.received i (w.since p)
        | none => w.received }
  | .tick now => { w with slots := ipv4FragmentTick now w.slots }
  | .flush => { w with slots := ipv4FragmentFlush w.slots }

/-- The end that the fragments announce: the last one without MF counts. -/
def announced (log : List Packet) : Nat :=
  log.foldl (fun total g => if g.more then total else g.finish) 0

/-- No block is covered by both. -/
def Apart (g g' : Packet) : Prop := ∀ b, g.covers b = true → g'.covers b = false

instance : Std.Symm Apart where
  symm := by
    intro g g' apart b covered
    by_contra both
    rw [Bool.not_eq_false] at both
    cases covered.symm.trans (apart b both)

/-- A slot in use and the fragments it was made from. -/
structure Tracks (r : Reasm) (log : List Packet) : Prop where
  keys : ∀ g ∈ log, g.header.key = r.key
  header : r.header.key = r.key
  blocks : ∀ b, r.filled b = true ↔ ∃ g ∈ log, g.covers b = true
  apart : log.Pairwise Apart
  bytes : ∀ g ∈ log, ∀ k (inside : k < g.payload.length), r.data (g.offset + k) = g.payload[k]
  total : r.total = announced log
  aligned : ∀ g ∈ log, g.more = true → g.payload.length % 8 = 0

theorem opened_tracks (r : Reasm) (ip : Header) (now : U32) : Tracks (r.opened ip now) [] := by
  constructor <;> simp [Reasm.opened, Reasm.key, Header.key, announced]

/-- A byte of a fragment lies in a block the fragment covers. -/
theorem covers_inside (p : Packet) {x : Nat} (low : p.offset ≤ x) (high : x < p.finish) :
    p.covers (x / 8) := by
  rw [covers_iff]
  omega

variable {p : Packet} {slots : Slots} {now : U32} {w : World}

theorem take_tracks {r : Reasm} {log : List Packet} (tracks : Tracks r log)
    (key : p.header.key = r.key) (accepted : r.refuses p = false) :
    Tracks (r.take p) (log ++ [p]) := by
  obtain ⟨aligned, _, clear⟩ := accepted_spec accepted
  have free : ∀ g ∈ log, ∀ b, g.covers b → p.covers b = false := by
    intro g member b covered
    by_contra both
    rw [not_eq_false] at both
    have filled := (tracks.blocks b).mpr ⟨g, member, covered⟩
    cases filled.symm.trans (clear b both)
  constructor
  · intro g member
    obtain old | new := mem_append.mp member
    · exact tracks.keys g old
    rw [mem_singleton.mp new]
    exact key
  · simp only [Reasm.take]
    split
    · exact key
    · exact tracks.header
  · intro b
    simp only [Reasm.take, or_eq_true, tracks.blocks b, mem_append, mem_singleton]
    constructor
    · rintro (⟨g, member, covered⟩ | covered)
      · exact ⟨g, .inl member, covered⟩
      · exact ⟨p, .inr rfl, covered⟩
    · rintro ⟨g, member | rfl, covered⟩
      · exact .inl ⟨g, member, covered⟩
      · exact .inr covered
  · rw [pairwise_append]
    refine ⟨tracks.apart, pairwise_singleton _ _, ?_⟩
    intro g member g' last
    rw [mem_singleton.mp last]
    exact free g member
  · intro g member k inside
    obtain old | new := mem_append.mp member
    · have covered := covers_inside g (x := g.offset + k) (by omega)
        (by simp only [Packet.finish]; omega)
      have elsewhere : ¬ (p.offset ≤ g.offset + k ∧ g.offset + k < p.offset + p.payload.length) := by
        rintro ⟨low, high⟩
        cases (free g old _ covered).symm.trans (covers_inside p low high)
      rw [← tracks.bytes g old k inside]
      by_cases before : g.offset + k < p.offset
      · exact blit_before _ _ _ _ before
      · exact blit_after _ _ _ _ (by omega)
    · rw [mem_singleton] at new
      subst new
      exact blit_inside _ _ _ _ inside
  · simp only [Reasm.take, announced, foldl_append]
    rw [tracks.total]
    rfl
  · intro g member
    obtain old | new := mem_append.mp member
    · exact tracks.aligned g old
    rw [mem_singleton.mp new]
    exact aligned

/-! Runs. -/

/-- Every slot in use was made from the fragments it received. -/
def Sound (w : World) : Prop := ∀ i, (w.slots i).used = true → Tracks (w.slots i) (w.received i)

/-- The slot a fragment goes to tracks what was received before it. -/
theorem Sound.found (sound : Sound w) {i : Slot}
    (found : findOrNew w.slots p.header now = some (i, slots)) :
    (∃ log, w.since p = log ++ [p] ∧ Tracks (slots i) log) ∧ (slots i).key = p.header.key ∧
      ∀ j, j ≠ i → slots j = w.slots j := by
  simp only [findOrNew] at found
  split at found
  · rename_i j holding
    cases found
    have holds := (holds_iff _ _).mp (by simpa using List.find?_some holding)
    exact ⟨⟨_, by simp [World.since, holding], sound i holds.1⟩, holds.2, fun _ _ => rfl⟩
  · rename_i absent
    split at found
    · cases found
    split at found
    · cases found
      refine ⟨⟨[], by simp [World.since, absent], ?_⟩, ?_, fun j other => by simp [other]⟩
      · simpa using opened_tracks _ _ _
      · simp [Reasm.opened, Reasm.key, Header.key]
    · cases found

/-- A fragment leaves its slot unused, or holding the fragment too; a datagram
is returned only from a complete slot. -/
theorem reassemble_cases (alloc : Bool) {found : Slots} {i : Slot}
    (hit : findOrNew slots p.header now = some (i, found)) :
    ∃ r, (ipv4Reassemble alloc now slots p).2 = Function.update found i r ∧
      (r.used → (found i).refuses p = false ∧ r = (found i).take p) ∧
      ∀ whole, (ipv4Reassemble alloc now slots p).1 = some whole →
        (found i).refuses p = false ∧ complete ((found i).take p) ∧
          whole = ((found i).take p).wholePacket := by
  simp only [ipv4Reassemble, hit]
  split
  · exact ⟨_, rfl, nofun, fun whole none => (by cases none)⟩
  rename_i accepted
  rw [not_eq_true] at accepted
  split
  · exact ⟨_, rfl, fun _ => ⟨accepted, rfl⟩, fun whole none => (by cases none)⟩
  rename_i done
  simp only [not_eq_true', not_eq_false] at done
  split
  · exact ⟨_, rfl, nofun, fun whole none => (by cases none)⟩
  refine ⟨_, rfl, nofun, fun whole result => ?_⟩
  exact ⟨accepted, done, (Option.some.inj result).symm⟩

theorem step_sound (sound : Sound w) (event : Event) : Sound (w.step event) := by
  cases event with
  | packet alloc now p =>
    intro j used
    simp only [World.step] at used ⊢
    cases hit : findOrNew w.slots p.header now with
    | none =>
      simp only [ipv4Reassemble, hit] at used ⊢
      exact sound j used
    | some result =>
      obtain ⟨i, found⟩ := result
      obtain ⟨⟨log, since, tracks⟩, key, others⟩ := sound.found hit
      obtain ⟨r, slots, taken, _⟩ := reassemble_cases alloc hit
      rw [slots] at used ⊢
      by_cases here : j = i
      · subst here
        simp only [Function.update_self] at used ⊢
        obtain ⟨accepted, rfl⟩ := taken used
        rw [since]
        exact take_tracks tracks key.symm accepted
      · simp only [Function.update_of_ne here, others j here] at used ⊢
        exact sound j used
  | tick now =>
    intro j used
    simp only [World.step, ipv4FragmentTick] at used ⊢
    split at used
    · cases used
    rename_i still
    rw [if_neg still]
    exact sound j used
  | flush =>
    intro j used
    cases used

theorem run_sound (events : List Event) : Sound (events.foldl World.step .initial) := by
  apply List.foldlRecOn events World.step (motive := Sound)
  · intro i used
    cases used
  · exact fun w sound event _ => step_sound sound event

/-- A datagram is returned only for a slot that tracks its fragments. -/
theorem Sound.delivers (sound : Sound w) {alloc : Bool} {whole : Packet}
    (result : (ipv4Reassemble alloc now w.slots p).1 = some whole) :
    ∃ r, Tracks r (w.since p) ∧ complete r ∧ whole = r.wholePacket := by
  cases hit : findOrNew w.slots p.header now with
  | none =>
    simp only [ipv4Reassemble, hit] at result
    cases result
  | some found =>
    obtain ⟨⟨log, since, tracks⟩, key, _⟩ := sound.found hit
    obtain ⟨_, _, _, delivered⟩ := reassemble_cases alloc hit
    obtain ⟨accepted, done, same⟩ := delivered whole result
    rw [since]
    exact ⟨_, take_tracks tracks key.symm accepted, done, same⟩

/-! The bytes of the datagram. -/

/-- Some fragment of the datagram carried `byte` at place `i`. -/
def Carried (log : List Packet) (h : Header) (i : Nat) (byte : U8) : Prop :=
  ∃ g ∈ log, g.header.key = h.key ∧ g.offset ≤ i ∧ g.payload[i - g.offset]? = some byte

/-- A last fragment that ends inside a block of the datagram leaves the rest of
the block to no one. -/
def raggedFree (log : List Packet) : Bool :=
  log.all fun g => g.more || g.finish % 8 == 0 || decide (announced log ≤ g.finish)

theorem raggedFree_iff (log : List Packet) :
    raggedFree log ↔
      ∀ g ∈ log, g.more = false → g.finish % 8 ≠ 0 → announced log ≤ g.finish := by
  simp only [raggedFree, all_eq_true, or_eq_true, beq_iff_eq, decide_eq_true_eq]
  constructor
  · intro every g member last ragged
    obtain (more | aligned) | inside := every g member
    · cases last.symm.trans more
    · exact absurd aligned ragged
    · exact inside
  · intro every g member
    by_cases last : g.more = false
    · by_cases aligned : g.finish % 8 = 0
      · exact .inl (.inr aligned)
      · exact .inr (every g member last aligned)
    · exact .inl (.inl (by simpa using last))

section
variable {r : Reasm} {log : List Packet}

theorem Tracks.carried (tracks : Tracks r log) (done : complete r)
    (clean : raggedFree log) {i : Nat} (inside : i < r.total) :
    Carried log r.header i (r.data i) := by
  rw [complete_iff] at done
  rw [raggedFree_iff, ← tracks.total] at clean
  obtain ⟨g, member, covered⟩ := (tracks.blocks (i / 8)).mp (done.2 _ (by omega))
  rw [covers_iff] at covered
  have offset := offset_aligned g
  have reaches : i < g.finish := by
    by_contra short
    have ragged : g.finish % 8 ≠ 0 := by omega
    have last : g.more = false := by
      by_contra more
      have aligned := tracks.aligned g member (by simpa using more)
      simp only [Packet.finish] at ragged
      omega
    have := clean g member last ragged
    omega
  have place : g.offset ≤ i := by omega
  simp only [Packet.finish] at reaches
  refine ⟨g, member, (tracks.keys g member).trans tracks.header.symm, place, ?_⟩
  rw [List.getElem?_eq_getElem (by omega), ← tracks.bytes g member _ (by omega)]
  congr 2
  omega

theorem Tracks.ragged (tracks : Tracks r log) {g : Packet} (member : g ∈ log)
    (ragged : g.finish % 8 ≠ 0) {h : Header} {byte : U8} :
    ¬ Carried log h g.finish byte := by
  rintro ⟨g', member', _, low, value⟩
  have high : g.finish < g'.finish := by
    obtain ⟨inside, _⟩ := List.getElem?_eq_some_iff.mp value
    simp only [Packet.finish] at low inside ⊢
    omega
  have one : g.covers (g.finish / 8) := by
    rw [covers_iff]
    simp only [Packet.finish] at ragged ⊢
    omega
  have two := covers_inside g' low high
  by_cases same : g = g'
  · subst same
    omega
  · cases two.symm.trans (tracks.apart.forall member member' same _ one)

end

/-- In every run, all bytes of a datagram that is returned were carried by its
own fragments, at their places, exactly when none of its last fragments ended
inside a block before the end. -/
theorem datagram_bytes_carried (events : List Event) (alloc : Bool) (now : U32) (p whole : Packet)
    (result : (ipv4Reassemble alloc now (events.foldl World.step .initial).slots p).1 =
      some whole) :
    (∀ i (inside : i < whole.payload.length),
      Carried ((events.foldl World.step .initial).since p) whole.header i whole.payload[i]) ↔
      raggedFree ((events.foldl World.step .initial).since p) = true := by
  obtain ⟨r, tracks, done, rfl⟩ := (run_sound events).delivers result
  have length : r.wholePacket.payload.length = r.total := by simp [Reasm.wholePacket]
  have byte : ∀ i (inside : i < r.wholePacket.payload.length),
      r.wholePacket.payload[i] = r.data i := by
    simp [Reasm.wholePacket, Buffer.slice]
  constructor
  · intro every
    rw [raggedFree_iff]
    intro g member _ ragged
    by_contra short
    rw [← tracks.total] at short
    exact tracks.ragged member ragged (every g.finish (by omega))
  · intro clean i inside
    rw [byte i inside]
    exact tracks.carried done clean (by omega)

/-- A fragment as fragment() makes it. -/
def piece (id : U16) (frag : U16) (payload : List U8) : Packet where
  header := fillHeader (BitVec.ofNat 16 (ipv4Hlen + payload.length)) id frag 64 17 0x0A000202 0x0A00020F
  options := []
  payload := payload
  whole := by
    simp only [fillHeader, Header.sealed, Header.hlen]
    rfl

/-- Two fragments in the wrong order; the last one is cut short. -/
theorem datagram_bytes_carried_reordered :
    (ipv4Reassemble true 0 ([.packet true 0 (piece 1 1 [2, 2, 2])].foldl World.step .initial).slots
        (piece 1 0x2000 (List.replicate 8 1))).1.map (·.payload) =
      some (List.replicate 8 1 ++ [2, 2, 2]) ∧
    ∀ whole, (ipv4Reassemble true 0
        ([.packet true 0 (piece 1 1 [2, 2, 2])].foldl World.step .initial).slots
        (piece 1 0x2000 (List.replicate 8 1))).1 = some whole →
      ∀ i (inside : i < whole.payload.length),
        Carried (([.packet true 0 (piece 1 1 [2, 2, 2])].foldl World.step .initial).since
          (piece 1 0x2000 (List.replicate 8 1))) whole.header i whole.payload[i] :=
  ⟨by decide +kernel, fun whole result =>
    (datagram_bytes_carried _ true 0 _ whole result).mpr (by decide +kernel)⟩

/-- A datagram of sevens is delivered and its slot is used again: a last
fragment of three bytes claims a block, and a second last fragment moves the
end past it. -/
def raggedEvents : List Event :=
  [.packet true 0 (piece 1 0x2000 (List.replicate 16 7)), .packet true 0 (piece 1 2 [7]),
    .packet true 0 (piece 2 1 [2, 2, 2]), .packet true 0 (piece 2 2 (List.replicate 8 3))]

/-- Five sevens of the first datagram are delivered in the second, at places
where none of its fragments had a byte. -/
theorem raggedEvents_deliver_old_bytes :
    (ipv4Reassemble true 0 (raggedEvents.foldl World.step .initial).slots
        (piece 2 0x2000 (List.replicate 8 1))).1.map (·.payload) =
      some (List.replicate 8 1 ++ [2, 2, 2] ++ List.replicate 5 7 ++ List.replicate 8 3) ∧
    ((raggedEvents.foldl World.step .initial).since (piece 2 0x2000 (List.replicate 8 1))).map
        (fun g => (g.offset, g.payload)) =
      [(8, [2, 2, 2]), (16, List.replicate 8 3), (0, List.replicate 8 1)] := by
  decide +kernel

end UzOS.Ipv4
