import UzOS.Ipv4.Header

/-! Reassembly of IPv4 fragments (core/ipv4/fragment.c). -/
namespace UzOS.Ipv4

def ipv4ReasmMax : Nat := 1600 - ipv4Hlen
def ipv4ReasmSlots : Nat := 4
def ipv4ReasmTimeout : Nat := 30000
def fragSourceMax : Nat := 2

/-- A packet that ip_header_validate let through: its header, the options the
header length accounts for, and the data. -/
structure Packet where
  header : Header
  options : List U8
  payload : List U8
  whole : header.hlen = ipv4Hlen + options.length

def Packet.frag (p : Packet) : U16 := ntohs p.header.frag

/-- Where the data goes, in bytes. -/
def Packet.offset (p : Packet) : Nat := (p.frag &&& ipv4OffsetMask).toNat * 8

def Packet.more (p : Packet) : Bool := p.frag &&& ipv4FlagMf != 0

/-- Where the data ends. -/
def Packet.finish (p : Packet) : Nat := p.offset + p.payload.length

/-- reasm_t; `filled` has a bit for each 8-byte block. -/
structure Reasm where
  used : Bool
  src : U32
  dst : U32
  id : U16
  protocol : U8
  total : Nat
  startedMs : U32
  header : Header
  filled : Nat → Bool
  data : Nat → U8

abbrev Slot := Fin ipv4ReasmSlots
abbrev Slots := Slot → Reasm

/-- The static array before the first fragment. -/
def Slots.initial : Slots := fun _ =>
  ⟨false, 0, 0, 0, 0, 0, 0, ⟨0, 0, 0, 0, 0, 0, 0, 0, 0, 0⟩, fun _ => false, fun _ => 0⟩

/-! Finding a slot. -/

variable (r : Reasm)

/-- The slot is in use for the datagram of this header. -/
def Reasm.holds (ip : Header) : Bool :=
  r.used && r.src == ip.src && r.dst == ip.dst && r.id == ip.id && r.protocol == ip.protocol

/-- frag_mem_limit -/
def defFragSlotOk (held : Nat) : Bool := decide (held < fragSourceMax)

/-- A slot taken for a new datagram: the bitmap is cleared, the data is not. -/
def Reasm.opened (ip : Header) (now : U32) : Reasm :=
  { r with
    used := true, src := ip.src, dst := ip.dst, id := ip.id, protocol := ip.protocol
    total := 0, startedMs := now, header := ip, filled := fun _ => false }

def findHolding (slots : Slots) (ip : Header) : Option Slot :=
  (List.finRange ipv4ReasmSlots).find? fun i => (slots i).holds ip

def findFree (slots : Slots) : Option Slot :=
  (List.finRange ipv4ReasmSlots).find? fun i => !(slots i).used

/-- Slots the source of this header already has. -/
def heldBy (slots : Slots) (ip : Header) : Nat :=
  (List.finRange ipv4ReasmSlots).countP fun i => (slots i).used && (slots i).src == ip.src

def findOrNew (slots : Slots) (ip : Header) (now : U32) : Option (Slot × Slots) :=
  match findHolding slots ip with
  | some i => some (i, slots)
  | none =>
    match findFree slots with
    | none => none
    | some i =>
      if defFragSlotOk (heldBy slots ip) then
        some (i, Function.update slots i ((slots i).opened ip now))
      else none

/-! Taking a fragment. -/

/-- reassembly_bounds -/
def defReasmFits (offset len size : Nat) : Bool :=
  decide (offset ≤ size) && decide (len ≤ size - offset)

/-- fragment_overlap_check -/
def defFragNoOverlap (filled : Nat → Bool) (first last : Nat) : Bool :=
  (List.range (last + 1 - first)).all fun k => !filled (first + k)

/-- The three reasons to give the whole datagram up. -/
def Reasm.refuses (p : Packet) : Bool :=
  (p.more && p.payload.length % 8 != 0) ||
  !defReasmFits p.offset p.payload.length ipv4ReasmMax ||
  (p.payload.length != 0 &&
    !defFragNoOverlap r.filled (p.offset / 8) ((p.offset + p.payload.length - 1) / 8))

/-- The blocks a fragment fills: the last one counts even if it is cut short. -/
def Packet.covers (p : Packet) (block : Nat) : Bool :=
  decide (p.offset / 8 ≤ block) && decide (block < (p.offset + p.payload.length + 7) / 8)

def Reasm.take (p : Packet) : Reasm :=
  { r with
    data := Buffer.blit r.data p.offset p.payload
    filled := fun block => r.filled block || p.covers block
    total := if p.more then r.total else p.offset + p.payload.length
    header := if p.offset = 0 then p.header else r.header }

def complete : Bool :=
  r.total != 0 && (List.range ((r.total + 7) / 8)).all r.filled

def giveUp : Reasm := { r with used := false }

/-- The header of the whole datagram. -/
def Reasm.wholeHeader : Header :=
  Header.sealed { r.header with
    versionIhl := 0x45, totalLength := htons (BitVec.ofNat 16 (ipv4Hlen + r.total)), frag := 0
    checksum := 0 }

/-- One packet: a plain 20-byte header, then the data. -/
def Reasm.wholePacket : Packet where
  header := r.wholeHeader
  options := []
  payload := Buffer.slice r.data 0 r.total
  whole := by
    simp only [Reasm.wholeHeader, Header.sealed, Header.hlen]
    rfl

/-- `alloc` says whether packet_alloc finds a buffer for the whole datagram. -/
def ipv4Reassemble (alloc : Bool) (now : U32) (slots : Slots) (p : Packet) :
    Option Packet × Slots :=
  match findOrNew slots p.header now with
  | none => (none, slots)
  | some (i, slots) =>
    if (slots i).refuses p then (none, Function.update slots i (giveUp (slots i)))
    else
      let r := (slots i).take p
      if !complete r then (none, Function.update slots i r)
      else if !alloc then (none, Function.update slots i (giveUp r))
      else (some r.wholePacket, Function.update slots i { r with used := false })

def ipv4FragmentTick (now : U32) (slots : Slots) : Slots := fun i =>
  if (slots i).used && decide (ipv4ReasmTimeout ≤ (now - (slots i).startedMs).toNat) then
    giveUp (slots i)
  else slots i

def ipv4FragmentFlush (slots : Slots) : Slots := fun i => { slots i with used := false }

/-! What the functions do, for the proofs. -/

/-- What the fragments of one datagram share. -/
def Header.key (h : Header) : U32 × U32 × U16 × U8 := (h.src, h.dst, h.id, h.protocol)

def Reasm.key : U32 × U32 × U16 × U8 := (r.src, r.dst, r.id, r.protocol)

theorem holds_iff (ip : Header) : r.holds ip ↔ r.used ∧ r.key = ip.key := by
  simp [Reasm.holds, Reasm.key, Header.key, and_assoc]

/-- The slot found is the datagram's own: in use for it already, or opened. -/
theorem findOrNew_spec {slots slots' : Slots} {ip : Header} {now : U32} {i : Slot}
    (found : findOrNew slots ip now = some (i, slots')) :
    ((slots i).holds ip ∧ slots' = slots) ∨
      ((∀ j, (slots j).holds ip = false) ∧ (slots i).used = false ∧
        slots' = Function.update slots i ((slots i).opened ip now)) := by
  simp only [findOrNew] at found
  split at found
  · rename_i j holding
    cases found
    exact .inl ⟨by simpa using List.find?_some holding, rfl⟩
  rename_i absent
  split at found
  · cases found
  rename_i j free
  split at found
  · cases found
    refine .inr ⟨fun j => ?_, by simpa using List.find?_some free, rfl⟩
    simpa using List.find?_eq_none.mp absent j (List.mem_finRange j)
  · cases found

theorem noOverlap_iff (filled : Nat → Bool) (first last : Nat) :
    defFragNoOverlap filled first last ↔ ∀ b, first ≤ b → b ≤ last → filled b = false := by
  simp only [defFragNoOverlap, List.all_eq_true, List.mem_range, Bool.not_eq_true']
  constructor
  · intro clear b low high
    have here := clear (b - first) (by omega)
    rwa [show first + (b - first) = b by omega] at here
  · intro clear k inside
    exact clear (first + k) (by omega) (by omega)

theorem covers_iff (p : Packet) (block : Nat) :
    p.covers block ↔ p.offset / 8 ≤ block ∧ block < (p.finish + 7) / 8 := by
  simp [Packet.covers, Packet.finish]

theorem offset_aligned (p : Packet) : p.offset % 8 = 0 := by simp [Packet.offset]

/-- An accepted fragment: whole blocks unless it is the last, inside the buffer,
and over blocks nobody filled. -/
theorem accepted_spec {r : Reasm} {p : Packet} (accepted : r.refuses p = false) :
    (p.more → p.payload.length % 8 = 0) ∧ p.finish ≤ ipv4ReasmMax ∧
      ∀ b, p.covers b → r.filled b = false := by
  simp only [Reasm.refuses, Bool.or_eq_false_iff, Bool.and_eq_false_iff, Bool.not_eq_false',
    bne_eq_false_iff_eq, defReasmFits, Bool.and_eq_true, decide_eq_true_eq] at accepted
  obtain ⟨⟨aligned, inside⟩, clear⟩ := accepted
  refine ⟨fun more => ?_, by simp only [Packet.finish]; omega, fun b covered => ?_⟩
  · simpa [more] using aligned
  · rw [covers_iff, Packet.finish] at covered
    have offset := offset_aligned p
    by_cases empty : p.payload.length = 0
    · omega
    have free := clear.resolve_left empty
    rw [noOverlap_iff] at free
    exact free b covered.1 (by omega)

theorem complete_iff : complete r ↔ r.total ≠ 0 ∧ ∀ b, b < (r.total + 7) / 8 → r.filled b := by
  simp [complete]

end UzOS.Ipv4
