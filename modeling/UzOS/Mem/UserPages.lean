import UzOS.Mem.Paging
import UzOS.Lib.Word

/-! User memory (core/umem/umem.c) and the calls mmap and sbrk, over the bytes of
physical memory. -/
namespace UzOS.Umem

def pageSize : Nat := 4096
def umemMaxRegions : Nat := 32
def userBrkStart : Nat := 0x50000000
def userBrkEnd : Nat := 0x60000000
def mmapStart : Nat := 0x60000000
def mmapEnd : Nat := 0x80000000
def mmapMaxBytes : Nat := 16 * 1024 * 1024

/-- A region that mmap handed out; start 0 is an unused slot. -/
structure Region where
  start : Nat := 0
  pages : Nat := 0

/-- What stays from call to call. -/
structure System where
  paging : Paging
  regions : Fin umemMaxRegions → Region := fun _ => {}
  brk : Nat := userBrkStart

/-- The system while it serves a call. A byte of a frame is `none` until the call puts
one there: it may be anything that an owner of the frame has left. -/
structure Machine extends System where
  ram : Nat → Nat → Option U8 := fun _ _ => none

variable (m : Machine)

/-- A byte stored at a user address goes to the frame behind its page. -/
def Machine.store (addr : Nat) (b : U8) : Machine :=
  match vmmWalk m.paging (addr / pageSize) with
  | some f => { m with
      ram := Function.update m.ram f (Function.update (m.ram f) (addr % pageSize) (some b)) }
  | none => m

def Machine.storeBytes (m : Machine) (addr : Nat) : List U8 → Machine
  | [] => m
  | b :: rest => (m.store addr b).storeBytes (addr + 1) rest

/-- memset(addr, 0, n) -/
def Machine.clear (addr n : Nat) : Machine :=
  m.storeBytes addr (List.replicate n 0)

/-! ## Pages. They are counted from address 0. -/

def umemUnmapPage (s : Paging) (p : Nat) : Paging :=
  match vmmWalk s p with
  | none => s
  | some f => pmmFreeBlock (vmmUnmapPage s p) f

def umemUnmap (s : Paging) (start : Nat) : Nat → Paging
  | 0 => s
  | pages + 1 => umemUnmap (umemUnmapPage s start) (start + 1) pages

/-- The loop of umem_map with `done` pages mapped and `left` to go. -/
def umemMapFrom (m : Machine) (start done : Nat) : Nat → Machine × Bool
  | 0 => (m, true)
  | left + 1 =>
    match pmmAllocBlock m.paging with
    | none => ({ m with paging := umemUnmap m.paging start done }, false)
    | some (s, frame) => match vmmMapPage s (start + done) frame with
      | none => ({ m with paging := umemUnmap (pmmFreeBlock s frame) start done }, false)
      | some s =>
        -- never hand out old data
        let m := { m with paging := s }.clear ((start + done) * pageSize) pageSize
        umemMapFrom m start (done + 1) left

def umemMap (start pages : Nat) : Machine × Bool := umemMapFrom m start 0 pages

/-! ## mmap regions -/

/-- Where the first region in the way of `[start, start + pages)` ends. -/
def blockingRegionEnd (start pages : Nat) : Option Nat :=
  (findSlot fun i =>
    let r := m.regions i
    r.start != 0 && decide (start < r.start + r.pages * pageSize) &&
      decide (r.start < start + pages * pageSize)).map fun i =>
        (m.regions i).start + (m.regions i).pages * pageSize

/-- First fit from `addr` on. Every round moves up, so the area bounds their number. -/
def firstFit (m : Machine) (pages : Nat) : Nat → Nat → Option Nat
  | 0, _ => none
  | rounds + 1, addr =>
    if addr + pages * pageSize ≤ mmapEnd then
      match blockingRegionEnd m addr pages with
      | none => some addr
      | some blockedUntil => firstFit m pages rounds blockedUntil
    else none

def umemRegionAdd (pages : Nat) : Option (Machine × Nat) :=
  match findSlot fun i => (m.regions i).start == 0 with
  | none => none
  | some slot =>
    if pages = 0 ∨ pages > (mmapEnd - mmapStart) / pageSize then none
    else (firstFit m pages (mmapEnd - mmapStart + 1) mmapStart).map fun addr =>
      ({ m with regions := Function.update m.regions slot ⟨addr, pages⟩ }, addr)

def umemRegionRemove (start : Nat) : Machine :=
  { m with regions := fun i =>
      if start ≠ 0 ∧ (m.regions i).start = start then { m.regions i with start := 0 }
      else m.regions i }

/-! ## The calls -/

/-- DEFENCE mmap_page_count. -/
def defMmapPageCount (length : Nat) : Option Nat :=
  if length = 0 ∨ length > mmapMaxBytes then none
  else some (length / pageSize + if length % pageSize ≠ 0 then 1 else 0)

def sysMmap (length : Nat) : Machine :=
  match defMmapPageCount length with
  | none => m
  | some pages => match umemRegionAdd m pages with
    | none => m
    | some (m, start) => match umemMap m (start / pageSize) pages with
      | (m, true) => m
      | (m, false) => umemRegionRemove m start

def pageUp (addr : Nat) : Nat := (addr + pageSize - 1) / pageSize * pageSize

/-- `limitOk` is rlimit_data_ok's answer for the wanted size. -/
def sysSbrk (increment : Int) (limitOk : Bool) : Machine :=
  let wanted : Int := m.brk + increment
  if (decide (wanted < m.brk) || limitOk) && decide (wanted ≥ userBrkStart) &&
      decide (wanted ≤ userBrkEnd) then
    let newBrk := wanted.toNat
    let oldTop := pageUp m.brk
    let newTop := pageUp newBrk
    if newTop > oldTop then
      match umemMap m (oldTop / pageSize) ((newTop - oldTop) / pageSize) with
      | (m, true) => { m with brk := newBrk }
      | (m, false) => m
    else if newTop < oldTop then
      { m with
        paging := umemUnmap m.paging (newTop / pageSize) ((oldTop - newTop) / pageSize)
        brk := newBrk }
    else { m with brk := newBrk }
  else m

/-! ## What stores do -/

variable {m : Machine} {s : Paging} {old : System}

@[simp] theorem storeBytes_paging (m : Machine) (addr : Nat) (bytes : List U8) :
    (m.storeBytes addr bytes).paging = m.paging := by
  induction bytes generalizing m addr with
  | nil => rfl
  | cons b rest ih =>
    rw [Machine.storeBytes, ih]
    unfold Machine.store
    split <;> rfl

theorem store_written (m : Machine) (addr : Nat) (b : U8) (f o : Nat) :
    ((m.store addr b).ram f o).isSome ↔ (m.ram f o).isSome ∨
      vmmWalk m.paging (addr / pageSize) = some f ∧ addr % pageSize = o := by
  unfold Machine.store
  cases here : vmmWalk m.paging (addr / pageSize) with
  | none => simp
  | some g =>
    by_cases frame : f = g
    · subst frame
      by_cases place : o = addr % pageSize
      · simp [place]
      · simp [place, Ne.symm place]
    · simp [frame, Ne.symm frame]

/-- The bytes that a call has put somewhere are those behind the addresses it stored to. -/
theorem storeBytes_written (m : Machine) (addr : Nat) (bytes : List U8) (f o : Nat) :
    ((m.storeBytes addr bytes).ram f o).isSome ↔ (m.ram f o).isSome ∨
      ∃ x, (addr ≤ x ∧ x < addr + bytes.length) ∧ vmmWalk m.paging (x / pageSize) = some f ∧
        x % pageSize = o := by
  induction bytes generalizing m addr with
  | nil =>
    refine ⟨.inl, ?_⟩
    rintro (before | ⟨x, inside, -⟩)
    · exact before
    · simp at inside
      omega
  | cons b rest ih =>
    have same : (m.store addr b).paging = m.paging := storeBytes_paging m addr [b]
    rw [Machine.storeBytes, ih, store_written, same, or_assoc]
    refine or_congr_right ⟨?_, ?_⟩
    · rintro (⟨here, place⟩ | ⟨x, inside, there⟩)
      · exact ⟨addr, ⟨le_refl _, by simp⟩, here, place⟩
      · exact ⟨x, ⟨by omega, by simp; omega⟩, there⟩
    · rintro ⟨x, ⟨low, high⟩, there⟩
      rw [List.length_cons] at high
      by_cases first : x = addr
      · exact .inl (first ▸ there)
      · exact .inr ⟨x, ⟨by omega, by omega⟩, there⟩

/-! ## Pages without old data -/

/-- Every page that is new since `old` holds only bytes that the call put there. -/
def Clean (old : System) (m : Machine) : Prop :=
  ∀ p f, vmmWalk m.paging p = some f → vmmWalk old.paging p ≠ some f →
    ∀ o < pageSize, (m.ram f o).isSome = true

theorem page_address {p o : Nat} (small : o < pageSize) :
    (p * pageSize + o) / pageSize = p ∧ (p * pageSize + o) % pageSize = o := by
  unfold pageSize at *
  omega

/-- One more page, cleared. -/
theorem Clean.clear {p frame : Nat} (clean : Clean old m)
    (walks : ∀ q, vmmWalk s q = if q = p then some frame else vmmWalk m.paging q) :
    Clean old ({ m with paging := s }.clear (p * pageSize) pageSize) := by
  intro q f here new o small
  rw [Machine.clear, storeBytes_paging] at here
  rw [Machine.clear, storeBytes_written]
  rw [walks] at here
  split at here
  · right
    obtain ⟨page, place⟩ := page_address (p := p) small
    refine ⟨p * pageSize + o, ⟨by omega, by simpa using small⟩, ?_, place⟩
    rw [page, ← here]
    exact (walks p).trans (if_pos rfl)
  · exact .inl (clean q f here new o small)

/-- Taking pages away brings up no old data. -/
theorem Clean.fewer (clean : Clean old m)
    (walks : ∀ q f, vmmWalk s q = some f → vmmWalk m.paging q = some f) :
    Clean old { m with paging := s } :=
  fun p f here => clean p f (walks p f here)

/-- `pages` pages fit at `addr`, beside every recorded region. -/
structure Machine.Gap (m : Machine) (pages addr : Nat) : Prop where
  low : mmapStart ≤ addr
  high : addr + pages * pageSize ≤ mmapEnd
  apart : ∀ i, (m.regions i).start ≠ 0 → addr + pages * pageSize ≤ (m.regions i).start ∨
    (m.regions i).start + (m.regions i).pages * pageSize ≤ addr

/-- Nothing fits before the end of a region that is in the way. -/
theorem blockingRegionEnd_some {addr pages blockedUntil : Nat}
    (blocked : blockingRegionEnd m addr pages = some blockedUntil) :
    addr < blockedUntil ∧ ∀ a, m.Gap pages a → addr ≤ a → blockedUntil ≤ a := by
  obtain ⟨i, found, rfl⟩ := Option.map_eq_some_iff.mp blocked
  have hit := findSlot_some found
  simp only [Bool.and_eq_true, bne_iff_ne, decide_eq_true_eq] at hit
  obtain ⟨⟨used, before⟩, after⟩ := hit
  refine ⟨before, fun a gap low => ?_⟩
  rcases gap.apart i used with left | right
  · omega
  · exact right

theorem blockingRegionEnd_none {addr pages : Nat} (low : mmapStart ≤ addr)
    (high : addr + pages * pageSize ≤ mmapEnd) (free : blockingRegionEnd m addr pages = none) :
    m.Gap pages addr := by
  refine ⟨low, high, fun i used => ?_⟩
  have miss := findSlot_none (Option.map_eq_none_iff.mp free) i
  simp only [Bool.and_eq_false_iff, bne_eq_false_iff_eq, decide_eq_false_iff_not] at miss
  rcases miss with (unused | before) | after
  · exact absurd unused used
  · exact .inr (Nat.le_of_not_lt before)
  · exact .inl (Nat.le_of_not_lt after)

/-- The search passes over no gap, and its rounds suffice. -/
theorem firstFit_least {pages rounds addr : Nat} (enough : mmapEnd < addr + rounds)
    (low : mmapStart ≤ addr) (skipped : ∀ a, m.Gap pages a → addr ≤ a) :
    (∀ found, firstFit m pages rounds addr = some found →
      m.Gap pages found ∧ ∀ a, m.Gap pages a → found ≤ a) ∧
    (firstFit m pages rounds addr = none → ∀ a, ¬ m.Gap pages a) := by
  induction rounds generalizing addr with
  | zero => exact ⟨nofun, fun _ a gap => by have := gap.high; have := skipped a gap; omega⟩
  | succ rounds ih =>
    rw [firstFit]
    split
    · rename_i high
      cases blocked : blockingRegionEnd m addr pages with
      | none =>
        refine ⟨fun found same => ?_, nofun⟩
        cases same
        exact ⟨blockingRegionEnd_none low high blocked, skipped⟩
      | some blockedUntil =>
        obtain ⟨up, over_⟩ := blockingRegionEnd_some blocked
        exact ih (by omega) (by omega) fun a gap => over_ a gap (skipped a gap)
    · exact ⟨nofun, fun _ a gap => by have := gap.high; have := skipped a gap; omega⟩

theorem area_search (m : Machine) (pages : Nat) :
    (∀ found, firstFit m pages (mmapEnd - mmapStart + 1) mmapStart = some found →
      m.Gap pages found ∧ ∀ a, m.Gap pages a → found ≤ a) ∧
    (firstFit m pages (mmapEnd - mmapStart + 1) mmapStart = none → ∀ a, ¬ m.Gap pages a) :=
  firstFit_least (by decide) (le_refl _) fun _ gap => gap.low

theorem umemRegionAdd_some {m' : Machine} {pages addr : Nat}
    (added : umemRegionAdd m pages = some (m', addr)) :
    m.Gap pages addr ∧ (∀ a, m.Gap pages a → addr ≤ a) ∧
      ∃ slot, (m.regions slot).start = 0 ∧
        m' = { m with regions := Function.update m.regions slot ⟨addr, pages⟩ } := by
  unfold umemRegionAdd at added
  split at added
  · cases added
  rename_i slot free
  split at added
  · cases added
  obtain ⟨found, fits, same⟩ := Option.map_eq_some_iff.mp added
  cases same
  obtain ⟨gap, least⟩ := (area_search m pages).1 addr fits
  exact ⟨gap, least, slot, by simpa using findSlot_some free, rfl⟩

/-- umem_region_add records the lowest gap in an unused slot, and fails only where there
is no slot or no gap. -/
theorem umemRegionAdd_lowest (m : Machine) (pages : Nat) :
    (∀ m' addr, umemRegionAdd m pages = some (m', addr) →
      m.Gap pages addr ∧ (∀ a, m.Gap pages a → addr ≤ a) ∧
        ∃ slot, (m.regions slot).start = 0 ∧
          m' = { m with regions := Function.update m.regions slot ⟨addr, pages⟩ }) ∧
    (umemRegionAdd m pages = none ↔ (∀ i, (m.regions i).start ≠ 0) ∨ pages = 0 ∨
      pages > (mmapEnd - mmapStart) / pageSize ∨ ∀ a, ¬ m.Gap pages a) := by
  refine ⟨fun m' addr => umemRegionAdd_some, ?_⟩
  unfold umemRegionAdd
  cases free : findSlot fun i => (m.regions i).start == 0 with
  | none => exact ⟨fun _ => .inl fun i => by simpa using findSlot_none free i, fun _ => rfl⟩
  | some slot =>
    have unused : (m.regions slot).start = 0 := by simpa using findSlot_some free
    dsimp only
    split
    · rename_i odd
      exact ⟨fun _ => .inr (odd.imp_right .inl), fun _ => rfl⟩
    rename_i odd
    rw [Option.map_eq_none_iff]
    constructor
    · exact fun none => .inr (.inr (.inr ((area_search m pages).2 none)))
    · rintro (full | zero | large | noGap)
      · exact absurd unused (full slot)
      · exact absurd (.inl zero) odd
      · exact absurd (.inr large) odd
      · refine Option.eq_none_iff_forall_not_mem.mpr fun addr fits => ?_
        exact noGap addr ((area_search m pages).1 addr fits).1

inductive RegionCall where
  | add (pages : Nat)
  | remove (start : Nat)

def RegionCall.apply (m : Machine) : RegionCall → Machine
  | .add pages => ((umemRegionAdd m pages).map Prod.fst).getD m
  | .remove start => umemRegionRemove m start

/-- The recorded regions lie in the area of mmap, beside each other. -/
structure Machine.Placed (m : Machine) : Prop where
  inside : ∀ i, (m.regions i).start ≠ 0 → mmapStart ≤ (m.regions i).start ∧
    (m.regions i).start + (m.regions i).pages * pageSize ≤ mmapEnd
  apart : ∀ i j, i ≠ j → (m.regions i).start ≠ 0 → (m.regions j).start ≠ 0 →
    (m.regions i).start + (m.regions i).pages * pageSize ≤ (m.regions j).start ∨
      (m.regions j).start + (m.regions j).pages * pageSize ≤ (m.regions i).start

theorem Machine.Placed.apply (placed : m.Placed) (call : RegionCall) : (call.apply m).Placed := by
  obtain ⟨inside, apart⟩ := placed
  cases call with
  | add pages =>
    cases added : umemRegionAdd m pages with
    | none => simpa [RegionCall.apply, added] using ⟨inside, apart⟩
    | some out =>
      obtain ⟨⟨low, high, beside⟩, -, slot, -, rest⟩ := umemRegionAdd_some added
      simp only [RegionCall.apply, added, Option.map_some, Option.getD_some, rest]
      constructor <;> grind
  | remove start => constructor <;> grind [RegionCall.apply, umemRegionRemove]

/-- Over any calls from the first on, the regions stay where the sums of the source do not wrap. -/
theorem regions_placed (s : Paging) (calls : List RegionCall) :
    (calls.foldl RegionCall.apply { paging := s }).Placed :=
  List.foldlRecOn calls _ ⟨nofun, nofun⟩ fun _ placed call _ => placed.apply call

end UzOS.Umem
