import UzOS.Mem.KheapBlocks

/-! Runs of kmalloc and kfree, with owners writing into their blocks. -/
namespace UzOS.Mem

open BitVec Bool List Nat
open Tiling

/-- The heap, and the pointers that kmalloc has returned and nobody has freed
since, with the sizes asked for. -/
structure World where
  heap : Kheap
  live : List (U32 × U32)

inductive Call where
  | kmalloc (size : U32)
  | kfree (p : U32)
  | write (p : U32) (offset : Nat) (bytes : List U8)

/-- The bytes of data behind a pointer, as its header has it. -/
def room (m : Memory) (p : U32) : Nat := (size m (p - headerSize)).toNat

/-- `none` if a loop of the heap does not end. An owner writes inside the block
only. -/
def World.step (w : World) : Call → Option World
  | .kmalloc size =>
    (kmalloc w.heap size).map fun r =>
      ⟨r.2, if r.1 == 0 then w.live else (r.1, size) :: w.live⟩
  | .kfree p => (kfree w.heap p).map fun heap => ⟨heap, w.live.filter (·.1 != p)⟩
  | .write p offset bytes =>
    if w.live.any (·.1 == p) && decide (offset + bytes.length ≤ room w.heap.mem p) then
      some { w with heap := { w.heap with mem := Buffer.blit w.heap.mem (p.toNat + offset) bytes } }
    else some w

def World.run (w : World) (calls : List Call) : Option World := calls.foldlM World.step w

/-! The blocks in memory. -/

/-- The heap's memory is tiled by blocks with their headers. -/
structure Laid (m : Memory) (bs : List Block) : Prop where
  tiles : Tiles 16 kheapStart.toNat bs kheapStop
  headers : ∀ b ∈ bs, HeaderAt m b
  sizes : Multiples 8 bs

section
variable {m m' : Memory} {bs : List Block} {b : Block}

variable (laid : Laid m bs)
include laid

theorem Laid.few : bs.length < rounds := by
  have count := laid.tiles.length_le
  have enough : rounds = 0x800001 := rfl
  rw [stop_eq] at count
  omega

/-- Writing into the data of a block leaves all headers alone. -/
theorem Laid.write (member : b ∈ bs)
    (inside : ∀ x, x < b.addr + 16 ∨ b.addr + 16 + b.size ≤ x → m' x = m x) : Laid m' bs where
  tiles := laid.tiles
  headers c listed := by
    refine (laid.headers c listed).frame fun x low high => inside x ?_
    obtain rfl | before | after := laid.tiles.apart member listed
    · exact .inl high
    · exact .inr (by omega)
    · exact .inl (by omega)
  sizes := laid.sizes

theorem Laid.addr_aligned (member : b ∈ bs) : b.addr % 8 = 0 :=
  mod_eq_zero_of_dvd (laid.tiles.addr_multiple laid.sizes (by decide) (by decide) member)

/-- The header of a block in use is marked free. -/
theorem Laid.release (member : b ∈ bs) : Laid (setIsFree m (ptr b) 1) (release b.addr bs) where
  tiles := release_tiles _ laid.tiles
  headers c listed := by
    have place := toNat_ptr (laid.headers b member).high
    obtain ⟨d, old, ⟨here, rfl⟩ | ⟨elsewhere, rfl⟩⟩ := mem_release listed
    · have same : ptr b = ptr d := by rw [ptr, ptr, here]
      rw [same]
      exact (laid.headers d old).setFree true
    · refine (laid.headers c old).frame fun x low high => setField_outside ?_
      obtain rfl | before | after := laid.tiles.apart member old
      · exact absurd rfl elsewhere
      · omega
      · omega
  sizes := release_sizes laid.sizes

/-- kfree merges whatever is free. -/
theorem Laid.merge : ∃ m' bs', mergeLoop rounds m kheapStart = some m' ∧ Laid m' bs' ∧ Merged bs' ∧
      ∀ b ∈ bs, b.free = false → b ∈ bs' := by
  cases bs with
  | nil =>
    have empty := tiles_nil.mp laid.tiles
    cases empty
  | cons b rest =>
    have tiles := laid.tiles
    have first : kheapStart.toNat = b.addr := (tiles_cons.mp tiles).1
    have start : kheapStart = ptr b := by
      rw [ptr, ← first]
      rfl
    rw [first] at tiles
    obtain ⟨m', result, headers, _⟩ := mergeLoop_mergeFrom tiles laid.headers
      (lt_of_succ_lt laid.few)
    refine ⟨m', mergeFrom 16 b rest, by rw [start, result], ?_, mergeFrom_merged _ _ _,
      fun c member used => mergeFrom_kept member used⟩
    exact ⟨mergeFrom_tiles laid.tiles, headers, mergeFrom_sizes laid.sizes (by decide)⟩

omit laid in
theorem plausibleBlock_bounds {p : U32} (inHeap : plausibleBlock p) :
    0x1000010 ≤ p.toNat ∧ p.toNat < 0x1800000 ∧ p.toNat % 8 = 0 := by
  have first : (kheapStart + headerSize).toNat = 0x1000010 := rfl
  have stop : (kheapStart + kheapSize).toNat = 0x1800000 := rfl
  simp only [plausibleBlock] at inHeap
  split at inHeap
  · cases inHeap
  rename_i low
  split at inHeap
  · cases inHeap
  rename_i high
  rw [lt_def] at low
  rw [ge_iff_le, le_def] at high
  have multiple := congrArg BitVec.toNat (beq_iff_eq.mp inHeap)
  exact ⟨by omega, by omega, multiple⟩

/-- A pointer that heap_guard lets through is the data of a block in use, or
lies in some block's data with a fake header before it. -/
theorem Laid.accepted {p : U32} (ok : defKfreeOk m p) :
    (∃ b ∈ bs, b.free = false ∧ p = BitVec.ofNat 32 (b.addr + 16)) ∨
      ∃ b ∈ bs, b.addr + 16 ≤ (p - headerSize).toNat ∧
        (p - headerSize).toNat + 16 ≤ b.addr + 16 + b.size := by
  simp only [defKfreeOk, headerAllows, and_eq_true, beq_iff_eq] at ok
  obtain ⟨inHeap, fakeMagic, fakeUsed⟩ := ok
  obtain ⟨low, high, multiple⟩ := plausibleBlock_bounds inHeap
  have back : (p - headerSize).toNat = p.toNat - 16 := by
    have width : headerSize.toNat = 16 := rfl
    rw [toNat_sub, width]
    omega
  obtain ⟨b, member, after, before⟩ := laid.tiles.owner (x := p.toNat - 16)
    (by rw [start_toNat]; omega) (by rw [stop_eq]; omega)
  have header := laid.headers b member
  have place := toNat_ptr header.high
  have aligned := laid.addr_aligned member
  have size := mod_eq_zero_of_dvd (laid.sizes b member)
  rw [Block.finish] at before
  by_cases real : p.toNat - 16 = b.addr
  · have same : p - headerSize = ptr b := eq_of_toNat_eq (by rw [back, place, real])
    refine .inl ⟨b, member, ?_, eq_of_toNat_eq ?_⟩
    · have free := header.isFree_eq_zero
      rw [same] at fakeUsed
      simpa [fakeUsed] using free.symm
    · rw [toNat_ofNat]
      omega
  · by_cases inHeader : p.toNat - 16 = b.addr + 8
    · have overlap : Mem.magic m (p - headerSize) = Mem.isFree m (ptr b) := by
        rw [Mem.magic, Mem.isFree, field, field, back, place, inHeader]
      rw [fakeMagic, header.isFree] at overlap
      split at overlap <;> cases overlap
    · by_cases inside : p.toNat ≤ b.addr + 16 + b.size
      · rw [back]
        exact .inr ⟨b, member, by omega, by omega⟩
      obtain ⟨c, listed, after', before'⟩ := laid.tiles.owner (x := p.toNat - 8)
        (by rw [start_toNat]; omega) (by rw [stop_eq]; omega)
      have header' := laid.headers c listed
      have place' := toNat_ptr header'.high
      have next : c.addr = p.toNat - 8 := by
        simp only [Block.finish] at before'
        obtain rfl | first | second := laid.tiles.apart member listed
        · omega
        · omega
        · omega
      have overlap : Mem.isFree m (p - headerSize) = Mem.magic m (ptr c) := by
        rw [Mem.magic, Mem.isFree, field, field, back, place', next]
        congr 1
        omega
      rw [fakeUsed, header'.magic] at overlap
      cases overlap

end

/-! Runs. -/

/-- A live pointer is the data of a block in use that is long enough. -/
def Held (bs : List Block) (e : U32 × U32) : Prop :=
  ∃ b ∈ bs, b.free = false ∧ e.1 = BitVec.ofNat 32 (b.addr + 16) ∧ e.2.toNat ≤ b.size

structure Good (w : World) (bs : List Block) : Prop where
  start : w.heap.heapStart = kheapStart
  laid : Laid w.heap.mem bs
  merged : Merged bs
  held : ∀ e ∈ w.live, Held bs e
  distinct : w.live.Pairwise fun e f => e.1 ≠ f.1

section
variable {w : World} {bs : List Block}

theorem roundUp_eq {n : U32} (small : n ≤ kheapSize) :
    roundUp n = BitVec.ofNat 32 ((n.toNat + 7) / 8 * 8) := by
  have limit : kheapSize.toNat = 0x800000 := rfl
  rw [le_def] at small
  have sum : (n + align - 1).toNat = n.toNat + 7 := by
    have eight : align.toNat = 8 := rfl
    have one : (1 : U32).toNat = 1 := rfl
    rw [toNat_sub, toNat_add]
    omega
  have value : (roundUp n).toNat = (n.toNat + 7) / 8 * 8 := by
    rw [roundUp, show ~~~(align - 1) = BitVec.allOnes 32 <<< 3 by decide,
      toNat_and_allOnes_shiftLeft, sum]
    rfl
  apply eq_of_toNat_eq
  rw [toNat_ofNat]
  omega

variable {b : Block} {m : Memory}

/-- Pointers to the data of different blocks differ. -/
theorem dataPtr_inj {c : Block} (first : HeaderAt m b) (high : c.addr + 16 ≤ kheapStop)
    (same : BitVec.ofNat 32 (b.addr + 16) = BitVec.ofNat 32 (c.addr + 16)) : b.addr = c.addr := by
  obtain ⟨low, high'⟩ := first.bounds
  have values := congrArg BitVec.toNat same
  rw [toNat_ofNat, toNat_ofNat] at values
  rw [stop_eq] at high
  omega

/-- A request for `n` bytes that some free block can serve. -/
def Fits (bs : List Block) (n : U32) : Prop :=
  0 < n ∧ n ≤ kheapSize ∧ ∃ b ∈ bs, b.free = true ∧ (n.toNat + 7) / 8 * 8 ≤ b.size

/-- kmalloc is first fit. -/
theorem kmalloc_spec (good : Good w bs) (n : U32) :
    (kmalloc w.heap n = some (0, w.heap) ∧ ¬ Fits bs n) ∨
      ∃ c bs' m', kmalloc w.heap n = some (BitVec.ofNat 32 (c.addr + 16), ⟨m', kheapStart⟩) ∧
        BitVec.ofNat 32 (c.addr + 16) ≠ 0 ∧ Fits bs n ∧ (∀ b ∈ bs', HeaderAt m' b) ∧
        Placed 16 8 ((n.toNat + 7) / 8 * 8) kheapStart.toNat kheapStop bs c bs' := by
  obtain ⟨⟨m, start⟩, live⟩ := w
  obtain rfl : start = link kheapStart.toNat := good.start
  have laid : Laid m bs := good.laid
  have guard : (n == 0 || decide (n > kheapSize) || link kheapStart.toNat == 0) = false ↔
      0 < n ∧ n ≤ kheapSize := by
    rw [show (link kheapStart.toNat == 0) = false from rfl]
    simp [lt_def, toNat_eq, le_def]
  simp only [kmalloc]
  by_cases sensible : 0 < n ∧ n ≤ kheapSize
  · have limit : n.toNat ≤ 0x800000 := sensible.2
    rw [guard.mpr sensible, roundUp_eq sensible.2]
    obtain ⟨full, result⟩ | ⟨c, bs', m', placed, result, headers, _⟩ := kmallocLoop_place
      laid.tiles laid.headers (n := (n.toNat + 7) / 8 * 8) (by omega) laid.few
    · refine .inl ⟨by rw [result]; rfl, fun fits => ?_⟩
      obtain ⟨b, member, roomy⟩ := fits.2.2
      exact place_eq_none.mp full b member roomy
    have spec := place_placed laid.tiles laid.sizes (by decide) (Nat.dvd_mul_left _ _) placed
    obtain ⟨low, high⟩ := (headers c spec.member).bounds
    refine .inr ⟨c, bs', m', by rw [result]; rfl, ?_, ⟨sensible.1, sensible.2, ?_⟩, headers, spec⟩
    · exact ofNat_ne_zero (by omega) (by rw [stop_eq]; omega)
    · by_contra none
      rw [place_eq_none.mpr fun b member roomy => none ⟨b, member, roomy⟩] at placed
      cases placed
  · rw [if_pos (of_not_eq_false (mt guard.mp sensible))]
    exact .inl ⟨rfl, fun fits => sensible ⟨fits.1, fits.2.1⟩⟩

theorem kmalloc_good (good : Good w bs) (size : U32) :
    ∃ w', w.step (.kmalloc size) = some w' ∧ ∃ bs, Good w' bs := by
  rw [World.step]
  obtain ⟨result, _⟩ | ⟨c, bs', m', result, nonzero, _, headers, spec⟩ := kmalloc_spec good size
  · exact ⟨w, by simp [result], bs, good⟩
  refine ⟨⟨⟨m', kheapStart⟩, (BitVec.ofNat 32 (c.addr + 16), size) :: w.live⟩, ?_, bs', ?_⟩
  · simp only [result, Option.map_some, beq_false_of_ne nonzero]
    rfl
  · constructor
    · rfl
    · exact ⟨spec.tiles, headers, spec.sizes⟩
    · exact spec.merged good.merged
    · rw [forall_mem_cons]
      have enough : size.toNat ≤ (size.toNat + 7) / 8 * 8 := by omega
      refine ⟨⟨c, spec.member, spec.used, rfl, enough.trans spec.enough⟩, ?_⟩
      intro e member
      obtain ⟨b, listed, used, pointer⟩ := good.held e member
      exact ⟨b, spec.kept b listed used, used, pointer⟩
    · rw [pairwise_cons]
      refine ⟨fun e member same => ?_, good.distinct⟩
      obtain ⟨b, listed, used, pointer, _⟩ := good.held e member
      obtain ⟨d, old, free, origin⟩ := spec.origin
      obtain ⟨_, high⟩ := (headers c spec.member).bounds
      have addr := dataPtr_inj (good.laid.headers b listed) (c := c) (by rw [stop_eq]; omega)
        (pointer.symm.trans same.symm)
      obtain rfl | before | after := good.laid.tiles.apart listed old
      · cases used.symm.trans free
      · omega
      · omega

/-- Freeing, once heap_guard has let the pointer through: whatever the header
was, the pointers that stay live keep their blocks. -/
theorem Good.merge {bs' : List Block} (good : Good w bs) (p : U32) (laid : Laid m bs')
    (kept : ∀ b ∈ bs, b.free = false → p ≠ BitVec.ofNat 32 (b.addr + 16) → b ∈ bs') :
    ∃ heap bs', (mergeLoop rounds m w.heap.heapStart).map (fun m => { w.heap with mem := m }) =
      some heap ∧ Good ⟨heap, w.live.filter (·.1 != p)⟩ bs' := by
  obtain ⟨m', bs'', result, laid', merged, still⟩ := laid.merge
  refine ⟨⟨m', kheapStart⟩, bs'', by simp [good.start, result], rfl, laid', merged, ?_, ?_⟩
  · intro e member
    obtain ⟨listed, other⟩ := mem_filter.mp member
    obtain ⟨b, old, used, pointer, enough⟩ := good.held e listed
    refine ⟨b, still b (kept b old used ?_) used, used, pointer, enough⟩
    rw [← pointer]
    exact fun same => absurd same.symm (by simpa using other)
  · exact good.distinct.filter _

theorem HeaderAt.dataPtr (header : HeaderAt m b) :
    (BitVec.ofNat 32 (b.addr + 16)).toNat = b.addr + 16 ∧
      BitVec.ofNat 32 (b.addr + 16) - headerSize = ptr b := by
  obtain ⟨low, high⟩ := header.bounds
  have value : (BitVec.ofNat 32 (b.addr + 16)).toNat = b.addr + 16 := by
    rw [toNat_ofNat]
    omega
  refine ⟨value, ?_⟩
  rw [ofNat_add]
  exact BitVec.add_sub_cancel _ _

theorem HeaderAt.room (header : HeaderAt m b) :
    room m (BitVec.ofNat 32 (b.addr + 16)) = b.size := by
  obtain ⟨low, high⟩ := header.bounds
  rw [Mem.room, header.dataPtr.2, header.size, toNat_ofNat]
  omega

theorem kfree_good (good : Good w bs) (p : U32) :
    ∃ w', w.step (.kfree p) = some w' ∧ ∃ bs, Good w' bs := by
  have unchanged : Good ⟨w.heap, w.live.filter (·.1 != p)⟩ bs :=
    ⟨good.start, good.laid, good.merged, fun e member => good.held e (mem_filter.mp member).1,
      good.distinct.filter _⟩
  simp only [World.step, kfree]
  split
  · exact ⟨_, rfl, bs, unchanged⟩
  split
  · rename_i ok
    have freed : ∃ bs', Laid (setIsFree w.heap.mem (p - headerSize) 1) bs' ∧
        ∀ b ∈ bs, b.free = false → p ≠ BitVec.ofNat 32 (b.addr + 16) → b ∈ bs' := by
      obtain ⟨b, member, used, rfl⟩ | ⟨b, member, low, high⟩ := good.laid.accepted ok
      · rw [(good.laid.headers b member).dataPtr.2]
        refine ⟨_, good.laid.release member, fun c listed _ other => release_kept listed ?_⟩
        exact fun same => other (by rw [same])
      · refine ⟨bs, good.laid.write member fun x outside => ?_, fun c listed _ _ => listed⟩
        exact setField_outside (by omega)
    obtain ⟨bs', laid, kept⟩ := freed
    obtain ⟨heap, bs'', result, better⟩ := good.merge p laid kept
    exact ⟨_, by rw [result]; rfl, bs'', better⟩
  · exact ⟨_, rfl, bs, unchanged⟩

theorem write_good (good : Good w bs) (p : U32) (offset : Nat) (bytes : List U8) :
    ∃ w', w.step (.write p offset bytes) = some w' ∧ ∃ bs, Good w' bs := by
  simp only [World.step]
  split
  · rename_i allowed
    simp only [and_eq_true, any_eq_true, beq_iff_eq, decide_eq_true_eq] at allowed
    obtain ⟨⟨e, member, rfl⟩, inside⟩ := allowed
    obtain ⟨b, listed, _, pointer, _⟩ := good.held e member
    have header := good.laid.headers b listed
    rw [pointer, header.room] at inside
    refine ⟨_, rfl, bs, good.start, good.laid.write listed fun x outside => ?_, good.merged, good.held,
      good.distinct⟩
    rw [pointer, header.dataPtr.1]
    obtain before | after := outside
    · exact Buffer.blit_before _ _ _ _ (by omega)
    · exact Buffer.blit_after _ _ _ _ (by omega)
  · exact ⟨w, rfl, bs, good⟩

theorem step_good (good : ∃ bs, Good w bs) (call : Call) :
    ∃ w', w.step call = some w' ∧ ∃ bs, Good w' bs := by
  obtain ⟨bs, good⟩ := good
  cases call with
  | kmalloc size => exact kmalloc_good good size
  | kfree p => exact kfree_good good p
  | write p offset bytes => exact write_good good p offset bytes

/-- What every step keeps, and lets go on, every run keeps. -/
theorem run_keeps {P : World → Prop}
    (keeps : ∀ {w}, P w → ∀ call, ∃ w', w.step call = some w' ∧ P w') (holds : P w)
    (calls : List Call) : ∃ w', w.run calls = some w' ∧ P w' := by
  induction calls generalizing w with
  | nil => exact ⟨w, rfl, holds⟩
  | cons call rest ih =>
    obtain ⟨w', result, next⟩ := keeps holds call
    obtain ⟨w'', ended, last⟩ := ih next
    exact ⟨w'', by simpa [World.run, result] using ended, last⟩

theorem init_good {backed : U32 → Bool} (all : allBacked backed) (m : Memory) :
    ∃ bs, Good ⟨kheapInit backed m, []⟩ bs := by
  obtain ⟨b, b_eq⟩ : ∃ b : Block, b = ⟨kheapStart.toNat, 0x7FFFF0, true⟩ := ⟨_, rfl⟩
  have finish : b.finish 16 = kheapStop := by
    rw [b_eq]
    decide
  have header : HeaderAt (setHeader m kheapStart (kheapSize - headerSize) 1 0) b := by
    have first : kheapStart = ptr b := by
      rw [b_eq]
      decide
    have size : kheapSize - headerSize = BitVec.ofNat 32 b.size := by
      rw [b_eq]
      decide
    have free : (1 : U32) = if b.free then 1 else 0 := by
      rw [b_eq]
      rfl
    rw [← link_stop, ← finish, first, size, free]
    apply setHeader_headerAt
    · rw [b_eq]
    · rw [finish]
  refine ⟨[b], ?_⟩
  rw [kheapInit, if_pos all]
  constructor
  · rfl
  · constructor
    · rw [tiles_cons, tiles_nil]
      exact ⟨by rw [b_eq], finish⟩
    · intro c member
      rw [mem_singleton.mp member]
      exact header
    · intro c member
      rw [mem_singleton.mp member, b_eq]
      decide
  · exact List.IsChain.singleton _
  · exact forall_mem_nil _
  · exact List.Pairwise.nil

end

/-! Without its pages the heap hands out nothing. -/

theorem step_unbacked {w : World} (empty : w.heap.heapStart = 0 ∧ w.live = []) (call : Call) :
    ∃ w', w.step call = some w' ∧ w'.heap.heapStart = 0 ∧ w'.live = [] := by
  obtain ⟨⟨m, first⟩, _⟩ := w
  obtain ⟨rfl, rfl⟩ := empty
  cases call with
  | kmalloc size => exact ⟨⟨⟨m, 0⟩, []⟩, by simp [World.step, kmalloc], rfl, rfl⟩
  | kfree p =>
    simp only [World.step, kfree]
    split
    · exact ⟨_, rfl, rfl, rfl⟩
    split <;> exact ⟨_, rfl, rfl, rfl⟩
  | write p offset bytes => exact ⟨_, rfl, rfl, rfl⟩

/-! What a reader of the heap sees. -/

/-- The headers reached from `h` on. -/
inductive Reached (m : Memory) : U32 → List Block → Prop where
  | stop : Reached m 0 []
  | block {h : U32} {rest : List Block} (real : h ≠ 0) (good : magic m h = kheapMagic)
      (tail : Reached m (next m h) rest) :
      Reached m h (⟨h.toNat, (size m h).toNat, isFree m h != 0⟩ :: rest)

variable {bs : List Block}

theorem Laid.reached {m : Memory} {start : Nat} (tiles : Tiles 16 start bs kheapStop)
    (headers : ∀ b ∈ bs, HeaderAt m b) : Reached m (link start) bs := by
  generalize stop : kheapStop = stop at tiles
  induction tiles with
  | nil =>
    rw [← stop]
    exact .stop
  | @cons b rest stop tail ih =>
    obtain ⟨header, later⟩ := forall_mem_cons.mp headers
    obtain ⟨low, high⟩ := header.bounds
    have same : b = ⟨(ptr b).toNat, (size m (ptr b)).toNat, isFree m (ptr b) != 0⟩ := by
      rw [toNat_ptr header.high, header.size, toNat_ofNat, mod_eq_of_lt (by omega), bne,
        header.isFree_eq_zero, Bool.not_not]
    have onward : Reached m (next m (ptr b)) rest := by
      rw [header.next]
      exact ih later stop
    have walk := Reached.block header.ptr_ne_zero header.magic onward
    rw [header.link_addr]
    rwa [← same] at walk

/-- The headers form an address-ordered list that tiles the heap, and the data
of the live pointers is theirs alone. -/
structure Sound (w : World) : Prop where
  tiled : ∃ bs, Reached w.heap.mem w.heap.heapStart bs ∧
    Tiles 16 kheapStart.toNat bs kheapStop ∧ Multiples 8 bs ∧ Merged bs
  aligned : ∀ e ∈ w.live, e.1.toNat % 8 = 0
  enough : ∀ e ∈ w.live, e.2.toNat ≤ room w.heap.mem e.1
  inside : ∀ e ∈ w.live, kheapStart.toNat ≤ e.1.toNat ∧ e.1.toNat + room w.heap.mem e.1 ≤ kheapStop
  disjoint : w.live.Pairwise fun e f =>
    e.1.toNat + room w.heap.mem e.1 ≤ f.1.toNat ∨ f.1.toNat + room w.heap.mem f.1 ≤ e.1.toNat

theorem Good.sound {w : World} (good : Good w bs) : Sound w := by
  have pointers : ∀ e ∈ w.live, ∃ b ∈ bs, e.1.toNat = b.addr + 16 ∧
      room w.heap.mem e.1 = b.size ∧ e.2.toNat ≤ b.size := by
    intro e member
    obtain ⟨b, listed, _, pointer, enough⟩ := good.held e member
    have header := good.laid.headers b listed
    rw [pointer]
    exact ⟨b, listed, header.dataPtr.1, header.room, enough⟩
  constructor
  · refine ⟨bs, ?_, good.laid.tiles, good.laid.sizes, good.merged⟩
    rw [good.start]
    exact Laid.reached good.laid.tiles good.laid.headers
  · intro e member
    obtain ⟨b, listed, place, _⟩ := pointers e member
    have aligned := good.laid.addr_aligned listed
    omega
  · intro e member
    obtain ⟨b, _, _, length, enough⟩ := pointers e member
    omega
  · intro e member
    obtain ⟨b, listed, place, length, _⟩ := pointers e member
    obtain ⟨low, high⟩ := (good.laid.headers b listed).bounds
    rw [start_toNat, stop_eq]
    omega
  · refine good.distinct.imp_of_mem fun {e f} first second different => ?_
    obtain ⟨b, listed, place, length, _⟩ := pointers e first
    obtain ⟨c, listed', place', length', _⟩ := pointers f second
    obtain rfl | before | after := good.laid.tiles.apart listed listed'
    · exact absurd (eq_of_toNat_eq (place.trans place'.symm)) different
    · omega
    · omega

/-- Every run goes on; a heap that did not get its pages hands out nothing. -/
theorem run_good (backed : U32 → Bool) (m : Memory) (calls : List Call) :
    ∃ w, World.run ⟨kheapInit backed m, []⟩ calls = some w ∧
      (allBacked backed ∧ (∃ bs, Good w bs) ∨
        allBacked backed = false ∧ w.heap.heapStart = 0 ∧ w.live = []) := by
  cases all : allBacked backed with
  | true =>
    obtain ⟨w, result, good⟩ := run_keeps step_good (init_good all m) calls
    exact ⟨w, result, .inl ⟨rfl, good⟩⟩
  | false =>
    have start : (kheapInit backed m).heapStart = 0 := by simp [kheapInit, all]
    generalize kheapInit backed m = heap at start
    obtain ⟨w, result, empty⟩ := run_keeps (w := ⟨heap, []⟩) step_unbacked ⟨start, rfl⟩ calls
    exact ⟨w, result, .inr ⟨rfl, empty⟩⟩

/-- Every run of kmalloc, kfree and writes by owners goes on, and leaves the
heap sound. -/
theorem kheap_stays_sound (backed : U32 → Bool) (m : Memory) (calls : List Call) :
    ∃ w, World.run ⟨kheapInit backed m, []⟩ calls = some w ∧
      if allBacked backed then Sound w else w.heap.heapStart = 0 ∧ w.live = [] := by
  obtain ⟨w, result, ⟨all, bs, good⟩ | ⟨missing, empty⟩⟩ := run_good backed m calls
  · exact ⟨w, result, by rw [if_pos all]; exact good.sound⟩
  · exact ⟨w, result, by rw [missing]; exact empty⟩

/-- A freed block is split for a smaller request. -/
example :
    (World.run ⟨kheapInit (fun _ => true) (fun _ => 0), []⟩
      [.kmalloc 100, .kmalloc 5, .kfree 0x1000010, .kmalloc 20]).map (·.live) =
      some [(0x1000010, 20), (0x1000088, 5)] := by
  decide +kernel

/-- kmalloc(n) fails only if no free block is long enough, as the statistics
have it; and the statistics count every byte of the heap. -/
theorem kmalloc_complete (backed : U32 → Bool) (m : Memory) (calls : List Call) :
    ∃ w t, World.run ⟨kheapInit backed m, []⟩ calls = some w ∧ kheapGetStats w.heap = some t ∧
      (∀ n, (∃ p heap, kmalloc w.heap n = some (p, heap) ∧ p ≠ 0) ↔
        0 < n ∧ n ≤ kheapSize ∧ (n.toNat + 7) / 8 * 8 ≤ t.largestFree.toNat) ∧
      t.corrupted = 0 ∧ t.total = if allBacked backed then kheapSize.toNat else 0 := by
  have grows {n : U32} (some : 0 < n) : ¬ (n.toNat + 7) / 8 * 8 ≤ 0 := by
    have : 0 < n.toNat := some
    omega
  obtain ⟨w, result, ⟨all, bs, good⟩ | ⟨missing, start, _⟩⟩ := run_good backed m calls
  · have laid := good.laid
    obtain ⟨t, stats, counted⟩ :=
      statsLoop_counted laid.tiles laid.headers laid.few ⟨0, 0, 0, 0, 0, 0⟩ (by decide)
    have first : w.heap.heapStart = link kheapStart.toNat := good.start
    refine ⟨w, t, result, by rw [kheapGetStats, first, stats], fun n => ?_, counted.corrupted, ?_⟩
    · have fits : 0 < n ∧ n ≤ kheapSize ∧ (n.toNat + 7) / 8 * 8 ≤ t.largestFree.toNat ↔
          Fits bs n := by
        rw [counted.largest]
        exact and_congr_right fun some => and_congr_right fun _ => or_iff_right (grows some)
      rw [fits]
      obtain ⟨failed, none⟩ | ⟨c, _, m', given, nonzero, served, _⟩ := kmalloc_spec good n
      · simp [failed, none]
      · exact ⟨fun _ => served, fun _ => ⟨_, _, given, nonzero⟩⟩
    · rw [counted.total, if_pos all]
      rfl
  · refine ⟨w, ⟨0, 0, 0, 0, 0, 0⟩, result, by rw [kheapGetStats, start]; rfl, fun n => ?_, rfl, ?_⟩
    · have failed : kmalloc w.heap n = some (0, w.heap) := by simp [kmalloc, start]
      constructor
      · rintro ⟨p, heap, given, nonzero⟩
        cases failed.symm.trans given
        exact absurd rfl nonzero
      · exact fun fits => absurd fits.2.2 (grows fits.1)
    · rw [missing]
      rfl

end UzOS.Mem
