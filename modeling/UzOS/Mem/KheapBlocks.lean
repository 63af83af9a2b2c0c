import UzOS.Mem.Kheap

/-! The headers in memory and the blocks they describe: what the loops of
kmalloc and kfree do to them. -/
namespace UzOS.Mem

open List Nat
open Tiling

def kheapStop : Nat := kheapStart.toNat + kheapSize.toNat

/-- The next pointer to the block at `a`: NULL at the end of the heap. -/
def link (a : Nat) : U32 := if a = kheapStop then 0 else BitVec.ofNat 32 a

abbrev ptr (b : Block) : U32 := BitVec.ofNat 32 b.addr

/-- The header of block `b`. -/
structure HeaderAt (m : Memory) (b : Block) : Prop where
  low : kheapStart.toNat ≤ b.addr
  high : b.finish 16 ≤ kheapStop
  magic : magic m (ptr b) = kheapMagic
  size : size m (ptr b) = BitVec.ofNat 32 b.size
  isFree : isFree m (ptr b) = if b.free then 1 else 0
  next : next m (ptr b) = link (b.finish 16)

section
variable {m m' : Memory} {b c : Block}

theorem start_toNat : kheapStart.toNat = 0x1000000 := rfl

theorem stop_eq : kheapStop = 0x1800000 := rfl

theorem HeaderAt.bounds (header : HeaderAt m b) :
    0x1000000 ≤ b.addr ∧ b.addr + 16 + b.size ≤ 0x1800000 :=
  ⟨header.low, header.high⟩

theorem toNat_ptr (high : b.finish 16 ≤ kheapStop) : (ptr b).toNat = b.addr := by
  rw [Block.finish, stop_eq] at high
  rw [BitVec.toNat_ofNat]
  omega

theorem link_of_lt {a : Nat} (inside : a < kheapStop) : link a = BitVec.ofNat 32 a :=
  if_neg (by omega)

theorem link_stop : link kheapStop = 0 := if_pos rfl

theorem ofNat_ne_zero {a : Nat} (low : 0 < a) (high : a ≤ kheapStop) : BitVec.ofNat 32 a ≠ 0 := by
  intro zero
  have := congrArg BitVec.toNat zero
  rw [stop_eq] at high
  simp only [BitVec.toNat_ofNat, BitVec.ofNat_eq_ofNat] at this
  omega

section
variable (header : HeaderAt m b)
include header

theorem HeaderAt.link_addr : link b.addr = ptr b := by
  obtain ⟨low, high⟩ := header.bounds
  exact link_of_lt (by rw [stop_eq]; omega)

theorem HeaderAt.ptr_ne_zero : ptr b ≠ 0 := by
  obtain ⟨low, high⟩ := header.bounds
  exact ofNat_ne_zero (by omega) (by rw [stop_eq]; omega)

omit header in
theorem field_setField (j k : Nat) (m : Memory) (h v : U32) :
    field j (setField k m h v) h = if j = k then v else field j m h := by
  rw [field, setField, field]
  split
  · rename_i same
    rw [same, Memory.word_setWord]
  · exact Memory.word_setWord_of_apart _ (by omega)

omit header in
theorem setField_outside {k : Nat} {m : Memory} {h v : U32} {x : Nat}
    (outside : x < h.toNat + 4 * k ∨ h.toNat + 4 * k + 4 ≤ x) : setField k m h v x = m x :=
  Memory.setWord_outside v outside

/-- A header is only its sixteen bytes. -/
theorem HeaderAt.frame (same : ∀ x, b.addr ≤ x → x < b.addr + 16 → m' x = m x) : HeaderAt m' b := by
  have fields : ∀ k, k < 4 → field k m' (ptr b) = field k m (ptr b) := by
    intro k inside
    rw [field, field, toNat_ptr header.high]
    exact Memory.word_congr fun x low high => same x (by omega) (by omega)
  exact ⟨header.low, header.high, (fields 0 (by omega)).trans header.magic,
    (fields 1 (by omega)).trans header.size, (fields 2 (by omega)).trans header.isFree,
    (fields 3 (by omega)).trans header.next⟩

theorem HeaderAt.setFree (free : Bool) :
    HeaderAt (setIsFree m (ptr b) (if free then 1 else 0)) { b with free := free } := by
  obtain ⟨low, high, magic, size, _, next⟩ := header
  constructor <;> simp_all [Mem.magic, Mem.size, Mem.isFree, Mem.next, setIsFree, field_setField,
    Block.finish]

variable {n : Nat}

theorem HeaderAt.resize (fits : b.addr + 16 + n ≤ kheapStop) :
    HeaderAt (setNext (setSize m (ptr b) (BitVec.ofNat 32 n)) (ptr b) (link (b.addr + 16 + n)))
      { b with size := n } := by
  obtain ⟨low, _, magic, _, isFree, _⟩ := header
  constructor <;> simp_all [Mem.magic, Mem.size, Mem.isFree, Mem.next, setSize, setNext,
    field_setField, Block.finish]

omit header in
theorem setHeader_headerAt (m : Memory) (low : kheapStart.toNat ≤ b.addr)
    (high : b.finish 16 ≤ kheapStop) :
    HeaderAt (setHeader m (ptr b) (BitVec.ofNat 32 b.size) (if b.free then 1 else 0)
      (link (b.finish 16))) b := by
  constructor <;> simp_all [Mem.magic, Mem.size, Mem.isFree, Mem.next, setHeader, setMagic,
    setSize, setIsFree, setNext, field_setField]

omit header in
theorem setHeader_outside {m : Memory} {h size isFree next : U32} {x : Nat}
    (outside : x < h.toNat ∨ h.toNat + 16 ≤ x) : setHeader m h size isFree next x = m x := by
  simp only [setHeader, setNext, setIsFree, setSize, setMagic]
  rw [setField_outside (by omega), setField_outside (by omega),
    setField_outside (by omega), setField_outside (by omega)]

theorem HeaderAt.blockOk : defHeapBlockOk m (ptr b) := by
  simp only [defHeapBlockOk, header.magic, header.next]
  by_cases last : b.finish 16 = kheapStop
  · simp [last, link_stop]
  have inside : b.finish 16 < kheapStop := lt_of_le_of_ne header.high last
  rw [link_of_lt inside]
  rw [stop_eq, Block.finish] at inside
  have above : BitVec.ofNat 32 (b.finish 16) > ptr b := by
    simp only [BitVec.lt_def, BitVec.toNat_ofNat, Block.finish]
    omega
  have below : BitVec.ofNat 32 (b.finish 16) < kheapStart + kheapSize := by
    have stop : (kheapStart + kheapSize).toNat = 0x1800000 := rfl
    rw [BitVec.lt_def, BitVec.toNat_ofNat, Block.finish]
    omega
  simp [above, below]

theorem HeaderAt.isFree_eq_zero : (Mem.isFree m (ptr b) == 0) = !b.free := by
  rw [header.isFree]
  cases b.free <;> rfl

theorem HeaderAt.size_lt (small : n < 2 ^ 32) :
    Mem.size m (ptr b) < BitVec.ofNat 32 n ↔ b.size < n := by
  obtain ⟨low, high⟩ := header.bounds
  rw [header.size, BitVec.lt_def, BitVec.toNat_ofNat, BitVec.toNat_ofNat]
  omega

theorem HeaderAt.splits_iff (small : n + 32 < 2 ^ 32) :
    Mem.size m (ptr b) ≥ BitVec.ofNat 32 n + headerSize + minSplit ↔ n + 16 + 16 ≤ b.size := by
  obtain ⟨low, high⟩ := header.bounds
  have sum : (BitVec.ofNat 32 n + headerSize + minSplit).toNat = n + 16 + 16 := by
    simp only [headerSize, minSplit, BitVec.toNat_add, BitVec.toNat_ofNat, BitVec.ofNat_eq_ofNat]
    omega
  rw [ge_iff_le, BitVec.le_def, header.size, BitVec.toNat_ofNat]
  omega

/-- What kmalloc does to a block it splits. -/
theorem takeBlock_split (fits : n + 16 + 16 ≤ b.size) :
    HeaderAt (takeBlock m (ptr b) (BitVec.ofNat 32 n)) ⟨b.addr, n, false⟩ ∧
      HeaderAt (takeBlock m (ptr b) (BitVec.ofNat 32 n)) ⟨b.addr + 16 + n, b.size - n - 16, true⟩ ∧
      ∀ x, x < b.addr ∨ b.finish 16 ≤ x → takeBlock m (ptr b) (BitVec.ofNat 32 n) x = m x := by
  obtain ⟨low, high⟩ := header.bounds
  have place := toNat_ptr header.high
  obtain ⟨rest, rest_eq⟩ : ∃ rest : Block, rest = ⟨b.addr + 16 + n, b.size - n - 16, true⟩ :=
    ⟨_, rfl⟩
  have restAddr : rest.addr = b.addr + 16 + n := by rw [rest_eq]
  have restData : rest.size = b.size - n - 16 := by rw [rest_eq]
  have restPtr : dataOf (ptr b) + BitVec.ofNat 32 n = ptr rest := by
    rw [ptr, ptr, restAddr, dataOf, headerSize, BitVec.ofNat_add, BitVec.ofNat_add]
    rfl
  have restFinish : rest.finish 16 = b.finish 16 := by
    rw [Block.finish, Block.finish, restAddr, restData]
    omega
  have restSize : Mem.size m (ptr b) - BitVec.ofNat 32 n - headerSize = BitVec.ofNat 32 rest.size := by
    rw [header.size, restData]
    apply BitVec.eq_of_toNat_eq
    simp only [headerSize, BitVec.toNat_sub, BitVec.toNat_ofNat, BitVec.ofNat_eq_ofNat]
    omega
  have restPlace : (ptr rest).toNat = b.addr + 16 + n := by
    rw [toNat_ptr (by rw [restFinish]; exact header.high), restAddr]
  obtain ⟨m₁, m₁_eq⟩ : ∃ m₁, m₁ =
      setHeader m (ptr rest) (BitVec.ofNat 32 rest.size) (if rest.free then 1 else 0)
        (link (rest.finish 16)) := ⟨_, rfl⟩
  have taken : takeBlock m (ptr b) (BitVec.ofNat 32 n) =
      setIsFree (setNext (setSize m₁ (ptr b) (BitVec.ofNat 32 n)) (ptr b)
        (link (b.addr + 16 + n))) (ptr b) (if false then 1 else 0) := by
    have inside : b.addr + 16 + n < kheapStop := by
      rw [stop_eq]
      omega
    rw [takeBlock, if_pos ((header.splits_iff (by omega)).mpr fits), restPtr, restSize, header.next,
      ← restFinish, link_of_lt inside, m₁_eq, rest_eq]
    rfl
  have outside : ∀ x, x < b.addr ∨ b.addr + 16 ≤ x →
      takeBlock m (ptr b) (BitVec.ofNat 32 n) x = m₁ x := by
    intro x outside
    rw [taken, setIsFree, setField_outside (by omega), setNext,
      setField_outside (by omega), setSize, setField_outside (by omega)]
  have first : HeaderAt m₁ b := header.frame fun x low high => by
    rw [m₁_eq, setHeader_outside (by omega)]
  have second : HeaderAt m₁ rest := by
    rw [m₁_eq]
    apply setHeader_headerAt
    · rw [restAddr, start_toNat]
      omega
    · rw [restFinish]
      exact header.high
  refine ⟨?_, ?_, fun x away => ?_⟩
  · rw [taken]
    have resized := first.resize (n := n) (by rw [stop_eq]; omega)
    exact resized.setFree false
  · rw [← rest_eq]
    exact second.frame fun x low high => outside x (by omega)
  · rw [Block.finish] at away
    rw [outside x (by omega), m₁_eq, setHeader_outside]
    rw [restPlace]
    omega

theorem takeBlock_entire (small : n + 32 < 2 ^ 32) (tight : ¬ n + 16 + 16 ≤ b.size) :
    HeaderAt (takeBlock m (ptr b) (BitVec.ofNat 32 n)) { b with free := false } ∧
      ∀ x, x < b.addr ∨ b.finish 16 ≤ x → takeBlock m (ptr b) (BitVec.ofNat 32 n) x = m x := by
  have place := toNat_ptr header.high
  rw [takeBlock, if_neg (mt (header.splits_iff small).mp tight)]
  refine ⟨header.setFree false, fun x away => ?_⟩
  rw [Block.finish] at away
  exact setField_outside (by omega)

/-- What kfree does to two neighbours it merges. -/
theorem joinBlocks_headerAt (second : HeaderAt m c)
    (seam : b.addr + 16 + b.size = c.addr) :
    HeaderAt (joinBlocks m (ptr b) (ptr c)) { b with size := b.size + (16 + c.size) } ∧
      ∀ x, x < b.addr ∨ b.addr + 16 ≤ x → joinBlocks m (ptr b) (ptr c) x = m x := by
  have place := toNat_ptr header.high
  have sum : Mem.size m (ptr b) + (headerSize + Mem.size m (ptr c)) =
      BitVec.ofNat 32 (b.size + (16 + c.size)) := by
    rw [header.size, second.size, BitVec.ofNat_add, BitVec.ofNat_add]
    rfl
  have finish : b.addr + 16 + (b.size + (16 + c.size)) = c.finish 16 := by
    rw [Block.finish]
    omega
  have onward : Mem.next (setSize m (ptr b) (BitVec.ofNat 32 (b.size + (16 + c.size)))) (ptr c) =
      link (b.addr + 16 + (b.size + (16 + c.size))) := by
    rw [finish]
    exact (second.frame fun x low _ => setField_outside (by omega)).next
  have joined : joinBlocks m (ptr b) (ptr c) =
      setNext (setSize m (ptr b) (BitVec.ofNat 32 (b.size + (16 + c.size)))) (ptr b)
        (link (b.addr + 16 + (b.size + (16 + c.size)))) := by
    rw [joinBlocks, sum, onward]
  rw [joined]
  refine ⟨header.resize (by rw [finish]; exact second.high), fun x outside => ?_⟩
  rw [setNext, setField_outside (by omega), setSize, setField_outside (by omega)]

end

end

section
variable {m : Memory} {b : Block} {bs rest : List Block} {start n rounds : Nat}

/-- The loop of kmalloc is first fit. -/
theorem kmallocLoop_place (tiles : Tiles 16 start bs kheapStop) (headers : ∀ b ∈ bs, HeaderAt m b)
    (small : n + 32 < 2 ^ 32) (enough : bs.length < rounds) :
    (place 16 16 n bs = none ∧
        kmallocLoop (BitVec.ofNat 32 n) m rounds (link start) = some (0, m)) ∨
      ∃ c bs' m', place 16 16 n bs = some (c, bs') ∧
        kmallocLoop (BitVec.ofNat 32 n) m rounds (link start) =
          some (BitVec.ofNat 32 (c.addr + 16), m') ∧
        (∀ b ∈ bs', HeaderAt m' b) ∧ ∀ x < start, m' x = m x := by
  generalize stop : kheapStop = stop at tiles
  induction tiles generalizing rounds with
  | nil =>
    obtain _ | rounds := rounds
    · cases enough
    subst stop
    exact .inl ⟨rfl, by simp [kmallocLoop, link_stop]⟩
  | @cons b rest stop tail ih =>
    subst stop
    obtain _ | rounds := rounds
    · cases enough
    obtain ⟨header, later⟩ := forall_mem_cons.mp headers
    have nonzero : (ptr b == 0) = false := beq_false_of_ne header.ptr_ne_zero
    have beyond : ∀ c ∈ rest, b.finish 16 ≤ c.addr := fun c member => (tail.bounds member).1
    rw [header.link_addr]
    simp only [kmallocLoop, nonzero, header.blockOk, header.isFree_eq_zero, header.next, place]
    by_cases fits : b.free ∧ n ≤ b.size
    · have notLess : ¬ Mem.size m (ptr b) < BitVec.ofNat 32 n := by
        rw [header.size_lt (by omega)]
        omega
      have data : dataOf (ptr b) = BitVec.ofNat 32 (b.addr + 16) := by
        rw [BitVec.ofNat_add]
        rfl
      simp only [fits, notLess, data]
      right
      by_cases roomy : n + 16 + 16 ≤ b.size
      · obtain ⟨first, second, outside⟩ := takeBlock_split header roomy
        refine ⟨_, _, _, if_pos roomy, rfl, ?_, fun x before => outside x (.inl before)⟩
        rw [forall_mem_cons, forall_mem_cons]
        exact ⟨first, second, fun c member => (later c member).frame fun x low _ =>
          outside x (.inr (le_trans (beyond c member) low))⟩
      · obtain ⟨first, outside⟩ := takeBlock_entire header small roomy
        refine ⟨_, _, _, if_neg roomy, rfl, ?_, fun x before => outside x (.inl before)⟩
        rw [forall_mem_cons]
        exact ⟨first, fun c member => (later c member).frame fun x low _ =>
          outside x (.inr (le_trans (beyond c member) low))⟩
    · have skip : (!b.free || decide (Mem.size m (ptr b) < BitVec.ofNat 32 n)) := by
        by_cases free : b.free
        · simp only [free, true_and, not_le] at fits
          simp [(header.size_lt (show n < 2 ^ 32 by omega)).mpr fits]
        · simp [free]
      simp only [skip, if_neg fits]
      obtain ⟨full, nothing⟩ | ⟨c, bs', m', placed, result, kept, outside⟩ :=
        ih later (lt_of_succ_lt_succ enough) rfl
      · exact .inl ⟨by rw [full], nothing⟩
      rw [Block.finish] at outside
      refine .inr ⟨c, b :: bs', m', by rw [placed], result, ?_, fun x before => outside x (by omega)⟩
      rw [forall_mem_cons]
      exact ⟨header.frame fun x _ high => outside x (by omega), kept⟩

/-- The loop of kfree merges. -/
theorem mergeLoop_mergeFrom (tiles : Tiles 16 b.addr (b :: rest) kheapStop)
    (headers : ∀ c ∈ b :: rest, HeaderAt m c) (enough : rest.length < rounds) :
    ∃ m', mergeLoop rounds m (ptr b) = some m' ∧
      (∀ c ∈ mergeFrom 16 b rest, HeaderAt m' c) ∧ ∀ x < b.addr, m' x = m x := by
  induction rest generalizing b m rounds with
  | nil =>
    obtain _ | rounds := rounds
    · cases enough
    have header := headers b mem_cons_self
    have last : b.finish 16 = kheapStop := tiles_nil.mp (tiles_cons.mp tiles).2
    have zero : Mem.next m (ptr b) = 0 := by rw [header.next, last, link_stop]
    exact ⟨m, by simp [mergeLoop, zero], headers, fun _ _ => rfl⟩
  | cons c rest ih =>
    obtain _ | rounds := rounds
    · cases enough
    obtain ⟨header, later⟩ := forall_mem_cons.mp headers
    obtain ⟨second, others⟩ := forall_mem_cons.mp later
    have tail := (tiles_cons.mp tiles).2
    have seam : b.addr + 16 + b.size = c.addr := (tiles_cons.mp tail).1
    have nonzero : (ptr b == 0) = false := beq_false_of_ne header.ptr_ne_zero
    have following : Mem.next m (ptr b) = ptr c := by
      rw [header.next, Block.finish, seam, second.link_addr]
    have nonzero' : (ptr c == 0) = false := beq_false_of_ne second.ptr_ne_zero
    simp only [mergeLoop, nonzero, following, nonzero', second.blockOk, bne, header.isFree_eq_zero,
      second.isFree_eq_zero, Bool.not_not, mergeFrom]
    by_cases both : b.free ∧ c.free
    · have together : (b.free && c.free) := by simp [both]
      rw [if_pos together, if_pos both]
      obtain ⟨joined, unchanged⟩ := joinBlocks_headerAt header second seam
      have beyond : ∀ d ∈ rest, c.finish 16 ≤ d.addr :=
        fun d member => ((tiles_cons.mp tail).2.bounds member).1
      have kept : ∀ d ∈ rest, HeaderAt (joinBlocks m (ptr b) (ptr c)) d := by
        intro d member
        have after := beyond d member
        rw [Block.finish] at after
        exact (others d member).frame fun x low _ => unchanged x (.inr (by omega))
      obtain ⟨m', result, merged, outside⟩ :=
        ih tiles.join (forall_mem_cons.mpr ⟨joined, kept⟩) (lt_of_succ_lt_succ enough)
      exact ⟨m', result, merged, fun x before =>
        (outside x before).trans (unchanged x (.inl before))⟩
    · have apart : (b.free && c.free) = false := by simpa using both
      simp only [apart, if_neg both]
      rw [Block.finish, seam] at tail
      obtain ⟨m', result, merged, outside⟩ := ih tail later (lt_of_succ_lt_succ enough)
      refine ⟨m', result, ?_, fun x before => outside x (by omega)⟩
      rw [forall_mem_cons]
      exact ⟨header.frame fun x _ high => outside x (by omega), merged⟩

/-- The bytes of the blocks counted, with their headers. -/
def Stats.total (s : Stats) : Nat :=
  s.bytesUsed.toNat + s.bytesFree.toNat + 16 * (s.blocksUsed.toNat + s.blocksFree.toNat)

/-- `t` is `s` with the blocks `bs` of `n` bytes in all counted. -/
structure Counted (bs : List Block) (n : Nat) (s t : Stats) : Prop where
  total : t.total = s.total + n
  corrupted : t.corrupted = s.corrupted
  largest : ∀ k, k ≤ t.largestFree.toNat ↔
    k ≤ s.largestFree.toNat ∨ ∃ b ∈ bs, b.free = true ∧ k ≤ b.size

theorem HeaderAt.counted (header : HeaderAt m b) (s : Stats)
    (small : s.total + (16 + b.size) < 2 ^ 32) :
    Counted [b] (16 + b.size) s (s.count m (ptr b)) := by
  obtain ⟨low, high⟩ := header.bounds
  have size : (BitVec.ofNat 32 b.size).toNat = b.size := by
    rw [BitVec.toNat_ofNat]
    omega
  rw [Stats.count, bne, header.isFree_eq_zero, header.size, Bool.not_not]
  simp only [Stats.total] at small
  cases free : b.free with
  | false =>
    refine ⟨?_, rfl, fun k => by simp [free]⟩
    simp only [Stats.total, Bool.false_eq_true, if_false]
    bv_omega
  | true =>
    refine ⟨?_, rfl, fun k => ?_⟩
    · simp only [Stats.total, if_true]
      bv_omega
    · simp only [if_true, mem_singleton, exists_eq_left, free, true_and]
      split <;> bv_omega

theorem statsLoop_counted (tiles : Tiles 16 start bs kheapStop) (headers : ∀ b ∈ bs, HeaderAt m b)
    (enough : bs.length < rounds) (s : Stats) (small : s.total + (kheapStop - start) < 2 ^ 32) :
    ∃ t, statsLoop m rounds (link start) s = some t ∧ Counted bs (kheapStop - start) s t := by
  generalize stop : kheapStop = stop at tiles small
  induction tiles generalizing rounds s with
  | nil =>
    obtain _ | rounds := rounds
    · cases enough
    subst stop
    exact ⟨s, by simp [statsLoop, link_stop], by simp, rfl, by simp⟩
  | @cons b rest stop tail ih =>
    subst stop
    obtain _ | rounds := rounds
    · cases enough
    obtain ⟨header, later⟩ := forall_mem_cons.mp headers
    obtain ⟨low, high⟩ := header.bounds
    have ends := stop_eq
    have finish : b.finish 16 = b.addr + 16 + b.size := rfl
    have first := header.counted s (by omega)
    obtain ⟨t, result, others⟩ := ih later (lt_of_succ_lt_succ enough) (s.count m (ptr b)) rfl
      (by rw [first.total]; omega)
    have nonzero : (ptr b == 0) = false := beq_false_of_ne header.ptr_ne_zero
    refine ⟨t, ?_, ?_, others.corrupted.trans first.corrupted, fun k => ?_⟩
    · rw [header.link_addr]
      simp only [statsLoop, nonzero, header.magic]
      rw [header.next]
      exact result
    · rw [others.total, first.total]
      omega
    · rw [others.largest, first.largest]
      simp [or_assoc]

end

end UzOS.Mem
