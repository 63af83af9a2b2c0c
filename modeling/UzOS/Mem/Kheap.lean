import UzOS.Lib.Memory
import UzOS.Lib.Tiling

/-! The kernel heap (core/kheap/kheap.c) over the bytes of memory. -/
namespace UzOS.Mem

abbrev Memory := Nat → U8

def pageSize : U32 := 0x1000
def kheapStart : U32 := 0x01000000
def kheapSize : U32 := 0x00800000
def kheapMagic : U32 := 0x14159265
def align : U32 := 8
def minSplit : U32 := 16
def headerSize : U32 := 16

/-! kheap_header_t at an address: magic, size, is_free, next. -/

/-- The words of a header. -/
def field (k : Nat) (m : Memory) (h : U32) : U32 := Memory.word m (h.toNat + 4 * k)
def setField (k : Nat) (m : Memory) (h v : U32) : Memory := Memory.setWord m (h.toNat + 4 * k) v

variable (m : Memory)

def magic (h : U32) : U32 := field 0 m h
def size (h : U32) : U32 := field 1 m h
def isFree (h : U32) : U32 := field 2 m h
def next (h : U32) : U32 := field 3 m h

def setMagic (h v : U32) : Memory := setField 0 m h v
def setSize (h v : U32) : Memory := setField 1 m h v
def setIsFree (h v : U32) : Memory := setField 2 m h v
def setNext (h v : U32) : Memory := setField 3 m h v

def roundUp (n : U32) : U32 := (n + align - 1) &&& ~~~(align - 1)

def dataOf (h : U32) : U32 := h + headerSize

/-- The heap's memory and heap_start. -/
structure Kheap where
  mem : Memory
  heapStart : U32

def setHeader (h size isFree next : U32) : Memory :=
  setNext (setIsFree (setSize (setMagic m h kheapMagic) h size) h isFree) h next

/-- The loop over the heap's pages: `backed` says whether the page at an offset
gets a frame and is mapped. -/
def allBacked (backed : U32 → Bool) : Bool :=
  (List.range (kheapSize.toNat / pageSize.toNat)).all fun k => backed (BitVec.ofNat 32 k * pageSize)

def kheapInit (backed : U32 → Bool) (m : Memory) : Kheap :=
  if allBacked backed then
    ⟨setHeader m kheapStart (kheapSize - headerSize) 1 0, kheapStart⟩
  else ⟨m, 0⟩

/-- heap_canary -/
def defHeapBlockOk (h : U32) : Bool :=
  if magic m h != kheapMagic then false
  else if next m h == 0 then true
  else decide (next m h > h) && decide (next m h < kheapStart + kheapSize)

/-- What kmalloc does with the block it found. -/
def takeBlock (b size : U32) : Memory :=
  let m :=
    if Mem.size m b ≥ size + headerSize + minSplit then
      let rest := dataOf b + size
      let m := setHeader m rest (Mem.size m b - size - headerSize) 1 (next m b)
      setNext (setSize m b size) b rest
    else m
  setIsFree m b 0

/-- The loop of kmalloc; `none` if it has not ended after the given rounds. -/
def kmallocLoop (size : U32) (m : Memory) : Nat → U32 → Option (U32 × Memory)
  | 0, _ => none
  | rounds + 1, b =>
    if b == 0 then some (0, m)
    else if !defHeapBlockOk m b then some (0, m)
    else if isFree m b == 0 || decide (Mem.size m b < size) then
      kmallocLoop size m rounds (next m b)
    else some (dataOf b, takeBlock m b size)

/-- More rounds than the heap has bytes. -/
def rounds : Nat := kheapSize.toNat + 1

def kmalloc (s : Kheap) (size : U32) : Option (U32 × Kheap) :=
  if size == 0 || decide (size > kheapSize) || s.heapStart == 0 then some (0, s)
  else (kmallocLoop (roundUp size) s.mem rounds s.heapStart).map fun r => (r.1, { s with mem := r.2 })

/-- heap_guard: inside the heap where a block's data can start, 8-byte aligned,
and with the header of a block in use before it. -/
def plausibleBlock (p : U32) : Bool :=
  if p < kheapStart + headerSize then false
  else if p ≥ kheapStart + kheapSize then false
  else p % 8 == 0

def headerAllows (h : U32) : Bool := magic m h == kheapMagic && isFree m h == 0

def defKfreeOk (p : U32) : Bool := plausibleBlock p && headerAllows m (p - headerSize)

/-- `b` takes in the block `c` after it. -/
def joinBlocks (b c : U32) : Memory :=
  let m := setSize m b (Mem.size m b + (headerSize + Mem.size m c))
  setNext m b (next m c)

/-- The loop of kfree that merges neighbouring free blocks. -/
def mergeLoop : Nat → Memory → U32 → Option Memory
  | 0, _, _ => none
  | rounds + 1, m, b =>
    if b == 0 || next m b == 0 then some m
    else if !defHeapBlockOk m (next m b) then some m
    else if isFree m b != 0 && isFree m (next m b) != 0 then
      mergeLoop rounds (joinBlocks m b (next m b)) b
    else mergeLoop rounds m (next m b)

def kfree (s : Kheap) (p : U32) : Option Kheap :=
  if p == 0 then some s
  else if defKfreeOk s.mem p then
    (mergeLoop rounds (setIsFree s.mem (p - headerSize) 1) s.heapStart).map
      fun m => { s with mem := m }
  else some s

/-- kheap_stats_t -/
structure Stats where
  blocksUsed : U32
  blocksFree : U32
  bytesUsed : U32
  bytesFree : U32
  largestFree : U32
  corrupted : U32

def Stats.count (s : Stats) (m : Memory) (b : U32) : Stats :=
  if isFree m b != 0 then
    { s with
      blocksFree := s.blocksFree + 1
      bytesFree := s.bytesFree + size m b
      largestFree := if size m b > s.largestFree then size m b else s.largestFree }
  else { s with blocksUsed := s.blocksUsed + 1, bytesUsed := s.bytesUsed + size m b }

def statsLoop (m : Memory) : Nat → U32 → Stats → Option Stats
  | 0, _, _ => none
  | rounds + 1, b, s =>
    if b == 0 then some s
    else if magic m b != kheapMagic then some { s with corrupted := 1 }
    else statsLoop m rounds (next m b) (s.count m b)

def kheapGetStats (s : Kheap) : Option Stats :=
  statsLoop s.mem rounds s.heapStart ⟨0, 0, 0, 0, 0, 0⟩

end UzOS.Mem
