import UzOS.Lib.Buffer

/-! The bytes of a RAM disk file (core/ramdisk/ramdisk.c): read, write, resize
and truncate, against a file as a sequence of bytes. -/
namespace UzOS.Fs

open Bool Buffer List

def ramdiskMaxFileSize : Nat := 64 * 1024
def firstCapacity : Nat := 256

/-- The fields of a vfs_node_t that hold its bytes. `data` is NULL exactly
while `capacity` is 0. -/
structure File where
  data : Nat → U8
  size : Nat
  capacity : Nat

/-- A file that ramdisk_create just made. -/
def File.fresh : File := ⟨fun _ => 0, 0, 0⟩

def ramdiskRead (f : File) (offset size : Nat) : List U8 :=
  if f.size ≤ offset then []
  else Buffer.slice f.data offset (if f.size - offset < size then f.size - offset else size)

/-- The loop that doubles the capacity. The 32 rounds are more than a 32-bit
number can double. -/
def doubled : Nat → Nat → Nat → Nat
  | 0, capacity, _ => capacity
  | fuel + 1, capacity, needed =>
    if capacity < needed then doubled fuel (capacity * 2) needed else capacity

/-- Make room for `needed` bytes; `alloc` says whether kmalloc finds memory.
The new buffer is cleared and gets the bytes of the file, nothing else. -/
def grow (alloc : Bool) (f : File) (needed : Nat) : Option File :=
  if needed ≤ f.capacity then some f
  else
    let capacity := doubled 32 (if f.capacity ≠ 0 then f.capacity else firstCapacity) needed
    let capacity := if ramdiskMaxFileSize < capacity then ramdiskMaxFileSize else capacity
    if alloc then some { f with data := Buffer.cleared 0 f.data f.size, capacity := capacity }
    else none

def defFileRangeOk (offset size limit : Nat) : Bool :=
  decide (offset ≤ limit) && decide (size ≤ limit - offset)

def ramdiskWrite (alloc : Bool) (f : File) (offset : Nat) (buf : List U8) : Nat × File :=
  if buf.isEmpty then (0, f)
  else if !defFileRangeOk offset buf.length ramdiskMaxFileSize then (0, f)
  else match grow alloc f (offset + buf.length) with
    | none => (0, f)
    | some g => (buf.length, { g with
        data := Buffer.blit g.data offset buf
        size := if g.size < offset + buf.length then offset + buf.length else g.size })

def ramdiskTruncate (f : File) : File := { f with size := 0 }

/-- `linked` is ours(file->parent): the file has a name in the RAM disk. -/
def ramdiskResize (alloc linked : Bool) (f : File) (size : Nat) : Int × File :=
  if !linked || ramdiskMaxFileSize < size then (-1, f)
  else if f.size < size then
    match grow alloc f size with
    | none => (-1, f)
    | some g => (0, { g with
        data := Buffer.blit g.data g.size (List.replicate (size - g.size) 0)
        size := size })
  else (0, { f with size := size })

/-- The calls on one file. -/
inductive FileOp where
  | read (offset size : Nat)
  | write (offset : Nat) (buf : List U8)
  | resize (size : Nat)
  | truncate

/-- Arguments within the limit of a file. -/
def FileOp.inRange : FileOp → Prop
  | .write offset buf => offset + buf.length ≤ ramdiskMaxFileSize
  | .resize size => size ≤ ramdiskMaxFileSize
  | _ => True

/-- The file after a call that finds memory, on a file that has a name. -/
def FileOp.apply (f : File) : FileOp → File
  | .read _ _ => f
  | .write offset buf => (ramdiskWrite true f offset buf).2
  | .resize size => (ramdiskResize true true f size).2
  | .truncate => ramdiskTruncate f

/-! A file as a sequence of bytes. -/

abbrev Contents := List U8

def Contents.read (s : Contents) (offset size : Nat) : List U8 := (s.drop offset).take size

def Contents.write (s : Contents) (offset : Nat) (bytes : List U8) : Contents :=
  Buffer.overwrite (Buffer.pad 0 s offset) offset bytes

def Contents.resize (s : Contents) (size : Nat) : Contents := (Buffer.pad 0 s size).take size

def FileOp.spec (s : Contents) : FileOp → Contents
  | .read _ _ => s
  | .write offset buf => s.write offset buf
  | .resize size => s.resize size
  | .truncate => []

/-- The bytes a file holds. -/
def File.contents (f : File) : Contents := Buffer.slice f.data 0 f.size

variable (f : File) (offset : Nat) {buf : List U8} {needed : Nat}

theorem ramdiskRead_contents (size : Nat) :
    ramdiskRead f offset size = f.contents.read offset size := by
  unfold ramdiskRead File.contents Contents.read
  split
  · rw [drop_eq_nil_of_le (by simpa), take_nil]
  rw [slice_drop _ _ _ _ (by omega), zero_add]
  split
  · rw [take_of_length_le (by simp; omega)]
  · rw [slice_take _ _ _ _ (by omega)]

/-- Reads tell everything about the contents. -/
theorem reads_iff (s : Contents) :
    (∀ offset size, ramdiskRead f offset size = s.read offset size) ↔ f.contents = s := by
  constructor
  · intro same
    have whole := same 0 (max f.size s.length)
    have length : f.contents.length = f.size := by simp [File.contents]
    rw [ramdiskRead_contents, Contents.read, Contents.read, drop_zero, drop_zero,
      take_of_length_le (by omega), take_of_length_le (by omega)] at whole
    exact whole
  · rintro rfl offset size
    exact ramdiskRead_contents f offset size

theorem write_slice (d : Nat → U8) (n offset : Nat) (buf : List U8) :
    Contents.write (Buffer.slice d 0 n) offset buf =
      Buffer.slice (Buffer.blit (Buffer.cleared 0 d n) offset buf) 0 (max n (offset + buf.length)) := by
  rw [Contents.write, pad_slice, overwrite_slice _ _ _ _ (by omega)]
  congr 1
  omega

theorem resize_slice (d : Nat → U8) (n size : Nat) :
    Contents.resize (Buffer.slice d 0 n) size = Buffer.slice (Buffer.cleared 0 d n) 0 size := by
  rw [Contents.resize, pad_slice, slice_take _ _ _ _ (by omega)]

/-! The calls against the sequence. -/

/-- Whether the buffer reads zero between the end of the file and `offset`. -/
def File.gapZero (f : File) (offset : Nat) : Bool :=
  (List.range offset).all fun i => decide (i < f.size) || f.data i == 0

/-- A call that leaves no byte of the old buffer in the file: a write that
starts past the end either moves to a new buffer or finds zeros in between. -/
def FileOp.clear (f : File) : FileOp → Bool
  | .write offset buf =>
    decide (offset ≤ f.size) ||
      (!buf.isEmpty && (decide (f.capacity < offset + buf.length) || f.gapZero offset))
  | _ => true

theorem gapZero_iff : f.gapZero offset ↔ ∀ i, f.size ≤ i → i < offset → f.data i = 0 := by
  simp only [File.gapZero, all_eq_true, mem_range, or_eq_true, decide_eq_true_eq, beq_iff_eq]
  constructor
  · intro zero i low high
    exact (zero i high).resolve_left (by omega)
  · intro zero i high
    by_cases low : i < f.size
    · exact .inl low
    · exact .inr (zero i (by omega) high)

theorem grow_stays (alloc : Bool) {f : File} (room : needed ≤ f.capacity) :
    grow alloc f needed = some f := by
  simp [grow, room]

theorem grow_moves {f : File} (full : f.capacity < needed) :
    ∃ capacity, grow true f needed =
      some { f with data := Buffer.cleared 0 f.data f.size, capacity := capacity } := by
  simp [grow, not_le.mpr full]

/-- Growing keeps every byte of the file. -/
theorem grow_keeps (needed : Nat) :
    ∃ g, grow true f needed = some g ∧ g.size = f.size ∧ ∀ i, i < f.size → g.data i = f.data i := by
  by_cases room : needed ≤ f.capacity
  · exact ⟨f, grow_stays true room, rfl, fun _ _ => rfl⟩
  obtain ⟨capacity, moved⟩ := grow_moves (Nat.lt_of_not_le room)
  exact ⟨_, moved, rfl, fun i low => by simp [Buffer.cleared, low]⟩

/-- The bytes a write leaves, in terms of the buffer it writes to. -/
theorem write_contents {f g : File} {offset : Nat} (some_bytes : buf ≠ [])
    (fits : offset + buf.length ≤ ramdiskMaxFileSize)
    (grown : grow true f (offset + buf.length) = some g) (size : g.size = f.size) :
    (ramdiskWrite true f offset buf).2.contents =
      Buffer.slice (Buffer.blit g.data offset buf) 0 (max f.size (offset + buf.length)) := by
  have inRange : defFileRangeOk offset buf.length ramdiskMaxFileSize := by
    simp only [defFileRangeOk, and_eq_true, decide_eq_true_eq]
    omega
  simp only [ramdiskWrite, List.isEmpty_iff, some_bytes, inRange, grown, File.contents,
    Bool.not_true, if_false, false_eq_true]
  congr 1
  split <;> omega

/-- Two buffers take the same write to the same bytes exactly when they agree
on what the write leaves. -/
theorem blit_agree {a b : Nat → U8} {offset n : Nat} (kept : ∀ i, i < n → a i = b i) :
    Buffer.slice (Buffer.blit a offset buf) 0 (max n (offset + buf.length)) =
        Buffer.slice (Buffer.blit b offset buf) 0 (max n (offset + buf.length)) ↔
      ∀ i, n ≤ i → i < offset → a i = b i := by
  rw [slice_inj]
  constructor
  · intro same i past before
    have here := same i (by omega) (by omega)
    rwa [blit_before _ _ _ _ before, blit_before _ _ _ _ before] at here
  · intro gap i _ high
    by_cases before : i < offset
    · rw [blit_before _ _ _ _ before, blit_before _ _ _ _ before]
      by_cases inside : i < n
      · exact kept i inside
      · exact gap i (by omega) before
    · by_cases written : i < offset + buf.length
      · obtain ⟨k, rfl⟩ := Nat.le.dest (Nat.le_of_not_lt before)
        rw [blit_inside _ _ _ _ (by omega), blit_inside _ _ _ _ (by omega)]
      rw [blit_after _ _ _ _ (by omega), blit_after _ _ _ _ (by omega)]
      exact kept i (by omega)

/-- A write agrees with the sequence exactly when it leaves no old byte. -/
theorem write_exact (buf : List U8) (fits : offset + buf.length ≤ ramdiskMaxFileSize) :
    (ramdiskWrite true f offset buf).2.contents = f.contents.write offset buf ↔
      FileOp.clear f (.write offset buf) := by
  have spec : f.contents.write offset buf = _ := write_slice f.data f.size offset buf
  by_cases none : buf = []
  · subst none
    have unchanged : (ramdiskWrite true f offset []).2.contents = f.contents := rfl
    rw [unchanged, spec]
    simp only [FileOp.clear, isEmpty_nil, Bool.not_true, Bool.false_and, Bool.or_false,
      decide_eq_true_eq]
    constructor
    · intro same
      have lengths := congrArg List.length same
      simp only [File.contents, slice_length] at lengths
      omega
    · intro inside
      rw [length_nil, add_zero, Nat.max_eq_left inside]
      apply slice_congr
      intro i _ high
      simp [Buffer.blit, Buffer.cleared, show i < f.size by omega]
  · have nonempty : buf.isEmpty = false := by simpa using none
    simp only [FileOp.clear, nonempty, Bool.not_false, Bool.true_and, or_eq_true,
      decide_eq_true_eq, gapZero_iff]
    by_cases room : offset + buf.length ≤ f.capacity
    · rw [write_contents none fits (grow_stays true room) rfl, spec,
        blit_agree fun i low => by simp [Buffer.cleared, low]]
      constructor
      · intro gap
        refine .inr (.inr fun i past before => ?_)
        simpa [Buffer.cleared, not_lt.mpr past] using gap i past before
      · intro clear i past before
        have zero := (clear.resolve_left (by omega)).resolve_left (by omega) i past before
        simpa [Buffer.cleared, not_lt.mpr past] using zero
    · obtain ⟨capacity, moved⟩ := grow_moves (Nat.lt_of_not_le room)
      rw [write_contents none fits moved rfl, spec]
      exact ⟨fun _ => .inr (.inl (Nat.lt_of_not_le room)), fun _ => rfl⟩

theorem resize_exact (size : Nat) (fits : size ≤ ramdiskMaxFileSize) :
    (ramdiskResize true true f size).2.contents = f.contents.resize size := by
  have spec : f.contents.resize size = _ := resize_slice f.data f.size size
  rw [spec, ramdiskResize, if_neg (by simp; omega)]
  by_cases grows : f.size < size
  · obtain ⟨g, grown, same, kept⟩ := grow_keeps f size
    rw [if_pos grows, grown]
    simp only [File.contents, same]
    apply slice_congr
    intro i _ high
    by_cases inside : i < f.size
    · rw [blit_before _ _ _ _ inside, kept i inside]
      simp [Buffer.cleared, inside]
    obtain ⟨k, rfl⟩ := Nat.le.dest (Nat.le_of_not_lt inside)
    rw [blit_inside _ _ _ _ (by simp; omega)]
    simp only [Buffer.cleared, inside, getElem_replicate, if_false]
  · rw [if_neg grows]
    apply slice_congr
    intro i _ high
    simp only [zero_add] at high
    simp [Buffer.cleared, show i < f.size by omega]

/-- One call keeps the file and the sequence equal exactly when it is clear. -/
theorem apply_exact (op : FileOp) (inRange : op.inRange) :
    (op.apply f).contents = op.spec f.contents ↔ op.clear f := by
  cases op with
  | read => simp [FileOp.apply, FileOp.spec, FileOp.clear]
  | write offset buf => exact write_exact f offset buf inRange
  | resize size =>
    simp only [FileOp.clear, iff_true]
    exact resize_exact f size inRange
  | truncate => simp only [FileOp.clear, iff_true]; rfl

/-! Whole runs. -/

def clearRun (f : File) : List FileOp → Bool
  | [] => true
  | op :: rest => op.clear f && clearRun (op.apply f) rest

theorem runs_exact (ops : List FileOp) (inRange : ∀ op ∈ ops, op.inRange) :
    (∀ n, ((ops.take n).foldl FileOp.apply f).contents =
      (ops.take n).foldl FileOp.spec f.contents) ↔ clearRun f ops := by
  induction ops generalizing f with
  | nil => simp [clearRun]
  | cons op rest ih =>
    have here := apply_exact f op (inRange op (by simp))
    have later := ih (op.apply f) (fun x member => inRange x (mem_cons_of_mem _ member))
    simp only [clearRun, and_eq_true, ← here, ← later]
    constructor
    · intro same
      have first : (op.apply f).contents = op.spec f.contents := same 1
      refine ⟨first, fun n => ?_⟩
      have next := same (n + 1)
      rwa [take_succ_cons, foldl_cons, foldl_cons, ← first] at next
    · rintro ⟨first, same⟩ n
      cases n with
      | zero => rfl
      | succ n =>
        rw [take_succ_cons, foldl_cons, foldl_cons, ← first]
        exact same n

/-- The reads made anywhere in a run return the bytes of the sequence exactly
when every write is clear. -/
theorem reads_match_contents (ops : List FileOp) (inRange : ∀ op ∈ ops, op.inRange) :
    (∀ n offset size, ramdiskRead ((ops.take n).foldl FileOp.apply .fresh) offset size =
      ((ops.take n).foldl FileOp.spec []).read offset size) ↔ clearRun .fresh ops = true := by
  simp only [reads_iff]
  exact runs_exact .fresh ops inRange

/-- A gap over a buffer that was never filled, then a resize over old bytes. -/
def clearOps : List FileOp :=
  [.write 3 [1, 2], .truncate, .resize 4, .write 4 [9], .read 0 5]

theorem reads_match_contents_clearOps :
    clearRun .fresh clearOps = true ∧
      ∀ n offset size, ramdiskRead ((clearOps.take n).foldl FileOp.apply .fresh) offset size =
        ((clearOps.take n).foldl FileOp.spec []).read offset size := by
  have clear : clearRun .fresh clearOps = true := by decide +kernel
  refine ⟨clear, (reads_match_contents clearOps ?_).mpr clear⟩
  simp [clearOps, FileOp.inRange, ramdiskMaxFileSize]

/-- Ten bytes, a truncate and one byte at offset 5: the file starts with the
bytes that were truncated away, not with zeros. -/
def staleOps : List FileOp := [.write 0 (List.replicate 10 7), .truncate, .write 5 [1]]

theorem staleOps_reads_old_bytes :
    ramdiskRead (staleOps.foldl FileOp.apply .fresh) 0 6 = [7, 7, 7, 7, 7, 1] ∧
      (staleOps.foldl FileOp.spec []).read 0 6 = [0, 0, 0, 0, 0, 1] := by
  decide +kernel

end UzOS.Fs
