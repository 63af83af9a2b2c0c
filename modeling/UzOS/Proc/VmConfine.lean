import UzOS.Proc.VmAccess

/-! Which bytes process_vm_readv and process_vm_writev touch. -/
namespace UzOS.Proc

open List

/-- A byte of user space that ring 3 may access. -/
def UserByte (s : System) (a : U32) : Prop :=
  userSpaceStart ≤ a ∧ a < userSpaceEnd ∧ userPageMapped s a = true

/-- The byte lies in the piece that entry `i` of the array names. -/
def Covers (m : Memory) (iov i a : U32) : Prop :=
  (iovBase m iov i).toNat ≤ a.toNat ∧
    a.toNat < (iovBase m iov i).toNat + (iovLen m iov i).toNat

/-- local_iov_ok accepted a piece with the byte. -/
def NearChecked (s : System) (r : Registers) (a : U32) : Prop :=
  ∃ i < r.edx, Covers s.mem r.ecx i a ∧
    bufferOk s r (iovBase s.mem r.ecx i) (iovLen s.mem r.ecx i) = true

/-- def_vm_access_ok accepted a piece with the byte. -/
def FarChecked (s : System) (r : Registers) (a : U32) : Prop :=
  ∃ i < r.edi, Covers s.mem r.esi i a ∧
    defVmAccessOk s s.current (processGetByPid s r.ebx) (iovBase s.mem r.esi i)
      (iovLen s.mem r.esi i) = true

/-- All bytes of the copy, on both sides, were checked, and none is the
kernel's. -/
def Copy.Confined (s : System) (r : Registers) (c : Copy) : Prop :=
  ∀ k, k < c.n.toNat →
    NearChecked s r (c.near + BitVec.ofNat 32 k) ∧ UserByte s (c.near + BitVec.ofNat 32 k) ∧
    FarChecked s r (c.far + BitVec.ofNat 32 k) ∧ UserByte s (c.far + BitVec.ofNat 32 k)

/-- So are those of every copy of the first rounds. -/
def Confined (way : Way) (s : System) (r : Registers) (rounds : Nat) : Prop :=
  ∀ run, doProcessVm way s r rounds = some run → ∀ copy ∈ run.1, copy.Confined s r

/-! The copy that was checked: its pieces are those the arrays held at the
time of the check. -/

/-- The entries of the round are the same in both memories. -/
def Cursor.sameEntries (c : Cursor) (r : Registers) (m arrays : Memory) : Bool :=
  iovBase m r.ecx c.li == iovBase arrays r.ecx c.li &&
    iovLen m r.ecx c.li == iovLen arrays r.ecx c.li &&
    iovBase m r.esi c.ri == iovBase arrays r.esi c.ri &&
    iovLen m r.esi c.ri == iovLen arrays r.esi c.ri

def Cursor.sameLengths (c : Cursor) (r : Registers) (m arrays : Memory) : Bool :=
  iovLen m r.ecx c.li == iovLen arrays r.ecx c.li &&
    iovLen m r.esi c.ri == iovLen arrays r.esi c.ri

/-- While the copy that was checked is carried out, no word of the arrays has
changed when the loop comes to read it. -/
def undisturbed (way : Way) (r : Registers) (arrays : Memory) : Nat → Cursor → Bool
  | 0, _ => true
  | rounds + 1, c =>
    if c.goes r then
      let copy := c.copy r arrays
      let mem := copy.apply way c.mem
      c.sameEntries r c.mem arrays && c.sameLengths r mem arrays &&
        undisturbed way r arrays rounds (c.advance r arrays mem copy.n)
    else true

section
variable {s : System} {r : Registers} {arrays : Memory} {c : Cursor} {a b : U32}

theorem userPageMapped_congr (page : a.toNat / 4096 = b.toNat / 4096) :
    userPageMapped s a = userPageMapped s b := by
  have tables : a >>> 12 = b >>> 12 := by
    apply BitVec.eq_of_toNat_eq
    simpa [Nat.shiftRight_eq_div_pow] using page
  have directories : a >>> 22 = b >>> 22 := by
    rw [show (22 : Nat) = 12 + 10 from rfl, BitVec.shiftRight_add, BitVec.shiftRight_add, tables]
  simp only [userPageMapped, tables, directories]

variable {m : Memory} {rounds : Nat} {size start : U32}

theorem inUserSpace_bounds (inside : inUserSpace start size) :
    0x08000000 ≤ start.toNat ∧ start.toNat + size.toNat ≤ 0xC0000000 := by
  have first : userSpaceStart.toNat = 0x08000000 := rfl
  have stop : userSpaceEnd.toNat = 0xC0000000 := rfl
  simp only [inUserSpace] at inside
  split at inside
  · cases inside
  rename_i within
  simp only [Bool.or_eq_true, decide_eq_true_eq, BitVec.lt_def, BitVec.le_def] at within
  rw [decide_eq_true_eq, BitVec.le_def, BitVec.toNat_sub] at inside
  omega

theorem toNat_page (x : U32) : (x &&& ~~~(pageSize - 1)).toNat = x.toNat / 4096 * 4096 := by
  rw [show ~~~(pageSize - 1) = BitVec.allOnes 32 <<< 12 by decide, toNat_and_allOnes_shiftLeft]
  rfl

/-- Every byte of an accepted range is a byte of user space. -/
theorem userByte_of_range (ok : defUserRangeOk s start size) (low : start.toNat ≤ a.toNat)
    (high : a.toNat < start.toNat + size.toNat) : UserByte s a := by
  simp only [defUserRangeOk, Bool.and_eq_true, all_eq_true, mem_range] at ok
  obtain ⟨inside, mapped⟩ := ok
  obtain ⟨above, below⟩ := inUserSpace_bounds inside
  refine ⟨?_, ?_, ?_⟩
  · rw [BitVec.le_def, show userSpaceStart.toNat = 0x08000000 from rfl]
    omega
  · rw [BitVec.lt_def, show userSpaceEnd.toNat = 0xC0000000 from rfl]
    omega
  · have some_bytes : (size == 0) = false := by
      rw [beq_eq_false_iff_ne]
      rintro rfl
      rw [show (0 : U32).toNat = 0 from rfl] at high
      omega
    rw [some_bytes] at mapped
    simp only [Bool.false_eq_true, if_false] at mapped
    have last : (start + size - 1).toNat = start.toNat + size.toNat - 1 := by
      rw [BitVec.toNat_sub, BitVec.toNat_add, show (1 : U32).toNat = 1 from rfl]
      omega
    have span : ((start + size - 1 &&& ~~~(pageSize - 1)) - (start &&& ~~~(pageSize - 1))).toNat =
        (start.toNat + size.toNat - 1) / 4096 * 4096 - start.toNat / 4096 * 4096 := by
      rw [BitVec.toNat_sub, toNat_page, toNat_page, last]
      omega
    have page := mapped (a.toNat / 4096 - start.toNat / 4096) (by
      rw [span, show pageSize.toNat = 4096 from rfl]
      omega)
    rw [← page]
    apply userPageMapped_congr
    rw [BitVec.toNat_add, toNat_page, BitVec.toNat_mul, BitVec.toNat_ofNat,
      show pageSize.toNat = 4096 from rfl]
    omega

/-! One round of the copy that was checked. -/

/-- The cursor is inside the pieces it stands in. -/
structure Inside (arrays : Memory) (r : Registers) (c : Cursor) : Prop where
  near : c.lo.toNat ≤ (iovLen arrays r.ecx c.li).toNat
  far : c.ro.toNat ≤ (iovLen arrays r.esi c.ri).toNat

theorem Inside.copy_fits (inside : Inside arrays r c) :
    c.lo.toNat + (c.copy r arrays).n.toNat ≤ (iovLen arrays r.ecx c.li).toNat ∧
      c.ro.toNat + (c.copy r arrays).n.toNat ≤ (iovLen arrays r.esi c.ri).toNat := by
  obtain ⟨near, far⟩ := inside
  have left := BitVec.toNat_sub_of_le (BitVec.le_def.mpr near)
  have right := BitVec.toNat_sub_of_le (BitVec.le_def.mpr far)
  simp only [Cursor.copy]
  split
  · rename_i shorter
    rw [BitVec.lt_def] at shorter
    omega
  rename_i shorter
  rw [BitVec.lt_def] at shorter
  omega

theorem Inside.advance (inside : Inside arrays r c) (mem : Memory) :
    Inside arrays r (c.advance r arrays mem (c.copy r arrays).n) := by
  obtain ⟨near, far⟩ := inside.copy_fits
  constructor
  all_goals
    simp only [Cursor.advance]
    split
    · exact Nat.zero_le _
    rw [BitVec.toNat_add]
    omega

/-- A byte of the stretch lies in the piece. -/
theorem covers_stretch {iov i offset : U32} {k : Nat}
    (fits : offset.toNat + k < (iovLen arrays iov i).toNat)
    (noWrap : (iovBase arrays iov i).toNat + (iovLen arrays iov i).toNat ≤ 2 ^ 32) :
    Covers arrays iov i (iovBase arrays iov i + offset + BitVec.ofNat 32 k) := by
  have value : (iovBase arrays iov i + offset + BitVec.ofNat 32 k).toNat =
      (iovBase arrays iov i).toNat + offset.toNat + k := by
    rw [BitVec.toNat_add, BitVec.toNat_add, BitVec.toNat_ofNat]
    omega
  rw [Covers]
  omega

/-! What the checks accepted. -/

structure Checked (s : System) (r : Registers) : Prop where
  ring3 : fromUser r = true
  near : ∀ i < r.edx, iovLen s.mem r.ecx i ≠ 0 →
    bufferOk s r (iovBase s.mem r.ecx i) (iovLen s.mem r.ecx i) = true
  far : ∀ i < r.edi, iovLen s.mem r.esi i ≠ 0 →
    defVmAccessOk s s.current (processGetByPid s r.ebx) (iovBase s.mem r.esi i)
      (iovLen s.mem r.esi i) = true

theorem piece_ok {iov count i : U32} {ok : U32 → U32 → Bool} (all : piecesOk m iov count ok)
    (listed : i < count) (some_bytes : iovLen m iov i ≠ 0) :
    ok (iovBase m iov i) (iovLen m iov i) := by
  rw [piecesOk, all_eq_true] at all
  have entry := all i.toNat (List.mem_range.mpr (BitVec.lt_def.mp listed))
  rw [BitVec.ofNat_toNat, Bool.or_eq_true, beq_iff_eq] at entry
  exact entry.resolve_left some_bytes

theorem doProcessVm_checked {way : Way} {run : List Copy × Cursor} (ring3 : fromUser r)
    (result : doProcessVm way s r rounds = some run) :
    Checked s r ∧ run = vmLoop way r rounds (.start s.mem) := by
  simp only [doProcessVm] at result
  split at result
  · cases result
  rename_i accepted
  simp only [Bool.or_eq_true, Bool.not_eq_true', not_or, Bool.not_eq_false, localIovOk,
    Bool.and_eq_true] at accepted
  simp only [sysProcessVm] at result
  split at result
  · cases result
  split at result
  · cases result
  rename_i remote
  rw [Bool.not_eq_true', Bool.not_eq_false] at remote
  refine ⟨⟨ring3, fun i listed => ?_, fun i listed => ?_⟩, (Option.some.inj result).symm⟩
  · exact piece_ok accepted.1.1.2 listed
  · exact piece_ok remote listed

theorem bufferOk_range (ring3 : fromUser r) {addr : U32} (ok : bufferOk s r addr size) :
    defUserRangeOk s addr size := by
  simpa [bufferOk, ring3] using ok

theorem defVmAccessOk_range {caller target : Option Process} {addr len : U32}
    (ok : defVmAccessOk s caller target addr len) : defUserRangeOk s addr len := by
  simp only [defVmAccessOk, Bool.and_eq_true] at ok
  exact ok.2

theorem range_noWrap (ok : defUserRangeOk s start size) :
    start.toNat + size.toNat ≤ 2 ^ 32 := by
  simp only [defUserRangeOk, Bool.and_eq_true] at ok
  have bounds := inUserSpace_bounds ok.1
  omega

/-- A round of the copy that was checked touches checked bytes only. -/
theorem Checked.copy_confined (checked : Checked s r) (inside : Inside s.mem r c)
    (goes : c.goes r) : (c.copy r s.mem).Confined s r := by
  simp only [Cursor.goes, Bool.and_eq_true, decide_eq_true_eq] at goes
  obtain ⟨nearFits, farFits⟩ := inside.copy_fits
  intro k within
  have nearBytes : iovLen s.mem r.ecx c.li ≠ 0 := by
    intro zero
    rw [zero, show (0 : U32).toNat = 0 from rfl] at nearFits
    omega
  have farBytes : iovLen s.mem r.esi c.ri ≠ 0 := by
    intro zero
    rw [zero, show (0 : U32).toNat = 0 from rfl] at farFits
    omega
  have near := checked.near c.li goes.1 nearBytes
  have far := checked.far c.ri goes.2 farBytes
  have nearRange := bufferOk_range checked.ring3 near
  have farRange := defVmAccessOk_range far
  have nearCovers : Covers s.mem r.ecx c.li ((c.copy r s.mem).near + BitVec.ofNat 32 k) :=
    covers_stretch (by omega) (range_noWrap nearRange)
  have farCovers : Covers s.mem r.esi c.ri ((c.copy r s.mem).far + BitVec.ofNat 32 k) :=
    covers_stretch (by omega) (range_noWrap farRange)
  exact ⟨⟨c.li, goes.1, nearCovers, near⟩, userByte_of_range nearRange nearCovers.1 nearCovers.2,
    ⟨c.ri, goes.2, farCovers, far⟩, userByte_of_range farRange farCovers.1 farCovers.2⟩

/-! The loop. -/

theorem copy_of_sameEntries (same : c.sameEntries r m arrays) :
    c.copy r m = c.copy r arrays := by
  simp only [Cursor.sameEntries, Bool.and_eq_true, beq_iff_eq] at same
  simp only [Cursor.copy, same]

theorem advance_of_sameLengths (same : c.sameLengths r m arrays) (mem : Memory) (n : U32) :
    c.advance r m mem n = c.advance r arrays mem n := by
  simp only [Cursor.sameLengths, Bool.and_eq_true, beq_iff_eq] at same
  simp only [Cursor.advance, same]

theorem Checked.loop_confined (checked : Checked s r) {way : Way} (inside : Inside s.mem r c)
    (calm : undisturbed way r s.mem rounds c) :
    ∀ copy ∈ (vmLoop way r rounds c).1, copy.Confined s r := by
  induction rounds generalizing c with
  | zero => exact forall_mem_nil _
  | succ rounds ih =>
    simp only [vmLoop]
    split
    · rename_i goes
      simp only [undisturbed, goes, if_true, Bool.and_eq_true] at calm
      obtain ⟨⟨entries, lengths⟩, later⟩ := calm
      rw [copy_of_sameEntries entries, advance_of_sameLengths lengths]
      rw [forall_mem_cons]
      exact ⟨checked.copy_confined inside goes, ih (inside.advance _) later⟩
    · exact forall_mem_nil _

end

/-- As long as the copy that was checked leaves alone the words of the arrays
that are still to be read, the calls of a ring-3 program touch no byte that was
not checked, and none of the kernel's. A call that is refused touches none. -/
theorem process_vm_confined (way : Way) (s : System) (r : Registers) (rounds : Nat)
    (ring3 : fromUser r = true) (calm : (doProcessVm way s r rounds).isSome = true →
      undisturbed way r s.mem rounds (.start s.mem) = true) : Confined way s r rounds := by
  intro run result
  have calm := calm (Option.isSome_of_eq_some result)
  obtain ⟨checked, rfl⟩ := doProcessVm_checked ring3 result
  exact checked.loop_confined ⟨Nat.zero_le _, Nat.zero_le _⟩ calm

/-- A process of user 1000 that looks into itself. -/
def caller : Process := ⟨false, 5, 1000, true, false⟩

/-- Two arrays: 0x08050000 lists the four bytes of its own second address and
four at 0x08052000, 0x08051000 lists four bytes at 0x08053000, which hold the
address 0x00100000, and four at 0x08053010. -/
def trap : System where
  mem := [(0x08050000, 0x08050008), (0x08050004, 4), (0x08050008, 0x08052000), (0x0805000C, 4),
    (0x08051000, 0x08053000), (0x08051004, 4), (0x08051008, 0x08053010), (0x0805100C, 4),
    (0x08053000, 0x00100000)].foldl (fun m w => Memory.setWord m w.1 w.2) fun _ => 0
  pde := fun _ => 7
  pte := fun _ _ => 7
  current := some caller
  table := [caller]

/-- The arrays as local and remote side, and exchanged. -/
def trapped : Registers := ⟨0x1B, 5, 0x08050000, 2, 0x08051000, 2, 0⟩

def exchanged : Registers := ⟨0x1B, 5, 0x08051000, 2, 0x08050000, 2, 0⟩

/-- What is read from the arrays' own words goes elsewhere. -/
theorem process_vm_confined_exchanged :
    (doProcessVm .readv trap exchanged 16).map (·.1) =
        some [⟨0x08053000, 0x08050008, 4⟩, ⟨0x08053010, 0x08052000, 4⟩] ∧
      Confined .readv trap exchanged 16 :=
  ⟨by decide +kernel, process_vm_confined _ _ _ _ (by decide) fun _ => by decide +kernel⟩

theorem not_confined {way : Way} {s : System} {r : Registers} {rounds : Nat} {copies : List Copy}
    {c : Copy} (made : (doProcessVm way s r rounds).map (·.1) = some copies) (member : c ∈ copies)
    (bytes : 0 < c.n.toNat) (kernel : c.near < userSpaceStart ∨ c.far < userSpaceStart) :
    ¬ Confined way s r rounds := by
  intro confined
  obtain ⟨run, result, rfl⟩ := Option.map_eq_some_iff.mp made
  obtain ⟨_, near, _, far⟩ := confined run result c member 0 bytes
  rw [BitVec.add_zero] at near far
  obtain below | below := kernel
  · exact absurd near.1 (BitVec.not_le.mpr below)
  · exact absurd far.1 (BitVec.not_le.mpr below)

/-- The first four bytes go over the address of the next piece to be filled,
and the next four go to the kernel: as local side of readv and as remote side
of writev. -/
theorem trap_writes_kernel :
    (fromUser trapped = true ∧ ¬ Confined .readv trap trapped 2) ∧
    (fromUser exchanged = true ∧ ¬ Confined .writev trap exchanged 2) := by
  have read : (doProcessVm .readv trap trapped 2).map (·.1) =
      some [⟨0x08050008, 0x08053000, 4⟩, ⟨0x00100000, 0x08053010, 4⟩] := by
    decide +kernel
  have written : (doProcessVm .writev trap exchanged 2).map (·.1) =
      some [⟨0x08053000, 0x08050008, 4⟩, ⟨0x08053010, 0x00100000, 4⟩] := by
    decide +kernel
  have second : ∀ first last : Copy, last ∈ [first, last] :=
    fun _ _ => mem_cons_of_mem _ mem_cons_self
  exact ⟨⟨by decide, not_confined read (second _ _) (by decide) (.inl (by decide))⟩,
    ⟨by decide, not_confined written (second _ _) (by decide) (.inr (by decide))⟩⟩

end UzOS.Proc
