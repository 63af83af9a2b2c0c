import UzOS.Lib.Memory
import UzOS.Mem.UserPages

/-! The memory of a new program (sys_execve.c), and what ring 3 can read of the frames'
former owners in pages that mmap, sbrk or execve has just mapped. -/
namespace UzOS.Umem

def execStacksStart : Nat := 0xB0000000
def areaSize : Nat := 0x10000
def execStackPages : Nat := 4

/-- A PT_LOAD header that def_elf_check_segments has let through. -/
structure Segment where
  vaddr : Nat
  memsz : Nat
  offset : Nat
  filesz : Nat
  fits : filesz ≤ memsz := by decide

def Segment.first (ph : Segment) : Nat := ph.vaddr / pageSize
def Segment.count (ph : Segment) : Nat :=
  (ph.vaddr + ph.memsz + pageSize - 1) / pageSize - ph.first

/-- The copied arguments: strings back to back, and where each one starts. -/
structure Args where
  text : List U8
  argv : List Nat
  envp : List Nat

/-- The loop of load_segment and of stack_top: a page that is there is used again. -/
def mapPages (s : Paging) (first : Nat) : Nat → Option Paging
  | 0 => some s
  | count + 1 => match vmmWalk s first with
    | some _ => mapPages s (first + 1) count
    | none => match pmmAllocBlock s with
      | none => none
      | some (s, frame) => match vmmMapPage s first frame with
        | none => none
        | some s => mapPages s (first + 1) count

def vfsRead (file : List U8) (offset size : Nat) : List U8 := (file.drop offset).take size

def loadSegment (file : List U8) (m : Machine) (ph : Segment) : Option Machine :=
  match mapPages m.paging ph.first ph.count with
  | none => none
  | some s =>
    let m := { m with paging := s }.clear ph.vaddr ph.memsz
    let bytes := vfsRead file ph.offset ph.filesz
    if bytes.length = ph.filesz then some (m.storeBytes ph.vaddr bytes) else none

def stackAreaTop (slot : Nat) : Nat := execStacksStart + (slot + 1) * areaSize
def stackFirst (slot : Nat) : Nat := stackAreaTop slot / pageSize - execStackPages

def Args.strings (a : Args) (top : Nat) : Nat := (top - a.text.length) / 4 * 4

def Args.words (a : Args) (top : Nat) : List Nat :=
  a.argv.length :: a.argv.map (a.strings top + ·) ++ 0 :: a.envp.map (a.strings top + ·) ++ [0]

def Args.sp (a : Args) (top : Nat) : Nat := (a.strings top - (a.words top).length * 4) / 16 * 16

def Args.wordBytes (a : Args) (top : Nat) : List U8 :=
  (a.words top).flatMap fun w => Memory.wordBytes (.ofNat 32 w)

/-- System V stack: argc, argv[], NULL, envp[], NULL, then the strings. -/
def buildStack (m : Machine) (top : Nat) (a : Args) : Machine :=
  (m.storeBytes (a.strings top) a.text).storeBytes (a.sp top) (a.wordBytes top)

/-- sys_execve from the point of no return on, by the process in `slot`; `none` when the
process ends instead. -/
def sysExecve (m : Machine) (file : List U8) (segments : List Segment) (slot : Nat) (a : Args) :
    Option Machine :=
  match segments.foldlM (loadSegment file) m with
  | none => none
  | some m => (mapPages m.paging (stackFirst slot) execStackPages).map fun s =>
    buildStack { m with paging := s } (stackAreaTop slot) a

/-- A call that maps pages for ring 3. -/
inductive Call where
  | mmap (length : Nat)
  | sbrk (increment : Int) (limitOk : Bool)
  | execve (file : List U8) (segments : List Segment) (slot : Nat) (a : Args)

/-- What ring 3 gets control back with. -/
def Call.apply (s : System) : Call → Option Machine
  | .mmap length => some (sysMmap { toSystem := s } length)
  | .sbrk increment limitOk => some (sysSbrk { toSystem := s } increment limitOk)
  | .execve file segments slot a => sysExecve { toSystem := s } file segments slot a

/-- From `m` to `m'` the pages were mapped and the addresses stored to. -/
structure Loads (m m' : Machine) (pages stores : Nat → Prop) : Prop where
  kept : ∀ q f, vmmWalk m.paging q = some f → vmmWalk m'.paging q = some f
  there : ∀ q, vmmWalk m'.paging q ≠ none ↔ vmmWalk m.paging q ≠ none ∨ pages q
  written : ∀ f o, (m'.ram f o).isSome = true ↔ (m.ram f o).isSome = true ∨
    ∃ x, stores x ∧ vmmWalk m'.paging (x / pageSize) = some f ∧ x % pageSize = o
  backed : Backed m.paging → Backed m'.paging

variable {m m' m'' : Machine} {pages pages' stores stores' : Nat → Prop}

theorem Loads.refl (m : Machine) : Loads m m (fun _ => False) fun _ => False :=
  ⟨fun _ _ here => here, by simp, by simp, id⟩

theorem Loads.trans (one : Loads m m' pages stores) (two : Loads m' m'' pages' stores')
    (mapped : ∀ x, stores x → vmmWalk m'.paging (x / pageSize) ≠ none) :
    Loads m m'' (fun q => pages q ∨ pages' q) fun x => stores x ∨ stores' x := by
  refine ⟨fun q f here => two.kept q f (one.kept q f here), fun q => ?_, fun f o => ?_,
    fun b => two.backed (one.backed b)⟩
  · rw [two.there, one.there, or_assoc]
  · rw [two.written, one.written, or_assoc]
    refine or_congr_right ⟨?_, ?_⟩
    · rintro (⟨x, store, here, place⟩ | ⟨x, store, here, place⟩)
      · exact ⟨x, .inl store, two.kept _ _ here, place⟩
      · exact ⟨x, .inr store, here, place⟩
    · rintro ⟨x, store | store, here, place⟩
      · obtain ⟨g, before⟩ := Option.ne_none_iff_exists'.mp (mapped x store)
        rw [two.kept _ _ before] at here
        exact .inl ⟨x, store, before.trans here, place⟩
      · exact .inr ⟨x, store, here, place⟩

theorem Loads.imp (loads : Loads m m' pages stores) (same : ∀ q, pages q ↔ pages' q)
    (same' : ∀ x, stores x ↔ stores' x) : Loads m m' pages' stores' := by
  obtain rfl : pages = pages' := funext fun q => propext (same q)
  obtain rfl : stores = stores' := funext fun x => propext (same' x)
  exact loads

/-- A segment lies in the pages that were mapped for it. -/
theorem Segment.page (ph : Segment) {x : Nat} (inside : ph.vaddr ≤ x ∧ x < ph.vaddr + ph.memsz) :
    ph.first ≤ x / pageSize ∧ x / pageSize < ph.first + ph.count := by
  unfold Segment.count Segment.first pageSize
  omega

variable {segments : List Segment} {file : List U8}

/-- 64 frames, of which only the reserved one is in use. -/
def bare : System := { paging := { total := 64, reserved := (· == 0), used := (· == 0) } }

/-- A program of one byte, without arguments. -/
def tiny : Call := .execve [0x90] [⟨0x08048000, 1, 0, 1, Nat.le_refl 1⟩] 2 ⟨[], [], []⟩

/-- A program after it, whose segment fills a page of its own; the stack is there already. -/
def full : Call := .execve [0x90] [⟨0x08049000, 4096, 0, 1, by decide⟩] 2 ⟨[], [], []⟩

end UzOS.Umem
