import UzOS.Lib.Memory

/-! process_vm_readv and process_vm_writev (syscalls/process_vm_readv,
process_vm_writev and their wrappers in syscalls/handler/syscall_handler.c). -/
namespace UzOS.Proc

abbrev Memory := Nat → U8

def pageSize : U32 := 0x1000
def pagePresent : U32 := 0x1
def pageUser : U32 := 0x4
def userSpaceStart : U32 := 0x08000000
def userSpaceEnd : U32 := 0xC0000000
def vmIovMax : U32 := 8
def uidRoot : U32 := 0
def capPtrace : U32 := 8
def capCount : U32 := 12

structure Process where
  free : Bool
  pid : U32
  uid : U32
  dumpable : Bool
  isSystem : Bool

/-- What the calls look at: memory, the page tables, the running process and
the process table. -/
structure System where
  mem : Memory
  pde : U32 → U32
  pte : U32 → U32 → U32
  current : Option Process
  table : List Process

/-- The registers of the caller. -/
structure Registers where
  cs : U32
  ebx : U32
  ecx : U32
  edx : U32
  esi : U32
  edi : U32
  ebp : U32

/-! Checks. -/

/-- user_ptr_bounds, rule 1 -/
def inUserSpace (start size : U32) : Bool :=
  if start < userSpaceStart || start ≥ userSpaceEnd then false
  else decide (size ≤ userSpaceEnd - start)

/-- user_ptr_bounds, rule 2: vmm_walk finds both entries present, and both let
ring 3 in. -/
def userPageMapped (s : System) (addr : U32) : Bool :=
  let dirIndex := addr >>> 22
  let tableIndex := (addr >>> 12) &&& 0x3FF
  let pde := s.pde dirIndex
  let pte := s.pte dirIndex tableIndex
  pde &&& pagePresent != 0 && pte &&& pagePresent != 0 && pde &&& pageUser != 0 &&
    pte &&& pageUser != 0

def defUserRangeOk (s : System) (start size : U32) : Bool :=
  inUserSpace start size &&
    let first := start &&& ~~~(pageSize - 1)
    let last := (if size == 0 then start else start + size - 1) &&& ~~~(pageSize - 1)
    (List.range ((last - first).toNat / pageSize.toNat + 1)).all fun k =>
      userPageMapped s (first + BitVec.ofNat 32 k * pageSize)

/-- The low two bits of CS are the caller's ring. -/
def fromUser (r : Registers) : Bool := r.cs &&& 3 == 3

def bufferOk (s : System) (r : Registers) (addr size : U32) : Bool :=
  !fromUser r || defUserRangeOk s addr size

def capsOf (uid : U32) : U32 := if uid == uidRoot then (1#32 <<< capCount) - 1 else 0

def capsHas (uid cap : U32) : Bool := decide (cap < capCount) && capsOf uid &&& (1#32 <<< cap) != 0

inductive Refusal where
  | noSuchProcess
  | systemProcess
  | noPtraceRights
  deriving DecidableEq

def refusal (hasCap : Bool) (callerPid callerUid targetPid targetUid : U32)
    (dumpable isSystem : Bool) : Option Refusal :=
  if isSystem then some .systemProcess
  else if callerPid != targetPid && !hasCap && (callerUid != targetUid || !dumpable) then
    some .noPtraceRights
  else none

/-- vm_access_check -/
def defVmAccessOk (s : System) (caller target : Option Process) (addr len : U32) : Bool :=
  let why := match caller, target with
    | some caller, some target =>
      refusal (capsHas caller.uid capPtrace) caller.pid caller.uid target.pid target.uid
        target.dumpable target.isSystem
    | _, _ => some .noSuchProcess
  why == none && defUserRangeOk s addr len

def processGetByPid (s : System) (pid : U32) : Option Process :=
  s.table.find? fun p => !p.free && p.pid == pid

/-! Pieces: entry `i` of an array is an address and a length. -/

def iovBase (m : Memory) (iov i : U32) : U32 := Memory.word m (iov + i * 8).toNat
def iovLen (m : Memory) (iov i : U32) : U32 := Memory.word m (iov + i * 8 + 4).toNat

/-- Every piece that has bytes is accepted. -/
def piecesOk (m : Memory) (iov count : U32) (ok : U32 → U32 → Bool) : Bool :=
  (List.range count.toNat).all fun i =>
    iovLen m iov (BitVec.ofNat 32 i) == 0 ||
      ok (iovBase m iov (BitVec.ofNat 32 i)) (iovLen m iov (BitVec.ofNat 32 i))

def localIovOk (s : System) (r : Registers) (iov count : U32) : Bool :=
  decide (count ≤ vmIovMax) && bufferOk s r iov (count * 8) &&
    piecesOk s.mem iov count (bufferOk s r)

/-! The copy. -/

def memcpy (m : Memory) (dest src : U32) : Nat → Memory
  | 0 => m
  | n + 1 => memcpy (Function.update m dest.toNat (m src.toNat)) (dest + 1) (src + 1) n

/-- readv copies from the remote pieces to the local ones, writev back. -/
inductive Way where
  | readv
  | writev
  deriving DecidableEq

/-- One memcpy of the loop: `n` bytes between a local and a remote address. -/
structure Copy where
  near : U32
  far : U32
  n : U32
  deriving DecidableEq

def Copy.apply (c : Copy) (way : Way) (m : Memory) : Memory :=
  match way with
  | .readv => memcpy m c.near c.far c.n.toNat
  | .writev => memcpy m c.far c.near c.n.toNat

/-- The variables of the loop, and memory. -/
structure Cursor where
  mem : Memory
  copied : U32
  li : U32
  lo : U32
  ri : U32
  ro : U32

def Cursor.start (m : Memory) : Cursor := ⟨m, 0, 0, 0, 0, 0⟩

/-- The copy of a round: the shorter of what is left of the two pieces. The
entries are those that `arrays` holds. -/
def Cursor.copy (c : Cursor) (r : Registers) (arrays : Memory) : Copy :=
  let left := iovLen arrays r.ecx c.li - c.lo
  let right := iovLen arrays r.esi c.ri - c.ro
  ⟨iovBase arrays r.ecx c.li + c.lo, iovBase arrays r.esi c.ri + c.ro,
    if right < left then right else left⟩

/-- Past the copy of `n` bytes; a piece that is used up is left behind. -/
def Cursor.advance (c : Cursor) (r : Registers) (arrays mem : Memory) (n : U32) : Cursor :=
  let lo := c.lo + n
  let ro := c.ro + n
  let nearDone := lo == iovLen arrays r.ecx c.li
  let farDone := ro == iovLen arrays r.esi c.ri
  { mem := mem
    copied := c.copied + n
    li := if nearDone then c.li + 1 else c.li
    lo := if nearDone then 0 else lo
    ri := if farDone then c.ri + 1 else c.ri
    ro := if farDone then 0 else ro }

def Cursor.goes (c : Cursor) (r : Registers) : Bool := decide (c.li < r.edx) && decide (c.ri < r.edi)

/-- The first rounds of the loop: the copies it makes, and where it stands
then. Both arrays are read from memory as it is at the time. -/
def vmLoop (way : Way) (r : Registers) : Nat → Cursor → List Copy × Cursor
  | 0, c => ([], c)
  | rounds + 1, c =>
    if c.goes r then
      let copy := c.copy r c.mem
      let mem := copy.apply way c.mem
      let rest := vmLoop way r rounds (c.advance r mem mem copy.n)
      (copy :: rest.1, rest.2)
    else ([], c)

/-- sys_process_vm_readv or sys_process_vm_writev up to the given number of
rounds; `none` is a refusal. -/
def sysProcessVm (way : Way) (s : System) (r : Registers) (rounds : Nat) :
    Option (List Copy × Cursor) :=
  let self := s.current
  let t := processGetByPid s r.ebx
  if self.isNone || t.isNone || r.ebp != 0 || decide (r.edx > vmIovMax) ||
      decide (r.edi > vmIovMax) then none
  else if !piecesOk s.mem r.esi r.edi (defVmAccessOk s self t) then none
  else some (vmLoop way r rounds (.start s.mem))

def doProcessVm (way : Way) (s : System) (r : Registers) (rounds : Nat) :
    Option (List Copy × Cursor) :=
  if !localIovOk s r r.ecx r.edx || decide (r.edi > vmIovMax) || !bufferOk s r r.esi (r.edi * 8) then
    none
  else sysProcessVm way s r rounds

def doProcessVmReadv := doProcessVm .readv
def doProcessVmWritev := doProcessVm .writev

end UzOS.Proc
