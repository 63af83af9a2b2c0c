import UzOS.Lib.Slots
import UzOS.Proc.VmAccess

/-! The process table (core/process/process.h), the pool of queued signal
values (core/signal/sigqueue.c) and the records of ended processes
(core/exitlog/exitlog.c), with the look-ups the calls share. -/
namespace UzOS.Kernel

abbrev maxProcesses : Nat := 64
abbrev sigqueueSize : Nat := 64
abbrev exitlogSize : Nat := 32
def pidLimit : U32 := 0xFFFFFF00

abbrev Slot := Fin maxProcesses

instance : NeZero maxProcesses := ⟨by decide⟩

inductive ProcessState where
  | free
  | ready
  | running
  | sleeping
  | zombie
  | stopped
  deriving DecidableEq

inductive SeccompMode where
  | off
  | strict
  | filter
  deriving DecidableEq

/-- A process control block. Every default is what pcb_wipe leaves. -/
structure Process where
  pid : U32 := 0
  state : ProcessState := .free
  uid : U32 := 0
  isSystem : Bool := false
  sleepTicks : U32 := 0
  sleepInterruptible : Bool := false
  signals : U32 := 0
  sigBlocked : U32 := 0
  sigHandler : Nat → U32 := fun _ => 0
  sigFlags : Nat → U32 := fun _ => 0
  sigRestorer : Nat → U32 := fun _ => 0
  sigMask : Nat → U32 := fun _ => 0
  sigFrom : Nat → U32 := fun _ => 0
  sigCode : Nat → U32 := fun _ => 0
  sigFrame : Nat → U32 := fun _ => 0
  sigFrames : Nat := 0
  sigSavedMask : U32 := 0
  sigRestoreMask : Bool := false
  altstackSp : U32 := 0
  altstackSize : U32 := 0
  altstackFlags : U32 := 0
  exitStatus : U32 := 0
  pdeathsig : Nat := 0
  dumpable : Bool := false
  noNewPrivs : Bool := false
  childSubreaper : Bool := false
  tracer : U32 := 0
  seccompMode : SeccompMode := .off
  seccompAllow : Fin 4 → U32 := fun _ => 0
  seccompAction : U32 := 0
  ppid : U32 := 0
  pgid : U32 := 0
  sid : U32 := 0
  rlimNproc : U32 := 0
  rlimSigpending : U32 := 0

def Process.withState (p : Process) (state : ProcessState) : Process := { p with state }

def Process.withParent (p : Process) (ppid : U32) : Process := { p with ppid }

def Process.withTracer (p : Process) (tracer : U32) : Process := { p with tracer }

def Process.withStatus (p : Process) (exitStatus : U32) : Process := { p with exitStatus }

def Process.alive (p : Process) : Bool := p.state != .free && p.state != .zombie

/-- siginfo: who sent a signal, why, and with which value. -/
structure Siginfo where
  signo : Nat := 0
  error : U32 := 0
  code : U32 := 0
  pid : U32 := 0
  uid : U32 := 0
  value : U32 := 0
  deriving DecidableEq

/-- A slot of the pool; `sending` numbers the call that queued the value. -/
structure Queued where
  used : Bool := false
  target : U32 := 0
  order : U32 := 0
  info : Siginfo := {}
  sending : Nat := 0

structure ExitRecord where
  used : Bool := false
  order : U32 := 0
  pid : U32 := 0
  ppid : U32 := 0
  pgid : U32 := 0
  uid : U32 := 0
  status : U32 := 0

/-- What an observer of process lives sees. -/
inductive Note where
  | born (child creator : U32)
  | ended (pid status : U32)
  | announced (child parent : U32)
  | reported (child parent status : U32)
  deriving DecidableEq

/-- What becomes of a queued value, by the number of its sending. -/
inductive ValueNote where
  | discarded (sending : Nat)
  | handed (sending : Nat)
  deriving DecidableEq

/-- `log` and `ledger` only record what happened, the newest last; nothing reads
them. -/
structure Machine where
  table : Slot → Process := fun _ => {}
  nextPid : U32 := 1
  current : Option Slot := none
  pool : Fin sigqueueSize → Queued := fun _ => {}
  nextOrder : U32 := 0
  sendings : Nat := 0
  records : Fin exitlogSize → ExitRecord := fun _ => {}
  nextRecord : U32 := 0
  log : List Note := []
  ledger : List ValueNote := []

namespace Machine

def setProcess (m : Machine) (i : Slot) (p : Process) : Machine :=
  { m with table := Function.update m.table i p }

def note (m : Machine) (n : Note) : Machine := { m with log := m.log ++ [n] }

end Machine

def processGetByPid (m : Machine) (pid : U32) : Option Slot :=
  findSlot fun i => (m.table i).state != .free && (m.table i).pid == pid

def findFreeSlot (m : Machine) : Option Slot := findSlot fun i => (m.table i).state == .free

/-- pid_bounds -/
def defPidBoundsCheck (pid : U32) : Bool := pid != 0 && decide (pid < pidLimit)

def countSlots (test : Slot → Bool) : Nat := (List.finRange maxProcesses).countP test

end UzOS.Kernel
