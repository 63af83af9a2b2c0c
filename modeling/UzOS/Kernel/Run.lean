import UzOS.Kernel.Seccomp
import UzOS.Lib.Runs

/-! The kernel from boot on: one step is a call of the running process, an
interrupt, or a switch to another process. A call that walks the table takes
one step a slot where the source leaves room for others in between. -/
namespace UzOS.Kernel

inductive Event where
  | yield (guardOk : Bool) (next : Slot)
  | tick
  | cpuLimit
  | reapSlot (i : Slot)
  | interrupt (i : Slot) (sig : Nat) (code : U32)
  | create (uid : U32) (stackOk : Bool)
  | exit (status : U32)
  | kill (pid : U32) (sig : Nat)
  | killRound (i : Slot) (sig : Nat)
  | hangup (i : Slot)
  | ptrace (request : PtraceRequest) (pid : U32)
  | sleep (ticks : U32) (interruptible : Bool)
  | endSleep
  | sigaction (sig : Nat) (act : Sigaction)
  | sigprocmask (how : MaskHow) (set : U32)
  | sigsuspend (mask : U32)
  | deliver (frame : Option U32)
  | sigtimedwait (set : U32)
  | sigqueueinfo (pid : U32) (sig : Nat) (value : U32)
  | wait4 (which : Selector)
  | seccomp (op flags : U32) (args : Option SeccompList)
  | setUid (uid : U32)
  | setPgid (i : Slot) (pgid : U32)
  | setSid
  | setPdeathsig (sig : Nat)
  | setSubreaper (on : Bool)
  | setDumpable (on : Bool)
  | setNoNewPrivs

variable (m : Machine) (i : Slot)

/-- One round of signal_deliver for the running process; `frame` is where
push_frame put the handler's frame, `none` when there was no room. -/
def signalDeliver (frame : Option U32) : Machine :=
  let p := m.table i
  if p.isSystem then m
  else match lowestBit p.deliverable with
    | none => m.setProcess i p.restoreMask
    | some sig =>
      let m := takeSignal m i sig
      let handler := if sig = sigkill then sigDfl else p.sigHandler sig
      if handler = sigIgn then m
      else if handler = sigDfl then
        match signalDefaultAction sig with
        | .ignore => m
        | .cont => m
        | .stop => m.setProcess i ((m.table i).withState .stopped)
        | .core => endWith m i (.ofNat 32 sig ||| coreDump)
        | .term => endWith m i (.ofNat 32 sig)
      else match frame with
        | none => endWith m i (.ofNat 32 sigsegv)
        | some sp => m.setProcess i ((m.table i).enterHandler sig sp)

/-- Who can make calls now: the running process, unless it has ended, waits, is
still inside its sleep, or is the idle task, which only idles. -/
def Machine.acting : Option Slot :=
  m.current.filter fun i =>
    let p := m.table i
    (p.state == .running || p.state == .ready) && !p.sleepInterruptible && p.pid != 1

/-- The call of the process in slot `i`. -/
def call : Event → Machine
  | .create uid stackOk => processCreate m uid stackOk
  | .exit status => endWith m i status
  | .kill pid sig => sysKill m i pid sig
  | .killRound t sig => killMember m i t sig
  | .hangup t => hangupRound m i t
  | .ptrace request pid => sysPtrace m i request pid
  | .sleep ticks interruptible => sysSleep m i ticks interruptible
  | .sigaction sig act => sysRtSigaction m i sig act
  | .sigprocmask how set => m.setProcess i ((m.table i).setMask how set)
  | .sigsuspend mask => m.setProcess i ((m.table i).suspendMask mask)
  | .deliver frame => signalDeliver m i frame
  | .sigtimedwait set => sigwaitTake m i set
  | .sigqueueinfo pid sig value => sysRtSigqueueinfo m i pid sig value
  | .wait4 which => sysWait4 m i which
  | .seccomp op flags args => doSeccomp m i op flags args
  | .setUid uid => m.setProcess i { m.table i with uid }
  | .setPgid t pgid => m.setProcess t { m.table t with pgid }
  | .setSid => m.setProcess i { m.table i with sid := (m.table i).pid, pgid := (m.table i).pid }
  | .setPdeathsig sig =>
    if sig ≥ signalCount then m else m.setProcess i { m.table i with pdeathsig := sig }
  | .setSubreaper on => m.setProcess i { m.table i with childSubreaper := on }
  | .setDumpable on => m.setProcess i { m.table i with dumpable := on }
  | .setNoNewPrivs => m.setProcess i { m.table i with noNewPrivs := true }
  | _ => m

def step (e : Event) : Machine :=
  match e with
  | .yield guardOk next => schedulerYield m guardOk next
  | .tick => wakeSleepers m
  | .cpuLimit => rlimitCheckCpu m
  | .reapSlot i => reap m i
  | .interrupt i sig code =>
    if (m.table i).state = .free then m else signalSendInfo m i sig code
  | .endSleep => match m.current with
    | some i =>
      if (m.table i).state = .running ∨ (m.table i).state = .ready then
        m.setProcess i { m.table i with sleepInterruptible := false }
      else m
    | none => m
  | e => match m.acting with
    | some i => call m i e
    | none => m

/-- Whom the caller ends, other than itself. -/
def victim : Event → Option Slot
  | .kill pid sig => if sig = sigkill then processGetByPid m pid else none
  | .killRound i sig => if sig = sigkill then some i else none
  | .hangup i => some i
  | .ptrace .kill pid => processGetByPid m pid
  | _ => none

/-- Whom the step may end. -/
def ending : Event → Option Slot
  | .exit _ | .deliver _ | .seccomp _ _ _ => m.acting
  | e => victim m e

/-- Whom the step may send a signal other than SIGKILL, and which. -/
def sentTo : Event → Option (Slot × Nat)
  | .kill pid sig => if sig = sigkill then none else (processGetByPid m pid).map (·, sig)
  | .killRound t sig => if sig = sigkill then none else some (t, sig)
  | .hangup t => some (t, sighup)
  | .interrupt i sig _ => some (i, sig)
  | .sigqueueinfo pid sig _ => (processGetByPid m pid).map (·, sig)
  | .ptrace .attach pid => (processGetByPid m pid).map (·, sigstop)
  | .ptrace .cont pid | .ptrace .detach pid => (processGetByPid m pid).map (·, sigcont)
  | _ => none

abbrev run (events : List Event) : Machine := Runs.run step m events

/-- Every step of the run meets the condition. -/
abbrev everyStep (ok : Machine → Event → Bool) (m : Machine) (events : List Event) : Bool :=
  Runs.everyStep step ok m events

theorem run_append (pre post : List Event) :
    run m (pre ++ post) = run (run m pre) post := Runs.run_append m pre post

def markSystem : Machine :=
  m.setProcess i { m.table i with isSystem := true }

/-- scheduler_init: the idle task is PID 1, kernel_main PID 2 and running. -/
def boot : Machine :=
  let m := markSystem (processCreate {} 0 true) 0
  let m := markSystem (processCreate m 0 true) 1
  { m.setProcess 1 ((m.table 1).withState .running) with current := some 1 }

end UzOS.Kernel
