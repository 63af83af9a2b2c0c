import UzOS.Kernel.Signal

/-! How processes begin and end: core/process/process.c, the scheduler's stack
guard, RLIMIT_CPU, the reaper, core/exitlog and wait4, ptrace. -/
namespace UzOS.Kernel

/-! Creating. -/

def maxPerUser : Nat := 8
def reservedForRoot : Nat := 5
def rlimNprocDefault : U32 := 64
def rlimSigpendingDefault : U32 := 16

variable (m : Machine)

/-- slot_quota -/
def defSlotQuotaCheck (uid : U32) : Bool :=
  let freeSlots := countSlots fun i => (m.table i).state == .free
  let owned := countSlots fun i => (m.table i).state != .free && (m.table i).uid == uid
  if Proc.capsHas uid capResource then true
  else if owned ≥ maxPerUser then false
  else decide (freeSlots > reservedForRoot)

def rlimitNprocOk (creator : Option Process) (uid : U32) : Bool :=
  match creator with
  | none => true
  | some c => Proc.capsHas c.uid capResource || decide
      (countSlots (fun i => (m.table i).uid == uid && (m.table i).alive) < c.rlimNproc.toNat)

/-- What a new process gets: the rest is as pcb_wipe left it. -/
def Process.newborn (creator : Option Process) (pid uid : U32) : Process :=
  match creator with
  | none =>
    { pid, state := .ready, uid, ppid := 0, pgid := pid, sid := pid, dumpable := true
      rlimNproc := rlimNprocDefault, rlimSigpending := rlimSigpendingDefault }
  | some c =>
    let p : Process :=
      { pid, state := .ready, uid, ppid := c.pid, pgid := c.pgid, sid := c.sid
        dumpable := true, sigBlocked := c.sigBlocked
        sigHandler := fun sig =>
          if validSignal sig ∧ c.sigHandler sig = sigIgn then sigIgn else 0
        noNewPrivs := c.noNewPrivs, rlimNproc := c.rlimNproc
        rlimSigpending := c.rlimSigpending }
    if c.seccompMode = .off then p
    else { p with
      seccompMode := c.seccompMode
      seccompAction := c.seccompAction
      seccompAllow := c.seccompAllow }

def Machine.currentProcess : Option Process := m.current.map m.table

/-- `stackOk`: kmalloc found room for the stack. -/
def processCreate (uid : U32) (stackOk : Bool) : Machine :=
  if !defPidBoundsCheck m.nextPid then m
  else if !defSlotQuotaCheck m uid then m
  else if !rlimitNprocOk m m.currentProcess uid then m
  else match findFreeSlot m with
    | none => m
    | some i =>
      if !stackOk then m.setProcess i {}
      else
        { m.setProcess i (.newborn m.currentProcess m.nextPid uid) with nextPid := m.nextPid + 1 }.note
          (.born m.nextPid (m.currentProcess.elim 0 Process.pid))

/-! Ending. -/

/-- The walk of new_parent_for, `depth` ancestors at most. -/
def nearestSubreaper (m : Machine) : Nat → Option Slot → U32
  | 0, _ => 1
  | _ + 1, none => 1
  | depth + 1, some a =>
    let p := m.table a
    if p.childSubreaper && p.state != .zombie then p.pid
    else nearestSubreaper m depth (if p.ppid ≠ 0 then processGetByPid m p.ppid else none)

def newParentFor (dead : Slot) : U32 :=
  nearestSubreaper m maxProcesses (processGetByPid m (m.table dead).ppid)

/-- One round of the first loop of process_ended. -/
def reparent (dead : Slot) (heir : U32) (m : Machine) (i : Slot) : Machine :=
  let c := m.table i
  if c.state = .free ∨ i = dead ∨ c.ppid ≠ (m.table dead).pid then m
  else
    let m := m.setProcess i (c.withParent heir)
    if c.pdeathsig ≠ 0 ∧ c.state ≠ .zombie then signalSendInfo m i c.pdeathsig siKernel else m

/-- One round of the second loop. -/
def letGo (dead : Slot) (m : Machine) (i : Slot) : Machine :=
  let c := m.table i
  if c.state ≠ .free ∧ c.tracer = (m.table dead).pid then
    signalSendInfo (m.setProcess i (c.withTracer 0)) i sigcont siKernel
  else m

variable (dead : Slot) (m : Machine)

theorem reparent_other (heir : U32) (m : Machine) {i j : Slot} (other : j ≠ i) :
    (reparent dead heir m i).table j = m.table j := by
  unfold reparent
  dsimp only
  split
  · rfl
  split
  · rw [signalSendInfo_other _ other]
    simp [Machine.setProcess, other]
  · simp [Machine.setProcess, other]

theorem letGo_other {i j : Slot} (other : j ≠ i) : (letGo dead m i).table j = m.table j := by
  unfold letGo
  dsimp only
  split
  · rw [signalSendInfo_other _ other]
    simp [Machine.setProcess, other]
  · rfl

theorem letGo_pid (i j : Slot) : ((letGo dead m i).table j).pid = (m.table j).pid := by
  by_cases same : j = i
  · subst same
    unfold letGo
    dsimp only
    split
    · rw [signalSendInfo_self, Process.receive_pid]
      simp [Machine.setProcess, Process.withTracer]
    · rfl
  · rw [letGo_other dead m same]

variable (m : Machine) (self : Slot)

def announceEnd (dead : Slot) : Machine :=
  match processGetByPid m (m.table dead).ppid with
  | none => m
  | some parent =>
    (signalSendInfo m parent sigchld siKernel).note
      (.announced (m.table dead).pid (m.table parent).pid)

def processEnded (dead : Slot) : Machine :=
  let heir := newParentFor m dead
  let m := forSlots (reparent dead heir) m
  let m := forSlots (letGo dead) m
  announceEnd m dead

/-- The process is a zombie from now on, and nothing else happens. -/
def retire (i : Slot) : Machine :=
  (m.setProcess i ((m.table i).withState .zombie)).note
    (.ended (m.table i).pid (m.table i).exitStatus)

/-- The common tail of process_kill, process_exit_with and process_hangup. -/
def endWith (i : Slot) (status : U32) : Machine :=
  processEnded (retire (m.setProcess i ((m.table i).withStatus status)) i) i

/-- kill_guard -/
def defKillAllowed (caller : Option Process) (target : Process) : Bool :=
  let callerUid := caller.elim 0 Process.uid
  if target.isSystem then false
  else if Proc.capsHas callerUid capKill then true
  else callerUid == target.uid

/-- A process that kills itself ends the same way, and does not come back. -/
def processKill (pid : U32) : Machine :=
  if !defPidBoundsCheck pid then m
  else match processGetByPid m pid with
    | none => m
    | some t =>
      if !defKillAllowed m.currentProcess (m.table t) then m else endWith m t (.ofNat 32 sigkill)

def sendOne (self t : Slot) (sig : Nat) : Machine :=
  if !defSignalAllowed (m.table self).uid (m.table t).uid (m.table t).isSystem then m
  else if sig = sigkill then processKill m (m.table t).pid
  else if sig ≠ 0 then signalSend m t sig
  else m

/-- kill(pid, sig) with a positive pid. -/
def sysKill (pid : U32) (sig : Nat) : Machine :=
  if sig ≥ signalCount then m
  else match processGetByPid m pid with
    | none => m
    | some t => sendOne m self t sig

/-- One round of kill() for a group or for everyone. -/
def killMember (self t : Slot) (sig : Nat) : Machine :=
  if sig ≥ signalCount then m
  else if !(m.table t).alive || (m.table t).isSystem then m
  else sendOne m self t sig

/-- One round of process_hangup for the caller's session. -/
def hangupRound (self i : Slot) : Machine :=
  let p := m.table i
  if i = self ∨ p.isSystem ∨ p.sid ≠ (m.table self).sid ∨ !p.alive then m
  else if p.sigHandler sighup = sigIgn then m
  else if p.sigHandler sighup ≠ sigDfl then signalSend m i sighup
  else endWith m i (.ofNat 32 sighup)

/-! Reaping, and what wait4 reports. -/

/-- A free record, else the oldest. -/
def exitlogSlot : Fin exitlogSize :=
  match findSlot fun k => !(m.records k).used with
  | some k => k
  | none => (oldestSlot (fun _ => true) fun k => (m.records k).order).getD 0

def exitRecord (p : Process) : ExitRecord :=
  { used := true, order := m.nextRecord, pid := p.pid, ppid := p.ppid, pgid := p.pgid
    uid := p.uid, status := p.exitStatus }

def exitlogAdd (p : Process) : Machine :=
  { m with
    records := Function.update m.records (exitlogSlot m) (exitRecord m p)
    nextRecord := m.nextRecord + 1 }

/-- One round of def_reap_zombies. -/
def reap (i : Slot) : Machine :=
  let p := m.table i
  if p.state = .zombie ∧ m.current ≠ some i then
    (exitlogAdd (sigqueueRelease m p.pid) p).setProcess i (p.withState .free)
  else m

/-- Which children wait4 was asked for. -/
inductive Selector where
  | child (pid : U32)
  | any
  | group (pgid : U32)

def Selector.matches (which : Selector) (r : ExitRecord) : Bool :=
  match which with
  | .child pid => r.pid == pid
  | .any => true
  | .group pgid => r.pgid == pgid

/-- child_only, asked when a pid was named. -/
def waitAllowed (pid : U32) : Bool :=
  let parent := match processGetByPid m pid with
    | some c => (m.table c).ppid
    | none => ((findSlot fun k => (m.records k).used && (m.records k).pid == pid).map
        fun k => (m.records k).ppid).getD 0
  (m.table self).pid != 0 && (m.table self).pid == parent

def Selector.allowed : Selector → Bool
  | .child pid => waitAllowed m self pid
  | _ => true

/-- One look of wait4 at the records; what it takes it reports. -/
def sysWait4 (which : Selector) : Machine :=
  if !which.allowed m self then m
  else match oldestSlot (fun k => (m.records k).used && (m.records k).ppid == (m.table self).pid &&
      which.matches (m.records k)) fun k => (m.records k).order with
    | none => m
    | some k =>
      { m with records := Function.update m.records k { m.records k with used := false } }.note
        (.reported (m.records k).pid (m.table self).pid (m.records k).status)

/-! ptrace. -/

def capPtrace : U32 := Proc.capPtrace

def isAncestor (m : Machine) (a : Slot) : Nat → Option Slot → Bool
  | 0, _ => false
  | _ + 1, none => false
  | depth + 1, some t =>
    if (m.table t).ppid = (m.table a).pid then true
    else isAncestor m a depth
      (if (m.table t).ppid ≠ 0 then processGetByPid m (m.table t).ppid else none)

/-- ptrace_restrict -/
def defPtraceAttachOk (c t : Slot) : Bool :=
  let hasCap := Proc.capsHas (m.table c).uid capPtrace
  c != t && !(m.table t).isSystem && (hasCap || (m.table c).uid == (m.table t).uid) &&
    (m.table t).tracer == 0 && (hasCap || (m.table t).dumpable) &&
    (hasCap || isAncestor m c maxProcesses (some t))

inductive PtraceRequest where
  | traceme
  | attach
  | cont
  | kill
  | detach

/-- The requests that touch the process table. -/
def sysPtrace (request : PtraceRequest) (pid : U32) : Machine :=
  match request with
  | .traceme => match processGetByPid m (m.table self).ppid with
    | none => m
    | some parent =>
      if !defPtraceAttachOk m parent self then m
      else m.setProcess self ((m.table self).withTracer (m.table parent).pid)
  | request => match processGetByPid m pid with
    | none => m
    | some t =>
      if (m.table t).state = .zombie then m
      else match request with
        | .attach =>
          if !defPtraceAttachOk m self t then m
          else signalSend (m.setProcess t ((m.table t).withTracer (m.table self).pid)) t sigstop
        | request =>
          if (m.table t).tracer ≠ (m.table self).pid then m
          else match request with
            | .cont => signalSend m t sigcont
            | .kill => processKill m (m.table t).pid
            | .detach => signalSend (m.setProcess t ((m.table t).withTracer 0)) t sigcont
            | _ => m

/-! The scheduler. -/

/-- The process on the CPU; the reaper spares it, so its slot is in use. -/
def Machine.onCpu : Option Slot :=
  m.current.filter fun i => (m.table i).state != .free

/-- scheduler_yield: `guardOk` is what the stack guard says, `next` whom the
priorities pick. -/
def schedulerYield (guardOk : Bool) (next : Slot) : Machine :=
  match m.onCpu with
  | none => m
  | some i =>
    let m := if guardOk then m else retire m i
    if next = i ∨ (m.table next).state ≠ .ready then m
    else
      let prev := m.table i
      let m := m.setProcess i (prev.withState (if prev.state = .running then .ready else prev.state))
      { m.setProcess next ((m.table next).withState .running) with current := some next }

/-- rlimit_check_cpu for a running process that has used its time up. -/
def rlimitCheckCpu : Machine :=
  match m.onCpu with
  | none => m
  | some i => if (m.table i).isSystem then m else retire m i

def Process.tick (p : Process) : Process :=
  if p.state ≠ .sleeping then p
  else
    let left := if p.sleepTicks > 0 then p.sleepTicks - 1 else p.sleepTicks
    { p with sleepTicks := left, state := if left = 0 then .ready else .sleeping }

def wakeSleepers : Machine := { m with table := fun i => (m.table i).tick }

/-- sys_sleep; sys_sleep_interruptible and nanosleep up to the moment they
wait. `ticks` is not 0. -/
def sysSleep (ticks : U32) (interruptible : Bool) : Machine :=
  let p := m.table self
  if ticks = 0 then m
  else if interruptible then
    if p.deliverable ≠ 0 then m
    else m.setProcess self
      { p with sleepTicks := ticks, sleepInterruptible := true, state := .sleeping }
  else m.setProcess self { p with sleepTicks := ticks, state := .sleeping }

end UzOS.Kernel
