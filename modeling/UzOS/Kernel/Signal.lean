import UzOS.Kernel.Process

/-! Sending signals (core/signal/signal.c), the pool of queued values
(core/signal/sigqueue.c) and taking signals (core/signal/deliver.c). -/
namespace UzOS.Kernel

abbrev signalCount : Nat := 32
abbrev sighup : Nat := 1
abbrev sigkill : Nat := 9
abbrev sigsegv : Nat := 11
abbrev sigchld : Nat := 17
abbrev sigcont : Nat := 18
abbrev sigstop : Nat := 19
abbrev sigtstp : Nat := 20
abbrev sigttin : Nat := 21
abbrev sigttou : Nat := 22

def sigDfl : U32 := 0
def sigIgn : U32 := 1
def saSiginfo : U32 := 0x00000004
def saNodefer : U32 := 0x40000000
def saResethand : U32 := 0x80000000
def siUser : U32 := 0
def siKernel : U32 := 0x80
def siQueue : U32 := -1
def coreDump : U32 := 0x80
def sigqueueUserMax : U32 := 16

variable (p : Process) (sig : Nat)

def sigBit : U32 := 1#32 <<< sig
def sigUnblockable : U32 := sigBit sigkill ||| sigBit sigstop

inductive SigAction where
  | term
  | core
  | ignore
  | stop
  | cont
  deriving DecidableEq

def signalDefaultAction : SigAction :=
  if sig ∈ [3, 4, 5, 6, 7, 8, 11, 24, 25, 31] then .core
  else if sig ∈ [17, 23, 28] then .ignore
  else if sig = sigcont then .cont
  else if sig ∈ [sigstop, sigtstp, sigttin, sigttou] then .stop
  else .term

def validSignal : Bool := decide (1 ≤ sig) && decide (sig < signalCount)

/-! What a process makes of a signal. -/

namespace Process

def stop : Process :=
  if p.isSystem ∨ p.state = .free ∨ p.state = .zombie ∨ p.state = .stopped then p
  else p.withState .stopped

def resume : Process :=
  if p.state = .stopped then p.withState (if p.sleepTicks ≠ 0 then .sleeping else .ready) else p

/-- Would `p` throw `sig` away right now? -/
def ignored : Bool :=
  let handler := p.sigHandler sig
  if sig = sigkill ∨ sig = sigstop then false
  else handler == sigIgn || (handler == sigDfl &&
    (signalDefaultAction sig == .ignore || signalDefaultAction sig == .cont))

def pending : Bool := p.signals.getLsbD sig

def deliverable : U32 := p.signals &&& ~~~(p.sigBlocked &&& ~~~sigUnblockable)

def clear (bits : U32) : Process := { p with signals := p.signals &&& ~~~bits }

def raise : Process := { p with signals := p.signals ||| sigBit sig }

def stopBits : U32 := sigBit sigstop ||| sigBit sigtstp ||| sigBit sigttin ||| sigBit sigttou

/-- SIGCONT and SIGKILL take back stop signals and continue the process. -/
def carryOn : Process :=
  if sig = sigcont ∨ sig = sigkill then (p.clear stopBits).resume else p

/-- A stop signal takes back SIGCONT. -/
def forgetCont : Process :=
  if signalDefaultAction sig = .stop then p.clear (sigBit sigcont) else p

def addPending (code sender : U32) : Process :=
  { p.raise sig with
    sigFrom := Function.update p.sigFrom sig (if code = siKernel then 0 else sender)
    sigCode := Function.update p.sigCode sig code }

/-- An interruptible sleep ends when the signal is not blocked. -/
def wakeFor : Process :=
  if p.state = .sleeping ∧ p.sleepInterruptible ∧ sigBit sig &&& ~~~p.sigBlocked ≠ 0 then
    { p with sleepTicks := 0, state := .ready }
  else p

/-- The target's side of signal_send_info; `sender` is the pid of the running
process, 0 for none. -/
def receive (code sender : U32) : Process :=
  if !validSignal sig then p
  else
    let p := (p.carryOn sig).forgetCont sig
    if sig = sigstop then p.stop
    else if p.ignored sig then p
    else (p.addPending sig code sender).wakeFor sig

variable {p : Process}

theorem ignored_carryOn (sig : Nat) : (p.carryOn sig).ignored = p.ignored := by
  unfold carryOn resume
  split
  · split <;> rfl
  · rfl

variable (p : Process) (sig : Nat)

theorem ignored_forgetCont : (p.forgetCont sig).ignored = p.ignored := by
  unfold forgetCont
  split <;> rfl

/-- A signal leaves all but these fields alone. -/
theorem receive_changes (code sender : U32) :
    ∃ state sleepTicks signals sigFrom sigCode, p.receive sig code sender =
      { p with state, sleepTicks, signals, sigFrom, sigCode } := by
  have carried : ∃ state signals, (p.carryOn sig).forgetCont sig = { p with state, signals } := by
    unfold carryOn forgetCont resume
    repeat' split
    all_goals exact ⟨_, _, rfl⟩
  obtain ⟨state, signals, carried⟩ := carried
  unfold receive
  rw [carried]
  dsimp only [stop, wakeFor]
  repeat' split
  all_goals exact ⟨_, _, _, _, _, rfl⟩

theorem receive_pid (code sender : U32) : (p.receive sig code sender).pid = p.pid := by
  obtain ⟨_, _, _, _, _, same⟩ := p.receive_changes sig code sender
  rw [same]

theorem receive_tracer (code sender : U32) : (p.receive sig code sender).tracer = p.tracer := by
  obtain ⟨_, _, _, _, _, same⟩ := p.receive_changes sig code sender
  rw [same]

end Process

/-! Queued values. -/

def queuedFor (m : Machine) (pid : U32) (sig : Nat) (k : Fin sigqueueSize) : Bool :=
  (m.pool k).used && (m.pool k).target == pid && (m.pool k).info.signo == sig

def sigqueueCountUser (m : Machine) (uid : U32) : Nat :=
  (List.finRange sigqueueSize).countP fun k => (m.pool k).used && (m.pool k).info.uid == uid

/-- sigqueue_limit -/
def defSigqueueAllowed (queued : Nat) (rlimit : U32) : Bool :=
  let limit := if rlimit < sigqueueUserMax then rlimit else sigqueueUserMax
  decide (queued < limit.toNat)

/-- `limit` is the sender's own RLIMIT_SIGPENDING. `none`: refused, or the pool is
full. -/
def sigqueueAdd (m : Machine) (limit : U32) (target : U32) (info : Siginfo) : Option Machine :=
  if !defSigqueueAllowed (sigqueueCountUser m info.uid) limit then none
  else (findSlot fun k => !(m.pool k).used).map fun k =>
    { m with
      pool := Function.update m.pool k
        { used := true, target, order := m.nextOrder, info, sending := m.sendings }
      nextOrder := m.nextOrder + 1
      sendings := m.sendings + 1 }

def sigqueueWaiting (m : Machine) (pid : U32) (sig : Nat) : Bool :=
  (findSlot (queuedFor m pid sig)).isSome

def sigqueueOldest (m : Machine) (pid : U32) (sig : Nat) : Option (Fin sigqueueSize) :=
  oldestSlot (queuedFor m pid sig) fun k => (m.pool k).order

def Machine.freeQueued (m : Machine) (k : Fin sigqueueSize) : Machine :=
  { m with pool := Function.update m.pool k { m.pool k with used := false } }

/-- sigqueue_take with nowhere to put the value: it is dropped. -/
def sigqueueDrop (m : Machine) (pid : U32) (sig : Nat) : Machine :=
  match sigqueueOldest m pid sig with
  | some k => m.freeQueued k
  | none => m

/-- sigqueue_take for a taker: the value, if one was queued, is handed over. -/
def sigqueueTake (m : Machine) (pid : U32) (sig : Nat) : Machine × Option Siginfo :=
  match sigqueueOldest m pid sig with
  | some k =>
    ({ m.freeQueued k with ledger := m.ledger ++ [.handed (m.pool k).sending] },
      some (m.pool k).info)
  | none => (m, none)

variable (m : Machine) (i : Slot)

@[simp] theorem sigqueueDrop_table (pid : U32) (sig : Nat) :
    (sigqueueDrop m pid sig).table = m.table := by
  unfold sigqueueDrop
  split <;> rfl

@[simp] theorem sigqueueTake_table (pid : U32) (sig : Nat) :
    (sigqueueTake m pid sig).1.table = m.table := by
  unfold sigqueueTake
  split <;> rfl

def sigqueueRelease (m : Machine) (pid : U32) : Machine :=
  { m with pool := fun k =>
      if (m.pool k).used ∧ (m.pool k).target = pid then { m.pool k with used := false }
      else m.pool k }

/-! Sending. -/

/-- The values queued for signals that are pending now and are not in `p`. -/
def discards (m : Machine) (i : Slot) (p : Process) : List ValueNote :=
  ((List.finRange sigqueueSize).filter fun k =>
    (m.pool k).used && (m.pool k).target == (m.table i).pid &&
      (m.table i).pending (m.pool k).info.signo && !p.pending (m.pool k).info.signo).map
    fun k => .discarded (m.pool k).sending

def Machine.senderPid (m : Machine) : U32 := (m.current.map fun i => (m.table i).pid).getD 0

/-- The yield of a process that stopped itself is the scheduler's next step. -/
def signalSendInfo (m : Machine) (i : Slot) (sig : Nat) (code : U32) : Machine :=
  let p := (m.table i).receive sig code m.senderPid
  { m.setProcess i p with ledger := m.ledger ++ discards m i p }

variable (p : Process) (sig : Nat)

theorem signalSendInfo_self (code : U32) :
    (signalSendInfo m i sig code).table i = (m.table i).receive sig code m.senderPid := by
  simp [signalSendInfo, Machine.setProcess]

theorem signalSendInfo_other {i j : Slot} (other : j ≠ i) (sig : Nat) (code : U32) :
    (signalSendInfo m i sig code).table j = m.table j := by
  simp [signalSendInfo, Machine.setProcess, other]

def signalSend (m : Machine) (i : Slot) (sig : Nat) : Machine := signalSendInfo m i sig siUser

def signalClear (m : Machine) (i : Slot) (sig : Nat) : Machine :=
  let p := if validSignal sig then (m.table i).clear (sigBit sig) else m.table i
  { m.setProcess i p with ledger := m.ledger ++ discards m i p }

def capKill : U32 := 0
def capResource : U32 := 6

/-- signal_permission -/
def defSignalAllowed (callerUid targetUid : U32) (targetIsSystem : Bool) : Bool :=
  if targetIsSystem then false
  else if Proc.capsHas callerUid capKill then true
  else callerUid == targetUid

/-- The send of rt_sigqueueinfo; an ignored signal takes its value along. -/
def sendQueued (m : Machine) (t : Slot) (sig sending : Nat) : Machine :=
  let sent := signalSendInfo m t sig siQueue
  if (m.table t).ignored sig then { sent with ledger := sent.ledger ++ [.discarded sending] }
  else sent

@[simp] theorem sendQueued_table (t : Slot) (sig sending : Nat) :
    (sendQueued m t sig sending).table = (signalSendInfo m t sig siQueue).table := by
  unfold sendQueued
  split <;> rfl

def sysRtSigqueueinfo (m : Machine) (self : Slot) (pid : U32) (sig : Nat) (value : U32) :
    Machine :=
  let s := m.table self
  match processGetByPid m pid with
  | none => m
  | some t =>
    if !validSignal sig || sig == sigkill || sig == sigstop then m
    else if !defSignalAllowed s.uid (m.table t).uid (m.table t).isSystem then m
    else
      let info := { signo := sig, code := siQueue, pid := s.pid, uid := s.uid, value }
      match sigqueueAdd m s.rlimSigpending (m.table t).pid info with
      | none => m
      | some added =>
        let sent := sendQueued added t sig m.sendings
        if (sent.table t).pending sig then sent
        else sigqueueDrop sent (m.table t).pid sig

/-! Handlers and masks. -/

structure Sigaction where
  handler : U32
  flags : U32
  restorer : U32
  mask : U32

def saRestorer : U32 := 0x04000000

def userAddress (a : U32) : Bool :=
  decide (Proc.userSpaceStart ≤ a) && decide (a < Proc.userSpaceEnd)

/-- handler_bounds -/
def defHandlerOk (act : Sigaction) : Bool :=
  !(sig == sigkill || sig == sigstop) &&
    (act.handler == sigDfl || act.handler == sigIgn || userAddress act.handler) &&
    (act.flags &&& saRestorer == 0 || userAddress act.restorer)

def Process.setAction (act : Sigaction) : Process :=
  { p with
    sigHandler := Function.update p.sigHandler sig act.handler
    sigFlags := Function.update p.sigFlags sig act.flags
    sigRestorer := Function.update p.sigRestorer sig act.restorer
    sigMask := Function.update p.sigMask sig (act.mask &&& ~~~sigUnblockable) }

/-- Does the new action throw the signal away? -/
def ignoring (act : Sigaction) : Bool :=
  act.handler == sigIgn || (act.handler == sigDfl && signalDefaultAction sig == .ignore)

def sysRtSigaction (m : Machine) (self : Slot) (sig : Nat) (act : Sigaction) : Machine :=
  if !validSignal sig || !defHandlerOk sig act then m
  else
    let m := m.setProcess self ((m.table self).setAction sig act)
    if ignoring sig act then signalClear m self sig else m

inductive MaskHow where
  | block
  | unblock
  | setmask

def Process.setMask (how : MaskHow) (set : U32) : Process :=
  let s := set &&& ~~~sigUnblockable
  { p with sigBlocked := match how with
      | .block => p.sigBlocked ||| s
      | .unblock => p.sigBlocked &&& ~~~s
      | .setmask => s }

/-- rt_sigsuspend, up to the sleep it waits in. -/
def Process.suspendMask (mask : U32) : Process :=
  { p with
    sigSavedMask := p.sigBlocked
    sigRestoreMask := true
    sigBlocked := mask &&& ~~~sigUnblockable }

/-! Taking. -/

def lowestBit (mask : U32) : Option Nat :=
  (List.range signalCount).find? fun sig => decide (1 ≤ sig) && mask.getLsbD sig

/-- The first half of a round of signal_deliver: the signal is taken off, with one
of its values; it stays pending while more are queued. -/
def takeSignal (m : Machine) (i : Slot) (sig : Nat) : Machine :=
  let m := m.setProcess i ((m.table i).clear (sigBit sig))
  let m := (sigqueueTake m (m.table i).pid sig).1
  if sigqueueWaiting m (m.table i).pid sig then
    m.setProcess i ((m.table i).raise sig)
  else m

/-- take() of rt_sigtimedwait -/
def sigwaitTake (m : Machine) (i : Slot) (set : U32) : Machine :=
  match lowestBit ((m.table i).signals &&& (set &&& ~~~sigUnblockable)) with
  | none => m
  | some sig =>
    let m := (sigqueueTake m (m.table i).pid sig).1
    if sigqueueWaiting m (m.table i).pid sig then m
    else m.setProcess i ((m.table i).clear (sigBit sig))

theorem takeSignal_table :
    ∃ signals, (takeSignal m i sig).table = (m.setProcess i { m.table i with signals }).table := by
  unfold takeSignal
  dsimp only
  split
  · exact ⟨_, by simp [Machine.setProcess]; rfl⟩
  · exact ⟨_, by simp [Process.clear]; rfl⟩

theorem sigwaitTake_table (set : U32) :
    ∃ signals, (sigwaitTake m i set).table = (m.setProcess i { m.table i with signals }).table := by
  have same : m.table = (m.setProcess i { m.table i with signals := (m.table i).signals }).table := by
    simp [Machine.setProcess]
  unfold sigwaitTake
  split
  · exact ⟨_, same⟩
  dsimp only
  split
  · exact ⟨_, (sigqueueTake_table _ _ _).trans same⟩
  · exact ⟨_, by simp [Machine.setProcess]; rfl⟩

/-- What push_frame does to the process once the frame is on its stack. -/
def Process.enterHandler (frame : U32) : Process :=
  let flags := p.sigFlags sig
  let blocked := p.sigBlocked ||| p.sigMask sig
  let blocked := if flags &&& saNodefer = 0 then blocked ||| sigBit sig else blocked
  let reset := flags &&& saResethand ≠ 0
  { p with
    sigRestoreMask := false
    sigFrame := Function.update p.sigFrame p.sigFrames frame
    sigFrames := p.sigFrames + 1
    sigBlocked := blocked &&& ~~~sigUnblockable
    sigHandler := if reset then Function.update p.sigHandler sig sigDfl else p.sigHandler
    sigFlags := if reset then Function.update p.sigFlags sig (flags &&& ~~~saSiginfo)
      else p.sigFlags }

def Process.restoreMask : Process :=
  if p.sigRestoreMask then { p with sigBlocked := p.sigSavedMask, sigRestoreMask := false } else p

end UzOS.Kernel
