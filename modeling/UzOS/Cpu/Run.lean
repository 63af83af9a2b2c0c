import UzOS.Cpu.Sched
import UzOS.Lib.Runs

/-! Scheduling as a whole: ticks and switches, sleeps and wake-ups, and the calls that
create processes and change their nice value or policy (core/task, core/policy and the
defence priority_bounds). -/
namespace UzOS.Cpu
open Kernel (Slot ProcessState)

def capPriority : U32 := 5
def rtPriorityMin : Int := 1
def rtPriorityMax : Int := 99

variable (m : Machine) (p : Slot)

def processGetByPid (pid : U32) : Option Slot :=
  findSlot fun p => (m.table p).state != .free && (m.table p).pid == pid

/-- priority_bounds: only up, or down as far as RLIMIT_NICE allows. -/
def defNiceChangeAllowed (caller target : Task) (nice : Int) : Bool :=
  if nice < niceMin ∨ nice > niceMax then false
  else if target.isSystem then false
  else if Proc.capsHas caller.uid capPriority then true
  else if caller.uid ≠ target.uid then false
  else decide (nice ≥ target.nice) ||
    (decide (caller.rlimNice ≤ 40) && decide (nice ≥ 20 - (caller.rlimNice.toNat : Int)))

/-- priority_bounds: real-time only up to RLIMIT_RTPRIO. -/
def defPolicyChangeAllowed (caller target : Task) (policy : Policy) (rtPriority : Int) : Bool :=
  let lowest := if policy.isRealtime then rtPriorityMin else 0
  let highest := if policy.isRealtime then rtPriorityMax else 0
  if rtPriority < lowest ∨ rtPriority > highest then false
  else if target.isSystem then false
  else if Proc.capsHas caller.uid capPriority then true
  else if caller.uid ≠ target.uid then false
  else !policy.isRealtime || decide (rtPriority ≤ (caller.rlimRtprio.toNat : Int))

def prioritySetNice (pid : U32) (nice : Int) : Machine :=
  match processGetByPid m pid with
  | none => m
  | some target =>
    if defNiceChangeAllowed m.task (m.table target) nice then
      m.setTask target { m.table target with nice, priority := levelOfNice nice }
    else m

def policySet (pid : U32) (number rtPriority : Int) (resetOnFork : Bool) : Machine :=
  match processGetByPid m pid, Policy.ofNumber number with
  | some target, some policy =>
    if defPolicyChangeAllowed m.task (m.table target) policy rtPriority then
      m.setTask target { m.table target with
        policy, rtPriority := rtPriority.toNat, resetOnFork }
    else m
  | _, _ => m

/-- The parent's scheduling, unless it asked for a reset. -/
def cpuTaskFork (child parent : Task) : Task :=
  let child := if !parent.resetOnFork then
      { child with
        nice := parent.nice, policy := parent.policy, rtPriority := parent.rtPriority,
        resetOnFork := false }
    else { child with nice := niceDefault, policy := .other, rtPriority := 0 }
  { child with
    priority := levelOfNice child.nice, rlimNice := parent.rlimNice,
    rlimRtprio := parent.rlimRtprio }

def newborn (uid : U32) : Task :=
  { cpuTaskFork { pid := m.nextPid, uid } m.task with state := .ready }

/-- A refusal by pid_bounds, slot_quota, RLIMIT_NPROC or the heap changes nothing here. -/
def processCreate (uid : U32) : Machine :=
  match findSlot fun p => (m.table p).state == .free with
  | none => m
  | some p => { m.setTask p (newborn m uid) with nextPid := m.nextPid + 1 }

/-- sys_sleep up to its first yield; a sleep lasts at least one tick. -/
def sleep (ticks : Nat) : Machine :=
  m.setTask m.current { m.task with state := .sleeping, sleepTicks := max 1 ticks }

/-- A signal ends the sleep. -/
def wake : Machine :=
  if (m.table p).state = .sleeping then setState m p .ready else m

def stop : Machine :=
  let t := m.table p
  if t.isSystem ∨ t.state = .free ∨ t.state = .zombie ∨ t.state = .stopped then m
  else setState m p .stopped

def resume : Machine :=
  if (m.table p).state = .stopped then
    setState m p (if (m.table p).sleepTicks ≠ 0 then .sleeping else .ready)
  else m

/-- By its own exit, or by a kill that kill_guard lets through. -/
def finish : Machine :=
  if (m.table p).state = .free ∨ ((m.table p).isSystem ∧ p ≠ m.current) then m
  else setState m p .zombie

inductive Event where
  | tick (overflow : Bool)
  | yield (overflow : Bool)
  | sleep (ticks : Nat)
  | wake (p : Slot)
  | stop (p : Slot)
  | resume (p : Slot)
  | finish (p : Slot)
  | create (uid : U32)
  | setNice (pid : U32) (nice : Int)
  | setPolicy (pid : U32) (number rtPriority : Int) (resetOnFork : Bool)
  | setProfile (saver : Bool)
  deriving DecidableEq

def step : Event → Machine
  | .tick overflow => schedulerTick m overflow
  | .yield overflow => schedulerYield m overflow
  | .sleep ticks => sleep m ticks
  | .wake p => wake m p
  | .stop p => stop m p
  | .resume p => resume m p
  | .finish p => finish m p
  | .create uid => processCreate m uid
  | .setNice pid nice => prioritySetNice m pid nice
  | .setPolicy pid number rtPriority resetOnFork => policySet m pid number rtPriority resetOnFork
  | .setProfile saver => { m with saver }

abbrev run (events : List Event) : Machine := Runs.run step m events

/-- scheduler_init: the idle task, and kernel_main on the CPU. -/
def boot (timer : Frequency) : Machine where
  timer
  table := fun p =>
    if p = 0 then { pid := 1, state := .ready, isSystem := true, priority := priorityIdle }
    else if p = 1 then
      { pid := 2, state := .running, isSystem := true, priority := levelOfNice niceDefault,
        sliceLeft := cpuSliceTicks }
    else {}
  current := 1
  nextPid := 3

/-! ## What a call may do to the table -/

def Event.switches : Event → Bool
  | .tick _ | .yield _ => true
  | _ => false

/-- What an event that is no tick and no switch makes of the one process it is about.
Only a resume brings back a process that did not sleep. -/
inductive Change (m : Machine) : Event → Slot → Task → Prop where
  | sleep (ticks : Nat) : Change m (.sleep ticks) m.current
      { m.task with state := .sleeping, sleepTicks := max 1 ticks }
  | state {e : Event} {p : Slot} (state : ProcessState) (before : (m.table p).state ≠ .free)
      (alive : state ≠ .free) (off : state ≠ .running)
      (back : state = .ready ∨ state = .sleeping →
        (m.table p).state = .sleeping ∨ e = .resume p) :
      Change m e p { m.table p with state }
  | create {p : Slot} (uid : U32) (free : (m.table p).state = .free) :
      Change m (.create uid) p (newborn m uid)
  | nice {p : Slot} (pid : U32) (nice : Int)
      (allowed : defNiceChangeAllowed m.task (m.table p) nice = true) :
      Change m (.setNice pid nice) p { m.table p with nice, priority := levelOfNice nice }
  | policy {p : Slot} {pid : U32} {number : Int} {policy : Policy} (rtPriority : Int)
      (resetOnFork : Bool) (found : processGetByPid m pid = some p)
      (known : Policy.ofNumber number = some policy) :
      Change m (.setPolicy pid number rtPriority resetOnFork) p
        { m.table p with policy, rtPriority := rtPriority.toNat, resetOnFork }

inductive Calls (m : Machine) (e : Event) : Machine → Prop where
  | none (nextPid : U32) (saver : Bool) : Calls m e { m with nextPid, saver }
  | one {p : Slot} {t : Task} (nextPid : U32) (change : Change m e p t) :
      Calls m e { m.setTask p t with nextPid }

theorem Calls.refl {e : Event} : Calls m e m := .none m.nextPid m.saver

theorem step_calls {e : Event} (other : e.switches = false) : Calls m e (step m e) := by
  cases e with
  | tick | yield => cases other
  | sleep ticks => exact .one m.nextPid (.sleep ticks)
  | wake p =>
    simp only [step, wake]
    split
    · next asleep =>
      exact .one m.nextPid (.state .ready (by simp [asleep]) (by decide) (by decide)
        fun _ => .inl asleep)
    · exact .refl m
  | stop p =>
    simp only [step, stop]
    split
    · exact .refl m
    · next alive =>
      exact .one m.nextPid (.state .stopped (fun free => alive (.inr (.inl free))) (by decide)
        (by decide) (by simp))
  | resume p =>
    simp only [step, resume]
    split
    · next stopped =>
      refine .one m.nextPid (.state _ (by simp [stopped]) ?_ ?_ fun _ => .inr rfl)
      · split <;> decide
      · split <;> decide
    · exact .refl m
  | finish p =>
    simp only [step, finish]
    split
    · exact .refl m
    · next alive =>
      exact .one m.nextPid (.state .zombie (fun free => alive (.inl free)) (by decide)
        (by decide) (by simp))
  | create uid =>
    simp only [step, processCreate]
    split
    · exact .refl m
    · next p found => exact .one _ (.create uid (by simpa using findSlot_some found))
  | setNice pid nice =>
    simp only [step, prioritySetNice]
    split
    · exact .refl m
    split
    · next allowed => exact .one m.nextPid (.nice pid nice allowed)
    · exact .refl m
  | setPolicy pid number rtPriority resetOnFork =>
    simp only [step, policySet]
    split
    · next p policy found known =>
      split
      · exact .one m.nextPid (.policy rtPriority resetOnFork found known)
      · exact .refl m
    · exact .refl m
  | setProfile saver => exact .none m.nextPid saver

end UzOS.Cpu
