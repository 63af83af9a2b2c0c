import UzOS.Kernel.Process
import UzOS.Lib.RoundRobin

/-! Who gets the CPU next and for how long: cpu_management's core/priority, core/policy,
core/power and the defence aging, with the switch itself (process_management's
core/scheduler). -/
namespace UzOS.Cpu
open Kernel (Slot ProcessState)

/-! ## Constants -/

def priorityIdle : Nat := 0
def priorityMin : Nat := 1
def priorityMax : Nat := 7
def niceMin : Int := -20
def niceMax : Int := 19
def niceDefault : Int := 0
def cpuSliceTicks : Nat := 5
def rrSliceTicks : Nat := 10
def agingTicks : Nat := 10
def rtRuntimePercent : Nat := 95
def rankRealtime : Nat := 100
def rankPerLevel : Nat := 10
def rankSchedIdle : Nat := 5
def pitInputHz : Nat := 1193180
def pitMinHz : Nat := (pitInputHz + 65534) / 65535

/-- The slot of the idle task, the first process scheduler_init makes. -/
def idleSlot : Slot := 0

inductive Policy where
  | other
  | fifo
  | rr
  | batch
  | idle
  deriving DecidableEq

/-- The table of policies: SCHED_DEADLINE (6) and everything else is unknown. -/
def Policy.ofNumber (number : Int) : Option Policy :=
  if number = 0 then some .other
  else if number = 1 then some .fifo
  else if number = 2 then some .rr
  else if number = 3 then some .batch
  else if number = 5 then some .idle
  else none

def Policy.isRealtime (policy : Policy) : Bool := policy == .fifo || policy == .rr

/-- What scheduling reads of a process. The defaults are what pcb_wipe leaves. -/
structure Task where
  pid : U32 := 0
  state : ProcessState := .free
  uid : U32 := 0
  isSystem : Bool := false
  sleepTicks : Nat := 0
  priority : Nat := 0
  nice : Int := 0
  policy : Policy := .other
  rtPriority : Nat := 0
  resetOnFork : Bool := false
  sliceLeft : Nat := 0
  waitedTicks : Nat := 0
  rlimNice : U32 := 0
  rlimRtprio : U32 := 0
  deriving DecidableEq

/-- A rate the timer chip can do (defence timer_frequency). -/
structure Frequency where
  hz : Nat
  ok : pitMinHz ≤ hz ∧ hz ≤ pitInputHz
  deriving DecidableEq

def timer100 : Frequency := ⟨100, by decide⟩

/-- `saver` is the power profile POWER_SAVER. After scheduler_init there always is a
current process. -/
structure Machine where
  timer : Frequency
  table : Slot → Task := fun _ => {}
  current : Slot := 0
  nextPid : U32 := 1
  rtPeriodTicks : Nat := 0
  rtUsedTicks : Nat := 0
  rtThrottled : Bool := false
  saver : Bool := false

/-! ## Ranks -/

def clampNice (nice : Int) : Int :=
  if nice < niceMin then niceMin else if nice > niceMax then niceMax else nice

/-- 40 nice values onto 7 levels. -/
def levelOfNice (nice : Int) : Nat := ((niceMax - clampNice nice) * priorityMax / 40 + 1).toNat

def aged (base waited : Nat) : Nat :=
  if base ≤ priorityIdle then base
  else if base + waited / agingTicks > priorityMax then priorityMax
  else base + waited / agingTicks

def Task.runnable (t : Task) : Bool := t.state == .ready || t.state == .running

def priorityRank (throttled : Bool) (t : Task) : Nat :=
  if t.policy.isRealtime && !throttled then rankRealtime + t.rtPriority
  else if t.policy = .idle then rankSchedIdle
  else aged t.priority t.waitedTicks * rankPerLevel

def powerSliceTicks (saver : Bool) : Nat := if saver then 2 * cpuSliceTicks else cpuSliceTicks

/-- 0 is a turn without end. -/
def policySliceTicks (throttled saver : Bool) (t : Task) : Nat :=
  if t.policy.isRealtime && !throttled then if t.policy = .fifo then 0 else rrSliceTicks
  else powerSliceTicks saver

theorem levelOfNice_pos (nice : Int) : 1 ≤ levelOfNice nice := by
  have top : clampNice nice ≤ niceMax := by
    unfold clampNice niceMin niceMax
    split
    · omega
    · split <;> omega
  unfold levelOfNice niceMax priorityMax at *
  omega

theorem aged_le (base waited : Nat) : aged base waited ≤ priorityMax := by
  unfold aged priorityIdle priorityMax
  split
  · omega
  · split <;> omega

/-- Six levels of ten ticks lift anyone but the idle task to the top. -/
theorem aged_top {base waited : Nat} (level : 1 ≤ base) (long : 60 ≤ waited) :
    aged base waited = priorityMax := by
  unfold aged priorityIdle priorityMax agingTicks
  split
  · omega
  · split <;> omega

/-- Only an unthrottled real-time process ranks above the top level. -/
theorem priorityRank_normal {t : Task} (normal : t.policy.isRealtime = false) (throttled : Bool) :
    priorityRank throttled t ≤ 70 := by
  have level := aged_le t.priority t.waitedTicks
  unfold priorityRank
  simp only [normal, Bool.false_and, Bool.false_eq_true, ↓reduceIte]
  split
  · decide
  unfold priorityMax at level
  unfold rankPerLevel
  omega

theorem powerSliceTicks_bounds (saver : Bool) :
    1 ≤ powerSliceTicks saver ∧ powerSliceTicks saver ≤ 2 * cpuSliceTicks := by
  cases saver <;> decide

namespace Machine

variable (m : Machine) (p : Slot)

def setTask (t : Task) : Machine :=
  { m with table := Function.update m.table p t }

def rank : Nat := priorityRank m.rtThrottled (m.table p)

/-- The process on the CPU. -/
def task : Task := m.table m.current

variable (m : Machine) (p : Slot) (t : Task)

@[simp, grind =] theorem setTask_table (q : Slot) (t : Task) :
    (m.setTask p t).table q = if q = p then t else m.table q := by
  simp [setTask, Function.update_apply]

@[simp, grind =] theorem setTask_current : (m.setTask p t).current = m.current := rfl

@[simp, grind =] theorem setTask_rtThrottled : (m.setTask p t).rtThrottled = m.rtThrottled := rfl

@[simp, grind =] theorem setTask_saver : (m.setTask p t).saver = m.saver := rfl

end Machine

/-! ## The choice -/

/-- The highest rank; among equals the first after the current process, itself last. -/
def choose (m : Machine) : Option Slot :=
  RoundRobin.firstBest (fun p => (m.table p).runnable) m.rank (RoundRobin.after m.current)

/-- Who the choice falls on. -/
abbrev Leader (m : Machine) (next : Slot) : Prop :=
  RoundRobin.First (fun p => (m.table p).runnable) m.rank m.current next

variable {m : Machine} {next : Slot}

theorem choose_leader (chosen : choose m = some next) :
    Leader m next := RoundRobin.scan_first chosen

theorem choose_none (chosen : choose m = none) (p : Slot) :
    (m.table p).runnable = false := RoundRobin.scan_none chosen p

theorem choose_eq (leader : Leader m next) : choose m = some next := RoundRobin.scan_eq leader

variable (m : Machine) (p : Slot)

/-- The note of a rescue by aging is left out. -/
def priorityPickNext : Option Slot := choose m

/-- The choice falls on the first after the current process among those of the highest
rank. So while `peers` are of the highest rank at every choice, all of them run before one
of them runs again. -/
theorem priorityPickNext_round_robin :
    (∀ m, (∀ next, priorityPickNext m = some next ↔ Leader m next) ∧
      (priorityPickNext m = none ↔ ∀ p, (m.table p).runnable = false)) ∧
    ∀ (turn : Nat → Machine) (j k : Nat) (peers : Set Slot), j < k →
      (∀ l, j ≤ l → l < k → priorityPickNext (turn l) = some (turn (l + 1)).current) →
      (∀ l, j ≤ l → l < k → ∀ p ∈ peers, ((turn l).table p).runnable = true ∧
        ∀ q, ((turn l).table q).runnable = true → (turn l).rank q ≤ (turn l).rank p) →
      (turn j).current ∈ peers → (turn k).current = (turn j).current →
      ∀ p ∈ peers, p ≠ (turn j).current → ∃ l, j < l ∧ l < k ∧ (turn l).current = p := by
  constructor
  · intro m
    refine ⟨fun next => ⟨choose_leader, choose_eq⟩, choose_none, fun idle => ?_⟩
    cases chosen : priorityPickNext m with
    | none => rfl
    | some next => exact absurd (choose_leader chosen).passes (by simp [idle next])
  · intro turn j k peers later picks top _ again p member other
    exact RoundRobin.First.turn_between (fun l start inside => choose_leader (picks l start inside))
      (fun l start inside => (top l start inside p member).1)
      (fun l start inside => (top l start inside p member).2) later again.symm other

/-- Two ready processes take turns. -/
def duet (l : Nat) : Machine :=
  { timer := timer100, current := if l % 2 = 0 then 1 else 2,
    table := fun p => if p = 1 ∨ p = 2 then { state := .ready, priority := 4 } else {} }

theorem priorityPickNext_duet : ∃ l, 0 < l ∧ l < 2 ∧ (duet l).current = 2 := by
  refine priorityPickNext_round_robin.2 duet 0 2 {1, 2} (by decide) ?_ ?_ (by decide) rfl 2
    (by decide) (by decide)
  · intro l _ inside
    interval_cases l <;> decide +kernel
  · intro l _ inside p member
    interval_cases l <;> rcases member with rfl | rfl <;> decide +kernel

/-! ## One tick -/

def rtLimit : Nat := m.timer.hz * rtRuntimePercent / 100

def holdsRealtime : Bool :=
  m.task.state == .running && m.task.policy.isRealtime

/-- rt_used_ticks with this tick counted. -/
def usedNow : Nat :=
  if holdsRealtime m && !m.rtThrottled then m.rtUsedTicks + 1 else m.rtUsedTicks

/-- Also says whether throttling has just begun. -/
def rtThrottleTick : Machine × Bool :=
  if m.rtPeriodTicks + 1 ≥ m.timer.hz then
    ({ m with rtPeriodTicks := 0, rtUsedTicks := 0, rtThrottled := false }, false)
  else if !m.rtThrottled && decide (usedNow m ≥ rtLimit m) then
    ({ m with
      rtPeriodTicks := m.rtPeriodTicks + 1, rtUsedTicks := usedNow m, rtThrottled := true }, true)
  else ({ m with rtPeriodTicks := m.rtPeriodTicks + 1, rtUsedTicks := usedNow m }, false)

/-- A new second, the start of throttling, or one more tick of the same kind. -/
theorem rtThrottleTick_cases :
    (m.timer.hz ≤ m.rtPeriodTicks + 1 ∧ rtThrottleTick m =
      ({ m with rtPeriodTicks := 0, rtUsedTicks := 0, rtThrottled := false }, false)) ∨
    (m.rtPeriodTicks + 1 < m.timer.hz ∧ m.rtThrottled = false ∧ rtLimit m ≤ usedNow m ∧
      rtThrottleTick m = ({ m with
        rtPeriodTicks := m.rtPeriodTicks + 1, rtUsedTicks := usedNow m, rtThrottled := true }, true)) ∨
    (m.rtPeriodTicks + 1 < m.timer.hz ∧ (m.rtThrottled ∨ usedNow m < rtLimit m) ∧
      rtThrottleTick m =
        ({ m with rtPeriodTicks := m.rtPeriodTicks + 1, rtUsedTicks := usedNow m }, false)) := by
  unfold rtThrottleTick
  by_cases last : m.rtPeriodTicks + 1 ≥ m.timer.hz
  · exact .inl ⟨last, if_pos last⟩
  right
  by_cases spent : (!m.rtThrottled && decide (usedNow m ≥ rtLimit m))
  · have both := spent
    simp only [Bool.and_eq_true, Bool.not_eq_true', decide_eq_true_eq] at both
    exact .inl ⟨by omega, both.1, both.2, by rw [if_neg last, if_pos spent]⟩
  have either := spent
  simp only [Bool.and_eq_true, Bool.not_eq_true', decide_eq_true_eq, not_and, not_le] at either
  refine .inr ⟨by omega, ?_, by rw [if_neg last, if_neg spent]⟩
  cases throttled : m.rtThrottled with
  | true => exact .inl rfl
  | false => exact .inr (either throttled)

def Machine.slice : Nat := policySliceTicks m.rtThrottled m.saver m.task

/-- Someone better than the current process waits and may push it off the CPU. -/
def preempted : Bool :=
  (choose m).any fun next =>
    (m.table next).policy != .batch && decide (m.rank next > m.rank m.current)

def spendTick : Machine :=
  if m.slice ≠ 0 then m.setTask m.current { m.task with sliceLeft := m.task.sliceLeft - 1 }
  else m

/-- Rules 3 and 4: must the current process give up the CPU on this tick? -/
def turnOver : Machine × Bool :=
  let (m, started) := rtThrottleTick m
  if started then (m, true)
  else if m.task.state ≠ .running then (m, true)
  else if m.slice ≠ 0 ∧ (spendTick m).task.sliceLeft = 0 then (spendTick m, true)
  else (spendTick m, preempted (spendTick m))

/-- Everyone who could run but does not waited one tick longer. -/
def countWaiting (next : Option Slot) : Machine :=
  { m with table := fun p =>
      if p ≠ m.current ∧ some p ≠ next ∧ (m.table p).state = .ready then
        { m.table p with waitedTicks := (m.table p).waitedTicks + 1 }
      else m.table p }

def priorityTick : Machine × Bool :=
  let (m, switchNow) := turnOver m
  (countWaiting m (if switchNow then choose m else some m.current), switchNow)

/-! ## The scheduler -/

def startTurn : Machine :=
  m.setTask p { m.table p with
    sliceLeft := policySliceTicks m.rtThrottled m.saver (m.table p), waitedTicks := 0 }

def setState (state : ProcessState) : Machine :=
  m.setTask p { m.table p with state }

/-- stack_guard: a process that has left its stack is retired. -/
def stackGuard (overflow : Bool) : Machine :=
  if overflow then setState m m.current .zombie else m

def switchTo (next : Slot) : Machine :=
  let left := if m.task.state = .running then setState m m.current .ready else m
  { startTurn (setState left next .running) next with current := next }

def schedulerYield (overflow : Bool) : Machine :=
  let m := stackGuard m overflow
  match choose m with
  | none => m
  | some next => if next = m.current then startTurn m next else switchTo m next

def wakeSleepers : Machine :=
  { m with table := fun p =>
      let t := m.table p
      if t.state ≠ .sleeping then t
      else if t.sleepTicks - 1 = 0 then { t with sleepTicks := 0, state := .ready }
      else { t with sleepTicks := t.sleepTicks - 1 } }

def reapZombies : Machine :=
  { m with table := fun p =>
      if (m.table p).state = .zombie ∧ p ≠ m.current then { m.table p with state := .free }
      else m.table p }

/-- The table as the tick's own decision finds it. -/
def tickStart : Machine := reapZombies (wakeSleepers m)

def schedulerTick (overflow : Bool) : Machine :=
  let (m, switchNow) := priorityTick (tickStart m)
  if switchNow then schedulerYield m overflow else m

/-! ## What a switch does -/

/-- `next` has the CPU: its turn begins and its waiting is over. Whoever ran until now
is ready again, everyone else is as before. -/
structure Took (m : Machine) (next : Slot) (m' : Machine) : Prop where
  machine : m' = { m with table := m'.table, current := next }
  picked : ∃ state, (state = .running ∨ next = m.current ∧ state = (m.table next).state) ∧
    m'.table next = { m.table next with
      state, sliceLeft := policySliceTicks m.rtThrottled m.saver (m.table next), waitedTicks := 0 }
  previous : next ≠ m.current → m.task.state = .running →
    m'.table m.current = { m.table m.current with state := .ready }
  others : ∀ p, p ≠ next → p ≠ m.current ∨ m.task.state ≠ .running → m'.table p = m.table p

variable {m}

theorem Took.left {m' : Machine} (took : Took m next m') (p : Slot) (other : p ≠ next) :
    m'.table p = m.table p ∨
      p = m.current ∧ m.task.state = .running ∧ m'.table p = { m.table p with state := .ready } := by
  by_cases kept : p ≠ m.current ∨ m.task.state ≠ .running
  · exact .inl (took.others p other kept)
  obtain ⟨own, running⟩ := not_or.mp kept
  have own : p = m.current := not_not.mp own
  have running : m.task.state = .running := not_not.mp running
  subst own
  exact .inr ⟨rfl, running, took.previous other.symm running⟩

theorem startTurn_took (m : Machine) : Took m m.current (startTurn m m.current) where
  machine := rfl
  picked := ⟨(m.table m.current).state, .inr ⟨rfl, rfl⟩, by simp [startTurn]⟩
  previous := fun moved => absurd rfl moved
  others := by
    intro p other _
    simp [startTurn, other]

theorem switchTo_took (moved : next ≠ m.current) : Took m next (switchTo m next) := by
  by_cases runs : m.task.state = .running
  · constructor
    · simp [switchTo, startTurn, setState, Machine.setTask, runs]
    · refine ⟨.running, .inl rfl, ?_⟩
      simp [switchTo, startTurn, setState, runs, moved, policySliceTicks]
    · simp [switchTo, startTurn, setState, runs, moved.symm]
    · intro p other kept
      have own : p ≠ m.current := kept.resolve_right fun still => still runs
      simp [switchTo, startTurn, setState, runs, other, own]
  · constructor
    · simp [switchTo, startTurn, setState, Machine.setTask, runs]
    · refine ⟨.running, .inl rfl, ?_⟩
      simp [switchTo, startTurn, setState, runs, policySliceTicks]
    · intro _ running
      exact absurd running runs
    · intro p other _
      simp [switchTo, startTurn, setState, runs, other]

theorem schedulerYield_cases (m : Machine) (overflow : Bool) :
    (choose (stackGuard m overflow) = none ∧ schedulerYield m overflow = stackGuard m overflow) ∨
      ∃ next, Leader (stackGuard m overflow) next ∧
        Took (stackGuard m overflow) next (schedulerYield m overflow) := by
  unfold schedulerYield
  cases chosen : choose (stackGuard m overflow) with
  | none => exact .inl ⟨rfl, by simp [chosen]⟩
  | some next =>
    refine .inr ⟨next, choose_leader chosen, ?_⟩
    by_cases same : next = (stackGuard m overflow).current
    · subst same
      simpa [chosen] using startTurn_took _
    · simpa [chosen, same] using switchTo_took same

/-! ## What a process keeps through switches, sleeps and ticks -/

def Lasting {α : Type} (f : Task → α) : Prop :=
  ∀ t state sleepTicks sliceLeft waitedTicks,
    f { t with state, sleepTicks, sliceLeft, waitedTicks } = f t

theorem lasting_policy : Lasting Task.policy := fun _ _ _ _ _ => rfl

theorem lasting_nice : Lasting Task.nice := fun _ _ _ _ _ => rfl

section Lasting

variable {α : Type} {f : Task → α} (h : Lasting f)
include h

theorem Lasting.state (t : Task) (state : ProcessState) : f { t with state } = f t :=
  h t state t.sleepTicks t.sliceLeft t.waitedTicks

theorem Lasting.turn (t : Task) (sliceLeft waitedTicks : Nat) :
    f { t with sliceLeft, waitedTicks } = f t :=
  h t t.state t.sleepTicks sliceLeft waitedTicks

variable (m : Machine) (p : Slot)

theorem Lasting.setState (state : ProcessState) (q : Slot) :
    f ((setState m p state).table q) = f (m.table q) := by
  by_cases here : q = p
  · subst here
    simpa [Cpu.setState] using h.state (m.table q) state
  · simp [Cpu.setState, here]

theorem Lasting.took {m m' : Machine} {next : Slot} (took : Took m next m') (p : Slot) :
    f (m'.table p) = f (m.table p) := by
  by_cases chosen : p = next
  · subst chosen
    obtain ⟨state, -, picked⟩ := took.picked
    rw [picked]
    exact h _ _ _ _ _
  · rcases took.left p chosen with same | ⟨-, -, same⟩
    · rw [same]
    rw [same]
    exact h.state _ _

theorem Lasting.schedulerYield (overflow : Bool) (p : Slot) :
    f ((schedulerYield m overflow).table p) = f (m.table p) := by
  have guarded : f ((stackGuard m overflow).table p) = f (m.table p) := by
    cases overflow with
    | false => rfl
    | true => exact h.setState m m.current .zombie p
  rcases schedulerYield_cases m overflow with ⟨-, same⟩ | ⟨next, -, took⟩
  · rw [same, guarded]
  · rw [h.took took, guarded]

theorem Lasting.wakeSleepers : f ((wakeSleepers m).table p) = f (m.table p) := by
  unfold Cpu.wakeSleepers
  simp only
  split
  · rfl
  split
  · exact h (m.table p) .ready 0 _ _
  · exact h (m.table p) _ _ _ _

theorem Lasting.tickStart : f ((tickStart m).table p) = f (m.table p) := by
  rw [← h.wakeSleepers m p]
  unfold Cpu.tickStart reapZombies
  simp only
  split
  · exact h.state _ .free
  · rfl

end Lasting

end UzOS.Cpu
