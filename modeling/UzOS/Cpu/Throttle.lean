import UzOS.Cpu.Fairness

/-! The share of each second that real-time processes may hold the CPU while others want
to run. -/
namespace UzOS.Cpu

open Bool Runs
open Kernel (Slot)

/-- Could run, and is neither real-time nor SCHED_IDLE. -/
def Task.normal (t : Task) : Bool :=
  t.runnable && !t.policy.isRealtime && t.policy != .idle

/-- A machine with a record of its throttling periods: the ticks that real-time processes
held the CPU in this one, the processes that were normal all through it so far, and for
each period that is over the ticks held and whether some process was normal throughout. -/
structure Watch where
  machine : Machine
  held : Nat := 0
  attended : Slot → Bool
  past : List (Nat × Bool) := []

def Event.isTick : Event → Bool
  | .tick _ => true
  | _ => false

def Watch.heldNow (w : Watch) (e : Event) : Nat :=
  if e.isTick && holdsRealtime w.machine then w.held + 1 else w.held

def Watch.observe (w : Watch) (e : Event) : Watch :=
  let m := step w.machine e
  if e.isTick && decide (w.machine.timer.hz ≤ w.machine.rtPeriodTicks + 1) then
    { machine := m, attended := fun p => (m.table p).normal
      past := w.past ++ [(w.heldNow e, decide (∃ p, w.attended p = true))] }
  else
    { machine := m, held := w.heldNow e, past := w.past
      attended := fun p => w.attended p && (m.table p).normal }

variable (overflow : Bool) {w : Watch}

theorem Watch.observe_mid (more : w.machine.rtPeriodTicks + 1 < w.machine.timer.hz) :
    w.observe (.tick overflow) =
      { machine := schedulerTick w.machine overflow, held := w.heldNow (.tick overflow)
        attended := fun p => w.attended p && ((schedulerTick w.machine overflow).table p).normal
        past := w.past } := by
  simp [observe, step, more]

theorem Watch.observe_last (last : w.machine.timer.hz ≤ w.machine.rtPeriodTicks + 1) :
    w.observe (.tick overflow) =
      { machine := schedulerTick w.machine overflow
        attended := fun p => ((schedulerTick w.machine overflow).table p).normal
        past := w.past ++ [(w.heldNow (.tick overflow), decide (∃ p, w.attended p))] } := by
  simp [observe, Event.isTick, step, last]

def watch (timer : Frequency) : Watch where
  machine := boot timer
  attended := fun p => ((boot timer).table p).normal

/-- While throttled, every real-time process that could run ranks below some normal one. -/
def givesWay (m : Machine) : Bool := decide (m.rtThrottled = true →
  (∃ p, (m.table p).normal = true) → ∀ r, (m.table r).runnable = true →
    (m.table r).policy.isRealtime = true → ∃ p, (m.table p).normal = true ∧ m.rank r < m.rank p)

/-- The table from which the step chooses who runs next, if it does. -/
def atChoice (m : Machine) : Event → Option Machine
  | .tick overflow =>
    let (m, switchNow) := priorityTick (tickStart m)
    if switchNow then some (stackGuard m overflow) else none
  | .yield overflow => some (stackGuard m overflow)
  | _ => none

/-- The running process does not turn real-time while that is throttled. -/
def staysNormal (m : Machine) : Event → Bool
  | .setPolicy pid number _ _ =>
    !(m.rtThrottled && processGetByPid m pid == some m.current &&
      (Policy.ofNumber number).any Policy.isRealtime)
  | _ => true

def modest (w : Watch) (e : Event) : Bool :=
  (atChoice w.machine e).all givesWay && staysNormal w.machine e

/-! ## Clocks -/

def Machine.clocks (m : Machine) : Frequency × Nat × Nat × Bool :=
  (m.timer, m.rtPeriodTicks, m.rtUsedTicks, m.rtThrottled)

section Clocks

variable (m : Machine)

@[simp] theorem setTask_clocks (p : Slot) (t : Task) : (m.setTask p t).clocks = m.clocks := rfl

variable (overflow : Bool)

@[simp] theorem stackGuard_clocks : (stackGuard m overflow).clocks = m.clocks := by
  cases overflow <;> rfl

@[simp] theorem schedulerYield_clocks : (schedulerYield m overflow).clocks = m.clocks := by
  rw [← stackGuard_clocks m overflow]
  rcases schedulerYield_cases m overflow with ⟨-, same⟩ | ⟨next, -, took⟩
  · rw [same]
  rw [took.machine]
  rfl

@[simp] theorem spendTick_clocks : (spendTick m).clocks = m.clocks := by
  unfold spendTick
  split <;> rfl

@[simp] theorem turnOver_clocks : (turnOver m).1.clocks = (decision m).clocks := by
  rcases turnOver_fst m with same | same <;> simp [same]

@[simp] theorem schedulerTick_clocks :
    (schedulerTick m overflow).clocks = (decision (tickStart m)).clocks := by
  unfold schedulerTick priorityTick
  simp only
  split
  · rw [schedulerYield_clocks]
    exact turnOver_clocks _
  · exact turnOver_clocks _

theorem step_clocks {e : Event} (other : e.isTick = false) : (step m e).clocks = m.clocks := by
  cases switch : e.switches with
  | true =>
    cases e with
    | yield overflow => exact schedulerYield_clocks m overflow
    | tick => cases other
    | _ => cases switch
  | false =>
    have calls := step_calls m switch
    generalize step m e = m' at calls
    cases calls <;> rfl

end Clocks

/-! ## Who holds the CPU -/

section Holder

variable {m : Machine}

variable {overflow : Bool} {p : Slot}

/-- If somebody normal comes out of a switch under throttling, the one who got the CPU
is not real-time. -/
theorem schedulerYield_normal (way : givesWay (stackGuard m overflow))
    (throttled : m.rtThrottled)
    (normal : ((schedulerYield m overflow).table p).normal) :
    holdsRealtime (schedulerYield m overflow) = false := by
  have still : (stackGuard m overflow).rtThrottled := by
    cases overflow <;> exact throttled
  rcases schedulerYield_cases m overflow with ⟨nobody, same⟩ | ⟨next, leader, took⟩
  · rw [same] at normal
    have idle := choose_none nobody p
    simp [Task.normal, idle] at normal
  · generalize schedulerYield m overflow = m' at *
    generalize stackGuard m overflow = g at *
    have policy : m'.task.policy = (g.table next).policy := by
      rw [Machine.task, show m'.current = next by rw [took.machine]]
      exact lasting_policy.took took next
    have winner : (g.table next).policy.isRealtime = false := by
      by_cases chosen : p = next
      · subst chosen
        rw [← lasting_policy.took took p]
        simp only [Task.normal, and_eq_true, not_eq_true'] at normal
        exact normal.1.2
      · have before : (g.table p).normal := by
          rcases took.left p chosen with same | ⟨rfl, running, same⟩
          · rwa [same] at normal
          rw [same] at normal
          have running : (g.table g.current).state = .running := running
          simpa [Task.normal, Task.runnable, running] using normal
        by_contra realtime
        obtain ⟨q, fine, higher⟩ := of_decide_eq_true way still ⟨p, before⟩ next leader.passes
          (by simpa using realtime)
        have runs : (g.table q).runnable := by
          simp only [Task.normal, and_eq_true] at fine
          exact fine.1.1
        exact absurd (leader.highest q runs) (not_le.mpr higher)
    simp [holdsRealtime, policy, winner]

theorem setTask_holdsRealtime {t : Task} (quiet : holdsRealtime m = false)
    (same : p = m.current → t.state = .running →
      m.task.state = .running ∧ t.policy.isRealtime = m.task.policy.isRealtime) :
    holdsRealtime (m.setTask p t) = false := by
  by_cases own : m.current = p
  · have task : (m.setTask p t).task = t := by simp [Machine.task, own]
    by_cases running : t.state = .running
    · obtain ⟨before, policy⟩ := same own.symm running
      simpa [holdsRealtime, task, running, policy, before] using quiet
    · simp [holdsRealtime, task, running]
  · have task : (m.setTask p t).task = m.task := by simp [Machine.task, own]
    simpa [holdsRealtime, task] using quiet

/-- Apart from ticks and switches nobody is put on the CPU. -/
theorem step_holdsRealtime {e : Event} (quiet : holdsRealtime m = false)
    (throttled : m.rtThrottled) (stays : staysNormal m e) (other : e.switches = false) :
    holdsRealtime (step m e) = false := by
  have calls := step_calls m other
  generalize step m e = m' at calls
  cases calls with
  | none => exact quiet
  | one nextPid change =>
    refine setTask_holdsRealtime quiet fun own running => ?_
    cases change with
    | sleep => cases running
    | state state _ _ off => exact absurd running off
    | create uid => simp [newborn] at running
    | nice => subst own; exact ⟨running, rfl⟩
    | @policy _ _ _ policy rtPriority reset found known =>
      subst own
      have running : m.task.state = .running := running
      have normal : policy.isRealtime = false := by
        simpa [staysNormal, throttled, found, known] using stays
      refine ⟨running, ?_⟩
      simpa [holdsRealtime, running, normal] using quiet.symm

/-- Waking others does not change who holds the CPU. -/
theorem tickStart_holdsRealtime (m : Machine) : holdsRealtime (tickStart m) = holdsRealtime m := by
  have here : (tickStart m).current = m.current := rfl
  by_cases running : m.task.state = .running
  · have same : (tickStart m).table m.current = m.table m.current := by
      have running : (m.table m.current).state = .running := running
      simp [tickStart, reapZombies, wakeSleepers, running]
    simp [holdsRealtime, Machine.task, here, same]
  · have still : (tickStart m).task.state ≠ .running := by
      have running : (m.table m.current).state ≠ .running := running
      simp only [tickStart, reapZombies, wakeSleepers, Machine.task]
      split <;> split <;> try split
      all_goals simp_all
    have before : (m.task.state == .running) = false := beq_eq_false_iff_ne.mpr running
    have after : ((tickStart m).task.state == .running) = false := beq_eq_false_iff_ne.mpr still
    simp [holdsRealtime, before, after]

/-- Under throttling a tick that does not switch keeps the holder, and one that does
gives the CPU to a process that is not real-time. -/
theorem schedulerTick_normal (way : (atChoice m (.tick overflow)).all givesWay)
    (throttled : (decision (tickStart m)).rtThrottled)
    (quiet : holdsRealtime m → (rtThrottleTick (tickStart m)).2)
    (normal : ((schedulerTick m overflow).table p).normal) :
    holdsRealtime (schedulerTick m overflow) = false := by
  by_cases switches : (turnOver (tickStart m)).2
  · have same : schedulerTick m overflow =
        schedulerYield (priorityTick (tickStart m)).1 overflow := by
      simp [schedulerTick, priorityTick, switches]
    rw [same] at normal ⊢
    apply schedulerYield_normal _ _ normal
    · simpa [atChoice, priorityTick, switches] using way
    · exact (turnOver_rtThrottled _).trans throttled
  · have same : schedulerTick m overflow = (priorityTick (tickStart m)).1 := by
      simp [schedulerTick, priorityTick, switches]
    have before : holdsRealtime m = false := by
      by_contra holds
      have started := quiet (by simpa using holds)
      exact switches (turnOver_ends fun goesOn => by simp [goesOn.1] at started)
    rw [same, ← before, ← tickStart_holdsRealtime m]
    generalize tickStart m = s at *
    obtain ⟨left, turned⟩ := turnOver_table s s.current
    obtain ⟨waited, counted, -⟩ := countWaiting_waited (turnOver s).1
      (some (turnOver s).1.current) s.current
    have task : (priorityTick s).1.task =
        { s.task with sliceLeft := left, waitedTicks := waited } := by
      have here : (priorityTick s).1.current = s.current := turnOver_current s
      rw [turned] at counted
      rw [Machine.task, here]
      simp only [priorityTick, switches]
      exact counted
    rw [holdsRealtime, task]
    rfl

end Holder

/-! ## Every run -/

/-- What holds between any two steps. -/
structure Kept (timer : Frequency) (w : Watch) : Prop where
  rate : w.machine.timer = timer
  used : w.machine.rtUsedTicks ≤ timer.hz * 95 / 100
  unthrottled : w.machine.rtThrottled = false → w.machine.rtUsedTicks < timer.hz * 95 / 100
  counted : ∀ p, w.attended p = true → w.held = w.machine.rtUsedTicks
  yielded : ∀ p, w.attended p = true → w.machine.rtThrottled = true →
    holdsRealtime w.machine = false
  past : ∀ r ∈ w.past, r.2 = true → r.1 * 100 ≤ 95 * timer.hz

section Watching

variable {timer : Frequency} {w : Watch}

theorem limit_pos (timer : Frequency) : 0 < timer.hz * 95 / 100 := by
  have low := timer.ok.1
  unfold pitMinHz pitInputHz at low
  omega

theorem Kept.heldNow (h : Kept timer w) {p : Slot} (seen : w.attended p) (overflow : Bool) :
    w.heldNow (.tick overflow) = usedNow w.machine := by
  have same := h.counted p seen
  have gone := h.yielded p seen
  cases throttled : w.machine.rtThrottled with
  | true => simp [Watch.heldNow, usedNow, gone throttled, same]
  | false => simp [Watch.heldNow, usedNow, Event.isTick, throttled, same]

theorem Kept.usedNow_le (h : Kept timer w) : usedNow w.machine ≤ timer.hz * 95 / 100 := by
  have most := h.used
  unfold usedNow
  split
  · next counts =>
    simp only [and_eq_true, not_eq_true'] at counts
    exact h.unthrottled counts.2
  · exact most

theorem usedNow_tickStart (m : Machine) : usedNow (tickStart m) = usedNow m := by
  have throttled : (tickStart m).rtThrottled = m.rtThrottled := rfl
  have used : (tickStart m).rtUsedTicks = m.rtUsedTicks := rfl
  simp [usedNow, tickStart_holdsRealtime, throttled, used]

theorem Kept.event (h : Kept timer w) {e : Event} (other : e.isTick = false)
    (ok : modest w e) : Kept timer (w.observe e) := by
  obtain ⟨way, stays⟩ := and_eq_true_iff.mp ok
  have clocks := step_clocks w.machine other
  simp only [Machine.clocks, Prod.mk.injEq] at clocks
  obtain ⟨sameTimer, -, sameUsed, sameThrottled⟩ := clocks
  have seen : w.observe e = { machine := step w.machine e, held := w.held, past := w.past
                              attended := fun p => w.attended p &&
                                ((step w.machine e).table p).normal } := by
    simp [Watch.observe, Watch.heldNow, other]
  rw [seen]
  constructor
  · exact sameTimer.trans h.rate
  · exact sameUsed ▸ h.used
  · rw [sameThrottled, sameUsed]
    exact h.unthrottled
  · intro p both
    rw [sameUsed]
    exact h.counted p (and_eq_true_iff.mp both).1
  · intro p both throttled
    obtain ⟨attended, normal⟩ := and_eq_true_iff.mp both
    have before : w.machine.rtThrottled := sameThrottled.symm.trans throttled
    cases switch : e.switches with
    | true =>
      cases e with
      | yield overflow => exact schedulerYield_normal way before normal
      | tick => cases other
      | _ => cases switch
    | false => exact step_holdsRealtime (h.yielded p attended before) before stays switch
  · exact h.past

theorem Kept.tick (h : Kept timer w) {overflow : Bool} (ok : modest w (.tick overflow)) :
    Kept timer (w.observe (.tick overflow)) := by
  have way := (and_eq_true_iff.mp ok).1
  have most := h.usedNow_le
  have now := usedNow_tickStart w.machine
  have clocks := schedulerTick_clocks w.machine overflow
  have rate : (tickStart w.machine).timer = timer := h.rate
  have limit : rtLimit (tickStart w.machine) = timer.hz * 95 / 100 := by rw [rtLimit, rate]; rfl
  have flag : (tickStart w.machine).rtThrottled = w.machine.rtThrottled := rfl
  have normal (p : Slot) := @schedulerTick_normal w.machine overflow way (p := p)
  unfold decision at clocks normal
  rcases rtThrottleTick_cases (tickStart w.machine) with
    ⟨last, same⟩ | ⟨more, free, spent, same⟩ | ⟨more, kind, same⟩
  · -- a new second
    rw [same] at clocks
    simp only [Machine.clocks, Prod.mk.injEq] at clocks
    obtain ⟨sameTimer, -, used, throttled⟩ := clocks
    rw [Watch.observe_last overflow last]
    constructor
    · exact sameTimer.trans h.rate
    · exact le_of_eq_of_le used zero_le
    · intro _
      exact lt_of_eq_of_lt used (limit_pos timer)
    · intro p _
      exact used.symm
    · intro p _ still
      exact absurd (throttled.symm.trans still) (by decide)
    · intro r found attended
      rcases List.mem_append.mp found with earlier | new
      · exact h.past r earlier attended
      rw [List.mem_singleton.mp new] at attended ⊢
      obtain ⟨p, here⟩ := of_decide_eq_true attended
      rw [h.heldNow here overflow]
      omega
  all_goals
    rw [Watch.observe_mid overflow more]
    rw [same] at clocks
    simp only [Machine.clocks, Prod.mk.injEq] at clocks
    obtain ⟨sameTimer, -, used, throttled⟩ := clocks
  · -- throttling begins
    constructor
    · exact sameTimer.trans h.rate
    · exact le_of_eq_of_le (used.trans now) most
    · intro still
      exact absurd (throttled.symm.trans still) (by decide)
    · intro p both
      rw [h.heldNow (and_eq_true_iff.mp both).1 overflow]
      exact (used.trans now).symm
    · intro p both _
      apply normal p (by rw [same]) (fun _ => by rw [same])
      exact (and_eq_true_iff.mp both).2
    · exact h.past
  · constructor
    · exact sameTimer.trans h.rate
    · exact le_of_eq_of_le (used.trans now) most
    · intro still
      have still : w.machine.rtThrottled = false := throttled.symm.trans still
      have few := kind.resolve_left (by rw [flag, still]; decide)
      rw [limit] at few
      exact lt_of_eq_of_lt used few
    · intro p both
      rw [h.heldNow (and_eq_true_iff.mp both).1 overflow]
      exact (used.trans now).symm
    · intro p both still
      have still : w.machine.rtThrottled := throttled.symm.trans still
      obtain ⟨attended, fine⟩ := and_eq_true_iff.mp both
      have gone := h.yielded p attended still
      apply normal p _ _ fine
      · rw [same]
        exact still
      · intro holds
        rw [gone] at holds
        cases holds
    · exact h.past

theorem Kept.observe (h : Kept timer w) (e : Event) (ok : modest w e) :
    Kept timer (w.observe e) := by
  cases tick : e.isTick with
  | false => exact h.event tick ok
  | true =>
    cases e with
    | tick overflow => exact h.tick ok
    | _ => cases tick

theorem watch_kept (timer : Frequency) : Kept timer (watch timer) where
  rate := rfl
  used := zero_le
  unthrottled := fun _ => limit_pos timer
  counted := fun _ _ => rfl
  yielded := nofun
  past := nofun

end Watching

/-- In a run whose every step is modest, real-time processes held the CPU for at most 95%
of the ticks of every period through which some process stayed normal. -/
theorem realtime_share (timer : Frequency) (events : List Event)
    (ok : Runs.everyStep Watch.observe modest (watch timer) events = true) (held : Nat)
    (ended : (held, true) ∈ (Runs.run Watch.observe (watch timer) events).past) :
    held * 100 ≤ rtRuntimePercent * timer.hz := by
  have kept : Kept timer (Runs.run Watch.observe (watch timer) events) :=
    run_keeps (fun _ e h ok => h.observe e ok) (watch_kept timer) events ok
  exact kept.past (held, true) ended rfl

/-! ## A second with real-time processes -/

theorem Watch.same {w' : Watch} (table : ∀ p, w.machine.table p = w'.machine.table p)
    (clocks : w.machine.clocks = w'.machine.clocks)
    (rest : w.machine.current = w'.machine.current ∧ w.machine.nextPid = w'.machine.nextPid ∧
      w.machine.saver = w'.machine.saver) (record : w.held = w'.held ∧ w.past = w'.past)
    (attended : ∀ p, w.attended p = w'.attended p) : w = w' := by
  obtain ⟨⟨timer, table', current, nextPid, period, used, throttled, saver⟩, held, seen, past⟩ := w
  simp only [Machine.clocks, Prod.mk.injEq] at clocks rest record table attended
  simp only [clocks, rest, record, funext table, funext attended]

/-- One tick inside the second, told by what it leaves behind. -/
theorem Watch.observe_same {w' : Watch} {m : Machine} (ticked : schedulerTick w.machine false = m)
    (more : w.machine.rtPeriodTicks + 1 < w.machine.timer.hz)
    (table : ∀ p, m.table p = w'.machine.table p) (clocks : m.clocks = w'.machine.clocks)
    (rest : m.current = w'.machine.current ∧ m.nextPid = w'.machine.nextPid ∧
      m.saver = w'.machine.saver) (record : w.heldNow (.tick false) = w'.held ∧ w.past = w'.past)
    (attended : w.attended = w'.attended)
    (normal : ∀ p, w'.attended p → (w'.machine.table p).normal) :
    w.observe (.tick false) = w' := by
  rw [Watch.observe_mid false more, ticked]
  refine Watch.same table clocks rest record ?_
  intro p
  simp only [table, attended]
  cases seen : w'.attended p with
  | false => rfl
  | true => exact normal p seen

/-- Slot 2 turns real-time and takes the CPU. With a rival, slot 3 turns real-time too, at
a lower priority, and gets level 7. -/
def coronation (rival : Bool) : List Event :=
  [.create 0, .setPolicy 3 1 50 false] ++
    (if rival then [.create 0, .setPolicy 4 1 40 false, .setNice 4 (-20)] else []) ++ [.yield false]

def oneSecond : List Event := List.replicate 94 (.tick false) ++ List.replicate 6 (.tick false)

/-- Slot 1 wants to run all the time. -/
def court (rival : Bool) (k : Nat) (p : Slot) : Task :=
  if p = 0 then { pid := 1, state := .ready, isSystem := true, waitedTicks := k }
  else if p = 1 then
    { pid := 2, state := .ready, isSystem := true, priority := 4, sliceLeft := 5, waitedTicks := k }
  else if p = 2 then
    { pid := 3, state := .running, priority := 4, policy := .fifo, rtPriority := 50 }
  else if p = 3 ∧ rival then
    { pid := 4, state := .ready, nice := -20, priority := 7, policy := .fifo, rtPriority := 40
      waitedTicks := k }
  else {}

/-- Slot 2 has held the CPU for the `k` ticks of this second. -/
def reign (rival : Bool) (k : Nat) : Watch where
  machine := {
    timer := timer100, table := court rival k, current := 2, nextPid := if rival then 5 else 4
    rtPeriodTicks := k, rtUsedTicks := k }
  held := k
  attended := fun p => decide (p ≤ 1)

theorem coronation_reign (rival : Bool) :
    Runs.run Watch.observe (watch timer100) (coronation rival) = reign rival 0 := by
  refine Watch.same ?_ ?_ ?_ ?_ ?_ <;> cases rival <;> decide +kernel

theorem court_tick : ∀ rival, ∀ k < 94, ∀ m, schedulerTick (reign rival k).machine false = m →
    (∀ p, m.table p = court rival (k + 1) p) ∧ m.clocks = (reign rival (k + 1)).machine.clocks ∧
      (m.current = 2 ∧ m.nextPid = (reign rival k).machine.nextPid ∧ m.saver = false) ∧
      (∀ p, (reign rival k).attended p → (court rival (k + 1) p).normal) ∧
      modest (reign rival k) (.tick false) := by
  simp only [forall_eq']
  decide +kernel

theorem reign_ticks (rival : Bool) {n : Nat} (most : n ≤ 94) :
    everyStep Watch.observe modest (reign rival 0) (List.replicate n (.tick false)) ∧
      Runs.run Watch.observe (reign rival 0) (List.replicate n (.tick false)) = reign rival n := by
  induction n with
  | zero => exact ⟨rfl, rfl⟩
  | succ n ih =>
    obtain ⟨ok, before⟩ := ih (by omega)
    obtain ⟨table, clocks, rest, normal, calm⟩ := court_tick rival n (by omega) _ rfl
    have inside : n + 1 < 100 := by omega
    have next : (reign rival n).observe (.tick false) = reign rival (n + 1) :=
      Watch.observe_same rfl inside table clocks rest ⟨rfl, rfl⟩ rfl normal
    rw [List.replicate_succ', everyStep_join, run_append, ok, before, run_single, next]
    exact ⟨by simp [everyStep, calm], rfl⟩

theorem oneSecond_past (rival : Bool) :
    (Runs.run Watch.observe (watch timer100) (coronation rival ++ oneSecond)).past =
      [(if rival then 100 else 95, true)] := by
  simp only [oneSecond, run_append, coronation_reign, (reign_ticks rival (le_refl 94)).2]
  cases rival <;> decide +kernel

/-- A process that is real-time all alone is throttled at 95 ticks, and kernel_main runs. -/
theorem throttled_second_share :
    let events := coronation false ++ oneSecond
    everyStep Watch.observe modest (watch timer100) events = true ∧
      (95, true) ∈ (Runs.run Watch.observe (watch timer100) events).past ∧
      95 * 100 ≤ rtRuntimePercent * timer100.hz := by
  have ok : everyStep Watch.observe modest (watch timer100) (coronation false ++ oneSecond) := by
    obtain ⟨ticks, before⟩ := reign_ticks false (le_refl 94)
    simp only [oneSecond, everyStep_join, coronation_reign, ticks, before]
    decide +kernel
  have ended : (95, true) ∈ (Runs.run Watch.observe (watch timer100)
      (coronation false ++ oneSecond)).past := by simp [oneSecond_past]
  exact ⟨ok, ended, realtime_share timer100 _ ok 95 ended⟩

/-- kernel_main could run all second long, and two real-time processes held the CPU for all
of its 100 ticks: when the first has used up its share, the second follows it with its nice
level. -/
theorem whole_second_realtime :
    (Runs.run Watch.observe (watch timer100) (coronation true ++ oneSecond)).past = [(100, true)] :=
  oneSecond_past true

end UzOS.Cpu
