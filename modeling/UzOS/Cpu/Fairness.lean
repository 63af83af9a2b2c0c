import UzOS.Cpu.Preempt
import UzOS.Cpu.Run

/-! How long a ready process can wait for the CPU. Waiting lifts a process to the top
level; from then on every switch brings the current slot nearer to it, as long as no
real-time process takes the CPU out of turn. -/
namespace UzOS.Cpu
open Kernel (Slot ProcessState maxProcesses)
open RoundRobin (ahead)

/-- Ticks of waiting that lift the lowest level to the top. -/
def topAfter : Nat := (priorityMax - priorityMin) * agingTicks

def longestTurn : Nat := 2 * cpuSliceTicks

def waitBound : Nat := topAfter + (maxProcesses - 1) * longestTurn

/-- Ready, and neither the idle task nor SCHED_IDLE. -/
def Contends (m : Machine) (p : Slot) : Prop :=
  (m.table p).state = .ready ∧ p ≠ idleSlot ∧ (m.table p).policy ≠ .idle

instance (m : Machine) (p : Slot) : Decidable (Contends m p) :=
  inferInstanceAs (Decidable (_ ∧ _))

def noRealtime (m : Machine) : Bool :=
  decide (∀ p, (m.table p).runnable = true → (m.table p).policy.isRealtime = false)

/-- No real-time process can run when the scheduler chooses, and a process that was
stopped or SCHED_IDLE does not come back among the others with a long wait. -/
def calm (m : Machine) : Event → Bool
  | .tick _ => noRealtime (tickStart m)
  | .yield _ => noRealtime m
  | .resume p => decide ((m.table p).waitedTicks < topAfter)
  | .setPolicy pid _ _ _ => (processGetByPid m pid).all fun p =>
      (m.table p).state != .ready || (m.table p).policy != .idle ||
        decide ((m.table p).waitedTicks < topAfter)
  | _ => true

/-- The switches and ticks still ahead of a process at the top level, counted against
what it has waited. Before a switch the rest of the current turn does not count. -/
structure Poised (m : Machine) : Prop where
  alive : m.task.state ≠ .free
  slice : m.task.sliceLeft ≤ longestTurn
  fresh : m.task.waitedTicks = 0
  levels : ∀ p, (m.table p).state ≠ .free → p ≠ idleSlot → 1 ≤ (m.table p).priority
  asleep : ∀ p, (m.table p).state = .sleeping → (m.table p).waitedTicks < topAfter
  turn : ∀ p, p ≠ m.current → Contends m p → topAfter ≤ (m.table p).waitedTicks →
    (m.table p).waitedTicks + longestTurn * ahead m.current p ≤ waitBound + longestTurn

structure Paced (m : Machine) : Prop extends Poised m where
  rest : ∀ p, p ≠ m.current → Contends m p → topAfter ≤ (m.table p).waitedTicks →
    (m.table p).waitedTicks + longestTurn * ahead m.current p + max 1 m.task.sliceLeft ≤
      waitBound + longestTurn

theorem bounds : topAfter = 60 ∧ longestTurn = 10 ∧ waitBound = 690 := ⟨rfl, rfl, rfl⟩

theorem ahead_le_63 {p q : Slot} (other : q ≠ p) : ahead p q ≤ 63 := by
  have less := RoundRobin.ahead_lt other
  have size : maxProcesses = 64 := rfl
  omega

/-! ## Ranks without real-time processes -/

section Ranks

variable {m : Machine} {p : Slot}

theorem rank_le_top (quiet : noRealtime m) (runs : (m.table p).runnable) :
    m.rank p ≤ 70 :=
  priorityRank_normal (of_decide_eq_true quiet p runs) m.rtThrottled

theorem rank_top (quiet : noRealtime m) (h : Poised m) (contends : Contends m p)
    (long : topAfter ≤ (m.table p).waitedTicks) : m.rank p = 70 := by
  obtain ⟨ready, notIdle, policy⟩ := contends
  have runs : (m.table p).runnable := by simp [Task.runnable, ready]
  have normal := of_decide_eq_true quiet p runs
  have level := h.levels p (by simp [ready]) notIdle
  have top := aged_top level long
  unfold Machine.rank priorityRank
  simp only [normal, policy, top]
  rfl

theorem slice_le (quiet : noRealtime m) (runs : (m.table p).runnable) :
    1 ≤ policySliceTicks m.rtThrottled m.saver (m.table p) ∧
      policySliceTicks m.rtThrottled m.saver (m.table p) ≤ longestTurn := by
  have normal := of_decide_eq_true quiet p runs
  simpa [policySliceTicks, normal, longestTurn] using powerSliceTicks_bounds m.saver

end Ranks

/-! ## Changing one process -/

/-- A change of one process that makes nobody wait longer than counted. -/
structure Steady (m : Machine) (p : Slot) (t : Task) : Prop where
  own : p = m.current → t.state ≠ .free ∧ t.sliceLeft ≤ m.task.sliceLeft ∧ t.waitedTicks = 0
  level : t.state ≠ .free → p ≠ idleSlot → 1 ≤ t.priority
  asleep : t.state = .sleeping → t.waitedTicks < topAfter
  waits : t.state = .ready → p ≠ idleSlot → t.policy ≠ .idle → topAfter ≤ t.waitedTicks →
    Contends m p ∧ (m.table p).waitedTicks = t.waitedTicks

section Change

variable {m m' : Machine} {p : Slot} {t : Task}

theorem Poised.steady (h : Poised m) (p : Slot) : Steady m p (m.table p) where
  own := by
    rintro rfl
    exact ⟨h.alive, le_refl _, h.fresh⟩
  level := h.levels p
  asleep := h.asleep p
  waits := fun ready notIdle policy _ => ⟨⟨ready, notIdle, policy⟩, rfl⟩

theorem Poised.change (h : Poised m) (same : m'.current = m.current)
    (all : ∀ p, Steady m p (m'.table p)) : Poised m' := by
  have own := (all m.current).own rfl
  have task : m'.task = m'.table m.current := by rw [Machine.task, same]
  constructor
  · exact task ▸ own.1
  · exact task ▸ le_trans own.2.1 h.slice
  · exact task ▸ own.2.2
  · exact fun p => (all p).level
  · exact fun p => (all p).asleep
  · intro p other contends long
    obtain ⟨ready, notIdle, policy⟩ := contends
    obtain ⟨before, waited⟩ := (all p).waits ready notIdle policy long
    rw [same] at other ⊢
    rw [← waited] at long ⊢
    exact h.turn p other before long

theorem Paced.change (h : Paced m) (same : m'.current = m.current)
    (all : ∀ p, Steady m p (m'.table p)) : Paced m' where
  toPoised := h.toPoised.change same all
  rest := by
    intro p other contends long
    obtain ⟨ready, notIdle, policy⟩ := contends
    obtain ⟨before, waited⟩ := (all p).waits ready notIdle policy long
    have less := ((all m.current).own rfl).2.1
    have task : m'.task = m'.table m.current := by rw [Machine.task, same]
    rw [same] at other ⊢
    rw [← waited] at long ⊢
    rw [task]
    have old := h.rest p other before long
    omega

theorem Poised.steady_one (h : Poised m) (steady : Steady m p t) (q : Slot) :
    Steady m q ((m.setTask p t).table q) := by
  by_cases here : q = p
  · subst here
    simpa using steady
  · simpa [here] using h.steady q

theorem Poised.setTask (h : Poised m) (steady : Steady m p t) : Poised (m.setTask p t) :=
  h.change rfl (h.steady_one steady)

theorem Paced.setTask (h : Paced m) (steady : Steady m p t) : Paced (m.setTask p t) :=
  h.change rfl (h.steady_one steady)

/-- Leaving the competition, or entering it after a short wait. -/
theorem Poised.steady_state (h : Poised m) {state : ProcessState}
    (before : (m.table p).state ≠ .free) (alive : state ≠ .free)
    (short : state = .ready ∨ state = .sleeping → (m.table p).waitedTicks < topAfter) :
    Steady m p { m.table p with state } where
  own := by
    rintro rfl
    exact ⟨alive, le_refl _, h.fresh⟩
  level := fun _ notIdle => h.levels p before notIdle
  asleep := fun sleeping => short (.inr sleeping)
  waits := by
    intro ready _ _ long
    have few := short (.inl ready)
    exact absurd long (not_le.mpr few)

end Change

/-! ## A switch -/

section Switch

variable {m m' : Machine} {next : Slot}

theorem noRealtime_setState_zombie (quiet : noRealtime m) (p : Slot) :
    noRealtime (setState m p .zombie) := by
  apply decide_eq_true
  intro q runs
  by_cases here : q = p
  · subst here
    simp [setState, Task.runnable] at runs
  simp only [setState, Machine.setTask_table, here] at runs ⊢
  exact of_decide_eq_true quiet q runs

/-- The first of the top rank after the current process is no further away than anyone
who has waited long. -/
theorem Took.paced (took : Took m next m') (h : Poised m) (quiet : noRealtime m)
    (leader : Leader m next) : Paced m' := by
  obtain ⟨state, kind, picked⟩ := took.picked
  have here : m'.current = next := by rw [took.machine]
  have runs := leader.passes
  obtain ⟨-, short⟩ := slice_le quiet runs
  have task : m'.task = m'.table next := by rw [Machine.task, here]
  have slice : m'.task.sliceLeft ≤ longestTurn := by rw [task, picked]; exact short
  have kept (p : Slot) (other : p ≠ next) : m'.table p = m.table p ∨
      (m'.table p).waitedTicks = 0 ∧ (m'.table p).state = .ready ∧
        (m'.table p).priority = (m.table p).priority ∧ (m.table p).state ≠ .free := by
    rcases took.left p other with same | ⟨rfl, running, same⟩
    · exact .inl same
    right
    rw [same]
    refine ⟨h.fresh, rfl, rfl, ?_⟩
    rw [show (m.table m.current).state = .running from running]
    decide
  have rest (p : Slot) (other : p ≠ m'.current) (contends : Contends m' p)
      (long : topAfter ≤ (m'.table p).waitedTicks) :
      (m'.table p).waitedTicks + longestTurn * ahead m'.current p ≤ waitBound := by
    rw [here] at other ⊢
    rcases kept p other with same | ⟨zero, -⟩
    · rw [same] at long ⊢
      have before : Contends m p := by simpa [Contends, same] using contends
      have top := rank_top quiet h before long
      have ready : (m.table p).runnable := by simp [Task.runnable, before.1]
      have equal : m.rank p = m.rank next :=
        le_antisymm (leader.highest p ready) (top ▸ rank_le_top quiet runs)
      have earlier := leader.earliest p ready equal
      have apart : p ≠ m.current := by
        -- the current process comes last in the choice, and someone else won
        rintro rfl
        exact absurd (le_of_le_of_eq long h.fresh) (by decide)
      have old := h.turn p apart before long
      have between : ahead m.current next < ahead m.current p :=
        lt_of_le_of_ne earlier fun same => other (RoundRobin.ahead_inj m.current same).symm
      have nearer := RoundRobin.ahead_add between
      have moved := RoundRobin.ahead_pos m.current next
      simp only [bounds] at old ⊢
      omega
    · exact absurd (le_of_le_of_eq long zero) (by decide)
  constructor
  · constructor
    · rw [task, picked]
      rcases kind with rfl | ⟨rfl, rfl⟩
      · exact (by decide : ProcessState.running ≠ .free)
      · exact h.alive
    · exact slice
    · rw [task, picked]
    · intro p alive notIdle
      by_cases chosen : p = next
      · subst chosen
        rw [picked]
        apply h.levels p _ notIdle
        intro free
        simp [Task.runnable, free] at runs
      · rcases kept p chosen with same | ⟨-, -, level, before⟩
        · rw [same] at alive ⊢
          exact h.levels p alive notIdle
        rw [level]
        exact h.levels p before notIdle
    · intro p sleeping
      by_cases chosen : p = next
      · subst chosen
        rw [picked]
        exact (by decide : 0 < topAfter)
      rcases kept p chosen with same | ⟨-, ready, -⟩
      · rw [same] at sleeping ⊢
        exact h.asleep p sleeping
      rw [ready] at sleeping
      cases sleeping
    · intro p other contends long
      have := rest p other contends long
      omega
  · intro p other contends long
    have := rest p other contends long
    have some : 1 ≤ longestTurn := by decide
    omega

theorem Poised.stackGuard (h : Poised m) (overflow : Bool) : Poised (stackGuard m overflow) := by
  cases overflow with
  | false => exact h
  | true => exact h.setTask (h.steady_state h.alive (by decide) (by simp))

theorem noRealtime_stackGuard (quiet : noRealtime m) (overflow : Bool) :
    noRealtime (Cpu.stackGuard m overflow) := by
  cases overflow with
  | false => exact quiet
  | true => exact noRealtime_setState_zombie quiet m.current

theorem Poised.schedulerYield (h : Poised m) (quiet : noRealtime m) (overflow : Bool) :
    Paced (schedulerYield m overflow) := by
  have guarded := h.stackGuard overflow
  have calm := noRealtime_stackGuard quiet overflow
  rcases schedulerYield_cases m overflow with ⟨nobody, same⟩ | ⟨next, leader, took⟩
  · rw [same]
    refine ⟨guarded, fun p _ contends _ => ?_⟩
    have idle := choose_none nobody p
    simp [Task.runnable, contends.1] at idle
  · exact took.paced guarded calm leader

end Switch

/-! ## A tick -/

section Tick

variable {m : Machine}

variable (h : Paced m)
include h

theorem Paced.tickStart : Paced (tickStart m) := by
  have same : (Cpu.tickStart m).current = m.current := rfl
  apply h.change same
  intro p
  have slept := h.asleep p
  have refl := h.steady p
  simp only [Cpu.tickStart, reapZombies, wakeSleepers]
  by_cases sleeping : (m.table p).state = .sleeping
  · by_cases done : (m.table p).sleepTicks - 1 = 0
    · simp only [sleeping, done]
      refine ⟨?_, fun _ => refl.level (by simp [sleeping]), fun _ => slept sleeping, ?_⟩
      · intro own
        exact ⟨by simp, (refl.own own).2⟩
      · intro _ _ _ long
        have short := slept sleeping
        exact absurd long (not_le.mpr short)
    · simp only [sleeping, done]
      refine ⟨?_, fun _ => refl.level (by simp [sleeping]), fun _ => slept sleeping, ?_⟩
      · intro own
        exact ⟨by simp, (refl.own own).2⟩
      · intro ready
        cases ready
  · simp only [sleeping, ne_eq, not_false_eq_true, ↓reduceIte]
    split
    · next gone =>
      refine ⟨fun own => absurd own gone.2, fun alive => absurd rfl alive, ?_, ?_⟩
      · intro asleep
        cases asleep
      · intro ready
        cases ready
    · exact refl

theorem Paced.decision : Paced (decision m) := by
  apply h.change (decision_current m)
  intro p
  rw [decision_table]
  exact h.steady p

theorem Paced.spendTick : Paced (spendTick m) := by
  unfold Cpu.spendTick
  split
  · apply h.setTask
    have refl := h.steady m.current
    refine ⟨fun own => ?_, refl.level, refl.asleep, refl.waits⟩
    exact ⟨h.alive, Nat.sub_le _ _, h.fresh⟩
  · exact h

/-- A tick later the process is still within the bound; `slack` is what is left of the
current turn. -/
theorem Paced.waited_tick {p : Slot} {waited slack : Nat} (other : p ≠ m.current)
    (contends : Contends m p) (more : waited ≤ (m.table p).waitedTicks + 1)
    (long : topAfter ≤ waited) (left : slack + 1 ≤ max 1 m.task.sliceLeft) :
    waited + longestTurn * ahead m.current p + slack ≤ waitBound + longestTurn := by
  have slice := h.slice
  have far := ahead_le_63 other
  by_cases before : topAfter ≤ (m.table p).waitedTicks
  · have old := h.rest p other contends before
    omega
  · simp only [bounds] at *
    omega

theorem Paced.counted (next : Option Slot) : Poised (countWaiting m next) := by
  have own : (countWaiting m next).task = m.task := by
    obtain ⟨waited, same, -, kept⟩ := countWaiting_waited m next m.current
    rw [kept (.inr rfl)] at same
    exact same
  constructor
  · exact own ▸ h.alive
  · exact own ▸ h.slice
  · exact own ▸ h.fresh
  · intro p
    obtain ⟨waited, same, -⟩ := countWaiting_waited m next p
    rw [same]
    exact h.levels p
  · intro p
    obtain ⟨waited, same, -, kept⟩ := countWaiting_waited m next p
    rw [same]
    intro sleeping
    have sleeping : (m.table p).state = .sleeping := sleeping
    simp only [kept (.inl (by simp [sleeping]))]
    exact h.asleep p sleeping
  · intro p other contends long
    obtain ⟨waited, same, more, -⟩ := countWaiting_waited m next p
    have before : Contends m p := by simpa [Contends, same] using contends
    rw [same] at long ⊢
    have bound : waited + longestTurn * ahead m.current p + 0 ≤ waitBound + longestTurn :=
      h.waited_tick other before more long (by omega)
    exact bound

theorem Paced.turnGoesOn (limited : m.slice ≠ 0) (more : 1 < m.task.sliceLeft) :
    Paced (countWaiting (Cpu.spendTick m) (some m.current)) where
  toPoised := h.spendTick.counted (some m.current)
  rest := by
    intro p other contends long
    obtain ⟨waited, same, most, -⟩ := countWaiting_waited (Cpu.spendTick m) (some m.current) p
    obtain ⟨waitedOwn, own, -⟩ :=
      countWaiting_waited (Cpu.spendTick m) (some m.current) (Cpu.spendTick m).current
    obtain ⟨left, spent⟩ := spendTick_table m p
    have before : Contends m p := by simpa [Contends, same, spent] using contends
    have here : (countWaiting (Cpu.spendTick m) (some m.current)).current = m.current :=
      spendTick_current m
    have slice : (countWaiting (Cpu.spendTick m) (some m.current)).task.sliceLeft
        = m.task.sliceLeft - 1 := by
      rw [← spendTick_sliceLeft limited]
      have task := congrArg Task.sliceLeft own
      exact task
    rw [here] at other ⊢
    rw [same] at long ⊢
    rw [spent] at most
    exact h.waited_tick other before most long (by omega)

omit h in
theorem noRealtime_of_table {m m' : Machine} (quiet : noRealtime m)
    (same : ∀ p, (m'.table p).state = (m.table p).state ∧
      (m'.table p).policy = (m.table p).policy) : noRealtime m' := by
  apply decide_eq_true
  intro p runs
  obtain ⟨state, policy⟩ := same p
  rw [policy]
  apply of_decide_eq_true quiet p
  simpa [Task.runnable, state] using runs

theorem Paced.schedulerTick (quiet : noRealtime (Cpu.tickStart m))
    (overflow : Bool) : Paced (schedulerTick m overflow) := by
  have start := h.tickStart
  unfold Cpu.schedulerTick priorityTick
  generalize Cpu.tickStart m = s at *
  have turned : noRealtime (turnOver s).1 := by
    apply noRealtime_of_table quiet
    intro p
    obtain ⟨left, same⟩ := turnOver_table s p
    simp [same]
  by_cases switches : (turnOver s).2
  · have paced : Paced (turnOver s).1 := by
      rcases turnOver_fst s with same | same
      · exact same ▸ start.decision
      · exact same ▸ start.decision.spendTick
    simp only [switches, ↓reduceIte]
    apply (paced.counted _).schedulerYield
    apply noRealtime_of_table turned
    intro p
    obtain ⟨waited, same, -⟩ := countWaiting_waited (turnOver s).1 (choose (turnOver s).1) p
    simp [same]
  · have goesOn : TurnGoesOn s := by
      by_contra ends
      exact switches (turnOver_ends ends)
    simp only [switches]
    rw [turnOver_goesOn goesOn]
    obtain ⟨-, running, more⟩ := goesOn
    have limited : (Cpu.decision s).slice ≠ 0 := by
      have runs : ((Cpu.decision s).table (Cpu.decision s).current).runnable := by
        have here : ((Cpu.decision s).table (Cpu.decision s).current).state = .running := running
        unfold Task.runnable
        rw [here]
        rfl
      have calm : noRealtime (Cpu.decision s) := noRealtime_of_table quiet fun p => by simp
      have bounds := slice_le calm runs
      exact Nat.one_le_iff_ne_zero.mp bounds.1
    have left := more.resolve_left limited
    have paced := start.decision.turnGoesOn limited left
    simpa using paced

end Tick

/-! ## Every run -/

theorem boot_paced (timer : Frequency) : Paced (boot timer) := by
  have few (p : Slot) : ((boot timer).table p).waitedTicks = 0 := by
    simp only [boot]
    split
    · rfl
    · split <;> rfl
  constructor
  · constructor
    · simp [Machine.task, boot]
    · exact (by decide : cpuSliceTicks ≤ longestTurn)
    · exact few _
    · intro p alive notIdle
      have notIdle : p ≠ 0 := notIdle
      simp only [boot, notIdle, ↓reduceIte] at alive ⊢
      split at alive
      · next main => simp [main, levelOfNice_pos]
      · exact absurd rfl alive
    · exact fun p _ => lt_of_eq_of_lt (few p) (by decide)
    · exact fun p _ _ long => absurd (le_of_le_of_eq long (few p)) (by decide)
  · exact fun p _ _ long => absurd (le_of_le_of_eq long (few p)) (by decide)

section Steps

variable {m : Machine}

section
variable (h : Paced m)
include h

/-- No call of a calm run makes anybody wait longer than counted. -/
theorem Change.steady {e : Event} {p : Slot} {t : Task} (change : Change m e p t)
    (ok : calm m e) : Steady m p t := by
  have refl := h.steady p
  cases change with
  | sleep ticks =>
    refine ⟨fun own => ⟨by simp, (refl.own own).2⟩, fun _ => refl.level h.alive, ?_, nofun⟩
    intro _
    exact lt_of_eq_of_lt h.fresh (by decide)
  | state state before alive _ back =>
    refine h.steady_state before alive fun short => ?_
    rcases back short with asleep | rfl
    · exact h.asleep p asleep
    · exact of_decide_eq_true ok
  | create uid free =>
    have born : (newborn m uid).waitedTicks = 0 := by
      unfold newborn cpuTaskFork
      split <;> rfl
    refine ⟨?_, fun _ _ => levelOfNice_pos _, fun _ => by rw [born]; decide, fun _ _ _ long => ?_⟩
    · rintro rfl
      exact absurd free h.alive
    · rw [born] at long
      cases long
  | nice pid nice => exact ⟨refl.own, fun _ _ => levelOfNice_pos nice, refl.asleep, refl.waits⟩
  | policy rtPriority reset found =>
    refine ⟨refl.own, refl.level, refl.asleep, fun ready notIdle _ long => ?_⟩
    refine ⟨⟨ready, notIdle, fun idle => absurd long (not_le.mpr ?_)⟩, rfl⟩
    have ready : (m.table p).state = .ready := ready
    simpa [calm, found, ready, idle] using ok

/-- One step of a calm run. -/
theorem Paced.step (e : Event) (ok : calm m e) : Paced (step m e) := by
  cases switch : e.switches with
  | true =>
    cases e with
    | tick overflow => exact h.schedulerTick ok overflow
    | yield overflow => exact h.toPoised.schedulerYield ok overflow
    | _ => cases switch
  | false =>
    have calls := step_calls m switch
    generalize Cpu.step m e = m' at calls
    cases calls with
    | none => exact h.change rfl h.steady
    | one nextPid change => exact h.change rfl (h.steady_one (change.steady h ok))

theorem Paced.waited_le {p : Slot} (contends : Contends m p) :
    (m.table p).waitedTicks ≤ waitBound := by
  by_cases own : p = m.current
  · subst own
    exact le_of_eq_of_le h.fresh zero_le
  have rest := h.rest p own contends
  have far := RoundRobin.ahead_pos m.current p
  simp only [bounds] at rest ⊢
  omega

end

end Steps

/-- In a run whose every step is calm nobody waits longer than the bound. -/
theorem waited_ticks_bounded (timer : Frequency) (events : List Event)
    (ok : Runs.everyStep step calm (boot timer) events = true) (p : Slot)
    (contends : Contends (run (boot timer) events) p) :
    ((run (boot timer) events).table p).waitedTicks ≤ waitBound := by
  have paced : Paced (run (boot timer) events) :=
    Runs.run_keeps (fun _ e h ok => h.step e ok) (boot_paced timer) events ok
  exact paced.waited_le contends

/-- kernel_main and two children share the CPU; one child has waited a while. -/
theorem three_take_turns :
    let events := [.create 0, .create 0, .tick false, .yield false, .tick false, .tick false]
    Runs.everyStep step calm (boot timer100) events = true ∧
      Contends (run (boot timer100) events) 3 ∧
      ((run (boot timer100) events).table 3).waitedTicks ≤ waitBound :=
  ⟨by decide +kernel, by decide +kernel,
    waited_ticks_bounded timer100 _ (by decide +kernel) 3 (by decide +kernel)⟩

/-! ## Starvation

A real-time process that keeps taking the CPU for an instant moves the place from which
the choice starts: the process right after it is found first every time, and an equal
further on never. -/

/-- Slots 0 and 1 have waited `n` ticks; slot 2 is the real-time process, and slot 3
has level 7. -/
def stage (n : Nat) (realtime other : Task) (p : Slot) : Task :=
  if p = 0 then { (boot timer100).table 0 with waitedTicks := n }
  else if p = 1 then { (boot timer100).table 1 with state := .ready, waitedTicks := n }
  else if p = 2 then realtime
  else if p = 3 then other
  else {}

def scene (n period : Nat) (current : Slot) (realtime other : Task) : Machine :=
  { timer := timer100, table := stage n realtime other, current, nextPid := 5
    rtPeriodTicks := period }

def dozing : Task :=
  { pid := 3, state := .sleeping, sleepTicks := 1, priority := 4, policy := .fifo, rtPriority := 50 }

def awake : Task := { dozing with state := .ready, sleepTicks := 0 }

def hog : Task := { pid := 4, state := .running, nice := -20, priority := 7, sliceLeft := 5 }

def spent : Task := { hog with sliceLeft := 4 }

section Scene

variable {n period : Nat} {current : Slot} {realtime other : Task}

/-- All but the real-time process are no rivals of it. -/
theorem scene_rank (normal : other.policy = .other) {p : Slot} (rival : p ≠ 2) :
    (scene n period current realtime other).rank p ≤ 70 := by
  apply priorityRank_normal
  simp only [scene, stage]
  split
  · rfl
  split
  · rfl
  split
  · rw [normal]
    rfl
  · rfl

/-- Awake, the real-time process is chosen. -/
theorem choose_realtime (normal : other.policy = .other) (policy : realtime.policy = .fifo)
    (awake : realtime.runnable) :
    choose (scene n period current realtime other) = some 2 := by
  have high : 100 ≤ (scene n period current realtime other).rank 2 := by
    simp [Machine.rank, priorityRank, scene, stage, policy, Policy.isRealtime, rankRealtime]
  apply choose_eq
  constructor
  · exact awake
  · intro p _
    by_cases same : p = 2
    · rw [same]
    · exact le_trans (scene_rank normal same) (by omega)
  · intro p _ equal
    by_cases same : p = 2
    · rw [same]
    have low : (scene n period current realtime other).rank p ≤ 70 := scene_rank normal same
    omega

/-- While it sleeps, slot 3 comes first after it. -/
theorem choose_hog (normal : other.policy = .other)
    (level : other.priority = 7 ∧ other.waitedTicks = 0) (ready : other.runnable)
    (asleep : realtime.runnable = false) :
    choose (scene n period 2 realtime other) = some 3 := by
  have top : (scene n period 2 realtime other).rank 3 = 70 := by
    have there : (scene n period 2 realtime other).table 3 = other := rfl
    simp only [Machine.rank, priorityRank, there, normal, level]
    rfl
  apply choose_eq
  constructor
  · exact ready
  · intro p runs
    rw [top]
    apply scene_rank normal
    rintro rfl
    have runs : realtime.runnable := runs
    rw [asleep] at runs
    cases runs
  · intro p _ _
    exact RoundRobin.ahead_pos 2 p

/-- A machine with this on stage. -/
theorem scene_eq {m : Machine}
    (rest : { m with table := stage n realtime other } = scene n period current realtime other)
    (table : ∀ p, m.table p = stage n realtime other p) :
    m = scene n period current realtime other := by
  rw [← rest, ← funext table]

theorem scene_start : tickStart (scene n period 3 dozing hog) = scene n period 3 awake hog :=
  scene_eq rfl fun p => by fin_cases p <;> rfl

theorem scene_spends : spendTick (scene n period 3 awake hog) = scene n period 3 awake spent :=
  scene_eq rfl fun p => by fin_cases p <;> rfl

theorem scene_counts : countWaiting (scene n period 3 awake spent) (some 2) =
    scene (n + 1) period 3 awake spent :=
  scene_eq rfl fun p => by fin_cases p <;> rfl

theorem scene_takes : schedulerYield (scene n period 3 awake spent) false =
    scene n period 2 { awake with state := .running } { spent with state := .ready } := by
  have chosen : choose (stackGuard (scene n period 3 awake spent) false) = some 2 :=
    choose_realtime rfl rfl rfl
  simp only [schedulerYield, chosen]
  exact scene_eq rfl fun p => by fin_cases p <;> rfl

theorem scene_sleeps :
    sleep (scene n period 2 { awake with state := .running } { spent with state := .ready }) 1 =
      scene n period 2 dozing { spent with state := .ready } :=
  scene_eq rfl fun p => by fin_cases p <;> rfl

theorem scene_returns :
    schedulerYield (scene n period 2 dozing { spent with state := .ready }) false =
      scene n period 3 dozing hog := by
  have chosen : choose (stackGuard (scene n period 2 dozing { spent with state := .ready }) false) =
      some 3 := choose_hog rfl ⟨rfl, rfl⟩ rfl rfl
  simp only [schedulerYield, chosen]
  exact scene_eq rfl fun p => by fin_cases p <;> rfl

/-- The tick wakes the real-time process, and rule 4 ends the turn of slot 3. -/
theorem scene_turn (n period : Nat) : ∃ period', turnOver (scene n period 3 awake hog) =
    (scene n period' 3 awake spent, true) := by
  have preempts (period : Nat) : preempted (scene n period 3 awake spent) := by
    unfold preempted
    rw [choose_realtime rfl rfl rfl]
    have hog : (scene n period 3 awake spent).rank 3 ≤ 70 := scene_rank rfl (by decide)
    have high : (scene n period 3 awake spent).rank 2 = 150 := rfl
    refine decide_eq_true (p := _ > _) ?_
    rw [high]
    exact lt_of_le_of_lt hog (by decide)
  have ends {m : Machine} (period : Nat)
      (throttled : rtThrottleTick m = (scene n period 3 awake hog, false)) :
      turnOver m = (scene n period 3 awake spent, true) := by
    simp only [turnOver, throttled, scene_spends, preempts]
    rfl
  rcases rtThrottleTick_cases (scene n period 3 awake hog) with
    ⟨-, same⟩ | ⟨-, -, spent, -⟩ | ⟨-, -, same⟩
  · exact ⟨0, ends 0 same⟩
  · have unused : usedNow (scene n period 3 awake hog) = 0 := rfl
    have limit : rtLimit (scene n period 3 awake hog) = 95 := by
      simp [rtLimit, scene, timer100, rtRuntimePercent]
    omega
  · exact ⟨period + 1, ends (period + 1) same⟩

end Scene

/-- One more tick of waiting. -/
def cycle : List Event := [.tick false, .sleep 1, .yield false]

theorem scene_cycle (n period : Nat) : ∃ period',
    run (scene n period 3 dozing hog) cycle = scene (n + 1) period' 3 dozing hog := by
  obtain ⟨period', turn⟩ := scene_turn n period
  have ticked : schedulerTick (scene n period 3 dozing hog) false =
      scene (n + 1) period' 2 { awake with state := .running } { spent with state := .ready } := by
    have chosen : choose (scene n period' 3 awake spent) = some 2 := choose_realtime rfl rfl rfl
    simp only [schedulerTick, priorityTick, scene_start, turn, ↓reduceIte, chosen, scene_counts,
      scene_takes]
  refine ⟨period', ?_⟩
  simp only [cycle, Runs.run, List.foldl_cons, List.foldl_nil, step, ticked, scene_sleeps,
    scene_returns]

/-- Two processes come to life; one becomes real-time, the other gets level 7. -/
def opening : List Event :=
  [.create 0, .create 0, .setPolicy 3 1 50 false, .setNice 4 (-20), .yield false, .sleep 1,
    .yield false]

theorem starves_on (n : Nat) : ∃ events period,
    run (boot timer100) events = scene n period 3 dozing hog := by
  induction n with
  | zero =>
    refine ⟨opening, 0, ?_⟩
    exact scene_eq rfl (by decide +kernel)
  | succ n ih =>
    obtain ⟨events, period, starves⟩ := ih
    obtain ⟨period', cycled⟩ := scene_cycle n period
    refine ⟨events ++ cycle, period', ?_⟩
    rw [run, Runs.run_append, ← cycled, ← starves]

/-- No number of ticks bounds the wait of a ready process. -/
theorem no_wait_bound : ¬ ∃ bound, ∀ timer events p, Contends (run (boot timer) events) p →
    ((run (boot timer) events).table p).waitedTicks ≤ bound := by
  rintro ⟨bound, bounded⟩
  obtain ⟨events, period, starves⟩ := starves_on (bound + 1)
  have short := bounded timer100 events 1
  rw [starves] at short
  have contends : Contends (scene (bound + 1) period 3 dozing hog) 1 :=
    ⟨rfl, by decide, nofun⟩
  exact absurd (short contends) (Nat.not_succ_le_self bound)

end UzOS.Cpu
