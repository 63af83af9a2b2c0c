import UzOS.Cpu.Sched

/-! Rule 4 of core/priority: who takes the CPU from the running process before its turn
is over. -/
namespace UzOS.Cpu
open Kernel (Slot)

section Decision

variable (m : Machine)

variable (p : Slot)

theorem spendTick_table : ∃ left, (spendTick m).table p = { m.table p with sliceLeft := left } := by
  unfold spendTick
  split
  · by_cases here : p = m.current
    · subst here
      exact ⟨m.task.sliceLeft - 1, by simp [Machine.task]⟩
    · exact ⟨(m.table p).sliceLeft, by simp [here]⟩
  · exact ⟨(m.table p).sliceLeft, rfl⟩

@[simp] theorem spendTick_current : (spendTick m).current = m.current := by
  unfold spendTick
  split <;> rfl

@[simp] theorem spendTick_rtThrottled : (spendTick m).rtThrottled = m.rtThrottled := by
  unfold spendTick
  split <;> rfl

@[simp] theorem spendTick_policy : ((spendTick m).table p).policy = (m.table p).policy := by
  obtain ⟨left, same⟩ := spendTick_table m p
  rw [same]

@[simp] theorem spendTick_runnable : ((spendTick m).table p).runnable = (m.table p).runnable := by
  obtain ⟨left, same⟩ := spendTick_table m p
  rw [same]
  rfl

@[simp] theorem spendTick_rank : (spendTick m).rank p = m.rank p := by
  obtain ⟨left, same⟩ := spendTick_table m p
  rw [Machine.rank, same, spendTick_rtThrottled]
  rfl

/-- A tick off the turn changes no rank, so the choice stays. -/
@[simp] theorem choose_spendTick : choose (spendTick m) = choose m := by
  have ranks : (spendTick m).rank = m.rank := funext (spendTick_rank m)
  simp [choose, ranks]

@[simp] theorem preempted_spendTick : preempted (spendTick m) = preempted m := by simp [preempted]

end Decision

/-- The table as rule 4 reads it: throttling has seen the tick already. -/
def decision (m : Machine) : Machine := (rtThrottleTick m).1

variable (m : Machine) (p : Slot)

/-- Throttling changes the clocks and nothing else. -/
theorem decision_clocks : ∃ period used throttled, decision m = { m with
    rtPeriodTicks := period, rtUsedTicks := used, rtThrottled := throttled } := by
  unfold decision
  rcases rtThrottleTick_cases m with ⟨-, same⟩ | ⟨-, -, -, same⟩ | ⟨-, -, same⟩
  all_goals rw [same]; exact ⟨_, _, _, rfl⟩

@[simp] theorem decision_table : (decision m).table p = m.table p := by
  obtain ⟨_, _, _, same⟩ := decision_clocks m
  rw [same]

@[simp] theorem decision_current : (decision m).current = m.current := by
  obtain ⟨_, _, _, same⟩ := decision_clocks m
  rw [same]

/-- Rules 1 to 3 leave the running process its turn on this tick. -/
def TurnGoesOn (m : Machine) : Prop :=
  (rtThrottleTick m).2 = false ∧ (decision m).task.state = .running ∧
    ((decision m).slice = 0 ∨ 1 < (decision m).task.sliceLeft)

theorem priorityTick_snd : (priorityTick m).2 = (turnOver m).2 := rfl

theorem spendTick_sliceLeft {m : Machine} (limited : m.slice ≠ 0) :
    (spendTick m).task.sliceLeft = m.task.sliceLeft - 1 := by
  simp [spendTick, limited, Machine.task]

theorem turnOver_ends {m : Machine} (ends : ¬ TurnGoesOn m) : (turnOver m).2 := by
  unfold turnOver
  by_cases started : (rtThrottleTick m).2
  · simp [started]
  by_cases running : (rtThrottleTick m).1.task.state = .running
  · have last : (rtThrottleTick m).1.slice ≠ 0 ∧
        (spendTick (rtThrottleTick m).1).task.sliceLeft = 0 := by
      have few : ¬ ((rtThrottleTick m).1.slice = 0 ∨ 1 < (rtThrottleTick m).1.task.sliceLeft) :=
        fun more => ends ⟨by simpa using started, running, more⟩
      obtain ⟨limited, few⟩ := not_or.mp few
      refine ⟨limited, ?_⟩
      rw [spendTick_sliceLeft limited]
      omega
    simp [started, running, last]
  · simp [running]

theorem turnOver_goesOn {m : Machine} (goesOn : TurnGoesOn m) :
    turnOver m = (spendTick (decision m), preempted (decision m)) := by
  obtain ⟨quiet, running, more⟩ := goesOn
  unfold decision at *
  have mid : ¬ ((rtThrottleTick m).1.slice ≠ 0 ∧
      (spendTick (rtThrottleTick m).1).task.sliceLeft = 0) := by
    rintro ⟨limited, zero⟩
    rw [spendTick_sliceLeft limited] at zero
    rcases more with unlimited | more
    · exact limited unlimited
    · omega
  unfold turnOver
  simp only [quiet, running, mid, Bool.false_eq_true, ↓reduceIte, ne_eq, not_true_eq_false,
    preempted_spendTick]

/-- At most one tick of the current turn is spent. -/
theorem turnOver_fst : (turnOver m).1 = decision m ∨ (turnOver m).1 = spendTick (decision m) := by
  unfold turnOver decision
  simp only
  split
  · exact .inl rfl
  split
  · exact .inl rfl
  · split <;> exact .inr rfl

theorem turnOver_table : ∃ left, (turnOver m).1.table p = { m.table p with sliceLeft := left } := by
  rcases turnOver_fst m with same | same
  · exact ⟨(m.table p).sliceLeft, by rw [same, decision_table]⟩
  obtain ⟨left, spent⟩ := spendTick_table (decision m) p
  exact ⟨left, by rw [same, spent, decision_table]⟩

@[simp] theorem turnOver_current : (turnOver m).1.current = m.current := by
  rcases turnOver_fst m with same | same <;> simp [same]

@[simp] theorem turnOver_rtThrottled : (turnOver m).1.rtThrottled = (decision m).rtThrottled := by
  rcases turnOver_fst m with same | same <;> simp [same]

/-- What one tick of waiting adds. -/
theorem countWaiting_waited (next : Option Slot) (p : Slot) :
    ∃ waited, (countWaiting m next).table p = { m.table p with waitedTicks := waited } ∧
      waited ≤ (m.table p).waitedTicks + 1 ∧
      ((m.table p).state ≠ .ready ∨ p = m.current → waited = (m.table p).waitedTicks) := by
  unfold countWaiting
  simp only
  split
  · next waits =>
    refine ⟨_, rfl, le_refl _, ?_⟩
    rintro (idle | own)
    · exact absurd waits.2.2 idle
    · exact absurd own waits.1
  · exact ⟨_, rfl, Nat.le_succ _, fun _ => rfl⟩

theorem priorityTick_table : ∃ left waited,
    (priorityTick m).1.table p = { m.table p with sliceLeft := left, waitedTicks := waited } := by
  obtain ⟨left, turned⟩ := turnOver_table m p
  obtain ⟨waited, counted, -⟩ := countWaiting_waited (turnOver m).1
    (if (turnOver m).2 then choose (turnOver m).1 else some (turnOver m).1.current) p
  rw [turned] at counted
  exact ⟨left, waited, counted⟩

/-- A tick changes turns, waits, sleeps and states only. -/
theorem Lasting.schedulerTick {α : Type} {f : Task → α} (h : Lasting f) (m : Machine)
    (overflow : Bool) (p : Slot) : f ((schedulerTick m overflow).table p) = f (m.table p) := by
  obtain ⟨left, waited, counted⟩ := priorityTick_table (Cpu.tickStart m) p
  have before : f ((priorityTick (Cpu.tickStart m)).1.table p) = f (m.table p) := by
    rw [counted, h.turn, h.tickStart]
  unfold Cpu.schedulerTick
  simp only
  split
  · rw [h.schedulerYield, before]
  · exact before

/-- A process that may push the running one off the CPU and ranks strictly higher. -/
def Outranks (m : Machine) (p : Slot) : Prop :=
  (m.table p).runnable = true ∧ (m.table p).policy ≠ .batch ∧ m.rank m.current < m.rank p

instance (m : Machine) (p : Slot) : Decidable (Outranks m p) :=
  inferInstanceAs (Decidable (_ ∧ _))

/-- The first of the highest rank after the running process is a SCHED_BATCH one. -/
def BatchLeads (m : Machine) : Prop := ∃ b, (m.table b).policy = .batch ∧ Leader m b

theorem preempted_of_outranked {m : Machine} {p : Slot} (out : Outranks m p)
    (noBatch : ¬ BatchLeads m) : preempted m := by
  obtain ⟨runs, -, higher⟩ := out
  unfold preempted
  cases chosen : choose m with
  | none =>
    rw [choose_none chosen p] at runs
    cases runs
  | some next =>
    have leader := choose_leader chosen
    have other : (m.table next).policy ≠ .batch := fun batch => noBatch ⟨next, batch, leader⟩
    have above : m.rank m.current < m.rank next := lt_of_lt_of_le higher (leader.highest p runs)
    simp [other, above]

theorem not_preempted_of_batch {m : Machine} (leads : BatchLeads m) : preempted m = false := by
  obtain ⟨b, batch, leader⟩ := leads
  simp [preempted, choose_eq leader, batch]

/-- The rule holds on a tick exactly when it is not the case that someone outranks the
running process, whose turn goes on, while a SCHED_BATCH process is first in the choice. -/
theorem priority_tick_preempts_iff (m : Machine) :
    ((∃ p, Outranks (decision m) p) → (priorityTick m).2 = true) ↔
      ¬ ((∃ p, Outranks (decision m) p) ∧ TurnGoesOn m ∧ BatchLeads (decision m)) := by
  rw [priorityTick_snd]
  constructor
  · rintro rule ⟨out, goesOn, leads⟩
    have ended := rule out
    rw [turnOver_goesOn goesOn, not_preempted_of_batch leads] at ended
    cases ended
  · intro clear out
    by_cases goesOn : TurnGoesOn m
    · have noBatch : ¬ BatchLeads (decision m) := fun leads => clear ⟨out, goesOn, leads⟩
      obtain ⟨p, outranks⟩ := out
      rw [turnOver_goesOn goesOn]
      exact preempted_of_outranked outranks noBatch
    · exact turnOver_ends goesOn

/-- A level 1 process runs, a level 7 SCHED_BATCH and a level 4 process wait. -/
def batchInFront : Machine where
  timer := timer100
  table := fun p =>
    if p = 1 then { state := .running, nice := 19, priority := 1, sliceLeft := 5 }
    else if p = 2 then { state := .ready, nice := -20, priority := 7, policy := .batch }
    else if p = 3 then { state := .ready, priority := 4 }
    else {}
  current := 1

theorem batch_shields_running :
    Outranks (decision batchInFront) 3 ∧ batchInFront.task.state = .running ∧
      (priorityTick batchInFront).2 = false := by
  decide +kernel

end UzOS.Cpu
