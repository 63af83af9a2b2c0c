import UzOS.Cpu.Preempt
import UzOS.Cpu.Run

/-! Whether a user can end up with a lower nice value than it started from. -/
namespace UzOS.Cpu
open Kernel (Slot)

/-- A machine with a mark on every process descended from a chosen one, itself included. -/
structure Lineage where
  machine : Machine
  kin : Slot → Bool

def descent (m : Machine) (ancestor : Slot) : Lineage := ⟨m, fun p => p == ancestor⟩

/-- A child takes its creator's mark. -/
def Lineage.step (l : Lineage) (e : Event) : Lineage where
  machine := Cpu.step l.machine e
  kin := match e with
    | .create _ => fun p =>
      if (findSlot fun q => (l.machine.table q).state == .free) = some p then
        l.kin l.machine.current
      else l.kin p
    | _ => l.kin

/-- The caller has neither CAP_PRIORITY nor an RLIMIT_NICE. -/
def unprivileged (t : Task) : Bool := !Proc.capsHas t.uid capPriority && t.rlimNice == 0

/-- Calls that change scheduling come from unprivileged processes. -/
def byUser (l : Lineage) : Event → Bool
  | .create _ | .setNice _ _ | .setPolicy _ _ _ _ => unprivileged l.machine.task
  | _ => true

/-- A creator that asked for a reset has no positive nice value to lose. -/
def resetsUpwards (l : Lineage) : Event → Bool
  | .create _ => !l.machine.task.resetOnFork || decide (l.machine.task.nice ≤ niceDefault)
  | _ => true

section Steps

variable {m : Machine} {nice : Int}

/-- Without the right to it nobody lowers a nice value. -/
theorem defNiceChangeAllowed_up {caller target : Task} (user : unprivileged caller)
    (allowed : defNiceChangeAllowed caller target nice) : target.nice ≤ nice := by
  obtain ⟨noCap, noLimit⟩ := Bool.and_eq_true_iff.mp user
  have noCap : Proc.capsHas caller.uid capPriority = false := by simpa using noCap
  have noLimit : caller.rlimNice = 0 := by simpa using noLimit
  unfold defNiceChangeAllowed at allowed
  simp only [noCap, noLimit, Bool.false_eq_true, ↓reduceIte] at allowed
  split at allowed
  · cases allowed
  rename_i range
  split at allowed
  · cases allowed
  split at allowed
  · cases allowed
  unfold niceMax at range
  simp at allowed
  omega

theorem newborn_nice (uid : U32) : (newborn m uid).nice =
    if m.task.resetOnFork then niceDefault else m.task.nice := by
  unfold newborn cpuTaskFork
  cases m.task.resetOnFork <;> rfl

/-- Nothing an unprivileged process does lowers the nice value of one that is there. -/
theorem step_nice_le {e : Event} (create : ∀ uid, e ≠ .create uid)
    (user : ∀ pid nice, e = .setNice pid nice → unprivileged m.task) (p : Slot) :
    (m.table p).nice ≤ ((step m e).table p).nice := by
  cases switch : e.switches with
  | true =>
    cases e with
    | tick overflow => exact le_of_eq (lasting_nice.schedulerTick m overflow p).symm
    | yield overflow => exact le_of_eq (lasting_nice.schedulerYield m overflow p).symm
    | _ => cases switch
  | false =>
    have calls := step_calls m switch
    generalize step m e = m' at calls
    cases calls with
    | none => exact le_refl _
    | one nextPid change =>
      simp only [Machine.setTask_table]
      split
      · next own =>
        subst own
        cases change with
        | create uid => exact absurd rfl (create uid)
        | nice pid nice allowed => exact defNiceChangeAllowed_up (user pid nice rfl) allowed
        | sleep | state | policy => exact le_refl _
      · exact le_refl _

end Steps

def Floor (n : Int) (l : Lineage) : Prop :=
  ∀ p, l.kin p = true → n ≤ (l.machine.table p).nice

theorem Floor.create {n : Int} {l : Lineage} (h : Floor n l) (uid : U32)
    (ok : resetsUpwards l (.create uid)) : Floor n (l.step (.create uid)) := by
  intro p kin
  simp only [Lineage.step] at kin ⊢
  simp only [step, processCreate]
  cases found : findSlot fun q => (l.machine.table q).state == .free with
  | none =>
    simp only [found] at kin
    exact h p kin
  | some q =>
    simp only [found, Option.some.injEq, Machine.setTask_table] at kin ⊢
    by_cases child : q = p
    · simp only [child, ↓reduceIte] at kin ⊢
      have creator := h _ kin
      rw [newborn_nice]
      cases reset : l.machine.task.resetOnFork with
      | false => exact creator
      | true =>
        have low : l.machine.task.nice ≤ niceDefault := by simpa [resetsUpwards, reset] using ok
        exact le_trans creator low
    · simp only [child, Ne.symm child] at kin ⊢
      exact h p kin

theorem Floor.step {n : Int} {l : Lineage} (h : Floor n l) (e : Event)
    (ok : (byUser l e && resetsUpwards l e)) : Floor n (l.step e) := by
  obtain ⟨user, upwards⟩ := Bool.and_eq_true_iff.mp ok
  by_cases create : ∃ uid, e = .create uid
  · obtain ⟨uid, rfl⟩ := create
    exact h.create uid upwards
  have kin : (l.step e).kin = l.kin := by
    cases e with
    | create uid => exact absurd ⟨uid, rfl⟩ create
    | _ => rfl
  intro p marked
  rw [kin] at marked
  refine le_trans (h p marked) (step_nice_le (fun uid eq => create ⟨uid, eq⟩) ?_ p)
  rintro pid nice rfl
  exact user

/-- In a run of unprivileged calls in which no process with a positive nice value creates
another under SCHED_RESET_ON_FORK, no descendant gets below its ancestor's nice value. -/
theorem nice_floor (m : Machine) (ancestor : Slot) (events : List Event)
    (ok : Runs.everyStep Lineage.step (fun l e => byUser l e && resetsUpwards l e)
      (descent m ancestor) events = true) (p : Slot)
    (kin : (Runs.run Lineage.step (descent m ancestor) events).kin p = true) :
    (m.table ancestor).nice ≤
      ((Runs.run Lineage.step (descent m ancestor) events).machine.table p).nice := by
  have start : Floor (m.table ancestor).nice (descent m ancestor) := by
    intro q same
    rw [show q = ancestor by simpa [descent] using same]
    exact le_refl _
  exact Runs.run_keeps (fun _ e h ok => h.step e ok) start events ok p kin

/-- A user's process in slot 2 that has made itself nicer. -/
def niceUser : Machine :=
  run (boot timer100) [.create 1000, .yield false, .setNice 3 10]

/-- Its child is as nice. -/
theorem child_stays_nice :
    let events := [.create 1000, .setNice 4 12]
    Runs.everyStep Lineage.step (fun l e => byUser l e && resetsUpwards l e)
        (descent niceUser 2) events = true ∧
      (Runs.run Lineage.step (descent niceUser 2) events).kin 3 = true ∧
      (niceUser.table 2).nice ≤
        ((Runs.run Lineage.step (descent niceUser 2) events).machine.table 3).nice :=
  ⟨by decide +kernel, by decide +kernel,
    nice_floor niceUser 2 _ (by decide +kernel) 3 (by decide +kernel)⟩

/-- With SCHED_RESET_ON_FORK the child of a process with nice 10 starts at nice 0. -/
theorem reset_child_gains :
    let events := [.setPolicy 3 0 0 true, .create 1000]
    Runs.everyStep Lineage.step byUser (descent niceUser 2) events = true ∧
      (Runs.run Lineage.step (descent niceUser 2) events).kin 3 = true ∧
      ((Runs.run Lineage.step (descent niceUser 2) events).machine.table 3).state = .ready ∧
      (niceUser.table 2).nice = 10 ∧
      ((Runs.run Lineage.step (descent niceUser 2) events).machine.table 3).nice = 0 := by
  decide +kernel

end UzOS.Cpu
