import UzOS.Kernel.Lives

/-! Pending bits: what a signal that is sent, taken or thrown away makes of them. -/
namespace UzOS.Kernel

open BitVec Bool

theorem sigBit_getLsbD (sig s : Nat) :
    (sigBit sig).getLsbD s = (decide (s < 32) && decide (s = sig)) := by
  simp only [sigBit]
  grind

namespace Process

variable {p : Process}

variable {s : Nat}

theorem pending_lt (pending : p.pending s) : s < 32 := by
  by_contra high
  simp [Process.pending, getLsbD_of_ge _ _ (not_lt.mp high)] at pending

theorem pending_clear {bits : U32} (pending : p.pending s) (kept : bits.getLsbD s = false) :
    (p.clear bits).pending s := by
  have low := pending_lt pending
  unfold Process.pending at pending ⊢
  simp only [clear, getLsbD_and, getLsbD_not, pending, kept, low]
  rfl

theorem pending_raise (sig : Nat) (pending : p.pending s) :
    (p.raise sig).pending s := by
  unfold Process.pending at pending ⊢
  simp [raise, pending]

theorem pending_raise_self {sig : Nat} (valid : validSignal sig) :
    (p.raise sig).pending sig := by
  have low : sig < 32 := by
    simp only [validSignal, and_eq_true, decide_eq_true_eq] at valid
    exact valid.2
  simp [Process.pending, raise, sigBit_getLsbD, low]

end Process

/-- Does sending `sig` take a pending `other` back? -/
def cancelledBy (sig other : Nat) : Bool :=
  (sig == sigcont || sig == sigkill) && [sigstop, sigtstp, sigttin, sigttou].contains other ||
    signalDefaultAction sig == .stop && other == sigcont

namespace Process

variable {p : Process}

theorem stopBits_other {s : Nat} (other : [sigstop, sigtstp, sigttin, sigttou].contains s = false) :
    stopBits.getLsbD s = false := by
  have apart : s ≠ sigstop ∧ s ≠ sigtstp ∧ s ≠ sigttin ∧ s ≠ sigttou := by simpa using other
  simp [stopBits, sigBit_getLsbD, apart]

theorem signals_resume : p.resume.signals = p.signals := by
  unfold resume
  split <;> rfl

variable {sig s : Nat}

theorem pending_carryOn (pending : p.pending s)
    (kept : cancelledBy sig s = false) : (p.carryOn sig).pending s := by
  unfold carryOn
  split
  · next wakes =>
    have other : [sigstop, sigtstp, sigttin, sigttou].contains s = false := by
      have wakes : (sig == sigcont || sig == sigkill) := by simpa using wakes
      have first := (or_eq_false_iff.mp kept).1
      rwa [wakes, Bool.true_and] at first
    have cleared := pending_clear pending (stopBits_other other)
    unfold Process.pending at cleared ⊢
    rwa [signals_resume]
  · exact pending

theorem pending_forgetCont (pending : p.pending s)
    (kept : cancelledBy sig s = false) : (p.forgetCont sig).pending s := by
  unfold forgetCont
  split
  · next stops =>
    have other : s ≠ sigcont := by simpa [stops] using (or_eq_false_iff.mp kept).2
    exact pending_clear pending (by simp [sigBit_getLsbD, other])
  · exact pending

theorem signals_stop : p.stop.signals = p.signals := by
  unfold stop
  split <;> rfl

theorem signals_wakeFor (sig : Nat) : (p.wakeFor sig).signals = p.signals := by
  unfold wakeFor
  split <;> rfl

variable (code sender : U32)

/-- A signal leaves pending whatever it does not cancel. -/
theorem pending_receive (pending : p.pending s)
    (kept : cancelledBy sig s = false) : (p.receive sig code sender).pending s := by
  have first := pending_forgetCont (pending_carryOn pending kept) kept
  unfold receive
  split
  · exact pending
  dsimp only
  split
  · unfold Process.pending
    rw [signals_stop]
    exact first
  split
  · exact first
  unfold Process.pending
  rw [signals_wakeFor]
  exact pending_raise sig first

theorem receive_accepts {sig : Nat} (valid : validSignal sig) (queues : sig ≠ sigstop)
    (wanted : p.ignored sig = false) : (p.receive sig code sender).pending sig := by
  have refused : ((p.carryOn sig).forgetCont sig).ignored sig = false := by
    rw [ignored_forgetCont, ignored_carryOn, wanted]
  unfold receive
  simp only [valid, Bool.not_true, false_eq_true, if_false, queues, refused]
  unfold Process.pending
  rw [signals_wakeFor]
  exact pending_raise_self valid

/-- Taking bits back makes nothing pending. -/
theorem clear_pending {s : Nat} (bits : U32) (before : p.pending s = false) :
    (p.clear bits).pending s = false := by
  unfold Process.pending at before ⊢
  simp only [clear, getLsbD_and, before, Bool.false_and]

theorem receive_throws {sig : Nat} (queues : sig ≠ sigstop) (unwanted : p.ignored sig)
    (before : p.pending sig = false) : (p.receive sig code sender).pending sig = false := by
  have first : ((p.carryOn sig).forgetCont sig).pending sig = false := by
    have carried : (p.carryOn sig).pending sig = false := by
      unfold carryOn
      split
      · unfold Process.pending
        rw [signals_resume]
        exact clear_pending stopBits before
      · exact before
    unfold forgetCont
    split
    · exact clear_pending _ carried
    · exact carried
  have thrown : ((p.carryOn sig).forgetCont sig).ignored sig := by
    rw [ignored_forgetCont, ignored_carryOn, unwanted]
  unfold receive
  split
  · exact before
  rw [if_pos thrown]
  exact first

end Process

/-- SIGCONT and the signals that stop a process. -/
def jobControl (sig : Nat) : Bool := [sigcont, sigstop, sigtstp, sigttin, sigttou].contains sig

/-- Nothing that is sent takes other signals back. -/
theorem cancelledBy_plain {s : Nat} (plain : jobControl s = false) (sig : Nat) :
    cancelledBy sig s = false := by
  obtain ⟨go, stops⟩ : s ≠ sigcont ∧ [sigstop, sigtstp, sigttin, sigttou].contains s = false := by
    simpa [jobControl] using plain
  simp only [cancelledBy, stops, Bool.and_false, Bool.false_or, and_eq_false_iff,
    beq_eq_false_iff_ne]
  exact .inr go

theorem cancelledBy_self (sig : Nat) : cancelledBy sig sig = false := by
  unfold cancelledBy
  by_cases go : sig = sigcont
  · subst go
    decide
  by_cases kill : sig = sigkill
  · subst kill
    decide
  · simp [go, kill]

theorem lowestBit_valid {mask : U32} {sig : Nat} (found : lowestBit mask = some sig) :
    validSignal sig := by
  have passes := List.find?_some found
  have low := List.mem_range.mp (List.mem_of_find?_eq_some found)
  simp only [and_eq_true] at passes
  simp [validSignal, passes.1, low]

theorem pending_clear_other {p : Process} {sig s : Nat} (other : s ≠ sig)
    (pending : p.pending s) : (p.clear (sigBit sig)).pending s :=
  Process.pending_clear pending (by simp [sigBit_getLsbD, other])

/-! Taking. -/

variable {m : Machine} {i : Slot} {sig : Nat}

/-- A value of the signal goes, if one waits, and the signal unless more of them wait. -/
inductive Takes (m : Machine) (i : Slot) (sig : Nat) : Machine → Prop where
  | intro (signals : U32)
      (kept : ∀ s, s ≠ sig → (m.table i).pending s = true → signals.getLsbD s = true)
      (more : sigqueueWaiting (sigqueueTake m (m.table i).pid sig).1 (m.table i).pid sig = true →
        signals.getLsbD sig = true) :
      Takes m i sig
        ((sigqueueTake m (m.table i).pid sig).1.setProcess i { m.table i with signals })

theorem sigqueueTake_set (m : Machine) (i : Slot) (p : Process) (pid : U32) (sig : Nat) :
    (sigqueueTake (m.setProcess i p) pid sig).1 = (sigqueueTake m pid sig).1.setProcess i p := by
  have oldest : sigqueueOldest (m.setProcess i p) pid sig = sigqueueOldest m pid sig := rfl
  unfold sigqueueTake
  rw [oldest]
  cases sigqueueOldest m pid sig <;> rfl

theorem takeSignal_takes (m : Machine) (i : Slot) (valid : validSignal sig) :
    Takes m i sig (takeSignal m i sig) := by
  have pid : ((m.setProcess i ((m.table i).clear (sigBit sig))).table i).pid = (m.table i).pid := by
    simp [Machine.setProcess, Process.clear]
  have cleared (s : Nat) (other : s ≠ sig) (before : (m.table i).pending s) :
      ((m.table i).clear (sigBit sig)).pending s := pending_clear_other other before
  unfold takeSignal
  dsimp only
  rw [pid, sigqueueTake_set]
  generalize taken : (sigqueueTake m (m.table i).pid sig).1 = n
  have own : (n.setProcess i ((m.table i).clear (sigBit sig))).table i =
      (m.table i).clear (sigBit sig) := by simp [Machine.setProcess]
  rw [own]
  split
  · have twice (p q : Process) : (n.setProcess i p).setProcess i q = n.setProcess i q := by
      simp [Machine.setProcess]
    rw [twice, ← taken]
    exact .intro _ (fun s other before => Process.pending_raise sig (cleared s other before))
      fun _ => Process.pending_raise_self valid
  · next last =>
    rw [← taken] at last ⊢
    exact .intro _ cleared fun waits => absurd waits last

theorem sigwaitTake_takes {set : U32}
    (found : lowestBit ((m.table i).signals &&& (set &&& ~~~sigUnblockable)) = some sig) :
    Takes m i sig (sigwaitTake m i set) := by
  have pending : (m.table i).pending sig := by
    have passes := List.find?_some found
    simp only [and_eq_true, getLsbD_and] at passes
    exact passes.2.1
  unfold sigwaitTake
  rw [found]
  dsimp only
  rw [sigqueueTake_table]
  split
  · have table := sigqueueTake_table m (m.table i).pid sig
    have same : (sigqueueTake m (m.table i).pid sig).1.setProcess i (m.table i) =
        (sigqueueTake m (m.table i).pid sig).1 := by
      generalize (sigqueueTake m (m.table i).pid sig).1 = n at table
      simp [Machine.setProcess, ← table]
    rw [← same]
    exact .intro _ (fun _ _ before => before) fun _ => pending
  · next last => exact .intro _ (fun _ => pending_clear_other) fun waits => absurd waits last

end UzOS.Kernel
