import UzOS.Kernel.SigPool

/-! The values of rt_sigqueueinfo arrive once and in order, as long as their target
lives and does not ignore the signal. -/
namespace UzOS.Kernel.Arrivals

open Function List

variable {m n : Machine} {queue : List Queued} {pid : U32} {s : Nat}

/-! ## What waits is pending -/

/-- The living process with the pid has the signal pending. -/
def Pends (pid : U32) (s : Nat) (m : Machine) : Prop :=
  ∃ i, (m.table i).alive = true ∧ (m.table i).pid = pid ∧ (m.table i).pending s = true

/-- Where nothing is queued, nothing new waits. -/
theorem waiting_of_fewer (fewer : ∀ k, (n.pool k).used → n.pool k = m.pool k)
    (waits : sigqueueWaiting n pid s) : sigqueueWaiting m pid s := by
  obtain ⟨k, found⟩ := Option.isSome_iff_exists.mp waits
  have here := findSlot_some found
  have used := (queuedFor_iff.mp here).1
  by_contra none
  have fails := findSlot_none (by simpa [sigqueueWaiting] using none) k
  rw [queuedFor, fewer k used] at here
  rw [queuedFor, here] at fails
  cases fails

variable {e : Event}

/-- The process is still there after the step, and still hears. -/
theorem Pends.step (pends : Pends pid s m) (numbered : m.people.Numbered)
    (after : hears pid s (Kernel.step m e))
    (kept : ∀ i, (m.table i).alive → (m.table i).pid = pid → (m.table i).pending s →
      ((Kernel.step m e).table i).pending s ∨
        ((Kernel.step m e).table i).ignored s) : Pends pid s (Kernel.step m e) := by
  obtain ⟨i, alive, named, pending⟩ := pends
  obtain ⟨present, same⟩ := step_stays numbered alive e
  obtain ⟨lives, wanted⟩ := hears_iff.mp after i present (same.trans named)
  refine ⟨i, lives, same.trans named, (kept i alive named pending).resolve_right ?_⟩
  simp [wanted]

theorem reap_fewer (m : Machine) (i : Slot) (k : Fin sigqueueSize)
    (used : ((reap m i).pool k).used) : (reap m i).pool k = m.pool k := by
  revert used
  unfold reap
  dsimp only
  split
  · simp only [Machine.setProcess, exitlogAdd, sigqueueRelease]
    split
    · intro used
      cases used
    · exact fun _ => rfl
  · exact fun _ => rfl

theorem reap_alive {i j : Slot} (alive : (m.table j).alive) :
    (reap m i).table j = m.table j := by
  unfold reap
  dsimp only
  split
  · next dead =>
    have other : j ≠ i := by
      rintro rfl
      simp [Process.alive, dead.1] at alive
    simp [Machine.setProcess, exitlogAdd, sigqueueRelease, other]
  · rfl

theorem sigqueueDrop_fewer (m : Machine) (target : U32) (sig : Nat) (k : Fin sigqueueSize)
    (used : ((sigqueueDrop m target sig).pool k).used) :
    (sigqueueDrop m target sig).pool k = m.pool k := by
  revert used
  unfold sigqueueDrop
  split
  · next j _ =>
    by_cases same : k = j
    · subst same
      simp [Machine.freeQueued]
    · simp [Machine.freeQueued, same]
  · exact fun _ => rfl

/-- A value that is queued comes with its signal. -/
theorem queued_pends (plain : jobControl s = false) (numbered : m.people.Numbered)
    {target : U32} {sig : Nat} {value : U32} {sent : Option Siginfo} (heard : hears pid s m)
    (after : hears pid s (Kernel.step m (.sigqueueinfo target sig value)))
    (pends : sigqueueWaiting m pid s → Pends pid s m)
    (waits : sigqueueWaiting (Kernel.step m (.sigqueueinfo target sig value)) pid s)
    (queueing : Queueing m target sig sent (Kernel.step m (.sigqueueinfo target sig value))) :
    Pends pid s (Kernel.step m (.sigqueueinfo target sig value)) := by
  cases queueing with
  | refused _ same =>
    rw [same] at waits ⊢
    exact pends waits
  | @queued t k info added _ signo present named _ steady accepts result =>
    have table : (Kernel.step m (.sigqueueinfo target sig value)).table = added.table := by
      rw [result]
      split
      · rfl
      · exact sigqueueDrop_table _ _ _
    by_cases mine : target = pid ∧ sig = s
    · obtain ⟨rfl, rfl⟩ := mine
      obtain ⟨alive, wanted⟩ := hears_iff.mp heard t present named
      obtain ⟨stays, same⟩ := step_stays numbered alive (.sigqueueinfo target sig value)
      have lives := (hears_iff.mp after t stays (same.trans named)).1
      refine ⟨t, lives, same.trans named, ?_⟩
      rw [table]
      exact accepts wanted
    · have fewer (j : Fin sigqueueSize)
          (used : ((Kernel.step m (.sigqueueinfo target sig value)).pool j).used) :
          (Kernel.step m (.sigqueueinfo target sig value)).pool j =
            (m.queued k target info).pool j := by
        revert used
        rw [result, ← steady.pool]
        split
        · exact fun _ => rfl
        · exact sigqueueDrop_fewer _ _ _ j
      -- the new entry is for another signal, so an older one waits
      have older : sigqueueWaiting m pid s := by
        obtain ⟨j, found⟩ := Option.isSome_iff_exists.mp (waiting_of_fewer fewer waits)
        have here := queuedFor_iff.mp (findSlot_some found)
        have other : j ≠ k := by
          rintro rfl
          simp only [Machine.queued, update_self] at here
          exact mine ⟨here.2.1, signo.symm.trans here.2.2⟩
        by_contra none
        simp only [Machine.queued, update_of_ne other] at here
        exact not_waiting (by simpa using none) here.1 here.2.1 here.2.2
      refine (pends older).step numbered after fun i _ _ pending => .inl ?_
      rw [table]
      exact steady.pending i s plain pending

/-- A signal that is taken stays pending while values of it wait. -/
theorem taken_pends (plain : jobControl s = false) (numbered : m.people.Numbered)
    (after : hears pid s (Kernel.step m e))
    (pends : sigqueueWaiting m pid s → Pends pid s m)
    (waits : sigqueueWaiting (Kernel.step m e) pid s)
    (taking : Taking m e (Kernel.step m e)) : Pends pid s (Kernel.step m e) := by
  cases taking with
  | idle same =>
    refine (pends (waiting_of_fewer (fun k _ => by rw [same.pool]) waits)).step numbered after ?_
    exact fun i alive _ => same.pending i s plain alive
  | @takes i sig taken _ first rest =>
    have waits : sigqueueWaiting taken pid s :=
      waiting_of_fewer (fun k _ => by rw [rest.pool]) waits
    refine (pends (waiting_of_fewer first.taken.pool waits)).step numbered after ?_
    intro j alive named pending
    refine .inl (rest.pending j s plain ?_)
    cases first with
    | intro signals kept more =>
      by_cases same : j = i
      · subst same
        simp only [Machine.setProcess, update_self]
        by_cases this : s = sig
        · subst this
          rw [← named] at waits
          exact more waits
        · exact kept s this pending
      · simpa [Machine.setProcess, same] using pending

theorem step_pends (plain : jobControl s = false) (numbered : m.people.Numbered)
    (heard : hears pid s m) (after : hears pid s (Kernel.step m e))
    (pends : sigqueueWaiting m pid s → Pends pid s m)
    (waits : sigqueueWaiting (Kernel.step m e) pid s) : Pends pid s (Kernel.step m e) := by
  have taking := taken_pends plain numbered after pends waits
  cases e with
  | reapSlot i =>
    refine (pends (waiting_of_fewer (reap_fewer m i) waits)).step numbered after ?_
    intro j alive _ pending
    rw [Kernel.step, reap_alive alive]
    exact .inl pending
  | deliver frame => exact taking (deliver_taking m frame)
  | sigtimedwait set => exact taking (sigtimedwait_taking m set)
  | sigqueueinfo target sig value =>
    obtain ⟨-, same⟩ | ⟨self, -, same⟩ := step_call m (e := .sigqueueinfo target sig value) rfl
    · exact taking (.idle (same.symm ▸ .refl m) rfl)
    · apply queued_pends plain numbered heard after pends waits
      rw [same]
      exact sigqueueinfo_queueing m self target sig value
  | _ => exact taking (.idle (step_undisturbed m rfl) rfl)

/-! ## Whole runs -/

theorem step_sendings_le (m : Machine) (e : Event) : m.sendings ≤ (Kernel.step m e).sendings := by
  have taken {n : Machine} (taking : Taking m e n) : m.sendings ≤ n.sendings := by
    cases taking with
    | idle same => exact same.sendings.ge
    | takes _ first rest => exact (rest.sendings.trans first.taken.sendings).ge
  cases e with
  | reapSlot i =>
    simp only [Kernel.step, reap]
    split <;> exact le_rfl
  | deliver frame => exact taken (deliver_taking m frame)
  | sigtimedwait set => exact taken (sigtimedwait_taking m set)
  | sigqueueinfo target sig value =>
    apply step_of_call (P := fun n => m.sendings ≤ n.sendings) rfl le_rfl
    intro self _
    cases sigqueueinfo_queueing m self target sig value with
    | refused _ same => exact (congrArg Machine.sendings same).ge
    | @queued _ _ _ added _ _ _ _ _ steady _ result =>
      have more : m.sendings ≤ added.sendings := by
        rw [steady.sendings]
        exact Nat.le_succ _
      rw [call, result]
      simp only [sigqueueDrop]
      repeat' split
      all_goals exact more
  | _ => exact taken (.idle (step_undisturbed m rfl) rfl)

theorem run_sendings_le (m : Machine) (events : List Event) :
    m.sendings ≤ (Kernel.run m events).sendings := by
  induction events generalizing m with
  | nil => exact le_rfl
  | cons e rest ih => exact (step_sendings_le m e).trans (ih _)

theorem run_pooled (pooled : Pooled m queue) (events : List Event)
    (few : (Kernel.run m events).sendings < 2 ^ 32) :
    ∃ queue', Pooled (Kernel.run m events) queue' := by
  induction events generalizing m queue with
  | nil => exact ⟨queue, pooled⟩
  | cons e rest ih =>
    have now : (Kernel.step m e).sendings < 2 ^ 32 := (run_sendings_le _ rest).trans_lt few
    obtain ⟨queue', after, -⟩ := step_pooled pooled e now
    exact ih after few

theorem boot_pooled : Pooled boot [] := by
  have empty : ∀ k, (boot.pool k).used = false := by decide +kernel
  exact ⟨Stamped.holds_empty empty, by simp, by decide +kernel⟩

/-- What was sent has been received or waits, in this order, and what waits is
pending. -/
structure Arrives (pid : U32) (s : Nat) (w : Mail) : Prop where
  numbered : w.machine.people.Numbered
  heard : hears pid s w.machine = true
  balance : ∃ queue, Pooled w.machine queue ∧ w.sent = w.received ++ letters pid s queue
  pends : sigqueueWaiting w.machine pid s = true → Pends pid s w.machine

theorem Arrives.step {w : Mail} (arrives : Arrives pid s w) (plain : jobControl s = false)
    (few : (Kernel.step w.machine e).sendings < 2 ^ 32)
    (after : hears pid s (Kernel.step w.machine e)) : Arrives pid s (step pid s w e) where
  numbered := step_numbered arrives.numbered e
  heard := after
  balance := by
    obtain ⟨queue, pooled, sent⟩ := arrives.balance
    obtain ⟨queue', pooled', balances⟩ := step_pooled pooled e few
    refine ⟨queue', pooled', ?_⟩
    calc w.sent ++ sentBy pid s w.machine e
        = w.received ++ (letters pid s queue ++ sentBy pid s w.machine e) := by
          rw [sent, append_assoc]
      _ = w.received ++ (receivedBy pid s w.machine e ++ letters pid s queue') := by
          rw [balances pid s arrives.heard]
      _ = w.received ++ receivedBy pid s w.machine e ++ letters pid s queue' := by
          rw [append_assoc]
  pends := step_pends plain arrives.numbered arrives.heard after arrives.pends

theorem Arrives.run {w : Mail} (arrives : Arrives pid s w) (plain : jobControl s = false)
    (events : List Event) (few : (Kernel.run w.machine events).sendings < 2 ^ 32)
    (heard : everyStep (fun m e => hears pid s (Kernel.step m e)) w.machine events) :
    Arrives pid s (run pid s w events) := by
  induction events generalizing w with
  | nil => exact arrives
  | cons e rest ih =>
    obtain ⟨now, later⟩ := Bool.and_eq_true_iff.mp heard
    have sends : (Kernel.step w.machine e).sendings < 2 ^ 32 :=
      (run_sendings_le _ rest).trans_lt few
    exact ih (arrives.step plain sends now) few later

/-- Let the target live and hear the signal throughout a run that starts with none of
its values queued. What it has received is a beginning of what was sent to it, and the
signal is pending as long as there is more. -/
theorem queued_values_in_order (before events : List Event) (pid : U32) (s : Nat)
    (plain : jobControl s = false)
    (few : (Kernel.run boot (before ++ events)).sendings < 2 ^ 32)
    (none : sigqueueWaiting (Kernel.run boot before) pid s = false)
    (heard : hearsThroughout pid s (Kernel.run boot before) events = true) :
    let w := run pid s { machine := Kernel.run boot before } events
    w.received <+: w.sent ∧ (w.received ≠ w.sent → Pends pid s w.machine) := by
  rw [run_append] at few
  obtain ⟨first, always⟩ := Bool.and_eq_true_iff.mp heard
  obtain ⟨queue, pooled⟩ := run_pooled boot_pooled before ((run_sendings_le _ events).trans_lt few)
  have empty : letters pid s queue = [] := by
    rw [letters, map_eq_nil_iff, filter_eq_nil_iff]
    intro x there mine
    rw [(pooled.waiting pid s).mpr ⟨x, there, mine⟩] at none
    cases none
  have start : Arrives pid s { machine := Kernel.run boot before } :=
    ⟨run_numbered boot_numbered before, first, ⟨queue, pooled, by simp [empty]⟩, by simp [none]⟩
  obtain ⟨-, -, ⟨queue', pooled', sent⟩, pends⟩ := start.run plain events few always
  refine ⟨⟨_, sent.symm⟩, fun more => pends ?_⟩
  apply (pooled'.waiting pid s).mpr
  by_contra unqueued
  apply more
  rw [sent, letters, filter_eq_nil_iff.mpr]
  · simp
  · exact fun x there mine => unqueued ⟨x, there, mine⟩

/-- A process catches SIGUSR1; then two values are sent to it, and it takes the first
with rt_sigtimedwait. -/
def catching : List Event := [.create 0 true, .yield true 2, .sigaction 10 catchUsr1]

def twoValues : List Event :=
  [.sigprocmask .block (sigBit 10), .sigqueueinfo 3 10 7, .sigqueueinfo 3 10 8,
    .sigtimedwait (sigBit 10)]

theorem first_of_two_values :
    let w := run 3 10 { machine := Kernel.run boot catching } twoValues
    w.sent.map Siginfo.value = [7, 8] ∧ w.received.map Siginfo.value = [7] ∧
      w.received <+: w.sent ∧ Pends 3 10 w.machine := by
  have sent : (run 3 10 { machine := Kernel.run boot catching } twoValues).sent.map
      Siginfo.value = [7, 8] := by decide +kernel
  have received : (run 3 10 { machine := Kernel.run boot catching } twoValues).received.map
      Siginfo.value = [7] := by decide +kernel
  obtain ⟨first, pends⟩ := queued_values_in_order catching twoValues 3 10 (by decide)
    (by decide +kernel) (by decide +kernel) (by decide +kernel)
  refine ⟨sent, received, first, pends fun same => ?_⟩
  rw [same] at received
  cases received

end UzOS.Kernel.Arrivals
