import UzOS.Kernel.Frames

/-! Queued values and pending bits: a value that waits has its signal pending, and
a value whose signal was thrown away is not handed over any more. -/
namespace UzOS.Kernel

open Function List Nat

variable {m n : Machine}

/-- `p` in slot `i` still has the pending signals that values are queued for. -/
def Machine.Keeps (m : Machine) (i : Slot) (p : Process) : Prop :=
  ∀ k, (m.pool k).used = true → (m.pool k).target = (m.table i).pid →
    (m.table i).pending (m.pool k).info.signo = true → p.pending (m.pool k).info.signo = true

/-- From `m` to `n` no value was queued, taken or dropped, and whoever has values
queued keeps their signals. -/
structure Quiet (m n : Machine) : Prop where
  pool : n.pool = m.pool
  nextPid : n.nextPid = m.nextPid
  sendings : n.sendings = m.sendings
  ledger : n.ledger = m.ledger
  present : ∀ i, (n.table i).state ≠ .free → (m.table i).state ≠ .free
  pid : ∀ i, (n.table i).pid = (m.table i).pid
  signals : ∀ i, m.Keeps i (n.table i)

namespace Quiet

theorem refl (m : Machine) : Quiet m m :=
  ⟨rfl, rfl, rfl, rfl, fun _ here => here, fun _ => rfl, fun _ _ _ _ pending => pending⟩

theorem trans {o : Machine} (first : Quiet m n) (second : Quiet n o) : Quiet m o where
  pool := second.pool.trans first.pool
  nextPid := second.nextPid.trans first.nextPid
  sendings := second.sendings.trans first.sendings
  ledger := second.ledger.trans first.ledger
  present i here := first.present i (second.present i here)
  pid i := (second.pid i).trans (first.pid i)
  signals i k used mine pending := by
    have later := second.signals i k
    rw [first.pool, first.pid i] at later
    exact later used mine (first.signals i k used mine pending)

/-- What `n` keeps besides is of no matter. -/
theorem of_same {o : Machine} (quiet : Quiet m n) (table : o.table = n.table)
    (pool : o.pool = n.pool) (nextPid : o.nextPid = n.nextPid)
    (sendings : o.sendings = n.sendings) (ledger : o.ledger = n.ledger) : Quiet m o := by
  refine quiet.trans ⟨pool, nextPid, sendings, ledger, ?_, ?_, ?_⟩
  · simp [table]
  · simp [table]
  · exact fun _ _ _ _ pending => table ▸ pending

/-- One process changes, and keeps the signals it has values for. -/
theorem set {i : Slot} {p : Process}
    (present : p.state ≠ .free → (m.table i).state ≠ .free) (pid : p.pid = (m.table i).pid)
    (signals : m.Keeps i p) : Quiet m (m.setProcess i p) := by
  have cases (P : Slot → Process → Prop) (own : P i p) (others : ∀ j, P j (m.table j)) (j : Slot) :
      P j ((m.setProcess i p).table j) := by
    by_cases here : j = i
    · subst here
      simpa [Machine.setProcess] using own
    · simpa [Machine.setProcess, here] using others j
  refine ⟨rfl, rfl, rfl, rfl, ?_, ?_, ?_⟩
  · exact cases (fun j q => q.state ≠ .free → (m.table j).state ≠ .free) present fun _ here => here
  · exact cases (fun j q => q.pid = (m.table j).pid) pid fun _ => rfl
  · exact cases m.Keeps signals fun _ _ _ _ pending => pending

/-- A change of fields that have nothing to do with signals. -/
theorem set_same {i : Slot} {p : Process}
    (present : p.state ≠ .free → (m.table i).state ≠ .free) (pid : p.pid = (m.table i).pid)
    (signals : p.signals = (m.table i).signals) : Quiet m (m.setProcess i p) := by
  apply set present pid
  intro k _ _ pending
  unfold Process.pending at pending ⊢
  rwa [signals]

end Quiet

variable {i self : Slot} {pid : U32} {sig : Nat}

theorem discards_nil {p : Process} (kept : m.Keeps i p) : discards m i p = [] := by
  unfold discards
  rw [map_eq_nil_iff, filter_eq_nil_iff]
  intro k _
  simp only [Bool.and_eq_true, beq_iff_eq, Bool.not_eq_true', not_and, Bool.not_eq_false]
  exact fun ⟨⟨used, mine⟩, pending⟩ => kept k used mine pending

/-- Has `pid` a value queued that `sig` would cancel? -/
def cancels (m : Machine) (pid : U32) (sig : Nat) : Bool :=
  decide (∃ k, (m.pool k).used = true ∧ (m.pool k).target = pid ∧
    cancelledBy sig (m.pool k).info.signo = true)

theorem cancels_iff : cancels m pid sig = false ↔
    ∀ k, (m.pool k).used → (m.pool k).target = pid →
      cancelledBy sig (m.pool k).info.signo = false := by
  simp [cancels]

theorem signalSendInfo_quiet (code : U32) (safe : cancels m (m.table i).pid sig = false) :
    Quiet m (signalSendInfo m i sig code) := by
  have keeps : m.Keeps i ((m.table i).receive sig code m.senderPid) := fun k used mine pending =>
    Process.pending_receive code _ pending (cancels_iff.mp safe k used mine)
  have present : ((m.table i).receive sig code m.senderPid).state ≠ .free →
      (m.table i).state ≠ .free := by
    intro here
    rw [ne_eq, ← presence_absent_iff, Process.person_receive, presence_absent_iff] at here
    exact here
  have set := Quiet.set present (Process.receive_pid _ _ _ _) keeps
  refine set.of_same (o := signalSendInfo m i sig code) rfl rfl rfl rfl ?_
  simp only [signalSendInfo, discards_nil keeps, append_nil]
  rfl

theorem cancels_quiet (quiet : Quiet m n) (safe : cancels m pid sig = false) :
    cancels n pid sig = false := by
  rw [cancels_iff] at safe ⊢
  rwa [quiet.pool]

theorem cancels_other (go : sig ≠ sigcont) (mild : sig ≠ sigkill)
    (goes : signalDefaultAction sig ≠ .stop) : cancels m pid sig = false := by
  apply cancels_iff.mpr
  simp [cancelledBy, go, mild, goes]

/-! The end of a process. -/

/-- Would the end of the process `dead` cancel a signal that `p` has values for? -/
def Process.losesAtEnd (m : Machine) (p : Process) (dead : U32) : Bool :=
  p.ppid == dead && p.pdeathsig != 0 && cancels m p.pid p.pdeathsig ||
    p.tracer == dead && cancels m p.pid sigcont

def endCancels (m : Machine) (dead : Slot) : Bool :=
  decide (∃ c, (m.table c).losesAtEnd m (m.table dead).pid = true)

variable {e : Event} {k : Fin sigqueueSize} {dead : Slot}

theorem wakeSleepers_quiet (m : Machine) : Quiet m (wakeSleepers m) := by
  have changes (p : Process) : ∃ state sleepTicks, p.tick = { p with state, sleepTicks } ∧
      (state ≠ .free → p.state ≠ .free) := by
    unfold Process.tick
    split
    · exact ⟨_, _, rfl, fun here => here⟩
    rename_i asleep
    refine ⟨_, _, rfl, fun _ => ?_⟩
    rw [not_not.mp asleep]
    decide
  refine ⟨rfl, rfl, rfl, rfl, fun i => ?_, fun i => ?_, fun i k _ _ => ?_⟩
  all_goals
    obtain ⟨state, sleepTicks, same, free⟩ := changes (m.table i)
    simp only [wakeSleepers, same]
  · exact free
  · exact fun pending => pending

theorem quiet_passes : Passes Quiet where
  refl := .refl
  trans := .trans
  edit _ _ _ edit := .set_same edit.present edit.pid edit.signals
  note n _ _ := (Quiet.refl n).of_same rfl rfl rfl rfl rfl
  pick n _ := (Quiet.refl n).of_same rfl rfl rfl rfl rfl
  tick := wakeSleepers_quiet

theorem Quiet.sends (quiet : Quiet m n) (safe : cancels m (m.table i).pid sig = false) (code : U32) :
    Quiet n (signalSendInfo n i sig code) := by
  apply signalSendInfo_quiet
  rw [quiet.pid]
  exact cancels_quiet quiet safe

theorem endSends_safe {c : Slot} (safe : endCancels m dead = false)
    (told : endSends m (m.table dead).pid c sig) : cancels m (m.table c).pid sig = false := by
  have safe : (m.table c).losesAtEnd m (m.table dead).pid = false := by
    simp only [endCancels, decide_eq_false_iff_not, not_exists, Bool.not_eq_true] at safe
    exact safe c
  obtain ⟨asks, frees⟩ := Bool.or_eq_false_iff.mp safe
  obtain ⟨child, rfl, some⟩ | ⟨mine, rfl⟩ | rfl := told
  · simpa [child, some] using asks
  · simpa [mine] using frees
  · exact cancels_other (by decide) (by decide) (by decide)

/-! The invariant. -/

/-- Not first discarded and then handed over. -/
def ValueNote.Before (a b : ValueNote) : Prop := ∀ x, a = .discarded x → b ≠ .handed x

/-- A value that waits for a process has its signal pending there. -/
def Machine.Pends (m : Machine) : Prop :=
  ∀ k i, (m.pool k).used = true → (m.table i).state ≠ .free →
    (m.table i).pid = (m.pool k).target → (m.table i).pending (m.pool k).info.signo = true

structure Values (m : Machine) : Prop where
  pending : m.Pends
  known : ∀ k, (m.pool k).used = true → (m.pool k).target.toNat < m.nextPid.toNat
  fresh : ∀ k, (m.pool k).used = true → (m.pool k).sending < m.sendings
  past : ∀ x, .discarded x ∈ m.ledger →
    x < m.sendings ∧ ∀ k, (m.pool k).used = true → (m.pool k).sending ≠ x
  order : m.ledger.Pairwise ValueNote.Before

/-- From `m` to `n` values were at most handed over or dropped. -/
structure Taken (m n : Machine) : Prop where
  pool : ∀ k, (n.pool k).used = true → n.pool k = m.pool k
  nextPid : n.nextPid = m.nextPid
  sendings : n.sendings = m.sendings
  ledger : ∃ notes, n.ledger = m.ledger ++ notes ∧ ∀ note ∈ notes, ∃ k,
    (m.pool k).used = true ∧ note = .handed (m.pool k).sending

theorem Quiet.taken (quiet : Quiet m n) : Taken m n where
  pool k _ := by rw [quiet.pool]
  nextPid := quiet.nextPid
  sendings := quiet.sendings
  ledger := ⟨[], by rw [quiet.ledger, append_nil], by simp⟩

theorem Taken.used (taken : Taken m n) (used : (n.pool k).used) :
    (m.pool k).used := by rwa [← taken.pool k used]

theorem Values.lose (values : Values m) (taken : Taken m n) (pending : n.Pends) : Values n := by
  obtain ⟨notes, ledger, handed⟩ := taken.ledger
  refine ⟨pending, fun k used => ?_, fun k used => ?_, fun x noted => ?_, ?_⟩
  · rw [taken.pool k used, taken.nextPid]
    exact values.known k (taken.used used)
  · rw [taken.pool k used, taken.sendings]
    exact values.fresh k (taken.used used)
  · rw [ledger, mem_append] at noted
    obtain old | new := noted
    · obtain ⟨low, gone⟩ := values.past x old
      refine ⟨taken.sendings ▸ low, fun k used => ?_⟩
      rw [taken.pool k used]
      exact gone k (taken.used used)
    · obtain ⟨k, -, same⟩ := handed _ new
      exact nomatch same
  · rw [ledger, pairwise_append]
    refine ⟨values.order, ?_, ?_⟩
    · apply List.Pairwise.imp_of_mem (R := fun _ _ => True) _ (pairwise_of_forall (by simp))
      rintro a b here - - x rfl
      obtain ⟨k, -, same⟩ := handed _ here
      exact nomatch same
    · rintro a old b new x rfl rfl
      obtain ⟨k, used, same⟩ := handed _ new
      exact (values.past x old).2 k used (ValueNote.handed.inj same).symm

theorem Values.quiet (values : Values m) (quiet : Quiet m n) : Values n := by
  apply values.lose quiet.taken
  intro k i used here mine
  rw [quiet.pool] at used mine ⊢
  rw [quiet.pid] at mine
  exact quiet.signals i k used mine.symm (values.pending k i used (quiet.present i here) mine)

/-! Values that are taken. -/

theorem queuedFor_iff :
    queuedFor m pid sig k ↔ (m.pool k).used ∧ (m.pool k).target = pid ∧
      (m.pool k).info.signo = sig := by
  simp [queuedFor, and_assoc]

theorem sigqueueTake_taken (m : Machine) (pid : U32) (sig : Nat) :
    Taken m (sigqueueTake m pid sig).1 := by
  unfold sigqueueTake
  split
  · next k oldest =>
    have here := (queuedFor_iff.mp (oldestSlot_some oldest)).1
    refine ⟨fun j used => ?_, rfl, rfl, _, rfl, ?_⟩
    · by_cases same : j = k
      · subst same
        simp [Machine.freeQueued] at used
      · simp [Machine.freeQueued, same]
    · intro note mem
      exact ⟨k, here, mem_singleton.mp mem⟩
  · exact (Quiet.refl m).taken

theorem Taken.set (taken : Taken m n) (i : Slot) (p : Process) : Taken m (n.setProcess i p) :=
  ⟨taken.pool, taken.nextPid, taken.sendings, taken.ledger⟩

theorem not_waiting (none : sigqueueWaiting m pid sig = false) (used : (m.pool k).used)
    (mine : (m.pool k).target = pid) : (m.pool k).info.signo ≠ sig := by
  intro same
  have free := findSlot_none (by simpa [sigqueueWaiting] using none) k
  rw [queuedFor_iff.mpr ⟨used, mine, same⟩] at free
  exact nomatch free

theorem Takes.taken (takes : Takes m i sig n) : Taken m n := by
  cases takes with
  | intro signals => exact (sigqueueTake_taken m (m.table i).pid sig).set i _

theorem Takes.values (values : Values m) (takes : Takes m i sig n) : Values n := by
  have taken := takes.taken
  apply values.lose taken
  intro k j used here mine
  have before (there : (m.table j).state ≠ .free) (named : (m.table j).pid = (n.pool k).target) :
      (m.table j).pending (n.pool k).info.signo := by
    rw [taken.pool k used] at named ⊢
    exact values.pending k j (taken.used used) there named
  cases takes with
  | intro signals kept more =>
    simp only [Machine.setProcess, sigqueueTake_table] at here mine ⊢
    by_cases same : j = i
    · subst same
      simp only [update_self] at here mine ⊢
      by_cases this : ((sigqueueTake m (m.table j).pid sig).1.pool k).info.signo = sig
      · -- another value of the signal still waits
        simp only [this]
        apply more
        by_contra last
        exact not_waiting (Bool.eq_false_of_not_eq_true last) used mine.symm this
      · exact kept _ this (before here mine)
    · simp only [update_of_ne same] at here mine ⊢
      exact before here mine

theorem sigwaitTake_values (values : Values m) (i : Slot) (set : U32) :
    Values (sigwaitTake m i set) := by
  cases found : lowestBit ((m.table i).signals &&& (set &&& ~~~sigUnblockable)) with
  | none =>
    rw [sigwaitTake, found]
    exact values
  | some sig => exact (sigwaitTake_takes found).values values

theorem reap_values (values : Values m) (i : Slot) : Values (reap m i) := by
  unfold reap
  dsimp only
  split
  · refine values.lose ⟨fun k used => ?_, rfl, rfl, [], (append_nil _).symm, by simp⟩ ?_
    · -- the reaper drops the values of the one it reaps
      simp only [Machine.setProcess, exitlogAdd, sigqueueRelease] at used ⊢
      split at used
      · cases used
      · next other => rw [if_neg other]
    · intro k j used here mine
      simp only [Machine.setProcess, exitlogAdd, sigqueueRelease] at used here mine ⊢
      split at used
      · cases used
      rename_i other
      rw [if_neg other] at mine ⊢
      by_cases same : j = i
      · subst same
        simp [Process.withState] at here
      simp only [update_of_ne same] at here mine ⊢
      exact values.pending k j used here mine
  · exact values

/-! Creating, and queueing a value. -/

theorem newborn_pid (creator : Option Process) (pid uid : U32) :
    (Process.newborn creator pid uid).pid = pid := by
  unfold Process.newborn
  split
  · rfl
  split <;> rfl

theorem processCreate_values (values : Values m) (uid : U32) (stackOk : Bool) :
    Values (processCreate m uid stackOk) := by
  unfold processCreate
  split
  · exact values
  rename_i bounds
  split
  · exact values
  split
  · exact values
  split
  · exact values
  rename_i i _
  split
  · refine values.lose ⟨fun _ _ => rfl, rfl, rfl, [], (append_nil _).symm, by simp⟩ ?_
    intro k j used here mine
    by_cases same : j = i
    · subst same
      simp [Machine.setProcess] at here
    simp only [Machine.setProcess, update_of_ne same] at used here mine ⊢
    exact values.pending k j used here mine
  · have room : m.nextPid.toNat + 1 < 2 ^ 32 := by
      simp [defPidBoundsCheck, BitVec.lt_def] at bounds
      omega
    have next : (m.nextPid + 1).toNat = m.nextPid.toNat + 1 := by exact mod_eq_of_lt room
    refine ⟨fun k j used here mine => ?_, fun k used => ?_, values.fresh, values.past, values.order⟩
    · by_cases same : j = i
      · -- no value waits for a pid that was not given out yet
        subst same
        simp only [Machine.setProcess, Machine.note, update_self, newborn_pid] at used mine
        have known := values.known k used
        rw [← mine] at known
        exact absurd known (lt_irrefl _)
      · simp only [Machine.setProcess, Machine.note, update_of_ne same] at used here mine ⊢
        exact values.pending k j used here mine
    · have known := values.known k used
      change (m.pool k).target.toNat < (m.nextPid + 1).toNat
      omega

/-- A value joins the pool, and its signal is pending. -/
theorem Values.queue (values : Values m) (q : Queued) (table : n.table = m.table)
    (nextPid : n.nextPid = m.nextPid) (sendings : n.sendings = m.sendings + 1)
    (ledger : n.ledger = m.ledger)
    (pool : ∀ k, (n.pool k).used → n.pool k = q ∨ n.pool k = m.pool k)
    (number : q.sending = m.sendings) (known : q.target.toNat < m.nextPid.toNat)
    (pending : ∀ i, (m.table i).state ≠ .free → (m.table i).pid = q.target →
      (m.table i).pending q.info.signo) : Values n := by
  refine ⟨fun k i used here mine => ?_, fun k used => ?_, fun k used => ?_, fun x noted => ?_,
    ledger ▸ values.order⟩
  · rw [table] at here mine ⊢
    obtain same | same := pool k used
    · rw [same] at mine ⊢
      exact pending i here mine
    rw [same] at mine used ⊢
    exact values.pending k i used here mine
  · rw [nextPid]
    obtain same | same := pool k used
    · rwa [same]
    rw [same] at used ⊢
    exact values.known k used
  · rw [sendings]
    obtain same | same := pool k used
    · rw [same, number]
      exact lt_succ_self _
    rw [same] at used ⊢
    exact lt_succ_of_lt (values.fresh k used)
  · rw [ledger] at noted
    obtain ⟨low, gone⟩ := values.past x noted
    refine ⟨by omega, fun k used => ?_⟩
    obtain same | same := pool k used
    · rw [same, number]
      exact ne_of_gt low
    rw [same] at used ⊢
    exact gone k used

/-- A value is thrown away as it comes. -/
theorem Values.throw (values : Values m) (table : n.table = m.table)
    (nextPid : n.nextPid = m.nextPid) (sendings : n.sendings = m.sendings + 1)
    (ledger : n.ledger = m.ledger ++ [.discarded m.sendings])
    (pool : ∀ k, (n.pool k).used → n.pool k = m.pool k) : Values n := by
  have used {k : Fin sigqueueSize} (here : (n.pool k).used) : (m.pool k).used := by
    rwa [← pool k here]
  refine ⟨fun k i here present mine => ?_, fun k here => ?_, fun k here => ?_, fun x noted => ?_, ?_⟩
  · rw [table] at present mine ⊢
    rw [pool k here] at mine ⊢
    exact values.pending k i (used here) present mine
  · rw [nextPid, pool k here]
    exact values.known k (used here)
  · rw [sendings, pool k here]
    exact lt_succ_of_lt (values.fresh k (used here))
  · rw [ledger, mem_append] at noted
    obtain old | new := noted
    · obtain ⟨low, gone⟩ := values.past x old
      refine ⟨by omega, fun k here => ?_⟩
      rw [pool k here]
      exact gone k (used here)
    · obtain rfl := ValueNote.discarded.inj (mem_singleton.mp new)
      refine ⟨by omega, fun k here => ?_⟩
      rw [pool k here]
      exact Nat.ne_of_lt (values.fresh k (used here))
  · rw [ledger, pairwise_append]
    refine ⟨values.order, pairwise_singleton _ _, fun a _ b new x _ same => ?_⟩
    rw [mem_singleton.mp new] at same
    exact nomatch same

/-- The step throws a signal away that has values queued: rt_sigaction that makes
the caller ignore it, or rt_sigqueueinfo of an ignored signal that is still pending
from before. -/
def throwsValues (m : Machine) : Event → Bool
  | .sigaction sig act => m.acting.any fun i =>
      ignoring sig act && sigqueueWaiting m (m.table i).pid sig
  | .sigqueueinfo pid sig _ => (processGetByPid m pid).any fun t =>
      (m.table t).ignored sig && (m.table t).pending sig
  | _ => false

/-- No signal that has values queued is thrown away by this step. -/
def keepsValues (m : Machine) (e : Event) : Bool :=
  !(sentTo m e).any (fun s => cancels m (m.table s.1).pid s.2) && !(ending m e).any (endCancels m) &&
    !throwsValues m e

theorem sent_kept (ok : keepsValues m e) (sent : sentTo m e = some (i, sig)) :
    cancels m (m.table i).pid sig = false := by
  simp only [keepsValues, Bool.and_eq_true, sent] at ok
  simpa using ok.1.1

theorem ending_kept (ok : keepsValues m e) (ends : ending m e = some i) :
    endCancels m i = false := by
  simp only [keepsValues, Bool.and_eq_true, ends] at ok
  simpa using ok.1.2

section Queueing

variable {t : Slot} {sig : Nat} {k : Fin sigqueueSize} {info : Siginfo}

/-- The send after sigqueue_add does to the table what a plain send does, and its
own value is the only one it may throw away. -/
theorem sendQueued_fields (signo : info.signo = sig)
    (safe : cancels m (m.table t).pid sig = false) :
    let sent := sendQueued (m.queued k (m.table t).pid info) t sig m.sendings
    sent.table = (signalSendInfo m t sig siQueue).table ∧
      sent.nextPid = m.nextPid ∧ sent.sendings = m.sendings + 1 ∧
      sent.pool = (m.queued k (m.table t).pid info).pool ∧
      sent.ledger = m.ledger ++ if (m.table t).ignored sig then [.discarded m.sendings] else [] := by
  have none : discards (m.queued k (m.table t).pid info) t
      ((m.table t).receive sig siQueue m.senderPid) = [] := by
    apply discards_nil
    intro j used mine pending
    apply Process.pending_receive _ _ pending
    by_cases own : j = k
    · subst own
      simp only [Machine.queued, update_self, signo]
      exact cancelledBy_self sig
    simp only [Machine.queued, update_of_ne own] at used mine ⊢
    exact cancels_iff.mp safe j used mine
  have ledger : (signalSendInfo (m.queued k (m.table t).pid info) t sig siQueue).ledger =
      m.ledger := by
    calc (signalSendInfo (m.queued k (m.table t).pid info) t sig siQueue).ledger
        = m.ledger ++ discards (m.queued k (m.table t).pid info) t
            ((m.table t).receive sig siQueue m.senderPid) := rfl
      _ = m.ledger := by rw [none, append_nil]
  unfold sendQueued
  dsimp only
  split
  · next thrown =>
    have thrown : (m.table t).ignored sig := thrown
    refine ⟨rfl, rfl, rfl, rfl, ?_⟩
    rw [if_pos thrown, ledger]
  · next wanted =>
    have wanted : ¬ (m.table t).ignored sig := wanted
    refine ⟨rfl, rfl, rfl, rfl, ?_⟩
    rw [if_neg wanted, ledger, append_nil]

theorem sendQueued_pending (signo : info.signo = sig)
    (safe : cancels m (m.table t).pid sig = false) :
    (sendQueued (m.queued k (m.table t).pid info) t sig m.sendings).table t =
      (m.table t).receive sig siQueue m.senderPid := by
  rw [(sendQueued_fields signo safe).1, signalSendInfo_self]

/-- A wanted signal is pending after its send, and its value waits for it. -/
theorem sendQueued_wanted (values : Values m) (numbered : m.people.Numbered)
    (here : (m.table t).state ≠ .free) (valid : validSignal sig) (queues : sig ≠ sigstop)
    (signo : info.signo = sig) (safe : cancels m (m.table t).pid sig = false)
    (wanted : (m.table t).ignored sig = false) :
    Values (sendQueued (m.queued k (m.table t).pid info) t sig m.sendings) := by
  have quiet : Quiet m (signalSendInfo m t sig siQueue) := signalSendInfo_quiet siQueue safe
  obtain ⟨table, nextPid, sendings, pool, ledger⟩ := sendQueued_fields (k := k) signo safe
  apply (values.quiet quiet).queue
    { used := true, target := (m.table t).pid, order := m.nextOrder, info, sending := m.sendings }
    table nextPid
  · rw [sendings, quiet.sendings]
  · rw [ledger, wanted, quiet.ledger]
    exact append_nil _
  · intro j used
    rw [pool, quiet.pool]
    by_cases own : j = k
    · subst own
      simp [Machine.queued]
    simp [Machine.queued, own]
  · exact quiet.sendings.symm
  · have range := (numbered.range t (mt presence_absent_iff.mp here)).2
    rw [people_folk, person_pid here] at range
    exact range
  · intro i present mine
    have there := quiet.present i present
    rw [quiet.pid] at mine
    obtain rfl : i = t := by
      apply numbered.distinct i t (mt presence_absent_iff.mp there) (mt presence_absent_iff.mp here)
      rw [people_folk, people_folk, person_pid there, person_pid here, mine]
    rw [signalSendInfo_self, signo]
    exact Process.receive_accepts _ _ valid queues wanted

/-- An ignored signal that was not pending is not pending after its send, and the
value that came with it is the one that is dropped. -/
theorem sendQueued_thrown (values : Values m) (here : (m.table t).state ≠ .free)
    (signo : info.signo = sig) (free : (m.pool k).used = false)
    (safe : cancels m (m.table t).pid sig = false)
    (unwanted : (m.table t).ignored sig) (before : (m.table t).pending sig = false) :
    Values (sigqueueDrop (sendQueued (m.queued k (m.table t).pid info) t sig m.sendings)
      (m.table t).pid sig) := by
  have quiet : Quiet m (signalSendInfo m t sig siQueue) := signalSendInfo_quiet siQueue safe
  obtain ⟨table, nextPid, sendings, pool, ledger⟩ := sendQueued_fields (k := k) signo safe
  rw [if_pos unwanted] at ledger
  generalize sendQueued (m.queued k (m.table t).pid info) t sig m.sendings = sent at *
  have waits : queuedFor sent (m.table t).pid sig k := by
    apply queuedFor_iff.mpr
    rw [pool]
    simp [Machine.queued, signo]
  have only (j : Fin sigqueueSize) (waits : queuedFor sent (m.table t).pid sig j) : j = k := by
    by_contra other
    rw [queuedFor_iff, pool] at waits
    simp only [Machine.queued, update_of_ne other] at waits
    obtain ⟨used, mine, same⟩ := waits
    have pending := values.pending j t used here mine.symm
    rw [same, before] at pending
    exact nomatch pending
  have oldest : sigqueueOldest sent (m.table t).pid sig = some k := by
    cases found : sigqueueOldest sent (m.table t).pid sig with
    | none =>
      have none := oldestSlot_none found k
      rw [waits] at none
      exact nomatch none
    | some j => rw [only j (oldestSlot_some found)]
  unfold sigqueueDrop
  rw [oldest]
  refine Values.throw (n := sent.freeQueued k) (values.quiet quiet) table nextPid ?_ ?_ ?_
  · exact sendings
  · rw [quiet.ledger]
    exact ledger
  · intro j used
    rw [quiet.pool]
    by_cases own : j = k
    · subst own
      simp [Machine.freeQueued] at used
    · simp [Machine.freeQueued, own, pool, Machine.queued]

end Queueing

theorem sysRtSigqueueinfo_values (values : Values m) (numbered : m.people.Numbered) {value : U32}
    (ok : keepsValues m (.sigqueueinfo pid sig value)) :
    Values (sysRtSigqueueinfo m self pid sig value) := by
  obtain ⟨-, refused⟩ | ⟨t, k, info, found, valid, queues, signo, free, -, result⟩ :=
    sysRtSigqueueinfo_cases m self pid sig value
  · rwa [refused]
  obtain ⟨here, rfl⟩ := found_present found
  have safe : cancels m (m.table t).pid sig = false := sent_kept ok (by simp [sentTo, found])
  rw [result]
  dsimp only
  rw [sendQueued_pending signo safe]
  cases ignored : (m.table t).ignored sig with
  | false =>
    rw [if_pos (Process.receive_accepts _ _ valid queues ignored)]
    exact sendQueued_wanted values numbered here valid queues signo safe ignored
  | true =>
    have before : (m.table t).pending sig = false := by
      simp only [keepsValues, throwsValues, found, Bool.and_eq_true] at ok
      simpa [ignored] using ok.2
    rw [Process.receive_throws _ _ queues ignored before]
    exact sendQueued_thrown values here signo free safe ignored before

/-! The steps that queue and take nothing. -/

theorem step_quiet (ok : keepsValues m e) (keeps : e.steady) : Quiet m (step m e) := by
  refine quiet_passes.step keeps fun n c sig code quiet told => quiet.sends ?_ code
  obtain sent | ⟨victim, aimed, told⟩ := told
  · exact sent_kept ok sent
  · exact endSends_safe (ending_kept ok aimed) told

theorem signalClear_quiet (none : sigqueueWaiting m (m.table i).pid sig = false) :
    Quiet m (signalClear m i sig) := by
  obtain ⟨p, p_eq⟩ : ∃ p, p = if validSignal sig then (m.table i).clear (sigBit sig)
    else m.table i := ⟨_, rfl⟩
  have keeps : m.Keeps i p := by
    intro k used mine pending
    rw [p_eq]
    split
    · exact pending_clear_other (not_waiting none used mine) pending
    · exact pending
  have set : Quiet m (m.setProcess i p) := by
    apply Quiet.set _ _ keeps
    · rw [p_eq]
      split <;> exact fun here => here
    · rw [p_eq]
      split <;> rfl
  unfold signalClear
  dsimp only
  rw [← p_eq]
  refine set.of_same rfl rfl rfl rfl ?_
  rw [discards_nil keeps]
  exact append_nil _

theorem sysRtSigaction_quiet (acts : m.acting = some i) {act : Sigaction}
    (ok : keepsValues m (.sigaction sig act)) : Quiet m (sysRtSigaction m i sig act) := by
  have set : Quiet m (m.setProcess i ((m.table i).setAction sig act)) := Quiet.set_same id rfl rfl
  unfold sysRtSigaction
  split
  · exact .refl m
  split
  · next ignores =>
    have none : sigqueueWaiting m (m.table i).pid sig = false := by
      simp only [keepsValues, throwsValues, acts, Bool.and_eq_true] at ok
      simpa [ignores] using ok.2
    refine set.trans (signalClear_quiet ?_)
    rw [set.pid]
    exact none
  · exact set

/-! One step. -/

theorem cancels_taken (taken : Taken m n) (safe : cancels m pid sig = false) :
    cancels n pid sig = false := by
  rw [cancels_iff] at safe ⊢
  intro k used mine
  have same := taken.pool k used
  rw [same] at used mine ⊢
  exact safe k used mine

theorem endCancels_taken {signals : U32} (taken : Taken m n)
    (table : n.table = (m.setProcess i { m.table i with signals }).table)
    (safe : endCancels m i = false) : endCancels n i = false := by
  have same (c : Slot) : (n.table c).pid = (m.table c).pid ∧ (n.table c).ppid = (m.table c).ppid ∧
      (n.table c).tracer = (m.table c).tracer ∧ (n.table c).pdeathsig = (m.table c).pdeathsig := by
    rw [table]
    by_cases here : c = i
    · subst here
      simp [Machine.setProcess]
    · simp [Machine.setProcess, here]
  have safe : ∀ c, (m.table c).losesAtEnd m (m.table i).pid = false := by
    simpa [endCancels] using safe
  simp only [endCancels, decide_eq_false_iff_not, not_exists, Bool.not_eq_true]
  intro c
  obtain ⟨pid, ppid, tracer, pdeathsig⟩ := same c
  have safe := safe c
  unfold Process.losesAtEnd at safe ⊢
  rw [(same i).1, pid, ppid, tracer, pdeathsig]
  simp only [Bool.or_eq_false_iff, Bool.and_eq_false_iff] at safe ⊢
  exact safe.imp (Or.imp_right (cancels_taken taken)) (Or.imp_right (cancels_taken taken))

theorem Served.values (values : Values m) (here : (m.table i).state ≠ .free)
    (safe : endCancels m i = false) (served : Served m i sig n) : Values n := by
  cases served with
  | dropped => exact values
  | stopped => exact values.quiet (Quiet.set_same (fun _ => here) rfl rfl)
  | ended status =>
    exact values.quiet (quiet_passes.endWith here status fun n c sig quiet told =>
      quiet.sends (endSends_safe safe told) siKernel)
  | handled => exact values.quiet (Quiet.set_same id rfl rfl)

theorem signalDeliver_values (values : Values m) (here : (m.table i).state ≠ .free)
    (safe : endCancels m i = false) (frame : Option U32) : Values (signalDeliver m i frame) := by
  obtain same | restored | ⟨sig, -, found, served⟩ := signalDeliver_cases m i frame
  · rwa [same]
  · rw [restored]
    apply values.quiet
    unfold Process.restoreMask
    split <;> exact Quiet.set_same id rfl rfl
  · obtain ⟨signals, table⟩ := takeSignal_table m i sig
    have takes := takeSignal_takes m i (lowestBit_valid found)
    refine served.values (takes.values values) ?_ (endCancels_taken takes.taken table safe)
    simpa [table, Machine.setProcess] using here

theorem step_values (values : Values m) (numbered : m.people.Numbered) (e : Event)
    (ok : keepsValues m e) : Values (step m e) := by
  cases e with
  | create uid stackOk =>
    exact step_of_call rfl values fun _ _ => processCreate_values values uid stackOk
  | reapSlot i => exact reap_values values i
  | sigaction sig act =>
    exact step_of_call rfl values fun _ acts => values.quiet (sysRtSigaction_quiet acts ok)
  | deliver frame =>
    refine step_of_call rfl values fun i acts => signalDeliver_values values ?_ ?_ frame
    · exact present_of_alive (acting_some acts).2.1
    · exact ending_kept ok acts
  | sigtimedwait set => exact step_of_call rfl values fun i _ => sigwaitTake_values values i set
  | sigqueueinfo pid sig value =>
    exact step_of_call rfl values fun _ _ => sysRtSigqueueinfo_values values numbered ok
  | wait4 which =>
    refine step_of_call rfl values fun i _ => ?_
    simp only [call, sysWait4]
    split
    · exact values
    split
    · exact values
    · exact values.quiet ((Quiet.refl m).of_same rfl rfl rfl rfl rfl)
  | setPgid | setSid =>
    exact step_of_call rfl values fun _ _ => values.quiet (Quiet.set_same id rfl rfl)
  | _ => exact values.quiet (step_quiet ok rfl)

theorem boot_values : Values boot := by
  have unused (k : Fin sigqueueSize) : (boot.pool k).used = false := by
    revert k
    decide +kernel
  have quiet : boot.ledger = [] := by decide +kernel
  refine ⟨fun k i used => ?_, fun k used => ?_, fun k used => ?_, fun x noted => ?_, ?_⟩
  · exact absurd used (by simp [unused k])
  · exact absurd used (by simp [unused k])
  · exact absurd used (by simp [unused k])
  · exact absurd noted (by simp [quiet])
  · exact List.Pairwise.nil

/-- A value that waits for a process has its signal pending there, and no value was
handed over after its signal had been thrown away. -/
structure ValuesAgree (m : Machine) : Prop where
  pending : ∀ k i, (m.pool k).used = true → (m.table i).state ≠ .free →
    (m.table i).pid = (m.pool k).target → (m.table i).pending (m.pool k).info.signo = true
  gone : ∀ before x after, m.ledger = before ++ .discarded x :: after → .handed x ∉ after

theorem Values.agree (values : Values m) : ValuesAgree m := by
  refine ⟨values.pending, fun before x after ledger later => ?_⟩
  have order := values.order
  rw [ledger, pairwise_append, pairwise_cons] at order
  exact order.2.1.1 _ later x rfl rfl

/-- In every run in which no signal is thrown away while values are queued for it,
queued values and pending bits agree. -/
theorem queued_values_agree (events : List Event)
    (ok : everyStep keepsValues boot events = true) :
    ∀ pre post, events = pre ++ post → ValuesAgree (run boot pre) := by
  rintro pre post rfl
  have sound := Runs.run_keeps (P := fun m => m.people.Numbered ∧ Values m)
    (fun m e sound ok => ⟨step_numbered sound.1 e, step_values sound.2 sound.1 e ok⟩)
    ⟨boot_numbered, boot_values⟩ pre (Runs.everyStep_append pre post ok).1
  exact sound.2.agree

/-- A handler for SIGUSR1 in user space. -/
def catchUsr1 : Sigaction := { handler := 0x08048000, flags := 0, restorer := 0, mask := 0 }

/-- Two values of SIGUSR1 wait for a process that blocks and catches it; it takes
the first with rt_sigtimedwait, and the second is delivered once it unblocks. -/
def queueRun : List Event :=
  [.create 0 true, .yield true 2, .sigaction 10 catchUsr1, .sigprocmask .block (sigBit 10),
    .sigqueueinfo 3 10 7, .sigqueueinfo 3 10 8, .sigtimedwait (sigBit 10),
    .sigprocmask .unblock (sigBit 10), .deliver (some 0x0BFFFF00)]

theorem queued_values_agree_twice : everyStep keepsValues boot queueRun = true ∧
    (run boot queueRun).ledger = [.handed 0, .handed 1] ∧ ValuesAgree (run boot queueRun) := by
  have ok : everyStep keepsValues boot queueRun = true := by decide +kernel
  have ledger : (run boot queueRun).ledger = [.handed 0, .handed 1] := by decide +kernel
  exact ⟨ok, ledger, queued_values_agree queueRun ok queueRun [] (append_nil queueRun).symm⟩

/-- A value waits for SIGUSR1, the process ignores SIGUSR1 and catches it again: the
signal is gone, its value stays, and the next plain kill() delivers it. -/
def ignoreRun : List Event :=
  [.create 0 true, .yield true 2, .sigaction 10 catchUsr1, .sigprocmask .block (sigBit 10),
    .sigqueueinfo 3 10 7, .sigaction 10 { catchUsr1 with handler := sigIgn },
    .sigaction 10 catchUsr1, .sigprocmask .unblock (sigBit 10)]

def laterRun : List Event := ignoreRun ++ [.kill 3 10, .deliver (some 0x0BFFFF00)]

theorem ignored_value_delivered :
    (∃ k, queuedFor (run boot ignoreRun) 3 10 k = true) ∧
      ((run boot ignoreRun).table 2).pending 10 = false ∧
      (run boot laterRun).ledger = [.discarded 0, .handed 0] := by
  refine ⟨⟨0, ?_⟩, ?_, ?_⟩ <;> decide +kernel

end UzOS.Kernel
