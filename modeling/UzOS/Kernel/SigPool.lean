import UzOS.Kernel.SigValues
import UzOS.Lib.Stamped

/-! The pool of queued values (core/signal/sigqueue.c) as a queue: what a step sends
and hands over balances what waits before and after it. -/
namespace UzOS.Kernel

/-! ## What is sent and what arrives -/

/-- Which signal the step takes, and off whom. -/
def taking (m : Machine) : Event → Option (Slot × Nat)
  | .deliver _ => m.acting.bind fun i =>
    if (m.table i).isSystem then none else (lowestBit (m.table i).deliverable).map (i, ·)
  | .sigtimedwait set => m.acting.bind fun i =>
    (lowestBit ((m.table i).signals &&& (set &&& ~~~sigUnblockable))).map (i, ·)
  | _ => none

namespace Arrivals

/-- The values for one signal of one process that the step sends. -/
def sentBy (pid : U32) (s : Nat) (m : Machine) : Event → List Siginfo
  | .sigqueueinfo target sig value =>
    if target = pid ∧ sig = s then
      (m.acting.bind fun self => queuedBy m self target sig value).toList
    else []
  | _ => []

/-- And those it hands over. -/
def receivedBy (pid : U32) (s : Nat) (m : Machine) (e : Event) : List Siginfo :=
  match taking m e with
  | some (i, sig) =>
    if (m.table i).pid = pid ∧ sig = s then (sigqueueTake m pid s).2.toList else []
  | none => []

structure Mail where
  machine : Machine
  sent : List Siginfo := []
  received : List Siginfo := []

def step (pid : U32) (s : Nat) (w : Mail) (e : Event) : Mail :=
  ⟨Kernel.step w.machine e, w.sent ++ sentBy pid s w.machine e,
    w.received ++ receivedBy pid s w.machine e⟩

abbrev run (pid : U32) (s : Nat) (w : Mail) (events : List Event) : Mail :=
  Runs.run (step pid s) w events

/-- Whoever has the pid lives and does not ignore the signal. -/
def hears (pid : U32) (s : Nat) (m : Machine) : Bool :=
  decide (∀ i, (m.table i).state ≠ .free → (m.table i).pid = pid →
    (m.table i).alive = true ∧ (m.table i).ignored s = false)

/-- At the start of the run and after every step. -/
def hearsThroughout (pid : U32) (s : Nat) (m : Machine) (events : List Event) : Bool :=
  hears pid s m && everyStep (fun m e => hears pid s (Kernel.step m e)) m events

end Arrivals

/-! ## The pool as a queue -/

def Queued.isFor (pid : U32) (sig : Nat) (x : Queued) : Bool :=
  x.target == pid && x.info.signo == sig

open Stamped (Holds)

structure Pooled (m : Machine) (queue : List Queued) : Prop where
  holds : Holds Queued.used Queued.order m.pool queue
  older : ∀ x ∈ queue, x.order < m.nextOrder
  counter : m.nextOrder.toNat = m.sendings

variable {m n : Machine} {queue : List Queued}

section
variable (pooled : Pooled m queue)
include pooled

theorem Pooled.same (pool : n.pool = m.pool)
    (nextOrder : n.nextOrder = m.nextOrder) (sendings : n.sendings = m.sendings) :
    Pooled n queue := by
  refine ⟨pool ▸ pooled.holds, ?_, ?_⟩
  · rw [nextOrder]
    exact pooled.older
  · rw [nextOrder, sendings]
    exact pooled.counter

theorem Pooled.steady (steady : m.Steady n) : Pooled n queue :=
  pooled.same steady.pool steady.nextOrder steady.sendings

omit pooled in
theorem queuedFor_eq (m : Machine) (pid : U32) (sig : Nat) :
    queuedFor m pid sig = fun k => (m.pool k).used && (m.pool k).isFor pid sig := by
  funext k
  simp only [queuedFor, Queued.isFor, Bool.and_assoc]

variable (pid : U32) (sig : Nat)

theorem Pooled.waiting :
    sigqueueWaiting m pid sig ↔ ∃ x ∈ queue, x.isFor pid sig := by
  simp only [pooled.holds.mem]
  constructor
  · intro waits
    obtain ⟨k, found⟩ := Option.isSome_iff_exists.mp waits
    have here := findSlot_some found
    rw [queuedFor_eq] at here
    simp only [Bool.and_eq_true] at here
    exact ⟨_, ⟨k, here.1, rfl⟩, here.2⟩
  · rintro ⟨_, ⟨k, used, rfl⟩, mine⟩
    by_contra none
    have fails := findSlot_none (by simpa [sigqueueWaiting] using none) k
    rw [queuedFor_eq] at fails
    simp [used, mine] at fails

theorem Pooled.oldest :
    (sigqueueOldest m pid sig).map m.pool = queue.find? (Queued.isFor pid sig) := by
  unfold sigqueueOldest
  rw [queuedFor_eq]
  exact pooled.holds.oldest (Queued.isFor pid sig)

theorem Pooled.free {pid : U32} {sig : Nat} {k : Fin sigqueueSize}
    (oldest : sigqueueOldest m pid sig = some k) :
    Pooled (m.freeQueued k) (queue.eraseP (Queued.isFor pid sig)) := by
  unfold sigqueueOldest at oldest
  rw [queuedFor_eq] at oldest
  refine ⟨pooled.holds.take (Queued.isFor pid sig) oldest rfl, fun x there => ?_, pooled.counter⟩
  exact pooled.older x (List.mem_of_mem_eraseP there)

/-- sigqueue_take takes the first value of the signal. -/
theorem Pooled.take :
    Pooled (sigqueueTake m pid sig).1 (queue.eraseP (Queued.isFor pid sig)) ∧
      (sigqueueTake m pid sig).2 = (queue.find? (Queued.isFor pid sig)).map Queued.info := by
  have first := pooled.oldest pid sig
  unfold sigqueueTake
  cases oldest : sigqueueOldest m pid sig with
  | none =>
    rw [oldest] at first
    have none : queue.find? (Queued.isFor pid sig) = none := first.symm
    rw [none, List.eraseP_of_forall_not (by simpa using none)]
    exact ⟨pooled, rfl⟩
  | some k =>
    rw [oldest] at first
    rw [← first]
    exact ⟨(pooled.free oldest).same rfl rfl rfl, rfl⟩

theorem Pooled.drop : Pooled (sigqueueDrop m pid sig) (queue.eraseP (Queued.isFor pid sig)) := by
  unfold sigqueueDrop
  cases oldest : sigqueueOldest m pid sig with
  | none =>
    have none := pooled.oldest pid sig
    rw [oldest] at none
    rw [List.eraseP_of_forall_not (by simpa using none.symm)]
    exact pooled
  | some k => exact pooled.free oldest

end

/-- The entry sigqueue_add makes. -/
def Machine.entry (m : Machine) (target : U32) (info : Siginfo) : Queued :=
  { used := true, target, order := m.nextOrder, info, sending := m.sendings }

/-- sigqueue_add puts its value last. -/
theorem Pooled.add (pooled : Pooled m queue) {k : Fin sigqueueSize}
    (free : (m.pool k).used = false) (few : m.sendings + 1 < 2 ^ 32) (target : U32)
    (info : Siginfo) :
    Pooled (m.queued k target info) (queue ++ [m.entry target info]) := by
  have next : (m.nextOrder + 1).toNat = m.nextOrder.toNat + 1 := by
    rw [BitVec.toNat_add, Nat.mod_eq_of_lt]
    · rfl
    · rw [pooled.counter]
      exact few
  refine ⟨pooled.holds.add free rfl pooled.older, fun x there => ?_, ?_⟩
  · change x.order < m.nextOrder + 1
    rw [BitVec.lt_def, next]
    obtain old | new := List.mem_append.mp there
    · exact Nat.lt_succ_of_lt (BitVec.lt_def.mp (pooled.older x old))
    rw [List.mem_singleton.mp new]
    exact Nat.lt_succ_self _
  · change (m.nextOrder + 1).toNat = m.sendings + 1
    rw [next, pooled.counter]

theorem Pooled.release (pooled : Pooled m queue) (pid : U32) :
    Pooled (sigqueueRelease m pid) (queue.filter fun x => x.target != pid) := by
  have released (k : Fin sigqueueSize) : (sigqueueRelease m pid).pool k =
      if (m.pool k).used ∧ (m.pool k).target = pid then { m.pool k with used := false }
      else m.pool k := rfl
  refine ⟨pooled.holds.filter _ (fun k used => ?_) (fun k => ?_), fun x there => ?_, pooled.counter⟩
  · rw [released] at used ⊢
    split at used
    · cases used
    · next other => rw [if_neg other]
  · rw [released, bne_iff_ne]
    split
    · next mine => simp [mine]
    rename_i other
    constructor
    · exact fun used => ⟨used, fun mine => other ⟨used, mine⟩⟩
    · exact fun both => both.1
  · exact pooled.older x (List.mem_of_mem_filter there)

theorem sendQueued_steady (m : Machine) (t : Slot) (sig number : Nat) :
    m.Steady (sendQueued m t sig number) := by
  apply (signalSendInfo_steady m t sig siQueue).trans
  unfold sendQueued
  split
  · exact .same rfl rfl rfl rfl rfl rfl rfl rfl
  · exact .refl _

/-! ## What a step does to the pool -/

/-- No value is queued or taken, and who lives keeps a pending signal that does not stop
or continue, unless it is ignored from now on. -/
structure Undisturbed (m n : Machine) : Prop where
  pool : n.pool = m.pool
  nextOrder : n.nextOrder = m.nextOrder
  sendings : n.sendings = m.sendings
  pending : ∀ i s, jobControl s = false → (m.table i).alive = true →
    (m.table i).pending s = true → (n.table i).pending s = true ∨ (n.table i).ignored s = true

theorem Machine.Steady.undisturbed (steady : m.Steady n) : Undisturbed m n :=
  ⟨steady.pool, steady.nextOrder, steady.sendings,
    fun i s plain _ before => .inl (steady.pending i s plain before)⟩

theorem Undisturbed.refl (m : Machine) : Undisturbed m m := (Machine.Steady.refl m).undisturbed

theorem Undisturbed.set {i : Slot} {p : Process}
    (kept : (m.table i).alive → p.signals = (m.table i).signals) :
    Undisturbed m (m.setProcess i p) := by
  refine ⟨rfl, rfl, rfl, fun j s _ alive before => .inl ?_⟩
  by_cases here : j = i
  · subst here
    simpa [Machine.setProcess, Process.pending, kept alive] using before
  · simpa [Machine.setProcess, here] using before

theorem processCreate_undisturbed (m : Machine) (uid : U32) (stackOk : Bool) :
    Undisturbed m (processCreate m uid stackOk) := by
  have born {i : Slot} (found : findFreeSlot m = some i) (p : Process) :
      Undisturbed m (m.setProcess i p) := by
    apply Undisturbed.set
    intro alive
    have free := findSlot_some found
    simp only [beq_iff_eq] at free
    simp [Process.alive, free] at alive
  unfold processCreate
  repeat' split
  all_goals try exact .refl m
  · next found _ => exact born found _
  · next found _ =>
    have set := born found (.newborn m.currentProcess m.nextPid uid)
    exact ⟨set.pool, set.nextOrder, set.sendings, set.pending⟩

/-- rt_sigaction takes a signal off the caller only when it makes the caller ignore
it. -/
theorem sysRtSigaction_undisturbed (m : Machine) (i : Slot) (sig : Nat) (act : Sigaction) :
    Undisturbed m (sysRtSigaction m i sig act) := by
  unfold sysRtSigaction
  split
  · exact .refl m
  rename_i ok
  obtain ⟨valid, good⟩ : validSignal sig ∧ defHandlerOk sig act := by simpa using ok
  split
  · next ignores =>
    refine ⟨rfl, rfl, rfl, fun j s _ _ before => ?_⟩
    by_cases same : j = i
    · subst same
      by_cases this : s = sig
      · subst this
        have mild : s ≠ sigkill ∧ s ≠ sigstop := by
          simp only [defHandlerOk, Bool.and_eq_true, Bool.not_eq_true', Bool.or_eq_false_iff,
            beq_eq_false_iff_ne] at good
          exact good.1.1
        right
        simp only [ignoring, Bool.or_eq_true, Bool.and_eq_true, beq_iff_eq] at ignores
        simp only [signalClear, Machine.setProcess, Function.update_self, valid, if_true,
          Process.ignored, Process.clear, Process.setAction, mild, or_self, if_false,
          Bool.or_eq_true, Bool.and_eq_true, beq_iff_eq]
        exact ignores.imp_right fun both => ⟨both.1, .inl both.2⟩
      · left
        have cleared : ((m.table j).clear (sigBit sig)).pending s :=
          pending_clear_other this before
        simpa [signalClear, Machine.setProcess, valid, Process.setAction, Process.clear,
          Process.pending] using cleared
    · left
      simpa [signalClear, Machine.setProcess, same] using before
  · exact .set fun _ => rfl

theorem sysWait4_undisturbed (m : Machine) (i : Slot) (which : Selector) :
    Undisturbed m (sysWait4 m i which) := by
  unfold sysWait4
  repeat' split
  all_goals exact ⟨rfl, rfl, rfl, fun _ _ _ _ before => .inl before⟩

/-- The steps that may queue, take or drop values. -/
def Event.posts : Event → Bool
  | .reapSlot _ | .deliver _ | .sigtimedwait _ | .sigqueueinfo _ _ _ => true
  | _ => false

theorem step_undisturbed (m : Machine) {e : Event} (idle : e.posts = false) :
    Undisturbed m (step m e) := by
  cases e with
  | reapSlot | deliver | sigtimedwait | sigqueueinfo => cases idle
  | create uid stackOk =>
    exact step_of_call rfl (.refl m) fun _ _ => processCreate_undisturbed m uid stackOk
  | wait4 which => exact step_of_call rfl (.refl m) fun i _ => sysWait4_undisturbed m i which
  | sigaction sig act =>
    exact step_of_call rfl (.refl m) fun i _ => sysRtSigaction_undisturbed m i sig act
  | setPgid | setSid => exact step_of_call rfl (.refl m) fun _ _ => .set fun _ => rfl
  | _ => exact (step_steady m rfl).undisturbed

/-- What a step that takes a signal, or would, leaves. -/
inductive Taking (m : Machine) (e : Event) (n : Machine) : Prop where
  | idle (same : Undisturbed m n) (takes : taking m e = none)
  | takes {i : Slot} {sig : Nat} {taken : Machine} (takes : taking m e = some (i, sig))
      (first : Takes m i sig taken) (rest : taken.Steady n)

theorem deliver_taking (m : Machine) (frame : Option U32) :
    Taking m (.deliver frame) (step m (.deliver frame)) := by
  obtain ⟨acts, same⟩ | ⟨i, acts, same⟩ := step_call m (e := .deliver frame) rfl
  · rw [same]
    exact .idle (.refl m) (by simp [taking, acts])
  rw [same]
  cases user : (m.table i).isSystem with
  | true =>
    exact .idle (signalDeliver_idle (.inl user) frame).undisturbed (by simp [taking, acts, user])
  | false =>
    cases found : lowestBit (m.table i).deliverable with
    | none =>
      exact .idle (signalDeliver_idle (.inr found) frame).undisturbed
        (by simp [taking, acts, found])
    | some sig =>
      exact .takes (by simp [taking, acts, user, found])
        (takeSignal_takes m i (lowestBit_valid found))
        (signalDeliver_taken (acting_some acts).2.1 user found frame)

theorem sigtimedwait_taking (m : Machine) (set : U32) :
    Taking m (.sigtimedwait set) (step m (.sigtimedwait set)) := by
  obtain ⟨acts, same⟩ | ⟨i, acts, same⟩ := step_call m (e := .sigtimedwait set) rfl
  · rw [same]
    exact .idle (.refl m) (by simp [taking, acts])
  rw [same, call]
  cases found : lowestBit ((m.table i).signals &&& (set &&& ~~~sigUnblockable)) with
  | none =>
    rw [sigwaitTake, found]
    exact .idle (.refl m) (by simp [taking, acts, found])
  | some sig => exact .takes (by simp [taking, acts, found]) (sigwaitTake_takes found) (.refl _)

/-- rt_sigqueueinfo puts a value last and sends its signal; a signal that was not
accepted takes a value back. -/
inductive Queueing (m : Machine) (target : U32) (sig : Nat) (sent : Option Siginfo)
    (n : Machine) : Prop where
  | refused (nothing : sent = none) (same : n = m)
  | queued {t : Slot} {k : Fin sigqueueSize} {info : Siginfo} {added : Machine}
      (accepted : sent = some info) (signo : info.signo = sig)
      (present : (m.table t).state ≠ .free) (named : (m.table t).pid = target)
      (free : (m.pool k).used = false) (steady : (m.queued k target info).Steady added)
      (pends : (m.table t).ignored sig = false → (added.table t).pending sig = true)
      (result : n = if (added.table t).pending sig then added else sigqueueDrop added target sig)

theorem sigqueueinfo_queueing (m : Machine) (self : Slot) (target : U32) (sig : Nat)
    (value : U32) : Queueing m target sig (queuedBy m self target sig value)
      (sysRtSigqueueinfo m self target sig value) := by
  obtain ⟨refused, result⟩ | ⟨t, k, info, found, valid, queues, signo, free, accepted, result⟩ :=
    sysRtSigqueueinfo_cases m self target sig value
  · exact .refused refused result
  obtain ⟨present, named⟩ := found_present found
  refine .queued accepted signo present named free (sendQueued_steady _ t sig m.sendings) ?_ result
  intro wanted
  rw [sendQueued_table, signalSendInfo_self]
  exact Process.receive_accepts siQueue _ valid queues wanted

/-! ## Nothing is lost and nothing is made up -/

namespace Arrivals

/-- The values that wait for the signal, in order. -/
def letters (pid : U32) (s : Nat) (queue : List Queued) : List Siginfo :=
  (queue.filter (Queued.isFor pid s)).map Queued.info

variable {pid target : U32}

theorem isFor_other {s sig : Nat} (other : ¬(target = pid ∧ sig = s)) {x : Queued}
    (mine : x.isFor target sig) : x.isFor pid s = false := by
  simp only [Queued.isFor, Bool.and_eq_true, beq_iff_eq] at mine
  rw [Queued.isFor, mine.1, mine.2]
  by_contra same
  exact other (by simpa using same)

/-- Taking a value takes the first of its kind and no other. -/
theorem letters_take (pid target : U32) (s sig : Nat) (queue : List Queued) :
    letters pid s queue =
      (if target = pid ∧ sig = s then (queue.find? (Queued.isFor pid s)).map Queued.info
        else none).toList ++ letters pid s (queue.eraseP (Queued.isFor target sig)) := by
  by_cases same : target = pid ∧ sig = s
  · obtain ⟨rfl, rfl⟩ := same
    simp only
    induction queue with
    | nil => rfl
    | cons x rest ih =>
      cases mine : x.isFor target sig with
      | true => simp [letters, mine]
      | false => simpa [letters, mine] using ih
  · rw [if_neg same]
    induction queue with
    | nil => rfl
    | cons x rest ih =>
      cases mine : x.isFor target sig with
      | true => simp [letters, mine, isFor_other same mine]
      | false => cases here : x.isFor pid s <;> simpa [letters, mine, here] using ih

theorem letters_append (pid : U32) (s : Nat) (queue more : List Queued) :
    letters pid s (queue ++ more) = letters pid s queue ++ letters pid s more := by
  simp [letters]

theorem letters_single (pid : U32) (s : Nat) (x : Queued) :
    letters pid s [x] = if x.target = pid ∧ x.info.signo = s then [x.info] else [] := by
  by_cases mine : x.target = pid ∧ x.info.signo = s
  · simp [letters, Queued.isFor, mine]
  have other : x.isFor pid s = false := by
    rw [Queued.isFor]
    by_contra same
    exact mine (by simpa using same)
  simp [letters, other, mine]

theorem letters_release {gone : U32} (s : Nat) (other : gone ≠ pid) (queue : List Queued) :
    letters pid s (queue.filter fun x => x.target != gone) = letters pid s queue := by
  rw [letters, List.filter_filter]
  congr 1
  apply List.filter_congr
  intro x _
  cases mine : x.isFor pid s with
  | false => rfl
  | true =>
    simp only [Queued.isFor, Bool.and_eq_true, beq_iff_eq] at mine
    simp [mine.1, other.symm]

/-- What the step sends and hands over balances what waits before and after it. -/
def Balances (m : Machine) (e : Event) (queue queue' : List Queued) : Prop :=
  ∀ pid s, hears pid s m = true →
    letters pid s queue ++ sentBy pid s m e = receivedBy pid s m e ++ letters pid s queue'

theorem taken_balances (pooled : Pooled m queue) {e : Event}
    (silent : ∀ pid s, sentBy pid s m e = []) (taking : Taking m e n) :
    ∃ queue', Pooled n queue' ∧ Balances m e queue queue' := by
  cases taking with
  | idle same takes =>
    refine ⟨queue, pooled.same same.pool same.nextOrder same.sendings, fun pid s _ => ?_⟩
    rw [silent, List.append_nil, receivedBy, takes, List.nil_append]
  | @takes i sig _ takes first rest =>
    have taken : Pooled n (queue.eraseP (Queued.isFor (m.table i).pid sig)) := by
      cases first with
      | intro =>
        exact (pooled.take (m.table i).pid sig).1.same rest.pool rest.nextOrder rest.sendings
    refine ⟨_, taken, fun pid s _ => ?_⟩
    rw [silent, List.append_nil, letters_take pid (m.table i).pid s sig queue]
    congr 1
    unfold receivedBy
    rw [takes]
    dsimp only
    split
    · rw [(pooled.take pid s).2]
    · rfl

theorem hears_iff {s : Nat} : hears pid s m ↔
    ∀ i, (m.table i).state ≠ .free → (m.table i).pid = pid →
      (m.table i).alive ∧ (m.table i).ignored s = false := decide_eq_true_iff

theorem queued_balances (pooled : Pooled m queue) {sig : Nat} {value : U32} {sent : Option Siginfo}
    (few : n.sendings < 2 ^ 32) (sends : ∀ pid s, sentBy pid s m (.sigqueueinfo target sig value) =
      if target = pid ∧ sig = s then sent.toList else []) (queueing : Queueing m target sig sent n) :
    ∃ queue', Pooled n queue' ∧ Balances m (.sigqueueinfo target sig value) queue queue' := by
  have receives (pid : U32) (s : Nat) : receivedBy pid s m (.sigqueueinfo target sig value) = [] :=
    rfl
  cases queueing with
  | refused nothing same =>
    subst same
    refine ⟨queue, pooled, fun pid s _ => ?_⟩
    simp [sends, receives, nothing]
  | @queued t k info added accepted signo present named free steady pends result =>
    have more : m.sendings + 1 < 2 ^ 32 := by
      have sendings : n.sendings = m.sendings + 1 := by
        rw [result]
        split
        · exact steady.sendings
        unfold sigqueueDrop
        split <;> exact steady.sendings
      rwa [sendings] at few
    have pooled := (pooled.add free more target info).steady steady
    have last (pid : U32) (s : Nat) : letters pid s (queue ++ [m.entry target info]) =
        letters pid s queue ++ if target = pid ∧ sig = s then [info] else [] := by
      rw [letters_append, letters_single]
      simp only [Machine.entry, signo]
    rw [result]
    split
    · refine ⟨_, pooled, fun pid s _ => ?_⟩
      rw [sends, accepted, last pid s]
      rfl
    rename_i thrown
    refine ⟨_, pooled.drop target sig, fun pid s heard => ?_⟩
    rw [sends]
    by_cases same : target = pid ∧ sig = s
    · -- a signal that is not ignored is pending right after it is sent
      obtain ⟨rfl, rfl⟩ := same
      exact absurd (pends (hears_iff.mp heard t present named).2) thrown
    · have balance := letters_take pid target s sig (queue ++ [m.entry target info])
      rw [if_neg same, last pid s, if_neg same] at balance
      rw [if_neg same]
      exact balance

theorem reap_pooled (pooled : Pooled m queue) (i : Slot) :
    ∃ queue', Pooled (reap m i) queue' ∧ Balances m (.reapSlot i) queue queue' := by
  have silent (pid : U32) (s : Nat) : sentBy pid s m (.reapSlot i) = [] ∧
      receivedBy pid s m (.reapSlot i) = [] := ⟨rfl, rfl⟩
  unfold reap
  dsimp only
  split
  · next dead =>
    refine ⟨_, (pooled.release (m.table i).pid).same rfl rfl rfl, fun pid s heard => ?_⟩
    have other : (m.table i).pid ≠ pid := by
      intro mine
      have lives := (hears_iff.mp heard i (by simp [dead.1]) mine).1
      simp [Process.alive, dead.1] at lives
    rw [(silent pid s).1, (silent pid s).2, letters_release s other, List.append_nil,
      List.nil_append]
  · exact taken_balances pooled (fun _ _ => rfl) (.idle (.refl m) rfl)

/-- One step of the kernel, as a step of the queue. -/
theorem step_pooled (pooled : Pooled m queue) (e : Event)
    (few : (Kernel.step m e).sendings < 2 ^ 32) :
    ∃ queue', Pooled (Kernel.step m e) queue' ∧ Balances m e queue queue' := by
  cases e with
  | reapSlot i => exact reap_pooled pooled i
  | deliver frame => exact taken_balances pooled (fun _ _ => rfl) (deliver_taking m frame)
  | sigtimedwait set => exact taken_balances pooled (fun _ _ => rfl) (sigtimedwait_taking m set)
  | sigqueueinfo target sig value =>
    obtain ⟨acts, same⟩ | ⟨self, acts, same⟩ :=
      step_call m (e := .sigqueueinfo target sig value) rfl
    · rw [same]
      exact taken_balances pooled (fun _ _ => by simp [sentBy, acts]) (.idle (.refl m) rfl)
    rw [same] at few ⊢
    exact queued_balances pooled few (fun pid s => by simp [sentBy, acts])
      (sigqueueinfo_queueing m self target sig value)
  | _ => exact taken_balances pooled (fun _ _ => rfl) (.idle (step_undisturbed m rfl) rfl)

end Arrivals

end UzOS.Kernel
