import UzOS.Kernel.Pending

/-! What most steps of the kernel leave alone: who has which number, group and
session, and what has been recorded and reported of those who ended. -/
namespace UzOS.Kernel

structure Badge where
  living : Bool
  pid : U32
  pgid : U32
  sid : U32

structure Roll where
  badge : Slot → Badge
  nextPid : Nat

namespace Roll

def set (r : Roll) (i : Slot) (b : Badge) : Roll :=
  { r with badge := Function.update r.badge i b }

/-- Nobody is new, and who lives on keeps the badge. -/
structure Fades (r r' : Roll) : Prop where
  badge : ∀ i, (r'.badge i).living = true → r'.badge i = r.badge i
  nextPid : r'.nextPid = r.nextPid

variable {r r' : Roll}

theorem Fades.refl (r : Roll) : Fades r r := ⟨fun _ _ => rfl, rfl⟩

theorem Fades.trans {r'' : Roll} (one : Fades r r') (two : Fades r' r'') : Fades r r'' where
  badge := by
    intro i living
    have same := two.badge i living
    rw [same] at living ⊢
    exact one.badge i living
  nextPid := two.nextPid.trans one.nextPid

end Roll

def Process.badge (p : Process) : Badge := ⟨p.alive, p.pid, p.pgid, p.sid⟩

def Machine.roll (m : Machine) : Roll := ⟨fun i => (m.table i).badge, m.nextPid.toNat⟩

/-- A process that stays among the living keeps its badge with its numbers. -/
theorem Process.badge_congr {p q : Process} (person : q.person = p.person)
    (pid : q.pid = p.pid) (pgid : q.pgid = p.pgid) (sid : q.sid = p.sid) : q.badge = p.badge := by
  have alive : q.alive = p.alive := by
    rw [Bool.eq_iff_iff, ← presence_living_iff, ← presence_living_iff, person]
  simp only [Process.badge, alive, pid, pgid, sid]

def Note.report : Note → Option (U32 × U32 × U32)
  | .reported child parent status => some (child, parent, status)
  | _ => none

namespace Machine

/-- What wait4 has reported: of which child, to which parent, with which status. -/
def reports (m : Machine) : List (U32 × U32 × U32) := m.log.filterMap Note.report

/-- From `m` to `n` no end is recorded or reported. -/
structure SameEnds (m n : Machine) : Prop where
  records : n.records = m.records
  nextRecord : n.nextRecord = m.nextRecord
  reports : n.reports = m.reports

/-- Nor is anybody born, and nobody changes group or session. -/
structure Fades (m n : Machine) : Prop extends SameEnds m n where
  roll : m.roll.Fades n.roll

variable {m n : Machine}

theorem Fades.refl (m : Machine) : m.Fades m := ⟨⟨rfl, rfl, rfl⟩, Roll.Fades.refl m.roll⟩

theorem Fades.trans {k : Machine} (one : m.Fades n) (two : n.Fades k) : m.Fades k where
  records := two.records.trans one.records
  nextRecord := two.nextRecord.trans one.nextRecord
  reports := two.reports.trans one.reports
  roll := one.roll.trans two.roll

theorem roll_congr (table : n.table = m.table) (nextPid : n.nextPid = m.nextPid) :
    n.roll = m.roll := by
  simp only [Machine.roll, table, nextPid]

theorem Fades.same (table : n.table = m.table) (nextPid : n.nextPid = m.nextPid)
    (records : n.records = m.records) (nextRecord : n.nextRecord = m.nextRecord)
    (log : n.log = m.log) : m.Fades n := by
  refine ⟨⟨records, nextRecord, congrArg (·.filterMap Note.report) log⟩, ?_⟩
  rw [roll_congr table nextPid]
  exact Roll.Fades.refl _

theorem Fades.note {x : Note} (silent : x.report = none) : m.Fades (m.note x) := by
  refine ⟨⟨rfl, rfl, ?_⟩, Roll.Fades.refl _⟩
  simp [reports, Machine.note, silent]

variable {i : Slot} {p : Process}

/-- Only the process in slot `i` changes, and keeps its badge if it lives on. -/
theorem roll_set_fades (kept : p.alive → p.badge = (m.table i).badge) :
    m.roll.Fades (m.setProcess i p).roll where
  badge := by
    intro j living
    by_cases here : j = i
    · subst here
      have self : (m.setProcess j p).roll.badge j = p.badge := by simp [Machine.roll, setProcess]
      rw [self] at living ⊢
      exact kept living
    · simp [Machine.roll, setProcess, here]
  nextPid := rfl

theorem Fades.set (kept : p.alive → p.badge = (m.table i).badge) :
    m.Fades (m.setProcess i p) :=
  ⟨⟨rfl, rfl, rfl⟩, roll_set_fades kept⟩

/-- No value is queued or taken either, and nobody loses a pending signal, unless it
is one that stops or continues. -/
structure Steady (m n : Machine) : Prop extends Fades m n where
  pool : n.pool = m.pool
  nextOrder : n.nextOrder = m.nextOrder
  sendings : n.sendings = m.sendings
  pending : ∀ i s, jobControl s = false → (m.table i).pending s = true →
    (n.table i).pending s = true

theorem Steady.refl (m : Machine) : m.Steady m :=
  ⟨.refl m, rfl, rfl, rfl, fun _ _ _ pending => pending⟩

theorem Steady.trans {k : Machine} (one : m.Steady n) (two : n.Steady k) : m.Steady k where
  toFades := one.toFades.trans two.toFades
  pool := two.pool.trans one.pool
  nextOrder := two.nextOrder.trans one.nextOrder
  sendings := two.sendings.trans one.sendings
  pending i s plain pending := two.pending i s plain (one.pending i s plain pending)

theorem Steady.same (table : n.table = m.table) (nextPid : n.nextPid = m.nextPid)
    (records : n.records = m.records) (nextRecord : n.nextRecord = m.nextRecord)
    (log : n.log = m.log) (pool : n.pool = m.pool) (nextOrder : n.nextOrder = m.nextOrder)
    (sendings : n.sendings = m.sendings) : m.Steady n :=
  ⟨.same table nextPid records nextRecord log, pool, nextOrder, sendings,
    fun i s _ pending => by rwa [table]⟩

theorem Steady.note {x : Note} (silent : x.report = none) : m.Steady (m.note x) :=
  ⟨.note silent, rfl, rfl, rfl, fun _ _ _ pending => pending⟩

theorem Steady.set (kept : p.alive → p.badge = (m.table i).badge)
    (pending : ∀ s, jobControl s = false → (m.table i).pending s → p.pending s) :
    m.Steady (m.setProcess i p) := by
  refine ⟨.set kept, rfl, rfl, rfl, fun j s plain before => ?_⟩
  by_cases here : j = i
  · subst here
    simpa [setProcess] using pending s plain before
  · simpa [setProcess, here] using before

/-- The pending signals are not touched. -/
theorem Steady.set_same (kept : p.alive → p.badge = (m.table i).badge)
    (signals : p.signals = (m.table i).signals) : m.Steady (m.setProcess i p) := by
  apply Steady.set kept
  intro s _ before
  unfold Process.pending at before ⊢
  rwa [signals]

end Machine

variable {m : Machine}

/-! Steps that edit processes and send signals. -/

/-- An edit that touches neither numbers nor signals of a process that stays. -/
structure Process.Edit (p q : Process) : Prop where
  badge : q.alive = true → q.badge = p.badge
  present : q.state ≠ .free → p.state ≠ .free
  pid : q.pid = p.pid
  signals : q.signals = p.signals

/-- Whom the end of the process `dead` sends a signal: a child that asks for it, a
tracee or the parent. -/
def endSends (m : Machine) (dead : U32) (c : Slot) (sig : Nat) : Prop :=
  (m.table c).ppid = dead ∧ (m.table c).pdeathsig = sig ∧ sig ≠ 0 ∨
    (m.table c).tracer = dead ∧ sig = sigcont ∨ sig = sigchld

/-- Whom the step sends a signal, itself or by an end. -/
def stepSends (m : Machine) (e : Event) (c : Slot) (sig : Nat) : Prop :=
  sentTo m e = some (c, sig) ∨
    ∃ victim, ending m e = some victim ∧ endSends m (m.table victim).pid c sig

/-- A relation between machines that holds across all that goes on besides. -/
structure Passes (R : Machine → Machine → Prop) : Prop where
  refl : ∀ m, R m m
  trans : ∀ {a b c}, R a b → R b c → R a c
  edit : ∀ (n : Machine) {i p}, (n.table i).Edit p → R n (n.setProcess i p)
  note : ∀ (n : Machine) x, x.report = none → R n (n.note x)
  pick : ∀ (n : Machine) i, R n { n with current := some i }
  tick : ∀ n, R n (wakeSleepers n)

variable {i : Slot} {e : Event}

namespace Passes

variable {R : Machine → Machine → Prop} (passes : Passes R)
include passes

theorem own {p : Process} (badge : p.badge = (m.table i).badge) (state : p.state = (m.table i).state)
    (signals : p.signals = (m.table i).signals) : R m (m.setProcess i p) :=
  passes.edit m ⟨fun _ => badge, fun here => state ▸ here, congrArg Badge.pid badge, signals⟩

theorem retire (here : (m.table i).state ≠ .free) : R m (retire m i) := by
  have ends : (m.table i).Edit ((m.table i).withState .zombie) := by
    refine ⟨fun alive => ?_, fun _ => here, rfl, rfl⟩
    simp [Process.alive, Process.withState] at alive
  exact passes.trans (passes.edit m ends) (passes.note _ _ rfl)

theorem endWith (here : (m.table i).state ≠ .free) (status : U32)
    (sends : ∀ n c sig, R m n → endSends m (m.table i).pid c sig →
      R n (signalSendInfo n c sig siKernel)) : R m (endWith m i status) := by
  have marked : R m (m.setProcess i ((m.table i).withStatus status)) := passes.own rfl rfl rfl
  have ended := passes.trans marked (passes.retire (i := i) (by
    simpa [Machine.setProcess, Process.withStatus] using here))
  unfold Kernel.endWith
  -- the dead process itself still has its parent and tracer
  have same (c : Slot) : ∃ state exitStatus,
      (Kernel.retire (m.setProcess i ((m.table i).withStatus status)) i).table c =
        { m.table c with state, exitStatus } := by
    by_cases own : c = i
    · subst own
      exact ⟨.zombie, status, by simp [Kernel.retire, Machine.setProcess, Machine.note,
        Process.withState, Process.withStatus]⟩
    · exact ⟨(m.table c).state, (m.table c).exitStatus, by
        simp [Kernel.retire, Machine.setProcess, Machine.note, own]⟩
  generalize Kernel.retire (m.setProcess i ((m.table i).withStatus status)) i = n at ended same
  obtain ⟨_, _, pid⟩ := same i
  apply passes.trans ended (processEnded_rule passes.refl passes.trans _ _ _ _)
  · exact fun n i ppid tracer => passes.own rfl rfl rfl
  · intro o c ppid reached _ child asks
    obtain ⟨_, _, own⟩ := same c
    rw [own, pid] at child
    rw [own] at asks ⊢
    exact sends o c _ (passes.trans ended reached) (.inl ⟨child, rfl, asks⟩)
  · intro o c q reached _ _ mine
    obtain ⟨_, _, own⟩ := same c
    rw [own, pid] at mine
    exact sends o c _ (passes.trans ended reached) (.inr (.inl ⟨mine, rfl⟩))
  · intro o parent child pid reached
    have told := sends o parent _ (passes.trans ended reached) (.inr (.inr rfl))
    exact passes.trans told (passes.note _ _ rfl)

section
variable (sends : ∀ n c sig code, R m n → stepSends m e c sig → R n (signalSendInfo n c sig code))
include sends

theorem reaches {n : Machine} {self : Slot} (reaches : Reaches m self e n) : R m n := by
  cases reaches with
  | leaves => exact passes.refl m
  | sends code sent => exact sends m _ _ code (passes.refl m) (.inl sent)
  | traced => exact passes.own rfl rfl rfl
  | @traces t _ tracer _ _ sent =>
    have traced : R m (m.setProcess t ((m.table t).withTracer tracer)) := passes.own rfl rfl rfl
    exact passes.trans traced (sends _ _ _ siUser traced (.inl sent))
  | ends status aimed _ present same =>
    refine passes.endWith present status fun n c sig reached told => ?_
    exact sends n c sig siKernel reached (.inr ⟨_, aimed, same ▸ told⟩)
  | @confines op flags args =>
    obtain ⟨mode, allow, action, set⟩ := seccomp_eq (m.table self) op flags args
    rw [set]
    exact passes.own rfl rfl rfl

end

theorem sysSleep (alive : (m.table i).alive) (ticks : U32) (interruptible : Bool) :
    R m (sysSleep m i ticks interruptible) := by
  have sleeps {state : ProcessState} {wakeTicks : U32} {able : Bool} :
      R m (m.setProcess i { m.table i with
      state, sleepTicks := wakeTicks, sleepInterruptible := able }) := by
    refine passes.edit m ⟨fun sleeping => ?_, fun _ => present_of_alive alive, rfl, rfl⟩
    simp only [Process.badge, sleeping, alive]
  unfold Kernel.sysSleep
  dsimp only
  repeat' split
  · exact passes.refl m
  · exact passes.refl m
  · exact sleeps
  · exact sleeps

theorem schedulerYield (guardOk : Bool) (next : Slot) : R m (schedulerYield m guardOk next) := by
  refine schedulerYield_rule passes.refl passes.trans
    (fun i _ runs => passes.retire (onCpu_some runs).2)
    (fun n i state turns => passes.edit n ⟨fun alive => ?_, fun _ => ?_, rfl, rfl⟩) passes.pick next
  all_goals
    have before : (n.table i).alive := by
      obtain ⟨before, -⟩ | ⟨before, -⟩ := turns <;> simp [Process.alive, before]
  · simp only [Process.badge, alive, before]
    rfl
  · exact present_of_alive before

end Passes

/-! Calls that leave the queued values alone. -/

theorem signalSendInfo_steady (m : Machine) (i : Slot) (sig : Nat) (code : U32) :
    m.Steady (signalSendInfo m i sig code) := by
  have kept : ((m.table i).receive sig code m.senderPid).badge = (m.table i).badge := by
    obtain ⟨_, _, _, _, _, changed⟩ := (m.table i).receive_changes sig code m.senderPid
    apply Process.badge_congr (Process.person_receive _ _ _ _) <;> rw [changed]
  have pending (s : Nat) (plain : jobControl s = false) (before : (m.table i).pending s) :
      ((m.table i).receive sig code m.senderPid).pending s :=
    Process.pending_receive code _ before (cancelledBy_plain plain sig)
  exact (Machine.Steady.set (fun _ => kept) pending).trans (.same rfl rfl rfl rfl rfl rfl rfl rfl)

theorem wakeSleepers_steady (m : Machine) : m.Steady (wakeSleepers m) := by
  have signals (p : Process) : p.tick.signals = p.signals := by
    simp only [Process.tick]
    split <;> rfl
  refine ⟨⟨⟨rfl, rfl, rfl⟩, ⟨fun i _ => ?_, rfl⟩⟩, rfl, rfl, rfl, fun i s _ before => ?_⟩
  · apply Process.badge_congr (Process.person_tick _)
    all_goals
      simp only [Process.tick]
      split <;> rfl
  · unfold Process.pending at before ⊢
    rwa [wakeSleepers, signals]

theorem steady_passes : Passes Machine.Steady where
  refl := .refl
  trans := .trans
  edit _ _ _ edit := .set_same edit.badge edit.signals
  note _ _ silent := .note silent
  pick _ _ := .same rfl rfl rfl rfl rfl rfl rfl rfl
  tick := wakeSleepers_steady

/-! Taking signals, queueing values and setting handlers. -/

theorem sysRtSigqueueinfo_fades (m : Machine) (self : Slot) (pid : U32) (sig : Nat) (value : U32) :
    m.Fades (sysRtSigqueueinfo m self pid sig value) := by
  have sends (n : Machine) (t : Slot) (number : Nat) : n.Fades (sendQueued n t sig number) := by
    apply (signalSendInfo_steady n t sig siQueue).toFades.trans
    apply Machine.Fades.same (sendQueued_table n t sig number)
    all_goals
      unfold sendQueued
      split <;> rfl
  have drops (n : Machine) (target : U32) : n.Fades (sigqueueDrop n target sig) := by
    apply Machine.Fades.same (sigqueueDrop_table n target sig)
    all_goals
      unfold sigqueueDrop
      split <;> rfl
  obtain ⟨-, refused⟩ | ⟨t, k, info, -, -, -, -, -, -, queues⟩ :=
    sysRtSigqueueinfo_cases m self pid sig value
  · rw [refused]
    exact .refl _
  rw [queues]
  have adds : m.Fades (m.queued k pid info) := .same rfl rfl rfl rfl rfl
  dsimp only
  split
  · exact adds.trans (sends _ _ _)
  · exact (adds.trans (sends _ _ _)).trans (drops _ _)

theorem sysRtSigaction_fades (m : Machine) (self : Slot) (sig : Nat) (act : Sigaction) :
    m.Fades (sysRtSigaction m self sig act) := by
  have sets : m.Fades (m.setProcess self ((m.table self).setAction sig act)) := .set fun _ => rfl
  have clears (n : Machine) : n.Fades (signalClear n self sig) := by
    have same : (if validSignal sig then (n.table self).clear (sigBit sig)
        else n.table self).badge = (n.table self).badge := by
      split <;> rfl
    exact (Machine.Fades.set fun _ => same).trans (.same rfl rfl rfl rfl rfl)
  unfold sysRtSigaction
  split
  · exact .refl _
  split
  · exact sets.trans (clears _)
  · exact sets

theorem Takes.fades {n : Machine} {sig : Nat} (takes : Takes m i sig n) : m.Fades n := by
  cases takes with
  | intro signals =>
    have table := sigqueueTake_table m (m.table i).pid sig
    have taken : m.Fades (sigqueueTake m (m.table i).pid sig).1 := by
      apply Machine.Fades.same table
      all_goals
        unfold sigqueueTake
        split <;> rfl
    apply taken.trans (.set _)
    rw [table]
    exact fun _ => rfl

theorem signalDeliver_taken (alive : (m.table i).alive)
    (user : (m.table i).isSystem = false) {sig : Nat}
    (found : lowestBit (m.table i).deliverable = some sig) (frame : Option U32) :
    (takeSignal m i sig).Steady (signalDeliver m i frame) := by
  have person : ((takeSignal m i sig).table i).person = (m.table i).person :=
    congrFun (congrArg People.folk (people_takeSignal m i sig)) i
  have still : ((takeSignal m i sig).table i).alive := by
    rw [← presence_living_iff, person]
    exact presence_living_iff.mpr alive
  have stops : (takeSignal m i sig).Steady ((takeSignal m i sig).setProcess i
      (((takeSignal m i sig).table i).withState .stopped)) := by
    refine .set_same (fun stopped => ?_) rfl
    simp only [Process.badge, stopped, still]
    rfl
  have served := signalDeliver_served user found frame
  generalize signalDeliver m i frame = n at served
  cases served with
  | dropped => exact .refl _
  | stopped => exact stops
  | ended status =>
    exact steady_passes.endWith (present_of_alive still) status
      fun n c sig _ _ => signalSendInfo_steady n c sig siKernel
  | handled => exact .set_same (fun _ => rfl) rfl

/-- A round of signal_deliver that takes no signal. -/
theorem signalDeliver_idle (none : (m.table i).isSystem ∨
    lowestBit (m.table i).deliverable = none) (frame : Option U32) :
    m.Steady (signalDeliver m i frame) := by
  have restores : (m.table i).restoreMask.badge = (m.table i).badge ∧
      (m.table i).restoreMask.signals = (m.table i).signals := by
    unfold Process.restoreMask
    split <;> exact ⟨rfl, rfl⟩
  unfold signalDeliver
  dsimp only
  split
  · exact .refl _
  rename_i user
  rw [none.resolve_left user]
  exact .set_same (fun _ => restores.1) restores.2

theorem signalDeliver_fades (alive : (m.table i).alive) (frame : Option U32) :
    m.Fades (signalDeliver m i frame) := by
  cases user : (m.table i).isSystem with
  | true => exact (signalDeliver_idle (.inl user) frame).toFades
  | false =>
    cases found : lowestBit (m.table i).deliverable with
    | none => exact (signalDeliver_idle (.inr found) frame).toFades
    | some sig =>
      exact (takeSignal_takes m i (lowestBit_valid found)).fades.trans
        (signalDeliver_taken alive user found frame).toFades

/-! One step. -/

/-- The steps that are calls of the running process. -/
def Event.isCall : Event → Bool
  | .yield _ _ | .tick | .cpuLimit | .reapSlot _ | .interrupt _ _ _ | .endSleep => false
  | _ => true

theorem step_call (m : Machine) (call : e.isCall) :
    m.acting = none ∧ step m e = m ∨ ∃ i, m.acting = some i ∧ step m e = Kernel.call m i e := by
  cases acts : m.acting with
  | none =>
    refine .inl ⟨rfl, ?_⟩
    cases e with
    | yield | tick | cpuLimit | reapSlot | interrupt | endSleep => cases call
    | _ => simp only [step, acts]
  | some i =>
    refine .inr ⟨i, rfl, ?_⟩
    cases e with
    | yield | tick | cpuLimit | reapSlot | interrupt | endSleep => cases call
    | _ => simp only [step, acts]

/-- A call of nobody changes nothing. -/
theorem step_of_call {P : Machine → Prop} (call : e.isCall) (idle : P m)
    (acts : ∀ i, m.acting = some i → P (Kernel.call m i e)) : P (step m e) := by
  obtain ⟨-, same⟩ | ⟨i, acting, same⟩ := step_call m call
  · rwa [same]
  · rw [same]
    exact acts i acting

/-- The steps that change none of it. -/
def Event.steady : Event → Bool
  | .create _ _ | .setPgid _ _ | .setSid | .reapSlot _ | .wait4 _ => false
  | .sigaction _ _ | .deliver _ | .sigtimedwait _ | .sigqueueinfo _ _ _ => false
  | _ => true

theorem Passes.step {R : Machine → Machine → Prop} (passes : Passes R) (keeps : e.steady)
    (sends : ∀ n c sig code, R m n → stepSends m e c sig → R n (signalSendInfo n c sig code)) :
    R m (step m e) := by
  cases e with
  | create | setPgid | setSid | reapSlot | wait4 | sigaction | deliver | sigtimedwait
  | sigqueueinfo => cases keeps
  | yield guardOk next => exact passes.schedulerYield guardOk next
  | tick => exact passes.tick m
  | cpuLimit =>
    simp only [Kernel.step, rlimitCheckCpu]
    split
    · exact passes.refl m
    · next runs =>
      split
      · exact passes.refl m
      · exact passes.retire (onCpu_some runs).2
  | interrupt i sig code =>
    simp only [Kernel.step]
    split
    · exact passes.refl m
    · exact sends m i sig code (passes.refl m) (.inl rfl)
  | endSleep =>
    simp only [Kernel.step]
    repeat' split
    · exact passes.own rfl rfl rfl
    · exact passes.refl m
    · exact passes.refl m
  | exit | kill | killRound | hangup | ptrace | seccomp =>
    exact step_of_call rfl (passes.refl m) fun i acts =>
      passes.reaches sends (call_reaches acts _ rfl)
  | sleep ticks interruptible =>
    exact step_of_call rfl (passes.refl m) fun i acts =>
      passes.sysSleep (acting_some acts).2.1 ticks interruptible
  | setPdeathsig sig =>
    refine step_of_call rfl (passes.refl m) fun i _ => ?_
    simp only [call]
    split
    · exact passes.refl m
    · exact passes.own rfl rfl rfl
  | sigprocmask | sigsuspend | setUid | setSubreaper | setDumpable | setNoNewPrivs =>
    exact step_of_call rfl (passes.refl m) fun _ _ => passes.own rfl rfl rfl

theorem step_steady (m : Machine) (keeps : e.steady) : m.Steady (step m e) :=
  steady_passes.step keeps fun n c sig code _ _ => signalSendInfo_steady n c sig code

/-- The steps that leave the roll and the ends alone. -/
def Event.fades : Event → Bool
  | .create _ _ | .setPgid _ _ | .setSid | .reapSlot _ | .wait4 _ => false
  | _ => true

theorem step_fades (m : Machine) (keeps : e.fades) : m.Fades (step m e) := by
  cases e with
  | create | setPgid | setSid | reapSlot | wait4 => cases keeps
  | sigaction sig act =>
    exact step_of_call rfl (.refl m) fun i _ => sysRtSigaction_fades m i sig act
  | deliver frame =>
    exact step_of_call rfl (.refl m) fun i acts => signalDeliver_fades (acting_some acts).2.1 frame
  | sigtimedwait set =>
    apply step_of_call rfl (.refl m)
    intro i _
    cases found : lowestBit ((m.table i).signals &&& (set &&& ~~~sigUnblockable)) with
    | none =>
      rw [call, sigwaitTake, found]
      exact .refl m
    | some sig => exact (sigwaitTake_takes found).fades
  | sigqueueinfo pid sig value =>
    exact step_of_call rfl (.refl m) fun i _ => sysRtSigqueueinfo_fades m i pid sig value
  | _ => exact (step_steady m rfl).toFades

end UzOS.Kernel
