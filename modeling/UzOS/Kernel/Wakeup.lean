import UzOS.Kernel.Lives

/-! A process that sleeps interruptibly has no signal to take: what sleeps, ticks,
stops and continues make of it. -/
namespace UzOS.Kernel

namespace Process

def Restful (p : Process) : Prop :=
  p.state = .sleeping → p.sleepInterruptible = true → p.deliverable = 0

/-- The masks never hold SIGKILL or SIGSTOP, and only a sleep counts ticks. -/
structure Steady (p : Process) : Prop where
  awake : p.state = .ready ∨ p.state = .running → p.sleepTicks = 0
  blocked : p.sigBlocked &&& sigUnblockable = 0
  saved : p.sigSavedMask &&& sigUnblockable = 0

structure Calm (p : Process) : Prop extends Steady p where
  restful : p.Restful

/-- An interruptible sleep that a stop put aside. -/
def sleepsStopped (p : Process) : Bool :=
  p.state == .stopped && p.sleepTicks != 0 && p.sleepInterruptible

/-- Would `sig` put `p` back to sleep with a signal to take? -/
def missed (p : Process) (sig : Nat) : Bool :=
  p.sleepsStopped && (sig == sigcont || sig == sigkill) && (p.clear stopBits).deliverable != 0 &&
    (p.ignored sig || sigBit sig &&& ~~~p.sigBlocked == 0)

variable {p : Process}

theorem sleepsStopped_iff : p.sleepsStopped ↔
    p.state = .stopped ∧ p.sleepTicks ≠ 0 ∧ p.sleepInterruptible := by
  simp [sleepsStopped, and_assoc]

theorem deliverable_clear (none : p.deliverable = 0) (bits : U32) :
    (p.clear bits).deliverable = 0 := by
  have moved : (p.clear bits).deliverable = p.deliverable &&& ~~~bits := by
    simp only [deliverable, clear, BitVec.and_assoc]
    rw [BitVec.and_comm (~~~bits)]
  simp [moved, none]

theorem mask_kept {mask : U32} (apart : mask &&& sigUnblockable = 0) :
    mask &&& ~~~sigUnblockable = mask := by
  calc mask &&& ~~~sigUnblockable
      = (mask &&& ~~~sigUnblockable) ||| (mask &&& sigUnblockable) := by simp [apart]
    _ = mask &&& (~~~sigUnblockable ||| sigUnblockable) := BitVec.and_or_distrib_left.symm
    _ = mask := BitVec.and_allOnes

theorem masked_apart (mask : U32) : (mask &&& ~~~sigUnblockable) &&& sigUnblockable = 0 := by
  simp [BitVec.and_assoc]

variable {sig : Nat}

variable {sender : U32}

/-- A blocked signal adds nothing that could be taken. -/
theorem deliverable_addPending {code : U32} (apart : p.sigBlocked &&& sigUnblockable = 0)
    (none : p.deliverable = 0) (held : sigBit sig &&& ~~~p.sigBlocked = 0) :
    (p.addPending sig code sender).deliverable = 0 := by
  simp only [deliverable, mask_kept apart] at none
  simp only [deliverable, addPending, raise, mask_kept apart, BitVec.and_or_distrib_right]
  simp [none, held]

/-! What each part of a signal keeps. -/

theorem Steady.of_same {q : Process} (steady : p.Steady)
    (awake : q.state = .ready ∨ q.state = .running → q.sleepTicks = 0)
    (blocked : q.sigBlocked = p.sigBlocked) (saved : q.sigSavedMask = p.sigSavedMask) :
    q.Steady := ⟨awake, blocked ▸ steady.blocked, saved ▸ steady.saved⟩

theorem Calm.clear (calm : p.Calm) (bits : U32) : (p.clear bits).Calm where
  toSteady := calm.toSteady.of_same calm.awake rfl rfl
  restful asleep light := deliverable_clear (calm.restful asleep light) bits

/-- A state in which a process neither sleeps nor runs. -/
theorem Calm.idle {state : ProcessState} (calm : p.Calm)
    (idle : state ≠ .sleeping ∧ state ≠ .ready ∧ state ≠ .running) :
    (p.withState state).Calm where
  toSteady := calm.toSteady.of_same
    (fun busy => absurd busy (not_or.mpr ⟨idle.2.1, idle.2.2⟩)) rfl rfl
  restful asleep := absurd asleep idle.1

theorem Calm.stop (calm : p.Calm) : p.stop.Calm := by
  unfold Process.stop
  split
  · exact calm
  · exact calm.idle (by decide)

theorem Steady.resume (steady : p.Steady) : p.resume.Steady := by
  unfold Process.resume
  split
  · refine steady.of_same (fun busy => ?_) rfl rfl
    by_cases ticks : p.sleepTicks = 0
    · exact ticks
    rw [if_pos ticks] at busy
    exact absurd busy (by simp [withState])
  · exact steady

theorem Restful.resume (restful : p.Restful)
    (quiet : p.sleepsStopped → p.deliverable = 0) : p.resume.Restful := by
  unfold Process.resume
  split
  · next stopped =>
    intro asleep light
    have ticks : p.sleepTicks ≠ 0 := by
      intro zero
      simp [withState, zero] at asleep
    exact quiet (sleepsStopped_iff.mpr ⟨stopped, ticks, light⟩)
  · exact restful

theorem Steady.carryOn (steady : p.Steady) (sig : Nat) : (p.carryOn sig).Steady := by
  unfold Process.carryOn
  split
  · exact Steady.resume (p := p.clear stopBits) (steady.of_same steady.awake rfl rfl)
  · exact steady

theorem Steady.forgetCont (steady : p.Steady) (sig : Nat) : (p.forgetCont sig).Steady := by
  unfold Process.forgetCont
  split
  · exact steady.of_same steady.awake rfl rfl
  · exact steady

theorem Restful.forgetCont (restful : p.Restful) (sig : Nat) : (p.forgetCont sig).Restful := by
  unfold Process.forgetCont
  split
  · exact fun asleep light => deliverable_clear (restful asleep light) _
  · exact restful

/-- The last part of a send: a sleeper that can take the signal is woken. -/
theorem Steady.accept (steady : p.Steady) {code : U32}
    (quiet : p.Restful ∨ sigBit sig &&& ~~~p.sigBlocked ≠ 0) :
    ((p.addPending sig code sender).wakeFor sig).Calm := by
  unfold wakeFor
  split
  · exact ⟨steady.of_same (fun _ => rfl) rfl rfl, fun asleep => nomatch asleep⟩
  rename_i kept
  refine ⟨steady.of_same steady.awake rfl rfl, fun asleep light => ?_⟩
  have held : sigBit sig &&& ~~~p.sigBlocked = 0 := by
    by_contra free
    exact kept ⟨asleep, light, free⟩
  obtain restful | free := quiet
  · exact deliverable_addPending steady.blocked (restful asleep light) held
  · exact absurd held free

theorem sigBlocked_carryOn (sig : Nat) : (p.carryOn sig).sigBlocked = p.sigBlocked := by
  unfold carryOn resume
  split
  · split <;> rfl
  · rfl

theorem sigBlocked_forgetCont (sig : Nat) : (p.forgetCont sig).sigBlocked = p.sigBlocked := by
  unfold forgetCont
  split <;> rfl

/-- Either the sleep goes on with nothing to take, or the signal itself ends it. -/
theorem carryOn_restful (calm : p.Calm) (safe : p.missed sig = false) :
    (p.carryOn sig).Restful ∨ p.ignored sig = false ∧ sigBit sig &&& ~~~p.sigBlocked ≠ 0 := by
  unfold carryOn
  split
  · next wakes =>
    by_cases quiet : p.sleepsStopped → (p.clear stopBits).deliverable = 0
    · exact .inl ((calm.clear stopBits).restful.resume quiet)
    right
    obtain ⟨asleep, late⟩ := Classical.not_imp.mp quiet
    have ends : (p.clear stopBits).deliverable ≠ 0 →
        p.ignored sig = false ∧ sigBit sig &&& ~~~p.sigBlocked ≠ 0 := by
      simpa [missed, asleep, wakes] using safe
    exact ends late
  · exact .inl calm.restful

theorem Calm.receive (calm : p.Calm) (code sender : U32) (safe : p.missed sig = false) :
    (p.receive sig code sender).Calm := by
  have steady := (calm.toSteady.carryOn sig).forgetCont sig
  have quiet := carryOn_restful calm safe
  unfold Process.receive
  split
  · exact calm
  dsimp only
  split
  · next stops =>
    subst stops
    have restful : (p.carryOn sigstop).Restful := calm.restful
    exact Calm.stop ⟨steady, restful.forgetCont _⟩
  · split
    · next ignored =>
      rw [ignored_forgetCont, ignored_carryOn] at ignored
      obtain restful | ⟨wanted, -⟩ := quiet
      · exact ⟨steady, restful.forgetCont _⟩
      · exact absurd ignored (by simp [wanted])
    · apply steady.accept
      rw [sigBlocked_forgetCont, sigBlocked_carryOn]
      exact quiet.imp (fun restful => restful.forgetCont _) And.right

section
variable (up : p.sleepsStopped = false)
include up

theorem resume_up : p.resume.sleepsStopped = false := by
  unfold resume
  split
  · split <;> rfl
  · exact up

/-- Taking bits back and continuing put no sleep aside. -/
theorem carryOn_up (sig : Nat) : ((p.carryOn sig).forgetCont sig).sleepsStopped = false := by
  have first : (p.carryOn sig).sleepsStopped = false := by
    unfold carryOn
    split
    · exact resume_up (p := p.clear stopBits) up
    · exact up
  unfold forgetCont
  split
  · exact first
  · exact first

theorem wakeFor_up (sig : Nat) : (p.wakeFor sig).sleepsStopped = false := by
  unfold wakeFor
  split
  · rfl
  · exact up

end

/-- A stop puts a sleep aside that had nothing to take. -/
theorem stop_restful (calm : p.Calm) (up : p.sleepsStopped = false)
    (aside : p.stop.sleepsStopped) : p.stop.deliverable = 0 := by
  unfold stop at aside ⊢
  split at aside
  · rw [up] at aside
    exact nomatch aside
  rename_i stops
  obtain ⟨-, ticks, light⟩ := sleepsStopped_iff.mp aside
  rw [if_neg stops]
  obtain ⟨-, used, living, running⟩ := by simpa only [not_or] using stops
  cases state : p.state with
  | sleeping => exact calm.restful state light
  | ready => exact absurd (calm.awake (.inl state)) ticks
  | running => exact absurd (calm.awake (.inr state)) ticks
  | free => exact absurd state used
  | zombie => exact absurd state living
  | stopped => exact absurd state running

/-- One signal puts no sleep aside that a later SIGCONT could take up with a signal
to take. -/
theorem receive_not_missed (calm : p.Calm) (up : p.sleepsStopped = false) (sig : Nat)
    (code sender : U32) : (p.receive sig code sender).missed sigcont = false := by
  have harmless {q : Process} (quiet : q.sleepsStopped → q.deliverable = 0) :
      q.missed sigcont = false := by
    cases aside : q.sleepsStopped with
    | false => simp [missed, aside]
    | true => simp [missed, deliverable_clear (quiet aside)]
  have absurdly {q : Process} (up : q.sleepsStopped = false) :
      q.sleepsStopped → q.deliverable = 0 := by
    intro aside
    rw [up] at aside
    exact nomatch aside
  apply harmless
  unfold receive
  split
  · exact absurdly up
  dsimp only
  split
  · next stops =>
    subst stops
    exact stop_restful (p := p.clear (sigBit sigcont)) (calm.clear _) up
  split
  · exact absurdly (carryOn_up up sig)
  have added : (((p.carryOn sig).forgetCont sig).addPending sig code sender).sleepsStopped =
      false := carryOn_up up sig
  exact absurdly (wakeFor_up added sig)

end Process

def Machine.Calm (m : Machine) : Prop := ∀ i, (m.table i).Calm

variable {m : Machine}

namespace Machine.Calm

theorem of_table {n : Machine} (calm : m.Calm) (same : n.table = m.table) : n.Calm := by
  intro j
  rw [same]
  exact calm j

theorem set (calm : m.Calm) {i : Slot} {p : Process} (here : p.Calm) : (m.setProcess i p).Calm := by
  intro j
  by_cases same : j = i
  · subst same
    simpa [setProcess] using here
  · simpa [setProcess, same] using calm j

/-- Changes of fields that sleeping and signals do not look at. -/
theorem set_same (calm : m.Calm) {i : Slot} {p : Process}
    (state : p.state = (m.table i).state) (ticks : p.sleepTicks = (m.table i).sleepTicks)
    (light : p.sleepInterruptible = (m.table i).sleepInterruptible)
    (signals : p.signals = (m.table i).signals) (blocked : p.sigBlocked = (m.table i).sigBlocked)
    (saved : p.sigSavedMask = (m.table i).sigSavedMask) : (m.setProcess i p).Calm := by
  apply calm.set
  refine ⟨(calm i).toSteady.of_same ?_ blocked saved, ?_⟩
  · rw [state, ticks]
    exact (calm i).awake
  · unfold Process.Restful Process.deliverable
    rw [state, light, signals, blocked]
    exact (calm i).restful

theorem send (calm : m.Calm) {i : Slot} {sig : Nat} (code : U32)
    (safe : (m.table i).missed sig = false) : (signalSendInfo m i sig code).Calm :=
  Machine.Calm.of_table (m := m.setProcess i _) (calm.set ((calm i).receive code _ safe)) rfl

end Machine.Calm

variable {p : Process} {sig : Nat} {i self : Slot}

/-- Only SIGCONT and SIGKILL continue a stopped process. -/
theorem missed_other (other : sig ≠ sigcont) (mild : sig ≠ sigkill) : p.missed sig = false := by
  have neither : (sig == sigcont || sig == sigkill) = false := by simp [other, mild]
  simp [Process.missed, neither]

theorem missed_up (up : p.sleepsStopped = false) (sig : Nat) :
    p.missed sig = false := by simp [Process.missed, up]

/-! The end of a process: its children get their signal, its tracees SIGCONT. -/

/-- Would the end of the process `dead` put `p` back to sleep with a signal to take? A
child that it also traces gets two signals. -/
def Process.missesEnd (p : Process) (dead : U32) : Bool :=
  p.ppid == dead && p.pdeathsig != 0 &&
      (p.missed p.pdeathsig || p.sleepsStopped && p.tracer == dead) ||
    p.tracer == dead && p.missed sigcont

def endMisses (m : Machine) (dead : Slot) : Bool :=
  decide (∃ c, (m.table c).missesEnd (m.table dead).pid = true)

variable {e : Event} {n : Machine} {dead : Slot}

/-- After the first loop of process_ended no tracee is in danger. -/
theorem Bereaved.not_missed {c q : Process} {dead : U32} (left : Bereaved c dead q) (calm : c.Calm)
    (traced : c.tracer = dead) (safe : c.missesEnd dead = false) : q.missed sigcont = false := by
  obtain ⟨orphan, tracee⟩ := Bool.or_eq_false_iff.mp safe
  cases left with
  | moved =>
    have still : c.missed sigcont = false := by simpa [traced] using tracee
    exact still
  | told child asks ppid sender =>
    obtain ⟨-, up⟩ : c.missed c.pdeathsig = false ∧ c.sleepsStopped = false := by
      simpa [child, asks, traced] using orphan
    exact Process.receive_not_missed (p := c.withParent ppid)
      ⟨⟨calm.awake, calm.blocked, calm.saved⟩, calm.restful⟩ up _ _ _

theorem processEnded_calm (calm : m.Calm)
    (safe : ∀ c, (m.table c).missesEnd (m.table dead).pid = false) :
    (processEnded m dead).Calm := by
  apply processEnded_rule (R := fun a b => a.Calm → b.Calm) _ _ _ _ _ _ calm
  · exact fun _ calm => calm
  · exact fun one two calm => two (one calm)
  · exact fun n i ppid tracer calm => calm.set_same rfl rfl rfl rfl rfl rfl
  · intro n c ppid _ same child asks calm
    apply calm.send
    rw [same]
    obtain ⟨own, -⟩ : (m.table c).missed (m.table c).pdeathsig = false ∧ _ := by
      simpa [child, asks] using (Bool.or_eq_false_iff.mp (safe c)).1
    exact own
  · intro n c q _ left same mine now
    apply now.send
    rw [same]
    exact left.not_missed (calm c) mine (safe c)
  · intro n parent child pid _ calm
    exact Machine.Calm.of_table (calm.send _ (missed_other (by decide) (by decide))) rfl

theorem endWith_calm (calm : m.Calm) (safe : endMisses m i = false) (status : U32) :
    (endWith m i status).Calm := by
  have safe : ∀ c, (m.table c).missesEnd (m.table i).pid = false := by simpa [endMisses] using safe
  have ended : (((m.table i).withStatus status).withState .zombie).Calm :=
    Process.Calm.idle ⟨⟨(calm i).awake, (calm i).blocked, (calm i).saved⟩, (calm i).restful⟩
      (by decide)
  have table : (retire (m.setProcess i ((m.table i).withStatus status)) i).table =
      (m.setProcess i (((m.table i).withStatus status).withState .zombie)).table := by
    simp [retire, Machine.setProcess, Machine.note]
  apply processEnded_calm
  · exact Machine.Calm.of_table (calm.set ended) table
  · intro c
    rw [table]
    by_cases here : c = i
    · subst here
      simp [Machine.setProcess, Process.missesEnd, Process.missed, Process.sleepsStopped,
        Process.withState]
    · simpa [Machine.setProcess, here, Process.withState, Process.withStatus] using safe c

/-! One step. -/

/-- No signal of this step continues a stopped sleeper that has a signal to take,
unless that signal itself ends the sleep. -/
def continuesInTime (m : Machine) (e : Event) : Bool :=
  !(sentTo m e).any (fun s => (m.table s.1).missed s.2) && !(ending m e).any (endMisses m)

theorem sent_safe (ok : continuesInTime m e) (sent : sentTo m e = some (i, sig)) :
    (m.table i).missed sig = false := by
  simpa [sent] using (Bool.and_eq_true_iff.mp ok).1

theorem ending_safe (ok : continuesInTime m e) (ends : ending m e = some i) :
    endMisses m i = false := by
  simpa [ends] using (Bool.and_eq_true_iff.mp ok).2

theorem acting_awake (acts : m.acting = some i) :
    (m.table i).state = .ready ∨ (m.table i).state = .running := by
  obtain ⟨-, able⟩ := Option.filter_eq_some_iff.mp acts
  simp only [Bool.and_eq_true, Bool.or_eq_true, beq_iff_eq] at able
  exact able.1.1.symm

/-- Whoever makes a call is awake, and may change its masks. -/
theorem Process.Calm.awake_of {q : Process} (calm : p.Calm)
    (awake : p.state = .ready ∨ p.state = .running) (state : q.state = p.state)
    (ticks : q.sleepTicks = p.sleepTicks) (blocked : q.sigBlocked &&& sigUnblockable = 0)
    (saved : q.sigSavedMask &&& sigUnblockable = 0) : q.Calm := by
  refine ⟨⟨fun _ => ticks ▸ calm.awake awake, blocked, saved⟩, fun asleep => ?_⟩
  rw [state] at asleep
  rw [asleep] at awake
  exact absurd awake (by decide)

theorem Reaches.calm (reaches : Reaches m self e n) (calm : m.Calm)
    (ok : continuesInTime m e) : n.Calm := by
  have traced (t : Slot) (tracer : U32) : (m.setProcess t ((m.table t).withTracer tracer)).Calm :=
    calm.set_same rfl rfl rfl rfl rfl rfl
  cases reaches with
  | leaves => exact calm
  | sends code sent => exact calm.send code (sent_safe ok sent)
  | traced => exact traced _ _
  | @traces t sig tracer _ _ sent =>
    apply (traced t tracer).send
    simp only [Machine.setProcess, Function.update_self]
    exact sent_safe ok sent
  | ends status aimed _ _ same =>
    apply endWith_calm calm
    simpa [endMisses, same] using ending_safe ok aimed
  | @confines op flags args =>
    obtain ⟨mode, allow, action, set⟩ := seccomp_eq (m.table self) op flags args
    rw [set]
    exact calm.set_same rfl rfl rfl rfl rfl rfl

theorem sysRtSigqueueinfo_calm (calm : m.Calm) {pid : U32} {value : U32}
    (ok : continuesInTime m (.sigqueueinfo pid sig value)) :
    (sysRtSigqueueinfo m self pid sig value).Calm := by
  obtain ⟨-, refused⟩ | ⟨t, k, info, found, -, -, -, -, -, queues⟩ :=
    sysRtSigqueueinfo_cases m self pid sig value
  · rwa [refused]
  have added : (m.queued k pid info).Calm := calm.of_table rfl
  have safe : (m.table t).missed sig = false := sent_safe ok (by simp [sentTo, found])
  have sent : (sendQueued (m.queued k pid info) t sig m.sendings).Calm :=
    (added.send siQueue safe).of_table (sendQueued_table _ t sig m.sendings)
  rw [queues]
  dsimp only
  split
  · exact sent
  · exact sent.of_table (sigqueueDrop_table _ _ _)

theorem sysRtSigaction_calm (calm : m.Calm) (self : Slot) (sig : Nat) (act : Sigaction) :
    (sysRtSigaction m self sig act).Calm := by
  unfold sysRtSigaction
  split
  · exact calm
  have set : (m.setProcess self ((m.table self).setAction sig act)).Calm :=
    calm.set_same rfl rfl rfl rfl rfl rfl
  split
  · refine Machine.Calm.of_table (set.set (i := self) (p := _) ?_) rfl
    split
    · exact (set self).clear _
    · exact set self
  · exact set

theorem sysSleep_calm (calm : m.Calm) (acts : m.acting = some i) (ticks : U32)
    (interruptible : Bool) : (sysSleep m i ticks interruptible).Calm := by
  unfold sysSleep
  dsimp only
  have sleeper {p : Process} (asleep : p.state = .sleeping)
      (blocked : p.sigBlocked = (m.table i).sigBlocked)
      (saved : p.sigSavedMask = (m.table i).sigSavedMask) (restful : p.Restful) : p.Calm :=
    ⟨(calm i).toSteady.of_same (fun busy => absurd busy (by simp [asleep])) blocked saved, restful⟩
  split
  · exact calm
  split
  · split
    · exact calm
    rename_i none
    apply calm.set
    exact sleeper rfl rfl rfl fun _ _ => not_not.mp none
  · apply calm.set
    -- a process that makes calls is not inside an interruptible sleep
    refine sleeper rfl rfl rfl fun _ light => ?_
    rw [(acting_some acts).2.2.2] at light
    exact nomatch light

theorem setMask_apart (apart : p.sigBlocked &&& sigUnblockable = 0) (how : MaskHow) (set : U32) :
    (p.setMask how set).sigBlocked &&& sigUnblockable = 0 := by
  cases how with
  | block =>
    simp only [Process.setMask, BitVec.and_or_distrib_right, apart, Process.masked_apart]
    decide
  | unblock =>
    simp only [Process.setMask]
    rw [BitVec.and_assoc, BitVec.and_comm (~~~_), ← BitVec.and_assoc, apart]
    simp
  | setmask => exact Process.masked_apart set

/-- Ending somebody who is awake asks the same of the others, whatever it took. -/
theorem endMisses_taken {signals : U32}
    (table : n.table = (m.setProcess i { m.table i with signals }).table)
    (awake : (m.table i).state = .ready ∨ (m.table i).state = .running)
    (safe : endMisses m i = false) : endMisses n i = false := by
  have safe : ∀ c, (m.table c).missesEnd (m.table i).pid = false := by simpa [endMisses] using safe
  simp only [endMisses, decide_eq_false_iff_not, not_exists, table]
  intro c
  by_cases here : c = i
  · subst here
    have up : Process.sleepsStopped { m.table c with signals } = false := by
      obtain state | state := awake <;> simp [Process.sleepsStopped, state]
    simp [Machine.setProcess, Process.missesEnd, missed_up up, up]
  · simpa [Machine.setProcess, here] using safe c

theorem Served.calm (calm : m.Calm)
    (awake : (m.table i).state = .ready ∨ (m.table i).state = .running)
    (safe : endMisses m i = false) (served : Served m i sig n) : n.Calm := by
  cases served with
  | dropped => exact calm
  | stopped => exact calm.set ((calm i).idle (by decide))
  | ended status => exact endWith_calm calm safe status
  | handled =>
    exact calm.set ((calm i).awake_of awake rfl rfl (Process.masked_apart _) (calm i).saved)

theorem signalDeliver_calm (calm : m.Calm)
    (awake : (m.table i).state = .ready ∨ (m.table i).state = .running)
    (safe : endMisses m i = false) (frame : Option U32) : (signalDeliver m i frame).Calm := by
  obtain same | restored | ⟨sig, -, -, served⟩ := signalDeliver_cases m i frame
  · rwa [same]
  · rw [restored]
    apply calm.set
    unfold Process.restoreMask
    split
    · exact (calm i).awake_of awake rfl rfl (calm i).saved (calm i).saved
    · exact calm i
  · obtain ⟨signals, table⟩ := takeSignal_table m i sig
    refine served.calm (Machine.Calm.of_table (calm.set ?_) table) ?_
      (endMisses_taken table awake safe)
    · exact (calm i).awake_of awake rfl rfl (calm i).blocked (calm i).saved
    · simpa [table, Machine.setProcess] using awake

theorem processCreate_calm (calm : m.Calm) (uid : U32) (stackOk : Bool) :
    (processCreate m uid stackOk).Calm := by
  have zero : (0 : U32) &&& sigUnblockable = 0 := by decide
  have empty : ({} : Process).Calm := ⟨⟨fun _ => rfl, zero, zero⟩, fun asleep => nomatch asleep⟩
  have newborn : (Process.newborn m.currentProcess m.nextPid uid).Calm := by
    have ready : (Process.newborn m.currentProcess m.nextPid uid).state = .ready := by
      unfold Process.newborn
      split
      · rfl
      split <;> rfl
    refine ⟨?_, fun asleep => absurd asleep (by simp [ready])⟩
    unfold Machine.currentProcess Process.newborn
    cases m.current with
    | none => exact ⟨fun _ => rfl, zero, zero⟩
    | some c =>
      have blocked := (calm c).blocked
      dsimp only [Option.map_some]
      split <;> exact ⟨fun _ => rfl, blocked, zero⟩
  unfold processCreate
  split
  · exact calm
  split
  · exact calm
  split
  · exact calm
  split
  · exact calm
  split
  · exact calm.set empty
  · exact Machine.Calm.of_table (calm.set newborn) rfl

theorem call_calm (calm : m.Calm) (acts : m.acting = some i) (e : Event)
    (ok : continuesInTime m e) : (call m i e).Calm := by
  have awake := acting_awake acts
  have mine {q : Process} (state : q.state = (m.table i).state)
      (ticks : q.sleepTicks = (m.table i).sleepTicks)
      (blocked : q.sigBlocked &&& sigUnblockable = 0)
      (saved : q.sigSavedMask &&& sigUnblockable = 0) : (m.setProcess i q).Calm :=
    calm.set ((calm i).awake_of awake state ticks blocked saved)
  cases e with
  | create uid stackOk => exact processCreate_calm calm uid stackOk
  | exit | kill | killRound | hangup | ptrace | seccomp =>
    exact (call_reaches acts _ rfl).calm calm ok
  | sleep ticks interruptible => exact sysSleep_calm calm acts ticks interruptible
  | sigaction sig act => exact sysRtSigaction_calm calm i sig act
  | sigprocmask how set =>
    exact mine rfl rfl (setMask_apart (calm i).blocked how set) (calm i).saved
  | sigsuspend mask => exact mine rfl rfl (Process.masked_apart mask) (calm i).blocked
  | deliver frame => exact signalDeliver_calm calm awake (ending_safe ok acts) frame
  | sigtimedwait set =>
    obtain ⟨signals, table⟩ := sigwaitTake_table m i set
    have taken : (m.setProcess i { m.table i with signals }).Calm :=
      mine rfl rfl (calm i).blocked (calm i).saved
    exact taken.of_table table
  | sigqueueinfo pid sig value => exact sysRtSigqueueinfo_calm calm ok
  | wait4 which =>
    simp only [call, sysWait4]
    split
    · exact calm
    split
    · exact calm
    · exact calm.of_table rfl
  | setPdeathsig sig =>
    simp only [call]
    split
    · exact calm
    · exact calm.set_same rfl rfl rfl rfl rfl rfl
  | setUid | setPgid | setSid | setSubreaper | setDumpable | setNoNewPrivs =>
    exact calm.set_same rfl rfl rfl rfl rfl rfl
  | yield | tick | cpuLimit | reapSlot | interrupt | endSleep => exact calm

theorem retire_calm (calm : m.Calm) (i : Slot) : (retire m i).Calm := by
  have ended : ((m.table i).withState .zombie).Calm := (calm i).idle (by decide)
  exact Machine.Calm.of_table (calm.set ended) rfl

/-- Between READY and RUNNING nothing changes that matters here. -/
theorem Process.Calm.switched (calm : p.Calm) {state : ProcessState}
    (before : p.state = .ready ∨ p.state = .running) (after : state = .ready ∨ state = .running) :
    (p.withState state).Calm := by
  have ticks := calm.awake before
  refine ⟨calm.toSteady.of_same (fun _ => ticks) rfl rfl, fun asleep => ?_⟩
  have asleep : state = .sleeping := asleep
  rw [asleep] at after
  exact absurd after (by decide)

theorem schedulerYield_calm (calm : m.Calm) (guardOk : Bool) (next : Slot) :
    (schedulerYield m guardOk next).Calm := by
  refine schedulerYield_rule (R := fun a b => a.Calm → b.Calm) (fun _ calm => calm)
    (fun one two calm => two (one calm)) (fun i _ _ calm => retire_calm calm i)
    (fun n i state turns calm => calm.set ?_) (fun n _ calm => calm.of_table rfl) next calm
  obtain ⟨before, after⟩ | ⟨before, after⟩ := turns
  · exact (calm i).switched (.inr before) (.inl after)
  · exact (calm i).switched (.inl before) (.inr after)

theorem Process.Calm.tick (calm : p.Calm) : p.tick.Calm := by
  unfold Process.tick
  split
  · exact calm
  rename_i asleep
  have asleep := not_not.mp asleep
  dsimp only
  refine ⟨calm.toSteady.of_same (fun awake => ?_) rfl rfl, fun _ light => ?_⟩
  · by_contra ticks
    rw [if_neg ticks] at awake
    exact absurd awake (by simp)
  · exact calm.restful asleep light

theorem step_calm (calm : m.Calm) (e : Event) (ok : continuesInTime m e) :
    (step m e).Calm := by
  cases e with
  | yield guardOk next => exact schedulerYield_calm calm guardOk next
  | tick => exact fun j => (calm j).tick
  | cpuLimit =>
    simp only [step, rlimitCheckCpu]
    split
    · exact calm
    split
    · exact calm
    · exact retire_calm calm _
  | reapSlot i =>
    simp only [step, reap]
    split
    · have gone : ((m.table i).withState .free).Calm := (calm i).idle (by decide)
      exact Machine.Calm.of_table (calm.set gone) rfl
    · exact calm
  | interrupt i sig code =>
    simp only [step]
    split
    · exact calm
    · exact calm.send code (sent_safe ok rfl)
  | endSleep =>
    simp only [step]
    split
    · next i _ =>
      split
      · next awake =>
        exact calm.set ((calm i).awake_of awake.symm rfl rfl (calm i).blocked (calm i).saved)
      · exact calm
    · exact calm
  | _ =>
    simp only [step]
    split
    · next acts => exact call_calm calm acts _ ok
    · exact calm

theorem boot_calm : boot.Calm := by
  have empty : ({} : Machine).Calm := by
    intro i
    have zero : (0 : U32) &&& sigUnblockable = 0 := by decide
    exact ⟨⟨fun _ => rfl, zero, zero⟩, fun asleep => nomatch asleep⟩
  have first : (markSystem (processCreate {} 0 true) 0).Calm :=
    (processCreate_calm empty 0 true).set_same rfl rfl rfl rfl rfl rfl
  have second : (markSystem (processCreate (markSystem (processCreate {} 0 true) 0) 0 true) 1).Calm :=
    (processCreate_calm first 0 true).set_same rfl rfl rfl rfl rfl rfl
  refine Machine.Calm.of_table (second.set (i := 1) (Process.Calm.switched (second 1) ?_ (.inr rfl))) rfl
  decide +kernel

/-- Nobody sleeps interruptibly with a signal to take. -/
def NoLostWakeup (m : Machine) : Prop := ∀ i, (m.table i).state = .sleeping →
  (m.table i).sleepInterruptible = true → (m.table i).deliverable = 0

/-- In every run in which no stopped sleeper that has a signal to take is continued
into its sleep, no wake-up is lost. -/
theorem no_lost_wakeup (events : List Event)
    (ok : everyStep continuesInTime boot events = true) :
    ∀ pre post, events = pre ++ post → NoLostWakeup (run boot pre) := by
  rintro pre post rfl
  have calm := Runs.run_keeps (P := Machine.Calm) (fun m e calm ok => step_calm calm e ok) boot_calm pre
    (Runs.everyStep_append pre post ok).1
  exact fun i => (calm i).restful

/-- A sleeper is stopped and continued, and goes on sleeping. -/
def stopRun : List Event :=
  [.create 0 true, .yield true 2, .sleep 50 true, .yield true 1, .kill 3 sigstop, .tick,
    .kill 3 sigcont]

theorem no_lost_wakeup_stop : everyStep continuesInTime boot stopRun = true ∧
    ((run boot stopRun).table 2).state = .sleeping ∧ NoLostWakeup (run boot stopRun) := by
  have ok : everyStep continuesInTime boot stopRun = true := by decide +kernel
  have asleep : ((run boot stopRun).table 2).state = .sleeping := by decide +kernel
  exact ⟨ok, asleep, no_lost_wakeup stopRun ok stopRun [] (List.append_nil stopRun).symm⟩

/-- The same with a signal in between, SIGUSR1: it waits while the process is
stopped, and SIGCONT puts the process back to sleep over it. -/
def lateRun : List Event :=
  [.create 0 true, .yield true 2, .sleep 50 true, .yield true 1, .kill 3 sigstop, .kill 3 10,
    .kill 3 sigcont]

theorem sigcont_sleeps_over_signal : ((run boot lateRun).table 2).state = .sleeping ∧
    ((run boot lateRun).table 2).sleepInterruptible = true ∧
    ((run boot lateRun).table 2).sleepTicks = 50 ∧
    ((run boot lateRun).table 2).deliverable = sigBit 10 := by
  decide +kernel

end UzOS.Kernel
