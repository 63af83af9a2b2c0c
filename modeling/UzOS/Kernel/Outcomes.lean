import UzOS.Kernel.Run

/-! What a step can come to: the calls that reach for another process, the switch and
the delivery of a signal, each looked through once. -/
namespace UzOS.Kernel

variable {m : Machine} {i t self : Slot} {e : Event}

theorem present_of_alive {p : Process} (alive : p.alive) : p.state ≠ .free := by
  intro free
  simp [Process.alive, free] at alive

theorem found_present {pid : U32} (found : processGetByPid m pid = some t) :
    (m.table t).state ≠ .free ∧ (m.table t).pid = pid := by
  simpa using findSlot_some found

theorem acting_some (acts : m.acting = some i) :
    m.current = some i ∧ (m.table i).alive ∧ (m.table i).pid ≠ 1 ∧
      (m.table i).sleepInterruptible = false := by
  obtain ⟨current, able⟩ := Option.filter_eq_some_iff.mp acts
  simp only [Bool.and_eq_true, Bool.or_eq_true, beq_iff_eq, Bool.not_eq_true', bne_iff_ne] at able
  obtain ⟨⟨state, awake⟩, other⟩ := able
  refine ⟨current, ?_, other, awake⟩
  obtain state | state := state <;> simp [Process.alive, state]

theorem onCpu_some (runs : m.onCpu = some i) : m.current = some i ∧ (m.table i).state ≠ .free := by
  obtain ⟨current, used⟩ := Option.filter_eq_some_iff.mp runs
  exact ⟨current, by simpa using used⟩

/-! Calls that reach for a process. -/

/-- What the call `e` of `self` makes of `m`: it ends whoever has the victim's pid. -/
inductive Reaches (m : Machine) (self : Slot) (e : Event) : Machine → Prop where
  | leaves : Reaches m self e m
  | sends {t : Slot} {sig : Nat} (code : U32) (sent : sentTo m e = some (t, sig)) :
      Reaches m self e (signalSendInfo m t sig code)
  | traced (present : (m.table self).state ≠ .free) :
      Reaches m self e (m.setProcess self ((m.table self).withTracer (m.table self).ppid))
  | traces {t : Slot} {sig : Nat} {tracer : U32} (present : (m.table t).state ≠ .free)
      (fair : tracer = 0 ∨ tracer = (m.table self).pid) (sent : sentTo m e = some (t, sig)) :
      Reaches m self e (signalSend (m.setProcess t ((m.table t).withTracer tracer)) t sig)
  | ends {victim t : Slot} (status : U32) (aimed : ending m e = some victim)
      (lives : (m.table victim).alive = true ∨
        ∃ pid, e = .kill pid sigkill ∧ processGetByPid m pid = some victim)
      (present : (m.table t).state ≠ .free) (same : (m.table t).pid = (m.table victim).pid)
      (killable : (m.table t).isSystem = true → (m.table t).pid ≠ 1) :
      Reaches m self e (endWith m t status)
  | confines {op flags : U32} {args : Option SeccompList} (call : e = .seccomp op flags args)
      (allowed : (m.table self).seccompAllowed nrSeccomp = true) :
      Reaches m self e (m.setProcess self ((m.table self).seccomp op flags args))

namespace Reaches

theorem processKill {victim : Slot} (aimed : ending m e = some victim)
    (lives : (m.table victim).alive ∨
      ∃ pid, e = .kill pid sigkill ∧ processGetByPid m pid = some victim) :
    Reaches m self e (processKill m (m.table victim).pid) := by
  unfold Kernel.processKill
  split
  · exact .leaves
  split
  · exact .leaves
  rename_i found
  obtain ⟨present, same⟩ := found_present found
  split
  · exact .leaves
  rename_i allowed
  refine .ends _ aimed lives present same fun system => ?_
  simp [defKillAllowed, system] at allowed

theorem sendOne {sig : Nat} (sends : sig ≠ sigkill → sentTo m e = some (t, sig))
    (aimed : sig = sigkill → ending m e = some t)
    (lives : sig = sigkill → (m.table t).alive ∨
      ∃ pid, e = .kill pid sigkill ∧ processGetByPid m pid = some t) :
    Reaches m self e (sendOne m self t sig) := by
  unfold Kernel.sendOne
  split
  · exact .leaves
  split
  · next kills => exact .processKill (aimed kills) (lives kills)
  rename_i mild
  split
  · exact .sends siUser (sends mild)
  · exact .leaves

theorem sysKill (pid : U32) (sig : Nat) : Reaches m self (.kill pid sig) (sysKill m self pid sig) := by
  unfold Kernel.sysKill
  split
  · exact .leaves
  split
  · exact .leaves
  rename_i t found
  apply sendOne
  · intro mild
    simp [sentTo, mild, found]
  · intro kills
    simp [ending, victim, kills, found]
  · rintro rfl
    exact .inr ⟨pid, rfl, found⟩

theorem killMember (t : Slot) (sig : Nat) :
    Reaches m self (.killRound t sig) (killMember m self t sig) := by
  unfold Kernel.killMember
  split
  · exact .leaves
  split
  · exact .leaves
  rename_i other
  apply sendOne
  · intro mild
    simp [sentTo, mild]
  · intro kills
    simp [ending, victim, kills]
  · intro _
    simp only [Bool.or_eq_true, Bool.not_eq_true', not_or, Bool.not_eq_false] at other
    exact .inl other.1

theorem hangupRound (t : Slot) : Reaches m self (.hangup t) (hangupRound m self t) := by
  unfold Kernel.hangupRound
  dsimp only
  split
  · exact .leaves
  rename_i other
  push Not at other
  obtain ⟨-, user, -, alive⟩ := other
  have alive : (m.table t).alive := by simpa using alive
  split
  · exact .leaves
  split
  · exact .sends siUser rfl
  · exact .ends _ rfl (.inl alive) (present_of_alive alive) rfl fun system => absurd system user

theorem sysPtrace (alive : (m.table self).alive) (request : PtraceRequest) (pid : U32) :
    Reaches m self (.ptrace request pid) (sysPtrace m self request pid) := by
  unfold Kernel.sysPtrace
  split
  · split
    · exact .leaves
    rename_i parent found
    split
    · exact .leaves
    rw [(found_present found).2]
    exact .traced (present_of_alive alive)
  · split
    · exact .leaves
    rename_i t found
    have present := (found_present found).1
    split
    · exact .leaves
    rename_i living
    split
    · split
      · exact .leaves
      · exact .traces present (.inr rfl) (by simp [sentTo, found])
    split
    · exact .leaves
    split
    · exact .sends siUser (by simp [sentTo, found])
    · exact .processKill (by simp [ending, victim, found])
        (.inl (by simp [Process.alive, present, living]))
    · exact .traces present (.inl rfl) (by simp [sentTo, found])
    · exact .leaves

theorem doSeccomp (acts : m.acting = some self) (op flags : U32) (args : Option SeccompList) :
    Reaches m self (.seccomp op flags args) (doSeccomp m self op flags args) := by
  obtain ⟨-, alive, user, -⟩ := acting_some acts
  unfold Kernel.doSeccomp sandboxRefuses
  by_cases goes : (m.table self).seccompMode = .off ∨ (m.table self).seccompAllowed nrSeccomp
  · rw [if_pos goes]
    refine .confines rfl ?_
    obtain off | allowed := goes
    · simp [Process.seccompAllowed, off]
    · exact allowed
  · rw [if_neg goes]
    split
    · next refused refuses =>
      split at refuses
      · rw [← Option.some.inj refuses]
        exact .ends _ acts (.inl alive) (present_of_alive alive) rfl fun _ => user
      rw [← Option.some.inj refuses]
      exact .leaves
    · next goes => split at goes <;> cases goes

end Reaches

/-- The calls that may send a signal to a process or end one. -/
def Event.reaches : Event → Bool
  | .exit _ | .kill _ _ | .killRound _ _ | .hangup _ | .ptrace _ _ | .seccomp _ _ _ => true
  | _ => false

theorem call_reaches (acts : m.acting = some i) (e : Event) (reaches : e.reaches) :
    Reaches m i e (call m i e) := by
  obtain ⟨-, alive, user, -⟩ := acting_some acts
  cases e with
  | exit status => exact .ends status acts (.inl alive) (present_of_alive alive) rfl fun _ => user
  | kill pid sig => exact .sysKill pid sig
  | killRound t sig => exact .killMember t sig
  | hangup t => exact .hangupRound t
  | ptrace request pid => exact .sysPtrace alive request pid
  | seccomp op flags args => exact .doSeccomp acts op flags args
  | _ => cases reaches

/-! Ending. -/

/-- What the first loop of process_ended makes of `c`: a child of the dead process gets
another parent, and the signal it asked for. -/
inductive Bereaved (c : Process) (dead : U32) : Process → Prop where
  | moved (ppid : U32) : Bereaved c dead (c.withParent ppid)
  | told (child : c.ppid = dead) (asks : c.pdeathsig ≠ 0) (ppid sender : U32) :
      Bereaved c dead ((c.withParent ppid).receive c.pdeathsig siKernel sender)

theorem Bereaved.same {c q : Process} {dead : U32} (left : Bereaved c dead q) :
    q.pid = c.pid ∧ q.tracer = c.tracer := by
  cases left with
  | moved => exact ⟨rfl, rfl⟩
  | told => exact ⟨Process.receive_pid _ _ _ _, Process.receive_tracer _ _ _ _⟩

/-- A relation between machines that the parts of an end keep holds across it. -/
theorem processEnded_rule {R : Machine → Machine → Prop} {dead : Slot} (refl : ∀ m, R m m)
    (trans : ∀ {a b c}, R a b → R b c → R a c)
    (edits : ∀ (n : Machine) i ppid tracer,
      R n (n.setProcess i { n.table i with ppid, tracer }))
    (tells : ∀ n c ppid, R m n → n.table c = (m.table c).withParent ppid →
      (m.table c).ppid = (m.table dead).pid → (m.table c).pdeathsig ≠ 0 →
      R n (signalSendInfo n c (m.table c).pdeathsig siKernel))
    (frees : ∀ n c q, R m n → Bereaved (m.table c) (m.table dead).pid q →
      n.table c = q.withTracer 0 → (m.table c).tracer = (m.table dead).pid →
      R n (signalSendInfo n c sigcont siKernel))
    (announces : ∀ n parent child pid, R m n →
      R n ((signalSendInfo n parent sigchld siKernel).note (.announced child pid))) :
    R m (processEnded m dead) := by
  have first (heir : U32) : R m (forSlots (reparent dead heir) m) ∧
      ∀ c, Bereaved (m.table c) (m.table dead).pid ((forSlots (reparent dead heir) m).table c) := by
    apply forSlots_fresh Machine.table (P := fun t => R m t ∧
      ∀ c, Bereaved (m.table c) (m.table dead).pid (t.table c))
      ⟨refl m, fun c => .moved (m.table c).ppid⟩ _ fun t i j => reparent_other dead heir t
    rintro t i ⟨reached, left⟩ fresh
    have others (j : Slot) (other : j ≠ i) := reparent_other dead heir t other ▸ left j
    suffices own : R t (reparent dead heir t i) ∧
        Bereaved (m.table i) (m.table dead).pid ((reparent dead heir t i).table i) by
      refine ⟨trans reached own.1, fun j => ?_⟩
      by_cases here : j = i
      · exact here ▸ own.2
      · exact others j here
    have adopts := edits t i heir (t.table i).tracer
    unfold reparent
    dsimp only
    split
    · exact ⟨refl t, left i⟩
    rename_i child
    obtain ⟨-, -, child⟩ := by simpa only [not_or, not_not] using child
    rw [(left dead).same.1, fresh] at child
    split
    · next asks =>
      rw [fresh] at asks adopts ⊢
      refine ⟨trans adopts (tells _ i heir (trans reached adopts) ?_ child asks.1), ?_⟩
      · simp [Machine.setProcess, Process.withParent]
      · rw [signalSendInfo_self]
        simp only [Machine.setProcess, Function.update_self]
        exact .told child asks.1 heir _
    · refine ⟨adopts, ?_⟩
      simp only [Machine.setProcess, Function.update_self, fresh]
      exact .moved heir
  unfold processEnded
  dsimp only
  obtain ⟨reached, left⟩ := first (newParentFor m dead)
  generalize forSlots (reparent dead (newParentFor m dead)) m = n at reached left
  have second : R m (forSlots (letGo dead) n) ∧
      ((forSlots (letGo dead) n).table dead).pid = (m.table dead).pid := by
    apply forSlots_fresh Machine.table (P := fun t => R m t ∧ (t.table dead).pid = (m.table dead).pid)
      ⟨reached, (left dead).same.1⟩ _ fun t i j => letGo_other dead t
    rintro t i ⟨reached, same⟩ fresh
    refine ⟨trans reached ?_, (letGo_pid dead t i dead).trans same⟩
    unfold letGo
    dsimp only
    split
    · next mine =>
      have released := edits t i (t.table i).ppid 0
      refine trans released (frees _ i _ (trans reached released) (left i) ?_ ?_)
      · simp [Machine.setProcess, Process.withTracer, fresh]
      · rw [← (left i).same.2, ← fresh, mine.2, same]
    · exact refl t
  unfold announceEnd
  split
  · exact second.1
  · exact trans second.1 (announces _ _ _ _ second.1)

/-! Queueing a value. -/

/-- The machine right after sigqueue_add put a value into slot `k`. -/
def Machine.queued (m : Machine) (k : Fin sigqueueSize) (target : U32) (info : Siginfo) : Machine :=
  { m with
    pool := Function.update m.pool k
      { used := true, target, order := m.nextOrder, info, sending := m.sendings }
    nextOrder := m.nextOrder + 1
    sendings := m.sendings + 1 }

theorem sigqueueAdd_queued {added : Machine} {limit target : U32} {info : Siginfo}
    (adds : sigqueueAdd m limit target info = some added) :
    ∃ k, (m.pool k).used = false ∧ added = m.queued k target info := by
  unfold sigqueueAdd at adds
  split at adds
  · exact nomatch adds
  obtain ⟨k, free, rfl⟩ := Option.map_eq_some_iff.mp adds
  exact ⟨k, by simpa using findSlot_some free, rfl⟩

/-- What a call of rt_sigqueueinfo that returns 0 has queued. -/
def queuedBy (m : Machine) (self : Slot) (pid : U32) (sig : Nat) (value : U32) : Option Siginfo :=
  let s := m.table self
  match processGetByPid m pid with
  | none => none
  | some t =>
    if !validSignal sig || sig == sigkill || sig == sigstop then none
    else if !defSignalAllowed s.uid (m.table t).uid (m.table t).isSystem then none
    else
      let info := { signo := sig, code := siQueue, pid := s.pid, uid := s.uid, value }
      (sigqueueAdd m s.rlimSigpending (m.table t).pid info).map fun _ => info

/-- rt_sigqueueinfo refuses, or queues a value and sends the signal after it. -/
theorem sysRtSigqueueinfo_cases (m : Machine) (self : Slot) (pid : U32) (sig : Nat) (value : U32) :
    queuedBy m self pid sig value = none ∧ sysRtSigqueueinfo m self pid sig value = m ∨
    ∃ t k info, processGetByPid m pid = some t ∧ validSignal sig ∧ sig ≠ sigstop ∧
      info.signo = sig ∧ (m.pool k).used = false ∧
      queuedBy m self pid sig value = some info ∧
      sysRtSigqueueinfo m self pid sig value =
        let sent := sendQueued (m.queued k pid info) t sig m.sendings
        if (sent.table t).pending sig then sent else sigqueueDrop sent pid sig := by
  unfold sysRtSigqueueinfo queuedBy
  cases found : processGetByPid m pid with
  | none => exact .inl ⟨rfl, rfl⟩
  | some t =>
    have named := (found_present found).2
    dsimp only
    by_cases guard : (!validSignal sig || sig == sigkill || sig == sigstop)
    · rw [if_pos guard, if_pos guard]
      exact .inl ⟨rfl, rfl⟩
    obtain ⟨valid, -, queues⟩ : validSignal sig ∧ sig ≠ sigkill ∧ sig ≠ sigstop := by
      simpa [and_assoc] using guard
    rw [if_neg guard, if_neg guard]
    by_cases refused : (!defSignalAllowed (m.table self).uid (m.table t).uid
        (m.table t).isSystem)
    · rw [if_pos refused, if_pos refused]
      exact .inl ⟨rfl, rfl⟩
    rw [if_neg refused, if_neg refused, named]
    cases adds : sigqueueAdd m (m.table self).rlimSigpending pid
        { signo := sig, code := siQueue, pid := (m.table self).pid,
          uid := (m.table self).uid, value } with
    | none => exact .inl ⟨rfl, rfl⟩
    | some added =>
      obtain ⟨k, free, rfl⟩ := sigqueueAdd_queued adds
      exact .inr ⟨t, k, _, rfl, valid, queues, rfl, free, rfl, rfl⟩

/-! Switching. -/

/-- A relation between machines that the parts of a switch keep holds across it. -/
theorem schedulerYield_rule {R : Machine → Machine → Prop} (refl : ∀ m, R m m)
    (trans : ∀ {a b c}, R a b → R b c → R a c) {guardOk : Bool}
    (retires : ∀ i, guardOk = false → m.onCpu = some i → R m (retire m i))
    (turns : ∀ (n : Machine) i state,
      (n.table i).state = .running ∧ state = .ready ∨ (n.table i).state = .ready ∧ state = .running →
      R n (n.setProcess i ((n.table i).withState state)))
    (picks : ∀ (n : Machine) i, R n { n with current := some i }) (next : Slot) :
    R m (schedulerYield m guardOk next) := by
  unfold schedulerYield
  split
  · exact refl m
  rename_i i runs
  have guarded : R m (if guardOk then m else retire m i) := by
    cases guard : guardOk with
    | true => exact refl m
    | false => exact retires i guard runs
  dsimp only
  generalize (if guardOk then m else retire m i) = n at guarded
  split
  · exact guarded
  rename_i goes
  push Not at goes
  obtain ⟨other, ready⟩ := goes
  have left : R n (n.setProcess i ((n.table i).withState
      (if (n.table i).state = .running then .ready else (n.table i).state))) := by
    split
    · next running => exact turns n i _ (.inl ⟨running, rfl⟩)
    have same : n.setProcess i ((n.table i).withState (n.table i).state) = n := by
      simp [Machine.setProcess, Process.withState]
    rw [same]
    exact refl n
  refine trans (trans guarded left) (trans (turns _ next .running (.inr ⟨?_, rfl⟩)) (picks _ next))
  simp [Machine.setProcess, other, ready]

/-! Delivering. -/

/-- What signal_deliver does with a signal it has taken. -/
inductive Served (n : Machine) (i : Slot) (sig : Nat) : Machine → Prop where
  | dropped : Served n i sig n
  | stopped : Served n i sig (n.setProcess i ((n.table i).withState .stopped))
  | ended (status : U32) : Served n i sig (endWith n i status)
  | handled (sp : U32) : Served n i sig (n.setProcess i ((n.table i).enterHandler sig sp))

theorem signalDeliver_served (user : (m.table i).isSystem = false) {sig : Nat}
    (found : lowestBit (m.table i).deliverable = some sig) (frame : Option U32) :
    Served (takeSignal m i sig) i sig (signalDeliver m i frame) := by
  unfold signalDeliver
  simp only [user, Bool.false_eq_true, if_false, found]
  generalize (if sig = sigkill then sigDfl else (m.table i).sigHandler sig) = handler
  split
  · exact .dropped
  split
  · split
    · exact .dropped
    · exact .dropped
    · exact .stopped
    · exact .ended _
    · exact .ended _
  · split
    · exact .ended _
    · exact .handled _

/-- Nothing is taken: the mask of sigsuspend ends, or the process is the system's. -/
theorem signalDeliver_cases (m : Machine) (i : Slot) (frame : Option U32) :
    signalDeliver m i frame = m ∨ signalDeliver m i frame = m.setProcess i (m.table i).restoreMask ∨
      ∃ sig, (m.table i).isSystem = false ∧ lowestBit (m.table i).deliverable = some sig ∧
        Served (takeSignal m i sig) i sig (signalDeliver m i frame) := by
  cases user : (m.table i).isSystem with
  | true => exact .inl (by simp [signalDeliver, user])
  | false =>
    cases found : lowestBit (m.table i).deliverable with
    | none => exact .inr (.inl (by simp [signalDeliver, user, found]))
    | some sig => exact .inr (.inr ⟨sig, rfl, rfl, signalDeliver_served user found frame⟩)

end UzOS.Kernel
