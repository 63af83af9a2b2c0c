import UzOS.Kernel.People

/-! Every step of the kernel is a deed. -/
namespace UzOS.Kernel

/-! Signals change nobody's life. -/

namespace Process
variable (p : Process)

/-- What others know of a process is kept when only its state within the living,
and fields of its own, change. -/
theorem person_congr {p q : Process} (state : q.state.presence = p.state.presence)
    (pid : q.pid = p.pid) (ppid : q.ppid = p.ppid) (tracer : q.tracer = p.tracer)
    (exitStatus : q.exitStatus = p.exitStatus) (isSystem : q.isSystem = p.isSystem)
    (sandbox : q.sandbox = p.sandbox) : q.person = p.person := by
  have free : q.state = .free ↔ p.state = .free := by
    cases hp : p.state <;> cases hq : q.state <;> simp_all [ProcessState.presence]
  simp [person, free, state, pid, ppid, tracer, exitStatus, isSystem, sandbox]

theorem person_clear (bits : U32) : (p.clear bits).person = p.person :=
  person_congr rfl rfl rfl rfl rfl rfl rfl

variable (sig : Nat)

theorem person_raise : (p.raise sig).person = p.person := person_congr rfl rfl rfl rfl rfl rfl rfl

theorem person_withState {state : ProcessState} (same : state.presence = p.state.presence) :
    (p.withState state).person = p.person :=
  person_congr same rfl rfl rfl rfl rfl rfl

theorem presence_receive (code sender : U32) :
    (p.receive sig code sender).state.presence = p.state.presence := by
  have carried : ((p.carryOn sig).forgetCont sig).state.presence = p.state.presence := by
    unfold carryOn forgetCont resume clear withState
    repeat' split
    all_goals simp_all [ProcessState.presence]
  unfold receive
  split
  · rfl
  rw [← carried]
  dsimp only
  generalize (p.carryOn sig).forgetCont sig = q
  unfold stop wakeFor addPending raise withState
  cases state : q.state <;> repeat' split
  all_goals simp_all [ProcessState.presence]

theorem person_receive (code sender : U32) : (p.receive sig code sender).person = p.person := by
  obtain ⟨_, _, _, _, _, changed⟩ := p.receive_changes sig code sender
  apply person_congr (p.presence_receive sig code sender) <;> rw [changed]
  rfl

theorem person_tick : p.tick.person = p.person := by
  unfold tick
  split
  · rfl
  rename_i sleeps
  refine person_congr ?_ rfl rfl rfl rfl rfl rfl
  rw [not_not.mp sleeps]
  dsimp only
  generalize (if p.sleepTicks > 0 then p.sleepTicks - 1 else p.sleepTicks) = left
  split <;> rfl

theorem person_restoreMask : p.restoreMask.person = p.person := by
  unfold restoreMask
  split
  · exact person_congr rfl rfl rfl rfl rfl rfl rfl
  · rfl

end Process

variable (m : Machine)

@[simp] theorem people_setProcess (i : Slot) (p : Process) :
    (m.setProcess i p).people = m.people.set i p.person := by
  simp only [Machine.people, Machine.setProcess, People.set, People.mk.injEq, and_true]
  exact Function.comp_update Process.person m.table i p

theorem people_folk (i : Slot) : m.people.folk i = (m.table i).person := rfl

@[simp] theorem people_note (n : Note) : (m.note n).people = m.people.note n := rfl

variable {i dead : Slot} {p : Process}

/-- A change of `i` that the others do not see. -/
theorem people_setProcess_same (same : p.person = (m.table i).person) :
    (m.setProcess i p).people = m.people := by
  rw [people_setProcess, same, ← people_folk, People.set_self]

theorem people_signalSendInfo (i : Slot) (sig : Nat) (code : U32) :
    (signalSendInfo m i sig code).people = m.people :=
  people_setProcess_same m (Process.person_receive _ _ _ _)

theorem people_signalClear (i : Slot) (sig : Nat) : (signalClear m i sig).people = m.people := by
  refine people_setProcess_same m ?_
  split
  · exact Process.person_clear _ _
  · rfl

variable (pid : U32)

theorem people_sigqueueDrop (sig : Nat) : (sigqueueDrop m pid sig).people = m.people := by
  unfold sigqueueDrop
  split <;> rfl

theorem people_sigqueueTake (sig : Nat) : (sigqueueTake m pid sig).1.people = m.people := by
  unfold sigqueueTake
  split <;> rfl

theorem people_sendQueued (t : Slot) (sig sending : Nat) :
    (sendQueued m t sig sending).people = m.people := by
  have sends := people_signalSendInfo m t sig siQueue
  unfold sendQueued
  split
  · exact sends
  · exact sends

theorem people_sigqueueAdd {limit target : U32} {info : Siginfo} {added : Machine}
    (add : sigqueueAdd m limit target info = some added) : added.people = m.people := by
  obtain ⟨_, k, _, rfl⟩ : _ ∧ ∃ k, _ ∧ _ = added := by simpa [sigqueueAdd] using add
  rfl

theorem people_sysRtSigqueueinfo (self : Slot) (pid : U32) (sig : Nat) (value : U32) :
    (sysRtSigqueueinfo m self pid sig value).people = m.people := by
  unfold sysRtSigqueueinfo
  dsimp only
  split
  · rfl
  split
  · rfl
  split
  · rfl
  split
  · rfl
  rename_i add
  have keeps := people_sigqueueAdd m add
  split
  · rw [people_sendQueued, keeps]
  · rw [people_sigqueueDrop, people_sendQueued, keeps]

theorem people_sysRtSigaction (self : Slot) (sig : Nat) (act : Sigaction) :
    (sysRtSigaction m self sig act).people = m.people := by
  have sets : (m.setProcess self ((m.table self).setAction sig act)).people = m.people :=
    people_setProcess_same m (Process.person_congr rfl rfl rfl rfl rfl rfl rfl)
  unfold sysRtSigaction
  split
  · rfl
  split
  · rw [people_signalClear, sets]
  · exact sets

theorem people_takeSignal (i : Slot) (sig : Nat) : (takeSignal m i sig).people = m.people := by
  have clears : (m.setProcess i ((m.table i).clear (sigBit sig))).people = m.people :=
    people_setProcess_same m (Process.person_clear _ _)
  unfold takeSignal
  dsimp only
  split
  · rw [people_setProcess_same _ (Process.person_raise _ sig), people_sigqueueTake, clears]
  · rw [people_sigqueueTake, clears]

theorem people_sigwaitTake (i : Slot) (set : U32) : (sigwaitTake m i set).people = m.people := by
  unfold sigwaitTake
  split
  · rfl
  dsimp only
  split
  · exact people_sigqueueTake m _ _
  · rw [people_setProcess_same _ (Process.person_clear _ _), people_sigqueueTake]

theorem people_wakeSleepers : (wakeSleepers m).people = m.people := by
  simp only [Machine.people, wakeSleepers, Process.person_tick]

/-! Lookups see the same people. -/

section
variable (present : p.state ≠ .free)
include present

theorem person_present :
    p.person = { presence := p.state.presence, pid := p.pid, ppid := p.ppid, tracer := p.tracer
                 exitStatus := p.exitStatus, isSystem := p.isSystem, sandbox := p.sandbox } := by
  simp [Process.person, present]

theorem person_pid : p.person.pid = p.pid := by rw [person_present present]

theorem person_ppid : p.person.ppid = p.ppid := by rw [person_present present]

theorem person_tracer : p.person.tracer = p.tracer := by rw [person_present present]

theorem person_exitStatus : p.person.exitStatus = p.exitStatus := by rw [person_present present]

end

theorem presence_absent_iff : p.person.presence = .absent ↔ p.state = .free := by
  constructor
  · intro absent
    by_contra present
    rw [person_present present] at absent
    cases state : p.state <;> simp_all [ProcessState.presence]
  · intro free
    simp [Process.person, free]

theorem presence_living_iff : p.person.presence = .living ↔ p.alive := by
  cases state : p.state <;> simp [Process.person, Process.alive, ProcessState.presence, state]

theorem presence_ended_iff : p.person.presence = .ended ↔ p.state = .zombie := by
  cases state : p.state <;> simp [Process.person, ProcessState.presence, state]

theorem processGetByPid_people : processGetByPid m pid = m.people.find pid := by
  unfold processGetByPid People.find
  congr 1
  funext i
  by_cases free : (m.table i).state = .free
  · simp [people_folk, Process.person, free]
  have present : (m.table i).person.presence ≠ .absent := mt presence_absent_iff.mp free
  rw [people_folk, bne_iff_ne.mpr present, bne_iff_ne.mpr free, person_present free]

/-! Ending. -/

/-- A loop over the slots whose rounds each change one person by a rule. -/
theorem people_forSlots {body : Machine → Slot → Machine} {f : Slot → Person → Person}
    {P : People → Prop}
    (round : ∀ m i, P m.people → (body m i).people = m.people.set i (f i (m.people.folk i)))
    (keeps : ∀ s i, P s → P (s.set i (f i (s.folk i)))) {m : Machine} (start : P m.people) :
    (forSlots body m).people = { m.people with folk := fun i => f i (m.people.folk i) } := by
  let Q (n : Machine) : Prop := P n.people ∧ n.people.nextPid = m.people.nextPid ∧
    n.people.records = m.people.records ∧ n.people.log = m.people.log
  have holds (n : Machine) (i : Slot) (ok : Q n) : Q (body n i) := by
    obtain ⟨good, pid, records, log⟩ := ok
    refine ⟨?_, ?_, ?_, ?_⟩
    · rw [round n i good]
      exact keeps _ i good
    all_goals rw [round n i good]; assumption
  have begins : Q m := ⟨start, rfl, rfl, rfl⟩
  obtain ⟨-, pid, records, log⟩ := forSlots_keeps begins holds
  have folk (j : Slot) : (forSlots body m).people.folk j = f j (m.people.folk j) := by
    refine forSlots_pointwise (fun n j => n.people.folk j) holds ?_ ?_ begins j
    · intro n i ok
      simp [round n i ok.1]
    · intro n i j ok other
      simp [round n i ok.1, People.set, other]
  cases ended : (forSlots body m).people with
  | mk folk' pid' records' log' =>
    rw [ended] at pid records log
    simp only [ended] at folk
    simp only [People.mk.injEq]
    exact ⟨funext folk, pid, records, log⟩

section
variable (present : (m.table dead).state ≠ .free)
include present

theorem people_reparent (heir : U32) (i : Slot) :
    (reparent dead heir m i).people = m.people.set i (if i = dead then m.people.folk i
      else (m.people.folk i).orphaned (m.people.folk dead).pid heir) := by
  have pid : (m.people.folk dead).pid = (m.table dead).pid := person_pid present
  unfold reparent
  dsimp only
  split
  · next skipped =>
    have same : (if i = dead then m.people.folk i
        else (m.people.folk i).orphaned (m.people.folk dead).pid heir) = m.people.folk i := by
      split
      · rfl
      rename_i other
      refine if_neg fun ⟨here, mine⟩ => ?_
      have used : (m.table i).state ≠ .free := mt presence_absent_iff.mpr here
      rw [pid, people_folk, person_ppid used] at mine
      exact absurd mine (by simpa [used, other] using skipped)
    rw [same, People.set_self]
  · next child =>
    push Not at child
    obtain ⟨used, other, mine⟩ := child
    have adopted : ((m.table i).withParent heir).person =
        (m.people.folk i).orphaned (m.people.folk dead).pid heir := by
      rw [pid, people_folk, Person.orphaned, person_present used, if_pos]
      · exact person_present used
      · refine ⟨?_, mine⟩
        cases state : (m.table i).state <;> simp_all [ProcessState.presence]
    rw [← adopted]
    split
    · rw [people_signalSendInfo, people_setProcess]
    · rw [people_setProcess]

theorem people_letGo (i : Slot) :
    (letGo dead m i).people =
      m.people.set i ((m.people.folk i).letGo (m.people.folk dead).pid) := by
  have pid : (m.people.folk dead).pid = (m.table dead).pid := person_pid present
  unfold letGo
  dsimp only
  split
  · next traced =>
    obtain ⟨used, mine⟩ := traced
    have freed : ((m.table i).withTracer 0).person =
        (m.people.folk i).letGo (m.people.folk dead).pid := by
      rw [pid, people_folk, Person.letGo, person_present used, if_pos]
      · exact person_present used
      · refine ⟨?_, mine⟩
        cases state : (m.table i).state <;> simp_all [ProcessState.presence]
    rw [people_signalSendInfo, people_setProcess, freed]
  · next kept =>
    have same : (m.people.folk i).letGo (m.people.folk dead).pid = m.people.folk i := by
      refine if_neg fun ⟨here, mine⟩ => ?_
      have used : (m.table i).state ≠ .free := mt presence_absent_iff.mpr here
      rw [pid, people_folk, person_tracer used] at mine
      exact kept ⟨used, mine⟩
    rw [same, People.set_self]

theorem people_announceEnd : (announceEnd m dead).people = m.people.announce dead := by
  have pid : (m.people.folk dead).pid = (m.table dead).pid := person_pid present
  have ppid : (m.people.folk dead).ppid = (m.table dead).ppid := person_ppid present
  unfold announceEnd People.announce
  rw [ppid, processGetByPid_people]
  cases found : m.people.find (m.table dead).ppid with
  | none => rfl
  | some parent =>
    obtain ⟨here, named⟩ := People.find_some found
    rw [people_folk, person_pid (mt presence_absent_iff.mpr here)] at named
    rw [people_note, people_signalSendInfo, pid, named]

/-- process_ended: the children of the dead go to its heir, its tracees go free and
its parent is told. -/
theorem people_processEnded :
    (processEnded m dead).people = (m.people.bereave dead (newParentFor m dead)).announce dead := by
  obtain ⟨heir, heir_eq⟩ : ∃ heir, heir = newParentFor m dead := ⟨_, rfl⟩
  obtain ⟨pid, pid_eq⟩ : ∃ pid, pid = (m.people.folk dead).pid := ⟨_, rfl⟩
  let P (s : People) : Prop := (s.folk dead).presence ≠ .absent ∧ (s.folk dead).pid = pid
  let f (i : Slot) (q : Person) : Person := if i = dead then q else q.orphaned pid heir
  have used (n : Machine) (ok : P n.people) : (n.table dead).state ≠ .free :=
    mt presence_absent_iff.mpr ok.1
  have start : P m.people := ⟨mt presence_absent_iff.mp present, pid_eq.symm⟩
  have adopt : (forSlots (reparent dead heir) m).people =
      { m.people with folk := fun i => f i (m.people.folk i) } := by
    refine people_forSlots (P := P) (fun n i ok => ?_) (fun s i ok => ?_) start
    · rw [people_reparent n (used n ok), ok.2]
    · by_cases here : dead = i
      · subst here
        simpa [P, f] using ok
      · simpa [P, People.set_folk_other _ _ here] using ok
  obtain ⟨n, n_eq⟩ : ∃ n, n = forSlots (reparent dead heir) m := ⟨_, rfl⟩
  rw [← n_eq] at adopt
  have adopted : P n.people := by
    rw [adopt]
    simpa [P, f] using start
  have release : (forSlots (letGo dead) n).people =
      { n.people with folk := fun i => (n.people.folk i).letGo pid } := by
    refine people_forSlots (P := P) (f := fun _ q => q.letGo pid) (fun n i ok => ?_)
      (fun s i ok => ?_) adopted
    · rw [people_letGo n (used n ok), ok.2]
    · by_cases here : dead = i
      · subst here
        simpa [P] using ok
      · simpa [P, People.set_folk_other _ _ here] using ok
  have released : P (forSlots (letGo dead) n).people := by
    rw [release]
    simpa [P] using adopted
  have all : (forSlots (letGo dead) n).people = m.people.bereave dead heir := by
    rw [release, adopt, People.bereave, ← pid_eq]
  unfold processEnded
  dsimp only
  rw [← heir_eq, ← n_eq, people_announceEnd _ (used _ released), all]

end

variable (present : (m.table i).state ≠ .free)
include present

theorem people_retire : (retire m i).people = m.people.retire i := by
  have gone : ((m.table i).withState .zombie).person =
      { m.people.folk i with presence := .ended } := by
    rw [people_folk, person_present present]
    exact person_present (by simp [Process.withState])
  unfold retire People.retire
  rw [people_note, people_setProcess, gone, people_folk, person_pid present,
    person_exitStatus present]

theorem people_retireWith (status : U32) :
    (retire (m.setProcess i ((m.table i).withStatus status)) i).people =
      (m.people.set i { m.people.folk i with exitStatus := status }).retire i := by
  obtain ⟨n, n_eq⟩ : ∃ n, n = m.setProcess i ((m.table i).withStatus status) := ⟨_, rfl⟩
  have same : n.table i = (m.table i).withStatus status := by simp [n_eq, Machine.setProcess]
  have used : (n.table i).state ≠ .free := by rwa [same]
  have status_set : n.people = m.people.set i { m.people.folk i with exitStatus := status } := by
    rw [n_eq, people_setProcess, people_folk, person_present present]
    congr 1
    exact person_present present
  rw [← n_eq, people_retire n used, status_set]

/-- The common end of a process, by exit, kill or hang-up. -/
theorem people_endWith (status : U32) :
    (endWith m i status).people = m.people.after (.ended i status
      (newParentFor (retire (m.setProcess i ((m.table i).withStatus status)) i) i)) := by
  have dead : ((retire (m.setProcess i ((m.table i).withStatus status)) i).table i).state ≠
      .free := by
    simp [retire, Machine.note, Machine.setProcess, Process.withState]
  unfold endWith
  rw [people_processEnded _ dead, people_retireWith m present]
  rfl
end UzOS.Kernel
