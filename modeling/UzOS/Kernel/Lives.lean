import UzOS.Kernel.Deeds
import UzOS.Kernel.Outcomes

/-! Which deed each step of the kernel is. -/
namespace UzOS.Kernel

/-- `n` is `m` after the deed. -/
structure Does (m n : Machine) (d : Deed) : Prop where
  fair : m.people.Fair d
  after : n.people = m.people.after d

/-- What a step has to do with its deed. -/
def Expected (m : Machine) (e : Event) : Deed → Prop
  | .born _ creator => m.acting = some creator
  | .ended i _ _ => (m.table i).alive = true ∨
      ∃ pid, e = .kill pid sigkill ∧ processGetByPid m pid = some i
  | .retired i => m.onCpu = some i ∧
      (e = .cpuLimit ∧ (m.table i).isSystem = false ∨ ∃ next, e = .yield false next)
  | .confined i sandbox => m.acting = some i ∧ ∃ op flags args, e = .seccomp op flags args ∧
      (m.table i).seccompAllowed nrSeccomp = true ∧
      sandbox = ((m.table i).seccomp op flags args).sandbox
  | _ => True

/-- The deed is an end of `i`. -/
def Deed.Ends (i : Slot) (d : Deed) : Prop := ∃ status heir, d = .ended i status heir

variable {m n : Machine} {t i : Slot} {e : Event}

theorem expected_same (same : n.people = m.people) :
    ∃ d, Does m n d ∧ Expected m e d := ⟨.none, ⟨trivial, same⟩, trivial⟩

/-- A change of fields of its own that nobody else sees. -/
theorem expected_own {p : Process} (same : p.person = (m.table i).person) :
    ∃ d, Does m (m.setProcess i p) d ∧ Expected m e d :=
  expected_same (people_setProcess_same m same)

/-! The heir. -/

section
variable (numbered : m.people.Numbered)
include numbered

theorem nearestSubreaper_older (bound depth : Nat)
    (a : Option Slot) (start : ∀ x, a = some x → (m.table x).state ≠ .free ∧
      (m.table x).pid.toNat < bound) :
    nearestSubreaper m depth a = 1 ∨ ∃ x, (m.people.folk x).presence = .living ∧
      (m.people.folk x).pid = nearestSubreaper m depth a ∧
      (nearestSubreaper m depth a).toNat < bound := by
  induction depth generalizing a with
  | zero => exact .inl rfl
  | succ depth ih =>
    cases a with
    | none => exact .inl rfl
    | some x =>
      obtain ⟨present, low⟩ := start x rfl
      simp only [nearestSubreaper]
      split
      · next chosen =>
        simp only [Bool.and_eq_true] at chosen
        refine .inr ⟨x, presence_living_iff.mpr ?_, person_pid present, low⟩
        simp [Process.alive, present, chosen.2]
      · apply ih
        intro y next
        split at next
        · obtain ⟨here, named⟩ := found_present next
          refine ⟨here, ?_⟩
          have older := numbered.older x (mt presence_absent_iff.mp present)
          rw [people_folk, person_ppid present, person_pid present] at older
          rw [named]
          omega
        · cases next

/-- The heir of `i` is PID 1, or lives and is older than `i`. -/
theorem newParentFor_older (present : (m.table i).state ≠ .free) :
    newParentFor m i = 1 ∨ ∃ a, (m.people.folk a).presence = .living ∧
      (m.people.folk a).pid = newParentFor m i ∧
      (newParentFor m i).toNat < (m.people.folk i).pid.toNat := by
  apply nearestSubreaper_older numbered
  intro x found
  obtain ⟨here, named⟩ := found_present found
  have older := numbered.older i (mt presence_absent_iff.mp present)
  rw [people_folk, person_ppid present] at older
  exact ⟨here, by rwa [named]⟩

/-- Whatever ends a process finds a fair heir. -/
theorem endWith_does (present : (m.table i).state ≠ .free)
    (killable : (m.table i).isSystem → (m.table i).pid ≠ 1) (status : U32) :
    ∃ heir, Does m (endWith m i status) (.ended i status heir) := by
  have here : (m.people.folk i).presence ≠ .absent := mt presence_absent_iff.mp present
  refine ⟨_, ⟨here, ?_, ?_⟩, people_endWith m present status⟩
  · rw [people_folk, person_present present]
    exact killable
  · obtain ⟨n, n_eq⟩ : ∃ n, n = retire (m.setProcess i ((m.table i).withStatus status)) i :=
      ⟨_, rfl⟩
    have people := people_retireWith m present status
    rw [← n_eq] at people ⊢
    have own : n.people.folk i =
        { m.people.folk i with presence := .ended, exitStatus := status } := by
      simp [people, People.retire, People.note]
    have other (j : Slot) (apart : j ≠ i) : n.people.folk j = m.people.folk j := by
      simp [people, People.retire, People.note, People.set, apart]
    have numbered' : n.people.Numbered := by
      rw [people]
      have set := numbered.set (q := { m.people.folk i with exitStatus := status })
        fun _ => ⟨here, rfl, rfl⟩
      exact set.after (d := .retired i) (by simpa [People.Fair] using here)
    have dead : (n.table i).state ≠ .free := by
      refine mt presence_absent_iff.mpr ?_
      rw [← people_folk, own]
      simp
    obtain first | ⟨a, living, named, low⟩ := newParentFor_older numbered' dead
    · exact .inl first
    have apart : a ≠ i := by
      rintro rfl
      simp [own] at living
    rw [other a apart] at living named
    rw [own] at low
    exact .inr ⟨a, living, named, low⟩

end

/-! Calls. -/

theorem person_newborn {c : Process} (present : c.state ≠ .free) (pid uid : U32) :
    (Process.newborn (some c) pid uid).person = c.person.child pid := by
  rw [person_present present]
  by_cases off : c.seccompMode = .off
  · simp [Process.newborn, Process.person, Process.sandbox, Person.child, off,
      ProcessState.presence]
  simp [Process.newborn, Process.person, Process.sandbox, Person.child, off, ProcessState.presence]

theorem processCreate_does {creator : Slot} (acts : m.acting = some creator) (uid : U32)
    (stackOk : Bool) : ∃ d, Does m (processCreate m uid stackOk) d ∧ Expected m e d := by
  obtain ⟨current, alive, -, -⟩ := acting_some acts
  have caller : m.currentProcess = some (m.table creator) := by
    simp [Machine.currentProcess, current]
  unfold processCreate
  split
  · exact expected_same rfl
  rename_i bounded
  split
  · exact expected_same rfl
  split
  · exact expected_same rfl
  split
  · exact expected_same rfl
  rename_i i found
  have free : (m.table i).state = .free := by simpa using findSlot_some found
  split
  · exact expected_own (by simp [Process.person, free])
  have below : m.nextPid < pidLimit := by
    have both : m.nextPid ≠ 0 ∧ m.nextPid < pidLimit := by simpa [defPidBoundsCheck] using bounded
    exact both.2
  have present := present_of_alive alive
  refine ⟨.born i creator, ⟨⟨presence_absent_iff.mpr free, presence_living_iff.mpr alive,
    BitVec.lt_def.mp below⟩, ?_⟩, acts⟩
  rw [caller]
  simp only [Option.elim_some, People.after]
  rw [people_folk, ← person_newborn present, person_pid present, ← people_setProcess]
  rfl

theorem withTracer_does (tracer : U32) (present : (m.table t).state ≠ .free)
    (fair : tracer = 0 ∨ tracer = (m.table t).ppid ∨
      ∃ a, (m.table a).alive ∧ (m.table a).pid = tracer) :
    Does m (m.setProcess t ((m.table t).withTracer tracer)) (.traced t tracer) := by
  refine ⟨⟨mt presence_absent_iff.mp present, ?_⟩, ?_⟩
  · obtain zero | parent | ⟨a, alive, named⟩ := fair
    · exact .inl zero
    · exact .inr (.inl (parent.trans (person_ppid present).symm))
    exact .inr (.inr ⟨a, presence_living_iff.mpr alive,
      (person_pid (present_of_alive alive)).trans named⟩)
  · rw [people_setProcess]
    simp only [People.after]
    rw [people_folk, person_present present]
    congr 1
    exact person_present present

theorem reap_does (i : Slot) : ∃ d, Does m (reap m i) d ∧ Expected m e d := by
  unfold reap
  dsimp only
  split
  · next dead =>
    have ended : (m.people.folk i).presence = .ended := presence_ended_iff.mpr dead.1
    have present : (m.table i).state ≠ .free := by simp [dead.1]
    refine ⟨.reaped i (exitlogSlot (sigqueueRelease m (m.table i).pid))
      (exitRecord (sigqueueRelease m (m.table i).pid) (m.table i)), ⟨⟨ended, ?_⟩, ?_⟩, trivial⟩
    · rw [people_folk, person_present present]
      exact ⟨rfl, rfl, rfl, rfl⟩
    · rw [people_setProcess]
      rfl
  · exact expected_same rfl

variable {self : Slot}

theorem sysWait4_does (alive : (m.table self).alive) (which : Selector) :
    ∃ d, Does m (sysWait4 m self which) d ∧ Expected m e d := by
  unfold sysWait4
  split
  · exact expected_same rfl
  split
  · exact expected_same rfl
  rename_i k found
  have test := oldestSlot_some found
  simp only [Bool.and_eq_true, beq_iff_eq] at test
  have named : (m.people.folk self).pid = (m.table self).pid := person_pid (present_of_alive alive)
  refine ⟨.reported k self, ⟨⟨test.1.1, presence_living_iff.mpr alive, ?_⟩, ?_⟩, trivial⟩
  · rw [named]
    exact test.1.2
  · simp only [People.after]
    rw [named]
    rfl

theorem retire_does (present : (m.table i).state ≠ .free) : Does m (retire m i) (.retired i) :=
  ⟨mt presence_absent_iff.mp present, people_retire m present⟩

/-- A switch moves two processes among the living states. -/
theorem people_schedulerYield (next : Slot) : (schedulerYield m true next).people = m.people := by
  refine schedulerYield_rule (R := fun a b => b.people = a.people) (fun _ => rfl)
    (fun one two => two.trans one) (fun _ (guard : true = false) => nomatch guard)
    (fun n i state turns => ?_) (fun _ _ => rfl) next
  apply people_setProcess_same n (Process.person_withState _ _)
  obtain ⟨before, rfl⟩ | ⟨before, rfl⟩ := turns <;> rw [before] <;> rfl

theorem schedulerYield_does (guardOk : Bool) (next : Slot) :
    ∃ d, Does m (schedulerYield m guardOk next) d ∧ Expected m (.yield guardOk next) d := by
  cases guardOk with
  | true => exact expected_same (people_schedulerYield next)
  | false =>
    cases runs : m.onCpu with
    | none => exact expected_same (by simp [schedulerYield, runs])
    | some i =>
      obtain ⟨current, used⟩ := onCpu_some runs
      have again : schedulerYield m false next = schedulerYield (retire m i) true next := by
        have still : (retire m i).onCpu = some i := by
          simp [Machine.onCpu, retire, Machine.note, Machine.setProcess, Process.withState, current]
        simp [schedulerYield, runs, still]
      obtain ⟨fair, after⟩ := retire_does used
      refine ⟨_, ⟨fair, ?_⟩, runs, .inr ⟨next, rfl⟩⟩
      rw [again, people_schedulerYield, after]

theorem rlimitCheckCpu_does : ∃ d, Does m (rlimitCheckCpu m) d ∧ Expected m .cpuLimit d := by
  unfold rlimitCheckCpu
  split
  · exact expected_same rfl
  rename_i i runs
  split
  · exact expected_same rfl
  rename_i user
  exact ⟨_, retire_does (onCpu_some runs).2, runs, .inl ⟨rfl, by simpa using user⟩⟩

/-- seccomp touches the sandbox of its caller and nothing else. -/
theorem seccomp_eq (p : Process) (op flags : U32) (args : Option SeccompList) :
    ∃ mode allow action, p.seccomp op flags args =
      { p with seccompMode := mode, seccompAllow := allow, seccompAction := action } := by
  have same : ∃ mode allow action, p =
      { p with seccompMode := mode, seccompAllow := allow, seccompAction := action } :=
    ⟨_, _, _, rfl⟩
  unfold Process.seccomp
  split
  · exact same
  split
  · split
    · exact same
    · exact ⟨_, _, _, rfl⟩
  split
  · split
    · exact same
    split
    · exact same
    split
    · exact same
    split
    · exact same
    · exact ⟨_, _, _, rfl⟩
  · exact same

theorem confined_does (alive : (m.table self).alive) (op flags : U32) (args : Option SeccompList) :
    Does m (m.setProcess self ((m.table self).seccomp op flags args))
      (.confined self ((m.table self).seccomp op flags args).sandbox) := by
  have present := present_of_alive alive
  obtain ⟨mode, allow, action, set⟩ := seccomp_eq (m.table self) op flags args
  have used : ((m.table self).seccomp op flags args).state ≠ .free := by rwa [set]
  refine ⟨presence_living_iff.mpr alive, ?_⟩
  rw [people_setProcess, person_present used, People.after, people_folk, person_present present, set]

theorem Does.of_same {m' : Machine} {d : Deed} (does : Does m' n d) (same : m'.people = m.people) :
    Does m n d :=
  ⟨same ▸ does.fair, same ▸ does.after⟩

theorem people_sysSleep (alive : (m.table i).alive) (ticks : U32) (interruptible : Bool) :
    (sysSleep m i ticks interruptible).people = m.people := by
  have living : (m.table i).state.presence = .living := by
    have lives := presence_living_iff.mpr alive
    rwa [person_present (present_of_alive alive)] at lives
  unfold sysSleep
  dsimp only
  split
  · rfl
  split
  · split
    · rfl
    · exact people_setProcess_same m (Process.person_congr living.symm rfl rfl rfl rfl rfl rfl)
  · exact people_setProcess_same m (Process.person_congr living.symm rfl rfl rfl rfl rfl rfl)

variable (numbered : m.people.Numbered)
include numbered

theorem Reaches.does (acts : m.acting = some self) (reaches : Reaches m self e n) :
    ∃ d, Does m n d ∧ Expected m e d := by
  have alive := (acting_some acts).2.1
  cases reaches with
  | leaves => exact expected_same rfl
  | sends code => exact expected_same (people_signalSendInfo _ _ _ _)
  | traced present => exact ⟨_, withTracer_does _ present (.inr (.inl rfl)), trivial⟩
  | @traces t sig tracer present fair =>
    obtain ⟨fair, after⟩ := withTracer_does tracer present
      (fair.imp_right fun mine => .inr ⟨self, alive, mine.symm⟩)
    exact ⟨_, ⟨fair, (people_signalSendInfo _ _ _ _).trans after⟩, trivial⟩
  | @ends victim t status _ lives present same killable =>
    have here : (m.table victim).state ≠ .free := by
      obtain alive | ⟨pid, -, found⟩ := lives
      · exact present_of_alive alive
      · exact (found_present found).1
    obtain rfl : t = victim := by
      apply numbered.distinct t victim (mt presence_absent_iff.mp present)
        (mt presence_absent_iff.mp here)
      rw [people_folk, people_folk, person_pid present, person_pid here, same]
    obtain ⟨heir, does⟩ := endWith_does numbered present killable status
    exact ⟨_, does, lives⟩
  | confines call allowed => exact ⟨_, confined_does alive _ _ _, acts, _, _, _, call, allowed, rfl⟩

theorem Served.does {sig : Nat} (alive : (m.table i).alive)
    (user : (m.table i).isSystem = false) (served : Served (takeSignal m i sig) i sig n) :
    ∃ d, Does m n d ∧ Expected m e d := by
  have same := people_takeSignal m i sig
  generalize takeSignal m i sig = o at served same
  have person : (o.table i).person = (m.table i).person := congrFun (congrArg People.folk same) i
  have lives : (o.table i).alive := by
    rw [← presence_living_iff, person]
    exact presence_living_iff.mpr alive
  have present := present_of_alive lives
  cases served with
  | dropped => exact expected_same same
  | stopped =>
    have living : (o.table i).state.presence = .living := by
      have lives := presence_living_iff.mpr lives
      rwa [person_present present] at lives
    have stops : ((o.table i).withState .stopped).person = (o.table i).person :=
      Process.person_withState _ living.symm
    exact expected_same ((people_setProcess_same o stops).trans same)
  | ended status =>
    have system : (o.table i).isSystem = (m.table i).isSystem := by
      have := congrArg Person.isSystem person
      rwa [person_present present, person_present (present_of_alive alive)] at this
    obtain ⟨heir, does⟩ := endWith_does (same ▸ numbered) present
      (fun is => by rw [system, user] at is; cases is) status
    exact ⟨_, does.of_same same, .inl alive⟩
  | handled sp =>
    have enters : ((o.table i).enterHandler sig sp).person = (o.table i).person :=
      Process.person_congr rfl rfl rfl rfl rfl rfl rfl
    exact expected_same ((people_setProcess_same o enters).trans same)

theorem signalDeliver_does (alive : (m.table i).alive) (frame : Option U32) :
    ∃ d, Does m (signalDeliver m i frame) d ∧ Expected m e d := by
  obtain same | restored | ⟨sig, user, -, served⟩ := signalDeliver_cases m i frame
  · exact expected_same (by rw [same])
  · rw [restored]
    exact expected_own (Process.person_restoreMask _)
  · exact served.does numbered alive user

theorem call_does (acts : m.acting = some i) (e : Event) :
    ∃ d, Does m (call m i e) d ∧ Expected m e d := by
  obtain ⟨-, alive, -⟩ := acting_some acts
  cases e with
  | create uid stackOk => exact processCreate_does acts uid stackOk
  | exit | kill | killRound | hangup | ptrace | seccomp =>
    exact (call_reaches acts _ rfl).does numbered acts
  | sleep ticks interruptible => exact expected_same (people_sysSleep alive ticks interruptible)
  | sigaction sig act => exact expected_same (people_sysRtSigaction m i sig act)
  | deliver frame => exact signalDeliver_does numbered alive frame
  | sigtimedwait set => exact expected_same (people_sigwaitTake m i set)
  | sigqueueinfo pid sig value => exact expected_same (people_sysRtSigqueueinfo m i pid sig value)
  | wait4 which => exact sysWait4_does alive which
  | setPdeathsig sig =>
    simp only [call]
    split
    · exact expected_same rfl
    · exact expected_own (Process.person_congr rfl rfl rfl rfl rfl rfl rfl)
  | sigprocmask | sigsuspend | setUid | setPgid | setSid | setSubreaper | setDumpable
  | setNoNewPrivs => exact expected_own (Process.person_congr rfl rfl rfl rfl rfl rfl rfl)
  | yield | tick | cpuLimit | reapSlot | interrupt | endSleep => exact expected_same rfl

/-- Every step is a fair deed. -/
theorem step_does (e : Event) : ∃ d, Does m (step m e) d ∧ Expected m e d := by
  cases e with
  | yield guardOk next => exact schedulerYield_does guardOk next
  | tick => exact expected_same (people_wakeSleepers m)
  | cpuLimit => exact rlimitCheckCpu_does
  | reapSlot i => exact reap_does i
  | interrupt i sig code =>
    simp only [step]
    split
    · exact expected_same rfl
    · exact expected_same (people_signalSendInfo m i sig code)
  | endSleep =>
    simp only [step]
    split
    · split
      · exact expected_own (Process.person_congr rfl rfl rfl rfl rfl rfl rfl)
      · exact expected_same rfl
    · exact expected_same rfl
  | _ =>
    simp only [step]
    split
    · next acts => exact call_does numbered acts _
    · exact expected_same rfl

theorem step_numbered (e : Event) : (step m e).people.Numbered := by
  obtain ⟨d, ⟨fair, after⟩, -⟩ := step_does numbered e
  rw [after]
  exact numbered.after fair

theorem step_gone {pid : U32} (gone : m.people.Gone pid)
    (e : Event) : (step m e).people.Gone pid := by
  obtain ⟨d, ⟨fair, after⟩, -⟩ := step_does numbered e
  rw [after]
  exact gone.after fair

theorem step_stays (alive : (m.table i).alive) (e : Event) :
    ((step m e).table i).state ≠ .free ∧ ((step m e).table i).pid = (m.table i).pid := by
  obtain ⟨d, ⟨fair, after⟩, -⟩ := step_does numbered e
  have living : (m.people.folk i).presence = .living := presence_living_iff.mpr alive
  have stays := (fair.place i).resolve_right (by simp [living])
  have present := stays.2 living
  have pid := (stays.1 present).2
  rw [← after] at present pid
  have here := presence_absent_iff.not.mp present
  refine ⟨here, ?_⟩
  rwa [people_folk, people_folk, person_pid here, person_pid (present_of_alive alive)] at pid

omit numbered

/-- After boot there are the idle task and kernel_main. -/
theorem boot_folk (i : Slot) (here : (boot.people.folk i).presence ≠ .absent) : i = 0 ∨ i = 1 := by
  revert i
  decide +kernel

theorem boot_numbered : boot.people.Numbered := by
  refine ⟨?_, fun i here => ?_, fun i j hi hj same => ?_, fun i here => ?_⟩
  · decide
  · obtain rfl | rfl := boot_folk i here
    · decide
    decide
  · obtain rfl | rfl := boot_folk i hi <;> obtain rfl | rfl := boot_folk j hj
    · rfl
    · exact absurd same (by decide)
    · exact absurd same (by decide)
    · rfl
  · obtain rfl | rfl := boot_folk i here
    · decide
    decide

/-- Along every run the pids stay in order and unique. -/
theorem run_numbered (numbered : m.people.Numbered) (events : List Event) :
    (run m events).people.Numbered := by
  induction events generalizing m with
  | nil => exact numbered
  | cons e rest ih => exact ih (step_numbered numbered e)

/-- In every run a pid names one process, which is younger than its parent, and nobody gets
the pid of a process that is gone. -/
theorem pids_name_one_life (pre post : List Event) :
    (∀ i j, ((run boot pre).table i).state ≠ .free → ((run boot pre).table j).state ≠ .free →
      ((run boot pre).table i).pid = ((run boot pre).table j).pid → i = j) ∧
    (∀ i, ((run boot pre).table i).state ≠ .free →
      ((run boot pre).table i).ppid < ((run boot pre).table i).pid) ∧
    ∀ pid, (run boot pre).people.Gone pid → (run boot (pre ++ post)).people.Gone pid := by
  have numbered := run_numbered boot_numbered pre
  rw [run_append]
  generalize run boot pre = m at numbered
  refine ⟨fun i j one two same => ?_, fun i used => ?_, fun pid gone => ?_⟩
  · rw [← person_pid one, ← person_pid two] at same
    exact numbered.distinct i j (mt presence_absent_iff.mp one) (mt presence_absent_iff.mp two) same
  · rw [BitVec.lt_def, ← person_pid used, ← person_ppid used]
    exact numbered.older i (mt presence_absent_iff.mp used)
  · induction post generalizing m with
    | nil => exact gone
    | cons e rest ih => exact ih _ (step_numbered numbered e) (step_gone numbered gone e)

end UzOS.Kernel
