import UzOS.Kernel.Lives

/-! The calls a sandbox permits, over the lives of a process and its
descendants. -/
namespace UzOS.Kernel

open Bool List

namespace Process

/-- STRICT in place of a filter that lacks one of the calls STRICT keeps. -/
def loosens (p : Process) (op flags : U32) (args : Option SeccompList) : Bool :=
  flags == 0 && op == seccompSetModeStrict && args.isNone && p.seccompMode == .filter &&
    !(filterAllows p.seccompAllow nrRead && filterAllows p.seccompAllow nrWrite &&
      filterAllows p.seccompAllow nrExit && filterAllows p.seccompAllow nrRtSigreturn)

variable {nr : U32}

/-- Every further list is taken together with the ones before. -/
theorem addFilter_tightens (p : Process) (list : SeccompList) (other : p.seccompMode ≠ .strict)
    (allowed : (p.addFilter list).seccompAllowed nr) : p.seccompAllowed nr := by
  simp only [seccompAllowed, addFilter, filterAllows, and_eq_true, BitVec.getLsbD_and]
    at allowed
  obtain ⟨inside, before, -⟩ := allowed
  cases mode : p.seccompMode with
  | off => simp [seccompAllowed, mode]
  | strict => exact absurd mode other
  | filter =>
    simp only [mode] at before
    simp only [seccompAllowed, mode, filterAllows, and_eq_true]
    exact ⟨inside, before⟩

theorem strict_tightens {p : Process} (kept : p.loosens seccompSetModeStrict 0 none = false)
    (allowed : strictAllows nr) : p.seccompAllowed nr := by
  cases mode : p.seccompMode with
  | off => simp [seccompAllowed, mode]
  | strict => simpa [seccompAllowed, mode] using allowed
  | filter =>
    simp [loosens, mode] at kept
    simp only [seccompAllowed, mode]
    simp only [strictAllows, or_eq_true, beq_iff_eq] at allowed
    obtain ((rfl | rfl) | rfl) | rfl := allowed
    · exact kept.1.1.1
    · exact kept.1.1.2
    · exact kept.1.2
    · exact kept.2

theorem seccomp_tightens {p : Process} {op flags : U32} {args : Option SeccompList}
    (kept : p.loosens op flags args = false)
    (allowed : (p.seccomp op flags args).seccompAllowed nr) :
    p.seccompAllowed nr := by
  unfold seccomp at allowed
  split at allowed
  · exact allowed
  rename_i plain
  have plain : flags = 0 := not_not.mp plain
  split at allowed
  · next strict =>
    split at allowed
    · exact allowed
    subst plain strict
    exact strict_tightens kept allowed
  · split at allowed
    · split at allowed
      · exact allowed
      split at allowed
      · exact allowed
      split at allowed
      · exact allowed
      rename_i other
      split at allowed
      · exact allowed
      · exact addFilter_tightens p _ other allowed
    · exact allowed

end Process

/-- A call to seccomp that would give a process calls back. -/
def loosens (m : Machine) : Event → Bool
  | .seccomp op flags args => m.acting.any fun i =>
      (m.table i).seccompAllowed nrSeccomp && (m.table i).loosens op flags args
  | _ => false

def Refuses (m : Machine) (pid nr : U32) : Prop :=
  ∃ i, (m.table i).alive = true ∧ (m.table i).pid = pid ∧ (m.table i).seccompAllowed nr = false

def Permits (m : Machine) (pid nr : U32) : Prop :=
  ∃ i, (m.table i).alive = true ∧ (m.table i).pid = pid ∧ (m.table i).seccompAllowed nr = true

def Note.extend (kin : List U32) : Note → List U32
  | .born child creator => if creator ∈ kin then child :: kin else kin
  | _ => kin

/-- `pid` and everybody the notes say it has created since, directly or not. -/
def kin (pid : U32) (notes : List Note) : List U32 := notes.foldl Note.extend [pid]

def Sandbox.allows (sandbox : Sandbox) (nr : U32) : Bool :=
  match sandbox.mode with
  | .strict => strictAllows nr
  | .filter => filterAllows sandbox.allow nr
  | .off => true

namespace People
variable {s : People}

/-- Nobody of `pids` who lives may make the call, and none of them is yet to be
born. -/
structure Confines (s : People) (pids : List U32) (nr : U32) : Prop where
  refused : ∀ i, (s.folk i).presence = .living → (s.folk i).pid ∈ pids →
    (s.folk i).sandbox.allows nr = false
  known : ∀ pid ∈ pids, pid.toNat < s.nextPid.toNat

variable {pids : List U32} {nr : U32}

theorem Confines.of_same {t : People} (confines : s.Confines pids nr) (next : t.nextPid = s.nextPid)
    (same : ∀ i, (t.folk i).presence = .living → (s.folk i).presence = .living ∧
      (t.folk i).pid = (s.folk i).pid ∧
      ((t.folk i).sandbox.allows nr → (s.folk i).sandbox.allows nr)) :
    t.Confines pids nr := by
  constructor
  · intro i lives mine
    obtain ⟨lived, named, tighter⟩ := same i lives
    have before := confines.refused i lived (named ▸ mine)
    cases now : (t.folk i).sandbox.allows nr with
    | false => rfl
    | true => exact absurd (tighter now) (by simp [before])
  · rw [next]
    exact confines.known

theorem Confines.set (confines : s.Confines pids nr) {i : Slot} {q : Person}
    (same : q.presence = .living → (s.folk i).presence = .living ∧
      q.pid = (s.folk i).pid ∧
      (q.sandbox.allows nr → (s.folk i).sandbox.allows nr)) :
    (s.set i q).Confines pids nr := by
  refine confines.of_same (t := s.set i q) rfl fun j lives => ?_
  by_cases here : j = i
  · subst here
    rw [set_folk_self] at lives ⊢
    exact same lives
  rw [set_folk_other s q here] at lives ⊢
  exact ⟨lives, rfl, id⟩

theorem ended_sandbox (i : Slot) (status heir : U32) (j : Slot) :
    ((s.after (.ended i status heir)).folk j).sandbox = (s.folk j).sandbox := by
  rw [ended_folk]
  unfold Person.letGo Person.orphaned
  split <;> split <;> (try split) <;> simp_all

theorem child_allows (q : Person) (pid nr : U32) :
    (q.child pid).sandbox.allows nr = q.sandbox.allows nr := by
  by_cases off : q.sandbox.mode = .off
  · simp [Person.child, Sandbox.allows, off]
  · simp [Person.child, off]

theorem Confines.born (confines : s.Confines pids nr) (numbered : s.Numbered) {i creator : Slot}
    (fair : s.Fair (.born i creator)) :
    (s.after (.born i creator)).Confines
      ((Note.born s.nextPid (s.folk creator).pid).extend pids) nr := by
  obtain ⟨absent, lives, below⟩ := fair
  have next : (s.after (.born i creator)).nextPid.toNat = s.nextPid.toNat + 1 := by
    exact Nat.mod_eq_of_lt (by simp; omega)
  have fresh : s.nextPid ∉ pids := fun mine => lt_irrefl _ (confines.known _ mine)
  have older {j : Slot} (apart : j ≠ i) : (s.after (.born i creator)).folk j = s.folk j := by
    simp [People.after, People.set, note, apart]
  have newborn : (s.after (.born i creator)).folk i = (s.folk creator).child s.nextPid := by
    simp [People.after, note]
  constructor
  · intro j alive mine
    by_cases here : j = i
    · subst here
      rw [newborn] at mine ⊢
      rw [child_allows]
      apply confines.refused creator lives
      simp only [Note.extend] at mine
      split at mine
      · assumption
      · exact absurd mine fresh
    · rw [older here] at alive mine ⊢
      apply confines.refused j alive
      simp only [Note.extend] at mine
      split at mine
      · obtain same | inside := mem_cons.mp mine
        · have low := (numbered.range j (by simp [alive])).2
          rw [same] at low
          exact absurd low (lt_irrefl _)
        · exact inside
      · exact mine
  · intro pid mine
    simp only [Note.extend] at mine
    split at mine
    · obtain rfl | inside := mem_cons.mp mine
      · omega
      have := confines.known pid inside
      omega
    · have := confines.known pid mine
      omega

/-- A deed that does not loosen anybody's sandbox confines the same people, and
those born of them. -/
theorem Confines.after (confines : s.Confines pids nr) (numbered : s.Numbered) {d : Deed}
    (fair : s.Fair d) (tight : ∀ i sandbox, d = .confined i sandbox → sandbox.allows nr →
      (s.folk i).sandbox.allows nr) :
    ∃ more, (s.after d).log = s.log ++ more ∧
      (s.after d).Confines (more.foldl Note.extend pids) nr := by
  have silent : s.log = s.log ++ [] := (append_nil _).symm
  cases d with
  | none => exact ⟨[], silent, confines⟩
  | born i creator => exact ⟨[_], rfl, confines.born numbered fair⟩
  | ended i status heir =>
    refine ⟨_, ended_log status heir fair.1, ?_⟩
    have same : (Note.ended (s.folk i).pid status :: if (s.find (s.folk i).ppid).isSome then
        [.announced (s.folk i).pid (s.folk i).ppid] else []).foldl Note.extend pids = pids := by
      split <;> rfl
    rw [same]
    apply confines.of_same (ended_nextPid i status heir)
    intro j lives
    rw [ended_presence] at lives
    rw [ended_pid, ended_sandbox]
    split at lives
    · cases lives
    · exact ⟨lives, rfl, id⟩
  | retired i =>
    have kept : (s.set i { s.folk i with presence := .ended }).Confines pids nr :=
      confines.set nofun
    exact ⟨[_], rfl, kept.refused, kept.known⟩
  | reaped i k r =>
    have kept : (s.set i {}).Confines pids nr := confines.set nofun
    exact ⟨[], silent, kept.refused, kept.known⟩
  | traced i tracer => exact ⟨[], silent, confines.set fun lives => ⟨lives, rfl, id⟩⟩
  | reported k parent => exact ⟨[_], rfl, confines.refused, confines.known⟩
  | confined i sandbox =>
    exact ⟨[], silent, confines.set fun lives => ⟨lives, rfl, tight i sandbox rfl⟩⟩

end People

variable {m : Machine}

theorem person_allows {p : Process} (present : p.state ≠ .free) (nr : U32) :
    p.person.sandbox.allows nr = p.seccompAllowed nr := by
  rw [person_present present]
  rfl

variable {pids : List U32} {nr : U32}

theorem step_confines (numbered : m.people.Numbered) (confines : m.people.Confines pids nr)
    {e : Event} (ok : (!loosens m e)) :
    ∃ more, (step m e).log = m.log ++ more ∧
      (step m e).people.Confines (more.foldl Note.extend pids) nr := by
  obtain ⟨d, ⟨fair, after⟩, expected⟩ := step_does numbered e
  have tight (i : Slot) (sandbox : Sandbox) (here : d = .confined i sandbox)
      (allowed : sandbox.allows nr) : (m.people.folk i).sandbox.allows nr := by
    subst here
    obtain ⟨acts, op, flags, args, rfl, may, rfl⟩ := expected
    obtain ⟨-, alive, -⟩ := acting_some acts
    have kept : (m.table i).loosens op flags args = false := by simpa [loosens, acts, may] using ok
    rw [people_folk, person_allows (present_of_alive alive)]
    exact Process.seccomp_tightens kept allowed
  obtain ⟨more, log, kept⟩ := confines.after numbered fair tight
  exact ⟨more, (congrArg People.log after).trans log, after ▸ kept⟩

theorem run_confines (numbered : m.people.Numbered) (confines : m.people.Confines pids nr)
    (events : List Event) (ok : everyStep (fun m e => !loosens m e) m events) :
    ∃ more, (run m events).log = m.log ++ more ∧
      (run m events).people.Confines (more.foldl Note.extend pids) nr := by
  induction events generalizing m pids with
  | nil => exact ⟨[], (append_nil _).symm, confines⟩
  | cons e rest ih =>
    obtain ⟨first, others⟩ := and_eq_true_iff.mp ok
    obtain ⟨some, log, kept⟩ := step_confines numbered confines first
    obtain ⟨more, log', kept'⟩ := ih (step_numbered numbered e) kept others
    refine ⟨some ++ more, ?_, ?_⟩
    · rw [← append_assoc, ← log]
      exact log'
    · rwa [foldl_append]

theorem confines_of_refuses (numbered : m.people.Numbered) {pid : U32} (refuses : Refuses m pid nr) :
    m.people.Confines [pid] nr := by
  obtain ⟨i, alive, rfl, refused⟩ := refuses
  have present := present_of_alive alive
  have here : (m.people.folk i).presence ≠ .absent := mt presence_absent_iff.mp present
  constructor
  · intro j lives mine
    have same : j = i := by
      apply numbered.distinct j i (by simp [lives]) here
      rw [mem_singleton.mp mine]
      exact (person_pid present).symm
    rw [same, people_folk, person_allows present, refused]
  · intro pid mine
    rw [mem_singleton.mp mine, ← person_pid present]
    exact (numbered.range i here).2

/-- A step that loosens gives its caller a call that it was refused. -/
theorem loosens_permits {e : Event} (loose : loosens m e) : ∃ pid nr,
    Refuses m pid nr ∧ Permits (step m e) pid nr ∧ (step m e).log = m.log := by
  cases e with
  | seccomp op flags args =>
    obtain ⟨i, acts, may, loose⟩ : ∃ i, m.acting = some i ∧
        (m.table i).seccompAllowed nrSeccomp ∧
        (m.table i).loosens op flags args := by
      simpa [loosens, Option.any_eq_true] using loose
    obtain ⟨-, alive, -⟩ := acting_some acts
    simp only [Process.loosens, and_eq_true, beq_iff_eq, Option.isNone_iff_eq_none] at loose
    obtain ⟨⟨⟨⟨rfl, rfl⟩, rfl⟩, filter⟩, lacks⟩ := loose
    have open_ : sandboxRefuses m i nrSeccomp = none := by simp [sandboxRefuses, may]
    have steps : step m (.seccomp seccompSetModeStrict 0 none) =
        m.setProcess i { m.table i with seccompMode := .strict } := by
      simp [step, acts, call, doSeccomp, open_, Process.seccomp]
    obtain ⟨nr, kept, refused⟩ : ∃ nr, strictAllows nr ∧
        filterAllows (m.table i).seccompAllow nr = false := by
      by_contra none_
      push Not at none_
      have every (nr : U32) (kept : strictAllows nr) :
          filterAllows (m.table i).seccompAllow nr := by
        simpa using none_ nr kept
      simp [every nrRead rfl, every nrWrite rfl, every nrExit rfl, every nrRtSigreturn rfl] at lacks
    refine ⟨(m.table i).pid, nr, ⟨i, alive, rfl, ?_⟩, ?_, ?_⟩
    · simp [Process.seccompAllowed, filter, refused]
    · rw [steps]
      refine ⟨i, ?_, ?_, ?_⟩
      · simpa [Machine.setProcess, Process.alive] using alive
      · simp [Machine.setProcess]
      · simpa [Machine.setProcess, Process.seccompAllowed] using kept
    · rw [steps]
      rfl
  | _ => cases loose

/-- In a run, a call once refused to a process stays refused to it and to everybody
it creates from then on, exactly if no process exchanges for STRICT a filter that
lacks one of read, write, exit and rt_sigreturn. -/
theorem sandbox_never_grows (events : List Event) :
    (∀ pre mid post, events = pre ++ (mid ++ post) → ∀ pid nr more, Refuses (run boot pre) pid nr →
      (run boot (pre ++ mid)).log = (run boot pre).log ++ more →
      ∀ q ∈ kin pid more, ¬ Permits (run boot (pre ++ mid)) q nr) ↔
    everyStep (fun m e => !loosens m e) boot events = true := by
  constructor
  · intro never
    apply Runs.everyStep_of_all
    rintro pre e post rfl
    by_contra loose
    obtain ⟨pid, nr, refuses, permits, log⟩ :=
      loosens_permits (m := run boot pre) (e := e) (by simpa using loose)
    have next : run boot (pre ++ [e]) = step (run boot pre) e := run_append boot pre [e]
    refine never pre [e] post rfl pid nr [] refuses ?_ pid ?_ ?_
    · rw [next, log, append_nil]
    · simp [kin]
    · rwa [next]
  · rintro ok pre mid post rfl pid nr more refuses log q mine ⟨i, alive, rfl, allowed⟩
    obtain ⟨before, rest⟩ := Runs.everyStep_append pre (mid ++ post) ok
    have numbered := run_numbered boot_numbered pre
    obtain ⟨more', log', confines⟩ := run_confines numbered (confines_of_refuses numbered refuses)
      mid (Runs.everyStep_append mid post rest).1
    rw [run_append] at log alive mine allowed
    rw [log] at log'
    obtain rfl := append_cancel_left log'
    have present := present_of_alive alive
    have refused := confines.refused i (presence_living_iff.mpr alive) (by
      rw [people_folk, person_pid present]
      exact mine)
    rw [people_folk, person_allows present, allowed] at refused
    cases refused

/-- A list with seccomp alone in it. -/
def seccompOnly : SeccompList :=
  { action := seccompRetErrno, allow := fun k => if k.val = 2 then 1#32 <<< 26 else 0 }

/-- A process keeps only seccomp for itself, and then asks for STRICT. -/
def filterRun : List Event :=
  [.create 0 true, .yield true 2, .seccomp seccompSetModeFilter 0 (some seccompOnly)]

def strictRun : List Event := filterRun ++ [.seccomp seccompSetModeStrict 0 none]

theorem strict_gives_read_back : Refuses (run boot filterRun) 3 nrRead ∧
    Permits (run boot strictRun) 3 nrRead := by
  constructor
  · exact ⟨2, by decide +kernel⟩
  · exact ⟨2, by decide +kernel⟩

end UzOS.Kernel
