import UzOS.Kernel.Frames

/-! Process groups and sessions: setpgid, setsid and the defence session_check
(security/pgid_hijack/defence/session_check). -/
namespace UzOS.Kernel

open Function Nat

/-! ## The calls -/

/-- The setpgid rule on the facts the caller looked up. -/
def setpgidRefused (callerPid callerSid targetPid targetPpid targetSid pgid : U32)
    (groupInSession : Bool) : Bool :=
  if targetPid ≠ callerPid ∧ targetPpid ≠ callerPid then true
  else if targetSid ≠ callerSid then true
  else if targetSid = targetPid then true
  else decide (pgid ≠ targetPid) && !groupInSession

variable (m : Machine) (self : Slot)

def groupExists (pgid sid : U32) : Bool :=
  (findSlot fun i => (m.table i).alive && (m.table i).pgid == pgid &&
    (m.table i).sid == sid).isSome

def defSetpgidOk (caller target : Process) (pgid : U32) : Bool :=
  !setpgidRefused caller.pid caller.sid target.pid target.ppid target.sid pgid
    (groupExists m pgid target.sid)

def defSetsidOk (caller : Process) : Bool := caller.pgid != caller.pid

def sysSetpgid (pid pgid : U32) : Machine × Int :=
  match if pid ≠ 0 then processGetByPid m pid else some self with
  | none => (m, -1)
  | some t =>
    let pgid := if pgid ≠ 0 then pgid else (m.table t).pid
    if !defSetpgidOk m (m.table self) (m.table t) pgid then (m, -1)
    else (m.setProcess t { m.table t with pgid }, 0)

def sysSetsid : Machine × Int :=
  if !defSetsidOk (m.table self) then (m, -1)
  else
    let pid := (m.table self).pid
    (m.setProcess self { m.table self with sid := pid, pgid := pid }, pid.toInt)

/-- The kernel's own step takes any change of group or session; here they are made
by the two calls. -/
def regroups : Event → Bool
  | .setPgid _ _ | .setSid => true
  | _ => false

namespace Session

inductive Event where
  | setpgid (pid pgid : U32)
  | setsid
  | other (e : Kernel.Event)

def step : Event → Machine
  | .setpgid pid pgid => m.acting.elim m fun self => (sysSetpgid m self pid pgid).1
  | .setsid => m.acting.elim m fun self => (sysSetsid m self).1
  | .other e => if regroups e then m else Kernel.step m e

/-- A caller whom setsid accepts leaves nobody in a group named after itself. -/
def leavesNoGroup : Event → Bool
  | .setsid => m.acting.all fun self => !defSetsidOk (m.table self) ||
      decide (∀ j, j ≠ self → (m.table j).alive = true →
        (m.table j).pgid ≠ (m.table self).pid)
  | _ => true

end Session

/-! ## Groups and sessions without the machinery -/

namespace Roll

/-- What a step can do to the roll. -/
inductive Change (r : Roll) : Roll → Prop where
  | born (i creator : Slot) (pid : U32) (living : (r.badge creator).living = true)
      (fresh : pid.toNat = r.nextPid) :
      Change r { r.set i ⟨true, pid, (r.badge creator).pgid, (r.badge creator).sid⟩ with
        nextPid := r.nextPid + 1 }
  | moved (t : Slot) (pgid : U32) (follower : (r.badge t).sid ≠ (r.badge t).pid)
      (within : pgid = (r.badge t).pid ∨ ∃ y, (r.badge y).living = true ∧ (r.badge y).pgid = pgid ∧
        (r.badge y).sid = (r.badge t).sid) :
      Change r (r.set t { r.badge t with pgid })
  | left (c : Slot)
      (alone : ∀ j, j ≠ c → (r.badge j).living = true → (r.badge j).pgid ≠ (r.badge c).pid) :
      Change r (r.set c { r.badge c with sid := (r.badge c).pid, pgid := (r.badge c).pid })
  | faded {r' : Roll} (fades : Fades r r') : Change r r'

/-- A group named after a living process lies in that process's session, too, and
who leads a session leads a group. -/
structure Grouped (r : Roll) : Prop where
  numbered : ∀ i, (r.badge i).living = true → (r.badge i).pid.toNat < r.nextPid ∧
    (r.badge i).pgid.toNat < r.nextPid ∧ (r.badge i).sid.toNat < r.nextPid
  unique : ∀ i j, (r.badge i).living = true → (r.badge j).living = true →
    (r.badge i).pid = (r.badge j).pid → i = j
  group : ∀ i j, (r.badge i).living = true → (r.badge j).living = true →
    (r.badge i).pgid = (r.badge j).pgid → (r.badge i).sid = (r.badge j).sid
  leader : ∀ i j, (r.badge i).living = true → (r.badge j).living = true →
    (r.badge i).pgid = (r.badge j).pid → (r.badge i).sid = (r.badge j).sid
  heads : ∀ i, (r.badge i).living = true → (r.badge i).sid = (r.badge i).pid →
    (r.badge i).pgid = (r.badge i).pid

/-- A badge that fits in with the others. -/
structure Fits (r : Roll) (i : Slot) (b : Badge) : Prop where
  numbered : b.pid.toNat < r.nextPid ∧ b.pgid.toNat < r.nextPid ∧ b.sid.toNat < r.nextPid
  unique : ∀ j, j ≠ i → (r.badge j).living = true → b.pid ≠ (r.badge j).pid
  group : ∀ j, j ≠ i → (r.badge j).living = true → b.pgid = (r.badge j).pgid →
    b.sid = (r.badge j).sid
  follows : ∀ j, j ≠ i → (r.badge j).living = true → b.pgid = (r.badge j).pid →
    b.sid = (r.badge j).sid
  leads : ∀ j, j ≠ i → (r.badge j).living = true → (r.badge j).pgid = b.pid →
    b.sid = (r.badge j).sid
  heads : b.sid = b.pid → b.pgid = b.pid

variable {r r' : Roll}

@[simp] theorem set_badge_self (i : Slot) (b : Badge) : (r.set i b).badge i = b := by simp [set]

theorem set_badge_other {i j : Slot} (other : j ≠ i) (b : Badge) :
    (r.set i b).badge j = r.badge j := by
  simp [set, other]

theorem Grouped.set (h : Grouped r) {i : Slot} {b : Badge} (fits : b.living → Fits r i b) :
    Grouped (r.set i b) := by
  constructor
  · intro j living
    by_cases here : j = i
    · subst here
      rw [set_badge_self] at living ⊢
      exact (fits living).numbered
    rw [set_badge_other here] at living ⊢
    exact h.numbered j living
  · intro j k one two same
    by_cases here : j = i <;> by_cases there : k = i
    · rw [here, there]
    · subst here
      rw [set_badge_self] at one same
      rw [set_badge_other there] at two same
      exact absurd same ((fits one).unique k there two)
    · subst there
      rw [set_badge_other here] at one same
      rw [set_badge_self] at two same
      exact absurd same.symm ((fits two).unique j here one)
    · rw [set_badge_other here] at one same
      rw [set_badge_other there] at two same
      exact h.unique j k one two same
  · intro j k one two same
    by_cases here : j = i <;> by_cases there : k = i
    · rw [here, there]
    · subst here
      rw [set_badge_self] at one same ⊢
      rw [set_badge_other there] at two same ⊢
      exact (fits one).group k there two same
    · subst there
      rw [set_badge_other here] at one same ⊢
      rw [set_badge_self] at two same ⊢
      exact ((fits two).group j here one same.symm).symm
    · rw [set_badge_other here] at one same ⊢
      rw [set_badge_other there] at two same ⊢
      exact h.group j k one two same
  · intro j k one two same
    by_cases here : j = i <;> by_cases there : k = i
    · rw [here, there]
    · subst here
      rw [set_badge_self] at one same ⊢
      rw [set_badge_other there] at two same ⊢
      exact (fits one).follows k there two same
    · subst there
      rw [set_badge_other here] at one same ⊢
      rw [set_badge_self] at two same ⊢
      exact ((fits two).leads j here one same).symm
    · rw [set_badge_other here] at one same ⊢
      rw [set_badge_other there] at two same ⊢
      exact h.leader j k one two same
  · intro j living
    by_cases here : j = i
    · subst here
      rw [set_badge_self] at living ⊢
      exact (fits living).heads
    rw [set_badge_other here] at living ⊢
    exact h.heads j living

theorem Grouped.grow (h : Grouped r) {n : Nat} (more : r.nextPid ≤ n) :
    Grouped { r with nextPid := n } where
  numbered := fun i living =>
    have ⟨pid, pgid, sid⟩ := h.numbered i living
    ⟨lt_of_lt_of_le pid more, lt_of_lt_of_le pgid more, lt_of_lt_of_le sid more⟩
  unique := h.unique
  group := h.group
  leader := h.leader
  heads := h.heads

theorem Grouped.fade (h : Grouped r) (fades : Fades r r') : Grouped r' := by
  have before {i : Slot} (living : (r'.badge i).living) : (r.badge i).living := by
    rwa [← fades.badge i living]
  constructor
  · intro i living
    rw [fades.badge i living, fades.nextPid]
    exact h.numbered i (before living)
  · intro i j one two
    rw [fades.badge i one, fades.badge j two]
    exact h.unique i j (before one) (before two)
  · intro i j one two
    rw [fades.badge i one, fades.badge j two]
    exact h.group i j (before one) (before two)
  · intro i j one two
    rw [fades.badge i one, fades.badge j two]
    exact h.leader i j (before one) (before two)
  · intro i living
    rw [fades.badge i living]
    exact h.heads i (before living)

theorem Grouped.change (h : Grouped r) (change : Change r r') : Grouped r' := by
  cases change with
  | born i creator pid living fresh =>
    apply (h.grow (le_succ r.nextPid)).set
    intro _
    have below := h.numbered creator living
    constructor
    · exact ⟨by simp [fresh], lt_succ_of_lt below.2.1, lt_succ_of_lt below.2.2⟩
    · rintro j - alive same
      have old : (r.badge j).pid.toNat < r.nextPid := (h.numbered j alive).1
      have new : (r.badge j).pid.toNat = r.nextPid := (congrArg BitVec.toNat same).symm.trans fresh
      exact absurd old (new ▸ lt_irrefl _)
    · exact fun j _ alive same => h.group creator j living alive same
    · exact fun j _ alive same => h.leader creator j living alive same
    · -- nobody is in a group named after a number not yet given out
      intro j _ alive same
      have old : (r.badge j).pgid.toNat < r.nextPid := (h.numbered j alive).2.1
      have new : (r.badge j).pgid.toNat = r.nextPid := (congrArg BitVec.toNat same).trans fresh
      exact absurd old (new ▸ lt_irrefl _)
    · intro same
      have old : (r.badge creator).sid.toNat < r.nextPid := below.2.2
      have new : (r.badge creator).sid.toNat = r.nextPid := (congrArg BitVec.toNat same).trans fresh
      exact absurd old (new ▸ lt_irrefl _)
  | moved t pgid follower within =>
    apply h.set
    intro living
    rcases within with rfl | ⟨y, alive, rfl, session⟩
    · constructor
      · exact ⟨(h.numbered t living).1, (h.numbered t living).1, (h.numbered t living).2.2⟩
      · exact fun j other there same => other (h.unique j t there living same.symm)
      · exact fun j _ there same => (h.leader j t there living same.symm).symm
      · exact fun j other there same => absurd (h.unique j t there living same.symm) other
      · exact fun j _ there same => (h.leader j t there living same).symm
      · exact fun same => absurd same follower
    · constructor
      · exact ⟨(h.numbered t living).1, (h.numbered y alive).2.1, (h.numbered t living).2.2⟩
      · exact fun j other there same => other (h.unique j t there living same.symm)
      · exact fun j _ there same => session.symm.trans (h.group y j alive there same)
      · exact fun j _ there same => session.symm.trans (h.leader y j alive there same)
      · exact fun j _ there same => (h.leader j t there living same).symm
      · exact fun same => absurd same follower
  | left c alone =>
    apply h.set
    intro living
    constructor
    · exact ⟨(h.numbered c living).1, (h.numbered c living).1, (h.numbered c living).1⟩
    · exact fun j other there same => other (h.unique j c there living same.symm)
    · exact fun j other there same => absurd same.symm (alone j other there)
    · exact fun j other there same => absurd (h.unique j c there living same.symm) other
    · exact fun j other there same => absurd same (alone j other there)
    · exact fun _ => rfl
  | faded fades => exact h.fade fades

end Roll

/-! ## Nothing else regroups -/

variable {m : Machine}

theorem Machine.Fades.faded {n : Machine} (fades : m.Fades n) : m.roll.Change n.roll :=
  .faded fades.roll

theorem reap_roll (m : Machine) (i : Slot) : m.roll.Fades (reap m i).roll := by
  unfold reap
  dsimp only
  split
  · let added := exitlogAdd (sigqueueRelease m (m.table i).pid) (m.table i)
    have frees : added.roll.Fades (added.setProcess i ((m.table i).withState .free)).roll := by
      apply Machine.roll_set_fades
      intro alive
      simp [Process.alive, Process.withState] at alive
    exact frees
  · exact .refl _

theorem roll_setProcess (m : Machine) (i : Slot) (p : Process) :
    (m.setProcess i p).roll = m.roll.set i p.badge := by
  simp only [Machine.roll, Machine.setProcess, Roll.set, Roll.mk.injEq, and_true]
  exact comp_update Process.badge m.table i p

theorem badge_newborn (c : Process) (pid uid : U32) :
    (Process.newborn (some c) pid uid).badge = ⟨true, pid, c.pgid, c.sid⟩ := by
  by_cases off : c.seccompMode = .off <;>
    simp [Process.newborn, Process.badge, Process.alive, off]

theorem processCreate_roll {creator : Slot} (acts : m.acting = some creator) (uid : U32)
    (stackOk : Bool) : m.roll.Change (processCreate m uid stackOk).roll := by
  obtain ⟨current, alive, -, -⟩ := acting_some acts
  unfold processCreate
  split
  · exact .faded (.refl _)
  rename_i bounded
  split
  · exact .faded (.refl _)
  split
  · exact .faded (.refl _)
  split
  · exact .faded (.refl _)
  rename_i i _
  split
  · have fails : m.Fades (m.setProcess i {}) := .set fun alive => by simp [Process.alive] at alive
    exact fails.faded
  have fits : (m.nextPid + 1).toNat = m.nextPid.toNat + 1 := by
    have below : m.nextPid < pidLimit := by
      have both : m.nextPid ≠ 0 ∧ m.nextPid < pidLimit := by simpa [defPidBoundsCheck] using bounded
      exact both.2
    exact mod_eq_of_lt (by have := BitVec.lt_def.mp below; simp; omega)
  have caller : m.currentProcess = some (m.table creator) := by
    simp [Machine.currentProcess, current]
  have born := Roll.Change.born (r := m.roll) i creator m.nextPid alive rfl
  have result : ({ m.setProcess i (.newborn m.currentProcess m.nextPid uid) with
      nextPid := m.nextPid + 1 } : Machine).roll =
      { m.roll.set i ⟨true, m.nextPid, (m.roll.badge creator).pgid,
          (m.roll.badge creator).sid⟩ with nextPid := m.roll.nextPid + 1 } := by
    have badges := congrArg Roll.badge
      (roll_setProcess m i (.newborn m.currentProcess m.nextPid uid))
    rw [caller, badge_newborn] at badges
    rw [caller]
    exact (Roll.mk.injEq _ _ _ _).mpr ⟨badges, fits⟩
  rw [← result] at born
  exact born

theorem groupExists_some {pgid sid : U32} (here : groupExists m pgid sid) :
    ∃ y, (m.table y).alive ∧ (m.table y).pgid = pgid ∧ (m.table y).sid = sid := by
  obtain ⟨y, found⟩ := Option.isSome_iff_exists.mp here
  have passes := findSlot_some found
  simp only [Bool.and_eq_true, beq_iff_eq] at passes
  exact ⟨y, passes.1.1, passes.1.2, passes.2⟩

theorem sysSetpgid_roll (self : Slot) (pid pgid : U32) :
    m.roll.Change (sysSetpgid m self pid pgid).1.roll := by
  unfold sysSetpgid
  split
  · exact .faded (.refl _)
  rename_i t _
  dsimp only
  generalize (if pgid ≠ 0 then pgid else (m.table t).pid) = wanted
  split
  · exact .faded (.refl _)
  rename_i allowed
  rw [roll_setProcess]
  have follower : (m.table t).sid ≠ (m.table t).pid := by
    intro leads
    simp [defSetpgidOk, setpgidRefused, leads] at allowed
  apply Roll.Change.moved t wanted follower
  by_cases own : wanted = (m.table t).pid
  · exact .inl own
  right
  apply groupExists_some
  have named : (m.roll.badge t).sid = (m.table t).sid := rfl
  rw [named]
  by_contra none
  simp [defSetpgidOk, setpgidRefused, own, none] at allowed

theorem sysSetsid_roll {self : Slot} (alone : defSetsidOk (m.table self) →
    ∀ j, j ≠ self → (m.table j).alive → (m.table j).pgid ≠ (m.table self).pid) :
    m.roll.Change (sysSetsid m self).1.roll := by
  unfold sysSetsid
  split
  · exact .faded (.refl _)
  rename_i accepted
  rw [roll_setProcess]
  exact .left self (alone (by simpa using accepted))

variable (m : Machine) (self : Slot)

theorem sysWait4_roll (which : Selector) : (sysWait4 m self which).roll = m.roll := by
  unfold sysWait4
  split
  · rfl
  · split <;> rfl

theorem step_roll {e : Event} (keeps : regroups e = false) : m.roll.Change (step m e).roll := by
  cases e with
  | create uid stackOk =>
    simp only [step]
    split
    · next acts => exact processCreate_roll acts uid stackOk
    · exact .faded (.refl _)
  | reapSlot i => exact .faded (reap_roll m i)
  | wait4 which =>
    simp only [step]
    split
    · rw [call, sysWait4_roll]
      exact .faded (.refl _)
    · exact .faded (.refl _)
  | setPgid | setSid => cases keeps
  | _ => exact (step_fades m rfl).faded

namespace Session

abbrev run (events : List Event) : Machine := Runs.run step m events

abbrev everyStep (ok : Machine → Event → Bool) (m : Machine) (events : List Event) : Bool :=
  Runs.everyStep step ok m events

theorem step_change (e : Event) (ok : leavesNoGroup m e) : m.roll.Change (step m e).roll := by
  cases e with
  | setpgid pid pgid =>
    cases acts : m.acting with
    | none => simpa [step, acts] using Roll.Change.faded (.refl _)
    | some self => simpa [step, acts] using sysSetpgid_roll self pid pgid
  | setsid =>
    cases acts : m.acting with
    | none => simpa [step, acts] using Roll.Change.faded (.refl _)
    | some self =>
      simp only [leavesNoGroup, acts, Option.all_some, Bool.or_eq_true, decide_eq_true_eq] at ok
      have alone (accepted : defSetsidOk (m.table self)) :=
        ok.resolve_left (by simp [accepted])
      simpa [step, acts] using sysSetsid_roll alone
  | other e =>
    simp only [step]
    split
    · exact .faded (.refl _)
    · next keeps => exact step_roll m (Bool.eq_false_iff.mpr keeps)

def GroupsInSession : Prop :=
  ∀ i j, (m.table i).alive = true → (m.table j).alive = true →
    (m.table i).pgid = (m.table j).pgid → (m.table i).sid = (m.table j).sid

variable {m}

/-- The caller takes its old group's name along, and who stays in that group is left
in the old session. -/
theorem setsid_splits (grouped : m.roll.Grouped) {e : Event} (bad : leavesNoGroup m e = false) :
    ¬GroupsInSession (step m e) := by
  cases e with
  | setpgid | other => cases bad
  | setsid =>
    obtain ⟨self, acts, accepted, j, other, lives, stays⟩ : ∃ self, m.acting = some self ∧
        defSetsidOk (m.table self) ∧ ∃ j, j ≠ self ∧ (m.table j).alive ∧
          (m.table j).pgid = (m.table self).pid := by
      cases acts : m.acting with
      | none => simp [leavesNoGroup, acts] at bad
      | some self => simpa [leavesNoGroup, acts] using bad
    have alive : (m.table self).alive := (acting_some acts).2.1
    have before : (m.table j).sid = (m.table self).sid := grouped.leader j self lives alive stays
    intro whole
    have moved : step m .setsid = m.setProcess self { m.table self with
        sid := (m.table self).pid, pgid := (m.table self).pid } := by
      simp [step, acts, sysSetsid, accepted]
    have after := whole j self
    rw [moved] at after
    simp only [Machine.setProcess, update_of_ne other, update_self] at after
    have leads : (m.table self).sid = (m.table self).pid := before.symm.trans (after lives alive stays)
    have leader : (m.table self).pgid = (m.table self).pid := grouped.heads self alive leads
    simp [defSetsidOk, leader] at accepted

theorem whole_run_leaves (grouped : m.roll.Grouped) (events : List Event)
    (whole : ∀ pre post, events = pre ++ post → GroupsInSession (run m pre)) :
    everyStep leavesNoGroup m events := by
  induction events generalizing m with
  | nil => rfl
  | cons e rest ih =>
    have ok : leavesNoGroup m e := by
      by_contra bad
      exact setsid_splits grouped (Bool.eq_false_iff.mpr bad) (whole [e] rest rfl)
    simp only [Runs.everyStep, ok]
    apply ih (grouped.change (step_change m e ok))
    intro pre post split
    exact whole (e :: pre) post (by rw [split]; rfl)

theorem boot_grouped : boot.roll.Grouped := by
  constructor
  all_goals decide +kernel

/-- Groups stay in their sessions exactly along the runs in which no caller of setsid
leaves a group behind that is named after itself. -/
theorem groups_stay_in_session (events : List Event) :
    everyStep leavesNoGroup boot events = true ↔
      ∀ pre post, events = pre ++ post → GroupsInSession (run boot pre) := by
  constructor
  · rintro ok pre post rfl
    have grouped : (run boot pre).roll.Grouped :=
      Runs.run_keeps (P := fun m : Machine => m.roll.Grouped)
        (fun m e grouped ok => grouped.change (step_change m e ok)) boot_grouped pre
        (Runs.everyStep_append pre post ok).1
    exact grouped.group
  · exact whole_run_leaves boot_grouped events

/-- A process makes itself a group, has a child there, moves back to its parent's
group, and starts a session. -/
def strayLeader : List Event :=
  [.other (.create 0 true), .other (.yield true 2), .setpgid 0 0, .other (.create 0 true),
    .setpgid 0 2, .setsid]

theorem stray_leader_splits_group :
    let m := run boot strayLeader
    ((m.table 2).alive = true ∧ (m.table 2).pgid = 3 ∧ (m.table 2).sid = 3) ∧
      (m.table 3).alive = true ∧ (m.table 3).pgid = 3 ∧ (m.table 3).sid = 2 := by
  decide +kernel

end Session

end UzOS.Kernel
