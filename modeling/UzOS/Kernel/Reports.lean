import UzOS.Kernel.Exitlog

/-! wait4 reports each child once: along every run the records hold the queue of
ends, and no pid comes back. -/
namespace UzOS.Kernel

open BitVec List Runs Option

variable {m : Machine}

/-! ## Steps that leave the log alone -/

theorem processCreate_sameEnds (m : Machine) (uid : U32) (stackOk : Bool) :
    m.SameEnds (processCreate m uid stackOk) := by
  have born (n : Machine) (child creator : U32) : (n.note (.born child creator)).reports = n.reports := by
    simp [Machine.reports, Machine.note, Note.report]
  unfold processCreate
  repeat' split
  all_goals first | exact ⟨rfl, rfl, rfl⟩ | exact ⟨rfl, rfl, born _ _ _⟩

/-- Reaping and wait4 apart. -/
theorem step_sameEnds (m : Machine) {e : Event} (unreaped : ∀ i, e ≠ .reapSlot i)
    (unasked : ∀ which, e ≠ .wait4 which) : m.SameEnds (step m e) := by
  have created (uid : U32) (stackOk : Bool) := processCreate_sameEnds m uid stackOk
  cases e with
  | reapSlot i => exact absurd rfl (unreaped i)
  | wait4 which => exact absurd rfl (unasked which)
  | create uid stackOk =>
    simp only [step]
    split
    · exact created uid stackOk
    · exact ⟨rfl, rfl, rfl⟩
  | setPgid | setSid =>
    simp only [step]
    split <;> exact ⟨rfl, rfl, rfl⟩
  | _ => exact (step_fades m rfl).toSameEnds

/-! ## The records hold the queue -/

namespace Wait

open Stamped (Holds)

/-- The register and the log of ends agree. -/
structure Represents (r : Register) (l : ExitLog) : Prop where
  numbered : r.machine.people.Numbered
  reaped : l.reaped = r.reaped
  gone : ∀ e ∈ r.reaped, r.machine.people.Gone e.pid
  counter : r.machine.nextRecord.toNat = r.reaped.length
  held : ∃ queue : List ExitRecord, Holds ExitRecord.used ExitRecord.order r.machine.records queue ∧
    l.held = queue.map ExitRecord.exit ∧ ∀ x ∈ queue, x.order < r.machine.nextRecord
  reports : r.machine.reports = l.reported.map Exit.report

variable {r : Register} {l : ExitLog}

/-- Pids do not come back, so there are fewer ends than pids. -/
theorem Represents.few (same : Represents r l) (sound : l.Sound) :
    r.reaped.length ≤ r.machine.people.nextPid.toNat := by
  have nodup : ((r.reaped.map Exit.pid).map BitVec.toNat).Nodup := by
    rw [← same.reaped]
    exact sound.once.map fun _ _ eq => eq_of_toNat_eq eq
  have below : (r.reaped.map Exit.pid).map BitVec.toNat ⊆
      List.range r.machine.people.nextPid.toNat := by
    intro n there
    obtain ⟨pid, listed, rfl⟩ := List.mem_map.mp there
    obtain ⟨e, known, rfl⟩ := List.mem_map.mp listed
    exact mem_range.mpr (same.gone e known).1
  simpa using (nodup.subperm below).length_le

theorem Represents.nextRecord_succ (same : Represents r l) (sound : l.Sound) :
    (r.machine.nextRecord + 1).toNat = r.machine.nextRecord.toNat + 1 := by
  have few := same.few sound
  have limit := same.numbered.limit
  have pids : pidLimit.toNat = 4294967040 := rfl
  rw [toNat_add, Nat.mod_eq_of_lt]
  · rfl
  · rw [same.counter]
    simp
    omega

/-- exitlog_add appends, in place of the oldest when the log is full. -/
theorem exitlogAdd_holds {queue : List ExitRecord} (p : Process)
    (holds : Holds ExitRecord.used ExitRecord.order m.records queue)
    (older : ∀ x ∈ queue, x.order < m.nextRecord) :
    ∃ queue', Holds ExitRecord.used ExitRecord.order (exitlogAdd m p).records queue' ∧
      queue'.map ExitRecord.exit = ExitLog.makeRoom (queue.map ExitRecord.exit) ++ [p.exit] ∧
      ∀ x ∈ queue', x ∈ queue ∨ x.order = m.nextRecord := by
  have last : ∀ x ∈ queue, x.order < (exitRecord m p).order := older
  simp only [exitlogAdd, exitlogSlot]
  cases free : findSlot fun k => !(m.records k).used with
  | some k =>
    have unused : (m.records k).used = false := by simpa using findSlot_some free
    refine ⟨_, holds.add unused rfl last, ?_, ?_⟩
    · rw [ExitLog.makeRoom, if_pos]
      · simp [exitRecord, ExitRecord.exit, Process.exit]
      · simpa using holds.not_full unused
    · intro x there
      obtain old | new := mem_append.mp there
      · exact .inl old
      · exact .inr (mem_singleton.mp new ▸ rfl)
  | none =>
    have all (k : Fin exitlogSize) : (m.records k).used := by
      simpa using findSlot_none free k
    have full := holds.full all
    obtain ⟨k, oldest⟩ : ∃ k, oldestSlot (fun _ => true) (fun k => (m.records k).order) = some k := by
      cases oldest : oldestSlot (fun _ => true) (fun k => (m.records k).order) with
      | none => exact absurd (oldestSlot_none oldest 0) (by simp)
      | some k => exact ⟨k, rfl⟩
    simp only [oldest, getD_some]
    refine ⟨_, holds.replace (by simpa only [all] using oldest) rfl last, ?_, ?_⟩
    · rw [ExitLog.makeRoom, if_neg (by simp [full])]
      simp [exitRecord, ExitRecord.exit, Process.exit]
    · intro x there
      obtain old | new := mem_append.mp there
      · exact .inl (mem_of_mem_tail old)
      · exact .inr (mem_singleton.mp new ▸ rfl)

theorem reap_represents (same : Represents r l) (sound : l.Sound) {i : Slot}
    (dead : (r.machine.table i).state = .zombie ∧ r.machine.current ≠ some i) :
    ∃ l', l.Change l' ∧
      Represents ⟨reap r.machine i, r.reaped ++ [(r.machine.table i).exit]⟩ l' := by
  obtain ⟨queue, holds, held, older⟩ := same.held
  obtain ⟨queue', holds', held', order⟩ := exitlogAdd_holds
    (m := sigqueueRelease r.machine (r.machine.table i).pid) (r.machine.table i) holds older
  have ended : (r.machine.table i).state ≠ .free := by simp [dead.1]
  have present : (r.machine.people.folk i).presence ≠ .absent := presence_absent_iff.not.mpr ended
  have pid : (r.machine.people.folk i).pid = (r.machine.table i).pid := person_pid ended
  have reaped : reap r.machine i = (exitlogAdd (sigqueueRelease r.machine (r.machine.table i).pid)
      (r.machine.table i)).setProcess i ((r.machine.table i).withState .free) := by
    rw [reap, if_pos dead]
  have people : (reap r.machine i).people.folk = (r.machine.people.set i {}).folk := by
    rw [reaped, people_setProcess]
    rfl
  have nextRecord : (reap r.machine i).nextRecord = r.machine.nextRecord + 1 := by
    rw [reaped]
    rfl
  have next := same.nextRecord_succ sound
  have fresh : ∀ x ∈ l.reaped, x.pid ≠ (r.machine.table i).exit.pid := by
    intro x known back
    exact (same.gone x (same.reaped ▸ known)).2 i present (pid.trans back.symm)
  refine ⟨_, .reaped (r.machine.table i).exit fresh, ?_⟩
  constructor
  · exact step_numbered same.numbered (.reapSlot i)
  · exact congrArg (· ++ _) same.reaped
  · intro e there
    obtain old | new := mem_append.mp there
    · exact step_gone same.numbered (same.gone e old) (.reapSlot i)
    rw [mem_singleton.mp new]
    have nextPid : (reap r.machine i).people.nextPid = r.machine.people.nextPid := by
      rw [reaped]
      rfl
    refine ⟨?_, fun j here => ?_⟩
    · have below := (same.numbered.range i present).2
      rw [pid] at below
      rw [nextPid]
      exact below
    · rw [people] at here ⊢
      have other : j ≠ i := by
        rintro rfl
        simp at here
      rw [People.set_folk_other _ _ other] at here ⊢
      exact fun back => other (same.numbered.distinct j i here present (back.trans pid.symm))
  · rw [nextRecord, next, same.counter, length_append, length_singleton]
  · refine ⟨queue', ?_, ?_, fun x there => ?_⟩
    · rw [reaped]
      exact holds'
    · rw [held', held]
    · rw [nextRecord, lt_def, next]
      obtain old | new := order x there
      · exact Nat.lt_succ_of_lt (lt_def.mp (older x old))
      rw [new]
      exact Nat.lt_succ_self _
  · rw [reaped]
    exact same.reports

/-! ## What a call takes -/

/-- The end is one of a child of `parent` that the selector picks. -/
def asksFor (parent : U32) (which : Selector) (e : Exit) : Bool :=
  e.ppid == parent && which.chooses e

theorem exitlogTake_eq (m : Machine) (parent : U32) (which : Selector) :
    exitlogTake m parent which =
      oldestSlot (fun k => (m.records k).used && asksFor parent which (m.records k).exit)
        fun k => (m.records k).order := by
  simp only [exitlogTake, Bool.and_assoc]
  rfl

section
variable (same : Represents r l)
include same

/-- exitlog_take finds the first of the ends on record that the call asks for. -/
theorem Represents.take (parent : U32) (which : Selector) :
    (exitlogTake r.machine parent which).map (fun k => (r.machine.records k).exit) =
      l.held.find? (asksFor parent which) := by
  obtain ⟨queue, holds, held, -⟩ := same.held
  have oldest := holds.oldest fun x => asksFor parent which x.exit
  have found := congrArg (Option.map ExitRecord.exit) oldest
  rw [Option.map_map, ← exitlogTake_eq] at found
  rw [held, List.find?_map]
  exact found

theorem wait4Round_represents (self : Slot) (which : Selector)
    (options : U32) : ∃ l', l.Change l' ∧
      Represents { r with machine := (wait4Round r.machine self which options).1 } l' := by
  have take := same.take (r.machine.table self).pid which
  unfold wait4Round
  cases taken : exitlogTake r.machine (r.machine.table self).pid which with
  | none => exact ⟨l, .same, same⟩
  | some k =>
    obtain ⟨queue, holds, held, older⟩ := same.held
    rw [taken] at take
    have first : l.held.find? (asksFor (r.machine.table self).pid which) =
      some (r.machine.records k).exit := take.symm
    rw [exitlogTake_eq] at taken
    have own : (r.machine.records k).ppid = (r.machine.table self).pid := by
      have asked := List.find?_some first
      simp only [asksFor, Bool.and_eq_true, beq_iff_eq] at asked
      exact asked.1
    refine ⟨_, .reported _ _ first, ?_⟩
    constructor
    · exact ⟨same.numbered.limit, same.numbered.range, same.numbered.distinct, same.numbered.older⟩
    · exact same.reaped
    · exact same.gone
    · exact same.counter
    · refine ⟨_, holds.take (fun x => asksFor _ which x.exit) taken rfl, ?_, ?_⟩
      · rw [held, eraseP_map]
        rfl
      · exact fun x there => older x (mem_of_mem_eraseP there)
    · have more : (r.machine.note (.reported (r.machine.records k).pid
          (r.machine.table self).pid (r.machine.records k).status)).reports =
          r.machine.reports ++ [(r.machine.records k).exit.report] := by
        simp [Machine.reports, Machine.note, Note.report, Exit.report, ExitRecord.exit, own]
      rw [map_append, ← same.reports]
      exact more

/-! ## Whole runs -/

omit same in
theorem sysWait4_eq (m : Machine) (self : Slot) (which : Selector) (options : U32) :
    sysWait4 m self which =
      if !which.allowed m self then m else (wait4Round m self which options).1 := by
  unfold sysWait4 wait4Round exitlogTake
  split
  · rfl
  split
  · next none => rw [none]
  · next some => rw [some]

theorem Represents.of_sameEnds {m : Machine}
    (ends : r.machine.SameEnds m) (numbered : m.people.Numbered)
    (gone : ∀ e ∈ r.reaped, m.people.Gone e.pid) : Represents { r with machine := m } l where
  numbered := numbered
  reaped := same.reaped
  gone := gone
  counter := ends.nextRecord ▸ same.counter
  held := by
    simp only [ends.records, ends.nextRecord]
    exact same.held
  reports := ends.reports.trans same.reports

theorem kernel_represents (sound : l.Sound) (e : Kernel.Event) :
    ∃ l', l.Change l' ∧ Represents (step r (.other e)) l' := by
  have other (unreaped : ∀ i, e ≠ .reapSlot i) (unasked : ∀ which, e ≠ .wait4 which) :
      Represents { r with machine := Kernel.step r.machine e } l :=
    same.of_sameEnds (step_sameEnds r.machine unreaped unasked)
      (step_numbered same.numbered e) fun x known => step_gone same.numbered (same.gone x known) e
  cases e with
  | reapSlot i =>
    by_cases dead : (r.machine.table i).state = .zombie ∧ r.machine.current ≠ some i
    · simp only [step, reapedBy, if_pos dead]
      exact reap_represents same sound dead
    simp only [step, reapedBy, if_neg dead, Kernel.step, reap, append_nil]
    exact ⟨l, .same, same⟩
  | wait4 which =>
    simp only [step, reapedBy, Kernel.step, append_nil]
    split
    · next self _ =>
      rw [call, sysWait4_eq r.machine self which 0]
      split
      · exact ⟨l, .same, same⟩
      · exact wait4Round_represents same self which 0
    · exact ⟨l, .same, same⟩
  | _ =>
    simp only [step, reapedBy, append_nil]
    exact ⟨l, .same, other (by simp) (by simp)⟩

theorem step_represents (sound : l.Sound) (e : Event) :
    ∃ l', l.Change l' ∧ Represents (step r e) l' := by
  cases e with
  | other e => exact kernel_represents same sound e
  | wait4 pid options again =>
    cases acts : r.machine.acting with
    | none =>
      simp only [step, acts]
      exact ⟨l, .same, same⟩
    | some self =>
      simp only [step, acts, Option.elim, wait4]
      repeat' split
      all_goals first | exact ⟨l, .same, same⟩ | exact wait4Round_represents same self _ options

omit same in
theorem start_represents : Represents start {} where
  numbered := boot_numbered
  reaped := rfl
  gone := by simp [start]
  counter := by decide +kernel
  held := by
    have empty : ∀ k, (boot.records k).used = false := by decide +kernel
    exact ⟨[], Stamped.holds_empty empty, rfl, by simp⟩
  reports := by decide +kernel

omit same in
theorem empty_sound : ({} : ExitLog).Sound := ⟨by simp, by simp, by simp, by simp⟩

omit same in
theorem run_represents (events : List Event) : ∃ l, Represents (run start events) l ∧ l.Sound := by
  apply run_invariant (P := fun r => ∃ l, Represents r l ∧ l.Sound)
  · rintro r e ⟨l, same, sound⟩
    obtain ⟨l', change, same'⟩ := step_represents same sound e
    exact ⟨l', same', sound.change change⟩
  · exact ⟨{}, start_represents, empty_sound⟩

theorem Represents.unreported_eq (sound : l.Sound) : r.unreported = l.unreported := by
  unfold Register.unreported ExitLog.unreported
  rw [same.reaped]
  apply filter_congr
  intro e known
  have told : e.pid ∈ r.machine.reports.map Prod.fst ↔ e ∈ l.reported := by
    rw [same.reports, List.map_map, List.mem_map]
    constructor
    · rintro ⟨x, there, same_pid⟩
      rwa [← sound.distinct (sound.own x there).1 (same.reaped ▸ known) same_pid]
    · exact fun there => ⟨e, there, rfl⟩
  simp only [contains_eq_mem, told]

omit same in
/-- While the log never has to give one up, it has all that were not reported. -/
theorem run_complete (events : List Event)
    (roomy : ∀ pre post, events = pre ++ post → (run start pre).unreported.length ≤ exitlogSize) :
    ∃ l, Represents (run start events) l ∧ l.Sound ∧ l.Complete := by
  have all : Runs.everyStep step
      (fun r e => decide ((step r e).unreported.length ≤ exitlogSize)) start events := by
    apply everyStep_of_all
    rintro pre e post rfl
    apply decide_eq_true
    have room := roomy (pre ++ [e]) post (by simp)
    rwa [run, Runs.run_append] at room
  refine run_keeps (P := fun r => ∃ l, Represents r l ∧ l.Sound ∧ l.Complete) ?_ ?_ events all
  · rintro r e ⟨l, same, sound, complete⟩ ok
    obtain ⟨l', change, same'⟩ := step_represents same sound e
    have sound' := sound.change change
    refine ⟨l', same', sound', complete.change sound change ?_⟩
    rw [← same'.unreported_eq sound']
    exact of_decide_eq_true ok
  · exact ⟨{}, start_represents, empty_sound, by simp [ExitLog.Complete]⟩

/-! ## What the caller is told -/

theorem Represents.holds_iff (e : Exit) : r.machine.holds e ↔ e ∈ l.held := by
  obtain ⟨queue, holds, held, -⟩ := same.held
  rw [held, List.mem_map]
  simp only [holds.mem]
  constructor
  · intro found
    obtain ⟨k, found⟩ := isSome_iff_exists.mp found
    have passes := findSlot_some found
    simp only [Bool.and_eq_true, decide_eq_true_eq] at passes
    exact ⟨_, ⟨k, passes.1, rfl⟩, passes.2⟩
  · rintro ⟨_, ⟨k, used, rfl⟩, rfl⟩
    cases found : findSlot fun j =>
        (r.machine.records j).used && decide ((r.machine.records j).exit =
          (r.machine.records k).exit) with
    | none => simpa [used] using findSlot_none found k
    | some j => exact isSome_iff_exists.mpr ⟨j, found⟩

theorem Represents.held_eq (sound : l.Sound) : l.held = r.reaped.filter r.machine.holds := by
  rw [← same.reaped]
  exact sound.held_eq_filter fun e _ => same.holds_iff e

/-- Whoever waits for a child by its pid may, while its end is on record. -/
theorem Represents.allowed (sound : l.Sound) {self : Slot} {which : Selector}
    (alive : (r.machine.table self).alive) {e : Exit} (there : e ∈ l.held)
    (asked : asksFor (r.machine.table self).pid which e) :
    which.allowed r.machine self := by
  simp only [asksFor] at asked
  cases which with
  | any | group => rfl
  | child pid =>
    obtain ⟨parent, chosen⟩ : e.ppid = (r.machine.table self).pid ∧ e.pid = pid := by
      simpa [Selector.chooses] using asked
    have known : e ∈ r.reaped := same.reaped ▸ sound.kept.mem there
    have left : processGetByPid r.machine pid = none := by
      rw [processGetByPid_people]
      cases found : r.machine.people.find pid with
      | none => rfl
      | some i =>
        obtain ⟨present, named⟩ := People.find_some found
        exact absurd (named.trans chosen.symm) ((same.gone e known).2 i present)
    have present := present_of_alive alive
    have positive : (r.machine.table self).pid ≠ 0 := by
      have range := (same.numbered.range self (presence_absent_iff.not.mpr present)).1
      rw [people_folk, person_pid present] at range
      rintro zero
      simp [zero] at range
    obtain ⟨queue, holds, held, -⟩ := same.held
    have recorded : (findSlot fun k => (r.machine.records k).used &&
        (r.machine.records k).pid == pid).map (fun k => (r.machine.records k).ppid) =
          some (r.machine.table self).pid := by
      cases found : findSlot fun k => (r.machine.records k).used &&
          (r.machine.records k).pid == pid with
      | none =>
        rw [held, List.mem_map] at there
        obtain ⟨x, listed, rfl⟩ := there
        obtain ⟨k, used, rfl⟩ := holds.mem.mp listed
        have fails := findSlot_none found k
        rw [used, show (r.machine.records k).pid = pid from chosen] at fails
        simp at fails
      | some k =>
        have passes := findSlot_some found
        simp only [Bool.and_eq_true, beq_iff_eq] at passes
        have listed : (r.machine.records k).exit ∈ l.held := by
          rw [held]
          exact List.mem_map_of_mem (holds.mem.mpr ⟨k, passes.1, rfl⟩)
        have same_end : (r.machine.records k).exit = e :=
          sound.distinct (sound.kept.mem listed) (sound.kept.mem there) (passes.2.trans chosen.symm)
        rw [← parent, ← same_end]
        rfl
    simp only [Selector.allowed, waitAllowed, left, recorded, getD_some, beq_self_eq_true,
      Bool.and_true, bne_iff_ne]
    exact positive

end

/-- The table of exit records refines a log of ends: each step is one of the log. -/
theorem records_refine_log (events : List Event) (e : Event) :
    ∃ l l', Represents (run start events) l ∧ l.Sound ∧ ExitLog.Change l l' ∧
      Represents (step (run start events) e) l' := by
  obtain ⟨l, same, sound⟩ := run_represents events
  obtain ⟨l', change, after⟩ := step_represents same sound e
  exact ⟨l, l', same, sound, change, after⟩

variable {self : Slot}

theorem wait4Round_child {which : Selector} {options child status : U32} :
    (wait4Round m self which options).2 = .child child status ↔
      ∃ k, exitlogTake m (m.table self).pid which = some k ∧
        (m.records k).pid = child ∧ (m.records k).status = status := by
  unfold wait4Round
  cases exitlogTake m (m.table self).pid which with
  | some k => simp
  | none =>
    simp only
    repeat' split
    all_goals simp

/-- A call reports only what a round of its loop takes. -/
theorem wait4_child {pid options child status : U32} {again : Bool}
    (told : (wait4 m self pid options again).2 = .child child status) :
    (wait4Round m self (.ofPid pid (m.table self).pgid) options).2 = .child child status := by
  unfold wait4 at told
  dsimp only at told
  split at told
  · exact told
  split at told
  · cases told
  split at told
  · cases told
  · exact told

/-- And a call with good options that may wait gets to its round. -/
theorem wait4_round {pid options : U32} (again : Bool) (valid : options &&& ~~~wnohang = 0)
    (allowed : (Selector.ofPid pid (m.table self).pgid).allowed m self) :
    wait4 m self pid options again =
      wait4Round m self (.ofPid pid (m.table self).pgid) options := by
  simp only [wait4, valid, allowed]
  cases again <;> rfl

/-- Each ended process is reported at most once, to the process that was its parent
when it was reaped, with the status it had then. A call reports the first reaped of
the ends on record that it asks for, and as long as the log is large enough for all
that were not reported, no call passes over one of its own. -/
theorem wait4_reports_once (events : List Event) :
    let r := run start events
    ((r.reaped.map Exit.pid).Nodup ∧ (r.machine.reports.map Prod.fst).Nodup ∧
      ∀ x ∈ r.machine.reports, ∃ e ∈ r.reaped, x = (e.pid, e.ppid, e.status)) ∧
    (∀ self pid options again child status,
      (wait4 r.machine self pid options again).2 = .child child status →
      ∃ e, (r.reaped.filter r.machine.holds).find? (r.machine.awaits self pid) = some e ∧
        e.pid = child ∧ e.status = status) ∧
    ((∀ pre post, events = pre ++ post → (run start pre).unreported.length ≤ exitlogSize) →
      ∀ self pid options again, r.machine.acting = some self → options &&& ~~~wnohang = 0 →
      (∃ e ∈ r.unreported, r.machine.awaits self pid e = true) →
      ∃ e, r.unreported.find? (r.machine.awaits self pid) = some e ∧
        (wait4 r.machine self pid options again).2 = .child e.pid e.status) := by
  intro r
  obtain ⟨l, same, sound⟩ : ∃ l, Represents r l ∧ l.Sound := run_represents events
  refine ⟨⟨?_, ?_, ?_⟩, ?_, ?_⟩
  · rw [← same.reaped]
    exact sound.once
  · rw [same.reports, List.map_map]
    apply List.Nodup.map_on _ sound.single
    exact fun x one y two => sound.distinct (sound.own x one).1 (sound.own y two).1
  · intro x told
    rw [same.reports] at told
    obtain ⟨e, there, rfl⟩ := List.mem_map.mp told
    exact ⟨e, same.reaped ▸ (sound.own e there).1, rfl⟩
  · intro self pid options again child status told
    obtain ⟨k, taken, pid_eq, status_eq⟩ := wait4Round_child.mp (wait4_child told)
    have first := same.take (r.machine.table self).pid (.ofPid pid (r.machine.table self).pgid)
    rw [taken, same.held_eq sound] at first
    exact ⟨(r.machine.records k).exit, first.symm, pid_eq, status_eq⟩
  · rintro roomy self pid options again acts valid ⟨e, waiting, asked⟩
    obtain ⟨l, same, sound, complete⟩ := run_complete events roomy
    have held : l.held = r.unreported :=
      (complete.held_eq sound).trans (same.unreported_eq sound).symm
    have allowed := same.allowed sound (acting_some acts).2.1 (held ▸ waiting) asked
    have first := same.take (r.machine.table self).pid (.ofPid pid (r.machine.table self).pgid)
    rw [held] at first
    obtain ⟨x, found⟩ : ∃ x, r.unreported.find? (r.machine.awaits self pid) = some x :=
      isSome_iff_exists.mp (List.find?_isSome.mpr ⟨e, waiting, asked⟩)
    have taken := first.trans found
    obtain ⟨k, took, rfl⟩ := map_eq_some_iff.mp taken
    refine ⟨_, found, ?_⟩
    rw [wait4_round again valid allowed]
    exact wait4Round_child.mpr ⟨k, took, rfl, rfl⟩

/-- kernel_main has two children; the younger is reaped first. -/
def twoChildren : List Event :=
  [.create 1000 true, .create 1000 true, .yield true 2, .exit 0x100, .yield true 3, .exit 0x200,
    .yield true 1, .reapSlot 3, .reapSlot 2].map .other ++
    [.wait4 (-1) 0 false, .wait4 3 wnohang false, .wait4 (-1) 0 false]

theorem wait4_reports_two : (run start twoChildren).machine.reports = [(4, 2, 0x200), (3, 2, 0x100)] ∧
    ((run start twoChildren).machine.reports.map Prod.fst).Nodup :=
  ⟨by decide +kernel, (wait4_reports_once twoChildren).1.2.1⟩

end Wait

end UzOS.Kernel
