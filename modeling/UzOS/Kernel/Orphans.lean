import UzOS.Kernel.Lives

/-! Nobody is left with a parent or a tracer that has ended. -/
namespace UzOS.Kernel

namespace People

/-- `pid` is nobody, or somebody who lives. -/
def Living (s : People) (pid : U32) : Prop :=
  pid = 0 ∨ ∃ a, (s.folk a).presence = .living ∧ (s.folk a).pid = pid

structure Settled (s : People) : Prop where
  idle : ∃ i, (s.folk i).presence = .living ∧ (s.folk i).pid = 1 ∧ (s.folk i).isSystem = true
  parent : ∀ i, (s.folk i).presence ≠ .absent → s.Living (s.folk i).ppid
  tracer : ∀ i, (s.folk i).presence ≠ .absent → s.Living (s.folk i).tracer

variable {s t : People}

theorem Living.mono {pid : U32} (living : s.Living pid)
    (keeps : ∀ a, (s.folk a).presence = .living →
      (t.folk a).presence = .living ∧ (t.folk a).pid = (s.folk a).pid) : t.Living pid := by
  obtain zero | ⟨a, lives, named⟩ := living
  · exact .inl zero
  · exact .inr ⟨a, (keeps a lives).1, (keeps a lives).2.trans named⟩

theorem Settled.of_same (settled : s.Settled)
    (keeps : ∀ a, (s.folk a).presence = .living → (t.folk a).presence = .living ∧
      (t.folk a).pid = (s.folk a).pid ∧ (t.folk a).isSystem = (s.folk a).isSystem)
    (links : ∀ i, (t.folk i).presence ≠ .absent →
      s.Living (t.folk i).ppid ∧ s.Living (t.folk i).tracer) : t.Settled := by
  have mono {pid : U32} (living : s.Living pid) : t.Living pid :=
    living.mono fun a lives => ⟨(keeps a lives).1, (keeps a lives).2.1⟩
  obtain ⟨i, lives, first, system⟩ := settled.idle
  obtain ⟨still, pid, same⟩ := keeps i lives
  exact ⟨⟨i, still, pid.trans first, same.trans system⟩, fun j here => mono (links j here).1,
    fun j here => mono (links j here).2⟩

theorem Settled.set (settled : s.Settled) {i : Slot} {q : Person}
    (keeps : (s.folk i).presence = .living →
      q.presence = .living ∧ q.pid = (s.folk i).pid ∧ q.isSystem = (s.folk i).isSystem)
    (links : q.presence ≠ .absent → s.Living q.ppid ∧ s.Living q.tracer) :
    (s.set i q).Settled := by
  apply settled.of_same
  · intro a lives
    by_cases here : a = i
    · subst here
      simpa using keeps lives
    · simp [set_folk_other s q here, lives]
  · intro j here
    by_cases changed : j = i
    · subst changed
      rw [set_folk_self] at here ⊢
      exact links here
    rw [set_folk_other s q changed] at here ⊢
    exact ⟨settled.parent j here, settled.tracer j here⟩

theorem ended_isSystem (i : Slot) (status heir : U32) (j : Slot) :
    ((s.after (.ended i status heir)).folk j).isSystem = (s.folk j).isSystem := by
  rw [ended_folk]
  unfold Person.letGo Person.orphaned
  split <;> split <;> (try split) <;> simp_all

theorem ended_tracer (i : Slot) (status heir : U32) {j : Slot}
    (here : (s.folk j).presence ≠ .absent) :
    ((s.after (.ended i status heir)).folk j).tracer =
      if (s.folk j).tracer = (s.folk i).pid then 0 else (s.folk j).tracer := by
  have freed {q : Person} (present : q.presence ≠ .absent) (dead : U32) :
      (q.letGo dead).tracer = if q.tracer = dead then 0 else q.tracer := by
    simp only [Person.letGo, present, ne_eq, not_false_eq_true, true_and]
    split <;> rfl
  have kept (q : Person) (dead : U32) : (q.orphaned dead heir).tracer = q.tracer := by
    unfold Person.orphaned
    split <;> rfl
  rw [ended_folk]
  split
  · next same =>
    subst same
    exact freed (by simp) _
  · rw [freed (by simpa using here), kept]

section Ended
variable {i : Slot} {status heir : U32}

/-- Whoever lives, other than the one who ends, goes on living. -/
theorem ended_living {pid : U32} (living : s.Living pid) (other : pid ≠ (s.folk i).pid) :
    (s.after (.ended i status heir)).Living pid := by
  obtain zero | ⟨a, lives, named⟩ := living
  · exact .inl zero
  have apart : a ≠ i := by
    rintro rfl
    exact other named.symm
  refine .inr ⟨a, ?_, ?_⟩
  · rwa [ended_presence, if_neg apart]
  · rwa [ended_pid]

theorem ended_idle (settled : s.Settled) (fair : s.Fair (.ended i status heir)) :
    ∃ k, k ≠ i ∧ (s.folk k).presence = .living ∧ (s.folk k).pid = 1 ∧
      (s.folk k).isSystem := by
  obtain ⟨k, lives, first, system⟩ := settled.idle
  refine ⟨k, ?_, lives, first, system⟩
  rintro rfl
  exact fair.2.1 system first

theorem ended_heir (settled : s.Settled) (numbered : s.Numbered)
    (fair : s.Fair (.ended i status heir)) : s.Living heir ∧ heir ≠ (s.folk i).pid := by
  obtain rfl | ⟨a, lives, named, low⟩ := fair.2.2
  · obtain ⟨k, apart, lives, first, -⟩ := ended_idle settled fair
    constructor
    · exact .inr ⟨k, lives, first⟩
    · intro same
      exact apart (numbered.distinct k i (by simp [lives]) fair.1 (first.trans same))
  · constructor
    · exact .inr ⟨a, lives, named⟩
    · rintro rfl
      exact lt_irrefl _ low

theorem ended_present {j : Slot} (present : (s.folk i).presence ≠ .absent)
    (here : ((s.after (.ended i status heir)).folk j).presence ≠ .absent) :
    (s.folk j).presence ≠ .absent := by
  rw [ended_presence] at here
  split at here
  · next same => rwa [same]
  · exact here

/-- The end of a process leaves its children to somebody who lives, and nobody
traced by it. -/
theorem Settled.ended (settled : s.Settled) (numbered : s.Numbered)
    (fair : s.Fair (.ended i status heir)) : (s.after (.ended i status heir)).Settled := by
  constructor
  · obtain ⟨k, apart, lives, first, system⟩ := ended_idle settled fair
    refine ⟨k, ?_, ?_, ?_⟩
    · rwa [ended_presence, if_neg apart]
    · rwa [ended_pid]
    · rwa [ended_isSystem]
  · intro j here
    have there := ended_present fair.1 here
    rw [ended_ppid]
    split
    · obtain ⟨living, other⟩ := ended_heir settled numbered fair
      exact ended_living living other
    rename_i kept
    apply ended_living (settled.parent j there)
    intro same
    apply kept
    refine ⟨?_, there, same⟩
    rintro rfl
    have older := numbered.older j there
    rw [same] at older
    exact lt_irrefl _ older
  · intro j here
    rw [ended_tracer i status heir (ended_present fair.1 here)]
    split
    · exact .inl rfl
    · next other => exact ended_living (settled.tracer j (ended_present fair.1 here)) other

end Ended

theorem Settled.born (settled : s.Settled) {i creator : Slot} (fair : s.Fair (.born i creator)) :
    (s.after (.born i creator)).Settled := by
  obtain ⟨absent, lives, -⟩ := fair
  have kept : (s.set i ((s.folk creator).child s.nextPid)).Settled := by
    apply settled.set
    · intro living
      rw [absent] at living
      cases living
    · intro _
      exact ⟨.inr ⟨creator, lives, rfl⟩, .inl rfl⟩
  exact ⟨kept.idle, kept.parent, kept.tracer⟩

/-- Every deed keeps the families in order, except an end that nobody hears of. -/
theorem Settled.after (settled : s.Settled) (numbered : s.Numbered) {d : Deed} (fair : s.Fair d)
    (heard : ∀ i, d ≠ .retired i) : (s.after d).Settled := by
  cases d with
  | none => exact settled
  | born i creator => exact settled.born fair
  | ended i status heir => exact settled.ended numbered fair
  | retired i => exact absurd rfl (heard i)
  | reaped i k r =>
    have kept : (s.set i {}).Settled := by
      apply settled.set
      · intro living
        rw [fair.1] at living
        cases living
      · exact fun here => absurd rfl here
    exact ⟨kept.idle, kept.parent, kept.tracer⟩
  | traced i tracer =>
    apply settled.set
    · exact fun living => ⟨living, rfl, rfl⟩
    · intro _
      constructor
      · exact settled.parent i fair.1
      · obtain zero | parent | living := fair.2
        · exact .inl zero
        · exact parent ▸ settled.parent i fair.1
        · exact .inr living
  | reported k parent => exact ⟨settled.idle, settled.parent, settled.tracer⟩
  | confined i sandbox =>
    apply settled.set
    · exact fun living => ⟨living, rfl, rfl⟩
    · intro _
      have here : (s.folk i).presence ≠ .absent := by simp [show _ = _ from fair]
      exact ⟨settled.parent i here, settled.tracer i here⟩

end People

/-- The process on the CPU ends here without process_ended: the stack guard of
scheduler_yield, and RLIMIT_CPU. -/
def silentEnd (m : Machine) : Event → Bool
  | .yield guardOk _ => !guardOk && m.onCpu.isSome
  | .cpuLimit => m.onCpu.any fun i => !(m.table i).isSystem
  | _ => false

/-- process_ended would stop its own caller half way: a child of the dead that
asked for SIGSTOP when its parent ends. -/
def stopsCaller (m : Machine) (dead : Slot) : Bool :=
  m.current.any fun i => i != dead && (m.table i).ppid == (m.table dead).pid &&
    (m.table i).pdeathsig == sigstop && !(m.table i).isSystem

def orderly (m : Machine) (e : Event) : Bool :=
  !silentEnd m e && !(victim m e).any (stopsCaller m)

variable {m : Machine}

variable {e : Event} {i : Slot}

theorem heard_of_loud {d : Deed} (expected : Expected m e d) (loud : silentEnd m e = false)
    (i : Slot) : d ≠ .retired i := by
  rintro rfl
  obtain ⟨runs, ⟨rfl, user⟩ | ⟨next, rfl⟩⟩ := expected
  · simp [silentEnd, runs, user] at loud
  · simp [silentEnd, runs] at loud

theorem loud_of_orderly (ok : orderly m e) : silentEnd m e = false := by
  simpa using (Bool.and_eq_true_iff.mp ok).1

/-- What every orderly step keeps. -/
structure Sound (m : Machine) : Prop where
  numbered : m.people.Numbered
  settled : m.people.Settled

theorem step_sound (sound : Sound m) (ok : orderly m e) : Sound (step m e) := by
  obtain ⟨d, ⟨fair, after⟩, expected⟩ := step_does sound.numbered e
  constructor
  · exact step_numbered sound.numbered e
  · rw [after]
    exact sound.settled.after sound.numbered fair (heard_of_loud expected (loud_of_orderly ok))

end UzOS.Kernel
