import UzOS.Kernel.Run

/-! Process lives, without the machinery: who exists, whose child and whose
tracee everybody is, which sandbox holds, and what has been recorded. Every
step of the kernel is one deed here. -/
namespace UzOS.Kernel

inductive Presence where
  | absent
  | living
  | ended
  deriving DecidableEq

structure Sandbox where
  mode : SeccompMode := .off
  allow : Fin 4 → U32 := fun _ => 0
  action : U32 := 0

/-- A process as the others know it; the defaults are an empty slot. -/
structure Person where
  presence : Presence := .absent
  pid : U32 := 0
  ppid : U32 := 0
  tracer : U32 := 0
  exitStatus : U32 := 0
  isSystem : Bool := false
  sandbox : Sandbox := {}

structure People where
  folk : Slot → Person
  nextPid : U32
  records : Fin exitlogSize → ExitRecord
  log : List Note

def ProcessState.presence : ProcessState → Presence
  | .free => .absent
  | .zombie => .ended
  | _ => .living

def Process.sandbox (p : Process) : Sandbox := ⟨p.seccompMode, p.seccompAllow, p.seccompAction⟩

def Process.person (p : Process) : Person :=
  if p.state = .free then {}
  else
    { presence := p.state.presence, pid := p.pid, ppid := p.ppid, tracer := p.tracer
      exitStatus := p.exitStatus, isSystem := p.isSystem, sandbox := p.sandbox }

def Machine.people (m : Machine) : People :=
  ⟨fun i => (m.table i).person, m.nextPid, m.records, m.log⟩

/-- What one step can do to somebody's life. -/
inductive Deed where
  | none
  | born (i creator : Slot)
  | ended (i : Slot) (status heir : U32)
  | retired (i : Slot)
  | reaped (i : Slot) (k : Fin exitlogSize) (r : ExitRecord)
  | traced (i : Slot) (tracer : U32)
  | reported (k : Fin exitlogSize) (parent : Slot)
  | confined (i : Slot) (sandbox : Sandbox)

namespace Person

def orphaned (q : Person) (dead heir : U32) : Person :=
  if q.presence ≠ .absent ∧ q.ppid = dead then { q with ppid := heir } else q

def letGo (q : Person) (dead : U32) : Person :=
  if q.presence ≠ .absent ∧ q.tracer = dead then { q with tracer := 0 } else q

variable (q : Person) (dead : U32)

@[simp] theorem orphaned_presence (heir : U32) : (q.orphaned dead heir).presence = q.presence := by
  unfold orphaned
  split <;> rfl

@[simp] theorem orphaned_pid (heir : U32) : (q.orphaned dead heir).pid = q.pid := by
  unfold orphaned
  split <;> rfl

@[simp] theorem letGo_presence : (q.letGo dead).presence = q.presence := by
  unfold letGo
  split <;> rfl

@[simp] theorem letGo_pid : (q.letGo dead).pid = q.pid := by
  unfold letGo
  split <;> rfl

def child (creator : Person) (pid : U32) : Person :=
  { presence := .living, pid, ppid := creator.pid
    sandbox := if creator.sandbox.mode = .off then {} else creator.sandbox }

end Person

namespace People

variable (s : People) (i : Slot)

def find (pid : U32) : Option Slot :=
  findSlot fun i => (s.folk i).presence != .absent && (s.folk i).pid == pid

def set (q : Person) : People :=
  { s with folk := Function.update s.folk i q }

def record (k : Fin exitlogSize) (r : ExitRecord) : People :=
  { s with records := Function.update s.records k r }

def note (n : Note) : People := { s with log := s.log ++ [n] }

/-- `i` has ended, and nobody has been told. -/
def retire : People :=
  (s.set i { s.folk i with presence := .ended }).note
    (.ended (s.folk i).pid (s.folk i).exitStatus)

/-- The children of `i` go to `heir`, its tracees go free. -/
def bereave (heir : U32) : People :=
  { s with folk := fun j =>
      let q := if j = i then s.folk j else (s.folk j).orphaned (s.folk i).pid heir
      q.letGo (s.folk i).pid }

/-- The parent of `i` is sent SIGCHLD. -/
def announce : People :=
  match s.find (s.folk i).ppid with
  | none => s
  | some _ => s.note (.announced (s.folk i).pid (s.folk i).ppid)

def after : Deed → People
  | .none => s
  | .born i creator =>
    { (s.set i ((s.folk creator).child s.nextPid)).note
        (.born s.nextPid (s.folk creator).pid) with nextPid := s.nextPid + 1 }
  | .ended i status heir =>
    (((s.set i { s.folk i with exitStatus := status }).retire i).bereave i heir).announce i
  | .retired i => s.retire i
  | .reaped i k r => (s.record k r).set i {}
  | .traced i tracer => s.set i { s.folk i with tracer }
  | .reported k parent =>
    (s.record k { s.records k with used := false }).note
      (.reported (s.records k).pid (s.folk parent).pid (s.records k).status)
  | .confined i sandbox => s.set i { s.folk i with sandbox }

/-- The record exitlog_add writes for somebody who has ended. -/
def recordOf (q : Person) (r : ExitRecord) : Prop :=
  r.used = true ∧ r.pid = q.pid ∧ r.ppid = q.ppid ∧ r.status = q.exitStatus

/-- What a deed may rely on. -/
def Fair : Deed → Prop
  | .none => True
  | .born i creator => (s.folk i).presence = .absent ∧ (s.folk creator).presence = .living ∧
      s.nextPid.toNat < pidLimit.toNat
  | .ended i _ heir => (s.folk i).presence ≠ .absent ∧
      ((s.folk i).isSystem = true → (s.folk i).pid ≠ 1) ∧
      (heir = 1 ∨ ∃ a, (s.folk a).presence = .living ∧ (s.folk a).pid = heir ∧
        heir.toNat < (s.folk i).pid.toNat)
  | .retired i => (s.folk i).presence ≠ .absent
  | .reaped i _ r => (s.folk i).presence = .ended ∧ recordOf (s.folk i) r
  | .traced i tracer => (s.folk i).presence ≠ .absent ∧
      (tracer = 0 ∨ tracer = (s.folk i).ppid ∨
        ∃ a, (s.folk a).presence = .living ∧ (s.folk a).pid = tracer)
  | .reported k parent => (s.records k).used = true ∧ (s.folk parent).presence = .living ∧
      (s.records k).ppid = (s.folk parent).pid
  | .confined i _ => (s.folk i).presence = .living

/-- Pids are handed out in order and belong to one process each; a parent is
older than its children. -/
structure Numbered (s : People) : Prop where
  limit : s.nextPid.toNat ≤ pidLimit.toNat
  range : ∀ i, (s.folk i).presence ≠ .absent →
    0 < (s.folk i).pid.toNat ∧ (s.folk i).pid.toNat < s.nextPid.toNat
  distinct : ∀ i j, (s.folk i).presence ≠ .absent → (s.folk j).presence ≠ .absent →
    (s.folk i).pid = (s.folk j).pid → i = j
  older : ∀ i, (s.folk i).presence ≠ .absent → (s.folk i).ppid.toNat < (s.folk i).pid.toNat

variable (s : People) (i : Slot)

@[simp] theorem set_folk_self (q : Person) : (s.set i q).folk i = q := by simp [set]

theorem set_folk_other {i j : Slot} (q : Person) (other : j ≠ i) :
    (s.set i q).folk j = s.folk j := by
  simp [set, other]

@[simp] theorem set_self : s.set i (s.folk i) = s := by simp [set]

theorem find_some {s : People} {pid : U32} {i : Slot} (found : s.find pid = some i) :
    (s.folk i).presence ≠ .absent ∧ (s.folk i).pid = pid := by
  simpa using findSlot_some found

@[simp] theorem announce_folk : (s.announce i).folk = s.folk := by
  unfold announce
  split <;> rfl

@[simp] theorem announce_nextPid : (s.announce i).nextPid = s.nextPid := by
  unfold announce
  split <;> rfl

@[simp] theorem announce_records : (s.announce i).records = s.records := by
  unfold announce
  split <;> rfl

section Numbered
variable {s : People}

/-- Nobody new, and parents still older. -/
theorem Numbered.of_same {t : People} (numbered : s.Numbered) (next : t.nextPid = s.nextPid)
    (same : ∀ i, (t.folk i).presence ≠ .absent → (s.folk i).presence ≠ .absent ∧
      (t.folk i).pid = (s.folk i).pid ∧ (t.folk i).ppid.toNat < (s.folk i).pid.toNat) :
    t.Numbered where
  limit := next ▸ numbered.limit
  range i here := by
    obtain ⟨present, pid, -⟩ := same i here
    rw [pid, next]
    exact numbered.range i present
  distinct i j hi hj eq := by
    obtain ⟨present, pid, -⟩ := same i hi
    obtain ⟨present', pid', -⟩ := same j hj
    exact numbered.distinct i j present present' (by rw [← pid, ← pid', eq])
  older i here := by
    obtain ⟨-, pid, older⟩ := same i here
    rwa [pid]

variable (i : Slot) (status heir : U32) (j : Slot)

/-- What the end of `i` makes of everybody. -/
theorem ended_folk :
    (s.after (.ended i status heir)).folk j =
      (if j = i then { s.folk i with presence := .ended, exitStatus := status }
       else (s.folk j).orphaned (s.folk i).pid heir).letGo (s.folk i).pid := by
  by_cases here : j = i
  · subst here
    simp [after, bereave, retire, note]
  · simp [after, bereave, retire, note, set, here]

theorem ended_nextPid : (s.after (.ended i status heir)).nextPid = s.nextPid := by
  simp [after, bereave, retire, note, set]

theorem ended_presence :
    ((s.after (.ended i status heir)).folk j).presence =
      if j = i then .ended else (s.folk j).presence := by
  rw [ended_folk, Person.letGo_presence]
  split
  · rfl
  · exact Person.orphaned_presence _ _ _

theorem ended_pid : ((s.after (.ended i status heir)).folk j).pid = (s.folk j).pid := by
  rw [ended_folk, Person.letGo_pid]
  split
  · next here => rw [here]
  · exact Person.orphaned_pid _ _ _

/-- Everybody keeps their parent, except the children of the dead. -/
theorem ended_ppid :
    ((s.after (.ended i status heir)).folk j).ppid =
      if j ≠ i ∧ (s.folk j).presence ≠ .absent ∧ (s.folk j).ppid = (s.folk i).pid then heir
      else (s.folk j).ppid := by
  have kept (q : Person) (dead : U32) : (q.letGo dead).ppid = q.ppid := by
    unfold Person.letGo
    split <;> rfl
  rw [ended_folk, kept]
  by_cases here : j = i
  · subst here
    simp
  by_cases mine : (s.folk j).presence ≠ .absent ∧ (s.folk j).ppid = (s.folk i).pid
  · simp [Person.orphaned, here, mine]
  · rw [if_neg here, Person.orphaned, if_neg mine, if_neg fun all => mine all.2]

theorem find_congr {t : People}
    (same : ∀ i, ((t.folk i).presence ≠ .absent ↔ (s.folk i).presence ≠ .absent) ∧
      (t.folk i).pid = (s.folk i).pid) (pid : U32) : t.find pid = s.find pid := by
  unfold find
  congr 1
  funext i
  obtain ⟨presence, named⟩ := same i
  rw [named]
  congr 1
  exact Bool.eq_iff_iff.mpr (by simpa using presence)

/-- An end is recorded, and announced when there is a parent. -/
theorem ended_log {i : Slot} (present : (s.folk i).presence ≠ .absent) :
    (s.after (.ended i status heir)).log = s.log ++ .ended (s.folk i).pid status ::
      if (s.find (s.folk i).ppid).isSome then [.announced (s.folk i).pid (s.folk i).ppid]
      else [] := by
  obtain ⟨t, t_eq⟩ : ∃ t, t =
      ((s.set i { s.folk i with exitStatus := status }).retire i).bereave i heir := ⟨_, rfl⟩
  have after : s.after (.ended i status heir) = t.announce i := by rw [t_eq]; rfl
  have folk (j : Slot) : t.folk j = (s.after (.ended i status heir)).folk j := by
    rw [after, announce_folk]
  have pid : (t.folk i).pid = (s.folk i).pid := by rw [folk, ended_pid]
  have ppid : (t.folk i).ppid = (s.folk i).ppid := by
    rw [folk, ended_ppid, if_neg]
    simp
  have still : t.find (s.folk i).ppid = s.find (s.folk i).ppid := by
    apply find_congr
    intro j
    rw [folk, ended_presence, ended_pid]
    refine ⟨?_, rfl⟩
    split
    · next same => simpa [same] using present
    · rfl
  have log : t.log = s.log ++ [.ended (s.folk i).pid status] := by
    simp [t_eq, bereave, retire, note, set]
  rw [after, announce, ppid, still]
  cases s.find (s.folk i).ppid with
  | none => simp [log]
  | some parent => simp [note, log, pid]

variable (numbered : s.Numbered)
include numbered

theorem Numbered.set {i : Slot} {q : Person}
    (same : q.presence ≠ .absent → (s.folk i).presence ≠ .absent ∧ q.pid = (s.folk i).pid ∧
      q.ppid = (s.folk i).ppid) : (s.set i q).Numbered := by
  refine numbered.of_same rfl fun j here => ?_
  by_cases changed : j = i
  · subst changed
    rw [set_folk_self] at here ⊢
    obtain ⟨present, pid, ppid⟩ := same here
    exact ⟨present, pid, ppid ▸ numbered.older j present⟩
  · rw [set_folk_other s q changed] at here ⊢
    exact ⟨here, rfl, numbered.older j here⟩

theorem Numbered.ended {i : Slot} {status heir : U32}
    (fair : s.Fair (.ended i status heir)) : (s.after (.ended i status heir)).Numbered := by
  obtain ⟨present, -, heir_ok⟩ := fair
  refine numbered.of_same (ended_nextPid i status heir) fun j here => ?_
  rw [ended_presence] at here
  have there : (s.folk j).presence ≠ .absent := by
    split at here
    · next same => rwa [same]
    · exact here
  refine ⟨there, ended_pid i status heir j, ?_⟩
  have parent := numbered.older j there
  rw [ended_ppid]
  split
  · next child =>
    rw [child.2.2] at parent
    have positive := (numbered.range i present).1
    obtain rfl | ⟨_, _, _, low⟩ := heir_ok
    · exact lt_of_le_of_lt positive parent
    · omega
  · exact parent

theorem Numbered.born {i creator : Slot}
    (fair : s.Fair (.born i creator)) : (s.after (.born i creator)).Numbered := by
  obtain ⟨absent, living, below⟩ := fair
  have next : (s.nextPid + 1).toNat = s.nextPid.toNat + 1 := by
    exact Nat.mod_eq_of_lt (by simp; omega)
  have parent := numbered.range creator (by simp [living])
  have folk (j : Slot) : (s.after (.born i creator)).folk j =
      if j = i then (s.folk creator).child s.nextPid else s.folk j := by
    by_cases here : j = i
    · subst here
      simp [after, note]
    · simp [after, People.set, note, here]
  have pid_next : (s.after (.born i creator)).nextPid.toNat = s.nextPid.toNat + 1 := next
  refine ⟨by omega, fun j here => ?_, fun j k hj hk eq => ?_, fun j here => ?_⟩
  · rw [folk] at here ⊢
    split
    · simp only [Person.child]
      omega
    rename_i other
    have := numbered.range j (by simpa [other] using here)
    omega
  · rw [folk] at hj eq
    rw [folk] at hk eq
    by_cases newj : j = i <;> by_cases newk : k = i
    · rw [newj, newk]
    · rw [if_neg newk] at hk eq
      rw [if_pos newj] at eq
      have := (numbered.range k hk).2
      rw [← eq] at this
      exact absurd this (lt_irrefl _)
    · rw [if_neg newj] at hj eq
      rw [if_pos newk] at eq
      have := (numbered.range j hj).2
      rw [eq] at this
      exact absurd this (lt_irrefl _)
    · rw [if_neg newj] at hj eq
      rw [if_neg newk] at hk eq
      exact numbered.distinct j k hj hk eq
  · rw [folk] at here ⊢
    split
    · exact parent.2
    · next other => exact numbered.older j (by simpa [other] using here)

/-- A fair deed keeps the numbering. -/
theorem Numbered.after {d : Deed} (fair : s.Fair d) : (s.after d).Numbered := by
  cases d with
  | none => exact numbered
  | born i creator => exact numbered.born fair
  | ended i status heir => exact numbered.ended fair
  | retired i =>
    have kept : (s.set i { s.folk i with presence := .ended }).Numbered :=
      numbered.set fun _ => ⟨fair, rfl, rfl⟩
    exact ⟨kept.limit, kept.range, kept.distinct, kept.older⟩
  | reaped i k r =>
    have kept : (s.set i {}).Numbered := numbered.set fun here => absurd rfl here
    exact ⟨kept.limit, kept.range, kept.distinct, kept.older⟩
  | traced i tracer => exact numbered.set fun _ => ⟨fair.1, rfl, rfl⟩
  | reported k parent => exact ⟨numbered.limit, numbered.range, numbered.distinct, numbered.older⟩
  | confined i sandbox => exact numbered.set fun _ => ⟨by simp [show _ = _ from fair], rfl, rfl⟩

end Numbered

/-! Who is there after a deed. -/

section Presence
variable {s : People}

variable {d : Deed}

/-- Whoever is there after a deed was there before, under the same number, and nobody
vanishes alive; or a slot gets a new process with the next number. -/
theorem Fair.place (fair : s.Fair d) (i : Slot) :
    (((s.after d).folk i).presence ≠ .absent →
        (s.folk i).presence ≠ .absent ∧ ((s.after d).folk i).pid = (s.folk i).pid) ∧
      ((s.folk i).presence = .living → ((s.after d).folk i).presence ≠ .absent) ∨
    (s.folk i).presence = .absent ∧ ((s.after d).folk i).pid = s.nextPid := by
  have here (living : (s.folk i).presence = .living) : (s.folk i).presence ≠ .absent := by
    simp [living]
  have changed {j : Slot} {q : Person} (back : q.presence ≠ .absent →
      (s.folk j).presence ≠ .absent ∧ q.pid = (s.folk j).pid)
      (stays : (s.folk j).presence = .living → q.presence ≠ .absent) :
      (((s.set j q).folk i).presence ≠ .absent →
        (s.folk i).presence ≠ .absent ∧ ((s.set j q).folk i).pid = (s.folk i).pid) ∧
      ((s.folk i).presence = .living → ((s.set j q).folk i).presence ≠ .absent) := by
    by_cases same : i = j
    · subst same
      rw [set_folk_self]
      exact ⟨back, stays⟩
    · rw [set_folk_other s q same]
      exact ⟨fun present => ⟨present, rfl⟩, here⟩
  cases d with
  | none | reported => exact .inl ⟨fun present => ⟨present, rfl⟩, here⟩
  | born j creator =>
    by_cases same : i = j
    · subst same
      exact .inr ⟨fair.1, by simp [after, note, Person.child]⟩
    · have old : (s.after (.born j creator)).folk i = s.folk i := by simp [after, note, set, same]
      rw [old]
      exact .inl ⟨fun present => ⟨present, rfl⟩, here⟩
  | ended j status heir =>
    rw [ended_presence, ended_pid]
    split
    · next same => exact .inl ⟨fun _ => ⟨same ▸ fair.1, rfl⟩, by simp⟩
    · exact .inl ⟨fun present => ⟨present, rfl⟩, here⟩
  | retired j => exact .inl (changed (fun _ => ⟨fair, rfl⟩) (by simp))
  | reaped j k r =>
    refine .inl (changed (fun present => absurd rfl present) fun living => ?_)
    rw [fair.1] at living
    cases living
  | traced j tracer => exact .inl (changed (fun _ => ⟨fair.1, rfl⟩) fun _ => fair.1)
  | confined j sandbox =>
    have living : (s.folk j).presence ≠ .absent := by simp [show _ = _ from fair]
    exact .inl (changed (fun _ => ⟨living, rfl⟩) fun _ => living)

theorem Fair.nextPid_le (fair : s.Fair d) : s.nextPid.toNat ≤ (s.after d).nextPid.toNat := by
  cases d with
  | born j creator =>
    obtain ⟨-, -, below⟩ := fair
    change _ ≤ (s.nextPid + 1).toNat
    rw [BitVec.toNat_add, Nat.mod_eq_of_lt (by simp; omega)]
    exact Nat.le_add_right _ _
  | ended j status heir => rw [ended_nextPid]
  | _ => exact le_rfl

/-- The pid belonged to somebody who is no longer there. -/
def Gone (s : People) (pid : U32) : Prop :=
  pid.toNat < s.nextPid.toNat ∧ ∀ i, (s.folk i).presence ≠ .absent → (s.folk i).pid ≠ pid

/-- Nobody comes back. -/
theorem Gone.after {pid : U32} (gone : s.Gone pid) (fair : s.Fair d) : (s.after d).Gone pid := by
  refine ⟨lt_of_lt_of_le gone.1 fair.nextPid_le, fun i here => ?_⟩
  obtain ⟨back, -⟩ | ⟨-, new⟩ := fair.place i
  · obtain ⟨present, same⟩ := back here
    rw [same]
    exact gone.2 i present
  rw [new]
  rintro rfl
  exact lt_irrefl _ gone.1

end Presence
end People
end UzOS.Kernel
