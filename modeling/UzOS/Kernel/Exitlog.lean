import UzOS.Kernel.Frames
import UzOS.Lib.Stamped

/-! wait4 (syscalls/wait4/sys_wait4.c) and the records it takes: what the caller
is told, and the log of ends as a bounded queue. -/
namespace UzOS.Kernel

open List

/-- The end of a process as the reaper finds it. -/
structure Exit where
  pid : U32
  ppid : U32
  pgid : U32
  status : U32
  deriving DecidableEq

def Process.exit (p : Process) : Exit := ⟨p.pid, p.ppid, p.pgid, p.exitStatus⟩

def Exit.report (e : Exit) : U32 × U32 × U32 := (e.pid, e.ppid, e.status)

def ExitRecord.exit (r : ExitRecord) : Exit := ⟨r.pid, r.ppid, r.pgid, r.status⟩

/-! ## The call -/

def wnohang : U32 := 1

/-- What the first argument of wait4 stands for. -/
def Selector.ofPid (pid myPgid : U32) : Selector :=
  if pid.toInt > 0 then .child pid
  else if pid = -1 then .any
  else if pid = 0 then .group myPgid
  else .group (-pid)

def Selector.selected (which : Selector) (c : Process) : Bool :=
  match which with
  | .child pid => c.pid == pid
  | .any => true
  | .group pgid => c.pgid == pgid

def Selector.chooses (which : Selector) (e : Exit) : Bool :=
  match which with
  | .child pid => e.pid == pid
  | .any => true
  | .group pgid => e.pgid == pgid

variable (m : Machine) (self : Slot)

/-- A child, alive or not yet reaped, that the selector picks. -/
def hasChild (which : Selector) : Bool :=
  (findSlot fun i => (m.table i).state != .free && (m.table i).ppid == (m.table self).pid &&
    which.selected (m.table i)).isSome

def exitlogTake (parent : U32) (which : Selector) : Option (Fin exitlogSize) :=
  oldestSlot (fun k => (m.records k).used && (m.records k).ppid == parent &&
    which.matches (m.records k)) fun k => (m.records k).order

/-- How a round of wait4 ends. -/
inductive Answer where
  | child (pid status : U32)
  | noChild
  | refused
  | badOptions
  | running
  | sleeps
  deriving DecidableEq

/-- One round of the loop. -/
def wait4Round (which : Selector) (options : U32) : Machine × Answer :=
  match exitlogTake m (m.table self).pid which with
  | some k =>
    ({ m with records := Function.update m.records k { m.records k with used := false } }.note
      (.reported (m.records k).pid (m.table self).pid (m.records k).status),
      .child (m.records k).pid (m.records k).status)
  | none =>
    (m, if !hasChild m self which then .noChild
      else if options &&& wnohang ≠ 0 then .running
      else .sleeps)

/-- wait4 up to its first sleep, or a round after a sleep, before which nothing is
checked again. -/
def wait4 (pid options : U32) (again : Bool) : Machine × Answer :=
  let which := Selector.ofPid pid (m.table self).pgid
  if again then wait4Round m self which options
  else if options &&& ~~~wnohang ≠ 0 then (m, .badOptions)
  else if !which.allowed m self then (m, .refused)
  else wait4Round m self which options

namespace Wait

inductive Event where
  | wait4 (pid options : U32) (again : Bool)
  | other (e : Kernel.Event)

/-- The machine, and every end the reaper has come upon, the first one first. -/
structure Register where
  machine : Machine
  reaped : List Exit := []

def reapedBy : Kernel.Event → List Exit
  | .reapSlot i =>
    if (m.table i).state = .zombie ∧ m.current ≠ some i then [(m.table i).exit] else []
  | _ => []

def step (r : Register) : Event → Register
  | .wait4 pid options again =>
    r.machine.acting.elim r fun self =>
      { r with machine := (wait4 r.machine self pid options again).1 }
  | .other e => ⟨Kernel.step r.machine e, r.reaped ++ reapedBy r.machine e⟩

def start : Register := { machine := boot }

abbrev run (r : Register) (events : List Event) : Register := Runs.run step r events

end Wait

/-- The log still has the end. -/
def Machine.holds (e : Exit) : Bool :=
  (findSlot fun k => (m.records k).used && decide ((m.records k).exit = e)).isSome

/-- The call of `self` with this argument asks for the end. -/
def Machine.awaits (pid : U32) (e : Exit) : Bool :=
  e.ppid == (m.table self).pid && (Selector.ofPid pid (m.table self).pgid).chooses e

namespace Wait.Register

def unreported (r : Register) : List Exit :=
  r.reaped.filter fun e => !(r.machine.reports.map Prod.fst).contains e.pid

end Wait.Register

/-! ## The log as a queue -/

/-- All ends so far, those on record and those reported. -/
structure ExitLog where
  reaped : List Exit := []
  held : List Exit := []
  reported : List Exit := []

namespace ExitLog

/-- A full log gives its oldest end up. -/
def makeRoom (held : List Exit) : List Exit :=
  if held.length < exitlogSize then held else held.tail

inductive Change (l : ExitLog) : ExitLog → Prop where
  | same : Change l l
  | reaped (e : Exit) (fresh : ∀ x ∈ l.reaped, x.pid ≠ e.pid) :
      Change l { l with reaped := l.reaped ++ [e], held := makeRoom l.held ++ [e] }
  | reported (e : Exit) (kind : Exit → Bool) (first : l.held.find? kind = some e) :
      Change l { l with held := l.held.eraseP kind, reported := l.reported ++ [e] }

structure Sound (l : ExitLog) : Prop where
  once : (l.reaped.map Exit.pid).Nodup
  kept : l.held.Sublist l.reaped
  own : ∀ e ∈ l.reported, e ∈ l.reaped ∧ e ∉ l.held
  single : l.reported.Nodup

variable {l l' : ExitLog}

theorem makeRoom_sublist (held : List Exit) : (makeRoom held).Sublist held := by
  unfold makeRoom
  split
  · exact .refl _
  · exact held.tail_sublist

theorem Sound.distinct (sound : l.Sound) {x y : Exit} (one : x ∈ l.reaped) (two : y ∈ l.reaped)
    (same : x.pid = y.pid) : x = y := inj_on_of_nodup_map sound.once one two same

theorem Sound.nodup (sound : l.Sound) : l.reaped.Nodup := sound.once.of_map _

/-- What is on record stands in the order of reaping. -/
theorem Sound.held_eq_filter (sound : l.Sound) {onRecord : Exit → Bool}
    (iff : ∀ e ∈ l.reaped, onRecord e ↔ e ∈ l.held) :
    l.held = l.reaped.filter onRecord := by
  have within : l.held.Sublist (l.reaped.filter onRecord) := by
    have kept := sound.kept.filter onRecord
    rwa [filter_eq_self.mpr] at kept
    exact fun e there => (iff e (sound.kept.mem there)).mpr there
  apply within.eq_of_length_le
  have all : l.reaped.filter onRecord ⊆ l.held := by
    intro e there
    obtain ⟨known, recorded⟩ := mem_filter.mp there
    exact (iff e known).mp recorded
  exact ((sound.nodup.filter _).subperm all).length_le

theorem Sound.change (sound : l.Sound) (change : l.Change l') : l'.Sound := by
  cases change with
  | same => exact sound
  | reaped e fresh =>
    have unseen : e ∉ l.reaped := fun there => fresh e there rfl
    constructor
    · rw [map_append, nodup_append]
      refine ⟨sound.once, nodup_singleton _, ?_⟩
      rintro _ there _ here rfl
      obtain ⟨x, known, same⟩ := mem_map.mp there
      exact fresh x known (same.trans (mem_singleton.mp here))
    · exact ((makeRoom_sublist _).trans sound.kept).append_right [e]
    · intro x told
      obtain ⟨known, gone⟩ := sound.own x told
      refine ⟨mem_append_left _ known, fun held => ?_⟩
      obtain old | new := mem_append.mp held
      · exact gone ((makeRoom_sublist _).mem old)
      · exact unseen (mem_singleton.mp new ▸ known)
    · exact sound.single
  | reported e kind first =>
    have there : e ∈ l.held := List.mem_of_find?_eq_some first
    have heldOnce : l.held.Nodup := sound.nodup.sublist sound.kept
    have gone : e ∉ l.held.eraseP kind := by
      obtain ⟨right, before, after, same, earlier⟩ := List.find?_eq_some_iff_append.mp first
      have once := heldOnce
      rw [same, nodup_append, nodup_cons] at once
      obtain ⟨-, ⟨later, -⟩, apart⟩ := once
      rw [same, eraseP_append_right _ (by simpa using earlier),
        eraseP_cons_of_pos right, mem_append]
      rintro (one | two)
      · exact apart e one e mem_cons_self rfl
      · exact later two
    constructor
    · exact sound.once
    · exact eraseP_sublist.trans sound.kept
    · intro x told
      obtain old | new := mem_append.mp told
      · obtain ⟨known, out⟩ := sound.own x old
        exact ⟨known, fun held => out (mem_of_mem_eraseP held)⟩
      rw [mem_singleton.mp new]
      exact ⟨sound.kept.mem there, gone⟩
    · rw [nodup_append]
      refine ⟨sound.single, nodup_singleton _, ?_⟩
      rintro x old _ here rfl
      rw [mem_singleton.mp here] at old
      exact (sound.own e old).2 there

/-- Every end that has not been reported is still on record. -/
def Complete (l : ExitLog) : Prop := ∀ e ∈ l.reaped, e ∈ l.reported ∨ e ∈ l.held

def unreported (l : ExitLog) : List Exit := l.reaped.filter fun e => !l.reported.contains e

theorem Complete.held_eq (complete : l.Complete) (sound : l.Sound) : l.held = l.unreported := by
  apply sound.held_eq_filter
  intro e known
  simp only [Bool.not_eq_true', contains_eq_mem, decide_eq_false_iff_not]
  constructor
  · exact fun untold => (complete e known).resolve_left untold
  · exact fun there told => (sound.own e told).2 there

/-- As long as the log is large enough, none is given up. -/
theorem Complete.change (complete : l.Complete) (sound : l.Sound) (change : l.Change l')
    (roomy : l'.unreported.length ≤ exitlogSize) : l'.Complete := by
  cases change with
  | same => exact complete
  | reaped e fresh =>
    have unseen : e ∉ l.reported := fun told => fresh e (sound.own e told).1 rfl
    have grown : ({ l with reaped := l.reaped ++ [e], held := makeRoom l.held ++ [e] } :
        ExitLog).unreported = l.unreported ++ [e] := by
      simp [unreported, unseen]
    have room : makeRoom l.held = l.held := by
      rw [makeRoom, if_pos]
      rw [grown, length_append, ← complete.held_eq sound] at roomy
      exact roomy
    intro x known
    rw [room]
    obtain old | new := mem_append.mp known
    · exact (complete x old).imp_right (mem_append_left _)
    · exact .inr (mem_append_right _ new)
  | reported e kind first =>
    intro x known
    obtain told | held := complete x known
    · exact .inl (mem_append_left _ told)
    by_cases same : x = e
    · exact .inl (mem_append_right _ (mem_singleton.mpr same))
    right
    obtain ⟨right, before, after, line, earlier⟩ := List.find?_eq_some_iff_append.mp first
    rw [line] at held ⊢
    rw [eraseP_append_right _ (by simpa using earlier), eraseP_cons_of_pos right]
    simpa [same] using held

end ExitLog

end UzOS.Kernel
