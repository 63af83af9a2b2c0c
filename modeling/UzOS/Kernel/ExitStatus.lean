import UzOS.Kernel.Orphans

/-! What wait4 reports is how the process first ended. -/
namespace UzOS.Kernel

open List Option Runs

def Note.statusOf (pid : U32) : Note → Option U32
  | .ended who status => if who = pid then some status else none
  | _ => none

/-- The status set by the first event that ended `pid`. -/
def firstEnd (log : List Note) (pid : U32) : Option U32 := log.findSome? (Note.statusOf pid)

def Note.announces (pid : U32) : Note → Bool
  | .announced who _ => who == pid
  | _ => false

/-- How often the end of `pid` was announced to a parent. -/
def announcements (log : List Note) (pid : U32) : Nat := log.countP (Note.announces pid)

variable (log more : List Note)

theorem firstEnd_append (pid : U32) :
    firstEnd (log ++ more) pid = (firstEnd log pid).or (firstEnd more pid) :=
  List.findSome?_append

theorem announcements_append (pid : U32) :
    announcements (log ++ more) pid = announcements log pid + announcements more pid :=
  countP_append

namespace People

structure Truthful (s : People) : Prop where
  ended : ∀ i, (s.folk i).presence = .ended →
    firstEnd s.log (s.folk i).pid = some (s.folk i).exitStatus
  living : ∀ i, (s.folk i).presence = .living → firstEnd s.log (s.folk i).pid = none
  future : ∀ pid, s.nextPid.toNat ≤ pid.toNat → firstEnd s.log pid = none
  records : ∀ k, (s.records k).used = true →
    firstEnd s.log (s.records k).pid = some (s.records k).status
  reported : ∀ child parent status, .reported child parent status ∈ s.log →
    firstEnd s.log child = some status
  once : ∀ pid, announcements s.log pid ≤ 1
  unborn : ∀ pid, firstEnd s.log pid = none → announcements s.log pid = 0

/-- The log has the status of `q` if it ended, and no end of it if it lives. -/
def TrueOf (log : List Note) (q : Person) : Prop :=
  (q.presence = .ended → firstEnd log q.pid = some q.exitStatus) ∧
    (q.presence = .living → firstEnd log q.pid = none)

variable {s : People}

variable {ann : List Note} {t : People} {i : Slot} {status : U32}

/-- Notes about nobody's end change nothing. -/
theorem Truthful.of_quiet (truthful : s.Truthful) {more : List Note} (log : t.log = s.log ++ more)
    (quiet : ∀ pid, firstEnd more pid = none) (silent : ∀ pid, announcements more pid = 0)
    (told : ∀ child parent status, .reported child parent status ∈ more →
      firstEnd s.log child = some status) (next : s.nextPid.toNat ≤ t.nextPid.toNat)
    (people : ∀ i, TrueOf s.log (t.folk i))
    (records : ∀ k, (t.records k).used →
      firstEnd s.log (t.records k).pid = some (t.records k).status) : t.Truthful := by
  have same (pid : U32) : firstEnd t.log pid = firstEnd s.log pid := by
    rw [log, firstEnd_append, quiet, or_none]
  have count (pid : U32) : announcements t.log pid = announcements s.log pid := by
    rw [log, announcements_append, silent, add_zero]
  constructor
  · intro i dead
    rw [same]
    exact (people i).1 dead
  · intro i lives
    rw [same]
    exact (people i).2 lives
  · intro pid later
    rw [same]
    exact truthful.future pid (le_trans next later)
  · intro k used
    rw [same]
    exact records k used
  · intro child parent status here
    rw [same]
    rw [log, mem_append] at here
    obtain before | new := here
    · exact truthful.reported child parent status before
    · exact told child parent status new
  · intro pid
    rw [count]
    exact truthful.once pid
  · intro pid none
    rw [count]
    exact truthful.unborn pid (same pid ▸ none)

/-- What an end of `i` adds to the log: its status, and at most one announcement. -/
structure EndNotes (s t : People) (i : Slot) (status : U32) (ann : List Note) : Prop where
  log : t.log = s.log ++ .ended (s.folk i).pid status :: ann
  quiet : ∀ pid, firstEnd ann pid = none
  told : ∀ child parent status, .reported child parent status ∉ ann
  once : announcements ann (s.folk i).pid ≤ 1
  silent : ∀ pid, pid ≠ (s.folk i).pid → announcements ann pid = 0

theorem EndNotes.firstEnd_eq (notes : EndNotes s t i status ann) (pid : U32) : firstEnd t.log pid =
      (firstEnd s.log pid).or (if (s.folk i).pid = pid then some status else none) := by
  have one : firstEnd (.ended (s.folk i).pid status :: ann) pid =
      (if (s.folk i).pid = pid then some status else none).or (firstEnd ann pid) := by
    unfold firstEnd
    by_cases same : (s.folk i).pid = pid <;> simp [Note.statusOf, same]
  rw [notes.log, firstEnd_append, one, notes.quiet, or_none]

theorem EndNotes.announcements_eq (notes : EndNotes s t i status ann) (pid : U32) :
    announcements t.log pid = announcements s.log pid + announcements ann pid := by
  rw [notes.log]
  simp [announcements, Note.announces]

/-- An end of somebody who lives, or a second one that sets no status and tells
nobody. -/
theorem Truthful.of_end (truthful : s.Truthful) (numbered : s.Numbered)
    (notes : EndNotes s t i status ann) (present : (s.folk i).presence = .living ∨
      (s.folk i).presence = .ended ∧ status = (s.folk i).exitStatus ∧ ann = [])
    (next : t.nextPid = s.nextPid) (records : t.records = s.records)
    (own : (t.folk i).presence = .ended ∧ (t.folk i).pid = (s.folk i).pid ∧
      (t.folk i).exitStatus = status)
    (others : ∀ j, j ≠ i → (t.folk j).presence = (s.folk j).presence ∧
      (t.folk j).pid = (s.folk j).pid ∧ (t.folk j).exitStatus = (s.folk j).exitStatus) :
    t.Truthful := by
  have here : (s.folk i).presence ≠ .absent := by
    obtain lives | ⟨dead, -⟩ := present
    · simp [lives]
    · simp [dead]
  have kept {pid st : U32} (first : firstEnd s.log pid = some st) :
      firstEnd t.log pid = some st := by
    rw [notes.firstEnd_eq, first]
    rfl
  have apart {pid : U32} (never : firstEnd s.log pid = none) (other : (s.folk i).pid ≠ pid) :
      firstEnd t.log pid = none := by
    rw [notes.firstEnd_eq, never, if_neg other]
    rfl
  constructor
  · intro j dead
    by_cases same : j = i
    · subst same
      rw [own.2.1, own.2.2]
      obtain lives | ⟨dead, rfl, -⟩ := present
      · rw [notes.firstEnd_eq, truthful.living j lives, if_pos rfl]
        rfl
      · exact kept (truthful.ended j dead)
    · obtain ⟨presence, pid, exitStatus⟩ := others j same
      rw [pid, exitStatus]
      exact kept (truthful.ended j (presence ▸ dead))
  · intro j lives
    have other : j ≠ i := by
      rintro rfl
      rw [own.1] at lives
      cases lives
    obtain ⟨presence, pid, -⟩ := others j other
    rw [pid]
    rw [presence] at lives
    apply apart (truthful.living j lives)
    intro same
    exact other (numbered.distinct j i (by simp [lives]) here same.symm)
  · intro pid later
    rw [next] at later
    apply apart (truthful.future pid later)
    rintro rfl
    have := (numbered.range i here).2
    omega
  · intro k used
    rw [records] at used ⊢
    exact kept (truthful.records k used)
  · intro child parent st told
    rw [notes.log, mem_append, mem_cons] at told
    obtain before | new | inside := told
    · exact kept (truthful.reported child parent st before)
    · cases new
    · exact absurd inside (notes.told child parent st)
  · intro pid
    rw [notes.announcements_eq]
    by_cases same : pid = (s.folk i).pid
    · subst same
      obtain lives | ⟨-, -, rfl⟩ := present
      · rw [truthful.unborn _ (truthful.living i lives)]
        have := notes.once
        omega
      · simpa [announcements] using truthful.once _
    · rw [notes.silent pid same]
      exact truthful.once pid
  · intro pid none
    rw [notes.announcements_eq]
    rw [notes.firstEnd_eq, or_eq_none_iff] at none
    have other : pid ≠ (s.folk i).pid := by
      rintro rfl
      simp at none
    rw [notes.silent pid other, truthful.unborn pid none.1]

theorem ended_exitStatus (i : Slot) (status heir : U32) (j : Slot) :
    ((s.after (.ended i status heir)).folk j).exitStatus =
      if j = i then status else (s.folk j).exitStatus := by
  rw [ended_folk]
  unfold Person.letGo Person.orphaned
  split <;> split <;> (try split) <;> simp_all

theorem ended_records (i : Slot) (status heir : U32) :
    (s.after (.ended i status heir)).records = s.records := by
  simp [after, bereave, retire, note, set]

theorem ended_notes (status heir : U32) (present : (s.folk i).presence ≠ .absent) :
    ∃ ann, EndNotes s (s.after (.ended i status heir)) i status ann := by
  refine ⟨_, ended_log status heir present, ?_, ?_, ?_, ?_⟩
  · intro pid
    split <;> rfl
  · intro child parent status
    split <;> simp
  · split <;> simp [announcements, Note.announces]
  · intro pid apart
    split
    · simpa [announcements, Note.announces] using Ne.symm apart
    · simp [announcements]

/-- Every deed keeps the records true, except ending somebody a second time. -/
theorem Truthful.after (truthful : s.Truthful) (numbered : s.Numbered) {d : Deed} (fair : s.Fair d)
    (first : ∀ i, d.Ends i → (s.folk i).presence = .living) : (s.after d).Truthful := by
  have quiet {t : People} (log : t.log = s.log) (next : t.nextPid = s.nextPid)
      (people : ∀ i, TrueOf s.log (t.folk i))
      (records : ∀ k, (t.records k).used →
        firstEnd s.log (t.records k).pid = some (t.records k).status) : t.Truthful :=
    truthful.of_quiet (by simp [log] : t.log = s.log ++ []) (fun _ => rfl) (fun _ => rfl) (by simp)
      (by rw [next]) people records
  have everybody (i : Slot) : TrueOf s.log (s.folk i) := ⟨truthful.ended i, truthful.living i⟩
  have changed {i : Slot} {q : Person} (ok : TrueOf s.log q) (j : Slot) :
      TrueOf s.log ((s.set i q).folk j) := by
    by_cases here : j = i
    · subst here
      simpa using ok
    rw [set_folk_other s q here]
    exact everybody j
  cases d with
  | none => exact truthful
  | born i creator =>
    obtain ⟨-, -, below⟩ := fair
    apply truthful.of_quiet (show (s.after (.born i creator)).log =
      s.log ++ [.born s.nextPid (s.folk creator).pid] from rfl)
    · exact fun _ => rfl
    · exact fun _ => rfl
    · simp
    · change _ ≤ (s.nextPid + 1).toNat
      rw [BitVec.toNat_add, Nat.mod_eq_of_lt (by simp; omega)]
      exact Nat.le_add_right _ _
    · apply changed
      constructor
      · intro dead
        cases dead
      · intro _
        exact truthful.future _ (le_refl _)
    · exact truthful.records
  | ended i status heir =>
    obtain ⟨ann, notes⟩ := ended_notes status heir fair.1
    apply truthful.of_end numbered notes (.inl (first i ⟨status, heir, rfl⟩))
      (ended_nextPid i status heir) (ended_records i status heir)
    · rw [ended_presence, ended_pid, ended_exitStatus]
      simp
    · intro j other
      rw [ended_presence, ended_pid, ended_exitStatus]
      simp [other]
  | retired i =>
    have notes : EndNotes s (s.after (.retired i)) i (s.folk i).exitStatus [] :=
      ⟨rfl, fun _ => rfl, by simp, by simp [announcements], by simp [announcements]⟩
    refine truthful.of_end numbered notes ?_ rfl rfl ?_ ?_
    · cases presence : (s.folk i).presence with
      | absent => exact absurd presence fair
      | living => exact .inl rfl
      | ended => exact .inr ⟨rfl, rfl, rfl⟩
    · simp [People.after, retire, note]
    · intro j other
      simp [People.after, retire, note, set, other]
  | reaped i k r =>
    obtain ⟨dead, used, pid, ppid, status⟩ := fair
    refine quiet rfl rfl (changed (by simp [TrueOf])) fun j here => ?_
    by_cases new : j = k
    · subst new
      simpa [People.after, record, set, pid, status] using truthful.ended i dead
    have same : (s.after (.reaped i k r)).records j = s.records j := by
      simp [People.after, record, set, new]
    rw [same] at here ⊢
    exact truthful.records j here
  | traced i tracer | confined i sandbox =>
    exact quiet rfl rfl (changed (everybody i)) truthful.records
  | reported k parent =>
    apply truthful.of_quiet (show (s.after (.reported k parent)).log = s.log ++
      [.reported (s.records k).pid (s.folk parent).pid (s.records k).status] from rfl)
    · exact fun _ => rfl
    · exact fun _ => rfl
    · intro child by_ status here
      simp only [mem_singleton] at here
      obtain ⟨rfl, -, rfl⟩ := here
      exact truthful.records k fair.1
    · exact le_refl _
    · exact everybody
    · intro j used
      by_cases same : j = k
      · subst same
        simp [People.after, record, note] at used
      have kept : (s.after (.reported k parent)).records j = s.records j := by
        simp [People.after, record, note, same]
      rw [kept] at used ⊢
      exact truthful.records j used

end People

variable {m : Machine}

end UzOS.Kernel
