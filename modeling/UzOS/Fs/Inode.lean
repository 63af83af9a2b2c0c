import UzOS.Fs.TreeRun
import UzOS.Lib.References

/-! The names and the descriptors of a file against the two counters of its
inode. -/
namespace UzOS.Fs

open References (Counts aimedAt)

/-- A file, and not just a name of one. -/
structure Disk.Inode (d : Disk) (x : NodeId) : Prop where
  live : d.live x = true
  file : (d.node x).flags = .file
  own : (d.node x).target = none

/-- A node that a descriptor can hold. -/
def Disk.Holdable (d : Disk) (x : NodeId) : Prop := d.live x = true ∧ (d.node x).target = none

/-- The inode that `c` is a name of, if it is the name of a file. -/
def Disk.naming (d : Disk) (c : NodeId) : Option NodeId :=
  if d.live c && (d.node c).parent.isSome && (d.node c).flags == .file then some (vfsInode d c)
  else none

/-- A link leads to an inode and is in a directory, an inode counts its names,
and what descriptors hold counts them. -/
structure Tracked {η : Type} (d : Disk) (held : η → Option NodeId) : Prop where
  top : d.live d.root = true ∧ (d.node d.root).flags = .directory
  links : ∀ c t, d.live c = true → (d.node c).target = some t →
    d.Inode t ∧ (d.node c).flags = .file ∧ (d.node c).parent ≠ none
  freeable : ∀ x, d.Inode x → (d.node x).release = true
  names : Counts d.naming d.Inode fun x => (d.node x).nlink
  descriptors : Counts held d.Holdable fun x => (d.node x).openCount

/-- An inode is there for a name or for a descriptor. -/
structure Counted {η : Type} (d : Disk) (held : η → Option NodeId) : Prop
    extends Tracked d held where
  needed : ∀ x, d.Inode x → (d.node x).nlink ≠ 0 ∨ (d.node x).openCount ≠ 0

/-- Two nodes of one kind, both in a directory or neither. -/
structure Node.Kin (n m : Node) : Prop where
  flags : m.flags = n.flags
  target : m.target = n.target
  placed : m.parent.isSome = n.parent.isSome
  release : m.release = n.release

theorem Node.Kin.refl (n : Node) : n.Kin n := ⟨rfl, rfl, rfl, rfl⟩

theorem Node.Kin.trans {n m k : Node} (a : n.Kin m) (b : m.Kin k) : n.Kin k :=
  ⟨b.flags.trans a.flags, b.target.trans a.target, b.placed.trans a.placed,
    b.release.trans a.release⟩

/-- Every node but those `moved` stays what it is. -/
structure Shifts (d e : Disk) (moved : NodeId → Prop) : Prop where
  root : e.root = d.root
  live : ∀ y, ¬ moved y → e.live y = d.live y
  kin : ∀ y, ¬ moved y → d.live y = true → (d.node y).Kin (e.node y)

theorem naming_eq {d : Disk} {c t : NodeId} :
    d.naming c = some t ↔ d.live c ∧ (d.node c).parent ≠ none ∧ (d.node c).flags = .file ∧
      vfsInode d c = t := by
  simp [Disk.naming, Option.isSome_iff_ne_none, and_assoc]

theorem Node.Kin.parent_ne {n m : Node} (kin : n.Kin m) : m.parent ≠ none ↔ n.parent ≠ none := by
  rw [← Option.isSome_iff_ne_none, ← Option.isSome_iff_ne_none, kin.placed]

section
variable {η : Type} {d e : Disk} {held held' : η → Option NodeId} {moved : NodeId → Prop}

theorem Shifts.naming_eq (shifts : Shifts d e moved) {c : NodeId} (stays : ¬ moved c) :
    e.naming c = d.naming c := by
  by_cases live : d.live c
  · have kin := shifts.kin c stays live
    simp only [Disk.naming, shifts.live c stays, kin.placed, kin.flags, vfsInode, kin.target]
  · simp [Disk.naming, shifts.live c stays, live]

theorem Shifts.naming_update {x : NodeId} (shifts : Shifts d e (· = x)) :
    e.naming = Function.update d.naming x (e.naming x) := by
  funext c
  by_cases here : c = x
  · rw [here, Function.update_self]
  · rw [Function.update_of_ne here, shifts.naming_eq here]

theorem Shifts.holdable (shifts : Shifts d e moved) {y : NodeId} (stays : ¬ moved y) :
    e.Holdable y ↔ d.Holdable y := by
  unfold Disk.Holdable
  rw [shifts.live y stays]
  by_cases live : d.live y
  · rw [(shifts.kin y stays live).target]
  · simp [live]

theorem Shifts.inode (shifts : Shifts d e moved) {y : NodeId} (stays : ¬ moved y) :
    e.Inode y ↔ d.Inode y := by
  constructor
  · rintro ⟨live, file, own⟩
    rw [shifts.live y stays] at live
    have kin := shifts.kin y stays live
    exact ⟨live, kin.flags ▸ file, kin.target ▸ own⟩
  · rintro ⟨live, file, own⟩
    have kin := shifts.kin y stays live
    exact ⟨(shifts.live y stays).trans live, kin.flags.trans file, kin.target.trans own⟩

/-- What is left to see when some nodes change their kind or place. -/
theorem Shifts.tracked (shifts : Shifts d e moved) (tracked : Tracked d held)
    (inner : ¬ moved d.root)
    (link : ∀ x t, moved x → e.live x → (e.node x).target = some t →
      e.Inode t ∧ (e.node x).flags = .file ∧ (e.node x).parent ≠ none)
    (aimed : ∀ c x, moved x → d.live c → (d.node c).target = some x → ¬ moved c → e.Inode x)
    (freeable : ∀ x, moved x → e.Inode x → (e.node x).release)
    (names : Counts e.naming e.Inode fun y => (e.node y).nlink)
    (descriptors : Counts held' e.Holdable fun y => (e.node y).openCount) : Tracked e held' where
  top := by
    have kin := shifts.kin d.root inner tracked.top.1
    rw [shifts.root, shifts.live _ inner, kin.flags]
    exact tracked.top
  links := by
    intro c t live target
    by_cases here : moved c
    · exact link c t here live target
    rw [shifts.live c here] at live
    have kin := shifts.kin c here live
    rw [kin.target] at target
    obtain ⟨inode, file, placed⟩ := tracked.links c t live target
    refine ⟨?_, kin.flags.trans file, kin.parent_ne.mpr placed⟩
    by_cases there : moved t
    · exact aimed c t there live target here
    · exact (shifts.inode there).mpr inode
  freeable := by
    intro y inode
    by_cases here : moved y
    · exact freeable y here inode
    have before := (shifts.inode here).mp inode
    rw [(shifts.kin y here before.live).release]
    exact tracked.freeable y before
  names := names
  descriptors := descriptors

/-- Nodes that stay what they are, and counters that stay with them. -/
theorem Counted.same (counted : Counted d held) (shifts : Shifts d e fun _ => False)
    (counts : ∀ y, d.live y → (e.node y).nlink = (d.node y).nlink ∧
      (e.node y).openCount = (d.node y).openCount) : Counted e held := by
  have inode : ∀ y, e.Inode y ↔ d.Inode y := fun y => shifts.inode id
  have naming : e.naming = d.naming := funext fun c => shifts.naming_eq id
  refine ⟨shifts.tracked counted.toTracked id (fun _ _ no => no.elim) (fun _ _ no => no.elim)
    (fun _ no => no.elim) ?_ ?_, ?_⟩
  · rw [naming]
    exact counted.names.alter (fun k lives dead => absurd ((inode k).mp lives) dead)
      (fun k _ lived => (counts k lived.live).1) fun k lived dead => absurd ((inode k).mpr lived) dead
  · exact counted.descriptors.alter
      (fun k lives dead => absurd ((shifts.holdable id).mp lives) dead)
      (fun k _ lived => (counts k lived.1).2)
      fun k lived dead => absurd ((shifts.holdable id).mpr lived) dead
  · intro y lives
    have lived := (inode y).mp lives
    obtain ⟨links, opens⟩ := counts y lived.live
    rw [links, opens]
    exact counted.needed y lived

end

end UzOS.Fs
