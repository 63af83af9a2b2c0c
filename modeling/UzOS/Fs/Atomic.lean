import UzOS.Fs.Access
import UzOS.Fs.TreeRun

/-! A call into the RAM disk that fails leaves everything as it was. -/
namespace UzOS.Fs

section
variable {d : Disk} {alloc dir : Option NodeId} {name : Name} {type : Kind} {x p : NodeId}

/-- ramdisk_finddir finds the node that was just hung. -/
theorem finddir_hangNew (makes : Makes d x p name) (tree : Tree d) :
    ramdiskFinddir (hangNew d x p name type) p name = some x := by
  have apart : x ≠ p := by
    rintro rfl
    cases makes.live.symm.trans makes.dead
  have list : ((hangNew d x p name type).node p).children = (d.node p).children ++ [x] := by
    rw [hangNew_node p apart, if_neg apart.symm, if_pos rfl]
  have old : (d.node p).children.find?
      (fun c => ((hangNew d x p name type).node c).name == name) = none := by
    rw [List.find?_eq_none]
    intro c member
    obtain ⟨_, liveC, _⟩ := tree.live_of_child (Disk.shape_children.mpr ⟨makes.live, member⟩)
    have other : c ≠ x := by
      rintro rfl
      cases liveC.symm.trans makes.dead
    have kept : ((hangNew d x p name type).node c).name = (d.node c).name := by
      rw [hangNew_node c apart, if_neg other]
      split
      · rename_i here
        rw [here]
      · rfl
    simpa [kept] using makes.absent c member
  have new : ((hangNew d x p name type).node x).name = name := by
    rw [hangNew_node x apart]
    simp [newNode]
  rw [ramdiskFinddir, list, List.find?_append, old]
  simp [new]

/-- Taking the new node out again leaves the disk as it was. -/
theorem takeBack_same (makes : Makes d x p name) (tree : Tree d) :
    Same d ((removeChild (hangNew d x p name type) p x).free x) := by
  have apart : x ≠ p := by
    rintro rfl
    cases makes.live.symm.trans makes.dead
  have unlisted : x ∉ (d.node p).children := by
    intro member
    obtain ⟨_, live, _⟩ := tree.live_of_child (Disk.shape_children.mpr ⟨makes.live, member⟩)
    cases live.symm.trans makes.dead
  refine ⟨rfl, ?_, rfl, fun y live => ?_⟩
  · simp only [Disk.free, removeChild, hangNew, modify_live, newNode, Function.update_idem]
    exact Function.update_eq_self_iff.mpr makes.dead.symm
  · have other : y ≠ x := by
      rintro rfl
      cases live.symm.trans makes.dead
    have node : ((removeChild (hangNew d x p name type) p x).free x).node y =
        (removeChild (hangNew d x p name type) p x).node y := rfl
    rw [node, removeChild_node, hangNew_node p apart, hangNew_node y apart, if_neg apart.symm]
    split
    · rename_i here
      subst here
      simp [List.erase_append_right _ unlisted]
    · rfl

/-- A symbolic link whose text finds no memory leaves no trace. -/
theorem symlink_undone (makes : Makes d x p name) (tree : Tree d) (free : x ∉ d.cwds) :
    Same d (ramdiskDelete (hangNew d x p name .link) (some p) name).2 := by
  have apart : x ≠ p := by
    rintro rfl
    cases makes.live.symm.trans makes.dead
  have isOurs : ours (hangNew d x p name .link) (some p) := by
    simp only [ours, hangNew_node p apart, if_neg apart.symm]
    exact makes.isOurs
  have own : (hangNew d x p name .link).node x =
      { (newNode d x name .link).node x with parent := some p } := by
    rw [hangNew_node x apart, if_pos rfl]
  have inner : x ≠ (hangNew d x p name .link).root := by
    rintro same
    have top := (Disk.shape_parent.mp tree.valid.top).1
    cases top.symm.trans (same ▸ makes.dead)
  have allowed : defDeleteAllowed (hangNew d x p name .link) x := by
    have cwds : (hangNew d x p name .link).cwds = d.cwds := rfl
    simp [defDeleteAllowed, own, newNode, inner, cwds, free]
  have isLink : ((hangNew d x p name .link).node x).flags = .link := by simp [own, newNode]
  have kept : ((removeChild (hangNew d x p name .link) p x).node x).flags = .link := by
    rw [removeChild_node, if_neg apart, isLink]
  have taken : ramdiskDelete (hangNew d x p name .link) (some p) name =
      (0, (removeChild (hangNew d x p name .link) p x).free x) := by
    simp [ramdiskDelete, isOurs, finddir_hangNew makes tree, isLink, allowed, kept]
  rw [taken]
  exact takeBack_same makes tree

theorem exchange_outcome {a b : Option NodeId} (tree : Tree d) (liveA : a.all d.live)
    (liveB : b.all d.live) :
    ramdiskExchange d a b = (-1, d) ∨ ∃ x y p q i j, Exchanges d x y p q i j ∧
      ramdiskExchange d a b = (0, exchanged d x y p q i j) := by
  cases a with
  | none => exact .inl rfl
  | some x =>
    cases b with
    | none => exact .inl rfl
    | some y =>
      by_cases allowed : exchangeAllowed d x y
      · obtain ⟨p, q, i, j, goes, result⟩ := exchange_goes tree liveA liveB allowed
        exact .inr ⟨x, y, p, q, i, j, goes, result⟩
      · exact .inl (by simp [ramdiskExchange, allowed])

end

end UzOS.Fs
