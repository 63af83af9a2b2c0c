import UzOS.Fs.InodeRun

/-! A call into the RAM disk that reports failure has changed nothing. -/
namespace UzOS.Fs

open Bool Option

/-- The call returns NULL or -1. -/
def Call.failed (d : Disk) : Call → Bool
  | .create alloc dir name type => (ramdiskCreate d alloc dir name type).1.isNone
  | .link alloc dir name inode => (ramdiskLink d alloc dir name inode).1.isNone
  | .symlink alloc dir name target text => (ramdiskSymlink d alloc dir name target text).1.isNone
  | .delete dir name => (ramdiskDelete d dir name).1 == -1
  | .move node newDir newName => (ramdiskMove d node newDir newName).1 == -1
  | .exchange a b => (ramdiskExchange d a b).1 == -1
  | _ => false

section
variable {d : Disk} {alloc dir : Option NodeId} (fresh : alloc.all (!d.live ·) = true)
  (live : dir.all d.live = true)
include fresh live

theorem create_failed {name : Name} {type : Kind}
    (failed : (ramdiskCreate d alloc dir name type).1 = none) :
    Same d (ramdiskCreate d alloc dir name type).2 := by
  rcases create_outcome name type fresh live with ⟨x, p, _, _, _, made⟩ | ⟨_, same⟩
  · rw [made] at failed
    cases failed
  · exact same

theorem link_failed {name : Name} {inode : Option NodeId}
    (failed : (ramdiskLink d alloc dir name inode).1 = none) :
    Same d (ramdiskLink d alloc dir name inode).2 := by
  cases inode with
  | none => exact .refl d
  | some entry =>
    simp only [ramdiskLink] at failed ⊢
    split at failed
    · rename_i refused
      rw [if_pos refused]
      exact .refl d
    rename_i checked
    rw [if_neg checked]
    split at failed
    · rename_i refused
      rw [if_pos refused]
      exact .refl d
    rename_i counted
    rw [if_neg counted]
    have creates : (ramdiskCreate d alloc dir name .file).1 = none →
        Same d (ramdiskCreate d alloc dir name .file).2 := create_failed fresh live
    generalize ramdiskCreate d alloc dir name .file = made at failed creates ⊢
    obtain ⟨result, e⟩ := made
    cases result with
    | none => exact creates rfl
    | some x => cases failed

theorem symlink_failed (tree : Tree d) (homes : ∀ c ∈ d.cwds, d.live c)
    {name target : Name} {text : Bool}
    (failed : (ramdiskSymlink d alloc dir name target text).1 = none) :
    Same d (ramdiskSymlink d alloc dir name target text).2 := by
  simp only [ramdiskSymlink] at failed ⊢
  split at failed
  · rename_i refused
    rw [if_pos refused]
    exact .refl d
  rename_i fits
  rw [if_neg fits]
  rcases create_outcome name .link fresh live with ⟨x, p, _, isDir, makes, made⟩ | ⟨none, same⟩
  · rw [made] at failed ⊢
    cases text with
    | true => cases failed
    | false =>
      subst isDir
      refine symlink_undone makes tree fun home => ?_
      cases (homes x home).symm.trans makes.dead
  · rcases made : ramdiskCreate d alloc dir name .link with ⟨result, e⟩
    rw [made] at none same
    cases result with
    | none => exact same
    | some x => cases none

end

theorem resize_kept {alloc linked : Bool} {f : File} {size : Nat}
    (failed : (ramdiskResize alloc linked f size).1 = -1) :
    (ramdiskResize alloc linked f size).2 = f := by
  unfold ramdiskResize at failed ⊢
  split
  · rfl
  rename_i checked
  rw [if_neg checked] at failed
  split
  · rename_i more
    rw [if_pos more] at failed
    cases grown : grow alloc f size with
    | none => rfl
    | some g =>
      rw [grown] at failed
      cases failed
  · rename_i less
    rw [if_neg less] at failed
    cases failed

theorem resize_failed {d : Disk} {alloc : Bool} {file : Option NodeId} {size : Nat}
    (failed : (resizeNode d alloc file size).1 = -1) : Same d (resizeNode d alloc file size).2 := by
  cases file with
  | none => exact .refl d
  | some x =>
    simp only [resizeNode] at failed ⊢
    split at failed
    · rename_i other
      rw [if_pos other]
      exact .refl d
    rename_i isFile
    rw [if_neg isFile]
    refine ⟨rfl, rfl, rfl, fun y _ => ?_⟩
    rw [modify_node, resize_kept failed]
    split
    · rename_i here
      rw [here]
    · rfl

/-- Whatever the reason of the failure, memory included, nothing has changed. -/
theorem failure_changes_nothing {s : Files} (reached : Reached s) :
    (∀ call : Call, call.sound s.disk = true → call.failed s.disk = true →
      Same s.disk (call.apply s.disk)) ∧
    ∀ alloc file size, (resizeNode s.disk alloc file size).1 = -1 →
      Same s.disk (resizeNode s.disk alloc file size).2 := by
  have sound := reached.sound
  refine ⟨fun call ok failed => ?_, fun alloc file size => resize_failed⟩
  cases call with
  | create alloc dir name type =>
    simp only [Call.sound, and_eq_true] at ok
    exact create_failed ok.1 ok.2 (isNone_iff_eq_none.mp failed)
  | link alloc dir name inode =>
    simp only [Call.sound, and_eq_true] at ok
    exact link_failed ok.1.1 ok.1.2 (isNone_iff_eq_none.mp failed)
  | symlink alloc dir name target text =>
    simp only [Call.sound, and_eq_true] at ok
    exact symlink_failed ok.1 ok.2 sound.tree (fun c home => (sound.homes c home).1)
      (isNone_iff_eq_none.mp failed)
  | delete dir name =>
    rcases delete_outcome s.disk dir name with done | ⟨_, _, _, _, _, done⟩
    · simp only [Call.apply, done]
      exact .refl _
    · simp [Call.failed, done] at failed
  | move node newDir newName =>
    rcases move_outcome s.disk node newDir newName with done | ⟨_, _, _, _, _, _, done⟩
    · simp only [Call.apply, done]
      exact .refl _
    · rcases done with ⟨_, done⟩ | ⟨_, _, done⟩ <;> simp [Call.failed, done] at failed
  | exchange a b =>
    simp only [Call.sound, and_eq_true] at ok
    rcases exchange_outcome sound.tree ok.1 ok.2 with done | ⟨_, _, _, _, _, _, _, done⟩
    · simp only [Call.apply, done]
      exact .refl _
    · simp [Call.failed, done] at failed
  | opened x | closed x | chdir cwds => cases failed

/-- No memory for the text of a symbolic link, after its node was hung. -/
theorem failure_changes_nothing_noText :
    (Call.symlink (some 3) (some 1) [0x61] [0x62] false).failed (ramdiskInit 1 none [] true) = true ∧
      Same (ramdiskInit 1 none [] true)
        ((Call.symlink (some 3) (some 1) [0x61] [0x62] false).apply (ramdiskInit 1 none [] true)) :=
  ⟨by decide +kernel, (failure_changes_nothing (.init 1 none [] true rfl)).1 _ (by decide +kernel)
    (by decide +kernel)⟩

end UzOS.Fs
