import UzOS.Fs.Counting

/-! The counters over each call into the RAM disk and each descriptor that is
opened or closed. -/
namespace UzOS.Fs

/-- What lasts over a call: a node that stays is what it was, and nobody's
current directory goes. -/
structure Lasting (d e : Disk) : Prop where
  kinds : ∀ y, d.live y = true → e.live y = true →
    (e.node y).flags = (d.node y).flags ∧ (e.node y).target = (d.node y).target
  homes : ∀ c ∈ d.cwds, d.live c = true → (d.node c).flags = .directory → e.live c = true
  cwds : e.cwds = d.cwds

theorem Lasting.refl (d : Disk) : Lasting d d := ⟨fun _ _ _ => ⟨rfl, rfl⟩, fun _ _ live _ => live, rfl⟩

section
variable {η : Type} {d e : Disk} {held : η → Option NodeId} {x p : NodeId}

/-- Nothing is made again in the second call. -/
theorem Lasting.trans {f : Disk} (first : Lasting d e) (second : Lasting e f)
    (fewer : ∀ y, f.live y → e.live y) : Lasting d f where
  kinds := by
    intro y live still
    obtain ⟨flags, target⟩ := first.kinds y live (fewer y still)
    obtain ⟨flags', target'⟩ := second.kinds y (fewer y still) still
    exact ⟨flags'.trans flags, target'.trans target⟩
  homes := by
    intro c home live directory
    have middle := first.homes c home live directory
    exact second.homes c (first.cwds ▸ home) middle ((first.kinds c live middle).1.trans directory)
  cwds := second.cwds.trans first.cwds

theorem Same.lasting (same : Same d e) : Lasting d e where
  kinds := fun y live _ => by rw [same.node y live]; exact ⟨rfl, rfl⟩
  homes := fun c _ live _ => by rw [same.live]; exact live
  cwds := same.cwds

theorem Same.counted (same : Same d e) (counted : Counted d held) : Counted e held := by
  refine counted.same ⟨same.root, fun y _ => by rw [same.live], fun y _ live => ?_⟩ fun y live => ?_
  · rw [same.node y live]
    exact .refl _
  · rw [same.node y live]
    exact ⟨rfl, rfl⟩

/-- A change of what nobody counts, at one node. -/
theorem modify_counted (counted : Counted d held) {f : Node → Node} (kin : (d.node x).Kin (f (d.node x)))
    (nlink : (f (d.node x)).nlink = (d.node x).nlink)
    (opens : (f (d.node x)).openCount = (d.node x).openCount) :
    Counted (d.modify x f) held ∧ Lasting d (d.modify x f) := by
  have node := fun y => modify_node d x y f
  refine ⟨counted.same ⟨rfl, fun _ _ => rfl, fun y _ _ => ?_⟩ fun y _ => ?_,
    ⟨fun y _ _ => ?_, fun _ _ live _ => live, rfl⟩⟩
  all_goals
    rw [node y]
    split
    · rename_i here
      subst here
      first | exact kin | exact ⟨nlink, opens⟩ | exact ⟨kin.flags, kin.target⟩
    · first | exact .refl _ | exact ⟨rfl, rfl⟩

theorem Adds.lasting {link : Option NodeId} {type : Kind} (adds : Adds d e x link type)
    (cwds : e.cwds = d.cwds) : Lasting d e := by
  have other : ∀ y, d.live y → y ≠ x := by
    rintro y live rfl
    cases live.symm.trans adds.dead
  refine ⟨fun y live _ => ?_, fun c _ live _ => ?_, cwds⟩
  · have kin := adds.shifts.kin y (other y live) live
    exact ⟨kin.flags, kin.target⟩
  · rw [adds.shifts.live c (other c live)]
    exact live

/-- An entry leads to a node that a descriptor can hold. -/
theorem Tracked.holdable (tracked : Tracked d held) {c : NodeId} (live : d.live c) :
    d.Holdable (vfsInode d c) := by
  unfold vfsInode
  cases target : (d.node c).target with
  | none => exact ⟨live, target⟩
  | some t =>
    have inode := (tracked.links c t live target).1
    exact ⟨inode.live, inode.own⟩

/-! The calls. -/

section
variable {alloc dir : Option NodeId} (counted : Counted d held)
  (fresh : alloc.all (!d.live ·) = true) (live : dir.all d.live = true)
include counted fresh live

theorem create_counted (name : Name) (type : Kind) :
    Counted (ramdiskCreate d alloc dir name type).2 held ∧
      Lasting d (ramdiskCreate d alloc dir name type).2 := by
  rcases create_outcome name type fresh live with ⟨x, p, _, _, makes, made⟩ | ⟨_, same⟩
  · have adds := hangNew_adds name type makes.dead makes.live
    rw [made]
    exact ⟨adds.counted counted, adds.lasting rfl⟩
  · exact ⟨same.counted counted, same.lasting⟩

theorem link_counted (name : Name) (inode : Option NodeId) (livesInode : inode.all d.live) :
    Counted (ramdiskLink d alloc dir name inode).2 held ∧
      Lasting d (ramdiskLink d alloc dir name inode).2 := by
  have nothing : Counted d held ∧ Lasting d d := ⟨counted, .refl d⟩
  cases inode with
  | none => exact nothing
  | some entry =>
    simp only [ramdiskLink]
    split
    · exact nothing
    rename_i checked
    split
    · exact nothing
    simp only [Bool.or_eq_true, bne_iff_ne, not_or, not_not] at checked
    obtain ⟨isLive, own⟩ := counted.holdable livesInode
    rcases create_outcome name .file fresh live with ⟨x, p, _, _, makes, made⟩ | ⟨failed, same⟩
    · have adds := link_adds name makes.dead makes.live ⟨isLive, checked.1, own⟩
      rw [made]
      exact ⟨adds.counted counted, adds.lasting rfl⟩
    · rcases made : ramdiskCreate d alloc dir name .file with ⟨result, e⟩
      rw [made] at failed same
      cases result with
      | none => exact ⟨same.counted counted, same.lasting⟩
      | some x => cases failed

theorem symlink_counted (tree : Tree d) (homes : ∀ c ∈ d.cwds, d.live c)
    (name target : Name) (text : Bool) :
    Counted (ramdiskSymlink d alloc dir name target text).2 held ∧
      Lasting d (ramdiskSymlink d alloc dir name target text).2 := by
  simp only [ramdiskSymlink]
  split
  · exact ⟨counted, .refl d⟩
  rcases create_outcome name .link fresh live with ⟨x, p, _, isDir, makes, made⟩ | ⟨failed, same⟩
  · have adds := hangNew_adds name .link makes.dead makes.live
    rw [made]
    cases text with
    | true =>
      obtain ⟨counts, lasts⟩ := modify_counted (adds.counted counted) (x := x) (f := fun n =>
        { n with bytes := ⟨Buffer.blit (fun _ => 0) 0 target, target.length, target.length⟩ })
        ⟨rfl, rfl, rfl, rfl⟩ rfl rfl
      exact ⟨counts, (adds.lasting rfl).trans lasts fun _ => id⟩
    | false =>
      have free : x ∉ d.cwds := by
        intro home
        cases (homes x home).symm.trans makes.dead
      subst isDir
      have undone := symlink_undone makes tree free
      exact ⟨undone.counted counted, undone.lasting⟩
  · rcases made : ramdiskCreate d alloc dir name .link with ⟨result, e⟩
    rw [made] at failed same
    cases result with
    | none => exact ⟨same.counted counted, same.lasting⟩
    | some x => cases failed

end

/-- A directory's list is not counted. -/
theorem removeChild_counted (counted : Counted d held) (p x : NodeId) :
    Counted (removeChild d p x) held :=
  (modify_counted counted ⟨rfl, rfl, rfl, rfl⟩ rfl rfl).1

/-- A file loses one of its names. -/
theorem dropName_counted (counted : Counted d held) {c : NodeId} (live : d.live c)
    (placed : (d.node c).parent ≠ none) (file : (d.node c).flags = .file) :
    Counted (dropName d c) held := by
  have named : d.naming c = some (vfsInode d c) := naming_eq.mpr ⟨live, placed, file, rfl⟩
  have inode : d.Inode (vfsInode d c) := counted.names.aimed named
  have tracked := counted.toTracked.unname named
  refine tracked.settle ((unname_inode named _).mpr inode) fun y other lives => ?_
  obtain ⟨_, _, _, opens, links, _⟩ := unname_node (d := d) c (vfsInode d c) y
  rw [links, opens, if_neg other]
  exact counted.needed y ((unname_inode named y).mp lives)

/-- Only files go with their names. -/
theorem dropName_lasting {c : NodeId} (file : (d.node c).flags = .file)
    (inode : (d.node (vfsInode d c)).flags = .file) : Lasting d (dropName d c) := by
  have live : ∀ y, (d.node y).flags ≠ .file → d.live y → (dropName d c).live y := by
    intro y other live
    have away : y ≠ c := fun same => other (same ▸ file)
    have apart : y ≠ vfsInode d c := fun same => other (same ▸ inode)
    have kept := (unname_shifts (d := d) c (vfsInode d c)).live y away
    unfold dropName
    extract_lets i u
    split
    · simp [Disk.free, i, apart, u, kept, live]
    · rw [kept, live]
  have node : ∀ y, (dropName d c).node y = (unname d c (vfsInode d c)).node y := by
    intro y
    unfold dropName
    extract_lets i u
    split <;> rfl
  refine ⟨fun y _ _ => ?_, fun y _ isLive directory => live y (by simp [directory]) isLive, ?_⟩
  · obtain ⟨flags, target, _⟩ := unname_node (d := d) c (vfsInode d c) y
    rw [node y]
    exact ⟨flags, target⟩
  · have unnamed : (unname d c (vfsInode d c)).cwds = d.cwds := by
      unfold unname
      split <;> rfl
    unfold dropName
    extract_lets
    split <;> exact unnamed

theorem free_fewer {x y : NodeId} (live : (d.free x).live y) : d.live y := by
  by_cases here : y = x
  · simp [Disk.free, here] at live
  · simpa [Disk.free, here] using live

theorem dropName_fewer {c y : NodeId} (live : (dropName d c).live y) : d.live y := by
  have unnamed : (unname d c (vfsInode d c)).live y → d.live y := by
    unfold unname
    split
    · exact id
    · exact free_fewer
  unfold dropName at live
  extract_lets i u at live
  split at live
  · exact unnamed (free_fewer live)
  · exact unnamed live

theorem removeChild_lasting (p x : NodeId) : Lasting d (removeChild d p x) := by
  refine ⟨fun y _ _ => ?_, fun _ _ live _ => live, rfl⟩
  rw [removeChild_node]
  split
  · rename_i here
    rw [here]
    exact ⟨rfl, rfl⟩
  · exact ⟨rfl, rfl⟩

variable (counted : Counted d held)
include counted

theorem delete_counted (tree : Tree d) {dir : Option NodeId} (name : Name) (live : dir.all d.live) :
    Counted (ramdiskDelete d dir name).2 held ∧ Lasting d (ramdiskDelete d dir name).2 := by
  rcases delete_outcome d dir name with failed | ⟨p, x, isDir, listed, allowed, taken⟩
  · rw [failed]
    exact ⟨counted, .refl d⟩
  subst isDir
  obtain ⟨inner, liveX, up⟩ := tree.live_of_child (Disk.shape_children.mpr ⟨live, listed⟩)
  have out := removeChild_counted counted p x
  have lasts := removeChild_lasting (d := d) p x
  obtain ⟨flags, target⟩ := lasts.kinds x liveX liveX
  have parent := (removeChild_place d p x x).1
  rw [taken]
  split
  · rename_i file
    have fileX := flags.trans file
    have placed : ((removeChild d p x).node x).parent ≠ none := by simp [parent, up]
    have named : (removeChild d p x).naming x = some _ := naming_eq.mpr ⟨liveX, placed, fileX, rfl⟩
    have drops := dropName_lasting fileX (out.names.aimed named).file
    exact ⟨dropName_counted out liveX placed fileX, lasts.trans drops fun _ => dropName_fewer⟩
  · rename_i other
    have notFile : ((removeChild d p x).node x).flags ≠ .file := fun file => other (flags ▸ file)
    have free : x ∉ d.cwds ∧ (d.node x).openCount = 0 := by
      simp only [defDeleteAllowed, Bool.not_eq_true', Bool.or_eq_false_iff, bne_eq_false_iff_eq,
        List.contains_eq_mem, decide_eq_false_iff_not] at allowed
      exact ⟨allowed.2, allowed.1.1.2⟩
    have opens : ((removeChild d p x).node x).openCount = 0 := by
      rw [removeChild_node]
      split
      · rename_i here
        exact here ▸ free.2
      · exact free.2
    refine ⟨⟨out.toTracked.free inner ?_ ?_ ?_ fun _ => opens, ?_⟩, ?_⟩
    · simp [Disk.naming, notFile]
    · intro c isLive target
      exact notFile (out.links c x isLive target).1.file
    · exact fun inode => absurd inode.file notFile
    · intro y lives
      exact out.needed y ⟨free_fewer lives.live, lives.file, lives.own⟩
    · refine lasts.trans ⟨fun _ _ _ => ⟨rfl, rfl⟩, fun c home isLive _ => ?_, rfl⟩
        fun _ => free_fewer
      have away : c ≠ x := fun same => free.1 (same ▸ home)
      simpa [Disk.free, away] using isLive

/-- The nodes of `e` are those of `d`, in other places. -/
theorem rearranged (root : e.root = d.root) (live : e.live = d.live) (cwds : e.cwds = d.cwds)
    (kin : ∀ y, (d.node y).Kin (e.node y) ∧ (e.node y).nlink = (d.node y).nlink ∧
      (e.node y).openCount = (d.node y).openCount) : Counted e held ∧ Lasting d e := by
  refine ⟨counted.same ⟨root, fun y _ => by rw [live], fun y _ _ => (kin y).1⟩
    fun y _ => (kin y).2, fun y _ _ => ⟨(kin y).1.flags, (kin y).1.target⟩, fun c _ isLive _ => ?_,
    cwds⟩
  rw [live]
  exact isLive

theorem move_counted (tree : Tree d) {node newDir : Option NodeId}
    (newName : Name) (liveNode : node.all d.live) (liveDir : newDir.all d.live) :
    Counted (ramdiskMove d node newDir newName).2 held ∧
      Lasting d (ramdiskMove d node newDir newName).2 := by
  rcases move_outcome d node newDir newName with failed | ⟨x, q, p, rfl, rfl, goes, moves⟩
  · rw [failed]
    exact ⟨counted, .refl d⟩
  rcases moves with ⟨_, renamed⟩ | ⟨apart, -, moved⟩
  · rw [renamed]
    dsimp only
    refine modify_counted counted ?_ ?_ ?_
    · exact ⟨rfl, rfl, rfl, rfl⟩
    · rfl
    · rfl
  · have parent : d.shape.parent x = some p := Disk.shape_parent.mpr ⟨liveNode, goes.up⟩
    have awayP : x ≠ p := (tree.parent_ne goes.inner parent).symm
    have directory := (tree.ours_spec liveDir goes.isOurs).1
    have clear := tree.move_clear (by simp [parent]) liveNode directory goes.allowed level
    have awayQ : x ≠ q := by
      rintro rfl
      exact clear 0 .here
    rw [moved]
    refine rearranged counted rfl rfl rfl fun y => ?_
    rw [moveTo_node y awayP awayQ apart]
    split
    · rename_i here
      subst here
      exact ⟨⟨rfl, rfl, by simp [goes.up], rfl⟩, rfl, rfl⟩
    split
    · rename_i here
      subst here
      exact ⟨⟨rfl, rfl, rfl, rfl⟩, rfl, rfl⟩
    split
    · rename_i here
      subst here
      exact ⟨⟨rfl, rfl, rfl, rfl⟩, rfl, rfl⟩
    · exact ⟨.refl _, rfl, rfl⟩

theorem exchange_counted (tree : Tree d) {a b : Option NodeId}
    (liveA : a.all d.live) (liveB : b.all d.live) :
    Counted (ramdiskExchange d a b).2 held ∧ Lasting d (ramdiskExchange d a b).2 := by
  rcases exchange_outcome tree liveA liveB with failed | ⟨x, y, p, q, i, j, goes, swapped⟩
  · rw [failed]
    exact ⟨counted, .refl d⟩
  rw [swapped]
  refine rearranged counted rfl rfl rfl fun z => ?_
  rw [exchanged_node goes.apart]
  split
  · rename_i here
    subst here
    exact ⟨⟨rfl, rfl, by simp [goes.upA], rfl⟩, rfl, rfl⟩
  split
  · rename_i here
    subst here
    exact ⟨⟨rfl, rfl, by simp [goes.upB], rfl⟩, rfl, rfl⟩
  · exact ⟨⟨rfl, rfl, rfl, rfl⟩, rfl, rfl⟩

/-! Descriptors. -/

variable [DecidableEq η] {h : η}

omit counted in
/-- The count of open descriptors changes at one node. -/
theorem recount_shifts (x : NodeId) (f : Nat → Nat) :
    Shifts d (d.modify x fun n => { n with openCount := f n.openCount }) fun _ => False := by
  refine ⟨rfl, fun _ _ => rfl, fun y _ _ => ?_⟩
  rw [modify_node]
  split
  · exact ⟨rfl, rfl, rfl, rfl⟩
  · exact .refl _

omit counted in
/-- The descriptor `h` lets go of its node and takes `v`, and the node `x`
counts that. -/
theorem recount_tracked (tracked : Tracked d held) {v : Option NodeId} (f : Nat → Nat)
    (aim : ∀ k, v = some k → d.Holdable k)
    (books : ∀ k, d.Holdable k → (if k = x then f (d.node k).openCount else (d.node k).openCount) +
      (if held h = some k then 1 else 0) = (d.node k).openCount + if v = some k then 1 else 0) :
    Tracked (d.modify x fun n => { n with openCount := f n.openCount })
      (Function.update held h v) := by
  have shifts := recount_shifts (d := d) x f
  have node := fun y => modify_node d x y fun n => { n with openCount := f n.openCount }
  have naming : (d.modify x fun n => { n with openCount := f n.openCount }).naming = d.naming :=
    funext fun c => shifts.naming_eq id
  refine shifts.tracked tracked id (fun _ _ no => no.elim) (fun _ _ no => no.elim)
    (fun _ no => no.elim) ?_ ?_
  · rw [naming]
    refine tracked.names.alter (fun k lives new => absurd ((shifts.inode id).mp lives) new) ?_
      fun k lived gone => absurd ((shifts.inode id).mpr lived) gone
    intro k _ _
    rw [node k]
    split <;> rfl
  · refine tracked.descriptors.change h v (fun k same => (shifts.holdable id).mpr (aim k same))
      (fun k lives new => absurd ((shifts.holdable id).mp lives) new) ?_
      fun k lived gone => absurd ((shifts.holdable id).mpr lived) gone
    intro k _ lived
    rw [← books k lived, node k]
    split <;> rfl

/-- A descriptor opens on a node. -/
theorem vfsOpen_counted (idle : held h = none) (holdable : d.Holdable x) :
    Counted (vfsOpen d x) (Function.update held h (some x)) ∧ Lasting d (vfsOpen d x) := by
  have node := fun y => modify_node d x y fun n => { n with openCount := n.openCount + 1 }
  have shifts := recount_shifts (d := d) x (· + 1)
  refine ⟨⟨recount_tracked counted.toTracked (· + 1) ?_ ?_, fun y lives => ?_⟩, ⟨fun y _ _ => ?_,
    fun _ _ live _ => live, rfl⟩⟩
  · rintro k ⟨⟩
    exact holdable
  · intro k _
    rw [idle]
    by_cases here : k = x
    · simp [here]
    · simp [here, Ne.symm here]
  · have needed := counted.needed y ((shifts.inode id).mp lives)
    rw [vfsOpen, node y]
    split
    · exact .inr (Nat.succ_ne_zero _)
    · exact needed
  · rw [vfsOpen, node y]
    split <;> exact ⟨rfl, rfl⟩

/-- A descriptor closes. -/
theorem vfsClose_counted (tree : Tree d) (holds : held h = some x) :
    Counted (vfsClose d x) (Function.update held h none) ∧ Lasting d (vfsClose d x) := by
  generalize counts : (d.modify x fun n => { n with openCount := n.openCount - 1 }) = e
  have node (y : NodeId) : e.node y = if y = x then
      { d.node y with openCount := (d.node y).openCount - 1 } else d.node y :=
    counts ▸ modify_node d x y _
  have shifts : Shifts d e fun _ => False := counts ▸ recount_shifts x (· - 1)
  have closes : vfsClose d x = if (e.node x).parent = none && (e.node x).release &&
      defInodeFreeOk (e.node x) then e.free x else e := by rw [← counts]; rfl
  have some := counted.descriptors.pos holds
  obtain ⟨liveX, own⟩ := counted.descriptors.aimed holds
  have tracked : Tracked e (Function.update held h none) := by
    rw [← counts]
    refine recount_tracked counted.toTracked (· - 1) nofun fun k _ => ?_
    rw [holds]
    by_cases here : k = x
    · subst here
      simp
      omega
    · simp [here, Ne.symm here]
  have others : ∀ y, y ≠ x → e.Inode y → (e.node y).nlink ≠ 0 ∨ (e.node y).openCount ≠ 0 := by
    intro y other lives
    rw [node y, if_neg other]
    exact counted.needed y ((shifts.inode id).mp lives)
  have kinds : ∀ y, ((vfsClose d x).node y).flags = (d.node y).flags ∧
      ((vfsClose d x).node y).target = (d.node y).target := by
    intro y
    have same : (vfsClose d x).node y = e.node y := by
      rw [closes]
      split <;> rfl
    rw [same, node y]
    split <;> exact ⟨rfl, rfl⟩
  have nameless := (tree.nodes x liveX).nameless
  by_cases file : (d.node x).flags = .file
  · have inode : e.Inode x := (shifts.inode id).mpr ⟨liveX, file, own⟩
    rw [tracked.freeable x inode, Bool.and_true] at closes
    refine ⟨closes ▸ tracked.settle inode others, fun y _ _ => kinds y, ?_, ?_⟩
    · intro c _ isLive directory
      have away : c ≠ x := by
        rintro rfl
        cases file.symm.trans directory
      rw [closes, ← counts]
      split
      · simpa [Disk.free, away] using isLive
      · exact isLive
    · rw [closes, ← counts]
      split <;> rfl
  · -- A directory or a symbolic link is always in a directory.
    have placed : (e.node x).parent ≠ none := by
      rw [node x, if_pos rfl]
      exact fun out => file (nameless out)
    simp only [placed] at closes
    rw [closes] at kinds ⊢
    subst counts
    refine ⟨⟨tracked, fun y lives => others y ?_ lives⟩, fun y _ _ => kinds y,
      fun _ _ live _ => live, rfl⟩
    rintro rfl
    exact file ((shifts.inode id).mp lives).file

end

end UzOS.Fs
