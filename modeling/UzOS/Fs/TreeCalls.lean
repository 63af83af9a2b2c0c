import UzOS.Fs.Tree

/-! What each call does to the tree, and that it stays one. -/
namespace UzOS.Fs

open Function List Option

/-- The change a call other than an exchange makes to the tree, with the checks
the source made first. -/
inductive Effect (d : Disk) : Hierarchy NodeId Name → Prop where
  | same {g : Hierarchy NodeId Name} (agree : d.shape.Agree g) : Effect d g
  | insert {x p : NodeId} {n : Name} (dead : d.live x = false) (inTree : d.shape.parent p ≠ none)
      (fits : defPathFits d p n 0 = true) (shallow : defDepthOk d p 1 = true) :
      Effect d (d.shape.insert x p n)
  | detach {x : NodeId} (leaf : ∀ c, c ≠ d.root → d.shape.parent c ≠ some x) :
      Effect d (d.shape.detach x)
  | rename {x q : NodeId} {n : Name} (inner : x ≠ d.root) (up : d.shape.parent x = some q)
      (inTree : d.shape.parent q ≠ none) (fits : defPathFits d q n (longestBelow d x) = true)
      (shallow : defDepthOk d q (1 + heightBelow d x) = true) : Effect d (d.shape.rename x n)
  | rehang {x q : NodeId} {n : Name} (inner : x ≠ d.root) (placed : d.shape.parent x ≠ none)
      (inTree : d.shape.parent q ≠ none) (clear : ∀ w m, ¬ d.shape.Below w x q m)
      (fits : defPathFits d q n (longestBelow d x) = true)
      (shallow : defDepthOk d q (1 + heightBelow d x) = true) : Effect d (d.shape.rehang x q n)

theorem level_pos (name : Name) : 0 < level name := Nat.one_pos

variable {d : Disk} {x p : NodeId} {dir : Option NodeId}

/-- A child is listed in one directory only. -/
theorem Tree.listed_once (tree : Tree d) {q : NodeId} (listed : x ∈ d.shape.children p)
    (up : (d.node x).parent = some q) : p = q :=
  Option.some.inj ((tree.live_of_child listed).2.2.symm.trans up)

theorem child_apart (listed : x ∈ (d.node p).children) (bare : (d.node x).children = []) : x ≠ p := by
  rintro rfl
  rw [bare] at listed
  cases listed

/-- A node of the tree has its parent in the tree. -/
theorem Tree.parent_in (tree : Tree d) (up : d.shape.parent x = some p) :
    d.shape.parent p ≠ none := by
  by_cases isRoot : x = d.root
  · subst isRoot
    cases up.symm.trans tree.valid.top
    simp [tree.valid.top]
  obtain ⟨n, _, below⟩ := tree.deep x (by simp [up])
  cases below with
  | here => exact absurd rfl isRoot
  | step _ same above =>
    cases up.symm.trans same
    exact above.parent_ne_none (by simp [tree.valid.top])

theorem Tree.no_children (tree : Tree d) (none : d.live x → (d.node x).children = [])
    (c : NodeId) (inner : c ≠ d.root) : d.shape.parent c ≠ some x := by
  intro up
  obtain ⟨live, parent⟩ := Disk.shape_parent.mp up
  obtain ⟨liveX, member⟩ := tree.child_of_parent inner live parent
  rw [none liveX] at member
  cases member

/-- A node and what is below it fits under a directory that passes depth_limit. -/
theorem Tree.depth_fits (tree : Tree d) {q y : NodeId} {m : Nat} {n : Name}
    (placed : d.shape.parent x ≠ none) (shallow : defDepthOk d q (1 + heightBelow d x))
    (below : d.shape.Below level x y m) : defDepthOf d q + level n + m ≤ fsDepthMax := by
  have height : m ≤ heightBelow d x := tree.below_le_deepest level placed below
  have one := level_eq n
  simp only [defDepthOk, decide_eq_true_eq] at shallow
  omega

theorem Effect.deep {g : Hierarchy NodeId Name} (tree : Tree d) (effect : Effect d g) :
    g.Within level fsDepthMax := by
  cases effect with
  | same agree => exact tree.deep.agree agree
  | @insert x p n dead inTree _ shallow =>
    have out : d.shape.parent x = none := by simp [Disk.shape, dead]
    have inner : x ≠ d.root := by
      rintro rfl
      cases out.symm.trans tree.valid.top
    apply tree.deep.insert level_pos inner out (tree.no_children (by simp [dead]))
      (tree.defDepthOf_eq inTree)
    simpa [defDepthOk, level_eq] using shallow
  | detach leaf => exact tree.deep.detach leaf
  | rename inner up inTree _ shallow =>
    exact tree.deep.rename level_pos inner up (tree.defDepthOf_eq inTree)
      fun _ _ => tree.depth_fits (by simp [up]) shallow
  | rehang inner placed inTree clear _ shallow =>
    exact tree.deep.rehang level_pos inner (tree.defDepthOf_eq inTree) (clear level)
      fun _ _ => tree.depth_fits placed shallow

/-! Creating. -/

theorem finddir_none {name : Name} (absent : (ramdiskFinddir d p name).isSome = false) :
    ∀ c ∈ (d.node p).children, (d.node c).name ≠ name := by
  intro c member same
  simp only [ramdiskFinddir, isSome_eq_false_iff, isNone_iff_eq_none,
    List.find?_eq_none, beq_iff_eq] at absent
  exact absent c member same

/-- The same disk as far as anyone can see: entries and their order, names,
parents, counters, sizes and bytes. What memory without a node holds may differ. -/
structure Same (d e : Disk) : Prop where
  root : e.root = d.root
  live : e.live = d.live
  cwds : e.cwds = d.cwds
  node : ∀ x, d.live x = true → e.node x = d.node x

theorem Same.refl (d : Disk) : Same d d := ⟨rfl, rfl, rfl, fun _ _ => rfl⟩

/-- The new node `x` hung below `p`. -/
def hangNew (d : Disk) (x p : NodeId) (name : Name) (type : Kind) : Disk :=
  ((newNode d x name type).modify p fun n => { n with children := n.children ++ [x] }).modify x
    fun n => { n with parent := some p }

section
variable {d : Disk} {x p : NodeId} {name : Name} {type : Kind}

theorem hangNew_shape (dead : d.live x = false) (live : d.live p) :
    (hangNew d x p name type).shape = d.shape.insert x p name := by
  have apart : p ≠ x := by
    rintro rfl
    cases live.symm.trans dead
  simp only [hangNew, Disk.shape]
  congr 1 <;> funext y
  -- the new node, its directory and the others, for each of the three maps
  all_goals
    by_cases new : y = x
    · subst new
      simp [newNode, dead, apart.symm]
    by_cases here : y = p
    · subst here
      simp [newNode, new, live]
    · simp [newNode, new, here]

theorem hangNew_node (y : NodeId) (apart : x ≠ p) :
    (hangNew d x p name type).node y =
      if y = x then { (newNode d x name type).node x with parent := some p }
      else if y = p then { d.node p with children := (d.node p).children ++ [x] }
      else d.node y := by
  by_cases new : y = x
  · subst new
    simp [hangNew, apart]
  by_cases here : y = p
  · subst here
    simp [hangNew, newNode, new]
  · simp [hangNew, newNode, new, here]

/-- What ramdisk_create has checked when it makes a node. -/
structure Makes (d : Disk) (x p : NodeId) (name : Name) : Prop where
  dead : d.live x = false
  live : d.live p = true
  isOurs : ours d (some p) = true
  absent : ∀ c ∈ (d.node p).children, (d.node c).name ≠ name
  proper : defNewNameOk name = true
  fits : defPathFits d p name 0 = true
  deep : defDepthOk d p 1 = true
  room : (d.node p).children.length < fsMaxChildren

theorem Tree.hangNew (tree : Tree d) (makes : Makes d x p name) :
    Tree (hangNew d x p name type) ∧ Effect d (hangNew d x p name type).shape := by
  obtain ⟨dead, live, isOurs, free, proper, fits, shallow, room⟩ := makes
  obtain ⟨directory, inTree⟩ := tree.ours_spec live isOurs
  have apart : x ≠ p := by
    rintro rfl
    cases live.symm.trans dead
  have shape : (Fs.hangNew d x p name type).shape = _ := hangNew_shape dead live
  have effect : Effect d (Fs.hangNew d x p name type).shape :=
    shape ▸ .insert dead inTree fits shallow
  refine ⟨⟨?_, effect.deep tree, ?_, ?_, ?_⟩, effect⟩
  · rw [shape]
    apply tree.valid.insert
    · simp [Disk.shape, dead]
    · rwa [Disk.shape_children_live live]
  · intro q
    rw [shape]
    by_cases here : q = p
    · subst here
      simp only [Hierarchy.insert, update_self, length_append, length_singleton,
        Disk.shape_children_live live]
      omega
    · simpa [Hierarchy.insert, here] using tree.width q
  · intro q c member
    rw [shape] at member ⊢
    by_cases new : c = x
    · simpa [Hierarchy.insert, new] using proper
    have old : c ∈ d.shape.children q := by
      by_cases here : q = p
      · subst here
        simpa [Hierarchy.insert, new] using member
      · simpa [Hierarchy.insert, here] using member
    simpa [Hierarchy.insert, new] using tree.names q c old
  · intro y isLive
    rw [hangNew_node y apart]
    by_cases new : y = x
    · rw [if_pos new]
      exact ⟨by simp [newNode], fun _ => by simp [newNode], fun out => (by cases out)⟩
    have old := tree.nodes y (by simpa [Fs.hangNew, newNode, new] using isLive)
    rw [if_neg new]
    split
    · rename_i here
      subst here
      exact ⟨old.driver, fun other => absurd directory other, old.nameless⟩
    · exact old

/-- A node for which there was no room. -/
theorem newNode_free_same (dead : d.live x = false) : Same d ((newNode d x name type).free x) := by
  refine ⟨rfl, ?_, rfl, fun y isLive => ?_⟩
  · simp only [newNode, Disk.free, update_idem]
    exact update_eq_self_iff.mpr dead.symm
  · have other : y ≠ x := by
      rintro rfl
      cases isLive.symm.trans dead
    simp [newNode, Disk.free, other]

theorem addChild_newNode (apart : p ≠ x) :
    addChild (newNode d x name type) p x =
      if fsMaxChildren ≤ (d.node p).children.length then none
      else some (hangNew d x p name type) := by
  simp [addChild, hangNew, newNode, apart]

end

/-- How a call ends: in a tree, changed in a known way. -/
structure Keeps (d e : Disk) : Prop where
  tree : Tree e
  effect : Effect d e.shape

variable {e : Disk} {alloc : Option NodeId}

theorem Keeps.same (tree : Tree d) (root : e.root = d.root) (live : e.live = d.live)
    (alike : ∀ x, d.live x → Alike (d.node x) (e.node x)) : Keeps d e :=
  ⟨tree.alike root live alike, .same (Disk.shape_agree root live alike)⟩

theorem Keeps.refl (tree : Tree d) : Keeps d d := .same tree rfl rfl fun _ _ => .refl _

theorem modify_shape (d : Disk) (x : NodeId) {f : Node → Node} (same : ∀ n, Alike n (f n)) :
    (d.modify x f).shape = d.shape := by
  have alike : ∀ y, Alike (d.node y) ((d.modify x f).node y) := by
    intro y
    rw [modify_node]
    split
    · exact same _
    · exact .refl _
  simp only [Disk.shape, modify_live, modify_root, (alike _).parent, (alike _).children,
    (alike _).name]

theorem Keeps.modify (keeps : Keeps d e) (x : NodeId) {f : Node → Node} (same : ∀ n, Alike n (f n)) :
    Keeps d (e.modify x f) :=
  ⟨keeps.tree.modify x same, modify_shape e x same ▸ keeps.effect⟩

theorem Keeps.free (keeps : Keeps d e) (out : (e.node x).parent = none) : Keeps d (e.free x) :=
  ⟨keeps.tree.free out, keeps.tree.free_shape out ▸ keeps.effect⟩

/-- ramdisk_create hangs a new node into the directory or does nothing. -/
theorem create_outcome (name : Name) (type : Kind) (fresh : alloc.all (!d.live ·))
    (live : dir.all d.live) :
    (∃ x p, alloc = some x ∧ dir = some p ∧ Makes d x p name ∧
      ramdiskCreate d alloc dir name type = (some x, hangNew d x p name type)) ∨
    ((ramdiskCreate d alloc dir name type).1 = none ∧
      Same d (ramdiskCreate d alloc dir name type).2) := by
  have nothing : ((none, d) : Option NodeId × Disk).1 = none ∧ Same d d := ⟨rfl, .refl d⟩
  cases dir with
  | none => exact .inr nothing
  | some p =>
    simp only [ramdiskCreate]
    split
    · exact .inr nothing
    rename_i isDir
    split
    · exact .inr nothing
    rename_i proper
    split
    · exact .inr nothing
    rename_i absent
    split
    · exact .inr nothing
    rename_i fits
    cases alloc with
    | none => exact .inr nothing
    | some x =>
      simp only [all_some, Bool.not_eq_true', Bool.or_eq_true, Bool.not_eq_false,
        not_or, Bool.not_eq_true] at fresh live isDir proper absent fits
      have apart : p ≠ x := by
        rintro rfl
        cases live.symm.trans fresh
      simp only [addChild_newNode apart]
      by_cases full : fsMaxChildren ≤ (d.node p).children.length
      · simp only [if_pos full]
        exact .inr ⟨trivial, newNode_free_same fresh⟩
      simp only [if_neg full]
      exact .inl ⟨x, p, rfl, rfl, ⟨fresh, live, isDir.1, finddir_none absent, proper,
        fits.1, fits.2, Nat.lt_of_not_le full⟩, rfl⟩

theorem create_keeps (tree : Tree d) (name : Name) (type : Kind)
    (fresh : alloc.all (!d.live ·)) (live : dir.all d.live) :
    Keeps d (ramdiskCreate d alloc dir name type).2 ∧
      ∀ y, d.live y → (ramdiskCreate d alloc dir name type).2.live y := by
  rcases create_outcome name type fresh live with ⟨x, p, -, -, makes, made⟩ | ⟨-, same⟩
  · rw [made]
    obtain ⟨grown, effect⟩ := tree.hangNew makes
    refine ⟨⟨grown, effect⟩, fun y isLive => ?_⟩
    by_cases new : y = x
    · simp [hangNew, newNode, new]
    · simpa [hangNew, newNode, new] using isLive
  · refine ⟨.same tree same.root same.live fun x isLive => ?_, fun y => by rw [same.live]; exact id⟩
    rw [same.node x isLive]
    exact .refl _

theorem link_keeps (tree : Tree d) (name : Name) (inode : Option NodeId)
    (fresh : alloc.all (!d.live ·)) (live : dir.all d.live) :
    Keeps d (ramdiskLink d alloc dir name inode).2 := by
  cases inode with
  | none => exact .refl tree
  | some entry =>
    have created := (create_keeps tree name .file fresh live).1
    simp only [ramdiskLink]
    split
    · exact .refl tree
    split
    · exact .refl tree
    cases made : ramdiskCreate d alloc dir name .file with
    | mk result e =>
      rw [made] at created
      cases result with
      | none => exact created
      | some x =>
        simp only
        refine (created.modify x ?_).modify _ ?_ <;>
          exact fun n => ⟨rfl, rfl, rfl, rfl, rfl⟩

/-! Deleting. -/

theorem removeChild_node (d : Disk) (p x y : NodeId) :
    (removeChild d p x).node y =
      if y = p then { d.node p with children := (d.node p).children.erase x } else d.node y := by
  by_cases here : y = p
  · subst here
    simp [removeChild]
  · simp [removeChild, here]

theorem removeChild_place (d : Disk) (p x y : NodeId) :
    ((removeChild d p x).node y).parent = (d.node y).parent ∧
      ((removeChild d p x).node y).name = (d.node y).name := by
  rw [removeChild_node]
  split
  · rename_i here
    exact ⟨by rw [here], by rw [here]⟩
  · exact ⟨rfl, rfl⟩

theorem Tree.erase_elsewhere (tree : Tree d) {y : NodeId} (live : d.live p)
    (listed : x ∈ (d.node p).children) (other : y ≠ p) :
    (d.shape.children y).erase x = d.shape.children y := by
  apply erase_of_not_mem
  intro elsewhere
  obtain ⟨_, _, one⟩ := tree.live_of_child (Disk.shape_children.mpr ⟨live, listed⟩)
  exact other (tree.listed_once elsewhere one)

/-- `e` is what is left when the entry `x` leaves the directory `p`: `x` is
freed or a file without a name. -/
structure TakesOut (d e : Disk) (p x : NodeId) : Prop where
  root : e.root = d.root
  name : (e.node x).name = (d.node x).name
  out : e.live x = true → (e.node x).parent = none ∧ (e.node x).children = [] ∧ NodeOk (e.node x)
  others : ∀ y, y ≠ x → e.live y = d.live y ∧ e.node y = (removeChild d p x).node y

section
variable {d e : Disk} {p x : NodeId}

theorem TakesOut.shape (taken : TakesOut d e p x) (tree : Tree d) (live : d.live p)
    (listed : x ∈ (d.node p).children) (bare : (d.node x).children = []) :
    e.shape = d.shape.detach x := by
  simp only [Disk.shape]
  congr 1
  · exact taken.root
  · funext y
    by_cases here : y = x
    · subst here
      simpa using fun isLive => (taken.out isLive).1
    obtain ⟨sameLive, node⟩ := taken.others y here
    rw [update_of_ne here, sameLive, node, (removeChild_place d p x y).1]
  · funext y
    by_cases here : y = x
    · subst here
      by_cases isLive : e.live y
      · simp [taken.out isLive, bare]
      · simp [isLive, bare]
    · obtain ⟨sameLive, node⟩ := taken.others y here
      rw [sameLive, node, removeChild_node]
      by_cases isDir : y = p
      · subst isDir
        simp [live]
      rw [if_neg isDir]
      exact (tree.erase_elsewhere live listed isDir).symm
  · funext y
    by_cases here : y = x
    · rw [here, taken.name]
    obtain ⟨_, node⟩ := taken.others y here
    rw [node, (removeChild_place d p x y).2]

theorem TakesOut.keeps (taken : TakesOut d e p x) (tree : Tree d) (live : d.live p)
    (listed : x ∈ (d.node p).children) (bare : (d.node x).children = []) : Keeps d e := by
  have inner : x ≠ d.root := (tree.live_of_child (Disk.shape_children.mpr ⟨live, listed⟩)).1
  have shape := taken.shape tree live listed bare
  have effect : Effect d e.shape := shape ▸ .detach (tree.no_children fun _ => bare)
  refine ⟨⟨?_, effect.deep tree, ?_, ?_, ?_⟩, effect⟩
  · rw [shape]
    exact tree.valid.detach inner
  · intro q
    rw [shape]
    exact le_trans length_erase_le (tree.width q)
  · intro q c member
    rw [shape] at member ⊢
    exact tree.names q c (mem_of_mem_erase member)
  · intro y isLive
    by_cases here : y = x
    · subst here
      exact (taken.out isLive).2.2
    obtain ⟨sameLive, node⟩ := taken.others y here
    have ok := tree.nodes y (sameLive ▸ isLive)
    rw [node, removeChild_node]
    split
    · rename_i isDir
      subst isDir
      exact ⟨ok.driver, fun other => by simp [ok.flat other], ok.nameless⟩
    · exact ok

/-- The node of an entry goes with its name. -/
theorem takesOut_free (apart : x ≠ p) : TakesOut d ((removeChild d p x).free x) p x := by
  constructor
  · rfl
  · simp [Disk.free, removeChild_node, apart]
  · intro isLive
    simp [Disk.free] at isLive
  · intro y other
    simp [Disk.free, other, removeChild]

/-- A file that stays when its own name goes. -/
theorem takesOut_file (apart : x ≠ p) (ok : NodeOk (d.node x)) (file : (d.node x).flags = .file) :
    TakesOut d ((removeChild d p x).modify x fun n => { n with parent := none }) p x := by
  have node : (removeChild d p x).node x = d.node x := by simp [removeChild_node, apart]
  constructor
  · rfl
  · simp [node]
  · intro _
    rw [modify_node_self, node]
    have bare := ok.flat (by simp [file])
    exact ⟨rfl, bare, ok.driver, fun _ => bare, fun _ => file⟩
  · intro y other
    simp [other, removeChild]

theorem unname_keeps (tree : Tree d) (live : d.live p)
    (listed : x ∈ (d.node p).children) (file : (d.node x).flags = .file) (inode : NodeId) :
    Keeps d (unname (removeChild d p x) x inode) := by
  obtain ⟨_, liveX, _⟩ := tree.live_of_child (Disk.shape_children.mpr ⟨live, listed⟩)
  have ok := tree.nodes x liveX
  have bare := ok.flat (by simp [file])
  have apart := child_apart listed bare
  have counted : ∀ n : Node, Alike n { n with nlink := n.nlink - 1 } :=
    fun _ => ⟨rfl, rfl, rfl, rfl, rfl⟩
  by_cases own : x = inode
  · subst own
    have taken := ((takesOut_file apart ok file).keeps tree live listed bare).modify x counted
    rw [modify_modify] at taken
    simp only [unname, modify_modify]
    exact taken
  · simp only [unname, if_neg own]
    exact ((takesOut_free apart).keeps tree live listed bare).modify inode counted

theorem dropName_keeps (tree : Tree d) (live : d.live p)
    (listed : x ∈ (d.node p).children) (file : (d.node x).flags = .file) :
    Keeps d (dropName (removeChild d p x) x) := by
  have left := unname_keeps tree live listed file (vfsInode (removeChild d p x) x)
  simp only [dropName]
  split
  · rename_i last
    simp only [Bool.and_eq_true, decide_eq_true_eq] at last
    exact left.free last.1
  · exact left

end

theorem finddir_some {name : Name} (found : ramdiskFinddir d p name = some x) :
    x ∈ (d.node p).children ∧ (d.node x).name = name :=
  ⟨List.mem_of_find?_eq_some found, by simpa using List.find?_some found⟩

/-- ramdisk_delete does nothing or takes a name out of the directory. -/
theorem delete_outcome (d : Disk) (dir : Option NodeId) (name : Name) :
    ramdiskDelete d dir name = (-1, d) ∨ ∃ p x, dir = some p ∧ x ∈ (d.node p).children ∧
      defDeleteAllowed d x ∧
      ramdiskDelete d dir name = (0, if (d.node x).flags = .file then dropName (removeChild d p x) x
        else (removeChild d p x).free x) := by
  cases dir with
  | none => exact .inl rfl
  | some p =>
    simp only [ramdiskDelete]
    split
    · exact .inl rfl
    cases found : ramdiskFinddir d p name with
    | none => exact .inl rfl
    | some x =>
      simp only
      split
      · exact .inl rfl
      split
      · exact .inl rfl
      rename_i allowed
      refine .inr ⟨p, x, rfl, (finddir_some found).1, by simpa using allowed, ?_⟩
      have same : ((removeChild d p x).node x).flags = (d.node x).flags := by
        rw [removeChild_node]
        split
        · rename_i here
          rw [here]
        · rfl
      rw [same]
      split <;> rfl

theorem delete_keeps (tree : Tree d) (name : Name) (live : dir.all d.live) :
    Keeps d (ramdiskDelete d dir name).2 := by
  rcases delete_outcome d dir name with failed | ⟨p, x, rfl, listed, allowed, taken⟩
  · rw [failed]
    exact .refl tree
  obtain ⟨_, liveX, _⟩ := tree.live_of_child (Disk.shape_children.mpr ⟨live, listed⟩)
  have bare : (d.node x).children = [] := by
    by_cases directory : (d.node x).flags = .directory
    · simp only [defDeleteAllowed, directory, beq_self_eq_true, Bool.true_and, Bool.not_eq_true',
        Bool.or_eq_false_iff, Bool.not_eq_false', List.isEmpty_iff] at allowed
      exact allowed.1.2
    · exact (tree.nodes x liveX).flat directory
  have apart := child_apart listed bare
  rw [taken]
  split
  · rename_i file
    exact dropName_keeps tree live listed file
  · exact (takesOut_free apart).keeps tree live listed bare

/-- A symbolic link whose text finds no memory is deleted again. -/
theorem symlink_keeps (tree : Tree d) (name target : Name) (text : Bool)
    (fresh : alloc.all (!d.live ·)) (live : dir.all d.live) :
    ∃ e, Keeps d e ∧ Keeps e (ramdiskSymlink d alloc dir name target text).2 := by
  obtain ⟨created, grows⟩ := create_keeps tree name .link fresh live
  simp only [ramdiskSymlink]
  split
  · exact ⟨d, .refl tree, .refl tree⟩
  cases made : ramdiskCreate d alloc dir name .link with
  | mk result e =>
    rw [made] at created grows
    cases result with
    | none => exact ⟨e, created, .refl created.tree⟩
    | some x =>
      refine ⟨e, created, ?_⟩
      cases text with
      | true =>
        simp only [if_true]
        refine (Keeps.refl created.tree).modify x ?_
        exact fun _ => ⟨rfl, rfl, rfl, rfl, rfl⟩
      | false =>
        apply delete_keeps created.tree name
        cases dir with
        | none => rfl
        | some p => exact grows p live

end UzOS.Fs
