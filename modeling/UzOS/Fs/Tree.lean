import UzOS.Fs.Ramdisk

/-! The nodes of the RAM disk form a tree, whatever calls are made. -/
namespace UzOS.Fs

/-- The tree the live nodes form. -/
def Disk.shape (d : Disk) : Hierarchy NodeId Name where
  root := d.root
  parent := fun x => if d.live x then (d.node x).parent else none
  children := fun x => if d.live x then (d.node x).children else []
  name := fun x => (d.node x).name

/-- Levels of the tree. -/
def level (_ : Name) : Nat := 1

theorem level_eq (name : Name) : level name = 1 := rfl

/-- Only directories have children and the driver's finddir, and only files can
be without a name. -/
structure NodeOk (n : Node) : Prop where
  driver : n.finddir = (n.flags == .directory)
  flat : n.flags ≠ .directory → n.children = []
  nameless : n.parent = none → n.flags = .file

/-- Child lists and parent pointers agree and siblings have different names
(`valid`), parent pointers lead to the root in FS_DEPTH_MAX steps (`deep`),
directories are not overfull and names are proper. -/
structure Tree (d : Disk) : Prop where
  valid : d.shape.Valid
  deep : d.shape.Within level fsDepthMax
  width : ∀ p, (d.shape.children p).length ≤ fsMaxChildren
  names : ∀ p, ∀ c ∈ d.shape.children p, defNewNameOk (d.shape.name c) = true
  nodes : ∀ x, d.live x = true → NodeOk (d.node x)

@[simp] theorem modify_node_self (d : Disk) (x : NodeId) (f : Node → Node) :
    (d.modify x f).node x = f (d.node x) :=
  Function.update_self ..

variable {x p : NodeId} {d : Disk}

@[simp] theorem modify_node_ne (d : Disk) {y : NodeId} (f : Node → Node) (other : y ≠ x) :
    (d.modify x f).node y = d.node y :=
  Function.update_of_ne other ..

theorem modify_node (d : Disk) (x y : NodeId) (f : Node → Node) :
    (d.modify x f).node y = if y = x then f (d.node y) else d.node y := by
  by_cases here : y = x
  · subst here
    simp
  · simp [here]

@[simp] theorem modify_live (d : Disk) (x : NodeId) (f : Node → Node) :
    (d.modify x f).live = d.live :=
  rfl

@[simp] theorem modify_root (d : Disk) (x : NodeId) (f : Node → Node) :
    (d.modify x f).root = d.root :=
  rfl

theorem modify_modify (d : Disk) (x : NodeId) (f g : Node → Node) :
    (d.modify x f).modify x g = d.modify x (g ∘ f) := by
  simp [Disk.modify]

theorem Disk.shape_parent :
    d.shape.parent x = some p ↔ d.live x ∧ (d.node x).parent = some p := by
  simp [Disk.shape]

theorem Disk.shape_children {c : NodeId} :
    c ∈ d.shape.children x ↔ d.live x ∧ c ∈ (d.node x).children := by
  by_cases live : d.live x = true <;> simp [Disk.shape]

theorem Disk.shape_children_live (live : d.live x) :
    d.shape.children x = (d.node x).children := by
  simp [Disk.shape, live]

theorem Disk.shape_out :
    d.shape.parent x = none ↔ (d.live x → (d.node x).parent = none) := by
  simp [Disk.shape]

theorem Tree.live_of_child (tree : Tree d) {c : NodeId} (member : c ∈ d.shape.children p) :
    c ≠ d.root ∧ d.live c ∧ (d.node c).parent = some p := by
  have inner : c ≠ d.root := by
    rintro rfl
    exact tree.valid.unlisted p member
  exact ⟨inner, Disk.shape_parent.mp ((tree.valid.listed p c inner).mp member)⟩

/-! Changes that leave the tree alone. -/

/-- Two nodes with the same place and kind. -/
structure Alike (n m : Node) : Prop where
  name : m.name = n.name
  flags : m.flags = n.flags
  finddir : m.finddir = n.finddir
  parent : m.parent = n.parent
  children : m.children = n.children

theorem Alike.refl (n : Node) : Alike n n := ⟨rfl, rfl, rfl, rfl, rfl⟩

theorem NodeOk.alike {n m : Node} (ok : NodeOk n) (same : Alike n m) : NodeOk m := by
  obtain ⟨_, flags, finddir, parent, children⟩ := same
  constructor
  · rw [finddir, flags]
    exact ok.driver
  · rw [flags, children]
    exact ok.flat
  · rw [flags, parent]
    exact ok.nameless

theorem Disk.shape_agree {e : Disk} (root : e.root = d.root) (live : e.live = d.live)
    (same : ∀ x, d.live x → Alike (d.node x) (e.node x)) : d.shape.Agree e.shape := by
  constructor
  · exact root
  · funext x
    by_cases isLive : d.live x
    · simp [Disk.shape, live, (same x isLive).parent]
    · simp [Disk.shape, live, isLive]
  · funext x
    by_cases isLive : d.live x
    · simp [Disk.shape, live, (same x isLive).children]
    · simp [Disk.shape, live, isLive]
  · intro x inTree
    apply (same x _).name
    by_contra dead
    simp [Disk.shape, dead] at inTree

theorem Tree.alike {e : Disk} (tree : Tree d) (root : e.root = d.root) (live : e.live = d.live)
    (same : ∀ x, d.live x → Alike (d.node x) (e.node x)) : Tree e := by
  have agree := Disk.shape_agree root live same
  constructor
  · exact tree.valid.agree agree
  · exact tree.deep.agree agree
  · exact agree.children ▸ tree.width
  · intro p c member
    rw [agree.children] at member
    obtain ⟨_, isLive, _⟩ := tree.live_of_child member
    change defNewNameOk (e.node c).name
    rw [(same c isLive).name]
    exact tree.names p c member
  · intro x isLive
    rw [live] at isLive
    exact (tree.nodes x isLive).alike (same x isLive)

section
variable (tree : Tree d)
include tree

theorem Tree.modify (x : NodeId) {f : Node → Node} (same : ∀ n, Alike n (f n)) :
    Tree (d.modify x f) := by
  refine tree.alike (e := d.modify x f) rfl rfl fun y _ => ?_
  rw [modify_node]
  split
  · exact same _
  · exact .refl _

theorem Tree.free_shape (out : (d.node x).parent = none) : (d.free x).shape = d.shape := by
  simp only [Disk.shape, Disk.free]
  congr 1
  · funext y
    by_cases here : y = x
    · simp [here, out]
    · simp [here]
  · funext y
    by_cases here : y = x
    · subst here
      by_cases isLive : d.live y
      · have ok := tree.nodes y isLive
        simp [ok.flat (by simp [ok.nameless out])]
      · simp [isLive]
    · simp [here]

/-- A file that lost its last name can go. -/
theorem Tree.free (out : (d.node x).parent = none) : Tree (d.free x) := by
  have shape := tree.free_shape out
  refine ⟨shape ▸ tree.valid, shape ▸ tree.deep, shape ▸ tree.width, shape ▸ tree.names, ?_⟩
  intro y isLive
  apply tree.nodes y
  by_cases here : y = x
  · simp [Disk.free, here] at isLive
  · simpa [Disk.free, here] using isLive

/-! Where nodes are. -/

theorem Tree.child_of_parent {c : NodeId} (inner : c ≠ d.root)
    (live : d.live c) (up : (d.node c).parent = some p) :
    d.live p ∧ c ∈ (d.node p).children :=
  Disk.shape_children.mp ((tree.valid.listed p c inner).mpr (Disk.shape_parent.mpr ⟨live, up⟩))

/-- A directory of the RAM disk is in the tree. -/
theorem Tree.ours_spec (live : d.live p) (isOurs : ours d (some p)) :
    (d.node p).flags = .directory ∧ d.shape.parent p ≠ none := by
  have directory : (d.node p).flags = .directory := by
    have kind := (tree.nodes p live).driver
    rw [show (d.node p).finddir from isOurs] at kind
    simpa using kind.symm
  refine ⟨directory, fun out => ?_⟩
  have file := (tree.nodes p live).nameless (Disk.shape_out.mp out live)
  cases file.symm.trans directory

theorem Tree.parent_ne (inner : x ≠ d.root) (up : d.shape.parent x = some p) : p ≠ x := by
  rintro rfl
  exact tree.deep.parent_clear (fun _ => Nat.one_pos) inner up 0 .here

/-! What the walks of the source find. -/

theorem Tree.depthLoop_eq {n : Nat} (below : d.shape.Below level d.root x n)
    (rounds : Nat) (enough : n ≤ rounds) : depthLoop d rounds x = n := by
  induction below generalizing rounds with
  | here =>
    have top := (Disk.shape_parent.mp tree.valid.top).2
    cases rounds with
    | zero => rfl
    | succ rounds => simp [depthLoop, show (d.node d.root).parent = some d.root from top]
  | @step c p n inner up _ ih =>
    have one := level_eq (d.shape.name c)
    cases rounds with
    | zero => omega
    | succ rounds =>
      simp [depthLoop, one, (Disk.shape_parent.mp up).2, tree.parent_ne inner up,
        ih rounds (by omega)]

/-- def_depth_of counts the levels. -/
theorem Tree.defDepthOf_eq (inTree : d.shape.parent x ≠ none) :
    d.shape.Below level d.root x (defDepthOf d x) := by
  obtain ⟨n, small, below⟩ := tree.deep x inTree
  rwa [defDepthOf, tree.depthLoop_eq below _ (by omega)]

theorem Tree.ancestorLoop_true {a : NodeId} {n : Nat}
    (below : d.shape.Below level a x n) (rounds : Nat) (enough : n < rounds) :
    ancestorLoop d a rounds (some x) := by
  induction below generalizing rounds with
  | here =>
    cases rounds with
    | zero => omega
    | succ rounds => simp [ancestorLoop]
  | @step c p n inner up _ ih =>
    have one := level_eq (d.shape.name c)
    cases rounds with
    | zero => omega
    | succ rounds =>
      simp only [ancestorLoop, (Disk.shape_parent.mp up).2]
      split
      · rfl
      rw [if_neg (by simpa using tree.parent_ne inner up)]
      exact ih rounds (by omega)

/-- What vfs_is_ancestor does not find is not there. -/
theorem Tree.not_below {w : Name → Nat} {a : NodeId}
    (inTree : d.shape.parent a ≠ none) (refused : vfsIsAncestor d a x = false) (m : Nat) :
    ¬ d.shape.Below w a x m := by
  intro below
  obtain ⟨n, steps⟩ := below.reweigh level
  obtain ⟨k, _, fromRoot⟩ := tree.deep a inTree
  obtain ⟨j, small, direct⟩ := tree.deep x (below.parent_ne_none inTree)
  have total := (fromRoot.trans steps).unique direct
  cases refused.symm.trans (tree.ancestorLoop_true steps (fsDepthMax + 2) (by omega))

omit tree in
theorem le_foldl_max (l : List Nat) (start : Nat) :
    start ≤ l.foldl max start ∧ ∀ n ∈ l, n ≤ l.foldl max start := by
  induction l generalizing start with
  | nil => simp
  | cons n rest ih =>
    obtain ⟨first, others⟩ := ih (max start n)
    simp only [List.foldl_cons, List.mem_cons, forall_eq_or_imp]
    exact ⟨by omega, by omega, others⟩

/-- height_below and longest_below bound everything below a node. -/
theorem Tree.below_le (w : Name → Nat) (levels : Nat) {y : NodeId} {k m : Nat}
    (fromRoot : d.shape.Below level d.root x k) (enough : fsDepthMax ≤ k + levels)
    (below : d.shape.Below w x y m) : m ≤ deepestBelow w d levels x := by
  induction levels generalizing x k m with
  | zero =>
    obtain ⟨_, rfl⟩ | ⟨c, _, inner, up, _⟩ := below.split
    · exact zero_le
    obtain ⟨n, small, direct⟩ := tree.deep c (by simp [up])
    have deeper := direct.unique (.step inner up fromRoot)
    have one := level_eq (d.shape.name c)
    omega
  | succ levels ih =>
    obtain ⟨_, rfl⟩ | ⟨c, n, inner, up, rest, rfl⟩ := below.split
    · exact zero_le
    obtain ⟨live, member⟩ := Disk.shape_children.mp ((tree.valid.listed x c inner).mpr up)
    have directory : (d.node x).flags = .directory := by
      by_contra other
      rw [(tree.nodes x live).flat other] at member
      cases member
    have one := level_eq (d.shape.name c)
    have lower := ih (.step inner up fromRoot) (by omega) rest
    have listed : w (d.node c).name + deepestBelow w d levels c ∈
        (d.node x).children.map fun c => w (d.node c).name + deepestBelow w d levels c :=
      List.mem_map_of_mem member
    rw [deepestBelow, if_pos directory]
    exact le_trans (Nat.add_le_add_left lower _) ((le_foldl_max _ 0).2 _ listed)

theorem Tree.below_le_deepest (w : Name → Nat) {y : NodeId} {m : Nat}
    (inTree : d.shape.parent x ≠ none) (below : d.shape.Below w x y m) :
    m ≤ deepestBelow w d fsDepthMax x := by
  obtain ⟨k, _, fromRoot⟩ := tree.deep x inTree
  exact tree.below_le w fsDepthMax fromRoot (by omega) below

end

end UzOS.Fs
