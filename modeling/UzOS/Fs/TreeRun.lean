import UzOS.Fs.TreeMoves

/-! The tree over whole runs, from ramdisk_init on. -/
namespace UzOS.Fs

open Bool

variable (root : NodeId) {d : Disk}

/-- Any call but an exchange, as one or two changes of the tree. -/
theorem Call.keeps (tree : Tree d) (call : Call) (sound : call.sound d)
    (other : ∀ a b, call ≠ .exchange a b) : ∃ e, Keeps d e ∧ Keeps e (call.apply d) := by
  have once : Keeps d (call.apply d) → ∃ e, Keeps d e ∧ Keeps e (call.apply d) :=
    fun keeps => ⟨_, keeps, .refl keeps.tree⟩
  cases call with
  | create alloc dir name type =>
    simp only [Call.sound, and_eq_true] at sound
    exact once (create_keeps tree name type sound.1 sound.2).1
  | link alloc dir name inode =>
    simp only [Call.sound, and_eq_true] at sound
    exact once (link_keeps tree name inode sound.1.1 sound.1.2)
  | symlink alloc dir name target text =>
    simp only [Call.sound, and_eq_true] at sound
    exact symlink_keeps tree name target text sound.1 sound.2
  | delete dir name => exact once (delete_keeps tree name sound)
  | move node newDir newName =>
    simp only [Call.sound, and_eq_true] at sound
    exact once (move_keeps tree newName sound.1 sound.2)
  | exchange a b => exact absurd rfl (other a b)
  | opened x =>
    apply once
    simp only [Call.apply]
    refine (Keeps.refl tree).modify x ?_
    exact fun _ => ⟨rfl, rfl, rfl, rfl, rfl⟩
  | closed x =>
    apply once
    have counted : Keeps d (d.modify x fun n => { n with openCount := n.openCount - 1 }) := by
      refine (Keeps.refl tree).modify x ?_
      exact fun _ => ⟨rfl, rfl, rfl, rfl, rfl⟩
    simp only [Call.apply, vfsClose]
    split
    · rename_i last
      simp only [and_eq_true, decide_eq_true_eq] at last
      exact counted.free last.1.1
    · exact counted
  | chdir cwds => exact once (.same tree rfl rfl fun _ _ => .refl _)

theorem Call.tree (tree : Tree d) (call : Call) (sound : call.sound d) :
    Tree (call.apply d) := by
  by_cases exchange : ∃ a b, call = .exchange a b
  · obtain ⟨a, b, rfl⟩ := exchange
    simp only [Call.sound, and_eq_true] at sound
    exact exchange_tree tree sound.1 sound.2
  obtain ⟨_, _, keeps⟩ := call.keeps tree sound fun a b same => exchange ⟨a, b, same⟩
  exact keeps.tree

/-- The root alone. -/
def rootOnly (root : NodeId) : Disk :=
  (newNode (.blank root) root [0x2f] .directory).modify root fun n => { n with parent := some root }

theorem rootOnly_dead {root x : NodeId} (other : x ≠ root) : (rootOnly root).live x = false := by
  simp [rootOnly, newNode, Disk.blank, other]

theorem rootOnly_shape :
    (rootOnly root).shape.parent root = some root ∧
      (∀ x, x ≠ root → (rootOnly root).shape.parent x = none) ∧
      ∀ x, (rootOnly root).shape.children x = [] := by
  refine ⟨by simp [Disk.shape, rootOnly, newNode], ?_, ?_⟩
  · intro x other
    simp [Disk.shape, rootOnly_dead other]
  · intro x
    by_cases here : x = root
    · subst here
      simp [Disk.shape, rootOnly, newNode]
    · simp [Disk.shape, rootOnly_dead here]

theorem rootOnly_tree : Tree (rootOnly root) := by
  obtain ⟨top, outside, empty⟩ := rootOnly_shape root
  constructor
  · constructor
    · exact top
    · exact fun p => by simp [empty]
    · intro p c inner
      simp [empty, outside c inner]
    · exact fun p => by simp [empty]
    · exact fun p c member => by simp [empty] at member
  · intro x inTree
    by_cases here : x = root
    · subst here
      exact ⟨0, zero_le, .here⟩
    · exact absurd (outside x here) inTree
  · exact fun p => by simp [empty]
  · exact fun p c member => by simp [empty] at member
  · intro x live
    by_cases here : x = root
    · subst here
      simp only [rootOnly, newNode, modify_node_self, Function.update_self]
      exact ⟨rfl, fun other => absurd rfl other, fun out => (by cases out)⟩
    · cases live.symm.trans (rootOnly_dead here)

theorem init_keeps {hello : Option NodeId} (elf : List U8) (text : Bool)
    (apart : hello.all (· != root)) :
    Keeps (rootOnly root) (ramdiskInit root hello elf text) := by
  have fresh : hello.all (!(rootOnly root).live ·) := by
    cases hello with
    | none => rfl
    | some x =>
      simp only [Option.all_some, bne_iff_ne] at apart ⊢
      simp [rootOnly_dead apart]
  have live : (some root).all (rootOnly root).live := by simp [rootOnly, newNode]
  have created := (create_keeps (rootOnly_tree root) [0x68, 0x65, 0x6c, 0x6c, 0x6f] .file fresh live).1
  generalize result : ramdiskCreate (rootOnly root) hello (some root)
    [0x68, 0x65, 0x6c, 0x6c, 0x6f] .file = made at created
  simp only [ramdiskInit]
  split
  · rename_i e none
    rw [result.symm.trans none] at created
    exact created
  rename_i x e some
  rw [result.symm.trans some] at created
  refine created.modify x ?_
  exact fun _ => ⟨rfl, rfl, rfl, rfl, rfl⟩

theorem run_tree (tree : Tree d) (calls : List Call) (sound : soundRun d calls) :
    Tree (calls.foldl Call.apply d) := by
  induction calls generalizing d with
  | nil => exact tree
  | cons call rest ih =>
    simp only [soundRun, and_eq_true] at sound
    exact ih (call.tree tree sound.1) sound.2

/-- The node reached by following `n` parent links. -/
def climb (d : Disk) : Nat → NodeId → Option NodeId
  | 0, x => some x
  | n + 1, x => (d.node x).parent.bind (climb d n)

/-- The directories as the functions of the source see them. -/
structure DirectoryTree (d : Disk) : Prop where
  childParent : ∀ p c, d.live p = true → c ∈ (d.node p).children →
    d.live c = true ∧ c ≠ d.root ∧ (d.node c).parent = some p
  listed : ∀ p c, d.live c = true → c ≠ d.root → (d.node c).parent = some p →
    d.live p = true ∧ (d.node p).flags = .directory ∧ c ∈ (d.node p).children
  once : ∀ p, d.live p = true → (d.node p).children.Nodup
  reachesRoot : ∀ x, d.live x = true → (d.node x).parent ≠ none →
    ∃ n ≤ fsDepthMax, climb d n x = some d.root
  namesDiffer : ∀ p, d.live p = true → ((d.node p).children.map fun c => (d.node c).name).Nodup
  namesOk : ∀ p c, d.live p = true → c ∈ (d.node p).children →
    defNewNameOk (d.node c).name = true
  width : ∀ p, d.live p = true → (d.node p).children.length ≤ fsMaxChildren

theorem climb_below {x : NodeId} {n : Nat} (below : d.shape.Below level d.root x n) :
    climb d n x = some d.root := by
  induction below with
  | here => rfl
  | step _ up _ ih => simp [climb, level_eq, (Disk.shape_parent.mp up).2, ih]

theorem Tree.directoryTree (tree : Tree d) : DirectoryTree d := by
  constructor
  · intro p c live member
    obtain ⟨inner, liveC, up⟩ := tree.live_of_child (Disk.shape_children.mpr ⟨live, member⟩)
    exact ⟨liveC, inner, up⟩
  · intro p c live inner up
    obtain ⟨liveP, member⟩ := tree.child_of_parent inner live up
    refine ⟨liveP, ?_, member⟩
    by_contra other
    rw [(tree.nodes p liveP).flat other] at member
    cases member
  · intro p live
    have nodup := tree.valid.nodup p
    rwa [Disk.shape_children_live live] at nodup
  · intro x live named
    obtain ⟨n, small, below⟩ := tree.deep x fun out => named (Disk.shape_out.mp out live)
    exact ⟨n, small, climb_below below⟩
  · intro p live
    have nodup := tree.valid.nodup p
    have names := tree.valid.names p
    rw [Disk.shape_children_live live] at nodup names
    exact nodup.map_on fun c first e second same => names c first e second same
  · intro p c live member
    exact tree.names p c (Disk.shape_children.mpr ⟨live, member⟩)
  · intro p live
    have width := tree.width p
    rwa [Disk.shape_children_live live] at width

/-- Whatever calls are made after ramdisk_init, the directories form a tree. -/
theorem directories_form_tree (root : NodeId) (hello : Option NodeId) (elf : List U8) (text : Bool)
    (apart : hello.all (· != root) = true) (calls : List Call)
    (sound : soundRun (ramdiskInit root hello elf text) calls = true) :
    DirectoryTree (calls.foldl Call.apply (ramdiskInit root hello elf text)) :=
  (run_tree (init_keeps root elf text apart).tree calls sound).directoryTree

/-- Directories, hard and symbolic links, a move of a directory into another, an
exchange inside one directory, deletes, and a move that no_cycle refuses. -/
def treeCalls : List Call :=
  [.create (some 3) (some 1) [0x61] .directory, .create (some 4) (some 1) [0x62] .directory,
    .create (some 5) (some 3) [0x63] .file, .link (some 6) (some 4) [0x64] (some 5),
    .symlink (some 7) (some 3) [0x65] [0x61] true, .move (some 3) (some 4) [0x66],
    .move (some 4) (some 3) [0x67], .exchange (some 5) (some 7), .exchange (some 3) (some 6),
    .opened 5, .delete (some 3) [0x65], .closed 5, .delete (some 3) [0x65],
    .symlink (some 8) (some 1) [0x68] [0x61] false]

theorem directories_form_tree_treeCalls :
    DirectoryTree (treeCalls.foldl Call.apply (ramdiskInit 1 (some 2) [0x7f] true)) :=
  directories_form_tree 1 (some 2) [0x7f] true (by decide) treeCalls (by decide +kernel)

end UzOS.Fs
