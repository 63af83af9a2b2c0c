import UzOS.Fs.TreeRun

/-! Path lengths: every node of the tree can be printed, as long as an exchange
leaves room for the names that change places. -/
namespace UzOS.Fs

open Bool List

/-- A name and the '/' before it. -/
def part (name : Name) : Nat := 1 + name.length

theorem part_pos (name : Name) : 0 < part name := by
  simp only [part]
  omega

/-- Every path of the tree fits the buffer of vfs_path_of. -/
def Printable (d : Disk) : Prop := d.shape.Within part (fsPathMax - 1)

/-! vfs_path_of -/

section
variable {d : Disk} {x : NodeId} {n : Nat}

theorem pathLoop_root (rounds : Nat) (tmp : List U8) :
    pathLoop d (rounds + 1) (some d.root) tmp = some tmp := by
  simp [pathLoop]

section
variable (below : d.shape.Below part d.root x n)
include below

theorem pathLoop_fits (rounds : Nat) (tmp : List U8)
    (fits : tmp.length + n ≤ fsPathMax - 1) (enough : n < rounds) :
    ∃ path, pathLoop d rounds (some x) tmp = some path ∧ path.length = tmp.length + n := by
  induction below generalizing rounds tmp with
  | here =>
    obtain ⟨rounds, rfl⟩ := Nat.exists_eq_succ_of_ne_zero (ne_of_gt enough)
    exact ⟨tmp, pathLoop_root rounds tmp, rfl⟩
  | @step c p n inner up _ ih =>
    have weight : part (d.shape.name c) = 1 + (d.node c).name.length := rfl
    obtain ⟨rounds, rfl⟩ := Nat.exists_eq_succ_of_ne_zero (show rounds ≠ 0 by omega)
    have notRoot : c ≠ d.root := inner
    have room : ¬ fsPathMax - 1 < tmp.length + (d.node c).name.length + 1 := by omega
    simp only [pathLoop, if_neg notRoot, if_neg room, (Disk.shape_parent.mp up).2]
    obtain ⟨path, result, length⟩ := ih rounds (0x2f :: (d.node c).name ++ tmp)
      (by simp; omega) (by omega)
    exact ⟨path, result, by simp at length; omega⟩

theorem pathLoop_length (rounds : Nat) (tmp path : List U8)
    (result : pathLoop d rounds (some x) tmp = some path) (short : tmp.length ≤ fsPathMax - 1) :
    path.length = tmp.length + n ∧ path.length ≤ fsPathMax - 1 := by
  induction below generalizing rounds tmp with
  | here =>
    cases rounds with
    | zero => cases result
    | succ rounds =>
      rw [pathLoop_root] at result
      cases result
      exact ⟨rfl, short⟩
  | @step c p n inner up _ ih =>
    have weight : part (d.shape.name c) = 1 + (d.node c).name.length := rfl
    have notRoot : c ≠ d.root := inner
    cases rounds with
    | zero => cases result
    | succ rounds =>
      simp only [pathLoop, if_neg notRoot, (Disk.shape_parent.mp up).2] at result
      split at result
      · cases result
      obtain ⟨length, small⟩ := ih rounds _ result (by simp; omega)
      exact ⟨by simp at length; omega, small⟩

theorem vfsPathOf_spec (fits : n ≤ fsPathMax - 1) :
    ∃ path, vfsPathOf d (some x) fsPathMax = some path ∧
      path.length = if x = d.root then 1 else n := by
  by_cases isRoot : x = d.root
  · exact ⟨[0x2f], by simp [vfsPathOf, isRoot, fsPathMax], by simp [isRoot]⟩
  obtain ⟨path, result, length⟩ := pathLoop_fits below (fsPathMax + 1) [] (by simpa using fits)
    (by omega)
  simp only [length_nil, zero_add] at length
  have small : ¬ fsPathMax < path.length + 1 := by
    simp only [fsPathMax] at fits ⊢
    omega
  refine ⟨path, ?_, by rw [if_neg isRoot, length]⟩
  simp [vfsPathOf, isRoot, result, small]
  decide

/-- vfs_path_of works exactly for paths of at most 255 bytes. -/
theorem vfsPathOf_isSome : (vfsPathOf d (some x) fsPathMax).isSome ↔ n ≤ fsPathMax - 1 := by
  constructor
  · intro some_path
    cases below with
    | here => exact zero_le
    | step inner up above =>
      have notRoot : x ≠ d.root := inner
      simp only [vfsPathOf, if_neg notRoot] at some_path
      cases result : pathLoop d (fsPathMax + 1) (some x) [] with
      | none => simp [result] at some_path
      | some path =>
        have spec := pathLoop_length (.step inner up above) _ [] path result zero_le
        omega
  · intro fits
    obtain ⟨path, result, _⟩ := vfsPathOf_spec below fits
    rw [result]
    rfl

end

end

variable {d : Disk} {x : NodeId}

theorem Tree.printable_iff (tree : Tree d) :
    Printable d ↔ ∀ x, d.live x → (d.node x).parent ≠ none →
      (vfsPathOf d (some x) fsPathMax).isSome := by
  constructor
  · intro printable x live named
    obtain ⟨n, small, below⟩ := printable x fun out => named (Disk.shape_out.mp out live)
    exact (vfsPathOf_isSome below).mpr small
  · intro paths x inTree
    obtain ⟨_, _, steps⟩ := tree.deep x inTree
    obtain ⟨n, below⟩ := steps.reweigh part
    have live : d.live x := by
      by_contra dead
      simp [Disk.shape, dead] at inTree
    have named : (d.node x).parent ≠ none := fun out => inTree (Disk.shape_out.mpr fun _ => out)
    exact ⟨n, (vfsPathOf_isSome below).mp (paths x live named), below⟩

/-! The calls that check the path they make. -/

/-- The bytes of a directory's path that come before the '/' of its entries. -/
def pathLength (d : Disk) (dir : NodeId) : Nat :=
  if dir = d.root then 0 else ((vfsPathOf d (some dir) fsPathMax).getD []).length

theorem Printable.pathLength_eq (printable : Printable d) (inTree : d.shape.parent x ≠ none) :
    d.shape.Below part d.root x (pathLength d x) := by
  obtain ⟨n, small, below⟩ := printable x inTree
  obtain ⟨path, result, length⟩ := vfsPathOf_spec below small
  by_cases isRoot : x = d.root
  · subst isRoot
    simpa [pathLength] using Hierarchy.Below.here
  rw [if_neg isRoot] at length
  rwa [pathLength, if_neg isRoot, result, Option.getD_some, length]

/-- path_length counts at least the bytes of the path. -/
theorem Printable.path_fits (printable : Printable d) {q : NodeId} {n : Name} {below : Nat}
    (inTree : d.shape.parent q ≠ none) (fits : defPathFits d q n below) :
    pathLength d q + part n + below ≤ fsPathMax - 1 := by
  obtain ⟨k, small, place⟩ := printable q inTree
  obtain ⟨path, result, length⟩ := vfsPathOf_spec place small
  simp only [defPathFits, result, decide_eq_true_eq] at fits
  have atMost : pathLength d q ≤ path.length := by
    rw [pathLength, result]
    split
    · exact zero_le
    · exact le_refl _
  simp only [part] at fits ⊢
  omega

theorem Tree.longest_fits (tree : Tree d) (printable : Printable d) {q y : NodeId} {m : Nat}
    {n : Name} (placed : d.shape.parent x ≠ none) (inTree : d.shape.parent q ≠ none)
    (fits : defPathFits d q n (longestBelow d x)) (below : d.shape.Below part x y m) :
    pathLength d q + part n + m ≤ fsPathMax - 1 := by
  have longest : m ≤ longestBelow d x := tree.below_le_deepest part placed below
  have checked := printable.path_fits inTree fits
  omega

theorem Effect.printable {g : Hierarchy NodeId Name} (tree : Tree d) (printable : Printable d)
    (effect : Effect d g) : g.Within part (fsPathMax - 1) := by
  cases effect with
  | same agree => exact Hierarchy.Within.agree printable agree
  | @insert x p n dead inTree fits _ =>
    have out : d.shape.parent x = none := by simp [Disk.shape, dead]
    have inner : x ≠ d.root := by
      rintro rfl
      cases out.symm.trans tree.valid.top
    apply Hierarchy.Within.insert printable part_pos inner out (tree.no_children (by simp [dead]))
      (printable.pathLength_eq inTree)
    simpa using printable.path_fits inTree fits
  | detach leaf => exact Hierarchy.Within.detach printable leaf
  | rename inner up inTree fits _ =>
    exact Hierarchy.Within.rename printable part_pos inner up (printable.pathLength_eq inTree)
      fun _ _ => tree.longest_fits printable (by simp [up]) inTree fits
  | rehang inner placed inTree clear fits _ =>
    exact Hierarchy.Within.rehang printable part_pos inner (printable.pathLength_eq inTree)
      (clear part) fun _ _ => tree.longest_fits printable placed inTree fits

theorem Keeps.printable {e : Disk} (keeps : Keeps d e) (tree : Tree d) (printable : Printable d) :
    Printable e :=
  keeps.effect.printable tree printable

/-! Exchanges. -/

/-- Room for both nodes of an exchange at their new places: the names go the
other way than the nodes. -/
def exchangeFits (d : Disk) (a b : NodeId) : Bool :=
  match (d.node a).parent, (d.node b).parent with
  | some p, some q =>
    decide (pathLength d q + part (d.node b).name + longestBelow d a ≤ fsPathMax - 1) &&
    decide (pathLength d p + part (d.node a).name + longestBelow d b ≤ fsPathMax - 1)
  | _, _ => true

def Call.fits (d : Disk) : Call → Bool
  | .exchange (some a) (some b) => !exchangeAllowed d a b || exchangeFits d a b
  | _ => true

theorem foldl_max_attained (l : List Nat) (start : Nat) :
    l.foldl max start = start ∨ l.foldl max start ∈ l := by
  induction l generalizing start with
  | nil => exact .inl rfl
  | cons n rest ih =>
    simp only [foldl_cons, mem_cons]
    obtain same | later := ih (max start n)
    · by_cases larger : start ≤ n
      · exact .inr (.inl (by omega))
      · exact .inl (by omega)
    · exact .inr (.inr later)

/-- Some node is as far below as height_below and longest_below say. -/
theorem Tree.deepest_attained (tree : Tree d) (w : Name → Nat) (levels : Nat)
    (live : d.live x) : ∃ y, d.shape.Below w x y (deepestBelow w d levels x) := by
  induction levels generalizing x with
  | zero => exact ⟨x, .here⟩
  | succ levels ih =>
    rw [deepestBelow]
    split
    · obtain none_below | member := foldl_max_attained ((d.node x).children.map fun c =>
        w (d.node c).name + deepestBelow w d levels c) 0
      · rw [none_below]
        exact ⟨x, .here⟩
      obtain ⟨c, listed, weight⟩ := mem_map.mp member
      have child := Disk.shape_children.mpr ⟨live, listed⟩
      obtain ⟨inner, liveC, up⟩ := tree.live_of_child child
      obtain ⟨y, below⟩ := ih liveC
      have first : d.shape.Below w x c (0 + w (d.node c).name) :=
        .step inner (Disk.shape_parent.mpr ⟨liveC, up⟩) .here
      rw [← weight, ← zero_add (w _)]
      exact ⟨y, first.trans below⟩
    · exact ⟨x, .here⟩

theorem Tree.fits_iff (tree : Tree d) {k : Nat} (live : d.live x)
    (placed : d.shape.parent x ≠ none) :
    (∀ y m, d.shape.Below part x y m → k + m ≤ fsPathMax - 1) ↔
      k + longestBelow d x ≤ fsPathMax - 1 := by
  constructor
  · intro every
    obtain ⟨y, below⟩ := tree.deepest_attained part fsDepthMax live
    exact every y _ below
  · intro fits y m below
    have longest : m ≤ longestBelow d x := tree.below_le_deepest part placed below
    omega

theorem Exchanges.printable_iff {a b p q : NodeId} {i j : Nat} (goes : Exchanges d a b p q i j)
    (tree : Tree d) (printable : Printable d) :
    Printable (exchanged d a b p q i j) ↔ exchangeFits d a b := by
  obtain ⟨upA, upB⟩ := goes.parents
  have pair := goes.swappable tree (printable.pathLength_eq (tree.parent_in upA))
    (printable.pathLength_eq (tree.parent_in upB))
  rw [Printable, goes.shape tree,
    Hierarchy.Within.swap_iff printable part_pos pair tree.valid.top,
    tree.fits_iff goes.liveA (by simp [upA]), tree.fits_iff goes.liveB (by simp [upB])]
  simp only [exchangeFits, goes.upA, goes.upB, and_eq_true, decide_eq_true_eq]
  exact Iff.rfl

/-! Runs. -/

theorem Call.printable_iff (tree : Tree d) (printable : Printable d) (call : Call)
    (sound : call.sound d) : Printable (call.apply d) ↔ call.fits d := by
  have kept (other : ∀ a b, call ≠ .exchange a b) : Printable (call.apply d) := by
    obtain ⟨e, first, second⟩ := call.keeps tree sound other
    exact second.printable first.tree (first.printable tree printable)
  cases call with
  | exchange a b =>
    cases a with
    | none => exact iff_of_true printable rfl
    | some a =>
      cases b with
      | none => exact iff_of_true printable rfl
      | some b =>
        simp only [Call.sound, and_eq_true] at sound
        by_cases allowed : exchangeAllowed d a b
        · obtain ⟨p, q, i, j, goes, result⟩ := exchange_goes tree sound.1 sound.2 allowed
          simp only [Call.apply, result, Call.fits, allowed]
          exact goes.printable_iff tree printable
        · simpa [Call.apply, ramdiskExchange, Call.fits, allowed] using printable
  | _ => exact iff_of_true (kept fun _ _ e => by cases e) rfl

def fitsRun (d : Disk) : List Call → Bool
  | [] => true
  | call :: rest => call.fits d && fitsRun (call.apply d) rest

theorem runs_printable (tree : Tree d) (printable : Printable d) (calls : List Call)
    (sound : soundRun d calls) :
    (∀ n, Printable ((calls.take n).foldl Call.apply d)) ↔ fitsRun d calls := by
  induction calls generalizing d with
  | nil => simpa [fitsRun] using printable
  | cons call rest ih =>
    simp only [soundRun, and_eq_true] at sound
    have here := call.printable_iff tree printable sound.1
    simp only [fitsRun, and_eq_true]
    constructor
    · intro every
      have first : Printable (call.apply d) := every 1
      refine ⟨here.mp first, (ih (call.tree tree sound.1) first sound.2).mp fun n => ?_⟩
      exact every (n + 1)
    · rintro ⟨fits, later⟩ n
      have first := here.mpr fits
      cases n with
      | zero => exact printable
      | succ n => exact (ih (call.tree tree sound.1) first sound.2).mpr later n

theorem soundRun_take {calls : List Call} (sound : soundRun d calls) (n : Nat) :
    soundRun d (calls.take n) := by
  induction calls generalizing d n with
  | nil => simpa using sound
  | cons call rest ih =>
    simp only [soundRun, and_eq_true] at sound
    cases n with
    | zero => rfl
    | succ n =>
      simp only [take_succ_cons, soundRun, and_eq_true]
      exact ⟨sound.1, ih sound.2 n⟩

theorem init_printable (root : NodeId) {hello : Option NodeId} (elf : List U8) (text : Bool)
    (apart : hello.all (· != root)) : Printable (ramdiskInit root hello elf text) := by
  apply (init_keeps root elf text apart).printable (rootOnly_tree root)
  intro x inTree
  by_cases here : x = root
  · subst here
    exact ⟨0, zero_le, .here⟩
  · exact absurd ((rootOnly_shape root).2.1 x here) inTree

/-- At every point of a run each node of the tree has a path of at most 255
bytes, exactly when every exchange left room for the exchanged names. -/
theorem paths_stay_printable (root : NodeId) (hello : Option NodeId) (elf : List U8) (text : Bool)
    (apart : hello.all (· != root) = true) (calls : List Call)
    (sound : soundRun (ramdiskInit root hello elf text) calls = true) :
    (∀ n x, ((calls.take n).foldl Call.apply (ramdiskInit root hello elf text)).live x = true →
      (((calls.take n).foldl Call.apply (ramdiskInit root hello elf text)).node x).parent ≠ none →
      (vfsPathOf ((calls.take n).foldl Call.apply (ramdiskInit root hello elf text)) (some x)
        fsPathMax).isSome = true) ↔
      fitsRun (ramdiskInit root hello elf text) calls = true := by
  have start := (init_keeps root elf text apart).tree
  rw [← runs_printable start (init_printable root elf text apart) calls sound]
  constructor
  · intro every n
    exact (run_tree start _ (soundRun_take sound n)).printable_iff.mpr (every n)
  · intro every n
    exact (run_tree start _ (soundRun_take sound n)).printable_iff.mp (every n)

/-- A directory of a long name with a file of the longest name in it, and a
directory "a" that holds a file of the longest name too. -/
def longNames : List Call :=
  [.create (some 3) (some 1) (List.replicate 100 0x64) .directory,
    .create (some 4) (some 3) (List.replicate 127 0x62) .file,
    .create (some 5) (some 1) [0x61] .directory,
    .create (some 6) (some 5) (List.replicate 127 0x63) .file]

/-- The two files change places, which leaves both directories as long as before. -/
def fittingCalls : List Call := longNames ++ [.exchange (some 4) (some 6)]

theorem paths_stay_printable_fittingCalls :
    soundRun (ramdiskInit 1 (some 2) [] true) fittingCalls = true ∧
      ∀ n x,
        ((fittingCalls.take n).foldl Call.apply (ramdiskInit 1 (some 2) [] true)).live x = true →
        (((fittingCalls.take n).foldl Call.apply (ramdiskInit 1 (some 2) [] true)).node x).parent ≠
          none →
        (vfsPathOf ((fittingCalls.take n).foldl Call.apply (ramdiskInit 1 (some 2) [] true))
          (some x) fsPathMax).isSome = true := by
  have sound : soundRun (ramdiskInit 1 (some 2) [] true) fittingCalls = true := by decide +kernel
  exact ⟨sound, (paths_stay_printable 1 (some 2) [] true (by decide) fittingCalls sound).mpr
    (by decide +kernel)⟩

/-- Exchanging "a" with the long-named file is accepted, and the file in it then
has a path of 357 bytes, which vfs_path_of cannot print. -/
theorem exchange_breaks_path :
    (ramdiskExchange (longNames.foldl Call.apply (ramdiskInit 1 (some 2) [] true))
        (some 5) (some 4)).1 = 0 ∧
      ((ramdiskExchange (longNames.foldl Call.apply (ramdiskInit 1 (some 2) [] true))
        (some 5) (some 4)).2.node 6).parent = some 5 ∧
      vfsPathOf (ramdiskExchange (longNames.foldl Call.apply (ramdiskInit 1 (some 2) [] true))
        (some 5) (some 4)).2 (some 6) fsPathMax = none := by
  decide +kernel

end UzOS.Fs
