import UzOS.Fs.TreeCalls

/-! Moving and exchanging nodes of the tree. -/
namespace UzOS.Fs

/-- What ramdisk_move has checked when it moves `x` from `p` to `q`. -/
structure Moving (d : Disk) (x q p : NodeId) (name : Name) : Prop where
  up : (d.node x).parent = some p
  inner : x ≠ d.root
  isOurs : ours d (some q) = true
  proper : defNewNameOk name = true
  allowed : defMoveAllowed d x q = true
  fits : defPathFits d q name (longestBelow d x) = true
  deep : defDepthOk d q (1 + heightBelow d x) = true
  free : (ramdiskFinddir d q name).any (· != x) = false

section
variable {d : Disk} {x p q : NodeId} {n : Name}

/-- If finddir finds nothing but `x`, no other entry has that name. -/
theorem Tree.finddir_only (tree : Tree d) (live : d.live q)
    (free : (ramdiskFinddir d q n).any (· != x) = false) :
    ∀ c ∈ d.shape.children q, c ≠ x → d.shape.name c ≠ n := by
  intro c member other same
  rw [Disk.shape_children_live live] at member
  cases found : ramdiskFinddir d q n with
  | none => exact finddir_none (by rw [found]; rfl) c member same
  | some y =>
    obtain ⟨listed, name⟩ := finddir_some found
    rw [found] at free
    simp only [Option.any_some, bne_eq_false_iff_eq] at free
    subst free
    apply other
    rw [← Disk.shape_children_live live] at member listed
    exact tree.valid.names q c member y listed (same.trans name.symm)

theorem Moving.renamed (goes : Moving d x q q n) (tree : Tree d) (liveX : d.live x)
    (live : d.live q) : Keeps d (d.modify x fun m => { m with name := n }) := by
  have parent : d.shape.parent x = some q := Disk.shape_parent.mpr ⟨liveX, goes.up⟩
  have shape : (d.modify x fun m => { m with name := n }).shape = d.shape.rename x n := by
    simp only [Disk.shape]
    congr 1 <;> funext y <;> by_cases here : y = x <;> simp [here]
  have effect : Effect d (d.modify x fun m => { m with name := n }).shape :=
    shape ▸ .rename goes.inner parent (tree.parent_in parent) goes.fits goes.deep
  refine ⟨⟨?_, effect.deep tree, ?_, ?_, ?_⟩, effect⟩
  · rw [shape]
    apply tree.valid.rename
    intro r listed
    cases tree.listed_once listed goes.up
    exact tree.finddir_only live goes.free
  · rw [shape]
    exact tree.width
  · intro r c member
    rw [shape] at member ⊢
    by_cases here : c = x
    · simpa [Hierarchy.rename, here] using goes.proper
    · simpa [Hierarchy.rename, here] using tree.names r c member
  · intro y isLive
    have ok := tree.nodes y isLive
    rw [modify_node]
    split
    · exact ⟨ok.driver, ok.flat, ok.nameless⟩
    · exact ok

/-- The node `x` taken from `p` to `q`, under the name `n`. -/
def moveTo (d : Disk) (x p q : NodeId) (n : Name) : Disk :=
  (((removeChild d p x).modify q fun m => { m with children := m.children ++ [x] }).modify x
    fun m => { m with parent := some q }).modify x fun m => { m with name := n }

theorem moveTo_node (y : NodeId) (awayP : x ≠ p) (awayQ : x ≠ q) (apart : q ≠ p) :
    (moveTo d x p q n).node y =
      if y = x then { d.node x with parent := some q, name := n }
      else if y = q then { d.node q with children := (d.node q).children ++ [x] }
      else if y = p then { d.node p with children := (d.node p).children.erase x }
      else d.node y := by
  by_cases here : y = x
  · subst here
    simp [moveTo, removeChild, awayP, awayQ]
  by_cases atQ : y = q
  · subst atQ
    simp [moveTo, removeChild, here, apart]
  by_cases atP : y = p
  · subst atP
    simp [moveTo, removeChild, here, atQ]
  · simp [moveTo, removeChild, here, atQ, atP]

theorem moveTo_shape (tree : Tree d) (live : d.live q) (liveP : d.live p)
    (liveX : d.live x) (listed : x ∈ (d.node p).children) (awayP : x ≠ p) (awayQ : x ≠ q)
    (apart : q ≠ p) : (moveTo d x p q n).shape = d.shape.rehang x q n := by
  simp only [Disk.shape, moveTo_node _ awayP awayQ apart]
  congr 1
  · funext y
    by_cases here : y = x
    · subst here
      simp [moveTo, removeChild, liveX]
    simp only [moveTo, removeChild, here, if_false, Function.update_of_ne here]
    by_cases atQ : y = q
    · simp [atQ]
    by_cases atP : y = p
    · subst atP
      simp [atQ]
    · simp [atQ, atP]
  · funext y
    by_cases here : y = x
    · subst here
      have elsewhere := tree.erase_elsewhere liveP listed awayP
      simp only [Disk.shape] at elsewhere
      simp [moveTo, removeChild, awayQ, elsewhere]
    · by_cases atQ : y = q
      · subst atQ
        simp [moveTo, removeChild, here, live]
      by_cases atP : y = p
      · subst atP
        simp [moveTo, removeChild, here, atQ, liveP]
      have elsewhere := tree.erase_elsewhere liveP listed atP
      simp only [Disk.shape] at elsewhere
      simp [moveTo, removeChild, here, atQ, atP, elsewhere]
  · funext y
    by_cases here : y = x
    · subst here
      simp
    by_cases atQ : y = q
    · subst atQ
      simp [here]
    by_cases atP : y = p
    · subst atP
      simp [here, atQ]
    · simp [here, atQ, atP]

theorem Moving.moved (goes : Moving d x q p n) (tree : Tree d) (liveX : d.live x)
    (live : d.live q) (apart : q ≠ p) (clear : ∀ w m, ¬ d.shape.Below w x q m)
    (room : (d.node q).children.length < fsMaxChildren) : Keeps d (moveTo d x p q n) := by
  obtain ⟨up, inner, isOurs, proper, -, fits, shallow, free⟩ := goes
  obtain ⟨directory, inTree⟩ := tree.ours_spec live isOurs
  obtain ⟨liveP, listed⟩ := tree.child_of_parent inner liveX up
  have parent : d.shape.parent x = some p := Disk.shape_parent.mpr ⟨liveX, up⟩
  have awayP : x ≠ p := (tree.parent_ne inner parent).symm
  have awayQ : x ≠ q := by
    rintro rfl
    exact clear level 0 .here
  have unlisted : x ∉ d.shape.children q := fun there => apart (tree.listed_once there up)
  have shape : (moveTo d x p q n).shape = _ :=
    moveTo_shape tree live liveP liveX listed awayP awayQ apart
  have effect : Effect d (moveTo d x p q n).shape :=
    shape ▸ .rehang inner (by simp [parent]) inTree clear fits shallow
  refine ⟨⟨?_, effect.deep tree, ?_, ?_, ?_⟩, effect⟩
  · rw [shape]
    apply tree.valid.rehang inner unlisted
    intro c member
    exact tree.finddir_only live free c member fun same => unlisted (same ▸ member)
  · intro r
    rw [shape]
    simp only [Hierarchy.rehang]
    split
    · rw [List.length_append, Disk.shape_children_live live]
      exact room
    · exact le_trans List.length_erase_le (tree.width r)
  · intro r c member
    rw [shape] at member ⊢
    by_cases here : c = x
    · simpa [Hierarchy.rehang, here] using proper
    simp only [Hierarchy.rehang, Function.update_of_ne here] at member ⊢
    split at member
    · exact tree.names q c (by simpa [here] using member)
    · exact tree.names r c (List.mem_of_mem_erase member)
  · intro y isLive
    have ok := tree.nodes y isLive
    rw [moveTo_node y awayP awayQ apart]
    split
    · rename_i here
      subst here
      exact ⟨ok.driver, ok.flat, fun out => (by cases out)⟩
    split
    · rename_i atQ
      subst atQ
      exact ⟨ok.driver, fun other => absurd directory other, ok.nameless⟩
    split
    · rename_i atP
      subst atP
      exact ⟨ok.driver, fun other => by simp [ok.flat other], ok.nameless⟩
    · exact ok

/-- no_cycle refuses everything below the node. -/
theorem Tree.move_clear (tree : Tree d) (placed : d.shape.parent x ≠ none)
    (liveX : d.live x) (directory : (d.node q).flags = .directory)
    (allowed : defMoveAllowed d x q) (w : Name → Nat) (m : Nat) :
    ¬ d.shape.Below w x q m := by
  simp only [defMoveAllowed, Bool.not_eq_true', Bool.and_eq_false_iff, decide_eq_false_iff_not]
    at allowed
  by_cases isDir : (d.node x).flags = .directory
  · exact tree.not_below placed (allowed.resolve_left (· isDir)) m
  intro below
  obtain ⟨rfl, _⟩ := below.leaf (tree.no_children fun _ => (tree.nodes x liveX).flat isDir)
  exact isDir directory

end

/-- ramdisk_move does nothing, gives a new name or takes the node elsewhere. -/
theorem move_outcome (d : Disk) (node newDir : Option NodeId) (newName : Name) :
    ramdiskMove d node newDir newName = (-1, d) ∨
      ∃ x q p, node = some x ∧ newDir = some q ∧ Moving d x q p newName ∧
        ((q = p ∧ ramdiskMove d node newDir newName =
            (0, d.modify x fun n => { n with name := newName })) ∨
          (q ≠ p ∧ (d.node q).children.length < fsMaxChildren ∧
            ramdiskMove d node newDir newName = (0, moveTo d x p q newName))) := by
  cases node with
  | none => exact .inl rfl
  | some x =>
    cases newDir with
    | none => exact .inl rfl
    | some q =>
      simp only [ramdiskMove]
      split
      · exact .inl rfl
      rename_i base
      split
      · exact .inl rfl
      split
      · exact .inl rfl
      rename_i proper
      split
      · exact .inl rfl
      rename_i allowed
      split
      · exact .inl rfl
      rename_i fits
      split
      · exact .inl rfl
      rename_i free
      simp only [Bool.or_eq_true, decide_eq_true_eq, Bool.not_eq_true', not_or, Bool.not_eq_false,
        Bool.not_eq_true] at base proper allowed fits free
      cases up : (d.node x).parent with
      | none => exact .inl rfl
      | some p =>
        have goes : Moving d x q p newName :=
          ⟨up, base.1.1, base.1.2, proper, allowed, fits.1, fits.2, free⟩
        simp only
        split
        · rename_i same
          exact .inr ⟨x, q, p, rfl, rfl, goes, .inl ⟨same, rfl⟩⟩
        rename_i apart
        split
        · exact .inl rfl
        rename_i room
        have still : ¬ fsMaxChildren ≤ ((removeChild d p x).node q).children.length := by
          rwa [removeChild, modify_node_ne d _ apart]
        refine .inr ⟨x, q, p, rfl, rfl, goes, .inr ⟨apart, Nat.lt_of_not_le room, ?_⟩⟩
        simp only [addChild, if_neg still, Option.getD_some]
        rfl

variable {d : Disk}

theorem move_keeps (tree : Tree d) {node newDir : Option NodeId} (newName : Name)
    (liveNode : node.all d.live) (liveDir : newDir.all d.live) :
    Keeps d (ramdiskMove d node newDir newName).2 := by
  rcases move_outcome d node newDir newName with failed | ⟨x, q, p, rfl, rfl, goes, moves⟩
  · rw [failed]
    exact .refl tree
  have parent : d.shape.parent x = some p := Disk.shape_parent.mpr ⟨liveNode, goes.up⟩
  obtain ⟨directory, _⟩ := tree.ours_spec liveDir goes.isOurs
  rcases moves with ⟨rfl, renamed⟩ | ⟨apart, room, moved⟩
  · rw [renamed]
    exact goes.renamed tree liveNode liveDir
  have clear := tree.move_clear (by simp [parent]) liveNode directory goes.allowed
  rw [moved]
  exact goes.moved tree liveNode liveDir apart clear room

/-! Exchanging. -/

/-- What exchangeAllowed says about the tree. -/
theorem Tree.exchange_clear (tree : Tree d) {a b p q : NodeId} (upA : d.shape.parent a = some p)
    (upB : d.shape.parent b = some q) (allowed : exchangeAllowed d a b) :
    (∀ w m, ¬ d.shape.Below w a b m) ∧ (∀ w m, ¬ d.shape.Below w b a m) ∧
      defDepthOk d q (1 + heightBelow d a) ∧ defDepthOk d p (1 + heightBelow d b) := by
  simp only [exchangeAllowed, (Disk.shape_parent.mp upA).2, (Disk.shape_parent.mp upB).2,
    Bool.and_eq_true, Bool.not_eq_true', Bool.or_eq_false_iff] at allowed
  obtain ⟨⟨_, notAbove, notBelow⟩, ⟨_, deepA⟩, deepB⟩ := allowed
  exact ⟨fun w m => tree.not_below (by simp [upA]) notAbove m,
    fun w m => tree.not_below (by simp [upB]) notBelow m, deepA, deepB⟩

section
variable {d : Disk} {a b p q : NodeId} {i j : Nat}

/-- The two nodes and their directories are four nodes, or three. -/
structure Apart (a b p q : NodeId) : Prop where
  ab : a ≠ b
  ap : a ≠ p
  aq : a ≠ q
  bp : b ≠ p
  bq : b ≠ q

theorem exchanged_node (apart : Apart a b p q) (y : NodeId) :
    (exchanged d a b p q i j).node y =
      if y = a then { d.node a with name := (d.node b).name, parent := some q }
      else if y = b then { d.node b with name := (d.node a).name, parent := some p }
      else { d.node y with children :=
        let l := if y = p then (d.node y).children.set i b else (d.node y).children
        if y = q then l.set j a else l } := by
  obtain ⟨ab, ap, aq, bp, bq⟩ := apart
  by_cases isA : y = a
  · subst isA
    simp [exchanged, ab, ap, aq]
  by_cases isB : y = b
  · subst isB
    simp [exchanged, ab.symm, bp, bq]
  by_cases isP : y = p
  · subst isP
    by_cases isQ : y = q
    · subst isQ
      simp [exchanged, isA, isB]
    · simp [exchanged, isA, isB, isQ]
  · by_cases isQ : y = q
    · subst isQ
      simp [exchanged, isA, isB, isP]
    · simp [exchanged, isA, isB, isP, isQ]

theorem exchanged_children (apart : Apart a b p q) (y : NodeId) :
    ((exchanged d a b p q i j).node y).children =
      let l := if y = p then (d.node y).children.set i b else (d.node y).children
      if y = q then l.set j a else l := by
  rw [exchanged_node apart]
  by_cases isA : y = a
  · subst isA
    simp [apart.ap, apart.aq]
  by_cases isB : y = b
  · subst isB
    simp [apart.ab.symm, apart.bp, apart.bq]
  · simp [isA, isB]

theorem exchanged_lists (tree : Tree d) (upA : (d.node a).parent = some p)
    (upB : (d.node b).parent = some q) (slotA : slotOf d p a = some i)
    (slotB : slotOf d q b = some j) {y : NodeId} (live : d.live y) :
    (let l := if y = p then (d.node y).children.set i b else (d.node y).children
      if y = q then l.set j a else l) = (d.node y).children.map (Equiv.swap a b) := by
  have nodup := tree.valid.nodup y
  have onlyP : y ≠ p → a ∉ d.shape.children y := fun other member =>
    other (tree.listed_once member upA)
  have onlyQ : y ≠ q → b ∉ d.shape.children y := fun other member =>
    other (tree.listed_once member upB)
  rw [Disk.shape_children_live live] at nodup onlyP onlyQ
  by_cases isP : y = p
  · subst isP
    by_cases isQ : y = q
    · subst isQ
      simpa using Hierarchy.set_set_eq_map_swap nodup slotA slotB
    · simpa [isQ] using Hierarchy.set_eq_map_swap nodup slotA (onlyQ isQ)
  · by_cases isQ : y = q
    · subst isQ
      rw [Equiv.swap_comm]
      simpa [isP] using Hierarchy.set_eq_map_swap nodup slotB (onlyP isP)
    · simpa [isP, isQ] using (Hierarchy.map_swap_eq_self (onlyP isP) (onlyQ isQ)).symm

theorem exchanged_shape (tree : Tree d) (apart : Apart a b p q) (liveA : d.live a)
    (liveB : d.live b) (upA : (d.node a).parent = some p) (upB : (d.node b).parent = some q)
    (slotA : slotOf d p a = some i) (slotB : slotOf d q b = some j) :
    (exchanged d a b p q i j).shape = d.shape.swap a b := by
  simp only [Disk.shape, exchanged_children apart]
  congr 1
  · funext y
    rw [exchanged_node apart]
    by_cases isA : y = a
    · subst isA
      simp [exchanged, liveA, liveB, upB]
    by_cases isB : y = b
    · subst isB
      simp [exchanged, isA, liveA, liveB, upA]
    · simp [exchanged, isA, isB, Equiv.swap_apply_of_ne_of_ne isA isB]
  · funext y
    by_cases live : d.live y
    · rw [exchanged_lists tree upA upB slotA slotB live]
      simp [exchanged, live]
    · simp [exchanged, live]
  · funext y
    rw [exchanged_node apart]
    by_cases isA : y = a
    · subst isA
      simp
    by_cases isB : y = b
    · subst isB
      simp [isA]
    · simp [isA, isB, Equiv.swap_apply_of_ne_of_ne isA isB]

/-- An exchange that goes through, and where the two nodes are. -/
structure Exchanges (d : Disk) (a b p q : NodeId) (i j : Nat) : Prop where
  apart : Apart a b p q
  liveA : d.live a = true
  liveB : d.live b = true
  innerA : a ≠ d.root
  innerB : b ≠ d.root
  upA : (d.node a).parent = some p
  upB : (d.node b).parent = some q
  slotA : slotOf d p a = some i
  slotB : slotOf d q b = some j
  allowed : exchangeAllowed d a b = true

section
variable (goes : Exchanges d a b p q i j)
include goes

theorem Exchanges.shape (tree : Tree d) : (exchanged d a b p q i j).shape = d.shape.swap a b :=
  exchanged_shape tree goes.apart goes.liveA goes.liveB goes.upA goes.upB goes.slotA goes.slotB

theorem Exchanges.parents : d.shape.parent a = some p ∧ d.shape.parent b = some q :=
  ⟨Disk.shape_parent.mpr ⟨goes.liveA, goes.upA⟩, Disk.shape_parent.mpr ⟨goes.liveB, goes.upB⟩⟩

theorem Exchanges.swappable (tree : Tree d) {w : Name → Nat}
    {m n : Nat} (placeA : d.shape.Below w d.root p m) (placeB : d.shape.Below w d.root q n) :
    d.shape.Swappable w a b p q m n := by
  obtain ⟨upA, upB⟩ := goes.parents
  obtain ⟨clearA, clearB, _⟩ := tree.exchange_clear upA upB goes.allowed
  exact ⟨goes.innerA, goes.innerB, upA, upB, placeA, placeB, clearA w, clearB w⟩

theorem Exchanges.deep (tree : Tree d) : (d.shape.swap a b).Within level fsDepthMax := by
  obtain ⟨upA, upB⟩ := goes.parents
  obtain ⟨_, _, deepA, deepB⟩ := tree.exchange_clear upA upB goes.allowed
  have pair := goes.swappable tree (tree.defDepthOf_eq (tree.parent_in upA))
    (tree.defDepthOf_eq (tree.parent_in upB))
  refine (tree.deep.swap_iff level_pos pair tree.valid.top).mpr ⟨?_, ?_⟩
  · exact fun _ _ => tree.depth_fits (by simp [upA]) deepA
  · exact fun _ _ => tree.depth_fits (by simp [upB]) deepB

theorem Exchanges.tree (tree : Tree d) : Tree (exchanged d a b p q i j) := by
  have shape := goes.shape tree
  refine ⟨?_, ?_, ?_, ?_, ?_⟩
  · rw [shape]
    exact tree.valid.swap goes.innerA goes.innerB
  · rw [shape]
    exact goes.deep tree
  · intro r
    rw [shape]
    simpa [Hierarchy.swap] using tree.width r
  · intro r c member
    rw [shape] at member ⊢
    obtain ⟨e, old, rfl⟩ := List.mem_map.mp member
    simpa [Hierarchy.swap] using tree.names r e old
  · intro y isLive
    have ok := tree.nodes y isLive
    rw [exchanged_node goes.apart]
    split
    · rename_i here
      subst here
      exact ⟨ok.driver, ok.flat, fun out => (by cases out)⟩
    split
    · rename_i here
      subst here
      exact ⟨ok.driver, ok.flat, fun out => (by cases out)⟩
    refine ⟨ok.driver, fun other => ?_, ok.nameless⟩
    simp [ok.flat other]

end

end

theorem Tree.slot (tree : Tree d) {x p : NodeId} (inner : x ≠ d.root) (live : d.live x)
    (up : (d.node x).parent = some p) : ∃ i, slotOf d p x = some i := by
  obtain ⟨_, listed⟩ := tree.child_of_parent inner live up
  cases slot : slotOf d p x with
  | none => exact absurd listed (List.idxOf?_eq_none_iff.mp slot)
  | some i => exact ⟨i, rfl⟩

/-- The checks of ramdisk_exchange are all that can stop it. -/
theorem exchange_goes (tree : Tree d) {a b : NodeId} (liveA : d.live a)
    (liveB : d.live b) (allowed : exchangeAllowed d a b) :
    ∃ p q i j, Exchanges d a b p q i j ∧
      ramdiskExchange d (some a) (some b) = (0, exchanged d a b p q i j) := by
  have basics := allowed
  simp only [exchangeAllowed, Bool.and_eq_true, Bool.not_eq_true', Bool.or_eq_false_iff,
    beq_eq_false_iff_ne] at basics
  obtain ⟨⟨⟨⟨⟨⟨⟨ab, innerA⟩, innerB⟩, oursA⟩, oursB⟩, _⟩, _⟩, _⟩ := basics
  cases upA : (d.node a).parent with
  | none =>
    rw [upA] at oursA
    cases oursA
  | some p =>
    cases upB : (d.node b).parent with
    | none =>
      rw [upB] at oursB
      cases oursB
    | some q =>
      have parentA : d.shape.parent a = some p := Disk.shape_parent.mpr ⟨liveA, upA⟩
      have parentB : d.shape.parent b = some q := Disk.shape_parent.mpr ⟨liveB, upB⟩
      obtain ⟨i, slotA⟩ := tree.slot innerA liveA upA
      obtain ⟨j, slotB⟩ := tree.slot innerB liveB upB
      obtain ⟨clearA, clearB, _⟩ := tree.exchange_clear parentA parentB allowed
      have apart : Apart a b p q := by
        refine ⟨ab, (tree.parent_ne innerA parentA).symm, ?_, ?_,
          (tree.parent_ne innerB parentB).symm⟩
        · rintro rfl
          exact clearA level _ (.step innerB parentB .here)
        · rintro rfl
          exact clearB level _ (.step innerA parentA .here)
      refine ⟨p, q, i, j,
        ⟨apart, liveA, liveB, innerA, innerB, upA, upB, slotA, slotB, allowed⟩, ?_⟩
      simp [ramdiskExchange, allowed, upA, upB, slotA, slotB]

theorem exchange_tree (tree : Tree d) {a b : Option NodeId} (liveA : a.all d.live)
    (liveB : b.all d.live) : Tree (ramdiskExchange d a b).2 := by
  cases a with
  | none => exact tree
  | some a =>
    cases b with
    | none => exact tree
    | some b =>
      by_cases allowed : exchangeAllowed d a b
      · obtain ⟨p, q, i, j, goes, result⟩ := exchange_goes tree liveA liveB allowed
        rw [result]
        exact goes.tree tree
      · simpa [ramdiskExchange, allowed] using tree

end UzOS.Fs
