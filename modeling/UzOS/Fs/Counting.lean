import UzOS.Fs.Atomic
import UzOS.Fs.Inode

/-! Every call into the RAM disk keeps the counters of the inodes right. -/
namespace UzOS.Fs

open References (Counts)

section
variable {η : Type} {d e : Disk} {held : η → Option NodeId} {x p : NodeId} {type : Kind}

/-! Creating and linking. -/

/-- `e` has a new node `x` in a directory; a link names `inode` one more time. -/
structure Adds (d e : Disk) (x : NodeId) (link : Option NodeId) (type : Kind) : Prop where
  dead : d.live x = false
  shifts : Shifts d e (· = x)
  live : e.live x = true
  flags : (e.node x).flags = type
  target : (e.node x).target = link
  placed : (e.node x).parent ≠ none
  fresh : (e.node x).openCount = 0
  release : link = none → type = .file → (e.node x).release = true
  nlink : link = none → (e.node x).nlink = 1
  links : ∀ y, y ≠ x → (e.node y).nlink = (d.node y).nlink + if link = some y then 1 else 0
  opens : ∀ y, y ≠ x → (e.node y).openCount = (d.node y).openCount
  leads : ∀ t, link = some t → d.Inode t ∧ type = .file

theorem Disk.Inode.ne_dead {y : NodeId} (inode : d.Inode y) (dead : d.live x = false) : y ≠ x := by
  rintro rfl
  cases inode.live.symm.trans dead

section
variable {link : Option NodeId} (adds : Adds d e x link type)
include adds

theorem Adds.inode {y : NodeId} (lived : d.Inode y) : e.Inode y :=
  (adds.shifts.inode (lived.ne_dead adds.dead)).mpr lived

/-- The new node is a name of its own or of what it links to. -/
theorem Adds.naming_eq {k : NodeId} : e.naming x = some k ↔ type = .file ∧ link.getD x = k := by
  rw [Fs.naming_eq, adds.flags, vfsInode, adds.target]
  simp [adds.live, adds.placed]

theorem Adds.names (tracked : Tracked d held) :
    Counts e.naming e.Inode fun y => (e.node y).nlink := by
  have before : ∀ k, d.naming x ≠ some k := by
    intro k named
    cases (Fs.naming_eq.mp named).1.symm.trans adds.dead
  rw [adds.shifts.naming_update]
  refine tracked.names.change x _ ?_ ?_ ?_ ?_
  · intro k named
    obtain ⟨file, leads⟩ := adds.naming_eq.mp named
    cases link with
    | none =>
      subst leads
      exact ⟨adds.live, adds.flags.trans file, adds.target⟩
    | some t =>
      subst leads
      exact adds.inode (adds.leads t rfl).1
  · intro k lives new
    obtain rfl : k = x := by
      by_contra other
      exact new ((adds.shifts.inode other).mp lives)
    have own : link = none := adds.target.symm.trans lives.own
    have named : e.naming k = some k :=
      adds.naming_eq.mpr ⟨adds.flags.symm.trans lives.file, by rw [own]; rfl⟩
    rw [if_pos named, adds.nlink own]
  · intro k _ lived
    have other := lived.ne_dead adds.dead
    have same : e.naming x = some k ↔ link = some k := by
      rw [adds.naming_eq]
      cases link with
      | none => simp [other.symm]
      | some t => simp [(adds.leads t rfl).2]
    simp only [if_neg (before k), adds.links k other, same]
    rfl
  · intro k lived gone
    exact absurd (adds.inode lived) gone

theorem Adds.counted (counted : Counted d held) : Counted e held := by
  have inner : d.root ≠ x := by
    rintro same
    cases counted.top.1.symm.trans (same ▸ adds.dead)
  refine ⟨adds.shifts.tracked counted.toTracked inner ?_ ?_ ?_ (adds.names counted.toTracked) ?_, ?_⟩
  · rintro _ t rfl _ target
    obtain ⟨inode, file⟩ := adds.leads t (adds.target.symm.trans target)
    exact ⟨adds.inode inode, adds.flags.trans file, adds.placed⟩
  · rintro c _ rfl live target _
    cases (counted.links c _ live target).1.live.symm.trans adds.dead
  · rintro _ rfl inode
    exact adds.release (adds.target.symm.trans inode.own) (adds.flags.symm.trans inode.file)
  · refine counted.descriptors.alter ?_ ?_ ?_
    · intro k lives new
      obtain rfl : k = x := by
        by_contra other
        exact new ((adds.shifts.holdable other).mp lives)
      exact adds.fresh
    · intro k _ lived
      refine adds.opens k ?_
      rintro rfl
      cases lived.1.symm.trans adds.dead
    · intro k lived gone
      refine absurd ((adds.shifts.holdable ?_).mpr lived) gone
      rintro rfl
      cases lived.1.symm.trans adds.dead
  · intro y lives
    by_cases here : y = x
    · subst here
      rw [adds.nlink (adds.target.symm.trans lives.own)]
      exact .inl Nat.one_ne_zero
    rw [adds.links y here, adds.opens y here]
    have lived := (adds.shifts.inode here).mp lives
    exact (counted.needed y lived).imp_left fun some => by omega
end

/-- The node that ramdisk_create hangs into a directory. -/
theorem hangNew_adds (name : Name) (type : Kind) (dead : d.live x = false)
    (live : d.live p) :
    Adds d (hangNew d x p name type) x none type := by
  have apart : x ≠ p := by
    rintro rfl
    cases live.symm.trans dead
  have own : (hangNew d x p name type).node x =
      { (newNode d x name type).node x with parent := some p } := by
    rw [hangNew_node x apart, if_pos rfl]
  have others : ∀ y, y ≠ x → (hangNew d x p name type).node y =
      if y = p then { d.node p with children := (d.node p).children ++ [x] } else d.node y := by
    intro y other
    rw [hangNew_node y apart, if_neg other]
  have kept : ∀ y, y ≠ x → (d.node y).Kin ((hangNew d x p name type).node y) ∧
      ((hangNew d x p name type).node y).nlink = (d.node y).nlink ∧
      ((hangNew d x p name type).node y).openCount = (d.node y).openCount := by
    intro y other
    rw [others y other]
    split
    · rename_i here
      subst here
      exact ⟨⟨rfl, rfl, rfl, rfl⟩, rfl, rfl⟩
    · exact ⟨.refl _, rfl, rfl⟩
  constructor
  · exact dead
  · refine ⟨rfl, fun y other => ?_, fun y other _ => (kept y other).1⟩
    simp [hangNew, newNode, other]
  · simp [hangNew, newNode]
  · simp [own, newNode]
  · simp [own, newNode]
  · simp [own]
  · simp [own, newNode]
  · intro _ file
    rw [own]
    simp [newNode, file]
  · simp [own, newNode]
  · intro y other
    rw [(kept y other).2.1]
    simp
  · exact fun y other => (kept y other).2.2
  · exact fun t no => by cases no

/-- The entry that ramdisk_link makes. -/
theorem link_adds {i : NodeId} (name : Name) (dead : d.live x = false) (live : d.live p)
    (inode : d.Inode i) :
    Adds d (((hangNew d x p name .file).modify x fun n =>
      { n with release := false, target := some i }).modify i fun n =>
        { n with nlink := n.nlink + 1 }) x (some i) .file := by
  have hung := hangNew_adds name .file dead live
  have apart : i ≠ x := inode.ne_dead dead
  generalize hangNew d x p name .file = e at hung ⊢
  have own : ((e.modify x fun n => { n with release := false, target := some i }).modify i fun n =>
      { n with nlink := n.nlink + 1 }).node x =
        { e.node x with release := false, target := some i } := by
    simp [apart.symm]
  have others : ∀ y, y ≠ x → ((e.modify x fun n =>
      { n with release := false, target := some i }).modify i fun n =>
        { n with nlink := n.nlink + 1 }).node y =
          { e.node y with nlink := (e.node y).nlink + if some i = some y then 1 else 0 } := by
    intro y other
    by_cases here : y = i
    · subst here
      simp [other]
    · simp [here, other, Ne.symm here]
  constructor
  · exact dead
  · refine ⟨hung.shifts.root, fun y other => hung.shifts.live y other, fun y other isLive => ?_⟩
    rw [others y other]
    exact (hung.shifts.kin y other isLive).trans ⟨rfl, rfl, rfl, rfl⟩
  · exact hung.live
  · rw [own]
    exact hung.flags
  · rw [own]
  · rw [own]
    exact hung.placed
  · rw [own]
    exact hung.fresh
  · exact nofun
  · exact nofun
  · intro y other
    rw [others y other, hung.links y other]
    simp
  · intro y other
    rw [others y other]
    exact hung.opens y other
  · rintro t ⟨⟩
    exact ⟨inode, rfl⟩

/-! Deleting. -/

/-- What unname leaves of the nodes: the inode counts one name less, and the name
`c` is no name any more. -/
theorem unname_node (c i y : NodeId) :
    ((unname d c i).node y).flags = (d.node y).flags ∧
      ((unname d c i).node y).target = (d.node y).target ∧
      ((unname d c i).node y).release = (d.node y).release ∧
      ((unname d c i).node y).openCount = (d.node y).openCount ∧
      ((unname d c i).node y).nlink = (d.node y).nlink - (if y = i then 1 else 0) ∧
      (y ≠ c → ((unname d c i).node y).parent = (d.node y).parent) := by
  unfold unname
  extract_lets u
  have counted : u.node y = if y = i then { d.node y with nlink := (d.node y).nlink - 1 }
      else d.node y := modify_node d i y _
  split
  · by_cases own : y = i
    · split <;> simp_all
    split <;> simp_all
  · have same : (u.free c).node y = u.node y := rfl
    rw [same, counted]
    by_cases own : y = i <;> simp [own]

theorem unname_shifts (c i : NodeId) : Shifts d (unname d c i) (· = c) := by
  refine ⟨?_, fun y other => ?_, fun y other _ => ?_⟩
  · unfold unname
    split <;> rfl
  · unfold unname
    split
    · rfl
    · simp [Disk.free, other]
  · obtain ⟨flags, target, release, _, _, parent⟩ := unname_node (d := d) c i y
    exact ⟨flags, target, by rw [parent other], release⟩

theorem unname_naming (c i : NodeId) : (unname d c i).naming = Function.update d.naming c none := by
  rw [(unname_shifts c i).naming_update]
  congr 1
  unfold unname
  split
  · simp [Disk.naming]
  · simp [Disk.naming, Disk.free]

section
variable {c i : NodeId} (named : d.naming c = some i)
include named

/-- The name that goes is a link, or its inode stays. -/
theorem unname_inode (k : NodeId) : (unname d c i).Inode k ↔ d.Inode k := by
  obtain ⟨flags, target, _⟩ := unname_node (d := d) c i k
  by_cases other : k = c
  swap
  · exact (unname_shifts c i).inode other
  subst other
  constructor
  · rintro ⟨live, file, own⟩
    exact ⟨(naming_eq.mp named).1, flags ▸ file, target ▸ own⟩
  · rintro ⟨live, file, own⟩
    have self : k = i := by
      have inode := (naming_eq.mp named).2.2.2
      rwa [vfsInode, own] at inode
    refine ⟨?_, flags.trans file, target.trans own⟩
    subst self
    simp [unname, live]

theorem unname_holdable (k : NodeId) : (unname d c i).Holdable k ↔ d.Holdable k := by
  by_cases other : k = c
  swap
  · exact (unname_shifts c i).holdable other
  obtain ⟨live, _, file, _⟩ := naming_eq.mp named
  subst other
  obtain ⟨flags, target, _⟩ := unname_node (d := d) k i k
  constructor
  · rintro ⟨_, own⟩
    exact ⟨live, target ▸ own⟩
  · rintro ⟨_, own⟩
    have inode := (unname_inode named k).mpr ⟨live, file, own⟩
    exact ⟨inode.live, inode.own⟩

theorem Tracked.unname (tracked : Tracked d held) : Tracked (unname d c i) held := by
  have shifts : Shifts d (Fs.unname d c i) (· = c) := unname_shifts c i
  have node := unname_node (d := d) c i
  obtain ⟨live, placed, file, inode⟩ := naming_eq.mp named
  have alive := unname_inode named
  refine shifts.tracked tracked ?_ ?_ ?_ ?_ ?_ ?_
  · rintro rfl
    cases file.symm.trans tracked.top.2
  · intro x t here isLive target
    subst here
    rw [(node x).2.1] at target
    have leads := (tracked.links x t live target).1
    rw [vfsInode, target] at inode
    subst inode
    by_cases self : x = t
    · subst self
      cases leads.own.symm.trans target
    · simp [Fs.unname, self, Disk.free] at isLive
  · intro y x here isLive target _
    exact (alive x).mpr (tracked.links y x isLive target).1
  · intro x here lives
    rw [(node x).2.2.1]
    exact tracked.freeable x ((alive x).mp lives)
  · rw [unname_naming c i]
    refine tracked.names.change c none (fun _ no => by cases no) ?_ ?_ ?_
    · intro k lives new
      exact absurd ((alive k).mp lives) new
    · intro k _ lived
      rw [(node k).2.2.2.2.1]
      by_cases own : k = i
      · subst own
        have some := tracked.names.pos named
        simp only [named]
        simp
        omega
      · have other : d.naming c ≠ .some k := by
          rw [named]
          exact fun same => own (Option.some.inj same).symm
        simp [own, other]
    · intro k lived gone
      exact absurd ((alive k).mpr lived) gone
  · refine tracked.descriptors.alter ?_ (fun k _ _ => (node k).2.2.2.1) ?_
    · intro k lives new
      exact absurd ((unname_holdable named k).mp lives) new
    · intro k lived gone
      exact absurd ((unname_holdable named k).mpr lived) gone

end

/-- A node goes that nobody needs: no descriptor holds it, and if it is an inode
it has no name. -/
theorem Tracked.free (tracked : Tracked d held) (inner : x ≠ d.root) (nameless : d.naming x = none)
    (alone : ∀ c, d.live c → (d.node c).target ≠ some x)
    (unnamed : d.Inode x → (d.node x).nlink = 0)
    (closed : d.Holdable x → (d.node x).openCount = 0) : Tracked (d.free x) held := by
  have shifts : Shifts d (d.free x) (· = x) :=
    ⟨rfl, fun y other => by simp [Disk.free, other], fun y _ _ => .refl _⟩
  have gone : (d.free x).live x = false := by simp [Disk.free]
  have dead : ¬ (d.free x).Inode x := fun inode => by cases gone.symm.trans inode.live
  have naming : (d.free x).naming = d.naming := by
    rw [shifts.naming_update]
    refine Function.update_eq_self_iff.mpr ?_
    rw [nameless]
    simp [Disk.naming, gone]
  refine shifts.tracked tracked inner.symm ?_ ?_ ?_ ?_ ?_
  · intro y t here isLive
    subst here
    cases gone.symm.trans isLive
  · intro c y here live target
    subst here
    exact absurd target (alone c live)
  · intro y here inode
    subst here
    exact absurd inode dead
  · rw [naming]
    refine tracked.names.alter ?_ (fun _ _ _ => rfl) ?_
    · intro k lives new
      have other : k ≠ x := by
        rintro rfl
        exact dead lives
      exact absurd ((shifts.inode other).mp lives) new
    · intro k lived lost
      obtain rfl : k = x := by
        by_contra other
        exact lost ((shifts.inode other).mpr lived)
      exact unnamed lived
  · refine tracked.descriptors.alter ?_ (fun _ _ _ => rfl) ?_
    · intro k lives new
      have other : k ≠ x := by
        rintro rfl
        cases gone.symm.trans lives.1
      exact absurd ((shifts.holdable other).mp lives) new
    · intro k lived lost
      obtain rfl : k = x := by
        by_contra other
        exact lost ((shifts.holdable other).mpr lived)
      exact closed lived

/-- An inode that may have lost its last name or descriptor is freed or needed. -/
theorem Tracked.settle {i : NodeId} (tracked : Tracked d held) (inode : d.Inode i)
    (others : ∀ y, y ≠ i → d.Inode y → (d.node y).nlink ≠ 0 ∨ (d.node y).openCount ≠ 0) :
    Counted (if (d.node i).parent = none && defInodeFreeOk (d.node i) then d.free i else d) held := by
  split
  · rename_i last
    simp only [defInodeFreeOk, Bool.and_eq_true, decide_eq_true_eq, beq_iff_eq] at last
    obtain ⟨nameless, unnamed, closed⟩ := last
    refine ⟨tracked.free ?_ ?_ ?_ (fun _ => unnamed) (fun _ => closed), ?_⟩
    · rintro rfl
      cases inode.file.symm.trans tracked.top.2
    · simp [Disk.naming, nameless]
    · intro c live target
      obtain ⟨_, file, placed⟩ := tracked.links c i live target
      have named : d.naming c = some i :=
        naming_eq.mpr ⟨live, placed, file, by rw [vfsInode, target]; rfl⟩
      exact tracked.names.pos named unnamed
    · intro y lives
      by_cases here : y = i
      · have live := lives.live
        simp [Disk.free, here] at live
      refine others y here ⟨?_, lives.file, lives.own⟩
      simpa [Disk.free, here] using lives.live
  · rename_i more
    refine ⟨tracked, fun y lives => ?_⟩
    by_cases here : y = i
    swap
    · exact others y here lives
    subst here
    by_contra nothing
    push Not at nothing
    have placed : (d.node y).parent ≠ none := by
      intro nameless
      simp [defInodeFreeOk, nameless, nothing] at more
    have named : d.naming y = some y :=
      naming_eq.mpr ⟨inode.live, placed, inode.file, by rw [vfsInode, inode.own]; rfl⟩
    exact tracked.names.pos named nothing.1

end

end UzOS.Fs
