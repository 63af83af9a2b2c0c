import UzOS.Fs.CountedCalls
import UzOS.Fs.Descriptor

/-! The counters of the inodes over whole runs: names, descriptors, children that
inherit them, and processes that end. -/
namespace UzOS.Fs

open Bool List Function

open Kernel (Slot)
open References (aimedAt)

/-- What each descriptor of each process holds. -/
def Files.held (s : Files) (h : Slot × Fd) : Option NodeId := (s.fds h.1).node h.2

/-- What holds between two calls. -/
structure Files.Sound (s : Files) : Prop where
  tree : Tree s.disk
  counted : Counted s.disk s.held
  homes : ∀ c ∈ s.disk.cwds, s.disk.live c = true ∧ (s.disk.node c).flags = .directory

/-- A step from one sound state to the next. -/
structure Goes (s t : Files) : Prop where
  sound : t.Sound
  lasting : Lasting s.disk t.disk

section
variable {s t : Files} {p : Slot} {fd : Fd} {x : NodeId}

theorem Files.Sound.refl (sound : s.Sound) : Goes s s := ⟨sound, .refl _⟩

theorem Files.Sound.goes (sound : s.Sound) (tree : Tree t.disk) (counted : Counted t.disk t.held)
    (lasting : Lasting s.disk t.disk) : Goes s t := by
  refine ⟨⟨tree, counted, fun c home => ?_⟩, lasting⟩
  rw [lasting.cwds] at home
  obtain ⟨live, directory⟩ := sound.homes c home
  have still := lasting.homes c home live directory
  exact ⟨still, (lasting.kinds c live still).1.trans directory⟩

/-- One descriptor of one process changes. -/
theorem held_set (s : Files) (d : Disk) (p : Slot) (fd : Fd) (v : Option NodeId) (o f : U32) :
    Files.held ⟨d, Function.update s.fds p ((s.fds p).set fd v o f)⟩ =
      Function.update s.held (p, fd) v := by
  funext ⟨q, g⟩
  by_cases process : q = p
  · subst process
    by_cases descriptor : g = fd
    · subst descriptor
      simp [Files.held, FdTable.set]
    simp [Files.held, FdTable.set, descriptor]
  · simp [Files.held, process]

theorem freeFd_some {t : FdTable} (free : freeFd t = some fd) : t.node fd = none := by
  simpa using List.find?_some free

theorem Files.Sound.alloc (sound : s.Sound) (holdable : s.disk.Holdable x) (flags : U32) :
    Goes s (s.alloc p x flags).2 := by
  unfold Files.alloc fdAlloc
  cases free : freeFd (s.fds p) with
  | none =>
    have same : (⟨s.disk, Function.update s.fds p (s.fds p)⟩ : Files) = s := by
      rw [update_eq_self]
    simp only [same]
    exact sound.refl
  | some fd =>
    have idle : s.held (p, fd) = none := freeFd_some free
    obtain ⟨counted, lasting⟩ := vfsOpen_counted sound.counted idle holdable
    refine sound.goes ?_ ?_ lasting
    · exact Call.tree sound.tree (.opened x) holdable.1
    · simp only [held_set]
      exact counted

theorem Files.Sound.release (sound : s.Sound) (holds : s.held (p, fd) = some x) :
    Goes s (s.release p fd) := by
  have node : (s.fds p).node fd = some x := holds
  obtain ⟨counted, lasting⟩ := vfsClose_counted sound.counted sound.tree holds
  have live := (sound.counted.descriptors.aimed holds).1
  unfold Files.release fdRelease
  rw [node]
  refine sound.goes ?_ ?_ lasting
  · exact Call.tree sound.tree (.closed x) live
  · simp only [held_set]
    exact counted

theorem Goes.trans {u : Files} (first : Goes s t) (second : Goes t u)
    (fewer : ∀ y, u.disk.live y → t.disk.live y) : Goes s u :=
  ⟨second.sound, first.lasting.trans second.lasting fewer⟩

theorem release_fewer (p : Slot) (fd : Fd) (y : NodeId)
    (live : (s.release p fd).disk.live y) : s.disk.live y := by
  unfold Files.release fdRelease at live
  cases node : (s.fds p).node fd with
  | none =>
    rw [node] at live
    exact live
  | some x =>
    rw [node] at live
    change (vfsClose s.disk x).live y = true at live
    unfold vfsClose at live
    extract_lets d at live
    split at live
    · exact free_fewer live
    · exact live

/-- Closing one descriptor after another. -/
theorem close_fds (must : FdTable → Fd → Bool) (p : Slot) (fds : List Fd) (sound : s.Sound) :
    Goes s (fds.foldl (fun s fd =>
      if ((s.fds p).node fd).isSome && must (s.fds p) fd then s.release p fd else s) s) ∧
    ∀ y, (fds.foldl (fun s fd =>
      if ((s.fds p).node fd).isSome && must (s.fds p) fd then s.release p fd else s) s).disk.live y =
        true → s.disk.live y := by
  induction fds generalizing s with
  | nil => exact ⟨sound.refl, fun _ => id⟩
  | cons fd rest ih =>
    rw [foldl_cons]
    by_cases closes : (((s.fds p).node fd).isSome && must (s.fds p) fd)
    · rw [if_pos closes]
      simp only [and_eq_true] at closes
      obtain ⟨x, holds⟩ := Option.isSome_iff_exists.mp closes.1
      have first : Goes s (s.release p fd) := sound.release holds
      obtain ⟨others, fewer⟩ := ih first.sound
      exact ⟨first.trans others fewer, fun y live => release_fewer p fd y (fewer y live)⟩
    · rw [if_neg closes]
      exact ih sound

theorem Files.Sound.closeThose (sound : s.Sound) (must : FdTable → Fd → Bool) (p : Slot) :
    Goes s (closeThose must s p) :=
  (close_fds must p fileFds sound).1

/-- One round of a child's copy of the table. -/
theorem Files.Sound.inheritFd (sound : s.Sound) (parent child : Slot)
    (idle : s.held (child, fd) = none) : Goes s (inheritFd parent child s fd) ∧
      (inheritFd parent child s fd).disk.live = s.disk.live := by
  have table : (Fs.inheritFd parent child s fd).held =
      Function.update s.held (child, fd) (s.held (parent, fd)) := held_set ..
  cases node : (s.fds parent).node fd with
  | none =>
    have disk : (Fs.inheritFd parent child s fd).disk = s.disk := by simp [Fs.inheritFd, node]
    have held : s.held (parent, fd) = none := node
    refine ⟨sound.goes (disk ▸ sound.tree) ?_ (disk ▸ .refl _), by rw [disk]⟩
    rw [table, held, disk, update_eq_self_iff.mpr idle.symm]
    exact sound.counted
  | some x =>
    have disk : (Fs.inheritFd parent child s fd).disk = vfsOpen s.disk x := by
      simp [Fs.inheritFd, node]
    have held : s.held (parent, fd) = some x := node
    have holdable := sound.counted.descriptors.aimed held
    obtain ⟨counted, lasting⟩ := vfsOpen_counted sound.counted idle holdable
    refine ⟨sound.goes ?_ ?_ (disk ▸ lasting), by rw [disk]; rfl⟩
    · rw [disk]
      exact Call.tree sound.tree (.opened x) holdable.1
    · rw [table, held, disk]
      exact counted

theorem inherit_fds (parent child : Slot) (fds : List Fd) (once : fds.Nodup) (sound : s.Sound)
    (idle : ∀ fd ∈ fds, s.held (child, fd) = none) :
    Goes s (fds.foldl (inheritFd parent child) s) ∧
      (fds.foldl (inheritFd parent child) s).disk.live = s.disk.live := by
  induction fds generalizing s with
  | nil => exact ⟨sound.refl, rfl⟩
  | cons fd rest ih =>
    rw [foldl_cons]
    obtain ⟨new, once⟩ := nodup_cons.mp once
    obtain ⟨first, live⟩ := sound.inheritFd parent child (idle fd mem_cons_self)
    have still : ∀ g ∈ rest, (inheritFd parent child s fd).held (child, g) = none := by
      intro g member
      have table : (inheritFd parent child s fd).held =
          Function.update s.held (child, fd) (s.held (parent, fd)) := held_set ..
      have other : (child, g) ≠ (child, fd) := fun same => new ((Prod.mk.inj same).2 ▸ member)
      rw [table, update_of_ne other]
      exact idle g (mem_cons_of_mem _ member)
    obtain ⟨others, kept⟩ := ih once first.sound still
    refine ⟨first.trans others fun y isLive => ?_, kept.trans live⟩
    rw [kept] at isLive
    exact isLive

/-- Where a descriptor stands in its file is not counted. -/
theorem Goes.offset (goes : Goes s t) (p : Slot) (offset : Fd → U32) :
    Goes s { t with fds := Function.update t.fds p { t.fds p with offset := offset } } := by
  have held : Files.held { t with fds := Function.update t.fds p { t.fds p with offset := offset } } =
      t.held := by
    funext ⟨q, fd⟩
    by_cases here : q = p
    · subst here
      simp [Files.held]
    · simp [Files.held, here]
  exact ⟨⟨goes.sound.tree, held ▸ goes.sound.counted, goes.sound.homes⟩, goes.lasting⟩

theorem Files.Sound.getfd (sound : s.Sound) (p t : Slot) (fd : Fd) : Goes s (pidfdGetfd s p t fd) := by
  unfold pidfdGetfd
  split
  · exact sound.refl
  cases node : (s.fds t).node fd with
  | none => exact sound.refl
  | some x =>
    have holds : s.held (t, fd) = some x := node
    have copied : Goes s (s.alloc p x ((s.fds t).flags fd)).2 :=
      sound.alloc (sound.counted.descriptors.aimed holds) _
    rcases made : s.alloc p x ((s.fds t).flags fd) with ⟨new, u⟩
    rw [made] at copied
    simp only [made]
    cases new with
    | none => exact copied
    | some new => exact copied.offset p _

/-- The bytes of a node change. -/
theorem Files.Sound.bytes (sound : s.Sound) (x : NodeId) (g : File → File) :
    Goes s { s with disk := s.disk.modify x fun n => { n with bytes := g n.bytes } } := by
  obtain ⟨counted, lasting⟩ := modify_counted sound.counted (x := x)
    (f := fun n => { n with bytes := g n.bytes }) ⟨rfl, rfl, rfl, rfl⟩ rfl rfl
  have tree : Tree (s.disk.modify x fun n => { n with bytes := g n.bytes }) := by
    apply sound.tree.modify x
    exact fun _ => ⟨rfl, rfl, rfl, rfl, rfl⟩
  exact sound.goes tree counted lasting

theorem Files.Sound.call (sound : s.Sound) (call : Call) (ok : call.sound s.disk)
    (onTree : call.onTree s.disk) (other : ∀ cwds, call ≠ .chdir cwds) :
    Goes s { s with disk := call.apply s.disk } := by
  have tree := Call.tree sound.tree call ok
  have homes := fun c home => (sound.homes c home).1
  have next : Counted (call.apply s.disk) s.held ∧ Lasting s.disk (call.apply s.disk) := by
    cases call with
    | create alloc dir name type =>
      simp only [Call.sound, and_eq_true] at ok
      exact create_counted sound.counted ok.1 ok.2 name type
    | link alloc dir name inode =>
      simp only [Call.sound, and_eq_true] at ok
      exact link_counted sound.counted ok.1.1 ok.1.2 name inode ok.2
    | symlink alloc dir name target text =>
      simp only [Call.sound, and_eq_true] at ok
      exact symlink_counted sound.counted ok.1 ok.2 sound.tree homes name target text
    | delete dir name => exact delete_counted sound.counted sound.tree name ok
    | move node newDir newName =>
      simp only [Call.sound, and_eq_true] at ok
      exact move_counted sound.counted sound.tree newName ok.1 ok.2
    | exchange a b =>
      simp only [Call.sound, and_eq_true] at ok
      exact exchange_counted sound.counted sound.tree ok.1 ok.2
    | opened x | closed x => cases onTree
    | chdir cwds => exact absurd rfl (other cwds)
  exact sound.goes tree next.1 next.2

/-- The processes change their current directories. -/
theorem Files.Sound.chdir (sound : s.Sound) {cwds : List NodeId}
    (onTree : (Call.chdir cwds).onTree s.disk) :
    Files.Sound { s with disk := (Call.chdir cwds).apply s.disk } := by
  refine ⟨Call.tree sound.tree (.chdir cwds) rfl, ?_, fun c home => ?_⟩
  · exact sound.counted.same ⟨rfl, fun _ _ => rfl, fun _ _ _ => .refl _⟩ fun _ _ => ⟨rfl, rfl⟩
  · simp only [Call.onTree, all_eq_true, and_eq_true, beq_iff_eq] at onTree
    exact onTree c home

/-- What one call does: the state stays sound, and what stays is what it was. -/
theorem Op.keeps (sound : s.Sound) (op : Op) (ok : op.sound s) :
    (op.apply s).Sound ∧ ∀ y, s.disk.live y → (op.apply s).disk.live y →
      ((op.apply s).disk.node y).flags = (s.disk.node y).flags ∧
        ((op.apply s).disk.node y).target = (s.disk.node y).target := by
  have goes : Goes s (op.apply s) → _ := fun goes => And.intro goes.sound goes.lasting.kinds
  cases op with
  | disk call =>
    simp only [Op.sound, and_eq_true] at ok
    by_cases moves : ∃ cwds, call = .chdir cwds
    · obtain ⟨cwds, rfl⟩ := moves
      exact ⟨sound.chdir ok.2, fun _ _ _ => ⟨rfl, rfl⟩⟩
    · exact goes (sound.call call ok.1 ok.2 fun cwds same => moves ⟨cwds, same⟩)
  | write alloc found offset buf =>
    apply goes
    simp only [Op.apply, vfsWrite]
    split
    · exact sound.refl
    · exact sound.bytes _ fun _ => _
  | resize alloc found size =>
    apply goes
    simp only [Op.apply, resizeNode]
    split
    · exact sound.refl
    · exact sound.bytes _ fun _ => _
  | truncate found =>
    apply goes
    simp only [Op.apply, truncateNode]
    split
    · exact sound.refl
    · exact sound.bytes _ ramdiskTruncate
  | opened p found flags => exact goes (sound.alloc (sound.counted.holdable ok) flags)
  | close p fd =>
    apply goes
    simp only [Op.apply, sysClose]
    split
    · rename_i isOpen
      simp only [and_eq_true] at isOpen
      obtain ⟨x, holds⟩ := Option.isSome_iff_exists.mp isOpen.2
      exact sound.release holds
    · exact sound.refl
  | getfd p t fd => exact goes (sound.getfd p t fd)
  | inherit parent child =>
    simp only [Op.sound, all_eq_true, mem_finRange, true_implies, Option.isNone_iff_eq_none] at ok
    exact goes (inherit_fds parent child _ (nodup_finRange _) sound fun fd _ => ok fd).1
  | exec p | exit p =>
    apply goes
    simp only [Op.apply]
    exact sound.closeThose _ p

end

theorem rootOnly_counted (root : NodeId) : Counted (rootOnly root) fun _ : Slot × Fd => none := by
  have only : ∀ {x}, (rootOnly root).live x → x = root := by
    intro x live
    by_contra other
    cases live.symm.trans (rootOnly_dead other)
  have node : (rootOnly root).node root = { (newNode (.blank root) root [0x2f] .directory).node root with
      parent := some root } := by simp [rootOnly]
  have noInode : ∀ x, ¬ (rootOnly root).Inode x := by
    rintro x ⟨live, file, _⟩
    cases only live
    simp [node, newNode] at file
  have noName : ∀ c t, (rootOnly root).naming c ≠ some t := by
    intro c t named
    obtain ⟨live, _, file, _⟩ := naming_eq.mp named
    cases only live
    simp [node, newNode] at file
  constructor
  · constructor
    · change (rootOnly root).live root ∧ ((rootOnly root).node root).flags = .directory
      exact ⟨by simp [rootOnly, newNode], by simp [node, newNode]⟩
    · intro c t live target
      cases only live
      simp [node, newNode] at target
    · exact fun x inode => absurd inode (noInode x)
    · exact ⟨fun named => absurd named (noName _ _), fun inode => absurd inode (noInode _)⟩
    · refine ⟨fun no => (by cases no), fun {k} holdable => ?_⟩
      cases only holdable.1
      simp [aimedAt, node, newNode]
  · exact fun x inode => absurd inode (noInode x)

theorem init_sound (root : NodeId) {hello : Option NodeId} (elf : List U8) (text : Bool)
    (apart : hello.all (· != root)) :
    (Files.start (ramdiskInit root hello elf text)).Sound := by
  have fresh : hello.all (!(rootOnly root).live ·) := by
    cases hello with
    | none => rfl
    | some x =>
      simp only [Option.all_some, bne_iff_ne] at apart ⊢
      simp [rootOnly_dead apart]
  have live : (some root).all (rootOnly root).live := by simp [rootOnly, newNode]
  have made := create_counted (rootOnly_counted root) fresh live [0x68, 0x65, 0x6c, 0x6c, 0x6f] .file
  have first : Counted (ramdiskInit root hello elf text) (fun _ : Slot × Fd => none) ∧
      (ramdiskInit root hello elf text).cwds = [] := by
    generalize result : ramdiskCreate (rootOnly root) hello (some root)
      [0x68, 0x65, 0x6c, 0x6c, 0x6f] .file = created at made
    simp only [ramdiskInit]
    split
    · rename_i e none
      rw [result.symm.trans none] at made
      exact ⟨made.1, made.2.cwds⟩
    rename_i x e some
    rw [result.symm.trans some] at made
    obtain ⟨counted, lasting⟩ := modify_counted made.1 (x := x)
      (f := fun n => { n with bytes := (ramdiskWrite text n.bytes 0 elf).2 })
      ⟨rfl, rfl, rfl, rfl⟩ rfl rfl
    exact ⟨counted, lasting.cwds.trans made.2.cwds⟩
  refine ⟨(init_keeps root elf text apart).tree, first.1, fun c home => ?_⟩
  change c ∈ (ramdiskInit root hello elf text).cwds at home
  rw [first.2] at home
  cases home

theorem Reached.sound {s : Files} (reached : Reached s) : s.Sound := by
  induction reached with
  | init root hello elf text apart => exact init_sound root elf text apart
  | step op _ ok ih => exact (op.keeps ih ok).1

/-- The directory entries that name the inode `x`. -/
def entries (d : Disk) (x : NodeId) : Set NodeId :=
  {c | ∃ p, d.live p = true ∧ c ∈ (d.node p).children ∧ vfsInode d c = x}

/-- The descriptors that hold `x`. -/
def descriptors (s : Files) (x : NodeId) : Set (Slot × Fd) := {h | (s.fds h.1).node h.2 = some x}

/-- An entry or a descriptor refers to `x`. -/
def Files.Refers (s : Files) (x : NodeId) : Prop :=
  (entries s.disk x).Nonempty ∨ (descriptors s x).Nonempty

section
variable {s : Files} {x : NodeId} (sound : s.Sound)
include sound

theorem entries_eq (inode : s.disk.Inode x) : entries s.disk x = aimedAt s.disk.naming x := by
  ext c
  constructor
  · rintro ⟨p, live, member, leads⟩
    obtain ⟨_, liveC, up⟩ := sound.tree.live_of_child (Disk.shape_children.mpr ⟨live, member⟩)
    have file : (s.disk.node c).flags = .file := by
      cases target : (s.disk.node c).target with
      | none =>
        rw [vfsInode, target] at leads
        change c = x at leads
        exact leads ▸ inode.file
      | some t => exact (sound.counted.links c t liveC target).2.1
    exact naming_eq.mpr ⟨liveC, by simp [up], file, leads⟩
  · intro named
    obtain ⟨live, placed, file, leads⟩ := naming_eq.mp named
    have inner : c ≠ s.disk.root := by
      rintro rfl
      cases file.symm.trans sound.counted.top.2
    obtain ⟨p, up⟩ := Option.ne_none_iff_exists'.mp placed
    obtain ⟨liveP, member⟩ := sound.tree.child_of_parent inner live up
    exact ⟨p, liveP, member, leads⟩

theorem Files.Sound.live_of_refers (refers : s.Refers x) : s.disk.live x := by
  rcases refers with ⟨c, p, live, member, leads⟩ | ⟨h, holds⟩
  · obtain ⟨_, liveC, _⟩ := sound.tree.live_of_child (Disk.shape_children.mpr ⟨live, member⟩)
    exact leads ▸ (sound.counted.holdable liveC).1
  · exact (sound.counted.descriptors.aimed holds).1

theorem Files.Sound.refers_of_inode (inode : s.disk.Inode x) : s.Refers x := by
  rcases sound.counted.needed x inode with named | opened
  · obtain ⟨c, names⟩ := sound.counted.names.exists_of_ne_zero inode named
    refine .inl ⟨c, ?_⟩
    rw [entries_eq sound inode]
    exact names
  · obtain ⟨h, holds⟩ := sound.counted.descriptors.exists_of_ne_zero ⟨inode.live, inode.own⟩ opened
    exact .inr ⟨h, holds⟩

end

/-- The counters of the inodes are right, and what is referred to is there. -/
structure Lifetimes (s : Files) : Prop where
  names : ∀ x, s.disk.Inode x → (entries s.disk x).encard = (s.disk.node x).nlink
  descriptors : ∀ x, s.disk.Inode x → (descriptors s x).encard = (s.disk.node x).openCount
  live : ∀ x, s.Refers x → s.disk.live x = true
  needed : ∀ x, s.disk.Inode x → s.Refers x

theorem Files.Sound.lifetimes {s : Files} (sound : s.Sound) : Lifetimes s where
  names := by
    intro x inode
    rw [entries_eq sound inode]
    exact sound.counted.names.counted inode
  descriptors := fun x inode => sound.counted.descriptors.counted ⟨inode.live, inode.own⟩
  live := fun _ refers => sound.live_of_refers refers
  needed := fun _ inode => sound.refers_of_inode inode

/-- Over every run an inode counts its names and its descriptors, and each call
frees exactly the inodes that it leaves without either. -/
theorem inodes_live_while_needed {s : Files} (reached : Reached s) :
    Lifetimes s ∧ ∀ op : Op, op.sound s = true → ∀ x, s.disk.Inode x →
      ((op.apply s).disk.live x = true ↔ (op.apply s).Refers x) := by
  have sound := reached.sound
  refine ⟨sound.lifetimes, fun op next x inode => ?_⟩
  obtain ⟨after, kinds⟩ := op.keeps sound next
  constructor
  · intro live
    obtain ⟨flags, target⟩ := kinds x inode.live live
    exact after.refers_of_inode ⟨live, flags.trans inode.file, target.trans inode.own⟩
  · exact after.live_of_refers

/-- A file with two names that a process has open, and its child too; the names
go, then the processes end. -/
def lastOwner : List Op :=
  [.disk (.create (some 3) (some 1) [0x61] .file), .disk (.link (some 4) (some 1) [0x62] (some 3)),
    .disk (.delete (some 1) [0x61]), .opened 0 4 1, .inherit 0 1, .disk (.delete (some 1) [0x62]),
    .exit 0]

theorem inodes_live_while_needed_lastOwner :
    Lifetimes (lastOwner.foldl Op.apply (Files.start (ramdiskInit 1 none [] true))) ∧
      ∀ op : Op, op.sound (lastOwner.foldl Op.apply (Files.start (ramdiskInit 1 none [] true))) =
          true → ∀ x,
        (lastOwner.foldl Op.apply (Files.start (ramdiskInit 1 none [] true))).disk.Inode x →
          ((op.apply (lastOwner.foldl Op.apply
              (Files.start (ramdiskInit 1 none [] true)))).disk.live x = true ↔
            (op.apply (lastOwner.foldl Op.apply
              (Files.start (ramdiskInit 1 none [] true)))).Refers x) :=
  inodes_live_while_needed ((Reached.init 1 none [] true rfl).run lastOwner (by decide +kernel))

end UzOS.Fs
