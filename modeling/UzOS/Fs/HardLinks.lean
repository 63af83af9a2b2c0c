import UzOS.Fs.FileCalls
import UzOS.Fs.Grounded

/-! The names of a file are equivalent but for one thing: truncate and fallocate
set the size of a file only while it has the name it was made with. -/
namespace UzOS.Fs

/-! Histories that differ in the names they delete. -/

def deletions (names : List (NodeId × Name)) : List Op :=
  names.map fun (dir, name) => .disk (.delete (some dir) name)

/-- The state after the deletion of `names`, each in its directory. -/
def Files.without (s : Files) (names : List (NodeId × Name)) : Files :=
  (deletions names).foldl Op.apply s

def Files.volume (s : Files) (owner mode : NodeId → U32) : Volume :=
  { toDisk := s.disk, owner, mode }

/-- A node that has kept its kind, its bytes and what it leads to. -/
structure SameFile (n m : Node) : Prop where
  flags : m.flags = n.flags
  bytes : m.bytes = n.bytes
  target : m.target = n.target

theorem SameFile.refl (n : Node) : SameFile n n := ⟨rfl, rfl, rfl⟩

theorem SameFile.trans {n m k : Node} (a : SameFile n m) (b : SameFile m k) : SameFile n k :=
  ⟨b.flags.trans a.flags, b.bytes.trans a.bytes, b.target.trans a.target⟩

theorem SameFile.symm {n m : Node} (a : SameFile n m) : SameFile m n :=
  ⟨a.flags.symm, a.bytes.symm, a.target.symm⟩

section
variable {d : Disk}

theorem modify_sameFile {f : Node → Node} (keeps : ∀ n, SameFile n (f n)) (x y : NodeId) :
    SameFile (d.node y) ((d.modify x f).node y) := by
  rw [modify_node]
  split
  · exact keeps _
  · exact .refl _

theorem unname_sameFile (c i y : NodeId) : SameFile (d.node y) ((unname d c i).node y) := by
  have counted : SameFile (d.node y)
      ((d.modify i fun n => { n with nlink := n.nlink - 1 }).node y) := by
    apply modify_sameFile
    exact fun _ => ⟨rfl, rfl, rfl⟩
  unfold unname
  split
  · refine counted.trans ?_
    apply modify_sameFile
    exact fun _ => ⟨rfl, rfl, rfl⟩
  · exact counted

theorem dropName_sameFile (c y : NodeId) : SameFile (d.node y) ((dropName d c).node y) := by
  unfold dropName
  extract_lets i u
  have named : SameFile (d.node y) (u.node y) := unname_sameFile c i y
  split
  · exact named
  · exact named

theorem delete_sameFile (dir : Option NodeId) (name : Name) (y : NodeId) :
    SameFile (d.node y) ((ramdiskDelete d dir name).2.node y) := by
  rcases delete_outcome d dir name with same | ⟨p, x, _, _, _, gone⟩
  · rw [same]
    exact .refl _
  have removed : SameFile (d.node y) ((removeChild d p x).node y) := by
    rw [removeChild_node]
    split
    · rename_i here
      exact here ▸ ⟨rfl, rfl, rfl⟩
    · exact .refl _
  rw [gone]
  split
  · exact removed.trans (dropName_sameFile x y)
  · exact removed

end

theorem without_sameFile (names : List (NodeId × Name)) (s : Files) (y : NodeId) :
    SameFile (s.disk.node y) ((s.without names).disk.node y) := by
  induction names generalizing s with
  | nil => exact .refl _
  | cons entry rest ih =>
    have first : SameFile (s.disk.node y) ((ramdiskDelete s.disk (some entry.1) entry.2).2.node y) :=
      delete_sameFile (some entry.1) entry.2 y
    exact first.trans (ih ((Op.disk (.delete (some entry.1) entry.2)).apply s))

/-! What a call shows. -/

/-- The answer, a stat's count of names apart, the descriptor's offset and the
file afterwards. -/
structure Reply where
  answer : Answer
  offset : U32
  bytes : File

def Answer.uncounted : Answer → Answer
  | .stat st => .stat { st with nlink := 0 }
  | answer => answer

def Access.reply (w : Caller) (v : Volume) (t : FdTable) (fd : Fd) (name : NodeId) (a : Access) :
    Reply :=
  let (answer, after, t) := a.run w v t fd name
  ⟨answer.uncounted, t.offset fd, (after.node (vfsInode v.toDisk name)).bytes⟩

/-- The size that the call asks ramdisk_resize for, if it comes that far. -/
def Access.asks (w : Caller) (v : Volume) (x : NodeId) : Access → Option U32
  | .truncate length =>
    if permCheck w.uid v x permWrite && defNewSizeOk w length then some length else none
  | .fallocate flags mode offset length =>
    if mode ≠ 0 || length = 0 || flags &&& oWrite = 0 then none
    else if offset + length < offset then none
    else if (offset + length).toNat ≤ (v.node x).bytes.size then none
    else if !defNewSizeOk w (offset + length) then none
    else some (offset + length)
  | _ => none

/-- The call sets the size of `x`, if that is a file of the RAM disk. -/
def Access.resizes (w : Caller) (v : Volume) (x : NodeId) (a : Access) : Bool :=
  (a.asks w v x).any fun size =>
    (ramdiskResize w.alloc true (v.node x).bytes size.toNat).1 == 0

/-! The same file on two disks. -/

structure Twin (d e : Disk) (x : NodeId) : Prop where
  file : (d.node x).flags = .file
  own : (d.node x).target = none
  same : SameFile (d.node x) (e.node x)

section
variable {d e : Disk} {x : NodeId} (twin : Twin d e x)
include twin

theorem Twin.opened : Twin (vfsOpen d x) (vfsOpen e x) x := by
  obtain ⟨file, own, same⟩ := twin
  simp only [vfsOpen]
  exact ⟨by simpa using file, by simpa using own, by simp [same.flags], by simp [same.bytes],
    by simp [same.target]⟩

theorem Twin.vfsRead (offset size : Nat) : vfsRead e x offset size = vfsRead d x offset size := by
  obtain ⟨_, own, flags, bytes, target⟩ := twin
  simp only [Fs.vfsRead, vfsInode, target, own, Option.getD_none, flags, bytes]

/-- A write does the same to both. -/
theorem Twin.vfsWrite (alloc : Bool) (offset : Nat) (buf : List U8) :
    (vfsWrite e alloc x offset buf).1 = (vfsWrite d alloc x offset buf).1 ∧
      ((vfsWrite e alloc x offset buf).2.node x).bytes =
        ((vfsWrite d alloc x offset buf).2.node x).bytes := by
  obtain ⟨file, own, flags, bytes, target⟩ := twin
  simp [Fs.vfsWrite, vfsInode, target, own, flags, file, bytes]

variable {t : FdTable} {fd : Fd} (held : t.node fd = some x)
include held

theorem Twin.sysRead (buf count : U32) : sysRead e t fd buf count = sysRead d t fd buf count := by
  simp only [Fs.sysRead, held, twin.vfsRead]

theorem Twin.sysWrite (w : Caller) (buf : U32) (bytes : List U8) :
    (sysWrite w e t fd buf bytes).1 = (sysWrite w d t fd buf bytes).1 ∧
      ((sysWrite w e t fd buf bytes).2.1.node x).bytes =
        ((sysWrite w d t fd buf bytes).2.1.node x).bytes ∧
      (sysWrite w e t fd buf bytes).2.2 = (sysWrite w d t fd buf bytes).2.2 := by
  simp only [Fs.sysWrite, held, twin.same.bytes]
  split
  · exact ⟨rfl, twin.same.bytes, rfl⟩
  generalize (if t.flags fd &&& oAppend ≠ 0 then _ else t) = u
  split
  · exact ⟨rfl, twin.same.bytes, rfl⟩
  obtain ⟨count, after⟩ := twin.vfsWrite w.alloc (u.offset fd).toNat bytes
  simp only [count]
  exact ⟨trivial, after, trivial⟩

end

/-! ramdisk_resize, the one function that looks for the file's own name. -/

theorem resize_unlinked (alloc : Bool) (f : File) (size : Nat) :
    ramdiskResize alloc false f size = (-1, f) := by
  simp [ramdiskResize]

theorem resize_refused {alloc : Bool} {f : File} {size : Nat}
    (failed : (ramdiskResize alloc true f size).1 ≠ 0) :
    ramdiskResize alloc true f size = (-1, f) := by
  unfold ramdiskResize at failed ⊢
  split_ifs at failed ⊢
  · rfl
  · cases grown : grow alloc f size with
    | none => rfl
    | some g => simp [grown] at failed
  · exact absurd rfl failed

theorem resize_iff (alloc linked linked' : Bool) (f : File) (size : Nat) :
    ramdiskResize alloc linked f size = ramdiskResize alloc linked' f size ↔
      ((ramdiskResize alloc true f size).1 = 0 → linked = linked') := by
  by_cases same : linked = linked'
  · exact iff_of_true (by rw [same]) fun _ => same
  by_cases worked : (ramdiskResize alloc true f size).1 = 0
  · refine iff_of_false (fun equal => ?_) fun must => same (must worked)
    have codes := congrArg Prod.fst equal
    cases linked <;> cases linked'
    · exact same rfl
    · rw [worked] at codes
      cases codes
    · rw [worked] at codes
      cases codes
    · exact same rfl
  · refine iff_of_true ?_ fun no => absurd no worked
    have refused := resize_refused worked
    cases linked <;> cases linked' <;> simp_all [resize_unlinked]

/-- A call that comes to ramdisk_resize with the size `asked`, or else returns
`unasked`. -/
def resized (alloc linked : Bool) (f : File) (offset : U32) (unasked : Int) (asked : Option U32) :
    Reply :=
  let out := asked.elim (unasked, f) fun size => ramdiskResize alloc linked f size.toNat
  ⟨.code out.1, offset, out.2⟩

theorem resized_iff (alloc linked linked' : Bool) (f : File) (offset : U32) (unasked : Int)
    (asked : Option U32) :
    resized alloc linked f offset unasked asked = resized alloc linked' f offset unasked asked ↔
      (asked.any (fun size => (ramdiskResize alloc true f size.toNat).1 == 0) →
        linked = linked') := by
  cases asked with
  | none => exact iff_of_true rfl nofun
  | some size =>
    have pairs := resize_iff alloc linked linked' f size.toNat
    rw [Prod.ext_iff] at pairs
    simpa [resized] using pairs

theorem ours_vfsOpen (d : Disk) (x : NodeId) (dir : Option NodeId) :
    ours (vfsOpen d x) dir = ours d dir := by
  cases dir with
  | none => rfl
  | some p =>
    simp only [ours, vfsOpen, modify_node]
    split <;> rfl

section
variable (w : Caller) {v : Volume} (t : FdTable) (fd : Fd) {c x : NodeId}
  (inode : vfsInode v.toDisk c = x) (file : (v.node x).flags = .file)
include inode file

theorem truncate_reply (length : U32) :
    (Access.truncate length).reply w v t fd c =
      resized w.alloc (ours v.toDisk (v.node x).parent) (v.node x).bytes (t.offset fd) (-1)
        ((Access.truncate length).asks w v x) := by
  simp only [resized, Access.reply, Access.run, inode, truncateFound, file, resizeNode, Access.asks]
  cases permCheck w.uid v x permWrite <;> cases defNewSizeOk w length <;> simp [Answer.uncounted]

theorem fallocate_reply (flags : U32) (mode : Int) (offset length : U32) :
    (Access.fallocate flags mode offset length).reply w v t fd c =
      resized w.alloc (ours v.toDisk (v.node x).parent) (v.node x).bytes 0
        (if mode ≠ 0 || length = 0 || flags &&& oWrite = 0 || offset + length < offset ||
          (v.node x).bytes.size < (offset + length).toNat then -1 else 0)
        ((Access.fallocate flags mode offset length).asks w v x) := by
  have opened : (vfsOpen v.toDisk x).node x =
      { v.node x with openCount := (v.node x).openCount + 1 } := by
    simp [vfsOpen]
  simp only [resized, Access.reply, Access.run, Access.run.through, inode, sysFallocate, FdTable.set,
    Function.update_self, Access.asks, opened, resizeNode]
  by_cases args : (decide (mode ≠ 0) || decide (length = 0) || decide (flags &&& oWrite = 0))
  · simp only [args, if_true, Bool.true_or, opened, Answer.uncounted, Option.elim_none]
  simp only [args]
  generalize offset + length = stop
  by_cases wraps : stop < offset
  · simp [wraps, opened, Answer.uncounted]
  by_cases there : stop.toNat ≤ (v.node x).bytes.size
  · simp [wraps, there, opened, Answer.uncounted, not_lt.mpr there]
  cases small : defNewSizeOk w stop
  · simp [there, opened, Answer.uncounted]
  · simp [wraps, there, Answer.uncounted, file, ours_vfsOpen]

end

/-! The names. -/

section
variable {v u : Volume} {x : NodeId} (twin : Twin v.toDisk u.toDisk x) (owner : u.owner = v.owner)
  (mode : u.mode = v.mode)
include twin owner mode

variable (w : Caller)

theorem Twin.asks (a : Access) : a.asks w u x = a.asks w v x := by
  have bytes : (u.node x).bytes = (v.node x).bytes := twin.same.bytes
  have may : permCheck w.uid u x permWrite = permCheck w.uid v x permWrite := by
    rw [permCheck, owner, mode, permCheck]
  cases a <;> simp only [Access.asks, may, bytes]

theorem Twin.resizes (a : Access) : a.resizes w u x = a.resizes w v x := by
  have bytes : (u.node x).bytes = (v.node x).bytes := twin.same.bytes
  rw [Access.resizes, twin.asks owner mode, bytes, Access.resizes]

/-- The same call on the same file by two names. -/
theorem Twin.reply_iff (t : FdTable) (fd : Fd) {b c : NodeId} (first : vfsInode v.toDisk c = x)
    (second : vfsInode u.toDisk b = x) (a : Access) :
    a.reply w v t fd c = a.reply w u t fd b ↔ (a.resizes w v x →
      ours v.toDisk (v.node x).parent = ours u.toDisk (u.node x).parent) := by
  have bytes : (u.node x).bytes = (v.node x).bytes := twin.same.bytes
  have file : (u.node x).flags = .file := twin.same.flags.trans twin.file
  have asks := twin.asks owner mode w a
  cases a with
  | read offset flags buf count =>
    refine iff_of_true ?_ fun no => by cases no
    have held : (t.set fd (some x) offset flags).node fd = some x := by simp [FdTable.set]
    have read := twin.opened.sysRead held buf count
    simp only [Access.reply, Access.run, Access.run.through, first, second, read, Reply.mk.injEq,
      true_and]
    exact twin.opened.same.bytes.symm
  | write offset flags buf bytes =>
    refine iff_of_true ?_ fun no => by cases no
    have held : (t.set fd (some x) offset flags).node fd = some x := by simp [FdTable.set]
    obtain ⟨code, after, table⟩ := twin.opened.sysWrite held w buf bytes
    simp only [Access.reply, Access.run, Access.run.through, first, second, code, table, after]
  | stat =>
    refine iff_of_true ?_ fun no => by cases no
    simp only [Access.reply, Access.run, vfsStat, first, second, bytes, owner, mode,
      twin.file, file, Answer.uncounted]
  | truncate length =>
    rw [truncate_reply w t fd first twin.file, truncate_reply w t fd second file, asks, bytes]
    exact resized_iff ..
  | fallocate flags mode offset length =>
    rw [fallocate_reply w t fd first twin.file, fallocate_reply w t fd second file, asks, bytes]
    exact resized_iff ..

end

/-- A file has its own name exactly while ramdisk_resize takes it for a file of
the RAM disk. -/
theorem Files.Sound.linked {s : Files} (sound : s.Sound) {x : NodeId} (inode : s.disk.Inode x) :
    ours s.disk (s.disk.node x).parent ↔ s.disk.naming x = some x := by
  have self : vfsInode s.disk x = x := by simp [vfsInode, inode.own]
  cases up : (s.disk.node x).parent with
  | none => simp [ours, Disk.naming, up]
  | some p =>
    have grounded := sound.grounded
    refine iff_of_true ?_ (naming_eq.mpr ⟨inode.live, by simp [up], inode.file, self⟩)
    have top : x ≠ s.disk.root := by
      rintro rfl
      cases inode.file.symm.trans sound.counted.top.2
    obtain ⟨live, member⟩ := sound.tree.child_of_parent top inode.live up
    have directory : (s.disk.node p).flags = .directory := by
      by_contra other
      rw [(sound.tree.nodes p live).flat other] at member
      cases member
    exact grounded.driver live directory

theorem Files.Sound.inode_of_name {s : Files} (sound : s.Sound) {c x : NodeId}
    (named : s.disk.naming c = some x) : vfsInode s.disk c = x ∧ s.disk.Inode x := by
  obtain ⟨live, placed, file, leads⟩ := naming_eq.mp named
  refine ⟨leads, ?_⟩
  cases target : (s.disk.node c).target with
  | none =>
    rw [vfsInode, target] at leads
    cases leads
    exact ⟨live, file, target⟩
  | some t =>
    rw [vfsInode, target] at leads
    cases leads
    exact (sound.counted.links c t live target).1

theorem run_inode (w : Caller) (v : Volume) (t : FdTable) (fd : Fd) {b c : NodeId}
    (same : vfsInode v.toDisk b = vfsInode v.toDisk c) (a : Access) :
    a.run w v t fd b = a.run w v t fd c := by
  cases a <;> simp only [Access.run, Access.run.through, vfsStat, same]

/-- A call through one name of a file is the same call through any other. In two
histories that deleted different names of the file, the call shows the same
through a name that the one left and a name that the other left, if and only if
it does not set the file's size or both or neither left the name that the file
was made with. -/
theorem names_equivalent {s : Files} (reached : Reached s) (owner mode : NodeId → U32)
    (w : Caller) (t : FdTable) (fd : Fd) (names names' : List (NodeId × Name))
    (sound : soundOps s (deletions names) = true) (sound' : soundOps s (deletions names') = true)
    {x c c' : NodeId} (left : (s.without names).disk.naming c = some x)
    (left' : (s.without names').disk.naming c' = some x) (a : Access) :
    (∀ b, (s.without names).disk.naming b = some x →
      a.run w ((s.without names).volume owner mode) t fd b =
        a.run w ((s.without names).volume owner mode) t fd c) ∧
    (a.reply w ((s.without names).volume owner mode) t fd c =
        a.reply w ((s.without names').volume owner mode) t fd c' ↔
      (a.resizes w (s.volume owner mode) x = true →
        ((s.without names).disk.naming x = some x ↔ (s.without names').disk.naming x = some x))) := by
  have one := (reached.run _ sound).sound
  have two := (reached.run _ sound').sound
  obtain ⟨leads, inode⟩ := one.inode_of_name left
  obtain ⟨leads', inode'⟩ := two.inode_of_name left'
  have kept : SameFile (s.disk.node x) ((s.without names).disk.node x) := without_sameFile names s x
  have kept' := without_sameFile names' s x
  have before : Twin (s.without names).disk s.disk x := ⟨inode.file, inode.own, kept.symm⟩
  have apart : Twin (s.without names).disk (s.without names').disk x :=
    ⟨inode.file, inode.own, kept.symm.trans kept'⟩
  constructor
  · intro b named
    exact run_inode w _ t fd ((one.inode_of_name named).1.trans leads.symm) a
  · have replies := Twin.reply_iff (v := (s.without names).volume owner mode)
      (u := (s.without names').volume owner mode) apart rfl rfl w t fd leads leads' a
    have asked := Twin.resizes (v := (s.without names).volume owner mode)
      (u := s.volume owner mode) before rfl rfl w a
    rw [replies, asked]
    refine imp_congr_right fun _ => Bool.eq_iff_iff.trans ?_
    exact iff_congr (one.linked inode) (two.linked inode')

/-- A file "a" of five bytes with the second name "b". -/
def twoNames : List Op :=
  [.disk (.create (some 3) (some 1) [0x61] .file), .write true 3 0 [1, 2, 3, 4, 5],
    .disk (.link (some 4) (some 1) [0x62] (some 3))]

def twoNamesState : Files := twoNames.foldl Op.apply (Files.start (ramdiskInit 1 none [] true))

def rootCaller : Caller := ⟨0, rlimInfinity, true⟩

/-- truncate("b", 2) fails after the deletion of "a"; truncate("a", 2) works
after the deletion of "b". -/
theorem truncate_needs_first_name :
    let owner : NodeId → U32 := fun _ => 0
    let mode : NodeId → U32 := fun _ => 0o64
    let first := (twoNamesState.without [(1, [0x61])]).volume owner mode
    let second := (twoNamesState.without [(1, [0x62])]).volume owner mode
    first.naming 4 = some 3 ∧ second.naming 3 = some 3 ∧
      (truncateFound rootCaller first (vfsInode first.toDisk 4) 2).1 = -1 ∧
      (truncateFound rootCaller second (vfsInode second.toDisk 3) 2).1 = 0 ∧
      (((truncateFound rootCaller first (vfsInode first.toDisk 4) 2).2.node 3).bytes.size = 5 ∧
        ((truncateFound rootCaller second (vfsInode second.toDisk 3) 2).2.node 3).bytes.size = 2) := by
  decide +kernel

/-- After the deletion of either name, the file reads the same through the
other. -/
theorem names_equivalent_read :
    (Access.read 0 oRead 0x2000 3).reply rootCaller
        ((twoNamesState.without [(1, [0x61])]).volume (fun _ => 0) fun _ => 0o64)
        ((Files.start (ramdiskInit 1 none [] true)).fds 0) 3 4 =
      (Access.read 0 oRead 0x2000 3).reply rootCaller
        ((twoNamesState.without [(1, [0x62])]).volume (fun _ => 0) fun _ => 0o64)
        ((Files.start (ramdiskInit 1 none [] true)).fds 0) 3 3 :=
  (names_equivalent ((Reached.init 1 none [] true rfl).run twoNames (by decide +kernel)) _ _
    rootCaller _ 3 [(1, [0x61])] [(1, [0x62])] (x := 3) (by decide +kernel) (by decide +kernel)
    (by decide +kernel) (by decide +kernel) (.read 0 oRead 0x2000 3)).2.mpr nofun

end UzOS.Fs
