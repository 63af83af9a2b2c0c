import UzOS.Fs.Failure
import UzOS.Fs.Grounded
import UzOS.Fs.Open

/-! What a failed open leaves behind. -/
namespace UzOS.Fs

open Function Option

open Kernel (Slot)

/-! A descriptor that is closed stands at 0, with no flags. -/

def FdTable.Tidy (t : FdTable) : Prop := ∀ fd, t.node fd = none → t.offset fd = 0 ∧ t.flags fd = 0

variable {t : FdTable} {v : Volume} {o : Opener} {x : NodeId}

theorem FdTable.Tidy.set (tidy : t.Tidy) {fd : Fd} {v : Option NodeId} {o f : U32}
    (clean : v = none → o = 0 ∧ f = 0) : (t.set fd v o f).Tidy := by
  intro g closed
  by_cases here : g = fd
  · subst here
    simpa [FdTable.set] using clean (by simpa [FdTable.set] using closed)
  simp only [FdTable.set, update_of_ne here] at closed ⊢
  exact tidy g closed

def Files.Tidy (s : Files) : Prop := ∀ p, (s.fds p).Tidy

section
variable {s : Files}

/-- One process gets a tidy table. -/
theorem Files.Tidy.update (tidy : s.Tidy) (d : Disk) (p : Slot) {t : FdTable} (table : t.Tidy) :
    Files.Tidy ⟨d, Function.update s.fds p t⟩ := by
  intro q
  by_cases here : q = p
  · subst here
    simpa using table
  · simpa [here] using tidy q

theorem Files.Tidy.alloc (tidy : s.Tidy) (p : Slot) (x : NodeId) (flags : U32) :
    (s.alloc p x flags).2.Tidy := by
  unfold Files.alloc fdAlloc
  cases freeFd (s.fds p) with
  | none => exact tidy.update _ p (tidy p)
  | some fd => exact tidy.update _ p ((tidy p).set nofun)

theorem Files.Tidy.release (tidy : s.Tidy) (p : Slot) (fd : Fd) : (s.release p fd).Tidy :=
  tidy.update _ p ((tidy p).set fun _ => ⟨rfl, rfl⟩)

theorem Files.Tidy.inheritFd (tidy : s.Tidy) (parent child : Slot) (fd : Fd) :
    (inheritFd parent child s fd).Tidy :=
  tidy.update _ child ((tidy child).set (tidy parent fd))

theorem alloc_node {p : Slot} {x : NodeId} {flags : U32} {fd : Fd} {u : Files}
    (made : s.alloc p x flags = (some fd, u)) : (u.fds p).node fd = some x := by
  unfold Files.alloc fdAlloc at made
  cases free : freeFd (s.fds p) with
  | none =>
    rw [free] at made
    cases made
  | some g =>
    rw [free] at made
    cases made
    simp [FdTable.set]

theorem Files.Tidy.getfd (tidy : s.Tidy) (p t : Slot) (fd : Fd) : (pidfdGetfd s p t fd).Tidy := by
  unfold pidfdGetfd
  split
  · exact tidy
  cases node : (s.fds t).node fd with
  | none => exact tidy
  | some x =>
    have copied := tidy.alloc p x ((s.fds t).flags fd)
    rcases made : s.alloc p x ((s.fds t).flags fd) with ⟨new, u⟩
    rw [made] at copied
    simp only [made]
    cases new with
    | none => exact copied
    | some new =>
      refine copied.update u.disk p fun g closed => ?_
      have other : g ≠ new := by
        rintro rfl
        cases closed.symm.trans (alloc_node made)
      simp only [update_of_ne other]
      exact copied p g closed

theorem Op.tidy (tidy : s.Tidy) (op : Op) : (op.apply s).Tidy := by
  cases op with
  | opened p found flags => exact tidy.alloc p _ flags
  | close p fd =>
    simp only [Op.apply, sysClose]
    split
    · exact tidy.release p fd
    · exact tidy
  | getfd p t fd => exact tidy.getfd p t fd
  | inherit parent child =>
    exact List.foldlRecOn _ _ tidy fun _ tidy fd _ => tidy.inheritFd parent child fd
  | exec p | exit p =>
    refine List.foldlRecOn _ _ tidy fun s tidy fd _ => ?_
    split
    · exact tidy.release p fd
    · exact tidy
  | disk | write | resize | truncate => exact tidy

end

theorem Reached.tidy {s : Files} (reached : Reached s) : s.Tidy := by
  induction reached with
  | init => exact fun _ _ _ => ⟨rfl, rfl⟩
  | step op _ _ ih => exact op.tidy ih

/-! The two outcomes of ramdisk_create. -/

/-- The checks of ramdisk_create, with room in the directory and memory for the
node. -/
def createAllowed (d : Disk) (alloc : Option NodeId) (dir : NodeId) (name : Name) : Bool :=
  alloc.isSome && ours d (some dir) && (d.node dir).flags == .directory && defNewNameOk name &&
    (ramdiskFinddir d dir name).isNone && defPathFits d dir name 0 && defDepthOk d dir 1 &&
    decide ((d.node dir).children.length < fsMaxChildren)

theorem create_iff {d : Disk} {alloc : Option NodeId} {dir : NodeId} (name : Name) (type : Kind)
    (fresh : alloc.all (!d.live ·)) (live : d.live dir) :
    (ramdiskCreate d alloc (some dir) name type).1.isSome = createAllowed d alloc dir name := by
  unfold createAllowed
  cases alloc with
  | none =>
    simp only [ramdiskCreate]
    split_ifs <;> rfl
  | some x =>
    have apart : dir ≠ x := by
      rintro rfl
      simp [live] at fresh
    simp only [ramdiskCreate, addChild_newNode apart]
    split_ifs with kind proper taken fits full
    · simp only [Bool.or_eq_true, Bool.not_eq_true', bne_iff_ne] at kind
      rcases kind with no | no <;> simp [no]
    · simp only [Bool.not_eq_true'] at proper
      simp [proper]
    · obtain ⟨c, found⟩ := isSome_iff_exists.mp taken
      simp [found]
    · simp only [Bool.or_eq_true, Bool.not_eq_true'] at fits
      rcases fits with no | no <;> simp [no]
    · simp [not_lt.mpr full]
    · simp only [Bool.or_eq_true, Bool.not_eq_true', bne_iff_ne, not_or,
        not_not, not_isSome_iff_eq_none] at kind proper taken fits
      simp [kind, proper, taken, fits, Nat.lt_of_not_le full]

/-! Finding or making the file. -/

/-- The file is missing, the flags ask for it, and it can be made. -/
def creates (o : Opener) (v : Volume) (path : Name) (flags : U32) : Bool :=
  (lookup ⟨o.uid, o.memory, o.foreign⟩ v (some (vfsCwd o v)) path).1.isNone &&
    flags &&& oCreate != 0 &&
    match (vfsLookupParent ⟨o.uid, o.again, o.foreign⟩ v (vfsCwd o v) path).1 with
    | none => false
    | some (dir, name) => permCheck o.uid v dir permWrite && createAllowed v.toDisk o.alloc dir name

/-- A descriptor is free below the limit, and the caller may open a file that it
makes now with these flags. -/
def opensNew (o : Opener) (t : FdTable) (flags : U32) : Bool :=
  flags &&& oDirectory == 0 &&
    defFileAccessOk o.uid o.uid (defCreationMode modeCreateBase o.umask) (wanted flags) &&
    (freeFd t).any fun fd => decide (fd.val < rlimitNofile o)

/-- A new file of the caller in a directory. -/
structure Fresh (o : Opener) (d : Disk) (x : NodeId) (v : Volume) : Prop where
  dead : d.live x = false
  live : v.live x = true
  flags : (v.node x).flags = .file
  placed : (v.node x).parent ≠ none
  owner : v.owner x = o.uid
  mode : v.mode x = defCreationMode modeCreateBase o.umask

/-- What open has when it comes to the checks of the file. -/
inductive Finds (o : Opener) (v : Volume) : Bool → Option NodeId × Volume → Prop
  | found {x : NodeId} (holdable : v.Holdable x) : Finds o v false (some x, v)
  | missing {v' : Volume} (same : Same v.toDisk v'.toDisk) : Finds o v false (none, v')
  | made {x : NodeId} {v' : Volume} (fresh : Fresh o v.toDisk x v') : Finds o v true (some x, v')

section
variable {o : Opener} {v : Volume} (grounded : Grounded v.toDisk)
include grounded

theorem lookupParent_stays (env : Walker) {start : NodeId} (holdable : v.Holdable start)
    (path : Name) :
    (vfsLookupParent env v start path).2 = v ∧
      ∀ dir name, (vfsLookupParent env v start path).1 = some (dir, name) → v.live dir := by
  unfold vfsLookupParent
  generalize splitPath path = parts
  obtain ⟨dirPath, last⟩ := parts
  simp only
  split
  · exact ⟨rfl, nofun⟩
  split
  · exact ⟨rfl, nofun⟩
  have start_ok : ∀ x, some (if path.head? = some 0x2f then v.root else start) = some x →
      v.Holdable x := by
    rintro x ⟨⟩
    split
    · exact grounded.root
    · exact holdable
  have stays := lookup_stays env grounded start_ok dirPath
  rcases found : lookup env v (some (if path.head? = some 0x2f then v.root else start)) dirPath
    with ⟨dir, w⟩
  rw [found] at stays
  cases dir with
  | none => exact ⟨stays.1, nofun⟩
  | some dir =>
    simp only
    split
    · refine ⟨stays.1, fun _ _ same => ?_⟩
      cases same
      exact (stays.2 _ rfl).1
    · exact ⟨stays.1, nofun⟩

omit grounded in
theorem createOwned_finds (fresh : o.alloc.all (!v.live ·)) {dir : NodeId}
    (live : v.live dir) (name : Name) :
    Finds o v (createAllowed v.toDisk o.alloc dir name) (createOwned o v dir name .file) := by
  have allowed := create_iff name .file fresh live
  have inDir : (some dir).all v.live := live
  unfold createOwned
  rcases create_outcome name .file fresh inDir with
    ⟨x, p, _, isDir, makes, made⟩ | ⟨failed, same⟩
  · cases isDir
    rw [made] at allowed ⊢
    have adds := hangNew_adds name .file makes.dead makes.live
    have yes : createAllowed v.toDisk o.alloc dir name := allowed.symm
    rw [yes]
    exact .made ⟨makes.dead, adds.live, adds.flags, adds.placed, by simp, by simp⟩
  · rcases made : ramdiskCreate v.toDisk o.alloc (some dir) name .file with ⟨result, d⟩
    rw [made] at failed same allowed
    cases failed
    have no : createAllowed v.toDisk o.alloc dir name = false := allowed.symm
    rw [no]
    exact .missing same

theorem openFile_finds (cwd : v.Holdable (vfsCwd o v)) (fresh : o.alloc.all (!v.live ·))
    (path : Name) (flags : U32) :
    Finds o v (creates o v path flags) (openFile o v path flags) := by
  have first := lookup_stays ⟨o.uid, o.memory, o.foreign⟩ grounded
    (fun x same => Option.some.inj same ▸ cwd) path
  unfold openFile creates
  rcases found : lookup ⟨o.uid, o.memory, o.foreign⟩ v (some (vfsCwd o v)) path with ⟨file, w⟩
  rw [found] at first
  obtain ⟨volume, holdable⟩ := first
  dsimp only at volume holdable
  cases file with
  | some x =>
    simp only [volume]
    exact .found (holdable x rfl)
  | none =>
    simp only [volume]
    by_cases asked : flags &&& oCreate = 0
    · simp only [asked]
      exact .missing (.refl _)
    have second := lookupParent_stays grounded ⟨o.uid, o.again, o.foreign⟩ cwd path
    rcases parent : vfsLookupParent ⟨o.uid, o.again, o.foreign⟩ v (vfsCwd o v) path with ⟨place, u⟩
    rw [parent] at second
    obtain ⟨volume', lives⟩ := second
    subst volume'
    have wants : (flags &&& oCreate != 0) := by simpa using asked
    simp only [if_neg asked, wants]
    cases place with
    | none => exact .missing (.refl _)
    | some place =>
      obtain ⟨dir, name⟩ := place
      have live := lives dir name rfl
      by_cases may : permCheck o.uid u dir permWrite
      case neg =>
        simp only [may]
        exact .missing (.refl _)
      simp only [may]
      exact createOwned_finds fresh live name

end

/-! The descriptor. -/

theorem FdTable.ext_tidy (tidy : t.Tidy) {fd : Fd} (closed : t.node fd = none) (x : NodeId)
    (flags : U32) : (t.set fd (some x) 0 flags).set fd none 0 0 = t := by
  obtain ⟨offset, no⟩ := tidy fd closed
  obtain ⟨nodes, offsets, flagss⟩ := t
  simp only [FdTable.set, update_idem, FdTable.mk.injEq]
  exact ⟨update_eq_self_iff.mpr closed.symm, update_eq_self_iff.mpr offset.symm,
    update_eq_self_iff.mpr no.symm⟩

/-- Opening and closing a node, which nothing frees as long as it has a place or
is counted. -/
theorem open_close {d : Disk}
    (kept : (d.node x).parent ≠ none ∨ (d.node x).nlink ≠ 0 ∨ (d.node x).openCount ≠ 0) :
    vfsClose (vfsOpen d x) x = d := by
  have node : ((vfsOpen d x).modify x fun n => { n with openCount := n.openCount - 1 }) = d := by
    rw [vfsOpen]
    simp [Disk.modify]
  unfold vfsClose
  rw [node]
  extract_lets
  split
  · rename_i last
    simp only [defInodeFreeOk, Bool.and_eq_true, decide_eq_true_eq, beq_iff_eq] at last
    obtain ⟨⟨out, _⟩, unnamed, closed⟩ := last
    rcases kept with no | no | no
    · exact absurd out no
    · exact absurd unnamed no
    · exact absurd closed no
  · rfl

/-- A descriptor that cannot be had is as if it had not been asked for. -/
theorem openFd_fails (tidy : t.Tidy)
    (kept : (v.node x).parent ≠ none ∨ (v.node x).nlink ≠ 0 ∨ (v.node x).openCount ≠ 0)
    (flags : U32) :
    ((openFd o v t x flags).1 = none ↔
      (freeFd t).any (fun fd => decide (fd.val < rlimitNofile o)) = false) ∧
    ((openFd o v t x flags).1 = none → openFd o v t x flags = (none, v, t)) := by
  unfold openFd fdAlloc
  cases free : freeFd t with
  | none => simp
  | some fd =>
    have closed := freeFd_some free
    simp only [any_some]
    split
    · rename_i beyond
      have taken : (t.set fd (some x) 0 flags).node fd = some x := by simp [FdTable.set]
      have released : fdRelease (vfsOpen v.toDisk x) (t.set fd (some x) 0 flags) fd =
          (t, v.toDisk) := by
        simp only [fdRelease, taken, FdTable.ext_tidy tidy closed, open_close kept]
      simp only [released]
      simp [beyond]
    · rename_i below
      have inside : decide (fd.val < rlimitNofile o) := by simpa using below
      rw [inside]
      split <;> simp

/-- An open that fails at the file or after it changes nothing any more. -/
theorem openNode_fails (tidy : t.Tidy)
    (kept : (v.node x).parent ≠ none ∨ (v.node x).nlink ≠ 0 ∨ (v.node x).openCount ≠ 0)
    (flags : U32) :
    ((openNode o v t x flags).1 = none ↔ (openable (v.node x) flags &&
      permCheck o.uid v x (wanted flags) &&
      (freeFd t).any fun fd => decide (fd.val < rlimitNofile o)) = false) ∧
    ((openNode o v t x flags).1 = none → openNode o v t x flags = (none, v, t)) := by
  obtain ⟨fails, same⟩ := openFd_fails (o := o) tidy kept flags
  unfold openNode
  cases openable (v.node x) flags with
  | false => exact ⟨iff_of_true rfl rfl, fun _ => rfl⟩
  | true =>
    cases permCheck o.uid v x (wanted flags) with
    | false => exact ⟨iff_of_true rfl rfl, fun _ => rfl⟩
    | true => exact ⟨fails, same⟩

/-- A new file is opened or left behind. -/
theorem Fresh.opens {d : Disk} (fresh : Fresh o d x v) (t : FdTable) (flags : U32) :
    (openable (v.node x) flags && permCheck o.uid v x (wanted flags) &&
      (freeFd t).any fun fd => decide (fd.val < rlimitNofile o)) = opensNew o t flags := by
  have kind : openable (v.node x) flags = (flags &&& oDirectory == 0) := by
    simp [openable, fresh.flags]
  rw [kind, permCheck, fresh.owner, fresh.mode, opensNew]

/-- A node that a path leads to is kept by the tree or by a count. -/
theorem Files.Sound.kept {s : Files} (sound : s.Sound) (holdable : s.disk.Holdable x) :
    (s.disk.node x).parent ≠ none ∨ (s.disk.node x).nlink ≠ 0 ∨ (s.disk.node x).openCount ≠ 0 := by
  by_cases placed : (s.disk.node x).parent = none
  · have file := (sound.tree.nodes x holdable.1).nameless placed
    exact .inr (sound.counted.needed x ⟨holdable.1, file, holdable.2⟩)
  · exact .inl placed

theorem Files.Sound.cwd {s : Files} (sound : s.Sound) (disk : v.toDisk = s.disk)
    (home : ∀ c, o.cwd = some c → c ∈ s.disk.cwds) : v.Holdable (vfsCwd o v) := by
  have directories : ∀ c, s.disk.live c → (s.disk.node c).flags = .directory →
      s.disk.Holdable c := by
    intro c live directory
    cases target : (s.disk.node c).target with
    | none => exact ⟨live, target⟩
    | some t => cases (sound.counted.links c t live target).2.1.symm.trans directory
  rw [disk]
  unfold vfsCwd
  cases cwd : o.cwd with
  | none =>
    rw [disk]
    exact directories _ sound.counted.top.1 sound.counted.top.2
  | some c =>
    obtain ⟨live, directory⟩ := sound.homes c (home c cwd)
    exact directories c live directory

/-- An open that fails changes nothing if and only if it does not make a file
that it then cannot open. -/
theorem failed_open_changes_nothing {s : Files} (reached : Reached s) (p : Slot) (o : Opener)
    (v : Volume) (path : Option Name) (flags : U32) (disk : v.toDisk = s.disk)
    (home : ∀ c, o.cwd = some c → c ∈ s.disk.cwds)
    (fresh : o.alloc.all (!s.disk.live ·) = true) :
    ((sysOpen o v (s.fds p) path flags).1 = none →
      Same v.toDisk (sysOpen o v (s.fds p) path flags).2.1.toDisk ∧
        (sysOpen o v (s.fds p) path flags).2.2 = s.fds p) ↔
    ∀ q, path = some q → flags &&& (oRead ||| oWrite) ≠ 0 → creates o v q flags = true →
      opensNew o (s.fds p) flags = true := by
  have sound := reached.sound
  have tidy : (s.fds p).Tidy := reached.tidy p
  have grounded : Grounded v.toDisk := disk ▸ sound.grounded
  have cwd := sound.cwd disk home
  have kept : ∀ x, v.Holdable x → _ := fun x holdable => disk ▸ sound.kept (disk ▸ holdable)
  rw [← disk] at fresh
  unfold sysOpen
  cases path with
  | none => exact iff_of_true (fun _ => ⟨.refl _, rfl⟩) fun q no => by cases no
  | some q =>
    by_cases wants : flags &&& (oRead ||| oWrite) = 0
    · refine iff_of_true ?_ fun _ _ other => absurd wants other
      simp only [wants, if_true]
      exact fun _ => ⟨.refl _, trivial⟩
    simp only [if_neg wants]
    have finds := openFile_finds grounded cwd fresh q flags
    generalize openFile o v q flags = file at finds
    have asked : (∀ r, some q = some r → flags &&& (oRead ||| oWrite) ≠ 0 →
        creates o v r flags = true → opensNew o (s.fds p) flags = true) ↔
        (creates o v q flags = true → opensNew o (s.fds p) flags = true) :=
      ⟨fun all => all q rfl wants, fun one r same _ => Option.some.inj same ▸ one⟩
    rw [asked]
    generalize creates o v q flags = new at finds
    cases finds with
    | found holdable =>
      dsimp only
      have fails := openNode_fails (o := o) tidy (kept _ holdable) flags
      refine iff_of_true (fun failed => ?_) nofun
      rw [fails.2 failed]
      exact ⟨.refl _, rfl⟩
    | missing same => exact iff_of_true (fun _ => ⟨same, rfl⟩) nofun
    | @made x v' new =>
      dsimp only
      have fails := openNode_fails (o := o) tidy (.inl new.placed) flags
      rw [new.opens] at fails
      refine ⟨fun unchanged _ => ?_, fun opens failed => ?_⟩
      · by_contra unopened
        rw [Bool.not_eq_true] at unopened
        have failed := fails.1.mpr unopened
        have same := (unchanged failed).1
        rw [fails.2 failed] at same
        have live := new.live
        rw [same.live, new.dead] at live
        cases live
      · cases (opens rfl).symm.trans (fails.1.mp failed)

/-- Root in the root directory, with memory for everything. -/
def newcomer (limit : U32) : Opener where
  uid := 0
  umask := 0o2
  cwd := none
  rlimNofile := limit
  memory := fun _ => true
  again := fun _ => true
  alloc := some 3
  foreign := fun v _ _ => (none, v.owner)

/-- The empty disk, as it is made. -/
def emptyVolume : Volume where
  toDisk := ramdiskInit 1 none [] true
  owner := fun _ => 0
  mode := fun _ => 0o64

/-- Below the limit of 3 descriptors there is no free one, and open(O_WRITE |
O_CREATE) fails with the new file in the directory. -/
theorem failed_open_leaves_file :
    let out := sysOpen (newcomer 3) emptyVolume
      ((Files.start (ramdiskInit 1 none [] true)).fds 0) (some [0x61]) (oWrite ||| oCreate)
    out.1 = none ∧ (emptyVolume.node 1).children = [] ∧ (out.2.1.node 1).children = [3] ∧
      (out.2.1.node 3).name = [0x61] ∧ ¬ Same emptyVolume.toDisk out.2.1.toDisk := by
  refine ⟨by decide +kernel, by decide +kernel, by decide +kernel, by decide +kernel, ?_⟩
  intro same
  have root := congrArg Node.children (same.node 1 (by decide +kernel))
  revert root
  decide +kernel

/-- The file "a" is made and opened. -/
def used : Files :=
  [.disk (.create (some 5) (some 1) [0x61] .file), .opened 0 5 oWrite].foldl Op.apply
    (Files.start (ramdiskInit 1 none [] true))

def usedVolume : Volume := { emptyVolume with toDisk := used.disk }

/-- Opened again, the file is found and gets a descriptor, which the limit of 4 takes back. -/
theorem failed_open_changes_nothing_used :
    let out := sysOpen (newcomer 4) usedVolume (used.fds 0) (some [0x61]) (oWrite ||| oCreate)
    (used.fds 0).node 3 = some 5 ∧ out.1 = none ∧ Same usedVolume.toDisk out.2.1.toDisk ∧
      out.2.2 = used.fds 0 := by
  intro out
  have failed : out.1 = none := by decide +kernel
  have reached : Reached used := (Reached.init 1 none [] true rfl).run _ (by decide +kernel)
  refine ⟨by decide +kernel, failed, (failed_open_changes_nothing reached 0 (newcomer 4) usedVolume
    (some [0x61]) (oWrite ||| oCreate) rfl nofun (by decide +kernel)).mpr ?_ failed⟩
  rintro q ⟨⟩ - new
  exact absurd new (by decide +kernel)

end UzOS.Fs
