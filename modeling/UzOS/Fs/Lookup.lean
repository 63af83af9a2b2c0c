import UzOS.Fs.Ramdisk
import UzOS.Proc.VmAccess

/-! Walking a path (core/vfs/vfs.c) and the checks made on the way: search_check
for every directory, link_depth and protected_symlinks for every symbolic link. -/
namespace UzOS.Fs

def linkHopsMax : Nat := 8
def capFiles : U32 := 2
def permRead : U32 := 4
def permWrite : U32 := 2
def othersWrite : U32 := 2

/-- The disk with the owner and the mode of each node, which the tree itself
never reads. -/
structure Volume extends Disk where
  owner : NodeId → U32
  mode : NodeId → U32

/-- Who walks, and what the walk cannot see: whether kmalloc finds memory for
the target of the n-th link, and the finddir of the other drivers. That of
procfs gives its process directories new owners. -/
structure Walker where
  uid : U32
  memory : Nat → Bool
  foreign : Volume → NodeId → Name → Option NodeId × (NodeId → U32)

/-! Permissions. -/

/-- file_access -/
def defFileAccessOk (uid owner mode want : U32) : Bool :=
  Proc.capsHas uid capFiles ||
    (if uid == owner then mode >>> 3 else mode &&& 7) &&& want == want

def permCheck (uid : U32) (v : Volume) (node : NodeId) (want : U32) : Bool :=
  defFileAccessOk uid (v.owner node) (v.mode node) want

/-- search_check -/
def defSearchOk (uid : U32) (v : Volume) (dir : NodeId) : Bool :=
  (v.node dir).flags == .directory && permCheck uid v dir permRead

/-- link_depth -/
def defLinkHopOk (hops : Nat) : Bool := decide (1 ≤ hops) && decide (hops ≤ linkHopsMax)

/-- protected_symlinks -/
def defFollowOk (uid : U32) (v : Volume) (dir link : NodeId) : Bool :=
  v.mode dir &&& othersWrite == 0 || uid == v.owner link || v.owner dir == v.owner link

def defComponentOk (len : Nat) : Bool := lengthOk len

/-! The walk. -/

/-- What a walk does: a name looked up in a directory, a link of a directory
followed, each with the volume as it was then. -/
inductive Event where
  | looked (v : Volume) (dir : NodeId)
  | followed (v : Volume) (dir link : NodeId)

def Event.isFollow : Event → Bool
  | .looked _ _ => false
  | .followed _ _ _ => true

/-- A walk on its way: the links met so far, and what it has done. -/
structure Walk where
  volume : Volume
  hops : Nat
  trace : List Event

def Walk.note (w : Walk) (e : Event) : Walk := { w with trace := w.trace ++ [e] }

/-- The next component and the path after it: [] at the end, `none` when it is
too long. -/
def nextComponent (path : Name) : Option (Name × Name) :=
  let p := path.dropWhile (· == 0x2f)
  let name := p.takeWhile (· != 0x2f)
  if name.length ≠ 0 && !defComponentOk name.length then none
  else some (name, p.drop name.length)

def vfsFinddir (env : Walker) (w : Walk) (dir : NodeId) (name : Name) : Option NodeId × Walk :=
  if (w.volume.node dir).flags ≠ .directory then (none, w)
  else if (w.volume.node dir).finddir then (ramdiskFinddir w.volume.toDisk dir name, w)
  else
    let (found, owner) := env.foreign w.volume dir name
    (found, { w with volume := { w.volume with owner := owner } })

/-- "." stays, ".." goes up. -/
def step (env : Walker) (w : Walk) (dir : NodeId) (name : Name) : Option NodeId × Walk :=
  let w := w.note (.looked w.volume dir)
  if name = [0x2e] then (some dir, w)
  else if name = [0x2e, 0x2e] then ((w.volume.node dir).parent, w)
  else vfsFinddir env w dir name

/-- Is there another name after this point of a path? -/
def moreNames (path : Name) : Bool := !(path.dropWhile (· == 0x2f)).isEmpty

/-- The target of a symbolic link as the string that follow copies. -/
def linkTarget (link : Node) : Name :=
  let n := if link.bytes.size < fsPathMax - 1 then link.bytes.size else fsPathMax - 1
  (Buffer.slice link.bytes.data 0 n).takeWhile (· != 0)

/-- The node a walk starts at. -/
def walkStart (v : Volume) (start : Option NodeId) (path : Name) : NodeId :=
  if path.head? = some 0x2f then v.root else start.getD v.root

/-- Follow the link found in `dir`; `walk` is the walk of its target. -/
def follow (env : Walker) (walk : NodeId → Name → Walk → Option (Option NodeId × Walk))
    (dir link : NodeId) (w : Walk) : Option (Option NodeId × Walk) :=
  let w := { w with hops := w.hops + 1 }
  if !defLinkHopOk w.hops || !defFollowOk env.uid w.volume dir link ||
      (w.volume.node link).bytes.capacity = 0 then some (none, w)
  else if !env.memory w.hops then some (none, w)
  else walk dir (linkTarget (w.volume.node link)) (w.note (.followed w.volume dir link))

/-- The loop of walk. A round uses one unit of fuel, and so does a walk inside
another; `none` says that the fuel ran out. -/
def walkLoop (env : Walker) : Nat → Bool → NodeId → Name → Walk → Option (Option NodeId × Walk)
  | 0, _, _, _, _ => none
  | fuel + 1, followLast, node, path, w =>
    match nextComponent path with
    | none => some (none, w)
    | some (name, rest) =>
      if name.length = 0 then some (some node, w)
      else if (w.volume.node node).flags ≠ .directory then some (none, w)
      else if !defSearchOk env.uid w.volume node then some (none, w)
      else match step env w node name with
        | (none, w) => some (none, w)
        | (some x, w) =>
          if (w.volume.node x).flags = .link && (followLast || moreNames rest) then
            let walk := fun dir target w =>
              walkLoop env fuel true (walkStart w.volume (some dir) target) target w
            match follow env walk node x w with
            | none => none
            | some (none, w) => some (none, w)
            | some (some y, w) => walkLoop env fuel followLast (vfsInode w.volume.toDisk y) rest w
          else walkLoop env fuel followLast (vfsInode w.volume.toDisk x) rest w

def walk (env : Walker) (fuel : Nat) (start : Option NodeId) (path : Option Name)
    (followLast : Bool) (w : Walk) : Option (Option NodeId × Walk) :=
  match path with
  | none => some (none, w)
  | some path => walkLoop env fuel followLast (walkStart w.volume start path) path w

def vfsLookup (env : Walker) (fuel : Nat) (v : Volume) (start : Option NodeId)
    (path : Option Name) : Option (Option NodeId × Walk) :=
  walk env fuel start path true ⟨v, 0, []⟩

/-- Rounds that a walk can still make after `hops` links: each link that may
still be followed brings a path of less than FS_PATH_MAX bytes. -/
def roundsLeft (hops : Nat) (path : Name) : Nat :=
  (linkHopsMax - hops) * fsPathMax + path.length + 1

/-- A lookup with all the rounds it can need. -/
def lookup (env : Walker) (v : Volume) (start : Option NodeId) (path : Name) :
    Option NodeId × Walk :=
  (vfsLookup env (roundsLeft 0 path) v start (some path)).getD (none, ⟨v, 0, []⟩)

end UzOS.Fs
