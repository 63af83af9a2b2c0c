import UzOS.Fs.Descriptor
import UzOS.Fs.Lookup

/-! open(path, flags) (io_management/syscalls/open/sys_open.c), with the lookup of
a path's directory (core/vfs/vfs.c) and the owner and mode of a new file. -/
namespace UzOS.Fs

def oRead : U32 := 0x01
def oWrite : U32 := 0x02
def oCreate : U32 := 0x04
def oTrunc : U32 := 0x08
def oDirectory : U32 := 0x10000
def modeCreateBase : U32 := 0o66

/-- The calling process, with what open cannot see: `memory` and `again` for the
links of its two lookups, `alloc` for the node of a new file. -/
structure Opener where
  uid : U32
  umask : U32
  cwd : Option NodeId
  rlimNofile : U32
  memory : Nat → Bool
  again : Nat → Bool
  alloc : Option NodeId
  foreign : Volume → NodeId → Name → Option NodeId × (NodeId → U32)

/-- secure_umask -/
def defCreationMode (base umask : U32) : U32 := base &&& ~~~umask &&& ~~~othersWrite &&& 0o66

variable (o : Opener)

def rlimitNofile : Nat :=
  if maxFds < o.rlimNofile.toNat then maxFds else o.rlimNofile.toNat

def vfsCwd (v : Volume) : NodeId := o.cwd.getD v.root

/-- The part of a path before its last component, and that component. -/
def splitPath (path : Name) : Name × Name :=
  let trimmed := (path.reverse.dropWhile (· == 0x2f)).reverse
  let name := (trimmed.reverse.takeWhile (· != 0x2f)).reverse
  (trimmed.take (trimmed.length - name.length), name)

def vfsLookupParent (env : Walker) (v : Volume) (start : NodeId) (path : Name) :
    Option (NodeId × Name) × Volume :=
  let (dirPath, name) := splitPath path
  if name.length = 0 || !defComponentOk name.length then (none, v)
  else if fsPathMax ≤ dirPath.length then (none, v)
  else
    match lookup env v (some (if path.head? = some 0x2f then v.root else start)) dirPath with
    | (none, w) => (none, w.volume)
    | (some dir, w) =>
      if (w.volume.node dir).flags = .directory then (some (dir, name), w.volume)
      else (none, w.volume)

/-- ramdisk_create: the new node belongs to the caller. -/
def createOwned (v : Volume) (dir : NodeId) (name : Name) (type : Kind) : Option NodeId × Volume :=
  match ramdiskCreate v.toDisk o.alloc (some dir) name type with
  | (none, d) => (none, { v with toDisk := d })
  | (some x, d) => (some x,
    { toDisk := d
      owner := Function.update v.owner x o.uid
      mode := Function.update v.mode x (defCreationMode modeCreateBase o.umask) })

/-- The file that open finds, or makes if it is missing. -/
def openFile (v : Volume) (path : Name) (flags : U32) : Option NodeId × Volume :=
  match lookup ⟨o.uid, o.memory, o.foreign⟩ v (some (vfsCwd o v)) path with
  | (some x, w) => (some x, w.volume)
  | (none, w) =>
    if flags &&& oCreate = 0 then (none, w.volume)
    else match vfsLookupParent ⟨o.uid, o.again, o.foreign⟩ w.volume (vfsCwd o w.volume) path with
      | (none, v) => (none, v)
      | (some (dir, name), v) =>
        if !permCheck o.uid v dir permWrite then (none, v) else createOwned o v dir name .file

/-- The kind of node that may be opened so: a directory read-only. -/
def openable (n : Node) (flags : U32) : Bool :=
  if n.flags = .directory then flags &&& oWrite == 0 && flags &&& oCreate == 0
  else n.flags = .file && flags &&& oDirectory == 0

/-- The permissions that an open with these flags needs. -/
def wanted (flags : U32) : U32 :=
  (if flags &&& oRead ≠ 0 then permRead else 0) ||| (if flags &&& oWrite ≠ 0 then permWrite else 0)

/-- A descriptor for the file: `none` is the result -1. -/
def openFd (v : Volume) (t : FdTable) (x : NodeId) (flags : U32) : Option Fd × Volume × FdTable :=
  match fdAlloc v.toDisk t x flags with
  | (none, t, d) => (none, { v with toDisk := d }, t)
  | (some fd, t, d) =>
    if rlimitNofile o ≤ fd.val then
      let (t, d) := fdRelease d t fd
      (none, { v with toDisk := d }, t)
    else if flags &&& oTrunc ≠ 0 && flags &&& oWrite ≠ 0 then
      (some fd, { v with toDisk := truncateNode d x }, t)
    else (some fd, { v with toDisk := d }, t)

/-- The checks of the file, then its descriptor. -/
def openNode (v : Volume) (t : FdTable) (x : NodeId) (flags : U32) : Option Fd × Volume × FdTable :=
  if !openable (v.node x) flags then (none, v, t)
  else if !permCheck o.uid v x (wanted flags) then (none, v, t)
  else openFd o v t x flags

def sysOpen (v : Volume) (t : FdTable) (path : Option Name) (flags : U32) :
    Option Fd × Volume × FdTable :=
  match path with
  | none => (none, v, t)
  | some path =>
    if flags &&& (oRead ||| oWrite) = 0 then (none, v, t)
    else match openFile o v path flags with
      | (none, v) => (none, v, t)
      | (some x, v) => openNode o v t x flags

end UzOS.Fs
