import UzOS.Fs.File
import UzOS.Lib.Hierarchy

/-! The directory tree of the RAM disk (core/ramdisk/ramdisk.c), the path
functions of core/vfs/vfs.c it relies on, and its defences. -/
namespace UzOS.Fs

def fsNameMax : Nat := 127
def fsPathMax : Nat := 256
def fsMaxChildren : Nat := 64
def fsLinkMax : Nat := 16
def fsDepthMax : Nat := 32

/-- The address of a node; NULL is `none`. -/
abbrev NodeId := Nat

/-- The characters of a C string. -/
abbrev Name := List U8

/-- vfs_node_t.flags -/
inductive Kind where
  | file | directory | link
  deriving DecidableEq, Repr

/-- vfs_node_t, as far as the tree goes. `finddir` says that the pointer of that
name is ramdisk_finddir, `release` that it is ramdisk_release. -/
structure Node where
  name : Name
  flags : Kind
  openCount : Nat
  nlink : Nat
  finddir : Bool
  release : Bool
  bytes : File
  target : Option NodeId
  parent : Option NodeId
  children : List NodeId

/-- fs_root, the memory of the nodes, the addresses that hold one now, and the
current directories of the processes. -/
structure Disk where
  root : NodeId
  node : NodeId → Node
  live : NodeId → Bool
  cwds : List NodeId

variable (d : Disk) (dir : NodeId)

def Disk.modify (x : NodeId) (f : Node → Node) : Disk :=
  { d with node := Function.update d.node x (f (d.node x)) }

/-- kfree of a node. -/
def Disk.free (x : NodeId) : Disk :=
  { d with live := Function.update d.live x false }

def vfsInode (entry : NodeId) : NodeId := (d.node entry).target.getD entry

/-! Defences. -/

def lengthOk (len : Nat) : Bool := decide (1 ≤ len) && decide (len ≤ fsNameMax)

/-- No "", ".", "..", '/', space or control character; `char` is signed. -/
def nameOk (name : Name) : Bool :=
  if !lengthOk name.length then false
  else if name = [0x2e] || name = [0x2e, 0x2e] then false
  else !name.any fun c => c == 0x2f || decide (c.toInt ≤ 0x20) || c == 0x7f

def defNewNameOk (name : Name) : Bool := nameOk name

/-- The loop of vfs_path_of: `tmp` is what it has built, from the end. Every
round adds a byte, so the rounds never run out before the buffer does. -/
def pathLoop (d : Disk) : Nat → Option NodeId → List U8 → Option (List U8)
  | 0, _, _ => none
  | _ + 1, none, _ => none
  | rounds + 1, some x, tmp =>
    if x = d.root then some tmp
    else if fsPathMax - 1 < tmp.length + (d.node x).name.length + 1 then none
    else pathLoop d rounds (d.node x).parent (0x2f :: (d.node x).name ++ tmp)

/-- `none` is the result -1. -/
def vfsPathOf (node : Option NodeId) (max : Nat) : Option (List U8) :=
  match node with
  | none => none
  | some x =>
    if max < 2 then none
    else if x = d.root then some [0x2f]
    else match pathLoop d (fsPathMax + 1) (some x) [] with
      | none => none
      | some path => if max < path.length + 1 then none else some path

/-- path_length -/
def defPathFits (name : Name) (below : Nat) : Bool :=
  match vfsPathOf d (some dir) fsPathMax with
  | none => false
  | some path => decide (path.length + 1 + name.length + below + 1 ≤ fsPathMax)

/-- The loop of def_depth_of; the source stops it after FS_DEPTH_MAX + 2 rounds. -/
def depthLoop (d : Disk) : Nat → NodeId → Nat
  | 0, _ => 0
  | rounds + 1, x =>
    match (d.node x).parent with
    | none => 0
    | some p => if p = x then 0 else depthLoop d rounds p + 1

def defDepthOf (x : NodeId) : Nat := depthLoop d (fsDepthMax + 2) x

/-- depth_limit -/
def defDepthOk (height : Nat) : Bool :=
  decide (defDepthOf d dir + height ≤ fsDepthMax)

/-- The loop of vfs_is_ancestor. It climbs to the root, FS_DEPTH_MAX steps away
at most. -/
def ancestorLoop (d : Disk) (ancestor : NodeId) : Nat → Option NodeId → Bool
  | 0, _ => false
  | _ + 1, none => false
  | rounds + 1, some x =>
    if x = ancestor then true
    else if (d.node x).parent = some x then false
    else ancestorLoop d ancestor rounds (d.node x).parent

def vfsIsAncestor (ancestor node : NodeId) : Bool :=
  ancestorLoop d ancestor (fsDepthMax + 2) (some node)

/-- no_cycle -/
def defMoveAllowed (node newDir : NodeId) : Bool :=
  !((d.node node).flags = .directory && vfsIsAncestor d node newDir)

/-- busy_check -/
def defDeleteAllowed (x : NodeId) : Bool :=
  !(x == d.root || (d.node x).openCount != 0 ||
    ((d.node x).flags == .directory && !(d.node x).children.isEmpty) || d.cwds.contains x)

/-- nlink_bounds -/
def defNlinkOk (nlink : Nat) : Bool := decide (1 ≤ nlink) && decide (nlink < fsLinkMax)

/-- inode_refcount -/
def defInodeFreeOk (inode : Node) : Bool := inode.nlink == 0 && inode.openCount == 0

/-! Directory entries. -/

def ramdiskFinddir (name : Name) : Option NodeId :=
  (d.node dir).children.find? fun c => (d.node c).name == name

def addChild (dir child : NodeId) : Option Disk :=
  if fsMaxChildren ≤ (d.node dir).children.length then none
  else some ((d.modify dir fun n => { n with children := n.children ++ [child] }).modify child
    fun n => { n with parent := some dir })

def removeChild (dir child : NodeId) : Disk :=
  d.modify dir fun n => { n with children := n.children.erase child }

/-- The node new_node fills in at the address `x` that kmalloc returned. -/
def newNode (x : NodeId) (name : Name) (type : Kind) : Disk :=
  { d with
    node := Function.update d.node x
      { name := name, flags := type, openCount := 0, nlink := 1
        finddir := type == .directory, release := type == .file
        bytes := .fresh, target := none, parent := none, children := [] }
    live := Function.update d.live x true }

/-- height_below and longest_below: the most a chain of children weighs. Below
FS_DEPTH_MAX levels nothing is left. -/
def deepestBelow (weight : Name → Nat) (d : Disk) : Nat → NodeId → Nat
  | 0, _ => 0
  | levels + 1, x =>
    if (d.node x).flags = .directory then
      ((d.node x).children.map fun c =>
        weight (d.node c).name + deepestBelow weight d levels c).foldl max 0
    else 0

def heightBelow (x : NodeId) : Nat := deepestBelow (fun _ => 1) d fsDepthMax x

def longestBelow (x : NodeId) : Nat :=
  deepestBelow (fun name => 1 + name.length) d fsDepthMax x

def ours (dir : Option NodeId) : Bool :=
  match dir with
  | none => false
  | some x => (d.node x).finddir

/-! Public functions. `alloc` is the address kmalloc returns for a new node. -/

def ramdiskCreate (alloc dir : Option NodeId) (name : Name) (type : Kind) : Option NodeId × Disk :=
  match dir with
  | none => (none, d)
  | some p =>
    if !ours d dir || (d.node p).flags != .directory then (none, d)
    else if !defNewNameOk name then (none, d)
    else if (ramdiskFinddir d p name).isSome then (none, d)
    else if !defPathFits d p name 0 || !defDepthOk d p 1 then (none, d)
    else match alloc with
      | none => (none, d)
      | some x =>
        match addChild (newNode d x name type) p x with
        | none => (none, (newNode d x name type).free x)
        | some d => (some x, d)

/-- One name less: a hard link's node goes, the inode's own name is forgotten. -/
def unname (entry inode : NodeId) : Disk :=
  let d := d.modify inode fun n => { n with nlink := n.nlink - 1 }
  if entry = inode then d.modify entry fun n => { n with parent := none } else d.free entry

/-- A file lost the name `entry`: its bytes go with the last name and the last
descriptor. -/
def dropName (entry : NodeId) : Disk :=
  let inode := vfsInode d entry
  let d := unname d entry inode
  if (d.node inode).parent = none && defInodeFreeOk (d.node inode) then d.free inode else d

def ramdiskDelete (dir : Option NodeId) (name : Name) : Int × Disk :=
  match dir with
  | none => (-1, d)
  | some p =>
    if !ours d dir then (-1, d)
    else match ramdiskFinddir d p name with
      | none => (-1, d)
      | some entry =>
        if (d.node entry).flags == .directory && !ours d (some entry) then (-1, d)
        else if !defDeleteAllowed d entry then (-1, d)
        else
          let d := removeChild d p entry
          if (d.node entry).flags = .file then (0, dropName d entry) else (0, d.free entry)

def ramdiskLink (alloc dir : Option NodeId) (name : Name) (inode : Option NodeId) :
    Option NodeId × Disk :=
  match inode with
  | none => (none, d)
  | some entry =>
    let inode := vfsInode d entry
    if (d.node inode).flags != .file || !ours d ((d.node inode).parent.or dir) then (none, d)
    else if !defNlinkOk (d.node inode).nlink then (none, d)
    else match ramdiskCreate d alloc dir name .file with
      | (none, d) => (none, d)
      | (some x, d) =>
        (some x, (d.modify x fun n => { n with release := false, target := some inode }).modify inode
          fun n => { n with nlink := n.nlink + 1 })

/-- `text` says whether kmalloc finds memory for the target's text. -/
def ramdiskSymlink (alloc dir : Option NodeId) (name target : Name) (text : Bool) :
    Option NodeId × Disk :=
  if target.length = 0 || decide (fsPathMax ≤ target.length) then (none, d)
  else match ramdiskCreate d alloc dir name .link with
    | (none, d) => (none, d)
    | (some x, d) =>
      if text then (some x, d.modify x fun n =>
        { n with bytes := ⟨Buffer.blit (fun _ => 0) 0 target, target.length, target.length⟩ })
      else (none, (ramdiskDelete d dir name).2)

def ramdiskMove (node newDir : Option NodeId) (newName : Name) : Int × Disk :=
  match node, newDir with
  | some x, some q =>
    if x = d.root || !ours d newDir || !ours d (d.node x).parent then (-1, d)
    else if (d.node x).flags == .directory && !ours d node then (-1, d)
    else if !defNewNameOk newName then (-1, d)
    else if !defMoveAllowed d x q then (-1, d)
    else if !defPathFits d q newName (longestBelow d x) ||
        !defDepthOk d q (1 + heightBelow d x) then (-1, d)
    else if (ramdiskFinddir d q newName).any (· != x) then (-1, d)
    else match (d.node x).parent with
      | none => (-1, d)
      | some p =>
        if q = p then (0, d.modify x fun n => { n with name := newName })
        else if fsMaxChildren ≤ (d.node q).children.length then (-1, d)
        else
          let d := removeChild d p x
          let d := (addChild d q x).getD d
          (0, d.modify x fun n => { n with name := newName })
  | _, _ => (-1, d)

def slotOf (dir node : NodeId) : Option Nat := (d.node dir).children.idxOf? node

/-- The checks of ramdisk_exchange. -/
def exchangeAllowed (a b : NodeId) : Bool :=
  !(a == b || a == d.root || b == d.root || !ours d (d.node a).parent || !ours d (d.node b).parent)
  && !(((d.node a).flags == .directory && !ours d (some a)) ||
    ((d.node b).flags == .directory && !ours d (some b)))
  && !(vfsIsAncestor d a b || vfsIsAncestor d b a)
  && (match (d.node a).parent, (d.node b).parent with
    | some p, some q =>
      defPathFits d q (d.node a).name (longestBelow d a) &&
      defPathFits d p (d.node b).name (longestBelow d b) &&
      defDepthOk d q (1 + heightBelow d a) && defDepthOk d p (1 + heightBelow d b)
    | _, _ => false)

/-- `a` in slot `j` of `q` and `b` in slot `i` of `p`, each under the other's name. -/
def exchanged (a b p q : NodeId) (i j : Nat) : Disk :=
  let name := (d.node a).name
  let d := d.modify a fun n => { n with name := (d.node b).name }
  let d := d.modify b fun n => { n with name := name }
  let d := d.modify p fun n => { n with children := n.children.set i b }
  let d := d.modify q fun n => { n with children := n.children.set j a }
  let d := d.modify a fun n => { n with parent := some q }
  d.modify b fun n => { n with parent := some p }

def ramdiskExchange (a b : Option NodeId) : Int × Disk :=
  match a, b with
  | some a, some b =>
    if !exchangeAllowed d a b then (-1, d)
    else match (d.node a).parent, (d.node b).parent with
      | some p, some q =>
        match slotOf d p a, slotOf d q b with
        | some i, some j => (0, exchanged d a b p q i j)
        | _, _ => (-1, d)
      | _, _ => (-1, d)
  | _, _ => (-1, d)

def vfsOpen (x : NodeId) : Disk :=
  d.modify x fun n => { n with openCount := n.openCount + 1 }

def vfsClose (x : NodeId) : Disk :=
  let d := d.modify x fun n => { n with openCount := n.openCount - 1 }
  if (d.node x).parent = none && (d.node x).release && defInodeFreeOk (d.node x) then d.free x else d

/-- Memory before ramdisk_init. -/
def Disk.blank (root : NodeId) : Disk where
  root := root
  node := fun _ => ⟨[], .file, 0, 0, false, false, .fresh, none, none, []⟩
  live := fun _ => false
  cwds := []

/-- ramdisk_init, when kmalloc finds memory for the root at `root`. `hello` is
the address of the program file, `elf` its bytes, and `text` says whether there
is memory for them. -/
def ramdiskInit (root : NodeId) (hello : Option NodeId) (elf : List U8) (text : Bool) : Disk :=
  let d := newNode (.blank root) root [0x2f] .directory
  let d := d.modify root fun n => { n with parent := some root }
  match ramdiskCreate d hello (some root) [0x68, 0x65, 0x6c, 0x6c, 0x6f] .file with
  | (none, d) => d
  | (some x, d) => d.modify x fun n => { n with bytes := (ramdiskWrite text n.bytes 0 elf).2 }

/-! Runs. -/

/-- The calls into the RAM disk; `chdir` is the processes changing their current
directories. -/
inductive Call where
  | create (alloc dir : Option NodeId) (name : Name) (type : Kind)
  | link (alloc dir : Option NodeId) (name : Name) (inode : Option NodeId)
  | symlink (alloc dir : Option NodeId) (name target : Name) (text : Bool)
  | delete (dir : Option NodeId) (name : Name)
  | move (node newDir : Option NodeId) (newName : Name)
  | exchange (a b : Option NodeId)
  | opened (x : NodeId)
  | closed (x : NodeId)
  | chdir (cwds : List NodeId)

def Call.apply : Call → Disk
  | .create alloc dir name type => (ramdiskCreate d alloc dir name type).2
  | .link alloc dir name inode => (ramdiskLink d alloc dir name inode).2
  | .symlink alloc dir name target text => (ramdiskSymlink d alloc dir name target text).2
  | .delete dir name => (ramdiskDelete d dir name).2
  | .move node newDir newName => (ramdiskMove d node newDir newName).2
  | .exchange a b => (ramdiskExchange d a b).2
  | .opened x => vfsOpen d x
  | .closed x => vfsClose d x
  | .chdir cwds => { d with cwds := cwds }

/-- What a C program can do at all: a pointer is NULL or points to a node, and
kmalloc returns NULL or memory that no node occupies. -/
def Call.sound : Call → Bool
  | .create alloc dir _ _ => alloc.all (!d.live ·) && dir.all d.live
  | .link alloc dir _ inode => alloc.all (!d.live ·) && dir.all d.live && inode.all d.live
  | .symlink alloc dir _ _ _ => alloc.all (!d.live ·) && dir.all d.live
  | .delete dir _ => dir.all d.live
  | .move node newDir _ => node.all d.live && newDir.all d.live
  | .exchange a b => a.all d.live && b.all d.live
  | .opened x => d.live x
  | .closed x => d.live x
  | .chdir _ => true

def soundRun (d : Disk) : List Call → Bool
  | [] => true
  | call :: rest => call.sound d && soundRun (call.apply d) rest

end UzOS.Fs
