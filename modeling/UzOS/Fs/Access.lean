import UzOS.Fs.Ramdisk

/-! The bytes of a file through its node: vfs_read and vfs_write (core/vfs/vfs.c),
ramdisk_resize and ramdisk_truncate (core/ramdisk/ramdisk.c). -/
namespace UzOS.Fs

/-- Only an inode has a read and a write function, ramdisk_read and
ramdisk_write; a name of it leads there. -/
def vfsRead (d : Disk) (node : NodeId) (offset size : Nat) : List U8 :=
  let x := vfsInode d node
  if (d.node x).flags ≠ .file then [] else ramdiskRead (d.node x).bytes offset size

/-- `alloc` says whether kmalloc finds memory. -/
def vfsWrite (d : Disk) (alloc : Bool) (node : NodeId) (offset : Nat) (buf : List U8) :
    Nat × Disk :=
  let x := vfsInode d node
  if (d.node x).flags ≠ .file then (0, d)
  else
    let (n, bytes) := ramdiskWrite alloc (d.node x).bytes offset buf
    (n, d.modify x fun n => { n with bytes := bytes })

/-- ramdisk_resize of a node. -/
def resizeNode (d : Disk) (alloc : Bool) (file : Option NodeId) (size : Nat) : Int × Disk :=
  match file with
  | none => (-1, d)
  | some x =>
    if (d.node x).flags ≠ .file then (-1, d)
    else
      let (r, bytes) := ramdiskResize alloc (ours d (d.node x).parent) (d.node x).bytes size
      (r, d.modify x fun n => { n with bytes := bytes })

/-- ramdisk_truncate of a node. -/
def truncateNode (d : Disk) (x : NodeId) : Disk :=
  if (d.node x).flags ≠ .file then d
  else d.modify x fun n => { n with bytes := ramdiskTruncate n.bytes }

end UzOS.Fs
