import UzOS.Fs.Open

/-! The calls on a file that a path led to: read and write (io_management/syscalls),
truncate and fallocate (filesystem_management/syscalls), vfs_stat (core/vfs/vfs.c),
with RLIMIT_FSIZE and the defences of descriptors, buffers and sizes. -/
namespace UzOS.Fs

def oAppend : U32 := 0x10
def rlimInfinity : U32 := 0xFFFFFFFF
def ioMaxTransfer : U32 := 16384
def nullPageEnd : U32 := 0x1000

/-- The calling process; `alloc` says whether kmalloc finds memory. -/
structure Caller where
  uid : U32
  rlimFsize : U32
  alloc : Bool

def rlimitFsizeOk (w : Caller) (stop : U32) : Bool :=
  w.rlimFsize == rlimInfinity || decide (stop ≤ w.rlimFsize)

/-- size_cap -/
def defNewSizeOk (w : Caller) (size : U32) : Bool :=
  decide (size.toNat ≤ ramdiskMaxFileSize) && rlimitFsizeOk w size

/-- transfer_bounds -/
def defTransferOk (buf count : U32) : Bool :=
  if count = 0 then true
  else if ioMaxTransfer < count then false
  else if buf < nullPageEnd then false
  else decide (count - 1 ≤ 0xFFFFFFFF - buf)

/-- descriptor_bounds, for a descriptor from FIRST_FILE_FD on. -/
def defFdOk (t : FdTable) (fd : Fd) (need : U32) : Bool :=
  (t.node fd).isSome && t.flags fd &&& need == need

/-- The descriptor's offset. -/
def FdTable.seek (t : FdTable) (fd : Fd) (offset : U32) : FdTable :=
  { t with offset := Function.update t.offset fd offset }

/-- read of a file: what it puts into the buffer; `none` is the result -1. -/
def sysRead (d : Disk) (t : FdTable) (fd : Fd) (buf count : U32) : Option (List U8) × FdTable :=
  if !defFdOk t fd oRead || !defTransferOk buf count then (none, t)
  else match t.node fd with
    | none => (none, t)
    | some file =>
      let got := vfsRead d file (t.offset fd).toNat count.toNat
      (some got, t.seek fd (t.offset fd + BitVec.ofNat 32 got.length))

/-- write to a file of the `bytes` that are at `buf`. -/
def sysWrite (w : Caller) (d : Disk) (t : FdTable) (fd : Fd) (buf : U32) (bytes : List U8) :
    Int × Disk × FdTable :=
  let count := BitVec.ofNat 32 bytes.length
  if !defFdOk t fd oWrite || !defTransferOk buf count then (-1, d, t)
  else match t.node fd with
    | none => (-1, d, t)
    | some file =>
      let t := if t.flags fd &&& oAppend ≠ 0 then
          t.seek fd (BitVec.ofNat 32 (d.node file).bytes.size)
        else t
      if !rlimitFsizeOk w (t.offset fd + count) then (-1, d, t)
      else
        let (n, d) := vfsWrite d w.alloc file (t.offset fd).toNat bytes
        (if count ≠ 0 && n = 0 then -1 else n, d, t.seek fd (t.offset fd + BitVec.ofNat 32 n))

/-- One octal digit of a mode as rwx bits; x for a readable directory. -/
def bits (digit : U32) (dir : Bool) : U32 :=
  (if digit &&& 4 ≠ 0 then 4 else 0) ||| (if digit &&& 2 ≠ 0 then 2 else 0) |||
    (if dir && digit &&& 4 ≠ 0 then 1 else 0)

/-- vfs_stat_t, without the device, the inode number and the times. -/
structure VfsStat where
  mode : U32
  nlink : Nat
  uid : U32
  gid : U32
  size : Nat
  blksize : Nat
  blocks : Nat
  deriving DecidableEq

def vfsStat (v : Volume) (node : NodeId) : VfsStat :=
  let x := vfsInode v.toDisk node
  let dir := (v.node x).flags == .directory
  let owner := v.mode x >>> 3 &&& 7
  let others := v.mode x &&& 7
  { mode := (match (v.node x).flags with
      | .link => 0o120000
      | .directory => 0o040000
      | .file => 0o100000) |||
        bits owner dir <<< 6 ||| bits others dir <<< 3 ||| bits others dir
    nlink := if (v.node x).nlink ≠ 0 then (v.node x).nlink else 1
    uid := v.owner x
    gid := v.owner x
    size := (v.node x).bytes.size
    blksize := 4096
    blocks := ((v.node x).bytes.size + 511) / 512 }

/-- truncate(path, length) of the file that the path leads to. -/
def truncateFound (w : Caller) (v : Volume) (file : NodeId) (length : U32) : Int × Volume :=
  if (v.node file).flags ≠ .file || !permCheck w.uid v file permWrite then (-1, v)
  else if !defNewSizeOk w length then (-1, v)
  else
    let (r, d) := resizeNode v.toDisk w.alloc (some file) length.toNat
    (r, { v with toDisk := d })

def sysFallocate (w : Caller) (d : Disk) (t : FdTable) (fd : Fd) (mode : Int)
    (offset length : U32) : Int × Disk :=
  match t.node fd with
  | none => (-1, d)
  | some file =>
    let stop := offset + length
    if mode ≠ 0 || length = 0 || t.flags fd &&& oWrite = 0 then (-1, d)
    else if stop < offset then (-1, d)
    else if stop.toNat ≤ (d.node file).bytes.size then (0, d)
    else if !defNewSizeOk w stop then (-1, d)
    else resizeNode d w.alloc (some file) stop.toNat

/-! The calls through a name. -/

/-- A call on a file by one of its names; those on a descriptor find it opened
there, at `offset` and with `flags`. -/
inductive Access where
  | read (offset flags buf count : U32)
  | write (offset flags buf : U32) (bytes : List U8)
  | stat
  | truncate (length : U32)
  | fallocate (flags : U32) (mode : Int) (offset length : U32)

/-- What a call answers: a number, the bytes that it read, or a record. -/
inductive Answer where
  | code (r : Int)
  | data (got : Option (List U8))
  | stat (st : VfsStat)

/-- The call through `name`, with `fd` for the descriptor. -/
def Access.run (w : Caller) (v : Volume) (t : FdTable) (fd : Fd) (name : NodeId) :
    Access → Answer × Volume × FdTable
  | .read offset flags buf count =>
    let (v, t) := through v t name offset flags
    let (got, t) := sysRead v.toDisk t fd buf count
    (.data got, v, t)
  | .write offset flags buf bytes =>
    let (v, t) := through v t name offset flags
    let (r, d, t) := sysWrite w v.toDisk t fd buf bytes
    (.code r, { v with toDisk := d }, t)
  | .stat => (.stat (vfsStat v name), v, t)
  | .truncate length =>
    let (r, v) := truncateFound w v (vfsInode v.toDisk name) length
    (.code r, v, t)
  | .fallocate flags mode offset length =>
    let (v, t) := through v t name 0 flags
    let (r, d) := sysFallocate w v.toDisk t fd mode offset length
    (.code r, { v with toDisk := d }, t)
where
  through (v : Volume) (t : FdTable) (name : NodeId) (offset flags : U32) : Volume × FdTable :=
    let x := vfsInode v.toDisk name
    ({ v with toDisk := vfsOpen v.toDisk x }, t.set fd (some x) offset flags)

end UzOS.Fs
