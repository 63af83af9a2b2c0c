import UzOS.Fs.Access
import UzOS.Kernel.Process

/-! The descriptor tables of the processes (io_management/core/fd/fd.c) over the
RAM disk: open, close, a child's copy of its parent's table (clone, vfork), the
end of a process (fd_cleanup) and of its program (close_on_exec). -/
namespace UzOS.Fs

open Kernel (Slot)

abbrev maxFds : Nat := 16
def firstFileFd : Nat := 3
def oCloexec : U32 := 0x80000

abbrev Fd := Fin maxFds

/-- process_t.fd_table, fd_offset and fd_flags -/
structure FdTable where
  node : Fd → Option NodeId
  offset : Fd → U32
  flags : Fd → U32

def FdTable.set (t : FdTable) (fd : Fd) (node : Option NodeId) (offset flags : U32) : FdTable where
  node := Function.update t.node fd node
  offset := Function.update t.offset fd offset
  flags := Function.update t.flags fd flags

/-- The descriptors from FIRST_FILE_FD on, which the loops of the source pass. -/
def fileFds : List Fd := (List.finRange maxFds).filter fun fd => decide (firstFileFd ≤ fd.val)

/-- The lowest free descriptor. -/
def freeFd (t : FdTable) : Option Fd := fileFds.find? fun fd => (t.node fd).isNone

/-- `none` is the result -1. -/
def fdAlloc (d : Disk) (t : FdTable) (x : NodeId) (flags : U32) : Option Fd × FdTable × Disk :=
  match freeFd t with
  | none => (none, t, d)
  | some fd => (some fd, t.set fd (some x) 0 flags, vfsOpen d x)

def fdRelease (d : Disk) (t : FdTable) (fd : Fd) : FdTable × Disk :=
  (t.set fd none 0 0, match t.node fd with
    | none => d
    | some x => vfsClose d x)

/-- The disk and the tables of all processes. -/
structure Files where
  disk : Disk
  fds : Slot → FdTable

variable (s : Files) (p : Slot)

def Files.alloc (x : NodeId) (flags : U32) : Option Fd × Files :=
  let (fd, t, d) := fdAlloc s.disk (s.fds p) x flags
  (fd, ⟨d, Function.update s.fds p t⟩)

def Files.release (fd : Fd) : Files :=
  let (t, d) := fdRelease s.disk (s.fds p) fd
  ⟨d, Function.update s.fds p t⟩

/-- descriptor_bounds: an open descriptor from FIRST_FILE_FD on. -/
def sysClose (fd : Fd) : Files :=
  if decide (firstFileFd ≤ fd.val) && ((s.fds p).node fd).isSome then s.release p fd else s

/-- One round of the loop in clone, clone3 and vfork. -/
def inheritFd (parent child : Slot) (s : Files) (fd : Fd) : Files where
  disk := match (s.fds parent).node fd with
    | none => s.disk
    | some x => vfsOpen s.disk x
  fds := Function.update s.fds child ((s.fds child).set fd ((s.fds parent).node fd)
    ((s.fds parent).offset fd) ((s.fds parent).flags fd))

def inherit (parent child : Slot) : Files :=
  (List.finRange maxFds).foldl (inheritFd parent child) s

/-- Close the open descriptors that `must` names. -/
def closeThose (must : FdTable → Fd → Bool) (s : Files) (p : Slot) : Files :=
  fileFds.foldl (fun s fd =>
    if ((s.fds p).node fd).isSome && must (s.fds p) fd then s.release p fd else s) s

def defFdCloseAll : Files := closeThose (fun _ _ => true) s p

/-- No descriptor of a file is a pidfd. -/
def defCloseOnExec : Files :=
  closeThose (fun t fd => t.flags fd &&& oCloexec != 0) s p

/-- The copy of a descriptor of `t` that pidfd_getfd makes. -/
def pidfdGetfd (p t : Slot) (fd : Fd) : Files :=
  if decide (fd.val < firstFileFd) then s
  else match (s.fds t).node fd with
    | none => s
    | some x =>
      match s.alloc p x ((s.fds t).flags fd) with
      | (none, s) => s
      | (some new, s) => { s with fds := Function.update s.fds p { s.fds p with
          offset := Function.update (s.fds p).offset new ((s.fds t).offset fd) } }

/-! Runs. -/

/-- What the processes do: a call into the RAM disk, a change of a file's bytes,
and the calls on descriptors. `found` is the entry that a path led to. -/
inductive Op where
  | disk (call : Call)
  | write (alloc : Bool) (found : NodeId) (offset : Nat) (buf : List U8)
  | resize (alloc : Bool) (found : NodeId) (size : Nat)
  | truncate (found : NodeId)
  | opened (p : Slot) (found : NodeId) (flags : U32)
  | close (p : Slot) (fd : Fd)
  | getfd (p t : Slot) (fd : Fd)
  | inherit (parent child : Slot)
  | exec (p : Slot)
  | exit (p : Slot)

def Op.apply : Op → Files
  | .disk call => { s with disk := call.apply s.disk }
  | .write alloc found offset buf => { s with disk := (vfsWrite s.disk alloc found offset buf).2 }
  | .resize alloc found size =>
    { s with disk := (resizeNode s.disk alloc (some (vfsInode s.disk found)) size).2 }
  | .truncate found => { s with disk := truncateNode s.disk (vfsInode s.disk found) }
  | .opened p found flags => (s.alloc p (vfsInode s.disk found) flags).2
  | .close p fd => sysClose s p fd
  | .getfd p t fd => pidfdGetfd s p t fd
  | .inherit parent child => Fs.inherit s parent child
  | .exec p => defCloseOnExec s p
  | .exit p => defFdCloseAll s p

/-- A node is opened and closed through descriptors only, and the current
directories are directories. -/
def Call.onTree (d : Disk) : Call → Bool
  | .opened _ => false
  | .closed _ => false
  | .chdir cwds => cwds.all fun c => d.live c && (d.node c).flags == .directory
  | _ => true

/-- Pointers point to nodes, and a new process has no descriptors. -/
def Op.sound : Op → Bool
  | .disk call => call.sound s.disk && call.onTree s.disk
  | .write _ found _ _ => s.disk.live found
  | .resize _ found _ => s.disk.live found
  | .truncate found => s.disk.live found
  | .opened _ found _ => s.disk.live found
  | .inherit _ child => (List.finRange maxFds).all fun fd => ((s.fds child).node fd).isNone
  | _ => true

def soundOps (s : Files) : List Op → Bool
  | [] => true
  | op :: rest => op.sound s && soundOps (op.apply s) rest

/-- No process has a file open. -/
def Files.start (d : Disk) : Files := ⟨d, fun _ => ⟨fun _ => none, fun _ => 0, fun _ => 0⟩⟩

/-- The states of the system: from ramdisk_init on, by sound calls. -/
inductive Reached : Files → Prop
  | init (root : NodeId) (hello : Option NodeId) (elf : List U8) (text : Bool)
      (apart : hello.all (· != root) = true) : Reached (Files.start (ramdiskInit root hello elf text))
  | step {s : Files} (op : Op) (before : Reached s) (sound : op.sound s = true) :
      Reached (op.apply s)

theorem Reached.run {s : Files} (reached : Reached s) (ops : List Op)
    (sound : soundOps s ops) : Reached (ops.foldl Op.apply s) := by
  induction ops generalizing s with
  | nil => exact reached
  | cons op rest ih =>
    simp only [soundOps, Bool.and_eq_true] at sound
    exact ih (reached.step op sound.1) sound.2

end UzOS.Fs
