import UzOS.Net.Sendto

/-! sendfile and sendmsg (syscalls/sendfile/sys_sendfile.c and
syscalls/sendmsg/sys_sendmsg.c) made by any number of processes at once. A process that
is inside a call keeps the CPU until the call sleeps or returns. -/
namespace UzOS.Net
open Kernel (Slot)

/-- MAX_FDS -/
def maxFds : Int := 16
/-- CHUNK of sys_sendfile.c -/
def chunkSize : Nat := 2048
/-- GATHER_MAX of sys_sendmsg.c -/
def gatherMax : Nat := 4096
def msgIovMax : Nat := 16

abbrev FileId := Nat

/-- What a descriptor can name; `other` is a node that is no regular file. -/
inductive Node where
  | file (f : FileId)
  | socket (s : SockSlot)
  | other

/-- The locals of sys_sendfile with a socket as output. `file` is the input as the call
found it; nothing reads it. -/
structure Transfer where
  out : SockSlot
  inFd : Nat
  input : FileId
  offset : Bool
  count : Nat
  pos : Nat
  done : Nat := 0
  got : Nat := 0
  file : Fs.File

/-- The call around a socket_sendto. -/
inductive Job where
  | sendfile (t : Transfer)
  | stream (s : SockSlot) (pieces : List (List U8)) (i total : Nat)
  | datagram (s : SockSlot) (pieces : List (List U8))

structure Call where
  number : Nat
  job : Job
  sendto : Sendto
  asleep : Bool := false

/-- The pieces of the iovec, and the rest of the msghdr_t that sendmsg itself reads. -/
structure Msghdr where
  pieces : List (List U8)
  controllen : Nat := 0

/-- What a call was made for. -/
inductive Made where
  | sendfile (out : SockSlot) (file : Fs.File) (pos : Nat)
  | stream (s : SockSlot) (pieces : List (List U8))
  | datagram (s : SockSlot) (pieces : List (List U8))
  | other

def Job.made : Job → Made
  | .sendfile t => .sendfile t.out t.file t.pos
  | .stream s pieces _ _ => .stream s pieces
  | .datagram s pieces => .datagram s pieces

structure Proc where
  fdTable : Nat → Option Node := fun _ => none
  fdOffset : Nat → Nat := fun _ => 0
  call : Option Call := none

/-- `offset` is what `*offset` gets. -/
structure Returned where
  number : Nat
  result : Result
  offset : Option Nat := none

/-- `chunk` and `gather` are the static buffers of the two calls. `made` has the calls
so far, by number, and `returned` how they ended. -/
structure World where
  proc : Slot → Proc := fun _ => {}
  files : FileId → Fs.File := fun _ => .fresh
  sockets : SockSlot → Socket := fun _ => {}
  chunk : Nat → U8 := fun _ => 0
  gather : Nat → U8 := fun _ => 0
  onCpu : Option Slot := none
  made : List Made := []
  returned : List Returned := []

namespace World

variable (w : World) (p : Slot)

def setProc (q : Proc) : World :=
  { w with proc := Function.update w.proc p q }

def setCall (c : Option Call) : World :=
  w.setProc p { w.proc p with call := c }

def accept (s : SockSlot) (number : Nat) (bytes : List U8) : World :=
  { w with sockets := Function.update w.sockets s ((w.sockets s).accept number bytes) }

def call : Option Call := (w.proc p).call

/-- The call returns. -/
def finish (back : Returned) : World :=
  { w.setCall p none with onCpu := none, returned := w.returned ++ [back] }

/-! ## sendfile -/

/-- The end of sys_sendfile. -/
def leaveSendfile (number : Nat) (t : Transfer) : World :=
  if t.offset then w.finish p ⟨number, .ok t.done, some (t.pos + t.done)⟩
  else
    let q := w.proc p
    (w.setProc p { q with fdOffset := Function.update q.fdOffset t.inFd (t.pos + t.done) }).finish p
      ⟨number, .ok t.done, none⟩

/-- socket_sendto has failed, and the call ends. -/
def giveUp (number : Nat) (job : Job) (why : Errno) : World :=
  match job with
  | .sendfile t =>
    if t.done = 0 then w.finish p ⟨number, .error why, none⟩ else w.leaveSendfile p number t
  | .stream _ _ _ total =>
    w.finish p ⟨number, if total ≠ 0 then .ok total else .error why, none⟩
  | .datagram _ _ => w.finish p ⟨number, .error why, none⟩

/-- The start of socket_sendto. -/
def begin (number : Nat) (job : Job) (f : Sendto) : World :=
  if (w.sockets f.socket).shutWr then w.giveUp p number job .epipe
  else { w.setCall p (some ⟨number, job, f, false⟩) with onCpu := some p }

/-- The head of the loop of sys_sendfile. -/
def nextChunk (number : Nat) (t : Transfer) : World :=
  if t.done < t.count then
    let want := if t.count - t.done < chunkSize then t.count - t.done else chunkSize
    let bytes := Fs.ramdiskRead (w.files t.input) (t.pos + t.done) want
    if bytes = [] then w.leaveSendfile p number t
    else
      begin { w with chunk := Buffer.blit w.chunk 0 bytes } p number
        (.sendfile { t with got := bytes.length })
        { socket := t.out, dontwait := false, len := bytes.length }
  else w.leaveSendfile p number t

/-- The next piece of a stream message. -/
def nextPiece (number : Nat) (s : SockSlot) (dontwait : Bool)
    (pieces : List (List U8)) (i total : Nat) : World :=
  match pieces[i]? with
  | none => w.finish p ⟨number, .ok total, none⟩
  | some piece =>
    w.begin p number (.stream s pieces i total) { socket := s, dontwait, len := piece.length }

/-- socket_sendto has returned. -/
def afterSendto (c : Call) : Result → World
  | .error why => w.giveUp p c.number c.job why
  | .ok n => match c.job with
    | .sendfile t =>
      if n = 0 then w.giveUp p c.number c.job .einval
      else
        let t := { t with done := t.done + n }
        if n < t.got then w.leaveSendfile p c.number t else w.nextChunk p c.number t
    | .stream s pieces i total =>
      w.nextPiece p c.number s c.sendto.dontwait pieces (i + 1) (total + n)
    | .datagram _ _ => w.finish p ⟨c.number, .ok n, none⟩

/-! ## The rounds of socket_sendto -/

def carryOn (c : Call) : Round → World
  | .returns r => w.afterSendto p c r
  | .goesOn done =>
    { w.setCall p (some { c with sendto := { c.sendto with done }, asleep := false }) with
      onCpu := some p }
  | .sleeps => { w.setCall p (some { c with asleep := true }) with onCpu := none }

/-- The bytes a call offers to its socket now. -/
def offered (c : Call) : List U8 :=
  let f := c.sendto
  match c.job with
  | .sendfile _ => Buffer.slice w.chunk f.done (f.len - f.done)
  | .stream _ pieces i _ => (pieces[i]?.getD []).drop f.done
  | .datagram _ _ => Buffer.slice w.gather f.done (f.len - f.done)

/-- The protocol answers the process on the CPU. -/
def answer (c : Call) (a : Answer) : World :=
  let s := w.sockets c.sendto.socket
  let bytes := w.offered c
  let r := a.result s.type bytes.length
  let w := match r with
    | .ok n => w.accept c.sendto.socket c.number (bytes.take n)
    | .error _ => w
  w.carryOn p c (c.sendto.round s r)

def wake (c : Call) (calm : Bool) : World :=
  let (f, round) := c.sendto.wake calm
  w.carryOn p { c with sendto := f } round

end World

/-! ## Between files -/

/-- The locals of sys_sendfile with an output that is no socket, and what it changes;
`failed` when vfs_write wrote nothing. -/
structure Copy where
  files : FileId → Fs.File
  chunk : Nat → U8
  outOffset : Nat
  done : Nat := 0
  failed : Bool := false

/-- vfs_write; only regular files can be written here. `alloc` says whether it finds
memory. -/
def Copy.write (c : Copy) (alloc : Bool) (output : Option FileId) (bytes : List U8) : Copy × Nat :=
  match output with
  | none => ({ c with failed := true }, 0)
  | some output =>
    let (sent, file) := Fs.ramdiskWrite alloc (c.files output) c.outOffset bytes
    ({ c with files := Function.update c.files output file, outOffset := c.outOffset + sent
              done := c.done + sent, failed := sent == 0 }, sent)

/-- The loop with such an output. Every round but the last copies something, so that
`fuel` need not be more than the bytes left to copy. -/
def copyFile (alloc : Nat → Bool) (input : FileId) (output : Option FileId) (count pos : Nat) :
    Nat → Copy → Copy
  | 0, c => c
  | fuel + 1, c =>
    if c.done < count then
      let want := if count - c.done < chunkSize then count - c.done else chunkSize
      let bytes := Fs.ramdiskRead (c.files input) (pos + c.done) want
      if bytes = [] then c
      else
        let (c, sent) := { c with chunk := Buffer.blit c.chunk 0 bytes }.write (alloc c.done) output
          bytes
        if sent < bytes.length then c else copyFile alloc input output count pos fuel c
    else c

namespace World

/-! ## The calls from their start -/

variable (w : World) (p : Slot)

def socketFromFd (fd : Int) : Option SockSlot :=
  if fd < 0 ∨ maxFds ≤ fd then none
  else match (w.proc p).fdTable fd.toNat with
    | some (.socket s) => some s
    | _ => none

def socketFdError (fd : Int) : Errno :=
  if fd < 0 ∨ maxFds ≤ fd ∨ ((w.proc p).fdTable fd.toNat).isNone then .ebadf else .enotsock

/-- The call gets a number. -/
def register (m : Made) : World := { w with made := w.made ++ [m] }

/-- A call that returns without sending. -/
def refuse (why : Errno) : World :=
  (w.register .other).finish p ⟨w.made.length, .error why, none⟩

/-- sendfile to a descriptor that is no socket. -/
def sendfileToFile (outFd inFd : Nat) (input : FileId)
    (output : Option FileId) (offset : Option Nat) (count : Nat) (alloc : Nat → Bool) : World :=
  let q := w.proc p
  let pos := offset.getD (q.fdOffset inFd)
  let c := copyFile alloc input output count pos count
    { files := w.files, chunk := w.chunk, outOffset := q.fdOffset outFd }
  let fdOffset := Function.update q.fdOffset outFd c.outOffset
  let copied := { w.register .other with files := c.files, chunk := c.chunk }
  if c.failed ∧ c.done = 0 then copied.finish p ⟨w.made.length, .error .einval, none⟩
  else if offset.isSome then
    (copied.setProc p { q with fdOffset }).finish p
      ⟨w.made.length, .ok c.done, some (pos + c.done)⟩
  else
    let fdOffset := Function.update fdOffset inFd (pos + c.done)
    (copied.setProc p { q with fdOffset }).finish p ⟨w.made.length, .ok c.done, none⟩

/-- `offset` is the value at the caller's pointer, `none` for NULL. -/
def sysSendfile (outFd inFd : Int) (offset : Option Nat) (count : Nat)
    (alloc : Nat → Bool) : World :=
  let q := w.proc p
  if inFd < 3 ∨ maxFds ≤ inFd ∨ outFd < 3 ∨ maxFds ≤ outFd then w.refuse p .ebadf
  else match q.fdTable inFd.toNat, q.fdTable outFd.toNat with
    | some (.file input), some (.socket out) =>
      let pos := offset.getD (q.fdOffset inFd.toNat)
      let file := w.files input
      (w.register (.sendfile out file pos)).nextChunk p w.made.length
        { out, inFd := inFd.toNat, input, offset := offset.isSome, count, pos, file }
    | some (.file input), some (.file output) =>
      w.sendfileToFile p outFd.toNat inFd.toNat input (some output) offset count alloc
    | some (.file input), some .other =>
      w.sendfileToFile p outFd.toNat inFd.toNat input none offset count alloc
    | some _, some _ => w.refuse p .einval
    | _, _ => w.refuse p .ebadf

/-- The copying of the pieces into the static buffer. -/
def gatherInto (buf : Nat → U8) (len : Nat) : List (List U8) → (Nat → U8) × Option Nat
  | [] => (buf, some len)
  | piece :: rest =>
    if gatherMax < len + piece.length then (buf, none)
    else gatherInto (Buffer.blit buf len piece) (len + piece.length) rest

def sysSendmsg (fd : Int) (msg : Msghdr) (dontwait : Bool) : World :=
  match w.socketFromFd p fd with
  | none => w.refuse p (w.socketFdError p fd)
  | some s =>
    if msgIovMax < msg.pieces.length ∨ msg.controllen ≠ 0 then w.refuse p .einval
    else if (w.sockets s).type = .stream then
      (w.register (.stream s msg.pieces)).nextPiece p w.made.length s dontwait msg.pieces 0 0
    else match gatherInto w.gather 0 msg.pieces with
      | (gather, none) => { w with gather }.refuse p .emsgsize
      | (gather, some len) =>
        begin { w.register (.datagram s msg.pieces) with gather } p w.made.length
          (.datagram s msg.pieces) { socket := s, dontwait, len }

end World

/-! ## Any processes, any order -/

inductive Event where
  | sendfile (p : Slot) (outFd inFd : Int) (offset : Option Nat) (count : Nat)
      (alloc : Nat → Bool)
  | sendmsg (p : Slot) (fd : Int) (msg : Msghdr) (dontwait : Bool)
  | answer (a : Answer)
  | wake (p : Slot) (calm : Bool)
  | setFds (p : Slot) (fdTable : Nat → Option Node) (fdOffset : Nat → Nat)
  | setFile (f : FileId) (file : Fs.File)
  | setSocket (s : SockSlot) (nonblock shutWr : Bool) (sndtimeoMs : Nat)

/-- What processes do that are inside no call. -/
def between (w : World) : Event → World
  | .sendfile p outFd inFd offset count alloc =>
    if (w.call p).isNone then w.sysSendfile p outFd inFd offset count alloc else w
  | .sendmsg p fd msg dontwait =>
    if (w.call p).isNone then w.sysSendmsg p fd msg dontwait else w
  | .answer _ => w
  | .wake p calm => match w.call p with
    | some c => if c.asleep then w.wake p c calm else w
    | none => w
  | .setFds p fdTable fdOffset =>
    if (w.call p).isNone then w.setProc p { w.proc p with fdTable, fdOffset } else w
  | .setFile f file => { w with files := Function.update w.files f file }
  | .setSocket s nonblock shutWr sndtimeoMs =>
    let socket := { w.sockets s with nonblock, shutWr, sndtimeoMs }
    { w with sockets := Function.update w.sockets s socket }

/-- While a process is inside a call and on the CPU, only the protocol answers. -/
def step (w : World) (e : Event) : World :=
  match w.onCpu with
  | none => between w e
  | some p => match e, w.call p with
    | .answer a, some c => w.answer p c a
    | _, _ => w

/-- No call has been made. -/
structure World.Quiet (w : World) : Prop where
  calls : ∀ p, w.call p = none
  made : w.made = []
  returned : w.returned = []
  sockets : ∀ s, (w.sockets s).accepted = []
  onCpu : w.onCpu = none

end UzOS.Net
