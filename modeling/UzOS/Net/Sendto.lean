import UzOS.Fs.File
import UzOS.Kernel.Process
import UzOS.Lib.Runs

/-! Sending on a socket (socket_sendto and nap of core/socket/socket.c), cut where the
protocol answers and where the caller sleeps. -/
namespace UzOS.Net
open Kernel (Slot)

abbrev socketMax : Nat := 32
abbrev SockSlot := Fin socketMax

/-- WAIT_SLICE_MS -/
def waitSliceMs : Nat := 50

/-- The NET_E numbers that sending can end with; `protocol` stands for the others, which
only the protocols use. -/
inductive Errno where
  | ebadf
  | eagain
  | eintr
  | einval
  | epipe
  | enotsock
  | emsgsize
  | protocol (number : Nat)
  deriving DecidableEq

/-- What a C function that returns a count or a negated error number returns. -/
abbrev Result := Except Errno Nat

inductive SockType where
  | stream
  | dgram
  | raw
  deriving DecidableEq

/-- The part of a socket_t that sending reads. `accepted` notes what the protocol has
taken, piece by piece, with the number of the call that sent it; nothing reads it. -/
structure Socket where
  type : SockType := .stream
  nonblock : Bool := false
  shutWr : Bool := false
  sndtimeoMs : Nat := 0
  accepted : List (Nat × List U8) := []

namespace Socket

/-- What the socket took of the call, piece by piece. -/
def entriesOf (s : Socket) (number : Nat) : List (List U8) :=
  (s.accepted.filter fun entry => entry.1 == number).map Prod.snd

/-- The bytes the socket took of the call. -/
def acceptedFrom (s : Socket) (number : Nat) : List U8 := (s.entriesOf number).flatten

def accept (s : Socket) (number : Nat) (bytes : List U8) : Socket :=
  { s with accepted := s.accepted ++ [(number, bytes)] }

variable (s : Socket) (number : Nat) (bytes : List U8)

@[simp] theorem entriesOf_accept_self :
    (s.accept number bytes).entriesOf number = s.entriesOf number ++ [bytes] := by
  simp [entriesOf, accept]

theorem entriesOf_accept_other {number other : Nat} (differ : other ≠ number) (bytes : List U8) :
    (s.accept number bytes).entriesOf other = s.entriesOf other := by
  simp [entriesOf, accept, Ne.symm differ]

theorem acceptedFrom_accept_self :
    (s.accept number bytes).acceptedFrom number = s.acceptedFrom number ++ bytes := by
  simp [acceptedFrom]

end Socket

/-- What ops->send says to a number of bytes: a stream has room for one and `more`, and
takes what fits; a datagram goes whole. -/
inductive Answer where
  | room (more : Nat)
  | refuses (why : Errno)
  deriving DecidableEq

def Answer.result (type : SockType) (len : Nat) : Answer → Result
  | .room more => .ok (if type = .stream then min len (more + 1) else len)
  | .refuses why => .error why

/-- A socket_sendto in progress: its arguments and locals. -/
structure Sendto where
  socket : SockSlot
  dontwait : Bool
  len : Nat
  done : Nat := 0
  waited : Nat := 0

/-- How a round of its loop ends. -/
inductive Round where
  | returns (r : Result)
  | goesOn (done : Nat)
  | sleeps

/-- nap, up to the sleep: `none` sleeps. -/
def nap (s : Socket) (dontwait : Bool) (waited : Nat) : Option Errno :=
  if s.nonblock || dontwait then some .eagain
  else if s.sndtimeoMs ≠ 0 ∧ s.sndtimeoMs ≤ waited then some .eagain
  else none

/-- What it returns when there is no more to be had. -/
def Sendto.giveUp (f : Sendto) (why : Errno) : Result :=
  if f.done ≠ 0 then .ok f.done else .error why

/-- A round of socket_sendto after the protocol's answer. -/
def Sendto.round (f : Sendto) (s : Socket) : Result → Round
  | .ok n =>
    if 0 < n ∧ s.type = .stream then
      let done := f.done + n
      if done = f.len ∨ s.nonblock ∨ f.dontwait then .returns (.ok done) else .goesOn done
    else .returns (.ok n)
  | .error why =>
    if why ≠ .eagain then .returns (f.giveUp why)
    else match nap s f.dontwait f.waited with
      | some why => .returns (f.giveUp why)
      | none => .sleeps

/-- After the sleep; `calm` is false when a signal ended it. -/
def Sendto.wake (f : Sendto) (calm : Bool) : Sendto × Round :=
  let f := { f with waited := f.waited + waitSliceMs }
  (f, if calm then .goesOn f.done else .returns (f.giveUp .eintr))

end UzOS.Net
