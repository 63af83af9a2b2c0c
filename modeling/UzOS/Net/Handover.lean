import UzOS.Net.Intact

/-! One socket_sendto after another: what each round hands over. -/
namespace UzOS.Net

open List
open Kernel (Slot)

/-- Nothing of what the socket_sendto was called for has gone. -/
def Stalled (w : World) (number : Nat) : Job → Prop
  | .sendfile t => FileSent w number t
  | .stream s pieces i total => StreamSent w number s pieces i total
  | .datagram s _ => (w.sockets s).entriesOf number = []

/-- The socket_sendto has returned `r`. -/
def Sent (w : World) (number : Nat) (job : Job) : Result → Prop
  | .error _ => Stalled w number job
  | .ok n => match job with
    | .sendfile t => FileSent w number { t with done := t.done + n }
    | .stream s pieces i total => StreamSent w number s pieces (i + 1) (total + n)
    | .datagram s pieces => (w.sockets s).entriesOf number = [pieces.flatten]

def RoundKept (w : World) (c : Call) : Round → Prop
  | .returns r => Sent w c.number c.job r
  | .goesOn done => Going w c.number c.job { c.sendto with done }
  | .sleeps => Going w c.number c.job c.sendto

/-! ## Lists -/

theorem take_append_drop_take (l : List U8) (n m : Nat) :
    l.take n ++ (l.drop n).take m = l.take (n + m) := (take_add).symm

variable {piece : List U8}

theorem flatten_take_succ {pieces : List (List U8)} {i : Nat} (here : pieces[i]? = some piece) :
    (pieces.take (i + 1)).flatten = (pieces.take i).flatten ++ piece := by
  rw [take_add_one, here]
  simp

variable (pieces : List (List U8))

theorem flatten_take_take {i total : Nat} (within : total ≤ (pieces.take i).flatten.length) :
    (pieces.take i).flatten.take total = pieces.flatten.take total := by
  conv_rhs => rw [← take_append_drop i pieces, flatten_append]
  rw [take_append_of_le_length within]

theorem flatten_take_length (i : Nat) : (pieces.take i).flatten.length ≤ pieces.flatten.length := by
  conv_rhs => rw [← take_append_drop i pieces, flatten_append, length_append]
  exact Nat.le_add_right _ _

/-! ## Giving up -/

section Rounds

variable {w : World} {number : Nat} {job : Job} {f : Sendto}

theorem Going.stalled (going : Going w number job f) (none : f.done = 0) :
    Stalled w number job := by
  cases job with
  | sendfile t =>
    exact ⟨going.input, le_trans (Nat.le_add_right _ _) going.held, by
      rw [going.accepted, none, add_zero]⟩
  | stream s pieces i total =>
    obtain ⟨piece, going⟩ := going
    exact ⟨going.type, going.within, by rw [going.accepted, none, take_zero, append_nil]⟩
  | datagram s pieces => exact going.accepted

/-- A piece that goes out as far as `done`, right after all that came before it. -/
theorem streamSent_part {s : SockSlot} {pieces : List (List U8)} {i total done : Nat}
    (here : pieces[i]? = some piece) (type : (w.sockets s).type = .stream)
    (all : total = (pieces.take i).flatten.length) (part : done ≤ piece.length)
    (accepted : (w.sockets s).acceptedFrom number =
      (pieces.take i).flatten.take total ++ piece.take done) :
    StreamSent w number s pieces (i + 1) (total + done) where
  type := type
  within := by
    rw [flatten_take_succ here, length_append, ← all]
    exact Nat.add_le_add_left part total
  accepted := by rw [accepted, flatten_take_succ here, all, take_length, take_length_add_append]

theorem Going.giveUp (going : Going w number job f) (why : Errno) :
    Sent w number job (f.giveUp why) := by
  unfold Sendto.giveUp
  split
  · next some =>
    cases job with
    | sendfile t =>
      exact ⟨going.input, le_trans (Nat.add_le_add_left (le_of_lt going.more) _) going.held,
        going.accepted⟩
    | stream s pieces i total =>
      obtain ⟨piece, going⟩ := going
      have all : total = (pieces.take i).flatten.length :=
        going.within.eq_of_not_lt fun short => some (going.short short)
      have part : f.done ≤ piece.length := le_of_lt (going.more.resolve_right some)
      exact streamSent_part going.here going.type all part going.accepted
    | datagram s pieces => exact absurd going.none some
  · next none => exact going.stalled (not_not.mp none)

theorem Going.waited (going : Going w number job f) (waited : Nat) :
    Going w number job { f with waited } := by
  cases job with
  | sendfile t | datagram s pieces => exact { going with }
  | stream s pieces i total =>
    obtain ⟨piece, going⟩ := going
    exact ⟨piece, { going with }⟩

theorem Going.refused {c : Call} (going : Going w c.number c.job c.sendto) (s : Socket)
    (why : Errno) : RoundKept w c (c.sendto.round s (.error why)) := by
  unfold Sendto.round
  dsimp only
  split
  · exact going.giveUp why
  split
  · exact going.giveUp _
  · exact going

end Rounds

/-! ## Taking -/

section Taking

variable {w : World} {c : Call}

theorem accept_bytes_self (w : World) (s : SockSlot) (number : Nat) (bytes : List U8) :
    ((w.accept s number bytes).sockets s).acceptedFrom number =
      (w.sockets s).acceptedFrom number ++ bytes := by
  simp [World.accept, Socket.acceptedFrom_accept_self]

variable {pieces : List (List U8)} {s : SockSlot} {t : Transfer}

section
variable (going : FileGoing w c.number t c.sendto)
include going

theorem FileGoing.offered (job : c.job = .sendfile t) : w.offered c =
      ((t.file.contents.drop t.pos).drop (t.done + c.sendto.done)).take (t.got - c.sendto.done) := by
  have rest : Buffer.slice w.chunk c.sendto.done (t.got - c.sendto.done) =
      (Buffer.slice w.chunk 0 t.got).drop c.sendto.done := by
    rw [Buffer.slice_drop _ _ _ _ (le_of_lt going.more), zero_add]
  simp only [World.offered, job, going.len]
  rw [rest, going.chunk, drop_take, drop_drop, drop_drop, add_assoc]

/-- The chunk goes on, or is through. -/
theorem FileGoing.took (job : c.job = .sendfile t) {n : Nat} (fits : n ≤ t.got - c.sendto.done) :
    let w' := w.accept t.out c.number ((w.offered c).take n)
    FileSent w' c.number { t with done := t.done + (c.sendto.done + n) } ∧
      (c.sendto.done + n ≠ t.got → (w.sockets t.out).type = .stream →
        FileGoing w' c.number t { c.sendto with done := c.sendto.done + n }) := by
  have more := going.more
  have held := going.held
  have accepted : ((w.accept t.out c.number ((w.offered c).take n)).sockets t.out).acceptedFrom
      c.number = (t.file.contents.drop t.pos).take (t.done + (c.sendto.done + n)) := by
    rw [accept_bytes_self, going.accepted, going.offered job, take_take, Nat.min_eq_left fits,
      take_append_drop_take, add_assoc]
  constructor
  · exact ⟨going.input, le_trans (by simp only; omega) held, accepted⟩
  · intro left stream
    have same : ((w.accept t.out c.number ((w.offered c).take n)).sockets t.out).type = .stream :=
      (accept_types w t.out t.out c.number _).trans stream
    exact ⟨going.socket, going.input, going.len, by simp only; omega, fun other => absurd same other,
      going.chunk, held, accepted⟩

theorem FileGoing.room (job : c.job = .sendfile t) (more : Nat) :
    let n := if (w.sockets t.out).type = .stream then min (w.offered c).length (more + 1)
      else (w.offered c).length
    RoundKept (w.accept t.out c.number ((w.offered c).take n)) c
      (c.sendto.round (w.sockets t.out) (.ok n)) := by
  have left := going.more
  have size : (w.offered c).length = t.got - c.sendto.done := by
    have held := going.held
    rw [going.offered job, length_take, length_drop]
    omega
  intro n
  by_cases stream : (w.sockets t.out).type = .stream
  · have n_eq : n = min (t.got - c.sendto.done) (more + 1) := by simp only [n, stream, if_true, size]
    have took := going.took job (n := n) (by rw [n_eq]; exact Nat.min_le_left _ _)
    have some : 0 < n := by omega
    simp only [Sendto.round, some, stream, and_self, if_true]
    split
    · simp only [RoundKept, job]
      exact took.1
    rename_i on
    push Not at on
    simp only [RoundKept, job]
    exact took.2 (going.len ▸ on.1) stream
  · have n_eq : n = t.got - c.sendto.done := by simp only [n, stream, if_false, size]
    have took := going.took job (n := n) (le_of_eq n_eq)
    have whole : c.sendto.done + n = n := by rw [going.whole stream, zero_add]
    simp only [Sendto.round, stream, and_false]
    simp only [RoundKept, job]
    rw [whole] at took
    exact took.1

end

theorem StreamGoing.room {i total : Nat}
    (going : StreamGoing w c.number s pieces i total piece c.sendto)
    (job : c.job = .stream s pieces i total) (more : Nat)
    (gapless : total < (pieces.take i).flatten.length → piece = []) :
    let n := if (w.sockets s).type = .stream then min (w.offered c).length (more + 1)
      else (w.offered c).length
    RoundKept (w.accept s c.number ((w.offered c).take n)) c
      (c.sendto.round (w.sockets s) (.ok n)) := by
  have offers : w.offered c = piece.drop c.sendto.done := by simp [World.offered, job, going.here]
  intro n
  have n_eq : n = min (piece.length - c.sendto.done) (more + 1) := by
    simp only [n, going.type, if_true, offers, length_drop]
  have type : ((w.accept s c.number ((w.offered c).take n)).sockets s).type = .stream :=
    (accept_types w s s c.number _).trans going.type
  have accepted : ((w.accept s c.number ((w.offered c).take n)).sockets s).acceptedFrom c.number =
      (pieces.take i).flatten.take total ++ piece.take (c.sendto.done + n) := by
    rw [accept_bytes_self, going.accepted, offers, append_assoc, take_append_drop_take]
  by_cases empty : piece = []
  · have zero : n = 0 := by simp [n_eq, empty]
    have none : ¬ (0 < n ∧ (w.sockets s).type = .stream) := by simp [zero]
    simp only [Sendto.round, none]
    simp only [RoundKept, job]
    refine ⟨type, ?_, ?_⟩
    · rw [flatten_take_succ going.here, empty, append_nil, zero]
      exact going.within
    · rw [accepted, flatten_take_succ going.here, empty, zero]
      simp
  · have all : total = (pieces.take i).flatten.length :=
      going.within.eq_of_not_lt fun short => empty (gapless short)
    have left : c.sendto.done < piece.length := by
      have size := length_pos_iff.mpr empty
      have := going.more
      omega
    have some : 0 < n := by omega
    have part : c.sendto.done + n ≤ piece.length := by omega
    simp only [Sendto.round, some, going.type, and_self, if_true]
    split
    · simp only [RoundKept, job]
      exact streamSent_part going.here type all part accepted
    have len := going.len
    simp only [RoundKept, job]
    exact ⟨piece, going.socket, going.here, type, going.len, .inl (by simp only; omega),
      going.within, fun short => absurd all (ne_of_lt short), accepted⟩

theorem DatagramGoing.room (going : DatagramGoing w c.number s pieces c.sendto)
    (job : c.job = .datagram s pieces) (more : Nat) :
    let n := if (w.sockets s).type = .stream then min (w.offered c).length (more + 1)
      else (w.offered c).length
    RoundKept (w.accept s c.number ((w.offered c).take n)) c
      (c.sendto.round (w.sockets s) (.ok n)) := by
  have offers : w.offered c = pieces.flatten := by
    simp only [World.offered, job, going.none, going.len]
    exact going.gather
  intro n
  have n_eq : n = pieces.flatten.length := by simp only [n, going.type, if_false, offers]
  simp only [Sendto.round, going.type, and_false]
  simp only [RoundKept, Sent, job]
  rw [n_eq, offers]
  simp [World.accept, going.accepted]

end Taking

end UzOS.Net
