import UzOS.Net.Steps

/-! What the sockets take of the calls of many processes. -/
namespace UzOS.Net

open List
open Kernel (Slot)

abbrev run (w : World) (events : List Event) : World := Runs.run step w events

abbrev everyStep (ok : World → Event → Bool) (w : World) (events : List Event) : Bool :=
  Runs.everyStep step ok w events

/-! ## sendfile -/

/-- What a socket took of a sendfile is the file from `pos` on: so far, and, once the
call has returned, exactly as many bytes as it said. -/
structure FilesIntact (w : World) : Prop where
  going : ∀ p c t, w.call p = some c → c.job = .sendfile t →
    (w.sockets t.out).acceptedFrom c.number <+: t.file.contents.drop t.pos
  returned : ∀ b ∈ w.returned, ∀ out file pos, w.made[b.number]? = some (.sendfile out file pos) →
    (∀ n, b.result = .ok n → n ≤ (file.contents.drop pos).length ∧
      (w.sockets out).acceptedFrom b.number = (file.contents.drop pos).take n) ∧
    ∀ why, b.result = .error why → (w.sockets out).acceptedFrom b.number = []

variable {number : Nat} {w : World}

theorem Delivered.cases {m : Made} {r : Result} (h : Delivered w m number r) :
    (∀ n, r = .ok n → Delivered w m number (.ok n)) ∧
      ∀ why, r = .error why → Delivered w m number (.error why) :=
  ⟨fun _ same => same ▸ h, fun _ same => same ▸ h⟩

theorem FilesIntact.of_intact (h : Intact .sendfile w) : FilesIntact w where
  going := by
    intro p c t here job
    have going := h.going p c nofun here (by rw [job]; rfl)
    rw [job] at going
    rw [going.accepted]
    exact take_prefix _ _
  returned := fun b mem out file pos made => (h.ended b mem _ made rfl).cases

/-- Along every run in which no sendfile reads into the chunk while that of another
process is on its way, for files that do not change meanwhile. -/
theorem sendfile_integrity {w : World} (quiet : w.Quiet) (events : List Event)
    (unmodified : everyStep filesKept w events = true)
    (free : everyStep chunkFree w events = true) : FilesIntact (run w events) :=
  .of_intact (run_intact quiet events (Runs.everyStep_and events unmodified free))

def fileOf (bytes : List U8) : Fs.File := ⟨Buffer.blit (fun _ => 0) 0 bytes, bytes.length, 256⟩

/-- Two processes, each with a file of four bytes as descriptor 3 and a stream socket of
its own as descriptor 4, and a datagram socket as descriptor 5. -/
def twoSenders : World where
  proc := fun p =>
    { fdTable := fun fd =>
        if fd = 3 then some (.file p.val)
        else if fd = 4 then some (.socket (if p = 0 then 0 else 1))
        else if fd = 5 then some (.socket (if p = 0 then 2 else 3))
        else none }
  files := fun f => if f = 0 then fileOf [1, 2, 3, 4] else fileOf [5, 6, 7, 8]
  sockets := fun s => { type := if s.val < 2 then .stream else .dgram }

theorem twoSenders_quiet : twoSenders.Quiet where
  calls := fun _ => rfl
  made := rfl
  returned := rfl
  sockets := fun _ => rfl
  onCpu := rfl

/-- Process 0 sends half of its file and sleeps. -/
def halfSent : List Event :=
  [.sendfile 0 4 3 none 4 fun _ => true, .answer (.room 1), .answer (.refuses .eagain)]

def otherSends : List Event := [.sendfile 1 4 3 none 4 fun _ => true, .answer (.room 3)]

def restSent : List Event := [.wake 0 true, .answer (.room 1)]

theorem files_one_after_another :
    let events := halfSent ++ restSent ++ otherSends
    everyStep filesKept twoSenders events = true ∧ everyStep chunkFree twoSenders events = true ∧
      FilesIntact (run twoSenders events) :=
  ⟨by decide +kernel, by decide +kernel,
    sendfile_integrity twoSenders_quiet _ (by decide +kernel) (by decide +kernel)⟩

/-- While process 0 sleeps, process 1 sends its own file. -/
theorem chunk_overwritten :
    let events := halfSent ++ otherSends ++ restSent
    let w := run twoSenders events
    everyStep filesKept twoSenders events = true ∧
      ((twoSenders.files 0).contents = [1, 2, 3, 4] ∧
        (w.returned.map fun b => (b.number, b.result.toOption)) = [(1, some 4), (0, some 4)] ∧
        (w.sockets 0).acceptedFrom 0 = [1, 2, 7, 8]) := by
  decide +kernel

/-! ## sendmsg -/

/-- What a socket took of a message is the pieces in order: of a stream message the
beginning, of a datagram all or nothing. -/
structure MessagesIntact (w : World) : Prop where
  goingStream : ∀ p c s pieces i total, w.call p = some c → c.job = .stream s pieces i total →
    (w.sockets s).acceptedFrom c.number <+: pieces.flatten
  goingDatagram : ∀ p c s pieces, w.call p = some c → c.job = .datagram s pieces →
    (w.sockets s).entriesOf c.number = []
  returnedStream : ∀ b ∈ w.returned, ∀ s pieces, w.made[b.number]? = some (.stream s pieces) →
    (∀ n, b.result = .ok n → n ≤ pieces.flatten.length ∧
      (w.sockets s).acceptedFrom b.number = pieces.flatten.take n) ∧
    ∀ why, b.result = .error why → (w.sockets s).acceptedFrom b.number = []
  returnedDatagram : ∀ b ∈ w.returned, ∀ s pieces,
    w.made[b.number]? = some (.datagram s pieces) →
    (∀ n, b.result = .ok n → (w.sockets s).entriesOf b.number = [pieces.flatten]) ∧
    ∀ why, b.result = .error why → (w.sockets s).entriesOf b.number = []

theorem StreamGoing.beginning {s : SockSlot} {pieces : List (List U8)} {i total : Nat}
    {piece : List U8} {f : Sendto} (going : StreamGoing w number s pieces i total piece f) :
    (w.sockets s).acceptedFrom number <+: pieces.flatten := by
  rw [going.accepted]
  by_cases some : f.done = 0
  · rw [some, take_zero, append_nil, flatten_take_take pieces going.within]
    exact take_prefix _ _
  have all : total = (pieces.take i).flatten.length :=
    going.within.eq_of_not_lt fun short => some (going.short short)
  have start : (pieces.take (i + 1)).flatten <+: pieces.flatten := by
    conv_rhs => rw [← take_append_drop (i + 1) pieces, flatten_append]
    exact prefix_append _ _
  refine List.IsPrefix.trans ?_ start
  rw [all, take_length, flatten_take_succ going.here]
  exact (prefix_append_right_inj _).mpr (List.take_prefix _ _)

theorem MessagesIntact.of_intact (streams : Intact .stream w) (datagrams : Intact .datagram w) :
    MessagesIntact w where
  goingStream := by
    intro p c s pieces i total here job
    have going := streams.going p c nofun here (by rw [job]; rfl)
    rw [job] at going
    obtain ⟨piece, going⟩ := going
    exact going.beginning
  goingDatagram := by
    intro p c s pieces here job
    have going := datagrams.going p c nofun here (by rw [job]; rfl)
    rw [job] at going
    exact going.accepted
  returnedStream := fun b mem s pieces made => (streams.ended b mem _ made rfl).cases
  returnedDatagram := fun b mem s pieces made => (datagrams.ended b mem _ made rfl).cases

end UzOS.Net
