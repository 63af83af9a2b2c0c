import UzOS.Net.Integrity
import UzOS.Unix.Sock

/-! What the readers of AF_UNIX sockets get of the messages of many processes: unix_send
and unix_recv (core/unix/unix.c) behind the calls of sendmsg. -/
namespace UzOS.Net

open Function List World
open Kernel (Slot)
open Unix (Address EndSlot Table)

def unixBufSize : Nat := 4096
def packetDataMax : Nat := 1600
def enobufs : Errno := .protocol 105
def enotconn : Errno := .protocol 107
def econnrefused : Errno := .protocol 111

/-- Where data waits: in the ring of an end or the queue of a socket. -/
inductive Place where
  | ring (e : EndSlot)
  | queue (k : SockSlot)
  deriving DecidableEq

/-- What was taken from a call of the socket `sender`. -/
structure Arrival where
  place : Place
  sender : SockSlot
  number : Nat
  bytes : List U8

/-- The calls, and the bytes and datagrams that wait. `log` has all that was taken from the
calls, `got` and `popped` what the readers took out; nothing reads these three. -/
structure Traffic where
  world : World
  ring : EndSlot → List U8 := fun _ => []
  rx : SockSlot → List (List U8) := fun _ => []
  log : List Arrival := []
  got : EndSlot → List U8 := fun _ => []
  popped : SockSlot → List (List U8) := fun _ => []

/-- What the sender says and finds: the address, peer_gone, whether packet_from has a buffer
and socket_queue takes the datagram. -/
structure Attempt where
  addr : Option Address := none
  addrlen : U32 := 0
  gone : Bool := false
  packet : Bool := true
  queued : Bool := true

namespace Traffic

/-- Where a datagram goes. -/
def recipient (t : Table) (u : EndSlot) (x : Attempt) : Except Errno SockSlot := do
  let dest ← if x.addr.isNone then pure (t.ends u).peer else
    match Unix.readPath x.addr x.addrlen with
    | none => throw .einval
    | some path => pure (Unix.find t path .dgram)
  match dest.bind fun e => (t.ends e).sock with
  | none => throw (if x.addr.isSome then econnrefused else enotconn)
  | some k => pure k

/-- Besides the number of bytes the place they went to. The sockets and ends are made before;
a socket without an end finds none free. -/
def unixSend (d : Traffic) (t : Table) (k : SockSlot) (bytes : List U8) (x : Attempt) :
    Traffic × Except Errno (Nat × Place) :=
  match (t.sockets k).proto with
  | none => (d, .error enobufs)
  | some u =>
    if (d.world.sockets k).type ≠ .stream then
      match recipient t u x with
      | .error why => (d, .error why)
      | .ok dest =>
        if packetDataMax < bytes.length then (d, .error .emsgsize)
        else if !x.packet then (d, .error enobufs)
        else if !x.queued then (d, .error .eagain)
        else ({ d with rx := update d.rx dest (d.rx dest ++ [bytes]) },
          .ok (bytes.length, .queue dest))
    else match (t.ends u).peer with
      | none => (d, .error .epipe)
      | some peer =>
        let room := unixBufSize - (d.ring peer).length
        if x.gone then (d, .error .epipe)
        else if room = 0 then (d, .error .eagain)
        else
          let n := min bytes.length room
          ({ d with ring := update d.ring peer (d.ring peer ++ bytes.take n) }, .ok (n, .ring peer))

def unixRecv (d : Traffic) (t : Table) (k : SockSlot) (len : Nat) (peek gone : Bool) :
    Traffic × Except Errno (List U8) :=
  match (t.sockets k).proto with
  | none => (d, .error enobufs)
  | some u =>
    if (d.world.sockets k).type ≠ .stream then
      match d.rx k with
      | [] => (d, .error .eagain)
      | p :: rest => (if peek then d else
          { d with rx := update d.rx k rest, popped := update d.popped k (d.popped k ++ [p]) },
        .ok (p.take len))
    else
      let r := d.ring u
      if r = [] then
        (d, if gone then .ok [] else .error (if (t.ends u).peer.isSome then .eagain else enotconn))
      else (if peek then d else { d with
          ring := update d.ring u (r.drop len), got := update d.got u (d.got u ++ r.take len) },
        .ok (r.take len))

/-! ## Any processes, any order -/

inductive Act where
  | calls (e : Event)
  | send (x : Attempt)
  | recv (k : SockSlot) (len : Nat) (peek gone : Bool)

variable (t : Table)

/-- The act, and the event that it is for the calls. The call on the CPU sends first. -/
def act (d : Traffic) (a : Act) : Traffic × Option Event :=
  match d.world.onCpu.bind d.world.call, a with
  | some c, .send x =>
    let k := c.sendto.socket
    let bytes := d.world.offered c
    match d.unixSend t k bytes x with
    | (d, .error why) => (d, some (.answer (.refuses why)))
    | (d, .ok (n, place)) => ({ d with log := d.log ++ [⟨place, k, c.number, bytes.take n⟩] },
        some (.answer (.room (n - 1))))
  | none, .calls e => (d, some e)
  | none, .recv k len peek gone => ((d.unixRecv t k len peek gone).1, none)
  | _, _ => (d, none)

def step (d : Traffic) (a : Act) : Traffic :=
  { (d.act t a).1 with world := (d.act t a).2.elim d.world (Net.step d.world) }

end Traffic

/-! ## What the calls had taken -/

theorem begin_sockets (w : World) (p : Slot) (n : Nat) (job : Job) (f : Sendto) :
    (w.begin p n job f).sockets = w.sockets := by
  simp only [begin, giveUp, leaveSendfile]
  repeat' split
  all_goals rfl

theorem carryOn_sockets (w : World) (p : Slot) (c : Call) (r : Round) :
    (w.carryOn p c r).sockets = w.sockets := by
  simp only [carryOn, afterSendto, nextChunk, nextPiece, giveUp, leaveSendfile]
  repeat' split
  all_goals first | rfl | exact begin_sockets ..

theorem between_accepted (w : World) (e : Event) (s : SockSlot) :
    ((between w e).sockets s).accepted = (w.sockets s).accepted := by
  simp only [between, sysSendfile, sysSendmsg, sendfileToFile, nextChunk, nextPiece, leaveSendfile,
    World.wake]
  repeat' split
  all_goals try first | rfl | rw [begin_sockets]; rfl | rw [carryOn_sockets]
  rename_i k _ _ _
  by_cases here : s = k <;> simp [here]

namespace Traffic

/-! ## What the readers get -/

/-- What the sockets took of the calls is what came to the places, and what the readers took
out there and what still waits is all that came, in its order. -/
structure Received (d : Traffic) : Prop where
  sent : ∀ s, (d.world.sockets s).accepted =
    (d.log.filter (·.sender == s)).map fun a => (a.number, a.bytes)
  ring : ∀ e, d.got e ++ d.ring e = (d.log.filter (·.place == .ring e)).flatMap (·.bytes)
  queue : ∀ k, d.popped k ++ d.rx k = (d.log.filter (·.place == .queue k)).map (·.bytes)

/-- What unix_send can do. -/
inductive Sends (d : Traffic) (k : SockSlot) (bytes : List U8) :
    Traffic × Except Errno (Nat × Place) → Prop where
  | refused (why : Errno) : Sends d k bytes (d, .error why)
  | stream (peer : EndSlot) (n more : Nat) (type : (d.world.sockets k).type = .stream)
      (room : n = min bytes.length (more + 1)) :
      Sends d k bytes ({ d with ring := update d.ring peer (d.ring peer ++ bytes.take n) },
        .ok (n, .ring peer))
  | datagram (dest : SockSlot) (type : (d.world.sockets k).type ≠ .stream) :
      Sends d k bytes ({ d with rx := update d.rx dest (d.rx dest ++ [bytes]) },
        .ok (bytes.length, .queue dest))

variable {t} {d : Traffic} {p : Slot} {c : Call}

theorem unixSend_sends (d : Traffic) (t : Table) (k : SockSlot) (bytes : List U8) (x : Attempt) :
    Sends d k bytes (d.unixSend t k bytes x) := by
  unfold unixSend
  split
  · exact .refused _
  split
  · next type =>
    repeat' split
    all_goals first | exact .refused _ | exact .datagram _ type
  · next type =>
    split
    · exact .refused _
    dsimp only
    split
    · exact .refused _
    split
    · exact .refused _
    · next room => exact .stream _ _ _ (not_not.mp type) (by rw [Nat.sub_one_add_one room])

theorem Received.send (h : Received d) (called : d.world.onCpu.bind d.world.call = some c)
    (x : Attempt) : Received (d.step t (.send x)) := by
  obtain ⟨p, cpu, here⟩ := Option.bind_eq_some_iff.mp called
  -- what the socket notes is what the call is told
  have sent {place : Place} {n : Nat} (count : (Answer.room (n - 1)).result
      (d.world.sockets c.sendto.socket).type (d.world.offered c).length = .ok n) (s : SockSlot) :
      ((Net.step d.world (.answer (.room (n - 1)))).sockets s).accepted =
        ((d.log ++ [Arrival.mk place c.sendto.socket c.number ((d.world.offered c).take n)]).filter
          (·.sender == s)).map fun a => (a.number, a.bytes) := by
    simp only [Net.step, cpu, here, answer, count, carryOn_sockets]
    by_cases own : s = c.sendto.socket
    · subst own
      simpa [accept, Socket.accept] using h.sent _
    · simpa [accept, own, Ne.symm own] using h.sent s
  have sends := d.unixSend_sends t c.sendto.socket (d.world.offered c) x
  simp only [Traffic.step, act, called]
  generalize d.unixSend t c.sendto.socket (d.world.offered c) x = out at sends
  cases sends with
  | refused why =>
    refine ⟨fun s => ?_, h.ring, h.queue⟩
    simpa [Net.step, cpu, here, answer, Answer.result, carryOn_sockets] using h.sent s
  | stream peer n more type room =>
    refine ⟨sent ?_, fun e => ?_, fun k => by simpa using h.queue k⟩
    · simp only [Answer.result, type, if_true]
      congr 1
      omega
    · by_cases own : e = peer
      · subst own
        simp [← h.ring]
      · simpa [own, Ne.symm own] using h.ring e
  | datagram dest type =>
    refine ⟨sent (by simp [Answer.result, type]), fun e => by simpa using h.ring e, fun k => ?_⟩
    by_cases own : k = dest
    · subst own
      simp [← h.queue]
    · simpa [own, Ne.symm own] using h.queue k

theorem Received.recv (h : Received d) (k : SockSlot) (len : Nat) (peek gone : Bool) :
    Received { (d.unixRecv t k len peek gone).1 with world := d.world } := by
  unfold unixRecv
  split
  · exact h
  rename_i u _
  split
  · cases waits : d.rx k with
    | nil => exact h
    | cons p rest =>
      dsimp only
      split
      · exact h
      refine ⟨h.sent, h.ring, fun k' => ?_⟩
      by_cases own : k' = k
      · subst own
        simpa [waits] using h.queue k'
      · simpa [own] using h.queue k'
  · dsimp only
    split
    · exact h
    dsimp only
    split
    · exact h
    refine ⟨h.sent, fun e => ?_, h.queue⟩
    by_cases own : e = u
    · subst own
      simpa using h.ring e
    · simpa [own] using h.ring e

theorem Received.step (h : Received d) (a : Act) : Received (d.step t a) := by
  cases called : d.world.onCpu.bind d.world.call with
  | some c =>
    cases a with
    | send x => exact h.send called x
    | _ =>
      simp only [Traffic.step, act, called]
      exact h
  | none =>
    simp only [Traffic.step, act, called]
    cases a with
    | calls e =>
      refine ⟨fun s => Eq.trans ?_ (h.sent s), h.ring, h.queue⟩
      show ((Net.step d.world e).sockets s).accepted = _
      unfold Net.step
      cases cpu : d.world.onCpu with
      | none => exact between_accepted d.world e s
      | some p => cases e <;> simp_all
    | send => exact h
    | recv k len peek gone => exact h.recv k len peek gone

end Traffic

open Traffic

abbrev runUnix (t : Table) (d : Traffic) (acts : List Act) : Traffic :=
  Runs.run (Traffic.step t) d acts

/-- In each step nobody gathers a datagram while another one waits, and no socket that took
part of a piece has room when it is offered the next. -/
def orderly (w : World) (e : Event) : Bool := gatherFree w e && noGap w e

def orderlyAct (t : Table) (d : Traffic) (a : Act) : Bool := (d.act t a).2.all (orderly d.world)

theorem step_orderly {w : World} {e : Event} (h : Intact .stream w ∧ Intact .datagram w)
    (ok : orderly w e) : Intact .stream (step w e) ∧ Intact .datagram (step w e) := by
  obtain ⟨free, closed⟩ := Bool.and_eq_true_iff.mp ok
  exact ⟨step_intact h.1 e closed, step_intact h.2 e free⟩

/-- Along every orderly run what the sockets take of a message is its pieces in order, whatever
the protocols say; and behind AF_UNIX sockets that is what the readers get. -/
theorem sendmsg_integrity {w : World} (quiet : w.Quiet) :
    (∀ events, everyStep orderly w events = true → MessagesIntact (run w events)) ∧
    ∀ t acts, Runs.everyStep (Traffic.step t) (orderlyAct t) { world := w } acts = true →
      MessagesIntact (runUnix t { world := w } acts).world ∧
        Received (runUnix t { world := w } acts) := by
  have start : Intact .stream w ∧ Intact .datagram w := ⟨quiet.intact _, quiet.intact _⟩
  constructor
  · intro events ok
    have kept := Runs.run_keeps (P := fun w => Intact .stream w ∧ Intact .datagram w)
      (fun _ _ => step_orderly) start events ok
    exact .of_intact kept.1 kept.2
  · intro t acts ok
    have empty : Received { world := w } :=
      ⟨fun s => by simpa using quiet.sockets s, fun _ => rfl, fun _ => rfl⟩
    have kept := Runs.run_keeps
      (P := fun d : Traffic => (Intact .stream d.world ∧ Intact .datagram d.world) ∧ Received d)
      (fun d a h ok => ⟨?_, h.2.step a⟩) ⟨start, empty⟩ acts ok
    · exact ⟨.of_intact kept.1.1 kept.1.2, kept.2⟩
    · unfold orderlyAct at ok
      unfold Traffic.step
      cases event : (d.act t a).2 with
      | none => exact h.1
      | some e => exact step_orderly h.1 (by simpa [event] using ok)

/-- Sockets 0 and 1 are connected, and 2 and 3. -/
def pairs : Table where
  sockets k := { used := true, proto := some (.ofNat 16 k) }
  ends e := { used := true, sock := some (.ofNat 32 e),
              peer := some (if e.val % 2 = 0 then e + 1 else e - 1) }

def sendmsgOn (p : Slot) (fd : Int) (pieces : List (List U8)) : Act :=
  .calls (.sendmsg p fd ⟨pieces, 0⟩ false)

/-- The queue of socket 3 is full. -/
def datagramWaits : List Act := [sendmsgOn 0 5 [[1], [2]], .send { queued := false }]

def otherDatagram : List Act := [sendmsgOn 1 5 [[5, 6]], .send {}]

def datagramGoes : List Act := [.calls (.wake 0 true), .send {}, .recv 3 100 false false]

theorem messages_read :
    let d := runUnix pairs { world := twoSenders } (datagramWaits ++ datagramGoes ++ otherDatagram)
    d.popped 3 = [[1, 2]] ∧ d.rx 2 = [[5, 6]] ∧ MessagesIntact d.world ∧ Received d :=
  ⟨by decide +kernel, by decide +kernel,
    (sendmsg_integrity twoSenders_quiet).2 pairs _ (by decide +kernel)⟩

/-- A ring with room for one byte takes half of a piece; a reader makes room, and a signal
ends the sleep. -/
def pieceCut : List Act :=
  [sendmsgOn 0 4 [[1, 2], [3, 4]], .send {}, .send {}, .recv 1 4095 false false,
   .calls (.wake 0 false), .send {}]

theorem message_mixed_and_message_cut :
    let mixed := runUnix pairs { world := twoSenders }
      (datagramWaits ++ otherDatagram ++ datagramGoes)
    let cut := runUnix pairs { world := twoSenders, ring := fun _ => replicate 4095 0 } pieceCut
    mixed.popped 3 = [[5, 6]] ∧ cut.ring 1 = [1, 3, 4] := by
  decide +kernel

end UzOS.Net
