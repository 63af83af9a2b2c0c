import UzOS.Tcp.Hear
import UzOS.Tcp.Cookies

/-! Two connections joined by a network that drops, duplicates and reorders:
what one program reads is what the other one's tcp_send accepted. -/
namespace UzOS.Tcp

open Bool List

/-- One end: its connection, the secret of its SYN cookies, what its program had
accepted and has read, and every segment it ever sent, any of which the network may
deliver again. -/
structure Endpoint where
  conn : Conn
  cookies : Cookies
  chosen : Bool
  opened : Bool
  iss : U32
  accepted : List U8
  read : List U8
  wire : List Seg

def Endpoint.fresh : Endpoint := ⟨.zero, ⟨0⟩, false, false, 0, [], [], []⟩

/-- What may happen at an end. `k` picks a segment the other end has sent.
An end opens once: by tcp_connect, by a SYN for its listener, or by an ACK that
the listener takes for the answer to a SYN cookie. -/
inductive Action where
  | connect (now uid : U32) (sock : Nat) (bindIp : U32) (bindPort : U16) (ip : U32) (port : U16)
      (route : Option U32) (ephemeral : Option U16) (isn : U32)
  | child (now : U32) (l : Conn) (slot : Nat) (isn : U32) (k : Nat)
  | cookie (tsc now : U32) (l : Conn) (k : Nat)
  | cookieChild (tsc now : U32) (l : Conn) (slot : Nat) (k : Nat)
  | accept (sock : Nat)
  | deliver (now : U32) (k : Nat)
  | send (now : U32) (buf : List U8)
  | shutdownWrite (now : U32)
  | close (now : U32)
  | tick (now : U32)
  | recv (len : Nat)
  | peek (len : Nat)

variable (e : Endpoint)

/-- The end after a function ran on its connection. -/
def Endpoint.after (r : Reply) : Endpoint :=
  { e with conn := r.conn, wire := e.wire ++ r.sent }

def Endpoint.connect (now : U32) (c : Conn) (ip : U32) (port : U16)
    (route : Option U32) (ephemeral : Option U16) (isn : U32) : Endpoint :=
  if !e.chosen && c.opens route ephemeral then
    { e.after (tcpConnect now c ip port route ephemeral isn).2 with
      chosen := true, opened := true, iss := isn }
  else e

/-- A SYN for the listener at this end, with room in its queue. -/
def Endpoint.child (now : U32) (l : Conn) (slot : Nat) (isn : U32) (s : Seg) : Endpoint :=
  if !e.opened && !s.has tcpRst && !s.has tcpAck && s.has tcpSyn then
    { e.after (newChild now l slot isn s) with chosen := true, opened := true, iss := isn }
  else e

/-- A SYN for the listener with a full queue: the SYN-ACK's number is the
cookie, and nothing else is remembered. -/
def Endpoint.cookie (tsc now : U32) (l : Conn) (s : Seg) : Endpoint :=
  if !e.opened && !s.has tcpRst && !s.has tcpAck && s.has tcpSyn then
    let (isn, cookies) := e.cookies.forSyn tsc now l s
    { e with
      chosen := true, iss := isn, cookies
      wire := e.wire ++ [sendRaw s.dstIp s.srcIp l.localPort s.srcPort isn (s.seq + 1)
        (tcpSyn ||| tcpAck) (BitVec.ofNat 16 tcpBufSize) true []] }
  else e

/-- An ACK for the listener opens if its numbers pass for a cookie and its SYN. -/
def Endpoint.cookieChild (tsc now : U32) (l : Conn) (slot : Nat) (s : Seg) : Endpoint :=
  if !e.opened && !s.has tcpRst && s.has tcpAck then
    let (mss, cookies) := e.cookies.forAck tsc now l s
    if mss = 0 then { e with cookies }
    else { e.after (Tcp.cookieChild now l slot mss s) with
      chosen := true, opened := true, iss := s.ack - 1, cookies }
  else e

/-- tcp_accept hands a child to its own socket. -/
def Endpoint.accept (sock : Nat) : Endpoint :=
  if e.conn.used && e.conn.listener.isSome && e.conn.sock.isNone &&
      (e.conn.state == .established || e.conn.state == .closeWait) then
    { e with conn := { e.conn with listener := none, sock := some sock } }
  else e

/-- A call on a connection that is in use. -/
def Endpoint.call (e after : Endpoint) : Endpoint := if e.conn.used then after else e

def Endpoint.act (e peer : Endpoint) : Action → Endpoint
  | .connect now uid sock bindIp bindPort ip port route ephemeral isn =>
    e.connect now (socketConn now uid sock bindIp bindPort) ip port route ephemeral isn
  | .child now l slot isn k => peer.wire[k]?.elim e (e.child now l slot isn)
  | .cookie tsc now l k => peer.wire[k]?.elim e (e.cookie tsc now l)
  | .cookieChild tsc now l slot k => peer.wire[k]?.elim e (e.cookieChild tsc now l slot)
  | .accept sock => e.accept sock
  | .deliver now k => peer.wire[k]?.elim e fun s =>
    if e.opened then e.after (tcpReceive now e.conn s) else e
  | .send now buf => e.call
    { e.after (tcpSend now e.conn buf).2 with
      accepted := e.accepted ++ sentBytes (tcpSend now e.conn buf).1 buf }
  | .shutdownWrite now => e.call (e.after (tcpShutdownWrite now e.conn))
  | .close now => e.call (e.after (tcpClose now e.conn))
  | .tick now => e.call (e.after (tcpTick now e.conn))
  | .recv len => e.call
    { e.after (tcpRecv e.conn len false).2.2 with read := e.read ++ (tcpRecv e.conn len false).2.1 }
  | .peek len => e.call (e.after (tcpRecv e.conn len true).2.2)

inductive Side where
  | left | right
  deriving DecidableEq, Repr

def Side.other : Side → Side
  | .left => .right
  | .right => .left

def Net := Side → Endpoint

def Net.step (w : Net) (a : Side × Action) : Net := fun j =>
  if j = a.1 then (w a.1).act (w a.1.other) a.2 else w j

def Net.run (actions : List (Side × Action)) : Net :=
  Runs.run Net.step (fun _ => Endpoint.fresh) actions

/-- An end that has sent its number keeps it, and what opens it by a cookie stands right
behind the SYN of the other end. -/
def Net.inTurn (w : Net) (a : Side × Action) : Bool :=
  let e := w a.1
  let after := w.step a a.1
  (!e.chosen || after.iss == e.iss) && match a.2 with
  | .cookieChild _ _ _ _ k => e.opened || !after.opened ||
    (w a.1.other).wire[k]?.all (·.seq - 1 == (w a.1.other).iss)
  | _ => true

/-! One end. -/

/-- An end that is not open yet has sent at most cookies. -/
structure Sender (e : Endpoint) : Prop where
  speaks : Speaks e.iss e.accepted e.conn e.wire
  unopened : e.opened = false → e.conn = Conn.zero ∧ e.accepted = [] ∧ e.read = [] ∧
    ∀ s ∈ e.wire, s.data = [] ∧ s.has tcpFin = false
  unchosen : e.chosen = false → e.opened = false ∧ e.wire = []

/-- Where the stream of an end starts, once it has chosen its number. -/
def Endpoint.starts (irs : U32) : Prop := e.chosen = true ∧ irs = e.iss

variable {s : Seg}

theorem Sender.chosen_of_sent {e : Endpoint} (h : Sender e) (sent : s ∈ e.wire) : e.chosen := by
  cases chosen : e.chosen with
  | true => rfl
  | false =>
    rw [(h.unchosen chosen).2] at sent
    cases sent

theorem Sender.starts {e : Endpoint} (h : Sender e) (sent : s ∈ e.wire)
    (syn : s.has tcpSyn) : e.starts s.seq :=
  ⟨h.chosen_of_sent sent, (h.speaks.wire s sent).syn syn⟩

/-- What the other end can rely on while this one goes on. -/
structure Extends (e e' : Endpoint) : Prop where
  starts : ∀ irs, e.starts irs → e'.starts irs
  wire : e.wire ⊆ e'.wire

theorem Extends.refl : Extends e e := ⟨fun _ h => h, List.Subset.refl _⟩

/-- One end acts: its own invariants, and what the other end relies on. -/
structure Acts (e peer e' : Endpoint) : Prop where
  sender : Sender e'
  extends_ : Extends e e'
  hears : Hears peer.starts peer.wire e'.conn e'.read

section
variable {e peer : Endpoint}

/-- A function of the open connection ran. -/
theorem Sender.acts (h : Sender e) (opened : e.opened) {r : Reply} {acc read : List U8}
    (k : Emits e.iss acc e.conn r) (grows : e.accepted <+: acc)
    (none : e.conn.frozen → acc = e.accepted)
    (hears : Hears peer.starts peer.wire r.conn read) :
    Acts e peer { e.after r with accepted := acc, read := read } := by
  refine ⟨⟨h.speaks.emits k grows none, ?_, ?_⟩, ⟨fun _ h => h, subset_append_left _ _⟩, hears⟩
  · intro closed
    cases opened.symm.trans closed
  · intro unchosen
    cases opened.symm.trans (h.unchosen unchosen).1

/-- What an end sent before it is open carries nothing but its number. -/
theorem Sender.carries (h : Sender e) (closed : e.opened = false) {iss : U32}
    (same : e.chosen → iss = e.iss) {acc : List U8} {frozen : Bool} (old : s ∈ e.wire) :
    Carries iss acc frozen s := by
  obtain ⟨-, -, -, empty⟩ := h.unopened closed
  obtain ⟨data, noFin⟩ := empty s old
  refine ⟨fun syn => ?_, fun n => absurd data n, fun f => by cases noFin.symm.trans f⟩
  obtain ⟨chosen, seq⟩ := h.starts old syn
  exact seq.trans (same chosen).symm

/-- An end opens: nothing was accepted. -/
theorem Sender.opens (h : Sender e) (closed : e.opened = false) {c : Conn} {r : Reply} {iss : U32}
    {cookies : Cookies} (same : e.chosen → iss = e.iss) (k : Emits iss [] c r)
    (hears : Hears peer.starts peer.wire r.conn []) :
    Acts e peer { e.after r with chosen := true, opened := true, iss, cookies } := by
  obtain ⟨-, accepted, read, -⟩ := h.unopened closed
  refine ⟨⟨⟨?_, ?_⟩, nofun, nofun⟩, ⟨?_, subset_append_left _ _⟩, ?_⟩
  · show r.conn.used = false ∨ Sending iss e.accepted r.conn
    rw [accepted]
    exact k.live
  · intro s member
    show Carries iss e.accepted _ s
    rw [accepted]
    rcases mem_append.mp member with old | new
    · exact h.carries closed same old
    · exact k.wire s new
  · rintro irs ⟨chosen, at_⟩
    exact ⟨rfl, at_.trans (same chosen).symm⟩
  · show Hears peer.starts peer.wire r.conn e.read
    rw [read]
    exact hears

variable (h : Sender e) (r : Hears peer.starts peer.wire e.conn e.read)
include h r

theorem stay_acts : Acts e peer e := ⟨h, .refl e, r⟩

theorem connect_acts (now uid : U32) (sock : Nat) (bindIp : U32) (bindPort : U16) (ip : U32)
    (port : U16) (route : Option U32) (ephemeral : Option U16) (isn : U32) :
    Acts e peer
      (e.connect now (socketConn now uid sock bindIp bindPort) ip port route ephemeral isn) := by
  unfold Endpoint.connect
  split
  · rename_i opens
    rw [and_eq_true, not_eq_true'] at opens
    obtain ⟨fresh, opens⟩ := opens
    obtain ⟨d, reply, used, error, tx, rx⟩ := tcpConnect_opens now ip port isn opens
    have emits := openActive_emits (c := d) now isn used (by rw [error]; exact Int.le_refl 0)
      (by rw [tx]; rfl) (by rw [tx]; rfl)
    have kept : (openActive now d isn).conn.rx = Conn.zero.rx := (armTimer_keeps now _).rx.trans rx
    rw [reply]
    refine h.opens (h.unchosen fresh).1 (fun e => by cases fresh.symm.trans e) emits ?_
    refine .idle (by rw [kept]; rfl) (by rw [kept]; rfl) rfl (.inr ?_)
    exact congrArg State.idle (armTimer_state now _).1
  · exact stay_acts h r

theorem child_acts (p : Sender peer) (sent : s ∈ peer.wire) (now : U32) (l : Conn)
    (slot : Nat) (isn : U32) (same : e.chosen → (e.child now l slot isn s).iss = e.iss) :
    Acts e peer (e.child now l slot isn s) := by
  unfold Endpoint.child at same ⊢
  split
  · rename_i opens
    rw [if_pos opens] at same
    simp only [and_eq_true, not_eq_true'] at opens
    obtain ⟨⟨⟨closed, -⟩, -⟩, syn⟩ := opens
    exact h.opens closed same (newChild_emits now l slot isn s)
      (newChild_hears (p.starts sent syn) now l slot isn)
  · exact stay_acts h r

theorem cookie_acts (tsc now : U32) (l : Conn) (s : Seg)
    (same : e.chosen → (e.cookie tsc now l s).iss = e.iss) :
    Acts e peer (e.cookie tsc now l s) := by
  unfold Endpoint.cookie at same ⊢
  split
  · rename_i offers
    rw [if_pos offers] at same
    simp only [and_eq_true, not_eq_true'] at offers
    have closed := offers.1.1.1
    obtain ⟨zero, accepted, read, empty⟩ := h.unopened closed
    have noFin : flagSet (tcpSyn ||| tcpAck) tcpFin = false := rfl
    refine ⟨⟨⟨.inl (by rw [zero]; rfl), ?_⟩, fun _ => ⟨zero, accepted, read, ?_⟩, nofun⟩,
      ⟨?_, subset_append_left _ _⟩, r⟩
    · intro t member
      rcases mem_append.mp member with old | new
      · exact h.carries closed same old
      · rw [mem_singleton.mp new]
        exact ⟨fun _ => rfl, fun n => absurd rfl n, fun fin => by cases noFin.symm.trans fin⟩
    · intro t member
      rcases mem_append.mp member with old | new
      · exact empty t old
      rw [mem_singleton.mp new]
      exact ⟨rfl, noFin⟩
    · rintro irs ⟨chosen, at_⟩
      exact ⟨rfl, at_.trans (same chosen).symm⟩
  · exact stay_acts h r

theorem cookieChild_acts (p : Sender peer) (sent : s ∈ peer.wire) (tsc now : U32)
    (l : Conn) (slot : Nat) (same : e.chosen → (e.cookieChild tsc now l slot s).iss = e.iss)
    (behind : e.opened = false → (e.cookieChild tsc now l slot s).opened → s.seq - 1 = peer.iss) :
    Acts e peer (e.cookieChild tsc now l slot s) := by
  unfold Endpoint.cookieChild at same behind ⊢
  split
  · rename_i asked
    rw [if_pos asked] at same behind
    simp only [and_eq_true, not_eq_true'] at asked
    dsimp only at same behind ⊢
    split
    · exact ⟨⟨h.speaks, h.unopened, h.unchosen⟩, ⟨fun _ h => h, List.Subset.refl _⟩, r⟩
    rename_i passes
    rw [if_neg passes] at same behind
    refine h.opens asked.1.1 same (cookieChild_emits now l slot _ s) ?_
    exact cookieChild_hears sent ⟨p.chosen_of_sent sent, behind asked.1.1 rfl⟩ now l slot _
  · exact stay_acts h r

theorem accept_acts (sock : Nat) : Acts e peer (e.accept sock) := by
  unfold Endpoint.accept
  split
  · rename_i ready
    have used : e.conn.used := by
      simp only [and_eq_true] at ready
      exact ready.1.1.1
    have live := h.speaks.sending used
    refine ⟨⟨⟨.inr (live.same rfl rfl rfl rfl fun _ => rfl), h.speaks.wire⟩, ?_, h.unchosen⟩,
      ⟨fun _ h => h, List.Subset.refl _⟩, r.keeps (.inr ⟨rfl, rfl, .refl _⟩)⟩
    intro closed
    rw [(h.unopened closed).1] at used
    cases used
  · exact stay_acts h r

/-- A call of the program, or a timer, on a connection in use. -/
theorem call_acts {after : Endpoint}
    (acts : Sending e.iss e.accepted e.conn → e.opened → Acts e peer after) :
    Acts e peer (e.call after) := by
  unfold Endpoint.call
  split
  · rename_i used
    apply acts (h.speaks.sending used)
    cases opened : e.opened with
    | true => rfl
    | false =>
      rw [(h.unopened opened).1] at used
      cases used
  · exact stay_acts h r

/-- A call that accepts no bytes and takes nothing in. -/
theorem quietCall_acts {reply : Reply}
    (emits : Sending e.iss e.accepted e.conn → Emits e.iss e.accepted e.conn reply)
    (keeps : KeepsOrFrees e.conn reply.conn) : Acts e peer (e.call (e.after reply)) :=
  call_acts h r fun sending opened =>
    h.acts opened (emits sending) (prefix_refl _) (fun _ => rfl) (r.keeps keeps)

theorem act_acts (p : Sender peer) (a : Action)
    (same : e.chosen → (e.act peer a).iss = e.iss)
    (behind : ∀ tsc now l slot k s, a = .cookieChild tsc now l slot k → peer.wire[k]? = some s →
      e.opened = false → (e.cookieChild tsc now l slot s).opened → s.seq - 1 = peer.iss) :
    Acts e peer (e.act peer a) := by
  have arrival {k : Nat} {f : Seg → Endpoint}
      (taken : ∀ s ∈ peer.wire, peer.wire[k]? = some s → Acts e peer (f s)) :
      Acts e peer (peer.wire[k]?.elim e f) := by
    cases at_ : peer.wire[k]? with
    | none => exact stay_acts h r
    | some s => exact taken s (mem_of_getElem? at_) at_
  cases a with
  | connect now uid sock bindIp bindPort ip port route ephemeral isn =>
    exact connect_acts h r now uid sock bindIp bindPort ip port route ephemeral isn
  | child now l slot isn k =>
    refine arrival fun s sent at_ => child_acts h r p sent now l slot isn ?_
    simpa only [Endpoint.act, at_, Option.elim] using same
  | cookie tsc now l k =>
    refine arrival fun s _ at_ => cookie_acts h r tsc now l s ?_
    simpa only [Endpoint.act, at_, Option.elim] using same
  | cookieChild tsc now l slot k =>
    refine arrival fun s sent at_ => cookieChild_acts h r p sent tsc now l slot ?_
      (behind tsc now l slot k s rfl at_)
    simpa only [Endpoint.act, at_, Option.elim] using same
  | accept sock => exact accept_acts h r sock
  | deliver now k =>
    refine arrival fun s sent _ => ?_
    split
    · rename_i opened
      exact h.acts opened (tcpReceive_emits h.speaks.live now s) (prefix_refl _) (fun _ => rfl)
        (r.deliver sent (p.starts sent) now)
    · exact stay_acts h r
  | send now buf =>
    refine call_acts h r fun sending opened => ?_
    obtain ⟨emits, none⟩ := tcpSend_emits sending now buf
    exact h.acts opened emits (prefix_append _ _)
      (fun frozen => by rw [none frozen, append_nil])
      (r.keeps (.inr (tcpSend_keeps now e.conn buf)))
  | shutdownWrite now =>
    exact quietCall_acts h r (fun sending => tcpShutdownWrite_emits sending now)
      (.inr (tcpShutdownWrite_keeps now e.conn))
  | close now =>
    exact quietCall_acts h r (fun sending => tcpClose_emits sending now) (tcpClose_keeps now e.conn)
  | tick now =>
    exact quietCall_acts h r (fun sending => tcpTick_emits sending now) (tcpTick_keeps now e.conn)
  | recv len =>
    exact call_acts h r fun sending opened =>
      h.acts opened (tcpRecv_emits sending len false) (prefix_refl _) (fun _ => rfl) (r.recv len)
  | peek len =>
    refine quietCall_acts h r (fun sending => tcpRecv_emits sending len true) (.inr ?_)
    rw [tcpRecv_peek]
    exact Keeps.refl _

end

/-! Runs. -/

def Agree (w : Net) : Prop :=
  ∀ i : Side, Sender (w i) ∧
    Hears (w i.other).starts (w i.other).wire (w i).conn (w i).read

theorem fresh_agree : Agree fun _ => Endpoint.fresh := by
  intro i
  refine ⟨⟨⟨.inl rfl, fun s m => (by cases m)⟩, fun _ => ⟨rfl, rfl, rfl, fun s m => (by cases m)⟩,
    fun _ => ⟨rfl, rfl⟩⟩, .idle rfl rfl rfl (.inl rfl)⟩

theorem step_agree (w : Net) (a : Side × Action) (h : Agree w) (turn : w.inTurn a) :
    Agree (w.step a) := by
  obtain ⟨i, a⟩ := a
  have own : w.step (i, a) i = (w i).act (w i.other) a := if_pos rfl
  simp only [Net.inTurn, own, and_eq_true, or_eq_true, not_eq_true', beq_iff_eq] at turn
  obtain ⟨kept, behind⟩ := turn
  have acts : Acts (w i) (w i.other) ((w i).act (w i.other) a) := by
    refine act_acts (h i).1 (h i).2 (h i.other).1 a ?_ ?_
    · intro chosen
      exact kept.resolve_left (by simp [chosen])
    · rintro tsc now l slot k s rfl at_ closed opens
      simpa [Endpoint.act, at_, closed, opens] using behind
  have others : w.step (i, a) i.other = w i.other := if_neg (show i.other ≠ i by cases i <;> decide)
  have back : i.other.other = i := by cases i <;> rfl
  intro j
  by_cases same : j = i
  · subst same
    rw [own, others]
    exact ⟨acts.sender, acts.hears⟩
  have j_other : j = i.other := by cases i <;> cases j <;> simp_all [Side.other]
  subst j_other
  rw [back, own, others]
  have received := (h i.other).2
  rw [back] at received
  exact ⟨(h i.other).1, received.more acts.extends_.starts acts.extends_.wire⟩

theorem run_agree (actions : List (Side × Action))
    (turn : Runs.everyStep Net.step Net.inTurn (fun _ => Endpoint.fresh) actions) :
    Agree (Net.run actions) :=
  Runs.run_keeps step_agree fresh_agree actions turn

/-- Whatever both programs, the timers and the network do: what one end's
program has read is a prefix of what the other end's tcp_send accepted, and a
FIN is received only behind all of it. -/
theorem stream_agreement (actions : List (Side × Action)) (receiver : Side)
    (turn : Runs.everyStep Net.step Net.inTurn (fun _ => Endpoint.fresh) actions = true)
    (short : (Net.run actions receiver.other).accepted.length < 2 ^ 31) :
    let r := Net.run actions receiver
    let s := Net.run actions receiver.other
    r.read ++ r.conn.unread <+: s.accepted ∧
      (r.conn.rx.finReceived = true → r.read ++ r.conn.unread = s.accepted) := by
  intro r s
  have nothing (empty : r.conn.rx.rcvLen = 0) (noFin : r.conn.rx.finReceived = false)
      (text : r.read <+: s.accepted) : r.read ++ r.conn.unread <+: s.accepted ∧
      (r.conn.rx.finReceived = true → r.read ++ r.conn.unread = s.accepted) := by
    have none : r.conn.unread = [] := eq_nil_of_length_eq_zero ((unread_length _).trans empty)
    refine ⟨by rw [none, append_nil]; exact text, fun e => ?_⟩
    cases noFin.symm.trans e
  have agrees (seg : Seg) (sent : seg ∈ s.wire) : Agrees s.iss s.accepted seg :=
    ((run_agree actions turn receiver.other).1.speaks.wire seg sent).agrees
  cases (run_agree actions turn receiver).2 with
  | idle empty noFin none _ => exact nothing empty noFin (by rw [none]; exact nil_prefix)
  | gone freed begins text =>
    obtain ⟨-, rfl⟩ := begins
    exact nothing (by rw [freed.rx]; rfl) (by rw [freed.rx]; rfl) (text.agrees short agrees)
  | stream begins _ traced =>
    obtain ⟨-, rfl⟩ := begins
    exact traced.agrees short agrees

/-- A SYN that is answered with a cookie, 15 bytes and a FIN. The listener's end is opened
by segment `k` of the client. -/
def cookieExchange (k : Nat) : List (Side × Action) :=
  let l := { Conn.zero with state := .listen, localPort := 80 }
  [(.left, .connect 0 0 1 0x0a000202 4000 0x0a00020f 80 (some 0x0a000202) none 7242600),
   (.right, .cookie 0 1 l 0), (.left, .deliver 2 0),
   (.left, .send 3 [1, 2, 3, 4, 5, 6, 7, 8, 9, 10, 11, 12]), (.left, .send 4 [13, 14, 15]),
   (.right, .cookieChild 0 5 l 0 k), (.right, .accept 2), (.right, .recv 10),
   (.right, .deliver 6 3), (.left, .shutdownWrite 7), (.right, .deliver 8 4)]

theorem stream_agreement_cookie :
    (Net.run (cookieExchange 2) .right).read = [1, 2, 3, 4, 5, 6, 7, 8, 9, 10] ∧
    (Net.run (cookieExchange 2) .right).conn.rx.finReceived = true ∧
    (Net.run (cookieExchange 2) .right).read ++ (Net.run (cookieExchange 2) .right).conn.unread =
      (Net.run (cookieExchange 2) .left).accepted := by
  refine ⟨by decide +kernel, by decide +kernel, ?_⟩
  exact (stream_agreement (cookieExchange 2) .right (by decide +kernel) (by decide +kernel)).2
    (by decide +kernel)

/-- The cookie of 7242600 is that of 7242612 too, so the segment 12 bytes further on passes
for the answer, and the bytes before it are never read. -/
theorem cookie_loses_bytes :
    let w := Net.run (cookieExchange 3)
    (w .left).accepted = [1, 2, 3, 4, 5, 6, 7, 8, 9, 10, 11, 12, 13, 14, 15] ∧
      (w .right).read = [13, 14, 15] ∧ (w .right).conn.rx.finReceived = true := by
  decide +kernel

end UzOS.Tcp
