import UzOS.Tcp.Hear

/-! A socket that connects again: its connection ended but is still held, and
the next connect() reuses the slot as it is. -/
namespace UzOS.Tcp

open List

/-- What is left of a connection that ended (reset, refused, timed out or
finished) while a socket held it. -/
def Ended (c : Conn) : Prop :=
  ∃ (now : U32) (before : Conn) (error : Int), before.used = true ∧ before.sock.isSome = true ∧
    0 ≤ error ∧ c = (tcpFinish now before error).conn

/-- A socket's connection and what happened since the last connect() that
opened it: bytes accepted and read, segments sent, and those that arrived from
its peer. `just` says that nothing happened since. -/
structure Socket where
  conn : Conn
  connected : Bool
  just : Bool
  iss : U32
  accepted : List U8
  read : List U8
  sent : List Seg
  arrived : List Seg

def Socket.hold (c : Conn) : Socket := ⟨c, false, false, 0, [], [], [], []⟩

inductive Call where
  | connect (now ip : U32) (port : U16) (route : Option U32) (ephemeral : Option U16) (isn : U32)
  | deliver (now : U32) (s : Seg)
  | send (now : U32) (buf : List U8)
  | shutdownWrite (now : U32)
  | close (now : U32)
  | tick (now : U32)
  | recv (len : Nat)
  | peek (len : Nat)

def Socket.after (w : Socket) (r : Reply) : Socket :=
  { w with conn := r.conn, just := false, sent := w.sent ++ r.sent }

def Socket.step (w : Socket) (a : Call) : Socket :=
  if w.conn.used then
    match a with
    | .connect now ip port route ephemeral isn =>
      if w.conn.opens route ephemeral then
        let r := (tcpConnect now w.conn ip port route ephemeral isn).2
        ⟨r.conn, true, true, isn, [], [], r.sent, []⟩
      else w
    | .deliver now s =>
      { w.after (tcpReceive now w.conn s) with
        arrived := if w.conn.matches s then w.arrived ++ [s] else w.arrived }
    | .send now buf =>
      { w.after (tcpSend now w.conn buf).2 with
        accepted := w.accepted ++ sentBytes (tcpSend now w.conn buf).1 buf }
    | .shutdownWrite now => w.after (tcpShutdownWrite now w.conn)
    | .close now => w.after (tcpClose now w.conn)
    | .tick now => w.after (tcpTick now w.conn)
    | .recv len =>
      { w.after (tcpRecv w.conn len false).2.2 with read := w.read ++ (tcpRecv w.conn len false).2.1 }
    | .peek len => w.after (tcpRecv w.conn len true).2.2
  else w

/-- The send buffer, the receive ring and the FIN flags of a fresh connection. -/
def Conn.clean (c : Conn) : Bool :=
  c.tx.sndLen == 0 && c.rx.rcvLen == 0 && !c.tx.finWanted && !c.tx.finSent && !c.rx.finReceived

def Call.opens (a : Call) (c : Conn) : Bool :=
  match a with
  | .connect _ _ _ route ephemeral _ => c.used && c.opens route ephemeral
  | _ => false

/-- Every connect() that opens the connection finds it clean. -/
def cleanRun : Socket → List Call → Bool
  | _, [] => true
  | w, a :: rest => (!a.opens w.conn || w.conn.clean) && cleanRun (w.step a) rest

/-- Nothing crossed over from before the last connect(). -/
structure Separate (w : Socket) : Prop where
  fresh : w.just = true → w.conn.clean = true
  transmits : ∀ s ∈ w.sent, s.data ≠ [] →
    ∃ i, s.seq = w.iss + 1 + BitVec.ofNat 32 i ∧ s.data <+: w.accepted.drop i
  reads : ∃ irs, Carried irs w.arrived w.read
  eof : w.conn.rx.finReceived = true → ∃ s ∈ w.arrived, s.has tcpFin = true

/-- The invariant of a run. -/
structure Reused (w : Socket) : Prop where
  speaks : Speaks w.iss w.accepted w.conn w.sent
  hears : w.connected = true → Hears (fun _ => True) w.arrived w.conn w.read
  fresh : w.just = true → w.conn.clean = true

theorem Ended.reused {c : Conn} (h : Ended c) : Reused (.hold c) := by
  obtain ⟨now, before, error, used, held, fault, rfl⟩ := h
  exact ⟨⟨(tcpFinish_emits 0 [] now before error used fault).live, fun s m => (by cases m)⟩,
    nofun, nofun⟩

variable {w : Socket}

/-- A call that is no connect(): what it sends, accepts, takes in and reads. -/
theorem Reused.after (h : Reused w) {r : Reply} {acc read : List U8} {arrived : List Seg}
    (emits : Emits w.iss acc w.conn r) (grows : w.accepted <+: acc)
    (none : w.conn.frozen → acc = w.accepted)
    (hears : Hears (fun _ => True) w.arrived w.conn w.read →
      Hears (fun _ => True) arrived r.conn read) :
    Reused { w.after r with accepted := acc, read := read, arrived := arrived } :=
  ⟨h.speaks.emits emits grows none, fun e => hears (h.hears e), nofun⟩

/-- Such a call that accepts nothing and takes nothing in. -/
theorem Reused.quiet (h : Reused w) {r : Reply} (emits : Emits w.iss w.accepted w.conn r)
    (keeps : KeepsOrFrees w.conn r.conn) : Reused (w.after r) :=
  h.after emits (prefix_refl _) (fun _ => rfl) fun hears => hears.keeps keeps

theorem tcpReceive_other {c : Conn} {s : Seg} (other : c.matches s = false) (now : U32) :
    (tcpReceive now c s).conn = c := by
  unfold tcpReceive
  split
  · rfl
  rw [other]
  rfl

theorem openActive_clean (now : U32) (c : Conn) (isn : U32) :
    (openActive now c isn).conn.clean = c.clean := by
  show (armTimer now _).clean = _
  unfold armTimer
  split <;> rfl

theorem connect_reused (h : Reused w) (used : w.conn.used) (now ip : U32) (port : U16)
    {route : Option U32} {ephemeral : Option U16} (isn : U32)
    (opens : w.conn.opens route ephemeral) (clean : w.conn.clean) :
    Reused ⟨(tcpConnect now w.conn ip port route ephemeral isn).2.conn, true, true, isn, [], [],
      (tcpConnect now w.conn ip port route ephemeral isn).2.sent, []⟩ := by
  obtain ⟨d, reply, used', error, tx, rx⟩ := tcpConnect_opens now ip port isn opens
  have parts : ((w.conn.tx.sndLen = 0 ∧ w.conn.rx.rcvLen = 0) ∧ w.conn.tx.finWanted = false) ∧
      w.conn.tx.finSent = false ∧ w.conn.rx.finReceived = false := by
    simpa [Conn.clean, and_assoc] using clean
  obtain ⟨⟨⟨unsent, unread⟩, wanted⟩, sent, received⟩ := parts
  have emits := openActive_emits (c := d) now isn (used'.trans used)
    (by rw [error]; exact (h.speaks.sending used).fault) (by rw [tx]; exact unsent)
    (by rw [tx]; exact sent)
  have kept := armTimer_keeps now (tcpSendSegment (openConn now d isn) tcpSyn isn []).conn
  have keptRx : (openActive now d isn).conn.rx = w.conn.rx := kept.rx.trans rx
  rw [reply]
  refine ⟨⟨emits.live, emits.wire⟩, fun _ => .idle ?_ ?_ rfl (.inr ?_), fun _ => ?_⟩
  · rw [keptRx]; exact unread
  · rw [keptRx]; exact received
  · exact congrArg State.idle (armTimer_state now _).1
  · rw [openActive_clean, Conn.clean, tx, rx]
    exact clean

theorem step_reused (h : Reused w) (a : Call) (clean : a.opens w.conn → w.conn.clean) :
    Reused (w.step a) := by
  unfold Socket.step
  split
  · rename_i used
    have sending := h.speaks.sending used
    cases a with
    | connect now ip port route ephemeral isn =>
      dsimp only
      split
      · rename_i opens
        exact connect_reused h used now ip port isn opens
          (clean (by rw [Call.opens, used, opens]; rfl))
      · exact h
    | deliver now s =>
      refine h.after (tcpReceive_emits (.inr sending) now s) (prefix_refl _) (fun _ => rfl)
        fun hears => ?_
      split
      · have more := hears.more (fun _ _ => trivial) (subset_append_left w.arrived [s])
        exact more.deliver (mem_append_right _ mem_cons_self) (fun _ => trivial) now
      rename_i other
      rw [tcpReceive_other (Bool.not_eq_true _ ▸ other) now]
      exact hears
    | send now buf =>
      obtain ⟨emits, none⟩ := tcpSend_emits sending now buf
      exact h.after emits (prefix_append _ _)
        (fun frozen => by rw [none frozen, append_nil])
        fun hears => hears.keeps (.inr (tcpSend_keeps now w.conn buf))
    | shutdownWrite now =>
      exact h.quiet (tcpShutdownWrite_emits sending now) (.inr (tcpShutdownWrite_keeps now w.conn))
    | close now => exact h.quiet (tcpClose_emits sending now) (tcpClose_keeps now w.conn)
    | tick now => exact h.quiet (tcpTick_emits sending now) (tcpTick_keeps now w.conn)
    | recv len =>
      exact h.after (tcpRecv_emits sending len false) (prefix_refl _) (fun _ => rfl)
        fun hears => hears.recv len
    | peek len =>
      refine h.quiet (tcpRecv_emits sending len true) (.inr ?_)
      rw [tcpRecv_peek]
      exact Keeps.refl _
  · exact h

theorem Reused.separate (h : Reused w) (connected : w.connected) : Separate w where
  fresh := h.fresh
  transmits := fun s sent data => (h.speaks.wire s sent).data data
  reads := by
    cases h.hears connected with
    | idle _ _ none _ =>
      rw [none]
      exact ⟨0, fun j b at_ => by cases at_⟩
    | gone _ _ text => exact ⟨_, text⟩
    | stream _ _ traced => exact ⟨_, traced.text.front⟩
  eof := by
    intro fin
    cases h.hears connected with
    | idle _ noFin _ _ => cases noFin.symm.trans fin
    | gone freed _ _ =>
      rw [freed.rx] at fin
      cases fin
    | stream _ _ traced =>
      obtain ⟨s, arrived, flag, -⟩ := traced.fin fin
      exact ⟨s, arrived, flag⟩

/-- tcp_connect leaves the buffers and the FIN flags as it finds them. -/
theorem step_opens (a : Call) (opens : a.opens w.conn) :
    (w.step a).connected ∧ (w.step a).just ∧
    (w.step a).conn.clean = w.conn.clean := by
  cases a with
  | connect now ip port route ephemeral isn =>
    simp only [Call.opens, Bool.and_eq_true] at opens
    obtain ⟨d, reply, -, -, tx, rx⟩ := tcpConnect_opens now ip port isn opens.2
    simp only [Socket.step, opens.1, opens.2, ↓reduceIte, reply, true_and]
    rw [openActive_clean, Conn.clean, tx, rx]
    rfl
  | _ => cases opens

theorem runs_separate (h : Reused w) (calls : List Call) :
    (∀ n, ((calls.take n).foldl Socket.step w).connected →
      Separate ((calls.take n).foldl Socket.step w)) ↔ cleanRun w calls := by
  induction calls generalizing w with
  | nil => simpa [cleanRun] using h.separate
  | cons a rest ih =>
    simp only [cleanRun, Bool.and_eq_true, Bool.or_eq_true, Bool.not_eq_true']
    constructor
    · intro all
      have clean (opens : a.opens w.conn) : w.conn.clean := by
        obtain ⟨connected, just, same⟩ := step_opens a opens
        rw [← same]
        exact (all 1 connected).fresh just
      refine ⟨?_, (ih (step_reused h a clean)).mp fun n => all (n + 1)⟩
      cases opens : a.opens w.conn with
      | false => exact .inl rfl
      | true => exact .inr (clean opens)
    · rintro ⟨clean, later⟩ n
      cases n with
      | zero => exact h.separate
      | succ n =>
        refine (ih (step_reused h a fun opens => ?_)).mpr later n
        rcases clean with closed | clean
        · cases closed.symm.trans opens
        · exact clean

/-- A socket whose connection ended connects again, any number of times.
Nothing of an earlier connection is ever sent, read or seen exactly when every
connect() that opens the connection finds its buffers empty and its FIN flags
clear. -/
theorem reconnect_separate (c : Conn) (ended : Ended c) (calls : List Call) :
    (∀ n, ((calls.take n).foldl Socket.step (.hold c)).connected = true →
      Separate ((calls.take n).foldl Socket.step (.hold c))) ↔ cleanRun (.hold c) calls = true :=
  runs_separate ended.reused calls

/-- A segment from port 80 of `ip` in the runs below. -/
def fromPeer (ip seq ack : U32) (flags : U8) (data : List U8) : Seg :=
  ⟨ip, 0x0a000001, 80, 1000, seq, ack, flags, 1000, [], data⟩

/-- A connection that ended before it was used. -/
def unusedConn : Conn := (tcpFinish 0 (socketConn 0 0 1 0x0a000001 1000) 0).conn

/-- A first connection is reset when all it sent was acknowledged and all it
got was read, and a second one follows. -/
def cleanCalls : List Call :=
  [.connect 1 0x0a000002 80 (some 0x0a000001) none 100,
   .deliver 2 (fromPeer 0x0a000002 500 101 (tcpSyn ||| tcpAck) []), .send 3 [1],
   .deliver 4 (fromPeer 0x0a000002 501 102 tcpAck [2]), .recv 9,
   .deliver 5 (fromPeer 0x0a000002 502 102 tcpRst []),
   .connect 6 0x0a000003 80 (some 0x0a000001) none 900,
   .deliver 7 (fromPeer 0x0a000003 700 901 (tcpSyn ||| tcpAck) []), .send 8 [3]]

theorem reconnect_separate_cleanCalls :
    ((cleanCalls.foldl Socket.step (.hold unusedConn)).sent.map Seg.data).getLast? = some [3] ∧
    Separate (cleanCalls.foldl Socket.step (.hold unusedConn)) := by
  have ended : Ended unusedConn := ⟨0, _, 0, rfl, rfl, Int.le_refl 0, rfl⟩
  refine ⟨by decide +kernel, ?_⟩
  exact (reconnect_separate unusedConn ended cleanCalls).mpr (by decide +kernel) 9 (by decide +kernel)

/-- The first connection is reset with three bytes unacknowledged. -/
def leakingRun : Socket :=
  [.connect 1 0x0a000002 80 (some 0x0a000001) none 100,
   .deliver 2 (fromPeer 0x0a000002 500 101 (tcpSyn ||| tcpAck) []), .send 3 [1, 2, 3],
   .deliver 4 (fromPeer 0x0a000002 501 0 tcpRst []),
   .connect 5 0x0a000003 80 (some 0x0a000001) none 900,
   .deliver 6 (fromPeer 0x0a000003 700 901 (tcpSyn ||| tcpAck) []),
   .deliver 7 (fromPeer 0x0a000003 701 901 tcpAck [])].foldl Socket.step (.hold unusedConn)

/-- The bytes of the first connection go to the second one's peer. -/
theorem reconnect_leaks :
    leakingRun.connected = true ∧ leakingRun.accepted = [] ∧
    (∃ s ∈ leakingRun.sent, s.dstIp = 0x0a000003 ∧ s.data = [1, 2, 3]) ∧ ¬ Separate leakingRun := by
  have none : leakingRun.accepted = [] := by decide +kernel
  have leak : ∃ s ∈ leakingRun.sent, s.dstIp = 0x0a000003 ∧ s.data = [1, 2, 3] := by decide +kernel
  refine ⟨by decide +kernel, none, leak, fun separate => ?_⟩
  obtain ⟨s, sent, -, data⟩ := leak
  obtain ⟨i, -, slice⟩ := separate.transmits s sent (by rw [data]; decide)
  rw [none, data, drop_nil] at slice
  exact absurd slice (by decide)

end UzOS.Tcp
