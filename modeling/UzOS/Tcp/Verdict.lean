import UzOS.Tcp.Input

/-! What becomes of a segment that arrives for a connection. -/
namespace UzOS.Tcp

def State.opening : State → Bool
  | .synSent | .synReceived => true
  | _ => false

/-- Our FIN is acknowledged. -/
def State.drained : State → Bool
  | .finWait2 | .timeWait => true
  | _ => false

/-- The synchronized states, in which segment() works. -/
def State.synced (s : State) : Bool := s.outputs || s.drained

/-- An ACK or a RST: it says nothing about the stream. -/
structure Seg.Hollow (s : Seg) : Prop where
  data : s.data = []
  syn : s.has tcpSyn = false
  fin : s.has tcpFin = false

theorem sendRaw_hollow {src dst : U32} {sport dport : U16} {seq ack : U32} {flags : U8} {window : U16}
    {mss : Bool} (syn : flagSet flags tcpSyn = false) (fin : flagSet flags tcpFin = false) :
    (sendRaw src dst sport dport seq ack flags window mss []).Hollow := ⟨rfl, syn, fin⟩

/-- The segment `s` is at most answered, ends the connection, gets on with its
handshake, or goes on to steps 5 and 6. `found` says that it came by lookup(). -/
inductive Verdict (found : Prop) (now : U32) (s : Seg) (c : Conn) : Reply → Prop where
  | noted (since : U32) (n : Nat) (segsOut : U32) (answer : Option Seg)
      (hollow : ∀ t, answer = some t → t.Hollow) :
      Verdict found now s c ⟨{ c with challengeSince := since, challenges := n, segsOut := segsOut },
        answer.toList.map .send⟩
  | ended (error : Int) (fault : 0 ≤ error) (reset : s.has tcpRst = true) :
      Verdict found now s c (tcpFinish now c error)
  | freed (state : c.state = .synReceived) : Verdict found now s c (tcpFree c)
  | answered (came : found) (state : c.state = .synSent) (syn : s.has tcpSyn = true)
      (right : s.ack = c.tx.iss + 1) : Verdict found now s c (sendAck (establish now (takeSyn c s) s.ack))
  | crossed (came : found) (state : c.state = .synSent) (syn : s.has tcpSyn = true) :
      Verdict found now s c (tcpSendSegment (tcpSetState now (takeSyn c s) .synReceived)
        (tcpSyn ||| tcpAck) c.tx.iss [])
  | confirmed (state : c.state = .synReceived) (right : s.ack = c.tx.iss + 1) :
      Verdict found now s c (segmentOpen now (establish now c s.ack) s)
  | taken (state : found → c.state.synced = true) : Verdict found now s c (segmentOpen now c s)

variable {found : Prop} {now : U32} {s : Seg} {c : Conn}

theorem Verdict.ignored : Verdict found now s c (quiet c) :=
  .noted c.challengeSince c.challenges c.segsOut none nofun

theorem challengeAck_verdict : Verdict found now s c (challengeAck now c) := by
  unfold challengeAck
  dsimp only
  split
  · split
    · exact .noted now _ _ (some _) fun t sent => by cases sent; exact sendRaw_hollow rfl rfl
    · exact .noted now _ c.segsOut none nofun
  · split
    · exact .noted c.challengeSince _ _ (some _) fun t sent => by
        cases sent
        exact sendRaw_hollow rfl rfl
    · exact .noted c.challengeSince _ c.segsOut none nofun

theorem rejectAck_verdict : Verdict found now s c (rejectAck c s) := by
  refine .noted c.challengeSince c.challenges c.segsOut (some _) fun t sent => ?_
  cases sent
  exact sendRaw_hollow rfl rfl

theorem segmentRst_verdict (reset : s.has tcpRst) : Verdict found now s c (segmentRst now c s) := by
  unfold segmentRst
  split
  · exact .ignored
  split
  · split
    · rename_i child
      exact .freed (by simpa using (Bool.and_eq_true_iff.mp child).1)
    · exact .ended _ (by split <;> decide) reset
  · exact challengeAck_verdict

theorem segment_verdict (state : found → c.state = .synReceived ∨ c.state.synced) :
    Verdict found now s c (segment now c s) := by
  unfold segment
  split
  · split
    · exact .ignored
    · exact challengeAck_verdict
  split
  · rename_i reset
    exact segmentRst_verdict reset
  split
  · exact challengeAck_verdict
  split
  · exact .ignored
  split
  · rename_i received
    split
    · exact rejectAck_verdict
    rename_i right
    exact .confirmed received (not_not.mp right)
  · rename_i other
    exact .taken fun f => (state f).resolve_left other

theorem synSent_verdict (state : c.state = .synSent) : Verdict True now s c (synSent now c s) := by
  unfold synSent
  extract_lets ackOk
  split
  · split
    · exact .ignored
    · exact rejectAck_verdict
  split
  · rename_i reset
    split
    · exact .ended _ (by decide) reset
    · exact .ignored
  split
  · exact .ignored
  rename_i syn
  rw [Bool.not_eq_true, Bool.not_eq_false'] at syn
  split
  · rename_i answers
    refine .answered trivial state syn ?_
    simpa using (Bool.and_eq_true_iff.mp answers).2
  · exact .crossed trivial state syn

/-- A segment for a connection that lookup() finds for it. -/
theorem dispatch_verdict (other : c.state ≠ .listen) (open_ : c.state ≠ .closed) :
    Verdict True now s c (dispatch now c s) := by
  unfold dispatch
  split
  · rename_i opening
    exact synSent_verdict opening
  rename_i past
  refine segment_verdict fun _ => ?_
  cases state : c.state with
  | closed => exact absurd state open_
  | listen => exact absurd state other
  | synSent => exact absurd state past
  | synReceived => exact .inl rfl
  | _ => exact .inr rfl

end UzOS.Tcp
