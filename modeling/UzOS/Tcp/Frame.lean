import UzOS.Tcp.Script

/-! What the sending half of a connection leaves alone: a function that only
sends, acknowledges or arms timers keeps the receiving half, or frees the
whole slot. -/
namespace UzOS.Tcp

/-- The states before the peer's FIN, in which its data may still be taken. -/
def State.receives : State → Bool
  | .synReceived | .established | .finWait1 | .finWait2 => true
  | _ => false

variable (now : U32) (c : Conn) {a : Conn} {s : State}

theorem State.receives_of_takesData (h : s.takesData) : s.receives := by
  cases s <;> first | rfl | cases h

/-- No stream to receive: the peer's SYN is awaited, or the connection is over. -/
def State.idle : State → Bool
  | .synSent | .closed => true
  | _ => false

/-- How the state may move while the receiving half stays: one that no longer
receives never starts again, and only a SYN starts a stream. -/
structure State.Moves (s t : State) : Prop where
  receives : t.receives = true → s.receives = true
  idle : s.idle = true → t.idle = true
  waits : t = .synSent → s = .synSent

theorem State.Moves.refl (s : State) : s.Moves s := ⟨id, id, id⟩

theorem State.Moves.trans {t u : State} (h : s.Moves t) (k : t.Moves u) : s.Moves u :=
  ⟨fun e => h.receives (k.receives e), fun e => k.idle (h.idle e), fun e => h.waits (k.waits e)⟩

theorem State.Moves.closed (s : State) : s.Moves .closed :=
  ⟨nofun, fun _ => rfl, nofun⟩

/-- `c'` is `c` with at most its sending half changed. -/
structure Keeps (c c' : Conn) : Prop where
  used : c'.used = c.used
  rx : c'.rx = c.rx
  moves : c.state.Moves c'.state

/-- The slot was freed: nothing of the receiving half is left. -/
structure Freed (c : Conn) : Prop where
  used : c.used = false
  rx : c.rx = Conn.zero.rx

/-- The outcome of a function that never takes data. -/
def KeepsOrFrees (c c' : Conn) : Prop := Freed c' ∨ Keeps c c'

theorem Keeps.refl : Keeps c c := ⟨rfl, rfl, .refl _⟩

theorem Keeps.trans {b c : Conn} (h : Keeps a b) (k : Keeps b c) : Keeps a c :=
  ⟨k.used.trans h.used, k.rx.trans h.rx, h.moves.trans k.moves⟩

theorem Keeps.moved {t : State} (moves : s.Moves t) {c c' : Conn} (before : c.state = s)
    (after : c'.state = t) (used : c'.used = c.used) (rx : c'.rx = c.rx) : Keeps c c' :=
  ⟨used, rx, by rw [before, after]; exact moves⟩

theorem KeepsOrFrees.trans {b c : Conn} (h : KeepsOrFrees a b) (k : KeepsOrFrees b c) :
    KeepsOrFrees a c := by
  rcases k with freed | k
  · exact .inl freed
  rcases h with freed | h
  · exact .inl ⟨k.used.trans freed.used, k.rx.trans freed.rx⟩
  · exact .inr (h.trans k)

theorem armTimer_keeps : Keeps c (armTimer now c) := by
  unfold armTimer
  split <;> exact ⟨rfl, rfl, .refl _⟩

theorem tcpSendSegment_keeps (flags : U8) (seq : U32) (data : List U8) :
    Keeps c (tcpSendSegment c flags seq data).conn := ⟨rfl, rfl, .refl _⟩

theorem tcpFree_freed : Freed (tcpFree c).conn := ⟨rfl, rfl⟩

theorem Keeps.finish {c : Conn} (h : Keeps a c) (now : U32) (error : Int) :
    KeepsOrFrees a (tcpFinish now c error).conn := by
  unfold tcpFinish
  dsimp only
  split
  · exact .inr ⟨h.used, h.rx, .closed _⟩
  · exact .inl (tcpFree_freed _)

theorem outputPiece_keeps : Keeps c (outputPiece now c).conn := by
  have timed (c : Conn) : Keeps c (startTiming now c) := by
    unfold startTiming
    split <;> exact ⟨rfl, rfl, .refl _⟩
  have piece := (timed (c.advance c.pieceLen)).trans (armTimer_keeps now _)
  exact ⟨piece.used, piece.rx, piece.moves⟩

theorem outputLoop_keeps (fuel : Nat) (c : Conn) : Keeps c (outputLoop now fuel c).conn := by
  induction fuel generalizing c with
  | zero => exact Keeps.refl c
  | succ fuel ih =>
    simp only [outputLoop, outputPass]
    split
    · rename_i h
      split at h
      · cases h; exact Keeps.refl c
      split at h
      · cases h; exact armTimer_keeps now c
      · cases h
    · rename_i h
      split at h
      · cases h
      split at h
      · cases h
      · cases h; exact (outputPiece_keeps now c).trans (ih _)

theorem outputFin_keeps : Keeps c (outputFin now c).conn := by
  unfold outputFin
  split
  · refine .trans ?_ ((armTimer_keeps now _).trans (tcpSendSegment_keeps _ _ _ _))
    unfold finOut
    split
    · rename_i h
      exact Keeps.moved (s := .established) (t := .finWait1)
        ⟨by decide, by decide, by decide⟩ h rfl rfl rfl
    · rename_i h
      exact Keeps.moved (s := .closeWait) (t := .lastAck) ⟨by decide, by decide, by decide⟩ h rfl rfl rfl
    · exact ⟨rfl, rfl, .refl _⟩
  · exact Keeps.refl c

theorem Keeps.output {c : Conn} (h : Keeps a c) (now : U32) : Keeps a (tcpOutput now c).conn := by
  unfold tcpOutput
  split
  · exact h.trans ((outputLoop_keeps now _ c).trans (outputFin_keeps now _))
  · exact h

theorem takeAck_keeps (ack : U32) (window : U16) :
    KeepsOrFrees c (takeAck now c ack window).conn := by
  have windowKept (c : Conn) : KeepsOrFrees c (takeWindow c ack window) := by
    unfold takeWindow
    split <;> exact .inr ⟨rfl, rfl, .refl _⟩
  refine KeepsOrFrees.trans ?_ (windowKept _)
  split
  · unfold acknowledge
    split
    · rename_i h
      exact .inr (Keeps.moved (s := .finWait1) (t := .finWait2)
        ⟨by decide, by decide, by decide⟩ h rfl rfl rfl)
    · rename_i h
      exact .inr (Keeps.moved (s := .closing) (t := .timeWait)
        ⟨by decide, by decide, by decide⟩ h rfl rfl rfl)
    · refine Keeps.finish ?_ now 0
      exact ⟨rfl, rfl, .refl _⟩
    · exact .inr ⟨rfl, rfl, .refl _⟩
  · exact .inr (Keeps.refl c)

theorem Script.keeps {new shut : Prop} {now : U32} {c : Conn} {t : Dialog}
    (h : Script False False new shut now c t) : KeepsOrFrees c (Dialog.reply t).conn := by
  induction h with
  | done c => exact .inr (.refl c)
  | moved may | listens may | opens may | writes may | hears may | leaves may => exact may.elim
  | released _ ih | counted _ _ _ ih | retried _ _ _ ih =>
    apply KeepsOrFrees.trans (.inr _) ih
    exact ⟨rfl, rfl, .refl _⟩
  | finishes | goesBack =>
    rw [tcpOutputTalk_reply]
    refine .inr (Keeps.output ?_ now)
    exact ⟨rfl, rfl, .refl _⟩
  | sent => exact .inr ⟨rfl, rfl, .refl _⟩
  | aborts c =>
    rw [reset_reply]
    exact .inl ⟨rfl, rfl⟩
  | freed c =>
    rw [tell_done_reply (tcpFree_one c)]
    exact .inl (tcpFree_freed c)
  | ended c error =>
    rw [tell_done_reply (tcpFinish_one now c error)]
    exact (Keeps.refl c).finish now error

theorem tcpTick_keeps : KeepsOrFrees c (tcpTick now c).conn := by
  rw [← tcpTickTalk_reply]
  exact @Script.keeps True True now c _ tick_script

theorem tcpSend_keeps (buf : List U8) : Keeps c (tcpSend now c buf).2.conn := by
  unfold tcpSend
  split
  · exact Keeps.refl c
  split
  · exact Keeps.refl c
  split
  · exact Keeps.refl c
  dsimp only
  split
  · exact Keeps.refl c
  refine Keeps.output ?_ now
  exact ⟨rfl, rfl, .refl _⟩

theorem tcpShutdownWrite_keeps : Keeps c (tcpShutdownWrite now c).conn := by
  unfold tcpShutdownWrite
  split
  · refine Keeps.output ?_ now
    exact ⟨rfl, rfl, .refl _⟩
  · exact Keeps.refl c

theorem tcpClose_keeps : KeepsOrFrees c (tcpClose now c).conn := by
  by_cases listens : c.state = .listen
  · have gone : (tcpClose now c).conn = .zero := by simp [tcpClose, listens, tcpFree]
    rw [gone]
    exact .inl ⟨rfl, rfl⟩
  · rw [← tcpCloseTalk_reply]
    exact @Script.keeps True True now c _ (close_script fun l => absurd l listens)

end UzOS.Tcp
