import UzOS.Tcp.Send
import UzOS.Tcp.Stream

/-! The receiving half over the whole life of a connection: no stream yet, a
stream that one of the arriving SYNs started, or nothing any more. -/
namespace UzOS.Tcp

/-- What `c` has received, its program having read `read`: everything came
from `segs`, behind a SYN whose number is one of `start`. -/
inductive Hears (start : U32 → Prop) (segs : List Seg) (c : Conn) (read : List U8) : Prop where
  | idle (empty : c.rx.rcvLen = 0) (noFin : c.rx.finReceived = false) (none : read = [])
      (state : c.used = false ∨ c.state.idle = true)
  | gone {irs : U32} (freed : Freed c) (begins : start irs) (text : Carried irs segs read)
  | stream {irs : U32} (begins : start irs) (past : c.state ≠ .synSent)
      (traced : Traced irs segs read c)

variable {s : Seg}

theorem Carries.agrees {iss : U32} {acc : List U8} {frozen : Bool}
    (h : Carries iss acc frozen s) : Agrees iss acc s where
  bytes := by
    intro j b at_
    have n : s.data ≠ [] := by
      intro e
      rw [e] at at_
      cases at_
    obtain ⟨i, seq, data⟩ := h.data n
    exact slice_agrees i seq data j b at_
  fin := fun e => (h.fin e).2

section
variable {start : U32 → Prop} {segs : List Seg} {c : Conn} {read : List U8}

section
variable (h : Hears start segs c read)
include h

theorem Hears.freed {c' : Conn} (freed : Freed c') : Hears start segs c' read := by
  cases h with
  | idle _ _ none _ => exact .idle (by rw [freed.rx]; rfl) (by rw [freed.rx]; rfl) none (.inl freed.used)
  | gone _ begins text => exact .gone freed begins text
  | stream begins _ traced => exact .gone freed begins traced.text.front

theorem Hears.keeps {c' : Conn} (k : KeepsOrFrees c c') : Hears start segs c' read := by
  rcases k with freed | kept
  · exact h.freed freed
  cases h with
  | idle empty noFin none state =>
    refine .idle (by rw [kept.rx]; exact empty) (by rw [kept.rx]; exact noFin) none ?_
    rcases state with unused | idle
    · exact .inl (kept.used.trans unused)
    · exact .inr (kept.moves.idle idle)
  | gone freed begins text =>
    exact .gone ⟨kept.used.trans freed.used, kept.rx.trans freed.rx⟩ begins text
  | stream begins past traced =>
    exact .stream begins (fun e => past (kept.moves.waits e)) (kept.traced traced)

/-- More segments may have arrived, more SYNs may count. -/
theorem Hears.more {start' : U32 → Prop} {segs' : List Seg}
    (begins' : ∀ irs, start irs → start' irs) (more : segs ⊆ segs') :
    Hears start' segs' c read := by
  cases h with
  | idle empty noFin none state => exact .idle empty noFin none state
  | gone freed begins text => exact .gone freed (begins' _ begins) (text.more more)
  | stream begins past traced => exact .stream (begins' _ begins) past (traced.more more)

omit h in
theorem tcpRecv_empty (empty : c.rx.rcvLen = 0) (len : Nat) :
    (tcpRecv c len false).2.1 = [] ∧ (tcpRecv c len false).2.2.conn = c := by
  unfold tcpRecv
  rw [if_pos empty]
  exact ⟨rfl, rfl⟩

theorem Hears.recv (len : Nat) :
    Hears start segs (tcpRecv c len false).2.2.conn (read ++ (tcpRecv c len false).2.1) := by
  have same {r : List U8} (empty : c.rx.rcvLen = 0) (h : Hears start segs c r) :
      Hears start segs (tcpRecv c len false).2.2.conn (r ++ (tcpRecv c len false).2.1) := by
    obtain ⟨bytes, conn⟩ := tcpRecv_empty empty len
    rw [bytes, conn, List.append_nil]
    exact h
  cases h with
  | idle empty noFin none state => exact same empty (.idle empty noFin none state)
  | gone freed begins text => exact same (by rw [freed.rx]; rfl) (.gone freed begins text)
  | stream begins past traced =>
    obtain ⟨-, -, -, -, -, state, -⟩ := tcpRecv_spec c len
    exact .stream begins (by rw [state]; exact past) (traced.recv len)

omit h in
theorem Handshaken.hears (h : Handshaken c) (begins : start c.rx.irs) (past : c.state ≠ .synSent) :
    Hears start segs c [] :=
  .stream begins past (h.traced segs)

omit h in
/-- A segment in the open stream. -/
theorem Traced.hears {irs : U32} (traced : Traced irs segs read c) (begins : start irs)
    (past : c.state ≠ .synSent) (arrived : s ∈ segs) (now : U32) :
    Hears start segs (segment now c s).conn read := by
  rcases segment_accepts now c s traced.room with freed | ⟨bytes, took, accepts⟩
  · exact .gone freed begins traced.text.front
  · exact .stream begins (fun e => past (accepts.waits e)) (accepts.traced arrived traced)

theorem Hears.dispatch (arrived : s ∈ segs)
    (syn : s.has tcpSyn → start s.seq) (used : c.used) (open_ : c.state ≠ .closed)
    (now : U32) : Hears start segs (dispatch now c s).conn read := by
  unfold Tcp.dispatch
  cases h with
  | idle empty noFin none state =>
    have waiting : c.state = .synSent := by
      rcases state with unused | idle
      · cases unused.symm.trans used
      · cases e : c.state <;> simp_all [State.idle]
    have same : Hears start segs c read := .idle empty noFin none state
    rw [if_pos waiting]
    have begun {d : Conn} (used' : d.used) (taken : d.rx = (takeSyn c s).rx)
        (flag : s.has tcpSyn) (past : d.state ≠ .synSent) : Hears start segs d read := by
      rw [none]
      exact (takeSyn_handshaken used' empty noFin taken).hears (by rw [taken]; exact syn flag) past
    have verdict := @synSent_verdict now s c waiting
    generalize synSent now c s = r at verdict
    cases verdict with
    | noted => exact same.keeps (.inr ⟨rfl, rfl, .refl _⟩)
    | ended error => exact same.keeps ((Keeps.refl c).finish now error)
    | freed state | confirmed state => cases waiting.symm.trans state
    | answered _ _ flag | crossed _ _ flag => exact begun used rfl flag nofun
    | taken synced => cases waiting ▸ synced trivial
  | gone freed _ _ => cases freed.used.symm.trans used
  | stream begins past traced =>
    rw [if_neg past]
    exact traced.hears begins past arrived now

theorem Hears.deliver (arrived : s ∈ segs) (syn : s.has tcpSyn → start s.seq) (now : U32) :
    Hears start segs (tcpReceive now c s).conn read := by
  have counted : Hears start segs c.counted read := h.keeps (.inr ⟨rfl, rfl, .refl _⟩)
  unfold tcpReceive
  split
  · exact h
  split
  · exact h
  rename_i found
  rw [Bool.not_eq_true, Bool.not_eq_false'] at found
  obtain ⟨used, open_⟩ := Conn.matches_spec found
  exact counted.dispatch arrived syn used open_ now

end

theorem cookieConn_handshaken (now : U32) (l : Conn) (slot : Nat) (mss : U16) (s : Seg) :
    Handshaken (cookieConn now l slot mss s) := by
  refine ⟨rfl, ?_, rfl, rfl⟩
  show s.seq = s.seq - 1 + 1
  bv_omega

theorem cookieChild_hears (arrived : s ∈ segs) (begins : start (s.seq - 1)) (now : U32)
    (l : Conn) (slot : Nat) (mss : U16) :
    Hears start segs (cookieChild now l slot mss s).conn [] := by
  have handshaken := cookieConn_handshaken now l slot mss s
  have past : (cookieConn now l slot mss s).state ≠ .synSent := nofun
  unfold cookieChild
  split
  · exact (handshaken.traced segs).hears begins past arrived now
  · exact handshaken.hears begins past

theorem newChild_hears (begins : start s.seq) (now : U32) (l : Conn) (slot : Nat)
    (isn : U32) : Hears start segs (newChild now l slot isn s).conn [] := by
  refine (newChild_handshaken now l slot isn s).hears ?_ fun e => ?_
  · exact begins
  · cases (armTimer_state now _).1.symm.trans e

end
end UzOS.Tcp
