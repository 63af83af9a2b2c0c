import UzOS.Tcp.Nested
import UzOS.Tcp.Verdict

/-! What the calls of a program and the timers do to a connection. Each of them
is looked through once. -/
namespace UzOS.Tcp

/-- Nothing was sent, received or timed on the connection yet. -/
structure Fresh (c : Conn) : Prop where
  sndLen : c.tx.sndLen = 0
  finWanted : c.tx.finWanted = false
  finSent : c.tx.finSent = false
  finReceived : c.rx.finReceived = false
  rtxAt : c.timers.rtxAt = 0

/-- `new` says that the connection is opened for the first time, `shut` that
what is drained may end it, or answer its SYN. -/
inductive Deed (new shut : Prop) (now : U32) : Conn → Conn → Prop where
  | bound (c : Conn) (ip : U32) (port : U16) :
      Deed new shut now c { c with localIp := ip, localPort := port }
  | listens (c : Conn) (backlog : Int) (used : c.used = true)
      (state : c.state = .closed ∨ c.state = .listen)
      (first : new → c.state = .closed → Fresh c) :
      Deed new shut now c (tcpSetState now { c with backlog := backlog } .listen)
  | opens (c : Conn) (src ip : U32) (port : U16) (isn : U32) (used : c.used = true)
      (state : c.state = .closed) (first : new → Fresh c) :
      Deed new shut now c
        (openConn now { c with localIp := src, remoteIp := ip, remotePort := port } isn)
  | armed (c : Conn) (open_ : c.state.drained = false) (due : c.state = .synSent ∨ shut) :
      Deed new shut now c (armTimer now c)
  | given (c : Conn) (sock : Option Nat) :
      Deed new shut now c { c with listener := none, sock := sock }
  | released (c : Conn) : Deed new shut now c { c with sock := none }
  | enqueued (c : Conn) (bytes : List U8) (state : c.state = .established ∨ c.state = .closeWait)
      (wanted : c.tx.finWanted = false) (fits : c.tx.sndLen + bytes.length ≤ tcpBufSize) :
      Deed new shut now c (enqueue c bytes)
  | wantsFin (c : Conn)
      (state : c.state = .established ∨ c.state = .closeWait ∨ c.state = .synReceived) :
      Deed new shut now c (wantFin c)
  | read (c : Conn) (n : Nat) : Deed new shut now c (dequeue c n)
  | retried (c : Conn) (n : Nat) (due : c.timers.rtxAt ≠ 0) :
      Deed new shut now c (retry now { c with timers.retries := n })
  | wentBack (c : Conn) (n : Nat) (due : c.timers.rtxAt ≠ 0) (open_ : c.state.opening = false) :
      Deed new shut now c (goBack (retry now { c with timers.retries := n }))
  | counted (c : Conn) (retries probes : Nat) :
      Deed new shut now c { c with timers.retries := retries, timers.probes := probes }

def Act.connects : Act → Bool
  | .connect .. => true
  | _ => false

/-- What goes out besides output: a SYN again, a window probe, an ACK. -/
inductive Spoken (c : Conn) : U8 → U32 → List U8 → Prop where
  | syn (flags : U8) (fin : flagSet flags tcpFin = false) (state : c.state.opening = true) :
      Spoken c flags c.tx.iss []
  | probe (open_ : c.state.opening = false) (shut : c.tx.sndUna = c.tx.sndNxt)
      (some : c.tx.sndLen ≠ 0) : Spoken c tcpAck c.tx.sndNxt (Buffer.slice c.tx.sndbuf 0 1)
  | ack : Spoken c tcpAck c.tx.sndNxt []

/-- How a call or a timer goes on from `c`. `free` says that the connection may
also be bound, read, written to or handed over, or hear from its peer, `dials` that
it may be opened. -/
inductive Script (free dials new shut : Prop) (now : U32) : Conn → Dialog → Prop where
  | done (c : Conn) : Script free dials new shut now c (.done c)
  | moved {a b : Conn} {t : Dialog} (may : free) (h : Deed new shut now a b) (state : b.state = a.state)
      (tx : b.tx = a.tx) (rtx : b.timers.rtxAt = a.timers.rtxAt)
      (rest : Script free dials new shut now b t) :
      Script free dials new shut now a t
  | listens {a b : Conn} (may : free) (h : Deed new shut now a b) (state : b.state = .listen) :
      Script free dials new shut now a (.done b)
  | opens {a : Conn} {src ip : U32} {port : U16} {isn : U32} (may : dials) (used : a.used = true)
      (state : a.state = .closed) (first : new → Fresh a) : Script free dials new shut now a
        (openActiveTalk now { a with localIp := src, remoteIp := ip, remotePort := port } isn)
  | writes {a b : Conn} (may : free) (h : Deed new shut now a b) :
      Script free dials new shut now a (tcpOutputTalk now b)
  | hears {c : Conn} (may : free) (a : Arrival) : Script free dials new shut now c (.done (hear now c a))
  | leaves {c : Conn} (may : free) : Script free dials new shut now c
      (.say c .abortChildren fun c => (tcpFree c).tell .done)
  | released {c : Conn} {t : Dialog} (rest : Script free dials new shut now { c with sock := none } t) :
      Script free dials new shut now c t
  | counted {c : Conn} {t : Dialog} (retries probes : Nat) (rest : Script free dials new shut now
      { c with timers.retries := retries, timers.probes := probes } t) :
      Script free dials new shut now c t
  | retried {c : Conn} {t : Dialog} (n : Nat) (due : c.timers.rtxAt ≠ 0)
      (rest : Script free dials new shut now (retry now { c with timers.retries := n }) t) :
      Script free dials new shut now c t
  | finishes {c : Conn} (state : c.state = .established ∨ c.state = .closeWait ∨ c.state = .synReceived) :
      Script free dials new shut now c (tcpOutputTalk now (wantFin c))
  | goesBack {c : Conn} (n : Nat) (due : c.timers.rtxAt ≠ 0) (open_ : c.state.opening = false) :
      Script free dials new shut now c (tcpOutputTalk now
        (goBack (retry now { c with timers.retries := n })))
  | sent {c : Conn} {flags : U8} {seq : U32} {data : List U8} (spoken : Spoken c flags seq data) :
      Script free dials new shut now c ((tcpSendSegment c flags seq data).tell .done)
  | aborts (c : Conn) : Script free dials new shut now c
      ((tcpSendSegment c (tcpRst ||| tcpAck) c.tx.sndNxt []).tell fun c => (tcpFree c).tell .done)
  | freed (c : Conn) : Script free dials new shut now c ((tcpFree c).tell .done)
  | ended (c : Conn) (error : Int) (fault : 0 ≤ error) :
      Script free dials new shut now c ((tcpFinish now c error).tell .done)

variable {free dials new shut : Prop} {now : U32} {c : Conn}

theorem shutdown_script : Script free dials new shut now c (tcpShutdownWriteTalk now c) := by
  unfold tcpShutdownWriteTalk
  split
  · rename_i state
    simp only [Bool.or_eq_true, decide_eq_true_eq] at state
    exact .finishes (state.imp_right .inl)
  · exact .done c

/-- The two ends of a connection the program still could write to. -/
theorem closeOpen_script
    (state : c.state = .established ∨ c.state = .closeWait ∨ c.state = .synReceived) :
    Script free dials new shut now c (if c.rx.rcvLen ≠ 0 then
      (tcpSendSegment c (tcpRst ||| tcpAck) c.tx.sndNxt []).tell fun c => (tcpFree c).tell .done
    else tcpOutputTalk now (wantFin c)) := by
  split
  · exact .aborts c
  · exact .finishes state

theorem close_script (may : c.state = .listen → free) :
    Script free dials new shut now c (tcpCloseTalk now c) := by
  refine .released ?_
  unfold tcpCloseTalk
  extract_lets d
  split
  · rename_i listens
    exact .leaves (may listens)
  · exact .freed d
  · exact .freed d
  · rename_i state
    exact closeOpen_script (.inr (.inr state))
  · rename_i state
    exact closeOpen_script (.inl state)
  · rename_i state
    exact closeOpen_script (.inr (.inl state))
  · exact .done d

theorem resend_script (n : Nat) (due : c.timers.rtxAt ≠ 0) :
    Script free dials new shut now c (resendTalk now (retry now { c with timers.retries := n })) := by
  unfold resendTalk
  split
  · rename_i state
    exact .retried n due (.sent (.syn tcpSyn rfl (by rw [state]; rfl)))
  · rename_i state
    exact .retried n due (.sent (.syn (tcpSyn ||| tcpAck) rfl (by rw [state]; rfl)))
  rename_i notSent notReceived
  have open_ : c.state.opening = false := by
    cases state : c.state <;> first | rfl | exact absurd state notSent | exact absurd state notReceived
  split
  · rename_i shut
    simp only [Bool.and_eq_true, decide_eq_true_eq] at shut
    refine .retried n due (.counted n (c.timers.probes + 1) ?_)
    unfold probe
    dsimp only
    split
    · exact .ended _ _ (by decide)
    · exact .sent (.probe open_ shut.1.1 shut.1.2)
  · exact .goesBack n due open_

theorem tick_script : Script free dials new shut now c (tcpTickTalk now c) := by
  unfold tcpTickTalk
  dsimp only
  split
  · exact .done c
  split
  · split
    · exact .ended c 0 (by decide)
    · exact .freed c
  split
  · exact .freed c
  split
  · rename_i due
    rw [Bool.and_eq_true, decide_eq_true_eq] at due
    unfold retransmitTalk
    dsimp only
    generalize (if (c.state = .synSent || c.state = .synReceived) = true then _ else _ : Nat) = limit
    split
    · exact .counted (c.timers.retries + 1) c.timers.probes (.ended _ _ (by decide))
    · exact resend_script _ due.1
  · exact .done c

/-! The calls that need more. -/

section
variable (may : free)
include may

theorem listen_script (used : c.used) (backlog : Int) (ephemeral : Option U16)
    (first : new → c.state = .closed → Fresh c) :
    Script free dials new shut now c (.done (tcpListen now c backlog ephemeral).2) := by
  unfold tcpListen
  split
  · exact .done c
  rename_i state
  have state : c.state = .closed ∨ c.state = .listen := by
    by_cases closed : c.state = .closed
    · exact .inl closed
    · simpa [closed] using state
  generalize named : (if c.localPort = 0 then _ else _ : Option Conn) = bound
  cases bound with
  | none => exact .done c
  | some d =>
    split at named
    · obtain ⟨p, -, rfl⟩ := Option.map_eq_some_iff.mp named
      exact .moved may (.bound c 0 p) rfl rfl rfl
        (.listens may (.listens _ _ used state fun n closed => { first n closed with }) rfl)
    · cases named
      exact .listens may (.listens c _ used state first) rfl

theorem recv_script (len : Nat) (peek : Bool) :
    Script free dials new shut now c (tcpRecvTalk c len peek).2.2 := by
  show Script free dials new shut now c ((tcpRecv c len peek).2.2.tell .done)
  unfold tcpRecv
  split
  · exact .done c
  dsimp only
  split
  · exact .done c
  generalize (if len < c.rx.rcvLen then len else c.rx.rcvLen) = n
  refine .moved may (.read c n) rfl rfl rfl ?_
  split
  · exact .sent .ack
  · exact .done _

theorem accept_script (sock : Option Nat) :
    Script free dials new shut now c (tcpAcceptTalk now c sock) := by
  unfold tcpAcceptTalk
  split
  · refine .moved may (.given c sock) rfl rfl rfl ?_
    split
    · exact .done _
    · exact close_script fun _ => may
  · exact .done c

theorem send_script (buf : List U8) : Script free dials new shut now c (tcpSendTalk now c buf).2 := by
  unfold tcpSendTalk
  split
  · exact .done c
  split
  · exact .done c
  rename_i state
  split
  · exact .done c
  rename_i wanted
  dsimp only
  split
  · exact .done c
  refine .writes may (.enqueued c _ ?_ ?_ ?_)
  · by_cases half : c.state = .closeWait
    · exact .inr half
    · simpa [half] using state
  · simpa using wanted
  · simp only [List.length_take]
    omega

theorem connect_script (dial : dials) (used : c.used) (ip : U32) (port : U16) (route : Option U32)
    (ephemeral : Option U16) (isn : U32) (first : new → c.state = .closed → Fresh c) :
    Script free dials new shut now c (tcpConnectTalk now c ip port route ephemeral isn).2 := by
  unfold tcpConnectTalk
  split
  · exact .done c
  rename_i closed
  rw [not_not] at closed
  split
  · exact .done c
  generalize named : (if c.localPort = 0 then _ else _ : Option Conn) = bound
  cases bound with
  | none => exact .done c
  | some d =>
    split at named
    · obtain ⟨p, -, rfl⟩ := Option.map_eq_some_iff.mp named
      exact .moved may (.bound c 0 p) rfl rfl rfl
        (.opens dial used closed fun n => { first n closed with })
    · cases named
      exact .opens dial used closed fun n => first n closed

end

/-- Everything that can happen to a connection in use. -/
theorem dialog_script (used : c.used) (act : Act) (first : new → c.state = .closed → Fresh c) :
    Script True (act.connects) new shut now c (act.dialog now c) := by
  cases act with
  | bind ip port =>
    show Script True _ new shut now c (.done (if c.localPort = 0 then _ else _))
    split
    · exact .moved trivial (.bound c ip port) rfl rfl rfl (.done _)
    · exact .done c
  | listen backlog ephemeral => exact listen_script trivial used backlog ephemeral first
  | connect ip port route ephemeral isn =>
    exact connect_script trivial rfl used ip port route ephemeral isn first
  | accept sock => exact accept_script trivial sock
  | send buf => exact send_script trivial buf
  | recv len peek => exact recv_script trivial len peek
  | shutdownWrite => exact shutdown_script
  | close => exact close_script fun _ => trivial
  | arrive a => exact .hears trivial a
  | tick => exact tick_script

end UzOS.Tcp
