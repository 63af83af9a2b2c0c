import UzOS.Tcp.Input
import UzOS.Lib.Runs

/-! Segments injected by somebody who does not see the connection: they change
nothing of it, and the challenge ACKs that answer them are few. -/
namespace UzOS.Tcp

open List

open Runs (run)

variable (c : Conn) (now : U32)

def Conn.inWindow (s : Seg) : Bool :=
  UzOS.Tcp.inWindow s.seq s.seglen c.rx.rcvNxt ((receiveWindow c).setWidth 32)

/-- Outside the window, or a RST anywhere but at the next expected byte, or
without a RST a SYN, or no ACK at all. -/
def Conn.blind (s : Seg) : Bool :=
  !c.inWindow s || if s.has tcpRst then s.seq != c.rx.rcvNxt else s.has tcpSyn || !s.has tcpAck

/-- segment() stops at such a segment: it says nothing, or where we are. -/
theorem segment_blind (c : Conn) (s : Seg) (blind : c.blind s) :
    segment now c s = quiet c ∨ segment now c s = challengeAck now c := by
  unfold segment
  split
  · split
    · exact .inl rfl
    · exact .inr rfl
  rename_i inside
  have inside : c.inWindow s := by simpa [Conn.inWindow] using inside
  rw [Conn.blind, inside, Bool.not_true, Bool.false_or] at blind
  split
  · rename_i rst
    rw [if_pos rst] at blind
    unfold segmentRst
    split
    · exact .inl rfl
    rw [if_neg (bne_iff_ne.mp blind)]
    exact .inr rfl
  · rename_i rst
    rw [if_neg rst] at blind
    split
    · exact .inr rfl
    rename_i syn
    rw [Bool.not_eq_true] at syn
    rw [syn, Bool.false_or] at blind
    rw [if_pos blind]
    exact .inl rfl

/-- `c'` is `c` but for the challenge ACKs it counts and the segments it sent. -/
def Conn.SameBut (c c' : Conn) : Prop :=
  ∃ since n out, c' = { c with challengeSince := since, challenges := n, segsOut := out }

theorem Conn.SameBut.refl : c.SameBut c := ⟨_, _, _, rfl⟩

theorem Conn.SameBut.trans {a b c : Conn} (h : a.SameBut b) (k : b.SameBut c) : a.SameBut c := by
  obtain ⟨_, _, _, rfl⟩ := h
  obtain ⟨since, n, out, rfl⟩ := k
  exact ⟨since, n, out, rfl⟩

/-- What makes a segment blind stays as it was. -/
theorem Conn.SameBut.blind {c c' : Conn} (h : c.SameBut c') (s : Seg) : c'.blind s = c.blind s := by
  obtain ⟨_, _, _, rfl⟩ := h
  rfl

/-- Is an effect no more than a bare ACK? Another connection is only reached
by the effects that are not sends. -/
def Effect.bareAck : Effect → Bool
  | .send s => s.flags == tcpAck && s.data.isEmpty
  | _ => false

/-- The clock reads `now`: has the interval of the last challenge ACKs run out? -/
def Conn.restarts : Bool := netTickMs ≤ now - c.challengeSince

/-- The interval that runs at `now`. -/
def Conn.refreshed : Conn :=
  if c.restarts now then { c with challengeSince := now, challenges := 0 } else c

theorem refreshed_same : c.SameBut (c.refreshed now) := by
  unfold Conn.refreshed
  split
  · exact ⟨_, _, _, rfl⟩
  · exact .refl c

/-- What challenge_ack leaves: the interval it counts in, the count, and an ACK
only while the count is below the limit. -/
theorem challengeAck_spec (c : Conn) : c.SameBut (challengeAck now c).conn ∧
    (∀ e ∈ (challengeAck now c).effects, e.bareAck) ∧
    (challengeAck now c).conn.challengeSince = (c.refreshed now).challengeSince ∧
    (challengeAck now c).conn.challenges = (c.refreshed now).challenges + 1 ∧
    (challengeAck now c).sent.length =
      if (c.refreshed now).challenges < challengeAcks then 1 else 0 := by
  have unfolded : challengeAck now c =
      if (c.refreshed now).challenges < challengeAcks then
        sendAck { c.refreshed now with challenges := (c.refreshed now).challenges + 1 }
      else quiet { c.refreshed now with challenges := (c.refreshed now).challenges + 1 } := by
    simp only [challengeAck, Conn.refreshed, Conn.restarts, decide_eq_true_eq]
  have same := refreshed_same c now
  rw [unfolded]
  generalize c.refreshed now = d at same
  split
  · refine ⟨same.trans ⟨_, _, _, rfl⟩, ?_, rfl, rfl, rfl⟩
    intro e member
    rw [mem_singleton.mp member]
    rfl
  · refine ⟨same.trans ⟨_, _, _, rfl⟩, ?_, rfl, rfl, rfl⟩
    intro e member
    cases member

/-- A connection under injection: all effects so far, the ACKs sent in the
interval that runs, and each interval before it with its start, newest first. -/
structure Volley where
  conn : Conn
  effects : List Effect
  sent : Nat
  past : List (U32 × Nat)

def Volley.start : Volley := ⟨c, [], 0, []⟩

/-- One more segment, `a.2`, while the clock reads `a.1`. An interval begins
when `challengeSince` moves. -/
def Volley.hear (v : Volley) (a : U32 × Seg) : Volley :=
  let r := segment a.1 v.conn a.2
  if r.conn.challengeSince = v.conn.challengeSince then
    ⟨r.conn, v.effects ++ r.effects, v.sent + r.sent.length, v.past⟩
  else ⟨r.conn, v.effects ++ r.effects, r.sent.length, (v.conn.challengeSince, v.sent) :: v.past⟩

/-- Every interval with the ACKs it saw. -/
def Volley.intervals (v : Volley) : List (U32 × Nat) := (v.conn.challengeSince, v.sent) :: v.past

structure Volley.Held (c : Conn) (v : Volley) : Prop where
  same : c.SameBut v.conn
  acks : ∀ e ∈ v.effects, e.bareAck = true
  counted : v.sent ≤ v.conn.challenges
  few : ∀ i ∈ v.intervals, i.2 ≤ challengeAcks
  apart : v.intervals.IsChain fun later earlier => netTickMs ≤ later.1 - earlier.1

theorem Volley.start_held : (Volley.start c).Held c where
  same := .refl c
  acks := nofun
  counted := zero_le
  few := fun i member => by
    rw [mem_singleton.mp member]
    exact zero_le
  apart := isChain_singleton _

/-- A restarted interval is another one: its start moved by a tick or more. -/
theorem restarts_moves {c : Conn} {now : U32} (h : c.restarts now) :
    now ≠ c.challengeSince := by
  rintro rfl
  simp [Conn.restarts, netTickMs] at h

theorem Volley.hear_held {c : Conn} {v : Volley} (h : v.Held c) (now : U32) (s : Seg)
    (blind : c.blind s) : (v.hear (now, s)).Held c := by
  have blind : v.conn.blind s := (h.same.blind s).trans blind
  unfold Volley.hear
  dsimp only
  rcases segment_blind now v.conn s blind with silent | challenge
  · rw [silent, quiet_conn, if_pos rfl]
    exact ⟨h.same, by simpa [quiet] using h.acks, h.counted, h.few, h.apart⟩
  rw [challenge]
  obtain ⟨same, acks, since, count, sent⟩ := challengeAck_spec now v.conn
  have effects : ∀ e ∈ v.effects ++ (challengeAck now v.conn).effects, e.bareAck := by
    intro e member
    rcases mem_append.mp member with old | new
    · exact h.acks e old
    · exact acks e new
  have limit : v.sent ≤ challengeAcks := h.few _ mem_cons_self
  by_cases fresh : v.conn.restarts now
  · rw [Conn.refreshed, if_pos fresh] at since count sent
    rw [if_neg (by rw [since]; exact restarts_moves fresh), sent]
    refine ⟨h.same.trans same, effects, ?_, ?_, ?_⟩
    · exact le_of_eq count.symm
    · intro i member
      rcases mem_cons.mp member with rfl | old
      · change 1 ≤ challengeAcks
        decide
      · exact h.few i old
    · refine List.IsChain.cons_cons ?_ h.apart
      rw [since]
      exact of_decide_eq_true fresh
  · rw [Conn.refreshed, if_neg fresh] at since count sent
    rw [if_pos since]
    have counted := h.counted
    have bound : v.sent + (challengeAck now v.conn).sent.length ≤ challengeAcks ∧
        v.sent + (challengeAck now v.conn).sent.length ≤ v.conn.challenges + 1 := by
      rw [sent]
      split <;> omega
    refine ⟨h.same.trans same, effects, by rw [count]; exact bound.2, ?_, ?_⟩
    · intro i member
      rcases mem_cons.mp member with rfl | old
      · exact bound.1
      · exact h.few i (mem_cons_of_mem _ old)
    · have apart := h.apart
      unfold Volley.intervals at apart ⊢
      rw [since]
      cases past : v.past with
      | nil => exact isChain_singleton _
      | cons first rest =>
        rw [past] at apart
        exact List.IsChain.cons_cons (isChain_cons_cons.mp apart).1
          (isChain_cons_cons.mp apart).2

/-- Any number of blind segments, at any time: the connection is what it was
but for its challenge ACK bookkeeping and counter, nothing but bare ACKs of
its own goes out, and no interval, each at least a tick after the one before,
sees more than `challengeAcks` of them. -/
theorem blind_segments_change_nothing (c : Conn) (segs : List (U32 × Seg))
    (blind : ∀ a ∈ segs, c.blind a.2 = true) :
    (run Volley.hear (.start c) segs).Held c := by
  suffices all : ∀ v : Volley, v.Held c → (run Volley.hear v segs).Held c from
    all _ (Volley.start_held c)
  induction segs with
  | nil => exact fun _ held => held
  | cons a rest ih =>
    intro v held
    exact ih (fun b member => blind b (mem_cons_of_mem _ member)) _
      (Volley.hear_held held a.1 a.2 (blind a mem_cons_self))

/-- An established connection that expects byte 500 of its peer. -/
def openConn500 : Conn :=
  { socketConn 0 0 1 0x0a000001 1000 with
    state := .established, remoteIp := 0x0a000002, remotePort := 80, rx.rcvNxt := 500 }

/-- A segment that claims to come from the peer of `openConn500`. -/
def forged (seq : U32) (flags : U8) : Seg :=
  ⟨0x0a000002, 0x0a000001, 80, 1000, seq, 0, flags, 1000, [], []⟩

/-- A RST beside the expected byte, SYNs and segments without an ACK, five of
them in one interval. -/
def forgeries : List (U32 × Seg) :=
  [(200, forged 501 tcpRst), (210, forged 500 tcpSyn), (220, forged 500 tcpPsh),
   (230, forged 9 tcpAck), (240, forged 510 tcpRst), (250, forged 499 tcpAck),
   (320, forged 500 (tcpSyn ||| tcpAck))]

theorem forgeries_change_nothing :
    (run Volley.hear (.start openConn500) forgeries).intervals = [(320, 1), (200, 4), (0, 0)] ∧
    (run Volley.hear (.start openConn500) forgeries).Held openConn500 :=
  ⟨by decide, blind_segments_change_nothing openConn500 forgeries (by decide)⟩

/-- Outside the window, or a RST beside the next expected byte, or with SYN, or
without ACK: `blind`, and also the RSTs at exactly the next expected byte that
carry a SYN or, as RSTs mostly do, no ACK. -/
def Conn.unusable (s : Seg) : Bool :=
  !c.inWindow s || (s.has tcpRst && s.seq != c.rx.rcvNxt) || s.has tcpSyn || !s.has tcpAck

/-- A bare RST at exactly the next expected byte ends the connection. -/
theorem exact_rst_resets :
    openConn500.state = .established ∧ openConn500.unusable (forged 500 tcpRst) = true ∧
    (segment 0 openConn500 (forged 500 tcpRst)).conn.state = .closed ∧
    (segment 0 openConn500 (forged 500 tcpRst)).conn.error = netEconnreset := by
  decide

end UzOS.Tcp
