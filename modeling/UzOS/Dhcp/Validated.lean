import UzOS.Dhcp.Client

/-! The lease that the client is bound to was validated when it was offered; what it is
bound to is what the acknowledgement says. -/
namespace UzOS.Dhcp

open Bool Runs

open Runs (run everyStep)

/-- The configuration passes dhcp_validate, with the server that was known before. -/
def Client.passes (s : Client) : Bool :=
  defDhcpOfferOk s.lease.ip s.lease.netmask s.lease.router s.lease.server s.earlier

/-- The message is the acknowledgement that the client waits for. -/
def acknowledges (s : Client) (m : Message) : Bool :=
  forUs s m && s.lease.state == .requesting && (readOffer s m).1 == dhcpAck &&
    (readOffer s m).2.server == s.lease.server

/-- It has an address, and its router lies in the network of that address. -/
def sensible (offer : Lease) : Bool :=
  offer.ip != 0 &&
    (offer.router == 0 || offer.router &&& offer.netmask == offer.ip &&& offer.netmask)

/-- An acknowledgement that the client takes makes sense. -/
def sensibleAck (s : Client) : Event → Bool
  | .message m _ => !acknowledges s m || sensible (readOffer s m).2
  | _ => true

theorem offerOk_iff (ip mask router server known : U32) :
    defDhcpOfferOk ip mask router server known ↔
      server ≠ 0 ∧ ip ≠ 0 ∧ (router = 0 ∨ router &&& mask = ip &&& mask) ∧
        (known = 0 ∨ server = known) := by
  simp only [defDhcpOfferOk]
  split_ifs with missing outside
  · simp only [or_eq_true, decide_eq_true_eq] at missing
    exact iff_of_false (by simp) fun all => missing.elim all.1 all.2.1
  · simp only [and_eq_true, decide_eq_true_eq] at outside
    exact iff_of_false (by simp) fun all => all.2.2.1.elim outside.1 outside.2
  · simp only [or_eq_true, and_eq_true, decide_eq_true_eq, beq_iff_eq] at missing outside ⊢
    tauto

theorem sensible_iff (offer : Lease) : sensible offer ↔ offer.ip ≠ 0 ∧
    (offer.router = 0 ∨ offer.router &&& offer.netmask = offer.ip &&& offer.netmask) := by
  simp [sensible]

/-- What a message can do. -/
inductive Heard (s : Client) (m : Message) (now : U32) : Client → Prop
  | ignored : Heard s m now s
  | offered (type : (readOffer s m).1 = dhcpOffer)
      (ok : defDhcpOfferOk (readOffer s m).2.ip (readOffer s m).2.netmask (readOffer s m).2.router
        (readOffer s m).2.server s.knownServer = true) :
      Heard s m now
        { s with lease := sent { (readOffer s m).2 with state := .requesting, tries := 0 } now }
  | acknowledged (taken : acknowledges s m = true) :
      Heard s m now (bindLease { s with lease := (readOffer s m).2 } now)
  | refused : Heard s m now { s with lease := { s.lease with state := .failed } }

theorem onMessage_heard (s : Client) (m : Message) (now : U32) :
    Heard s m now (onMessage s m now) := by
  unfold onMessage
  rcases read : readOffer s m with ⟨type, offer⟩
  split
  · exact .ignored
  rename_i ours
  have mine : forUs s m := by simpa using ours
  dsimp only
  split
  · rename_i offered
    simp only [and_eq_true, decide_eq_true_eq] at offered
    have heard : _ → _ → Heard s m now _ := Heard.offered
    rw [read] at heard
    exact heard offered.1.2 offered.2
  split
  · rename_i taken
    simp only [and_eq_true, decide_eq_true_eq] at taken
    have heard : _ → Heard s m now _ := Heard.acknowledged
    rw [acknowledges, read] at heard
    exact heard (by simp [mine, taken])
  split
  · exact .refused
  · exact .ignored

variable {s : Client}

/-- A taken acknowledgement binds the client to what it says. -/
theorem acknowledged_bound {m : Message} (taken : acknowledges s m)
    (now : U32) : onMessage s m now = bindLease { s with lease := (readOffer s m).2 } now := by
  simp only [acknowledges, and_eq_true, beq_iff_eq] at taken
  obtain ⟨⟨⟨mine, requesting⟩, type⟩, server⟩ := taken
  unfold onMessage
  rcases read : readOffer s m with ⟨kind, offer⟩
  rw [read] at type server
  dsimp only at type server
  simp [mine, requesting, type, server]

/-! What the client believes. -/

structure Believes (s : Client) : Prop where
  asked : s.lease.state = .requesting → s.lease.server ≠ 0 ∧
    (s.knownServer = 0 ∨ s.lease.server = s.knownServer)
  bound : s.lease.state = .bound → s.passes = true

/-- The lease has lost its state, and nothing was learnt. -/
theorem Believes.settled (asking : s.lease.state ≠ .requesting)
    (unbound : s.lease.state ≠ .bound) : Believes s :=
  ⟨fun no => absurd no asking, fun no => absurd no unbound⟩

theorem Believes.message (believes : Believes s) (m : Message) (now : U32)
    (ok : sensibleAck s (.message m now)) : Believes (onMessage s m now) := by
  have heard := onMessage_heard s m now
  generalize onMessage s m now = t at heard
  cases heard with
  | ignored => exact believes
  | offered type valid =>
    obtain ⟨server, _, _, known⟩ := (offerOk_iff ..).mp valid
    exact ⟨fun _ => ⟨server, known⟩, nofun⟩
  | acknowledged taken =>
    have sense : sensible (readOffer s m).2 := by simpa [sensibleAck, taken] using ok
    obtain ⟨address, router⟩ := (sensible_iff _).mp sense
    simp only [acknowledges, and_eq_true, beq_iff_eq] at taken
    obtain ⟨⟨⟨_, requesting⟩, _⟩, same⟩ := taken
    obtain ⟨server, known⟩ := believes.asked requesting
    refine ⟨nofun, fun _ => (offerOk_iff ..).mpr ⟨?_, address, router, ?_⟩⟩
    · exact fun none => server (same.symm.trans none)
    · exact known.imp_right same.trans
  | refused => exact .settled (by simp) (by simp)

theorem Believes.step (believes : Believes s) (e : Event)
    (ok : sensibleAck s e) : Believes (step s e) := by
  cases e with
  | message m now => exact believes.message m now ok
  | start mac xid now =>
    exact .settled (by simp [Dhcp.step, dhcpStart, sent]) (by simp [Dhcp.step, dhcpStart, sent])
  | tick now =>
    simp only [Dhcp.step, dhcpTick]
    split_ifs
    · exact believes
    · exact .settled (by simp) (by simp)
    · exact ⟨believes.asked, believes.bound⟩
  | release now =>
    simp only [Dhcp.step, dhcpRelease]
    split_ifs
    · exact believes
    · exact .settled (by simp) (by simp)

/-- Along a run the client is bound to validated leases only, if and only if every
acknowledgement that it takes has an address and a router in the network of that
address. -/
theorem bound_lease_validated (events : List Event) :
    (∀ pre post, events = pre ++ post → (run step initial pre).lease.state = .bound →
        (run step initial pre).passes = true) ↔
      everyStep step sensibleAck initial events = true := by
  constructor
  · intro always
    refine everyStep_of_all events fun pre e post split => ?_
    cases e with
    | tick | start | release => rfl
    | message m now =>
      by_cases taken : acknowledges (run step initial pre) m = true
      swap
      · simp [sensibleAck, taken]
      have next : run step initial (pre ++ [.message m now]) =
          bindLease { run step initial pre with
            lease := (readOffer (run step initial pre) m).2 } now := by
        rw [run_append]
        exact acknowledged_bound taken now
      have valid := always (pre ++ [.message m now]) post (by simp [split]) (by rw [next]; rfl)
      rw [next] at valid
      obtain ⟨_, address, router, _⟩ := (offerOk_iff ..).mp valid
      have sense := (sensible_iff (readOffer (run step initial pre) m).2).mpr ⟨address, router⟩
      simp [sensibleAck, sense]
  · intro all pre post split
    subst split
    have start : Believes initial := .settled (by decide) (by decide)
    have believes := run_keeps (fun _ e believes ok => believes.step e ok) start pre
      (everyStep_append pre post all).1
    exact believes.bound

/-! An acknowledgement that is not what was offered. -/

/-- A reply for xid 7 and MAC 1..6 that gives `ip`, with type, server and router. -/
def reply (type : U8) (ip : List U8) (router : List U8) : Message :=
  [2, 1, 6, 0, 0, 0, 0, 7] ++ List.replicate 8 0 ++ ip ++ List.replicate 8 0 ++
    [1, 2, 3, 4, 5, 6] ++ List.replicate 202 0 ++ [0x63, 0x82, 0x53, 0x63] ++
    [53, 1, type, 1, 4, 255, 255, 255, 0, 54, 4, 10, 0, 2, 2, 3, 4] ++ router ++ [255]

/-- 10.0.2.15 with router 10.0.2.2 is offered; 10.0.2.15 with router 1.2.3.4 is
acknowledged. -/
def otherRouter : List Event :=
  [.start [1, 2, 3, 4, 5, 6] 7 0, .message (reply dhcpOffer [10, 0, 2, 15] [10, 0, 2, 2]) 1,
    .message (reply dhcpAck [10, 0, 2, 15] [1, 2, 3, 4]) 2]

theorem bound_lease_unvalidated :
    (run step initial otherRouter).lease.state = .bound ∧
      (run step initial otherRouter).lease.router = 0x01020304 ∧
      (run step initial otherRouter).passes = false := by
  decide +kernel

/-! The server that gave the first lease. -/

structure Trusts (s : Client) : Prop where
  asked : s.lease.state = .requesting → s.lease.server ≠ 0 ∧
    (s.knownServer = 0 ∨ s.lease.server = s.knownServer)
  bound : s.lease.state = .bound → s.lease.server = s.knownServer ∧ s.knownServer ≠ 0

theorem Trusts.step (trusts : Trusts s) (e : Event) :
    Trusts (step s e) ∧ (s.knownServer ≠ 0 → (step s e).knownServer = s.knownServer) := by
  cases e with
  | message m now =>
    have heard := onMessage_heard s m now
    rw [Dhcp.step]
    generalize onMessage s m now = t at heard
    cases heard with
    | ignored => exact ⟨trusts, fun _ => rfl⟩
    | offered type valid =>
      obtain ⟨server, _, _, known⟩ := (offerOk_iff ..).mp valid
      exact ⟨⟨fun _ => ⟨server, known⟩, nofun⟩, fun _ => rfl⟩
    | acknowledged taken =>
      simp only [acknowledges, and_eq_true, beq_iff_eq] at taken
      obtain ⟨⟨⟨_, requesting⟩, _⟩, same⟩ := taken
      obtain ⟨server, known⟩ := trusts.asked requesting
      rw [← same] at server known
      exact ⟨⟨nofun, fun _ => ⟨rfl, server⟩⟩, known.resolve_left⟩
    | refused => exact ⟨⟨nofun, nofun⟩, fun _ => rfl⟩
  | start => exact ⟨⟨nofun, nofun⟩, fun _ => rfl⟩
  | tick =>
    simp only [Dhcp.step, dhcpTick]
    split_ifs
    · exact ⟨trusts, fun _ => rfl⟩
    · exact ⟨⟨nofun, nofun⟩, fun _ => rfl⟩
    · exact ⟨⟨trusts.asked, trusts.bound⟩, fun _ => rfl⟩
  | release =>
    simp only [Dhcp.step, dhcpRelease]
    split_ifs
    · exact ⟨trusts, fun _ => rfl⟩
    · exact ⟨⟨nofun, nofun⟩, fun _ => rfl⟩

/-- A bound client has its lease from the server it knows, and a known server is never
replaced. -/
theorem known_server_stays (pre post : List Event) :
    ((run step initial pre).lease.state = .bound →
      (run step initial pre).lease.server = (run step initial pre).knownServer ∧
        (run step initial pre).knownServer ≠ 0) ∧
    ((run step initial pre).knownServer ≠ 0 →
      (run step initial (pre ++ post)).knownServer = (run step initial pre).knownServer) := by
  have start : Trusts initial := ⟨nofun, nofun⟩
  have trusts := run_invariant (P := Trusts) (fun _ e h => (h.step e).1) start pre
  rw [run_append]
  generalize run step initial pre = s at trusts
  refine ⟨trusts.bound, fun known => ?_⟩
  induction post generalizing s with
  | nil => rfl
  | cons e rest ih =>
    obtain ⟨now, kept⟩ := trusts.step e
    have same := kept known
    exact (ih _ now (same ▸ known)).trans same

end UzOS.Dhcp
