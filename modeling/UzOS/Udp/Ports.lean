import UzOS.Udp.Bind

/-! Who may share a port: the pairwise check at bind time holds for the whole table,
after every run of binds and closes. -/
namespace UzOS.Udp

open Runs (run run_invariant)

/-! What the setters leave alone. -/

section
variable (s : Ports) (o : Owner) (ep : Endpoint)

@[simp] theorem setEndpoint_table : (s.setEndpoint o ep).table = s.table := by
  cases o <;> rfl

@[simp] theorem setEndpoint_endpoint : (s.setEndpoint o ep).endpoint o = ep := by
  cases o <;> simp [Ports.setEndpoint, Ports.endpoint, Ports.setSocket]

theorem setEndpoint_other {p : Owner} (other : p ≠ o) :
    (s.setEndpoint o ep).endpoint p = s.endpoint p := by
  cases o <;> cases p <;> simp_all [Ports.setEndpoint, Ports.endpoint, Ports.setSocket]

@[simp] theorem setEndpoint_used (k : SockSlot) :
    ((s.setEndpoint o ep).sockets k).used = (s.sockets k).used := by
  cases o with
  | none => rfl
  | some l => by_cases same : k = l <;> simp [Ports.setEndpoint, Ports.setSocket, same]

@[simp] theorem setEndpoint_uid (k : SockSlot) :
    ((s.setEndpoint o ep).sockets k).uid = (s.sockets k).uid := by
  cases o with
  | none => rfl
  | some l => by_cases same : k = l <;> simp [Ports.setEndpoint, Ports.setSocket, same]

end

/-! What a bound endpoint is known by. -/

/-- The user that an endpoint works for; the DHCP client is the kernel's own. -/
def Ports.user (s : Ports) : Owner → U32
  | some k => (s.sockets k).uid
  | none => 0

/-- The owner holds an endpoint with its own user id. -/
structure Active (s : Ports) (o : Owner) : Prop where
  used : ∀ k, o = some k → (s.sockets k).used = true
  receive : (s.endpoint o).receive = true
  uid : (s.endpoint o).uid = s.user o

/-- Everything that decides whether another endpoint may have the port. -/
structure SameKey (a b : Endpoint) : Prop where
  localIp : b.localIp = a.localIp
  localPort : b.localPort = a.localPort
  uid : b.uid = a.uid
  reuseport : b.reuseport = a.reuseport

theorem SameKey.refl (a : Endpoint) : SameKey a a := ⟨rfl, rfl, rfl, rfl⟩

/-- Two endpoints do not keep each other from their ports. -/
def Share (a b : Endpoint) : Prop :=
  a.localPort = b.localPort → overlap a.localIp b.localIp = true →
    defReuseportOk a.uid a.reuseport b.uid b.reuseport = true

theorem overlap_iff (a b : U32) : overlap a b ↔ a = b ∨ a = 0 ∨ b = 0 := by
  simp only [overlap, Bool.not_eq_true', Bool.and_eq_false_iff, bne_eq_false_iff_eq]
  tauto

theorem Share.symm {a b : Endpoint} (share : Share a b) : Share b a := by
  intro port overlaps
  rw [overlap_iff] at overlaps
  have ok := share port.symm ((overlap_iff _ _).mpr (by tauto))
  simp only [defReuseportOk, Bool.and_eq_true, beq_iff_eq] at ok ⊢
  exact ⟨⟨ok.1.2, ok.1.1⟩, ok.2.symm⟩

theorem Share.of_keys {a b a' b' : Endpoint} (share : Share a b) (first : SameKey a a')
    (second : SameKey b b') : Share a' b' := by
  unfold Share
  rw [first.localIp, first.localPort, first.uid, first.reuseport, second.localIp,
    second.localPort, second.uid, second.reuseport]
  exact share

/-- The table as it is between calls. -/
structure Held (s : Ports) : Prop where
  once : ∀ i j o, s.table i = some o → s.table j = some o → i = j
  active : ∀ i o, s.table i = some o → Active s o
  share : ∀ i j o p, i ≠ j → s.table i = some o → s.table j = some p →
    Share (s.endpoint o) (s.endpoint p)
  kernel : s.dhcp.uid = 0

variable {s : Ports} {o : Owner}

/-- The table loses endpoints and those that stay keep their keys. -/
theorem Held.fewer {t : Ports} (held : Held s) (kernel : t.dhcp.uid = 0)
    (entries : ∀ i o, t.table i = some o → s.table i = some o ∧ Active t o ∧
      SameKey (s.endpoint o) (t.endpoint o)) : Held t where
  once := fun i j o first second => held.once i j o (entries i o first).1 (entries j o second).1
  active := fun i o here => (entries i o here).2.1
  share := by
    intro i j o p apart first second
    have shares := held.share i j o p apart (entries i o first).1 (entries j p second).1
    exact shares.of_keys (entries i o first).2.2 (entries j p second).2.2
  kernel := kernel

/-- The endpoint `o` is in no slot. -/
def Absent (s : Ports) (o : Owner) : Prop := ∀ i, s.table i ≠ some o

theorem Held.absent_of_receive (held : Held s) (closed : (s.endpoint o).receive = false) :
    Absent s o := by
  intro i here
  have receive := (held.active i o here).receive
  rw [closed] at receive
  cases receive

theorem Held.absent_of_used (held : Held s) {k : SockSlot} (free : (s.sockets k).used = false) :
    Absent s (some k) := by
  intro i here
  have used := (held.active i (some k) here).used k rfl
  rw [free] at used
  cases used

theorem Held.counter (held : Held s) (next : U16) (chosen : List U16) :
    Held { s with nextEphemeral := next, chosen } :=
  ⟨held.once, fun i o here => ⟨(held.active i o here).used, (held.active i o here).receive,
    (held.active i o here).uid⟩, held.share, held.kernel⟩

/-- An endpoint that is in no slot changes. -/
theorem Held.change (held : Held s) (absent : Absent s o) (ep : Endpoint)
    (kernel : o = none → ep.uid = 0) : Held (s.setEndpoint o ep) := by
  apply held.fewer
  · cases o with
    | some k => exact held.kernel
    | none => exact kernel rfl
  intro i p here
  rw [setEndpoint_table] at here
  have other : p ≠ o := fun same => absent i (same ▸ here)
  have same := setEndpoint_other s o ep other
  have active := held.active i p here
  refine ⟨here, ⟨fun k owner => ?_, ?_, ?_⟩, ?_⟩
  · rw [setEndpoint_used]
    exact active.used k owner
  · rw [same]
    exact active.receive
  · rw [same]
    cases p with
    | none => exact active.uid
    | some k =>
      simp only [Ports.user, setEndpoint_uid]
      exact active.uid
  · rw [same]
    exact .refl _

/-! Binding. -/

theorem portTaken_false {ep : Endpoint} {port : U16} (free : portTaken s ep port = false)
    {i : Fin udpMaxEndpoints} (here : s.table i = some o) :
    clashes ep (s.endpoint o) port = false := by
  have all := List.any_eq_false.mp free i (List.mem_finRange i)
  rw [here] at all
  simpa using all

theorem share_of_clashes {ep o : Endpoint} (free : clashes ep o ep.localPort = false) :
    Share ep o := by
  intro port overlaps
  simpa [clashes, port, overlaps] using free

/-- The port that the search ends with, if any, is free. -/
theorem pickPort_free (taken : U16 → Bool) (tries : Nat) (next : U16)
    (found : (pickPort taken tries next).2) : taken (pickPort taken tries next).1 = false := by
  induction tries generalizing next with
  | zero => cases found
  | succ tries ih =>
    unfold pickPort at found ⊢
    split at found
    · rename_i busy
      rw [if_pos busy]
      exact ih _ found
    rename_i free
    rw [if_neg free]
    simpa using free

/-- An absent endpoint gets a port that no other endpoint keeps from it. -/
structure Settled (s t : Ports) (o : Owner) : Prop where
  held : Held t
  table : t.table = s.table
  used : ∀ k, (t.sockets k).used = (s.sockets k).used
  uid : ∀ k, (t.sockets k).uid = (s.sockets k).uid
  port : ∃ port, t.endpoint o = { s.endpoint o with localPort := port }

theorem settlePort_settled (held : Held s) (absent : Absent s o) :
    Settled s (settlePort s o).1 o ∧ ((settlePort s o).2 = none →
      ∀ i p, s.table i = some p → Share ((settlePort s o).1.endpoint o)
        ((settlePort s o).1.endpoint p)) := by
  have same : Settled s s o :=
    ⟨held, rfl, fun _ => rfl, fun _ => rfl, (s.endpoint o).localPort, rfl⟩
  unfold settlePort
  extract_lets ep
  split
  · rcases picked : pickPort (portTaken s ep) ephemeralTries s.nextEphemeral with ⟨next, found⟩
    dsimp only
    split
    · rename_i yes
      have free := pickPort_free (portTaken s ep) ephemeralTries s.nextEphemeral
        (by rw [picked]; exact yes)
      rw [picked] at free
      have kernel : o = none → ep.uid = 0 := by
        rintro rfl
        exact held.kernel
      have changed := (held.counter (next + 1) (next :: s.chosen)).change absent
        { ep with localPort := next } kernel
      refine ⟨⟨changed, by simp, by simp, by simp, next, by simp [ep]⟩, ?_⟩
      intro _ i p here
      have other : p ≠ o := fun same => absent i (same ▸ here)
      rw [setEndpoint_endpoint, setEndpoint_other _ _ _ other]
      exact share_of_clashes (portTaken_false free here)
    · exact ⟨⟨held.counter next s.chosen, rfl, fun _ => rfl, fun _ => rfl, ep.localPort, rfl⟩,
        nofun⟩
  split
  · exact ⟨same, nofun⟩
  rename_i free
  refine ⟨same, fun _ i p here => ?_⟩
  exact share_of_clashes (portTaken_false (by simpa using free) here)

/-- An endpoint that shares with all the others gets an empty slot. -/
theorem Held.add (held : Held s) (absent : Absent s o) (active : Active s o)
    (shares : ∀ i p, s.table i = some p → Share (s.endpoint o) (s.endpoint p))
    {i : Fin udpMaxEndpoints} : Held { s with table := Function.update s.table i (some o) } := by
  have entry : ∀ {j p}, Function.update s.table i (some o) j = some p →
      (j = i ∧ p = o) ∨ (j ≠ i ∧ s.table j = some p) := by
    intro j p here
    by_cases new : j = i
    · subst new
      rw [Function.update_self] at here
      exact .inl ⟨rfl, (Option.some.inj here).symm⟩
    rw [Function.update_of_ne new] at here
    exact .inr ⟨new, here⟩
  constructor
  · intro j k p first second
    rcases entry first with ⟨rfl, rfl⟩ | ⟨_, old⟩ <;> rcases entry second with ⟨new, same⟩ | ⟨_, old'⟩
    · exact new.symm
    · exact absurd old' (absent k)
    · exact absurd (same ▸ old) (absent j)
    · exact held.once j k p old old'
  · intro j p here
    have known : Active s p := by
      rcases entry here with ⟨_, rfl⟩ | ⟨_, old⟩
      · exact active
      · exact held.active j p old
    exact ⟨known.used, known.receive, known.uid⟩
  · intro j k p q apart first second
    rcases entry first with ⟨rfl, rfl⟩ | ⟨_, old⟩ <;> rcases entry second with ⟨new, same⟩ | ⟨_, old'⟩
    · exact absurd new.symm apart
    · exact shares k q old'
    · subst same
      exact (shares j p old).symm
    · exact held.share j k p q apart old old'
  · exact held.kernel

/-- udp_bind of an active endpoint that is in no slot. -/
theorem udpBind_held (held : Held s) (absent : Absent s o) (active : Active s o) :
    Held (udpBind s o).1 ∧ (∀ k, ((udpBind s o).1.sockets k).used = (s.sockets k).used) ∧
      (∀ k, ((udpBind s o).1.sockets k).uid = (s.sockets k).uid) ∧
      (∀ e, (udpBind s o).2 = .error e → Absent (udpBind s o).1 o) := by
  obtain ⟨settled, shares⟩ := settlePort_settled held absent
  unfold udpBind
  rcases out : settlePort s o with ⟨t, error⟩
  rw [out] at settled shares
  obtain ⟨held', table, used, uid, port, moved⟩ := settled
  have absent' : Absent t o := fun i here => absent i (table ▸ here)
  cases error with
  | some e => exact ⟨held', used, uid, fun _ _ => absent'⟩
  | none =>
    dsimp only
    cases free : findSlot fun i => (t.table i).isNone with
    | none => exact ⟨held', used, uid, fun _ _ => absent'⟩
    | some i =>
      refine ⟨held'.add absent' ?_ fun i p here => shares rfl i p (table ▸ here), used, uid,
        nofun⟩
      refine ⟨fun k owner => ?_, ?_, ?_⟩
      · rw [used]
        exact active.used k owner
      · rw [moved]
        exact active.receive
      · rw [moved]
        cases o with
        | none => exact active.uid
        | some k => exact active.uid.trans (uid k).symm

/-! The calls. -/

section
variable {s : Ports} (held : Held s)
include held

theorem Held.unbind (o : Owner) : Held (udpUnbind s o) := by
  refine held.fewer (t := udpUnbind s o) held.kernel ?_
  intro i p here
  simp only [udpUnbind] at here
  split at here
  · cases here
  have active := held.active i p here
  exact ⟨here, ⟨active.used, active.receive, active.uid⟩, .refl _⟩

variable {k : SockSlot}

/-- A socket changes in what the table does not know of. -/
theorem Held.setSocket {x : Socket}
    (entries : ∀ i, s.table i = some (some k) → x.used ∧ x.udp.receive ∧
      x.udp.uid = x.uid ∧ SameKey (s.sockets k).udp x.udp) : Held (s.setSocket k x) := by
  refine held.fewer (t := s.setSocket k x) held.kernel ?_
  intro i o here
  have active := held.active i o here
  by_cases own : o = some k
  · subst own
    obtain ⟨used, receive, uid, key⟩ := entries i here
    refine ⟨here, ⟨fun l same => ?_, ?_, ?_⟩, ?_⟩
    · cases same
      simpa [Ports.setSocket] using used
    · simpa [Ports.setSocket, Ports.endpoint] using receive
    · simpa [Ports.setSocket, Ports.endpoint, Ports.user] using uid
    · simpa [Ports.setSocket, Ports.endpoint] using key
  · have other : ∀ l, o = some l → (s.setSocket k x).sockets l = s.sockets l := by
      rintro l rfl
      have apart : l ≠ k := fun same => own (same ▸ rfl)
      simp [Ports.setSocket, apart]
    have endpoint : (s.setSocket k x).endpoint o = s.endpoint o := by
      cases o with
      | none => rfl
      | some l => rw [Ports.endpoint, other l rfl, Ports.endpoint]
    refine ⟨here, ⟨fun l same => ?_, endpoint ▸ active.receive, ?_⟩, endpoint ▸ .refl _⟩
    · rw [other l same]
      exact active.used l same
    · rw [endpoint, active.uid]
      cases o with
      | none => rfl
      | some l => rw [Ports.user, Ports.user, other l rfl]

/-- A change of a socket's own fields. -/
theorem Held.touch {x : Socket} (used : x.used = (s.sockets k).used)
    (uid : x.uid = (s.sockets k).uid) (receive : x.udp.receive = (s.sockets k).udp.receive)
    (key : SameKey (s.sockets k).udp x.udp) : Held (s.setSocket k x) := by
  apply held.setSocket
  intro i here
  have active := held.active i (some k) here
  refine ⟨used.trans (active.used k rfl), receive.trans active.receive, ?_, key⟩
  rw [key.uid, uid]
  exact active.uid

theorem Held.doBind (ours : U32 → Bool) (used : (s.sockets k).used) (ip : U32) (port : U16) :
    Held (doBind s ours k ip port).1 := by
  unfold Udp.doBind
  extract_lets x ep t
  split
  · exact held
  rename_i closed
  split
  · exact held
  split
  · exact held
  have absent : Absent s (some k) := held.absent_of_receive (by simpa [Ports.endpoint] using closed)
  have ready : Held t := held.change absent _ nofun
  have gone : Absent t (some k) := fun i here => absent i (by simpa [t] using here)
  have active : Active t (some k) := by
    refine ⟨fun l same => ?_, by simp [t], by simp [t, Ports.user, x]⟩
    cases same
    simpa [t] using used
  obtain ⟨after, used', uid', failed⟩ := udpBind_held ready gone active
  rcases out : udpBind t (some k) with ⟨u, result⟩
  rw [out] at after failed
  cases result with
  | error e => exact after.change (failed e rfl) _ nofun
  | ok => exact after.touch rfl rfl rfl (.refl _)

theorem Held.autobind (ours : U32 → Bool) (used : (s.sockets k).used) :
    Held (autobind s ours k).1 := by
  unfold Udp.autobind
  split
  · exact held
  · exact held.doBind ours used 0 0

theorem Held.dhcpStart : Held (dhcpStart s) := by
  unfold Udp.dhcpStart
  split
  · exact held
  rename_i closed
  have absent : Absent s none := held.absent_of_receive (by simpa [Ports.endpoint] using closed)
  have ready := held.change absent { s.dhcp with localPort := dhcpClientPort, receive := true }
    fun _ => held.kernel
  have active : Active (s.setEndpoint none
      { s.dhcp with localPort := dhcpClientPort, receive := true }) none :=
    ⟨fun k no => (by cases no), rfl, held.kernel⟩
  obtain ⟨after, _, _, failed⟩ := udpBind_held ready absent active
  have same : s.setEndpoint none { s.dhcp with localPort := dhcpClientPort, receive := true } =
      { s with dhcp := { s.dhcp with localPort := dhcpClientPort, receive := true } } := rfl
  rw [same] at after failed
  rcases out : udpBind { s with dhcp :=
    { s.dhcp with localPort := dhcpClientPort, receive := true } } none with ⟨u, result⟩
  rw [out] at after failed
  cases result with
  | error e => exact after.change (failed e rfl) { u.dhcp with receive := false } fun _ => after.kernel
  | ok => exact after

theorem Held.create (uid : U32) (idle : SockSlot → Bool) : Held (socketCreate s uid idle) := by
  unfold socketCreate
  cases found : findSlot fun k => !(s.sockets k).used && idle k with
  | none => exact held
  | some k =>
    have free := findSlot_some found
    simp only [Bool.and_eq_true, Bool.not_eq_true'] at free
    exact held.setSocket fun i here => absurd here (held.absent_of_used free.1 i)

theorem Held.close (k : SockSlot) : Held (socketClose s k) := by
  unfold socketClose
  split
  · extract_lets t
    have gone : Held t ∧ Absent t (some k) := by
      simp only [t, udpSockClose]
      split
      · refine ⟨held.unbind (some k), fun i here => ?_⟩
        simp only [udpUnbind] at here
        split at here
        · cases here
        · exact absurd here (by assumption)
      · rename_i closed
        exact ⟨held, held.absent_of_receive (by simpa [Ports.endpoint] using closed)⟩
    exact gone.1.setSocket fun i here => absurd here (gone.2 i)
  · exact held

theorem Held.connect (ours : U32 → Bool) (route : U32 → Option U32)
    (used : (s.sockets k).used) (ip : U32) (port : U16) :
    Held (udpSockConnect s ours route k ip port).1 := by
  unfold udpSockConnect
  split
  · exact held
  have bound := held.autobind ours used
  rcases out : Udp.autobind s ours k with ⟨t, result⟩
  rw [out] at bound
  cases result with
  | error e => exact bound
  | ok => exact bound.touch rfl rfl rfl ⟨rfl, rfl, rfl, rfl⟩

theorem Held.send (ours : U32 → Bool) (used : (s.sockets k).used)
    (dest : Option (U32 × U16)) (len : Nat) : Held (udpSockSend s ours k dest len).1 := by
  unfold udpSockSend
  extract_lets x
  split
  · exact held
  split
  · exact held
  split
  · exact held
  · exact held.autobind ours used

theorem Held.step (call : Call) : Held (call.apply s) := by
  cases call with
  | create uid idle => exact held.create uid idle
  | close k => exact held.close k
  | dhcpStart => exact held.dhcpStart
  | setReuseport k on | setBroadcast k on =>
    simp only [Call.apply, Call.apply.onSocket]
    split
    · exact held.touch rfl rfl rfl (.refl _)
    · exact held
  | bind ours k ip port =>
    simp only [Call.apply, Call.apply.onSocket]
    split
    · exact held.doBind ours (by assumption) ip port
    · exact held
  | connect ours route k ip port =>
    simp only [Call.apply, Call.apply.onSocket]
    split
    · exact held.connect ours route (by assumption) ip port
    · exact held
  | disconnect k =>
    simp only [Call.apply, Call.apply.onSocket]
    split
    · exact held.touch rfl rfl rfl ⟨rfl, rfl, rfl, rfl⟩
    · exact held
  | send ours k dest len =>
    simp only [Call.apply, Call.apply.onSocket]
    split
    · exact held.send ours (by assumption) dest len
    · exact held

end

theorem start_held : Held {} :=
  ⟨nofun, nofun, nofun, rfl⟩

theorem run_held (calls : List Call) : Held (run Call.apply {} calls) :=
  run_invariant (fun _ call held => held.step call) start_held calls

/-- Two endpoints of one port that may both get a datagram asked to share it when they
were bound, and work for one user. -/
theorem ports_not_hijacked (calls : List Call) {i j : Fin udpMaxEndpoints} (apart : i ≠ j)
    {o p : Owner} (first : (run Call.apply {} calls).table i = some o)
    (second : (run Call.apply {} calls).table j = some p)
    (port : ((run Call.apply {} calls).endpoint o).localPort =
      ((run Call.apply {} calls).endpoint p).localPort)
    (overlaps : ((run Call.apply {} calls).endpoint o).localIp =
        ((run Call.apply {} calls).endpoint p).localIp ∨
      ((run Call.apply {} calls).endpoint o).localIp = 0 ∨
      ((run Call.apply {} calls).endpoint p).localIp = 0) :
    ((run Call.apply {} calls).endpoint o).reuseport = true ∧
      ((run Call.apply {} calls).endpoint p).reuseport = true ∧
      (run Call.apply {} calls).user o = (run Call.apply {} calls).user p := by
  have held := run_held calls
  have shared := held.share i j o p apart first second port ((overlap_iff _ _).mpr overlaps)
  simp only [defReuseportOk, Bool.and_eq_true, beq_iff_eq] at shared
  obtain ⟨⟨wants, has⟩, same⟩ := shared
  refine ⟨wants, has, ?_⟩
  rw [← (held.active i o first).uid, ← (held.active j p second).uid]
  exact same

/-- Two sockets of one user that share port 8080. -/
def sharing : List Call :=
  [.create 5 fun _ => true, .setReuseport 0 true, .bind (fun _ => true) 0 0 8080,
    .create 5 fun _ => true, .setReuseport 1 true, .bind (fun _ => true) 1 0 8080]

theorem ports_not_hijacked_sharing :
    (run Call.apply {} sharing).table 0 = some (some 0) ∧
      (run Call.apply {} sharing).table 1 = some (some 1) ∧
      (run Call.apply {} sharing).user (some 0) = (run Call.apply {} sharing).user (some 1) :=
  ⟨by decide +kernel, by decide +kernel, (ports_not_hijacked sharing (i := 0) (j := 1)
    (o := some 0) (p := some 1) (by decide) (by decide +kernel) (by decide +kernel)
    (by decide +kernel) (.inl (by decide +kernel))).2.2⟩

end UzOS.Udp
