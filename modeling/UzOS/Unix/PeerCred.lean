import UzOS.Unix.Change

/-! SO_PEERCRED: what getsockopt reports about the peer of a socket. -/
namespace UzOS.Unix

/-- The serial number of the socket that the one in slot `k` is connected to: for a
stream client the listener it dialled, else the owner of the end it points at. -/
def connectedTo (t : Table) (k : SockSlot) : Option Nat := do
  let u ← (t.sockets k).proto
  let peer ← (t.ends u).peer
  match (t.ends u).link with
  | .listener serial => some serial
  | .peer => (t.ends peer).sock.map fun i => (t.sockets i).serial

/-- Whatever getsockopt answers is the owner, as the kernel recorded it at socket(), of
the socket that `k` is connected to. -/
def Truthful (t : Table) : Prop :=
  ∀ k len cred, (t.sockets k).used = true → getPeerCred t k len = .ok cred →
    ∃ serial, connectedTo t k = some serial ∧ t.owners[serial]? = some cred

/-- The end's own record of its peer happens to name its own owner. -/
def namesItself (t : Table) (e : EndSlot) : Bool :=
  (t.ends e).sock.all fun i => (t.ends e).peerCred == defPeerCred (t.sockets i)

/-- A datagram connect, which takes over the target's record of its peer, finds there the
target's owner. -/
def handsOwner (t : Table) : Event → Bool
  | .connect k addr len =>
    !(t.sockets k).used || (t.sockets k).type != .dgram || (endOf t k).isNone ||
      (readPath addr len).all fun path => (find t path .dgram).all (namesItself t)
  | _ => true

/-- What an end in use with a peer remembers. -/
def Credited (t : Table) (e p : EndSlot) : Prop :=
  match (t.ends e).link with
  | .listener serial => t.owners[serial]? = some (t.ends e).peerCred
  | .peer => ∃ i, (t.ends p).sock = some i ∧ (t.ends e).peerCred = defPeerCred (t.sockets i)

def Known (t : Table) : Prop :=
  ∀ e p, (t.ends e).used = true → (t.ends e).peer = some p → Credited t e p

variable {t t' : Table}

variable {e p target u : EndSlot} {event : Event} {i k : SockSlot}

theorem Credited.of_peer (link : (t.ends e).link = .peer) (sock : (t.ends p).sock = some i)
    (cred : (t.ends e).peerCred = defPeerCred (t.sockets i)) : Credited t e p := by
  unfold Credited
  rw [link]
  exact ⟨i, sock, cred⟩

theorem Credited.of_listener (serial : Nat) (link : (t.ends e).link = .listener serial)
    (owner : t.owners[serial]? = some (t.ends e).peerCred) : Credited t e p := by
  unfold Credited
  rw [link]
  exact owner

/-- An end keeps what it remembers while its peer keeps its socket and owner. -/
theorem Credited.keep (c : Credited t e p) (link : (t'.ends e).link = (t.ends e).link)
    (cred : (t'.ends e).peerCred = (t.ends e).peerCred) (owners : t.owners <+: t'.owners)
    (sock : ∀ i, (t.ends p).sock = some i → (t'.ends p).sock = some i ∧
      defPeerCred (t'.sockets i) = defPeerCred (t.sockets i)) : Credited t' e p := by
  unfold Credited at c ⊢
  rw [link, cred]
  cases kind : (t.ends e).link with
  | listener serial =>
    rw [kind] at c
    obtain ⟨more, grown⟩ := owners
    rw [← grown]
    exact owners_append more c
  | peer =>
    rw [kind] at c
    obtain ⟨i, has, same⟩ := c
    exact ⟨i, (sock i has).1, same.trans (sock i has).2.symm⟩

theorem Known.truthful (h : Sound t) (known : Known t) : Truthful t := by
  intro k len cred used answer
  unfold getPeerCred unixPeerCred at answer
  split at answer
  · cases answer
  cases has : (t.sockets k).proto with
  | none => simp [has] at answer
  | some u =>
    rw [has] at answer
    cases peer : (t.ends u).peer with
    | none => simp [peer] at answer
    | some p =>
      simp only [peer, reduceCtorEq, if_false, Except.ok.injEq] at answer
      have credited := known u p (h.has_end k u used has).1 peer
      unfold Credited at credited
      cases kind : (t.ends u).link with
      | listener serial =>
        rw [kind, answer] at credited
        exact ⟨serial, by simp [connectedTo, has, peer, kind], credited⟩
      | peer =>
        rw [kind] at credited
        obtain ⟨i, sock, same⟩ := credited
        have inUse := h.peer_used u p (h.has_end k u used has).1 peer
        refine ⟨(t.sockets i).serial, by simp [connectedTo, has, peer, kind, sock], ?_⟩
        rw [h.owner i (h.has_sock p i inUse sock).1, ← same, answer]

/-! ## Every elementary change keeps the records right -/

theorem Known.of_alike (known : Known t) (same : Alike t t') : Known t' := by
  intro e p used peer
  obtain ⟨used', _, peer', _, cred, link⟩ := same.ends e
  rw [used'] at used
  rw [peer'] at peer
  apply (known e p used peer).keep link cred (by rw [same.owners])
  intro i has
  exact ⟨(same.ends p).2.1.trans has, (same.sockets i).2.2.2⟩

theorem Known.create (h : Sound t) (known : Known t) {caller : Caller} {type : SockType}
    {idle : SockSlot → Bool} (made : socketCreate t caller type idle = some (t', k)) :
    Known t' := by
  obtain ⟨unused, ends, owners, _, _, _, others⟩ := socketCreate_spec made
  intro e p used peer
  rw [ends] at used peer
  apply (known e p used peer).keep (by rw [ends]) (by rw [ends]) ⟨_, owners.symm⟩
  intro i has
  have differs : i ≠ k := by
    rintro rfl
    rw [(h.has_sock p i (h.peer_used e p used peer) has).1] at unused
    cases unused
  rw [ends, others i differs]
  exact ⟨has, rfl⟩

theorem Known.own (h : Sound t) (known : Known t) (made : endOf t k = some (t', u)) : Known t' := by
  have creds i := (endOf_sockets made i).2.2.2.2
  rcases endOf_cases made with ⟨rfl, _⟩ | ⟨_, unused, eq⟩
  · exact known
  intro e p used peer
  have other : e ≠ u := by
    rintro rfl
    simp [eq] at peer
  have same : t'.ends e = t.ends e := by simp [eq, other]
  rw [same] at used peer
  apply (known e p used peer).keep (by rw [same]) (by rw [same]) (by simp [eq])
  intro i has
  rw [endOf_ends made (h.peer_used e p used peer)]
  exact ⟨has, creds i⟩

theorem Known.point (known : Known t) (sock : (t.ends target).sock = some i) :
    Known (t.setEnd u { t.ends u with
      peer := some target, peerCred := defPeerCred (t.sockets i), link := .peer }) := by
  intro e p used peer
  by_cases here : e = u
  · subst here
    simp only [Table.setEnd_ends, if_true, Option.some.injEq] at peer
    subst peer
    refine .of_peer (i := i) (by simp) ?_ (by simp)
    by_cases self : target = e
    · subst self
      simp [sock]
    · simp [self, sock]
  · simp only [Table.setEnd_ends, if_neg here] at used peer
    refine (known e p used peer).keep (by simp [here]) (by simp [here]) (by simp) ?_
    intro j has
    by_cases there : p = u
    · subst there
      simp [has]
    · simp [there, has]

theorem Known.enqueue (h : Sound t) (known : Known t) {w : EndSlot} (own : (t.ends u).sock = some k)
    (used : (t.ends u).used) (bound : (t.ends target).used)
    (sock : (t.ends target).sock = some i) (fresh : (t.ends w).used = false) :
    Known (enqueued (t.setEnd w { used := true }) k u target w (t.sockets i)) := by
  have apart : u ≠ w ∧ target ≠ w := by grind
  have creds (j : SockSlot) : defPeerCred
      ((enqueued (t.setEnd w { used := true }) k u target w (t.sockets i)).sockets j) =
        defPeerCred (t.sockets j) := by
    by_cases here : j = k <;> simp [enqueued, here, defPeerCred]
  have socks {e : EndSlot} {j : SockSlot} (has : (t.ends e).sock = some j)
      (inUse : (t.ends e).used) :
      ((enqueued (t.setEnd w { used := true }) k u target w (t.sockets i)).ends e).sock =
        some j := by
    grind [enqueued]
  intro e p inUse peer
  by_cases server : e = w
  · -- the new end: it remembers the client
    have client : p = u := by grind [enqueued]
    subst server client
    exact .of_peer (by grind [enqueued]) (socks own used) (by grind [enqueued])
  · by_cases client : e = u
    · subst client
      refine .of_listener (t.sockets i).serial (by grind [enqueued]) ?_
      have cred : ((enqueued (t.setEnd w { used := true }) k e target w (t.sockets i)).ends
          e).peerCred = defPeerCred (t.sockets i) := by grind [enqueued]
      rw [cred]
      exact h.owner i (h.has_sock target i bound sock).1
    · have before : (t.ends e).used ∧ (t.ends e).peer = some p := by grind [enqueued]
      refine (known e p before.1 before.2).keep (by grind [enqueued]) (by grind [enqueued])
        (List.prefix_refl _) ?_
      exact fun j has => ⟨socks has (h.peer_used e p before.1 before.2), creds j⟩

theorem Known.dequeue (h : Sound t) (known : Known t) {l w : EndSlot} {rest : List EndSlot}
    {ns : SockSlot} (listens : (t.ends l).used) (queue : (t.ends l).queue = w :: rest) :
    Known (handOver t l w rest ns) := by
  have waits := h.waits l w listens (by simp [queue])
  intro e p used peer
  have before : (t.ends e).used ∧ (t.ends e).peer = some p := by grind [handOver]
  refine (known e p before.1 before.2).keep (by grind [handOver]) (by grind [handOver])
    (List.prefix_refl _) ?_
  intro i has
  constructor
  · grind [handOver]
  · by_cases here : i = ns <;> simp [handOver, here, defPeerCred]

theorem Known.close (h : Sound t) (known : Known t) (k : SockSlot) : Known (socketClose t k) := by
  by_cases used : (t.sockets k).used
  · cases has : (t.sockets k).proto with
    | none =>
      simp only [socketClose, unixClose, used, has]
      intro e p inUse peer
      refine (known e p inUse peer).keep rfl rfl (List.prefix_refl _) ?_
      intro i sock
      by_cases here : i = k <;> simp [here, sock, defPeerCred]
    | some u =>
      have closed := socketClose_closed h used has
      have own := (h.has_end k u used has).1
      intro e p left peer
      have peerLeft := closed.peer_left h own left peer
      obtain ⟨peer, _, _⟩ := (closed.peer_iff left).mp peer
      obtain ⟨_, _, cred, link⟩ := closed.same left
      refine (known e p ((closed.used e).mp left).1 peer).keep link cred (by rw [closed.owners]) ?_
      intro i sock
      obtain ⟨inUse, differs, _⟩ := (closed.used p).mp peerLeft
      have other : i ≠ k := by
        rintro rfl
        have proto := (h.has_sock p i inUse sock).2
        rw [has] at proto
        cases proto
        exact differs rfl
      exact ⟨(closed.same peerLeft).1.trans sock, by rw [closed.sockets i other]⟩
  · rwa [socketClose, if_neg used]

theorem Change.known (c : Change t t') (h : Sound t) (known : Known t) : Known t' := by
  cases c with
  | quiet same => exact known.of_alike same
  | create made => exact known.create h made
  | own _ made => exact known.own h made
  | point u target _ _ sock => exact known.point sock
  | enqueue used own bound sock fresh => exact known.enqueue h own used bound sock fresh
  | dequeue listens _ queue _ _ => exact known.dequeue h listens queue
  | close k => exact known.close h k

theorem Changes.known (c : Changes t t') (h : Sound t) (known : Known t) : Known t' := by
  induction c with
  | refl => exact known
  | tail before last ih => exact last.known (Changes.sound before h) ih

/-! ## Datagram connects -/

namespace Dials

variable {k : SockSlot} {addr : Option Address} {len : U32} {t₁ : Table} {u target : EndSlot}

section
variable (d : Dials t k addr len t₁ u target)
include d

/-- The target and its owner, the same before and after the caller's end was opened. -/
theorem target_owner (h : Sound t) :
    t₁.ends target = t.ends target ∧ ∃ i, (t.ends target).sock = some i ∧
      t₁.owners[(t₁.sockets i).serial]? = some (defPeerCred (t₁.sockets i)) ∧
      defPeerCred (t₁.sockets i) = defPeerCred (t.sockets i) := by
  obtain ⟨path, _, found⟩ := d.names
  obtain ⟨bound, i, sock, _⟩ := find_spec found
  have sound₁ := endOf_sound h d.used d.opened
  have inUse := (h.has_sock target i bound sock).1
  refine ⟨endOf_ends d.opened bound, i, sock, sound₁.owner i ?_, ?_⟩
  · exact (endOf_sockets d.opened i).1.trans inUse
  · exact (endOf_sockets d.opened i).2.2.2.2

theorem handsOwner_eq : handsOwner t (.connect k addr len) = namesItself t target := by
  obtain ⟨path, read, found⟩ := d.names
  simp [handsOwner, d.used, d.dgram, d.opened, read, found]

theorem known (h : Sound t) (known : Known t)
    (honest : namesItself t target) : Known (connectDgram t₁ k u target) := by
  obtain ⟨same, i, sock, _, cred⟩ := d.target_owner h
  have told : (t₁.ends target).peerCred = defPeerCred (t₁.sockets i) := by
    rw [same, cred]
    simpa [namesItself, sock] using honest
  unfold connectDgram
  rw [told]
  exact ((known.own h d.opened).point (same ▸ sock)).of_alike (.setState _ k .connected)

/-- Otherwise the caller reads, as its peer's owner, whoever the target had recorded. -/
theorem not_truthful (h : Sound t)
    (wrong : namesItself t target = false) : ¬ Truthful (connectDgram t₁ k u target) := by
  intro truthful
  obtain ⟨same, i, sock, owner, cred⟩ := d.target_owner h
  obtain ⟨_, _, used, _, _⟩ := endOf_opens h d.used d.opened
  have proto := endOf_proto d.opened
  rw [← same] at sock
  have answer : getPeerCred (connectDgram t₁ k u target) k 12 = .ok (t₁.ends target).peerCred := by
    simp [getPeerCred, unixPeerCred, connectDgram, proto]
  have inUse : ((connectDgram t₁ k u target).sockets k).used := by simp [connectDgram, used]
  obtain ⟨serial, connected, owned⟩ := truthful k 12 _ inUse answer
  have points : connectedTo (connectDgram t₁ k u target) k = some (t₁.sockets i).serial := by
    by_cases self : target = u <;> by_cases own : i = k <;>
      simp_all [connectedTo, connectDgram]
  rw [points, Option.some.injEq] at connected
  subst connected
  have told : (t₁.ends target).peerCred = defPeerCred (t₁.sockets i) := by
    change t₁.owners[(t₁.sockets i).serial]? = _ at owned
    rw [owner, Option.some.injEq] at owned
    exact owned.symm
  rw [same] at sock told
  simp [namesItself, sock, told, cred] at wrong

theorem step_eq : step t (.connect k addr len) = connectDgram t₁ k u target := by
  obtain ⟨path, read, found⟩ := d.names
  have type : (t₁.sockets k).type = .dgram := (endOf_sockets d.opened k).2.1.trans d.dgram
  rw [← endOf_find d.opened] at found
  have call : step t (.connect k addr len) = (unixConnect t k addr len).1 := if_pos d.used
  rw [call]
  simp [unixConnect, read, d.opened, type, found]

end

end Dials

/-! ## Whole runs -/

theorem step_known (h : Sound t) (known : Known t) (honest : handsOwner t event) :
    Known (step t event) := by
  rcases step_cases h event with changes | ⟨k, addr, len, t₁, u, target, rfl, dials, eq⟩
  · exact Changes.known changes h known
  rw [eq]
  rw [dials.handsOwner_eq] at honest
  exact dials.known h known honest

/-- An event that breaks the condition is such a connect. -/
theorem not_handsOwner (breaks : handsOwner t event = false) :
    ∃ k addr len t₁ u target, event = .connect k addr len ∧ Dials t k addr len t₁ u target ∧
      namesItself t target = false := by
  cases event with
  | connect k addr len =>
    simp only [handsOwner, Bool.or_eq_false_iff] at breaks
    obtain ⟨⟨⟨used, dgram⟩, opens⟩, names⟩ := breaks
    obtain ⟨⟨t₁, u⟩, opened⟩ := Option.isSome_iff_exists.mp (Option.isNone_eq_false_iff.mp opens)
    cases read : readPath addr len with
    | none => simp [read] at names
    | some path =>
      cases found : find t path .dgram with
      | none => simp [read, found] at names
      | some target =>
        refine ⟨k, addr, len, t₁, u, target, rfl, ⟨?_, ?_, opened, path, read, found⟩, ?_⟩
        · simpa using used
        · simpa using dgram
        · simpa [read, found] using names
  | _ => cases breaks

theorem boot_known : Known boot := by
  intro e p used
  cases used

/-- The answers are right in every state of a run if and only if every datagram connect
finds, in the target's record of its own peer, the target's owner. -/
theorem peercred_truthful (events : List Event) :
    (∀ pre post, events = pre ++ post → Truthful (run boot pre)) ↔
      Runs.everyStep step handsOwner boot events = true := by
  constructor
  · intro truthful
    apply Runs.everyStep_of_all
    intro pre event post split
    by_contra breaks
    obtain ⟨k, addr, len, t₁, u, target, rfl, dials, wrong⟩ :=
      not_handsOwner (Bool.not_eq_true _ ▸ breaks)
    have after := truthful (pre ++ [.connect k addr len]) post (by simp [split])
    rw [run, Runs.run_append] at after
    change Truthful (step (run boot pre) (.connect k addr len)) at after
    rw [dials.step_eq] at after
    exact dials.not_truthful (run_sound pre) wrong after
  · intro all pre post split
    subst split
    have sound := run_sound pre
    have known : Sound (run boot pre) ∧ Known (run boot pre) :=
      Runs.run_keeps (P := fun t => Sound t ∧ Known t)
        (fun _ event h honest => ⟨step_sound h.1 event, step_known h.1 h.2 honest⟩)
        ⟨boot_sound, boot_known⟩ pre (Runs.everyStep_append pre post all).1
    exact known.2.truthful sound

/-- User 2 connects a datagram socket to the one that user 1 bound, and reads that the
peer is root's. -/
theorem dgram_connect_reads_root :
    let everySlot : SockSlot → Bool := fun _ => true
    let name : Address := ⟨afUnix, fun i => if i = 0 then 0x41 else 0⟩
    let t := run boot [.socket ⟨7, 1⟩ .dgram everySlot, .bind 0 name 4,
      .socket ⟨8, 2⟩ .dgram everySlot, .connect 1 name 4]
    getPeerCred t 1 12 = .ok ⟨0, 0, 0⟩ ∧ connectedTo t 1 = some 0 ∧
      t.owners[0]? = some ⟨7, 1, 1⟩ ∧ ¬ Truthful t := by
  intro everySlot name t
  have answer : getPeerCred t 1 12 = .ok ⟨0, 0, 0⟩ := by rfl
  have connected : connectedTo t 1 = some 0 := by rfl
  have owner : t.owners[0]? = some ⟨7, 1, 1⟩ := by rfl
  refine ⟨answer, connected, owner, fun truthful => ?_⟩
  obtain ⟨serial, same, told⟩ := truthful 1 12 _ (by rfl) answer
  rw [connected, Option.some.injEq] at same
  subst same
  rw [owner] at told
  cases told

end UzOS.Unix
