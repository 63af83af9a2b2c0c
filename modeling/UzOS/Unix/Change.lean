import UzOS.Unix.Table

/-! Every call as a few elementary changes of the tables, each of which keeps them
sound. The one exception is a datagram connect, which stands apart. -/
namespace UzOS.Unix

variable {t t₁ t' : Table}

/-- The ways in which a call changes the tables. -/
inductive Change : Table → Table → Prop where
  | quiet {t t' : Table} (same : Alike t t') : Change t t'
  | create {t t' : Table} {caller : Caller} {type : SockType} {idle : SockSlot → Bool}
      {k : SockSlot} (made : socketCreate t caller type idle = some (t', k)) : Change t t'
  | own {t t' : Table} {k : SockSlot} {e : EndSlot} (used : (t.sockets k).used = true)
      (made : endOf t k = some (t', e)) : Change t t'
  /-- The end `u` is told who owns the socket it points at. -/
  | point {t : Table} (u target : EndSlot) {i : SockSlot} (own : (t.ends u).sock ≠ none)
      (used : (t.ends target).used = true) (sock : (t.ends target).sock = some i) :
      Change t (t.setEnd u { t.ends u with
        peer := some target, peerCred := defPeerCred (t.sockets i), link := .peer })
  | enqueue {t : Table} {k i : SockSlot} {u target w : EndSlot}
      (used : (t.ends u).used = true) (own : (t.ends u).sock = some k)
      (bound : (t.ends target).used = true) (sock : (t.ends target).sock = some i)
      (fresh : (t.ends w).used = false) :
      Change t (enqueued (t.setEnd w { used := true }) k u target w (t.sockets i))
  | dequeue {t : Table} {l e : EndSlot} {rest : List EndSlot} {k ns : SockSlot}
      (listens : (t.ends l).used = true) (own : (t.ends l).sock = some k)
      (queue : (t.ends l).queue = e :: rest) (used : (t.sockets ns).used = true)
      (bare : (t.sockets ns).proto = none) : Change t (handOver t l e rest ns)
  | close {t : Table} (k : SockSlot) : Change t (socketClose t k)

abbrev Changes := Relation.ReflTransGen Change

variable {t t' : Table}

theorem Change.sound (c : Change t t') (h : Sound t) : Sound t' := by
  cases c with
  | quiet same => exact h.of_alike same
  | create made => exact socketCreate_sound h made
  | own used made => exact endOf_sound h used made
  | point _ _ own used sock => exact h.setPeer own used (by simp [sock])
  | enqueue used own bound _ fresh => exact h.enqueue used own bound fresh
  | dequeue listens own queue used bare => exact h.dequeue listens own queue used bare
  | close k => exact socketClose_sound h k

theorem Changes.sound (c : Changes t t') (h : Sound t) : Sound t' := by
  induction c with
  | refl => exact h
  | tail _ last ih => exact last.sound ih

theorem Change.once (c : Change t t') : Changes t t' := .single c

theorem Alike.changes (same : Alike t t') : Changes t t' := (Change.quiet same).once

section Calls

variable {k : SockSlot} {e : EndSlot}

/-- The socket's end, found or made. -/
theorem endOf_opens (h : Sound t) (used : (t.sockets k).used)
    (made : endOf t k = some (t', e)) : Changes t t' ∧ Sound t' ∧
      (t'.sockets k).used ∧ (t'.ends e).used ∧ (t'.ends e).sock = some k := by
  have sound := endOf_sound h used made
  have inUse : (t'.sockets k).used := (endOf_sockets made k).1.trans used
  exact ⟨(Change.own used made).once, sound, inUse, sound.has_end k e inUse (endOf_proto made)⟩

theorem unixBind_changes (used : (t.sockets k).used) (addr : Option Address)
    (len : U32) : Changes t (unixBind t k addr len).1 := by
  unfold unixBind
  cases readPath addr len with
  | none => exact .refl
  | some path =>
    cases made : endOf t k with
    | none => exact .refl
    | some opened =>
      obtain ⟨t₁, u⟩ := opened
      have opens := (Change.own used made).once
      dsimp only
      split
      · exact opens
      split
      · exact opens
      · exact opens.trans (Alike.setName t₁ u path _).changes

theorem unixListen_changes (used : (t.sockets k).used) (backlog : Int) :
    Changes t (unixListen t k backlog).1 := by
  unfold unixListen
  cases made : endOf t k with
  | none => exact .refl
  | some opened =>
    obtain ⟨t₁, u⟩ := opened
    have opens := (Change.own used made).once
    dsimp only
    split
    · exact opens
    exact (opens.trans (Alike.setName t₁ u _ _).changes).trans
      (Alike.setState _ k .listening).changes

/-- A stream connect changes nothing, or joins the client to a new end in the queue. -/
theorem connectStream_changes {u target : EndSlot} {i : SockSlot} (used : (t.ends u).used)
    (own : (t.ends u).sock = some k) (bound : (t.ends target).used)
    (sock : (t.ends target).sock = some i) : Changes t (connectStream t k u target i).1 := by
  unfold connectStream
  dsimp only
  split
  · exact .refl
  split
  · exact .refl
  cases made : newEnd t none with
  | none => exact .refl
  | some fresh =>
    obtain ⟨t₁, w⟩ := fresh
    obtain ⟨unused, rfl⟩ := newEnd_spec made
    exact (Change.enqueue used own bound sock unused).once

theorem unixAccept_changes (h : Sound t) (used : (t.sockets k).used) (caller : Caller)
    (idle : SockSlot → Bool) : Changes t (unixAccept t k caller idle).1 := by
  unfold unixAccept
  cases has : (t.sockets k).proto with
  | none => exact .refl
  | some l =>
    dsimp only
    split
    · exact .refl
    cases queue : (t.ends l).queue with
    | nil => exact .refl
    | cons w rest =>
      cases made : socketCreate t caller .stream idle with
      | none => exact .refl
      | some fresh =>
        obtain ⟨_, ends, _, inUse, bare, _, _⟩ := socketCreate_spec made
        obtain ⟨listens, own⟩ := h.has_end k l used has
        rw [← ends] at listens own queue
        exact (Change.create made).once.tail (.dequeue listens own queue inUse bare)

theorem endOf_ends (made : endOf t k = some (t', e)) {i : EndSlot}
    (used : (t.ends i).used) : t'.ends i = t.ends i := by
  rcases endOf_cases made with ⟨rfl, _⟩ | ⟨_, unused, rfl⟩
  · rfl
  have other : i ≠ e := by
    rintro rfl
    rw [used] at unused
    cases unused
  simp [other]

theorem markConnected_changes (e : EndSlot) : Changes t (markConnected t e) := by
  unfold markConnected
  cases (t.ends e).sock with
  | none => exact .refl
  | some k => exact (Alike.setState t k .connected).changes

theorem join_changes {a b : EndSlot} {i j : SockSlot} (usedA : (t.ends a).used)
    (usedB : (t.ends b).used) (sockA : (t.ends a).sock = some i)
    (sockB : (t.ends b).sock = some j) :
    Changes t (join t a b (defPeerCred (t.sockets i)) (defPeerCred (t.sockets j))) := by
  have first := (Change.point a b (by simp [sockA]) usedB sockB).once
  refine ((first.tail (.point b a (i := i) ?_ ?_ ?_)).trans
    (markConnected_changes a)).trans (markConnected_changes b)
  · by_cases same : b = a <;> simp [same, sockA, sockB]
  · simp [usedA]
  · simp [sockA]

theorem unixPair_changes (h : Sound t) {a b : SockSlot} (usedA : (t.sockets a).used)
    (usedB : (t.sockets b).used) : Changes t (unixPair t a b).1 := by
  unfold unixPair
  cases madeA : endOf t a with
  | none =>
    cases madeB : endOf t b with
    | none => exact .refl
    | some opened => exact (Change.own usedB madeB).once
  | some opened =>
    obtain ⟨t₁, ua⟩ := opened
    obtain ⟨first, sound₁, _, inUseA, ownA⟩ := endOf_opens h usedA madeA
    have usedB₁ : (t₁.sockets b).used := (endOf_sockets madeA b).1.trans usedB
    dsimp only
    cases madeB : endOf t₁ b with
    | none => exact first
    | some opened =>
      obtain ⟨second, _, _, inUseB, ownB⟩ := endOf_opens sound₁ usedB₁ madeB
      have keptA := endOf_ends madeB inUseA
      exact (first.trans second).trans (join_changes (keptA ▸ inUseA) inUseB (keptA ▸ ownA) ownB)

theorem sysSocketpair_changes (h : Sound t) (caller : Caller) (type : SockType)
    (idle : SockSlot → Bool) : Changes t (sysSocketpair t caller type idle) := by
  unfold sysSocketpair
  cases madeA : socketCreate t caller type idle with
  | none => exact .refl
  | some made =>
    obtain ⟨t₁, a⟩ := made
    have first := (Change.create madeA).once
    have usedA := (socketCreate_spec madeA).2.2.2.1
    dsimp only
    cases madeB : socketCreate t₁ caller type idle with
    | none => exact first.tail (.close a)
    | some made =>
      obtain ⟨t₂, b⟩ := made
      have second := first.tail (.create madeB)
      obtain ⟨free, _, _, usedB, _, _, others⟩ := socketCreate_spec madeB
      have differs : a ≠ b := by
        rintro rfl
        rw [usedA] at free
        cases free
      rw [← others a differs] at usedA
      have pair := second.trans (unixPair_changes (Changes.sound second h) usedA usedB)
      dsimp only
      generalize unixPair t₂ a b = result at pair ⊢
      obtain ⟨t₃, ok | error⟩ := result
      · exact (pair.tail (.close a)).tail (.close b)
      · exact pair

/-! ## Whole calls -/

/-- The new end has no name, so looking a name up gives the same end as before. -/
theorem endOf_find (made : endOf t k = some (t', e)) (path : List U8) (type : SockType) :
    find t' path type = find t path type := by
  have types (i : SockSlot) : (t'.sockets i).type = (t.sockets i).type := (endOf_sockets made i).2.1
  unfold find
  congr 1
  funext i
  simp only [types]
  rcases endOf_cases made with ⟨rfl, _⟩ | ⟨_, unused, rfl⟩
  · rfl
  · by_cases here : i = e <;> simp [here, unused]

/-- A datagram connect that succeeds, from the table `t₁` with the caller's end `u`. -/
structure Dials (t : Table) (k : SockSlot) (addr : Option Address) (len : U32) (t₁ : Table)
    (u target : EndSlot) : Prop where
  used : (t.sockets k).used = true
  dgram : (t.sockets k).type = .dgram
  opened : endOf t k = some (t₁, u)
  names : ∃ path, readPath addr len = some path ∧ find t path .dgram = some target

theorem unixConnect_cases (h : Sound t) (used : (t.sockets k).used)
    (addr : Option Address) (len : U32) : Changes t (unixConnect t k addr len).1 ∨
      ∃ t₁ u target, Dials t k addr len t₁ u target ∧
        (unixConnect t k addr len).1 = connectDgram t₁ k u target := by
  unfold unixConnect
  cases read : readPath addr len with
  | none => exact Or.inl .refl
  | some path =>
    cases made : endOf t k with
    | none => exact Or.inl .refl
    | some opened =>
      obtain ⟨t₁, u⟩ := opened
      obtain ⟨first, _, _, inUse, own⟩ := endOf_opens h used made
      have type : (t₁.sockets k).type = (t.sockets k).type := (endOf_sockets made k).2.1
      dsimp only
      rw [endOf_find made, type]
      cases found : find t path (t.sockets k).type with
      | none => exact Or.inl first
      | some target =>
        obtain ⟨bound, i, sock, _⟩ := find_spec ((endOf_find made path _).trans found)
        cases kind : (t.sockets k).type with
        | dgram =>
          rw [kind] at found
          exact Or.inr ⟨t₁, u, target, ⟨used, kind, made, path, read, found⟩, rfl⟩
        | stream =>
          dsimp only
          rw [sock]
          exact Or.inl (first.trans (connectStream_changes inUse own bound sock))

theorem step_cases (h : Sound t) (event : Event) : Changes t (step t event) ∨
    ∃ k addr len t₁ u target, event = .connect k addr len ∧ Dials t k addr len t₁ u target ∧
      step t event = connectDgram t₁ k u target := by
  have guarded {k : SockSlot} {t' : Table} (changes : (t.sockets k).used → Changes t t') :
      Changes t (if (t.sockets k).used then t' else t) := by
    split
    · next used => exact changes used
    · exact .refl
  cases event with
  | socket caller type idle =>
    left
    simp only [step]
    cases made : socketCreate t caller type idle with
    | none => exact .refl
    | some fresh => exact (Change.create made).once
  | socketpair caller type idle => exact Or.inl (sysSocketpair_changes h caller type idle)
  | connect k addr len =>
    by_cases used : (t.sockets k).used
    · rw [show step t (.connect k addr len) = (unixConnect t k addr len).1 from if_pos used]
      refine (unixConnect_cases h used addr len).imp_right ?_
      rintro ⟨t₁, u, target, dials, eq⟩
      exact ⟨k, addr, len, t₁, u, target, rfl, dials, eq⟩
    · rw [show step t (.connect k addr len) = t from if_neg used]
      exact Or.inl .refl
  | bind k addr len => exact Or.inl (guarded fun used => unixBind_changes used addr len)
  | listen k backlog => exact Or.inl (guarded fun used => unixListen_changes used backlog)
  | accept k caller idle => exact Or.inl (guarded fun used => unixAccept_changes h used caller idle)
  | close k => exact Or.inl (guarded fun _ => (Change.close k).once)
  | touch k =>
    refine Or.inl (guarded fun used => ?_)
    simp only [call]
    cases made : endOf t k with
    | none => exact .refl
    | some opened => exact (Change.own used made).once

/-- A datagram connect keeps the tables sound, whatever credentials it copies. -/
theorem Dials.sound {addr : Option Address} {len : U32} {t₁ : Table} {u target : EndSlot}
    (d : Dials t k addr len t₁ u target) (h : Sound t) :
    Sound (connectDgram t₁ k u target) := by
  obtain ⟨_, sound₁, _, _, own⟩ := endOf_opens h d.used d.opened
  obtain ⟨path, _, found⟩ := d.names
  obtain ⟨bound, i, sock, _⟩ := find_spec ((endOf_find d.opened path _).trans found)
  exact (sound₁.setPeer (by simp [own]) bound (by simp [sock])).of_alike (.setState _ k .connected)

theorem step_sound (h : Sound t) (event : Event) : Sound (step t event) := by
  rcases step_cases h event with changes | ⟨k, addr, len, t₁, u, target, _, dials, eq⟩
  · exact changes.sound h
  rw [eq]
  exact dials.sound h

theorem run_sound (events : List Event) : Sound (run boot events) :=
  Runs.run_invariant (P := Sound) (fun _ event h => step_sound h event) boot_sound events

/-- In every run the sockets and their ends name one another, no peer has been given back,
and an end that waits for accept is in the queue of one listener, once. -/
theorem socket_tables_consistent (events : List Event) : Sound (run boot events) :=
  run_sound events

end Calls

end UzOS.Unix
