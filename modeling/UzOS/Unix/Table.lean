import UzOS.Unix.Sock

/-! What every run keeps of the two tables: sockets and ends name each other, a peer
pointer never dangles, and a waiting end is in one queue. -/
namespace UzOS.Unix

namespace Table

variable (t : Table) (k i : SockSlot) (e j : EndSlot) (s : Socket) (x : End)

@[simp, grind =]
theorem setSock_sockets : (t.setSock k s).sockets i = if i = k then s else t.sockets i :=
  Function.update_apply ..

@[simp, grind =]
theorem setEnd_ends : (t.setEnd e x).ends j = if j = e then x else t.ends j :=
  Function.update_apply ..

@[simp, grind =] theorem setSock_ends : (t.setSock k s).ends j = t.ends j := rfl
@[simp, grind =] theorem setEnd_sockets : (t.setEnd e x).sockets i = t.sockets i := rfl
@[simp, grind =] theorem setSock_owners : (t.setSock k s).owners = t.owners := rfl
@[simp, grind =] theorem setEnd_owners : (t.setEnd e x).owners = t.owners := rfl

end Table

/-- The two tables agree with each other. -/
structure Sound (t : Table) : Prop where
  has_end : ∀ k e, (t.sockets k).used = true → (t.sockets k).proto = some e →
    (t.ends e).used = true ∧ (t.ends e).sock = some k
  has_sock : ∀ e k, (t.ends e).used = true → (t.ends e).sock = some k →
    (t.sockets k).used = true ∧ (t.sockets k).proto = some e
  peer_used : ∀ e p, (t.ends e).used = true → (t.ends e).peer = some p → (t.ends p).used = true
  /-- Only the client points at an end that waits for accept. -/
  peer_back : ∀ e w, (t.ends e).used = true → (t.ends e).peer = some w →
    (t.ends w).sock = none → (t.ends w).peer = some e
  peer_sock : ∀ w e, (t.ends w).used = true → (t.ends w).sock = none →
    (t.ends w).peer = some e → (t.ends e).sock ≠ none
  waits : ∀ l w, (t.ends l).used = true → w ∈ (t.ends l).queue →
    (t.ends w).used = true ∧ (t.ends w).sock = none
  once : ∀ l, (t.ends l).used = true → (t.ends l).queue.Nodup
  apart : ∀ l m w, (t.ends l).used = true → (t.ends m).used = true →
    w ∈ (t.ends l).queue → w ∈ (t.ends m).queue → l = m
  owner : ∀ k, (t.sockets k).used = true →
    t.owners[(t.sockets k).serial]? = some (defPeerCred (t.sockets k))

theorem boot_sound : Sound boot := by constructor <;> simp [boot]

variable {t t' : Table}

/-- The tables differ in names, backlogs and the sockets' states only. -/
structure Alike (t t' : Table) : Prop where
  owners : t'.owners = t.owners
  ends : ∀ e, (t'.ends e).used = (t.ends e).used ∧ (t'.ends e).sock = (t.ends e).sock ∧
    (t'.ends e).peer = (t.ends e).peer ∧ (t'.ends e).queue = (t.ends e).queue ∧
    (t'.ends e).peerCred = (t.ends e).peerCred ∧ (t'.ends e).link = (t.ends e).link
  sockets : ∀ k, (t'.sockets k).used = (t.sockets k).used ∧
    (t'.sockets k).proto = (t.sockets k).proto ∧
    (t'.sockets k).serial = (t.sockets k).serial ∧
    defPeerCred (t'.sockets k) = defPeerCred (t.sockets k)

theorem Sound.of_alike (h : Sound t) (same : Alike t t') : Sound t' := by
  have used e := (same.ends e).1
  have sock e := (same.ends e).2.1
  have peer e := (same.ends e).2.2.1
  have queue e := (same.ends e).2.2.2.1
  have inUse k := (same.sockets k).1
  have proto k := (same.sockets k).2.1
  have serial k := (same.sockets k).2.2.1
  have cred k := (same.sockets k).2.2.2
  constructor
  · simpa only [used, sock, inUse, proto] using h.has_end
  · simpa only [used, sock, inUse, proto] using h.has_sock
  · simpa only [used, peer] using h.peer_used
  · simpa only [used, peer, sock] using h.peer_back
  · simpa only [used, peer, sock] using h.peer_sock
  · simpa only [used, queue, sock] using h.waits
  · simpa only [used, queue] using h.once
  · simpa only [used, queue] using h.apart
  · simpa only [inUse, serial, cred, same.owners] using h.owner

theorem Alike.setState (t : Table) (k : SockSlot) (state : SockState) :
    Alike t (t.setSock k { t.sockets k with state }) := by
  constructor
  · rfl
  · simp
  · intro i
    by_cases here : i = k <;> simp [here, defPeerCred]

theorem Alike.setName (t : Table) (u : EndSlot) (path : List U8) (backlog : Int) :
    Alike t (t.setEnd u { t.ends u with path, backlog }) := by
  constructor
  · rfl
  · intro e
    by_cases here : e = u <;> simp [here]
  · simp

/-! ## New sockets and ends -/

variable {e u : EndSlot} {k : SockSlot}

theorem newEnd_spec {sock : Option SockSlot} (made : newEnd t sock = some (t', e)) :
    (t.ends e).used = false ∧ t' = t.setEnd e { used := true, sock } := by
  obtain ⟨slot, found, eq⟩ := Option.map_eq_some_iff.mp made
  cases eq
  exact ⟨by simpa using findSlot_some found, rfl⟩

variable {caller : Caller} {target : EndSlot} {type : SockType}

theorem socketCreate_spec {idle : SockSlot → Bool}
    (made : socketCreate t caller type idle = some (t', k)) :
    (t.sockets k).used = false ∧ t'.ends = t.ends ∧
      t'.owners = t.owners ++ [defPeerCred (t'.sockets k)] ∧
      (t'.sockets k).used ∧ (t'.sockets k).proto = none ∧
      (t'.sockets k).serial = t.owners.length ∧
      ∀ i, i ≠ k → t'.sockets i = t.sockets i := by
  obtain ⟨slot, found, eq⟩ := Option.map_eq_some_iff.mp made
  cases eq
  have idleSlot := findSlot_some found
  simp only [Bool.and_eq_true, Bool.not_eq_true'] at idleSlot
  simp +contextual [idleSlot, Table.setSock, defPeerCred]

/-- The record of owners only grows. -/
theorem owners_append {owners : List Cred} {serial : Nat} {cred : Cred} (more : List Cred)
    (known : owners[serial]? = some cred) : (owners ++ more)[serial]? = some cred := by
  obtain ⟨inside, _⟩ := List.getElem?_eq_some_iff.mp known
  rw [List.getElem?_append_left inside, known]

theorem socketCreate_sound (h : Sound t) {idle : SockSlot → Bool}
    (made : socketCreate t caller type idle = some (t', k)) : Sound t' := by
  obtain ⟨unused, ends, owners, used, proto, serial, others⟩ := socketCreate_spec made
  have other (e : EndSlot) (i : SockSlot) (inUse : (t.ends e).used)
      (sock : (t.ends e).sock = some i) : i ≠ k := by
    rintro rfl
    rw [(h.has_sock e i inUse sock).1] at unused
    cases unused
  constructor
  case has_end =>
    intro i e inUse has
    by_cases here : i = k
    · subst here
      rw [proto] at has
      cases has
    rw [others i here] at inUse has
    rw [ends]
    exact h.has_end i e inUse has
  case has_sock =>
    rw [ends]
    intro e i inUse sock
    rw [others i (other e i inUse sock)]
    exact h.has_sock e i inUse sock
  case owner =>
    intro i inUse
    by_cases here : i = k
    · subst here
      simp [owners, serial]
    rw [others i here] at inUse ⊢
    rw [owners]
    exact owners_append _ (h.owner i inUse)
  all_goals rw [ends]
  · exact h.peer_used
  · exact h.peer_back
  · exact h.peer_sock
  · exact h.waits
  · exact h.once
  · exact h.apart

/-- A fresh end changes nothing for the others: none of them refers to it. -/
theorem Sound.addEnd (h : Sound t) (used : (t.sockets k).used)
    (bare : (t.sockets k).proto = none) (unused : (t.ends e).used = false) :
    Sound ((t.setEnd e { used := true, sock := some k }).setSock k
      { t.sockets k with proto := some e }) := by
  have other (i : EndSlot) (inUse : (t.ends i).used) : i ≠ e := by
    rintro rfl
    rw [inUse] at unused
    cases unused
  constructor
  · grind [h.has_end]
  · grind [h.has_sock]
  · grind [h.peer_used]
  · grind [h.peer_back, h.peer_used]
  · grind [h.peer_sock]
  · grind [h.waits]
  · grind [h.once]
  · grind [h.apart]
  · grind [h.owner, defPeerCred]

section
variable (made : endOf t k = some (t', e))
include made

theorem endOf_cases : (t' = t ∧ (t.sockets k).proto = some e) ∨
      ((t.sockets k).proto = none ∧ (t.ends e).used = false ∧
        t' = (t.setEnd e { used := true, sock := some k }).setSock k
          { t.sockets k with proto := some e }) := by
  unfold endOf at made
  cases has : (t.sockets k).proto with
  | some own =>
    rw [has] at made
    cases made
    exact Or.inl ⟨rfl, rfl⟩
  | none =>
    rw [has] at made
    obtain ⟨⟨made', own⟩, fresh, eq⟩ := Option.map_eq_some_iff.mp made
    cases eq
    obtain ⟨unused, rfl⟩ := newEnd_spec fresh
    exact Or.inr ⟨rfl, unused, rfl⟩

theorem endOf_proto : (t'.sockets k).proto = some e := by
  rcases endOf_cases made with ⟨rfl, has⟩ | ⟨_, _, rfl⟩
  · exact has
  · simp

/-- It changes no socket but for its pointer to the end. -/
theorem endOf_sockets (i : SockSlot) : (t'.sockets i).used = (t.sockets i).used ∧
      (t'.sockets i).type = (t.sockets i).type ∧ (t'.sockets i).state = (t.sockets i).state ∧
      (t'.sockets i).serial = (t.sockets i).serial ∧
      defPeerCred (t'.sockets i) = defPeerCred (t.sockets i) := by
  rcases endOf_cases made with ⟨rfl, _⟩ | ⟨_, _, rfl⟩
  · simp
  · by_cases here : i = k <;> simp [here, defPeerCred]

end

theorem endOf_sound (h : Sound t) (used : (t.sockets k).used)
    (made : endOf t k = some (t', e)) : Sound t' := by
  rcases endOf_cases made with ⟨rfl, _⟩ | ⟨bare, unused, rfl⟩
  · exact h
  · exact h.addEnd used bare unused

/-! ## Connecting -/

/-- An end with a socket may be pointed at another such end. -/
theorem Sound.setPeer (h : Sound t) {cred : Cred} {link : Link} (own : (t.ends u).sock ≠ none)
    (used : (t.ends target).used) (sock : (t.ends target).sock ≠ none) :
    Sound (t.setEnd u { t.ends u with peer := some target, peerCred := cred, link }) := by
  constructor
  · grind [h.has_end]
  · grind [h.has_sock]
  · grind [h.peer_used]
  · grind [h.peer_back]
  · grind [h.peer_sock]
  · grind [h.waits]
  · grind [h.once]
  · grind [h.apart]
  · exact h.owner

/-- A client's new server end waits in the listener's queue. -/
theorem Sound.enqueue (h : Sound t) {w : EndSlot} {listener : Socket}
    (used : (t.ends u).used) (own : (t.ends u).sock = some k)
    (bound : (t.ends target).used) (fresh : (t.ends w).used = false) :
    Sound (enqueued (t.setEnd w { used := true }) k u target w listener) := by
  have apart : u ≠ w ∧ target ≠ w := by grind
  constructor
  · grind [h.has_end, enqueued]
  · grind [h.has_sock, enqueued]
  · grind [h.peer_used, enqueued]
  · grind [h.peer_back, h.peer_used, enqueued]
  · grind [h.peer_sock, h.peer_used, enqueued]
  · grind [h.waits, enqueued]
  · grind [h.once, h.waits, enqueued]
  · grind [h.apart, h.waits, enqueued]
  · grind [h.owner, enqueued, defPeerCred]

theorem find_spec {path : List U8} (found : find t path type = some e) :
    (t.ends e).used ∧ ∃ k, (t.ends e).sock = some k ∧ (t.sockets k).type = type := by
  have passes := findSlot_some found
  simp only [Bool.and_eq_true] at passes
  obtain ⟨⟨⟨used, _⟩, sock⟩, _⟩ := passes
  obtain ⟨k, has, same⟩ := (Option.any_eq_true _ _).mp sock
  exact ⟨used, k, has, by simpa using same⟩

/-! ## Accepting -/

/-- The end at the head of the queue gets the new socket. -/
theorem Sound.dequeue (h : Sound t) {l : EndSlot} {rest : List EndSlot} {ns : SockSlot}
    (listens : (t.ends l).used) (own : (t.ends l).sock = some k)
    (queue : (t.ends l).queue = e :: rest) (used : (t.sockets ns).used)
    (bare : (t.sockets ns).proto = none) : Sound (handOver t l e rest ns) := by
  have waits := h.waits l e listens (by simp [queue])
  have apart : l ≠ e := by
    rintro rfl
    rw [waits.2] at own
    cases own
  have once := h.once l listens
  rw [queue] at once
  obtain ⟨fresh, once⟩ := List.nodup_cons.mp once
  constructor
  · grind [h.has_end, handOver]
  · grind [h.has_sock, handOver]
  · grind [h.peer_used, handOver]
  · grind [h.peer_back, handOver]
  · grind [h.peer_sock, handOver]
  · grind [h.waits, h.apart, handOver]
  · grind [h.once, handOver]
  · grind [h.apart, handOver]
  · grind [h.owner, handOver, defPeerCred]

/-! ## Closing -/

theorem dropWaiting_tables (w : EndSlot) :
    (dropWaiting t w).sockets = t.sockets ∧ (dropWaiting t w).owners = t.owners := by
  unfold dropWaiting
  cases (t.ends w).peer <;> exact ⟨rfl, rfl⟩

theorem dropWaiting_ends {w : EndSlot} (apart : (t.ends w).peer ≠ some w) (e : EndSlot) :
    (dropWaiting t w).ends e = { t.ends e with
      used := (t.ends e).used && e != w
      peer := if (t.ends w).peer = some e then none else (t.ends e).peer } := by
  unfold dropWaiting
  cases has : (t.ends w).peer with
  | none =>
    by_cases here : e = w
    · simp [free, here]
    · simp [free, here, bne_iff_ne.mpr here]
  | some p =>
    have other : w ≠ p := fun same => apart (same ▸ has)
    by_cases here : e = w
    · simp [free, forget, here, other, other.symm]
    by_cases there : e = p
    · simp [free, forget, there, other.symm]
    · simp [free, forget, here, there, Ne.symm there, bne_iff_ne.mpr here]

/-- The queue's ends go, and those they pointed at forget them. -/
theorem dropAll_spec (queue : List EndSlot)
    (apart : ∀ w ∈ queue, ∀ p ∈ queue, (t.ends w).peer ≠ some p) :
    (queue.foldl dropWaiting t).sockets = t.sockets ∧
    (queue.foldl dropWaiting t).owners = t.owners ∧
    ∀ e, (queue.foldl dropWaiting t).ends e = { t.ends e with
      used := (t.ends e).used && !queue.contains e
      peer := if queue.any (fun w => (t.ends w).peer == some e) then none
        else (t.ends e).peer } := by
  induction queue generalizing t with
  | nil => simp
  | cons w rest ih =>
    have own : (t.ends w).peer ≠ some w := apart w (by simp) w (by simp)
    have first := dropWaiting_ends own
    -- the first round leaves the peers of the others as they are
    have later : ∀ v ∈ rest, ((dropWaiting t w).ends v).peer = (t.ends v).peer := by
      intro v waits
      rw [first v, if_neg (apart w (by simp) v (by simp [waits]))]
    have ⟨sockets, owners, ends⟩ := ih (t := dropWaiting t w) (by
      intro v waits p other
      rw [later v waits]
      exact apart v (by simp [waits]) p (by simp [other]))
    refine ⟨sockets.trans (dropWaiting_tables w).1, owners.trans (dropWaiting_tables w).2, ?_⟩
    intro e
    rw [List.foldl_cons, ends e, first e]
    have pointed : rest.any (fun v => ((dropWaiting t w).ends v).peer == some e) =
        rest.any (fun v => (t.ends v).peer == some e) := by
      rw [Bool.eq_iff_iff, List.any_eq_true, List.any_eq_true]
      constructor <;> rintro ⟨v, waits, points⟩
      · exact ⟨v, waits, later v waits ▸ points⟩
      · exact ⟨v, waits, (later v waits).symm ▸ points⟩
    rw [pointed]
    grind

theorem leavePeer_spec (u : EndSlot) :
    (leavePeer t u).sockets = t.sockets ∧ (leavePeer t u).owners = t.owners ∧
    ∀ e, (leavePeer t u).ends e = t.ends e ∨
      (t.ends e).peer = some u ∧ (leavePeer t u).ends e = { t.ends e with peer := none } := by
  unfold leavePeer
  cases has : (t.ends u).peer with
  | none => exact ⟨rfl, rfl, fun _ => Or.inl rfl⟩
  | some p =>
    by_cases back : (t.ends p).peer = some u
    · simp only [back]
      refine ⟨rfl, rfl, fun e => ?_⟩
      by_cases here : e = p
      · subst here
        exact Or.inr ⟨back, by simp [forget]⟩
      · exact Or.inl (by simp [forget, here])
    · simp [back]

theorem forgetUs_loop (u : EndSlot) :
    (forSlots (forgetUs u) t).sockets = t.sockets ∧ (forSlots (forgetUs u) t).owners = t.owners ∧
    ∀ e, (forSlots (forgetUs u) t).ends e =
      if (t.ends e).used && (t.ends e).peer == some u then { t.ends e with peer := none }
      else t.ends e := by
  have round (r : Table) (i : EndSlot) :
      (forgetUs u r i).sockets = r.sockets ∧ (forgetUs u r i).owners = r.owners := by
    unfold forgetUs
    split <;> exact ⟨rfl, rfl⟩
  have tables : (forSlots (forgetUs u) t).sockets = t.sockets ∧
      (forSlots (forgetUs u) t).owners = t.owners := by
    apply forSlots_keeps (P := fun r : Table => r.sockets = t.sockets ∧ r.owners = t.owners)
    · exact ⟨rfl, rfl⟩
    · exact fun r i here => ⟨(round r i).1.trans here.1, (round r i).2.trans here.2⟩
  refine ⟨tables.1, tables.2, fun e => ?_⟩
  apply forSlots_pointwise (P := fun _ => True) Table.ends (f := fun _ x =>
    if x.used && x.peer == some u then { x with peer := none } else x)
  · exact fun _ _ _ => trivial
  · intro r i _
    unfold forgetUs
    split <;> simp_all [forget]
  · intro r i j _ other
    unfold forgetUs
    split <;> simp [forget, other]
  · trivial

/-- Whoever is in use and points at `u` forgets it. -/
theorem leave_spec (u : EndSlot) :
    (forSlots (forgetUs u) (leavePeer t u)).sockets = t.sockets ∧
    (forSlots (forgetUs u) (leavePeer t u)).owners = t.owners ∧
    (∀ e, ((forSlots (forgetUs u) (leavePeer t u)).ends e).used = (t.ends e).used) ∧
    ∀ e, (t.ends e).used → (forSlots (forgetUs u) (leavePeer t u)).ends e =
      { t.ends e with peer := if (t.ends e).peer == some u then none else (t.ends e).peer } := by
  obtain ⟨sockets, owners, ends⟩ := leavePeer_spec (t := t) u
  obtain ⟨sockets', owners', ends'⟩ := forgetUs_loop (t := leavePeer t u) u
  refine ⟨sockets'.trans sockets, owners'.trans owners, ?_, ?_⟩
  · intro e
    rw [ends' e]
    rcases ends e with same | ⟨_, same⟩ <;> rw [same] <;> split <;> rfl
  · intro e used
    rw [ends' e]
    rcases ends e with same | ⟨points, same⟩
    · rw [same]
      by_cases points : (t.ends e).peer = some u
      · simp [used, points]
      · simp [points]
    · rw [same]
      simp [points]

/-- An end after the socket of `u` is closed: `u` and its queue go, and whoever pointed at
one of them points at nothing. -/
def closedEnd (t : Table) (u e : EndSlot) : End :=
  { t.ends e with
    used := (t.ends e).used && e != u && !(t.ends u).queue.contains e
    peer := if (t.ends e).peer == some u ||
        (t.ends u).queue.any (fun w => (t.ends w).peer == some e) then none
      else (t.ends e).peer }

/-- Nobody in a queue points into it: they wait, and their clients have sockets. -/
theorem Sound.queue_apart (h : Sound t) {l : EndSlot} (used : (t.ends l).used) :
    ∀ w ∈ (t.ends l).queue, ∀ p ∈ (t.ends l).queue, (t.ends w).peer ≠ some p := by
  intro w waits p other points
  obtain ⟨inUse, none⟩ := h.waits l w used waits
  exact h.peer_sock w p inUse none points (h.waits l p used other).2

theorem unixClose_spec (h : Sound t) (used : (t.sockets k).used)
    (has : (t.sockets k).proto = some u) :
    (unixClose t k).owners = t.owners ∧
    (∀ i, (unixClose t k).sockets i =
      if i = k then { t.sockets k with proto := none } else t.sockets i) ∧
    (∀ e, ((unixClose t k).ends e).used = (closedEnd t u e).used) ∧
    ∀ e, (closedEnd t u e).used → (unixClose t k).ends e = closedEnd t u e := by
  obtain ⟨inUse, own⟩ := h.has_end k u used has
  obtain ⟨sockets₁, owners₁, ends₁⟩ := dropAll_spec _ (h.queue_apart inUse)
  obtain ⟨t₁, t₁_eq⟩ : ∃ t₁, t₁ = (t.ends u).queue.foldl dropWaiting t := ⟨_, rfl⟩
  rw [← t₁_eq] at sockets₁ owners₁ ends₁
  obtain ⟨sockets₂, owners₂, used₂, ends₂⟩ := leave_spec (t := t₁) u
  have result : unixClose t k = (free (forSlots (forgetUs u) (leavePeer t₁ u)) u).setSock k
      { t.sockets k with proto := none } := by
    simp [unixClose, has, ← t₁_eq, free, sockets₁, sockets₂]
  rw [result]
  refine ⟨?_, ?_, ?_, ?_⟩
  · simp [free, owners₂, owners₁]
  · intro i
    simp [free, sockets₂, sockets₁]
  · intro e
    by_cases here : e = u
    · simp [free, closedEnd, here]
    · simp [free, closedEnd, here, used₂, ends₁, bne_iff_ne.mpr here]
  · intro e left
    have differs : e ≠ u := by
      rintro rfl
      simp [closedEnd] at left
    have kept : (t₁.ends e).used := by
      simp only [closedEnd, Bool.and_eq_true] at left
      rw [ends₁ e]
      exact Bool.and_eq_true_iff.mpr ⟨left.1.1, left.2⟩
    simp only [free, Table.setSock_ends, Table.setEnd_ends, if_neg differs]
    rw [ends₂ e kept, ends₁ e]
    simp only [closedEnd, bne_iff_ne.mpr differs, Bool.and_true]
    grind

/-- What is left of the ends after a close. -/
structure Closed (t t' : Table) (k : SockSlot) (u : EndSlot) : Prop where
  owners : t'.owners = t.owners
  closed : (t'.sockets k).used = false
  sockets : ∀ i, i ≠ k → t'.sockets i = t.sockets i
  used : ∀ e, (t'.ends e).used = true ↔
    (t.ends e).used = true ∧ e ≠ u ∧ e ∉ (t.ends u).queue
  ends : ∀ e, (t'.ends e).used = true → t'.ends e = closedEnd t u e

theorem socketClose_closed (h : Sound t) (used : (t.sockets k).used)
    (has : (t.sockets k).proto = some u) : Closed t (socketClose t k) k u := by
  obtain ⟨owners, sockets, inUse, ends⟩ := unixClose_spec h used has
  have result : socketClose t k = (unixClose t k).setSock k
      { (unixClose t k).sockets k with used := false } := if_pos used
  rw [result]
  constructor
  · exact owners
  · simp
  · intro i other
    simp [other, sockets i]
  · intro e
    simp [inUse e, closedEnd, and_assoc]
  · intro e left
    exact ends e (inUse e ▸ left)

namespace Closed

variable {k : SockSlot} {u : EndSlot}

variable (c : Closed t t' k u)
include c

theorem same {e : EndSlot} (left : (t'.ends e).used) :
    (t'.ends e).sock = (t.ends e).sock ∧ (t'.ends e).queue = (t.ends e).queue ∧
      (t'.ends e).peerCred = (t.ends e).peerCred ∧ (t'.ends e).link = (t.ends e).link := by
  rw [c.ends e left]
  exact ⟨rfl, rfl, rfl, rfl⟩

theorem peer_iff {e p : EndSlot} (left : (t'.ends e).used) :
    (t'.ends e).peer = some p ↔ (t.ends e).peer = some p ∧ p ≠ u ∧
      ∀ w ∈ (t.ends u).queue, (t.ends w).peer ≠ some e := by
  rw [c.ends e left]
  simp only [closedEnd]
  grind

theorem peer_left (h : Sound t) (own : (t.ends u).used)
    {e p : EndSlot} (left : (t'.ends e).used) (peer : (t'.ends e).peer = some p) :
    (t'.ends p).used := by
  obtain ⟨peer, other, unclaimed⟩ := (c.peer_iff left).mp peer
  obtain ⟨used, differs, _⟩ := (c.used e).mp left
  refine (c.used p).mpr ⟨h.peer_used e p used peer, other, fun waits => ?_⟩
  -- a waiting end's only visitor is its client, which has just forgotten it
  exact unclaimed p waits (h.peer_back e p used peer (h.waits u p own waits).2)

theorem sound (h : Sound t) (used : (t.sockets k).used)
    (has : (t.sockets k).proto = some u) : Sound t' := by
  obtain ⟨inUse, own⟩ := h.has_end k u used has
  constructor
  · grind [h.has_end, h.waits, c.used, c.sockets, c.closed, c.same]
  · grind [h.has_sock, c.used, c.sockets, c.closed, c.same]
  · exact fun e p left peer => c.peer_left h inUse left peer
  · intro e w left peer none
    have waits := c.peer_left h inUse left peer
    rw [(c.same waits).1] at none
    obtain ⟨peer, _, _⟩ := (c.peer_iff left).mp peer
    obtain ⟨was, differs, _⟩ := (c.used e).mp left
    refine (c.peer_iff waits).mpr ⟨h.peer_back e w was peer none, differs, ?_⟩
    intro v queued points
    obtain ⟨vUsed, vNone⟩ := h.waits u v inUse queued
    exact h.peer_sock v w vUsed vNone points none
  · intro w e left none peer
    rw [(c.same (c.peer_left h inUse left peer)).1]
    rw [(c.same left).1] at none
    exact h.peer_sock w e ((c.used w).mp left).1 none ((c.peer_iff left).mp peer).1
  · intro l w left queued
    rw [(c.same left).2.1] at queued
    obtain ⟨was, differs, _⟩ := (c.used l).mp left
    obtain ⟨waits, none⟩ := h.waits l w was queued
    have kept : (t'.ends w).used := by
      refine (c.used w).mpr ⟨waits, ?_, ?_⟩
      · rintro rfl
        rw [none] at own
        cases own
      · exact fun other => differs (h.apart l u w was inUse queued other)
    exact ⟨kept, (c.same kept).1.trans none⟩
  · intro l left
    rw [(c.same left).2.1]
    exact h.once l ((c.used l).mp left).1
  · intro l m w left leftToo queued queuedToo
    rw [(c.same left).2.1] at queued
    rw [(c.same leftToo).2.1] at queuedToo
    exact h.apart l m w ((c.used l).mp left).1 ((c.used m).mp leftToo).1 queued queuedToo
  · grind [h.owner, c.sockets, c.closed, c.owners]

end Closed

theorem socketClose_sound (h : Sound t) (k : SockSlot) : Sound (socketClose t k) := by
  by_cases used : (t.sockets k).used
  · cases has : (t.sockets k).proto with
    | some u => exact (socketClose_closed h used has).sound h used has
    | none =>
      simp only [socketClose, unixClose, used, if_true, has]
      constructor
      · grind [h.has_end]
      · grind [h.has_sock]
      · exact h.peer_used
      · exact h.peer_back
      · exact h.peer_sock
      · exact h.waits
      · exact h.once
      · exact h.apart
      · grind [h.owner]
  · rwa [socketClose, if_neg used]

end UzOS.Unix
