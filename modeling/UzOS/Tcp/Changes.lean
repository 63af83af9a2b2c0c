import UzOS.Tcp.Place

/-! What segments, timers and programs do to the table, one slot at a time. -/
namespace UzOS.Tcp

variable {calm kids fits : Prop} {now : U32}

/-- One of the connections that lookup() finds by their addresses. -/
def Conn.live (c : Conn) : Bool := c.used && c.state != .listen && c.state != .closed

theorem live_iff (c : Conn) : c.live ↔ c.used ∧ c.state ≠ .listen ∧ c.state ≠ .closed := by
  simp [Conn.live, and_assoc]

namespace Table

variable (t : Table)

@[simp] theorem set_same (i : Slot) (c : Conn) : (t.set i c).conns i = c := by
  simp [set]

theorem set_other {i j : Slot} (c : Conn) (apart : j ≠ i) : (t.set i c).conns j = t.conns j := by
  simp [set, apart]

@[simp] theorem set_set (i : Slot) (c d : Conn) : (t.set i c).set i d = t.set i d := by
  simp [set]

@[simp] theorem set_self (i : Slot) : t.set i (t.conns i) = t := by simp [set]

theorem queue_conns (l : Nat) (n : Int) (j : Slot) : (t.queue l n).conns j =
    if j.val = l then { t.conns j with pending := (t.conns j).pending + n } else t.conns j := by
  unfold queue
  by_cases inside : l < tcpMaxConns
  · rw [dif_pos inside]
    by_cases same : j.val = l
    · subst same
      simp
    · rw [if_neg same, set_other _ _ fun e => same (by rw [e])]
  · have far : j.val ≠ l := fun same => inside (same ▸ j.isLt)
    rw [dif_neg inside, if_neg far]

/-- Only `pending` is changed through a pointer. -/
theorem queue_same (l : Nat) (n : Int) (j : Slot) :
    ∃ p, (t.queue l n).conns j = { t.conns j with pending := p } := by
  rw [queue_conns]
  split <;> exact ⟨_, rfl⟩

theorem queue_port (l : Nat) (n : Int) : (t.queue l n).nextPort = t.nextPort := by
  unfold queue
  split <;> rfl

theorem queue_pending (l : Nat) (n : Int) (j : Slot) :
    ((t.queue l n).conns j).pending = (t.conns j).pending + if j.val = l then n else 0 := by
  rw [queue_conns]
  split
  · rfl
  · exact (Int.add_zero _).symm

/-- What is in a slot that is overwritten does not matter. -/
theorem set_queue_set (i k : Slot) (n : Int) (c d : Conn) :
    ((t.set k c).queue i n).set k d = (t.queue i n).set k d := by
  refine Table.ext ?_ ((queue_port _ _ _).trans (queue_port t _ _).symm)
  funext j
  by_cases here : j = k
  · subst here
    simp
  · rw [set_other _ _ here, set_other _ _ here, queue_conns, queue_conns, set_other _ _ here]

/-- Tell the listener, if there is one. -/
def release (l : Option Nat) : Table := l.toList.foldl (fun t l => t.queue l (-1)) t

theorem release_same (l : Option Nat) (j : Slot) :
    ∃ p, (t.release l).conns j = { t.conns j with pending := p } := by
  cases l with
  | none => exact ⟨_, rfl⟩
  | some l => exact queue_same t l (-1) j

theorem release_pending (l : Option Nat) (j : Slot) :
    ((t.release l).conns j).pending = (t.conns j).pending - if l = some j.val then 1 else 0 := by
  cases l with
  | none => exact (Int.sub_zero _).symm
  | some l =>
    refine (queue_pending t l (-1) j).trans ?_
    by_cases same : j.val = l
    · rw [if_pos same, if_pos (congrArg some same.symm)]
      rfl
    rw [if_neg fun e => same (Option.some.inj e).symm]
    omega

end Table

open Table

/-- What segments and timers do; `kids` says that a connection may be made, and
`fits` that none is made for a listener whose queue is full. -/
inductive Change (calm kids fits : Prop) : Table → Table → Prop where
  | stays (t : Table) (i : Slot) (d : Conn) (h : Stays calm (t.conns i) d) :
      Change calm kids fits t (t.set i d)
  | freed (t : Table) (i : Slot) (d : Conn) (lasts : calm → (t.conns i).state ≠ .listen)
      (gone : Stays calm .zero d) :
      Change calm kids fits t ((t.set i d).release (t.conns i).listener)
  | child (t : Table) (l k : Slot) (c : Conn) (allowed : kids) (inUse : (t.conns l).used = true)
      (listens : (t.conns l).state = .listen) (free : (t.conns k).used = false) (used : c.used = true)
      (listener : c.listener = some l.val) (fresh : (c.pending, c.backlog) = (0, 0))
      (sock : c.sock = none) (state : c.state ≠ .listen)
      (port : c.localPort = (t.conns l).localPort)
      (first : ∀ j, (t.conns j).live = true → (t.conns j).tuple ≠ c.tuple)
      (room : fits → (t.conns l).pending < (t.conns l).backlog) :
      Change calm kids fits t ((t.queue l 1).set k c)

def Changes (calm kids fits : Prop) : Table → Table → Prop :=
  Relation.ReflTransGen (Change calm kids fits)

theorem Changes.refl (t : Table) : Changes calm kids fits t t := Relation.ReflTransGen.refl

variable {t t' : Table} {i : Slot}

theorem Change.changes (h : Change calm kids fits t t') : Changes calm kids fits t t' := .single h

variable (secrets : Secrets) {s : Seg} {a b : Table}

section
variable (h : Changes calm kids fits a b)
include h

theorem Changes.then {c : Table} (k : Change calm kids fits b c) :
    Changes calm kids fits a c := Relation.ReflTransGen.tail h k

theorem Changes.trans {c : Table} (k : Changes calm kids fits b c) :
    Changes calm kids fits a c := Relation.ReflTransGen.trans h k

/-- What one change keeps every chain keeps. -/
theorem Changes.keeps {P : Table → Prop} (start : P a)
    (one : ∀ {a b}, Change calm kids fits a b → P a → P b) : P b := by
  induction h with
  | refl => exact start
  | tail _ change ih => exact one change ih

end

/-- Nothing of this makes a connection listen. -/
theorem Change.listen (h : Change calm kids fits t t') (j : Slot)
    (listens : (t'.conns j).state = .listen) : (t.conns j).state = .listen := by
  cases h with
  | stays i d h =>
    by_cases here : j = i
    · subst here
      rw [set_same] at listens
      exact h.listen listens
    · rwa [set_other _ _ here] at listens
  | freed i d lasts gone =>
    obtain ⟨p, same⟩ := release_same (t.set i d) (t.conns i).listener j
    rw [same] at listens
    by_cases here : j = i
    · subst here
      rw [set_same] at listens
      cases gone.listen listens
    · rwa [set_other _ _ here] at listens
  | child l k c allowed inUse listens' free used listener fresh sock state =>
    by_cases here : j = k
    · subst here
      rw [set_same] at listens
      exact absurd listens state
    rw [set_other _ _ here] at listens
    obtain ⟨p, same⟩ := queue_same t l 1 j
    rw [same] at listens
    exact listens

theorem Changes.listen (h : Changes calm kids fits t t') (j : Slot)
    (listens : (t'.conns j).state = .listen) : (t.conns j).state = .listen := by
  induction h with
  | refl => exact listens
  | tail _ change ih => exact ih (change.listen j listens)

/-! Which connection a segment belongs to. -/

section
variable (t : Table) (dst : U32) (dport : U16) (src : U32) (sport : U16)

/-- The connection with these addresses. -/
def Exact (i : Slot) : Prop :=
  (t.conns i).live = true ∧ (t.conns i).tuple = (dst, dport, src, sport)

/-- A listener on the port. -/
def ListensOn (i : Slot) : Prop :=
  (t.conns i).used = true ∧ (t.conns i).state = .listen ∧ (t.conns i).localPort = dport

variable (slots : List Slot) (listener : Option Slot)

theorem lookupLoop_spec {i : Slot}
    (found : t.lookupLoop dst dport src sport slots listener = some i) :
    Exact t dst dport src sport i ∨ ((listener = some i ∨ ListensOn t dport i) ∧
      ∀ j ∈ slots, ¬Exact t dst dport src sport j) := by
  induction slots generalizing listener with
  | nil => exact .inr ⟨.inl found, nofun⟩
  | cons k rest ih =>
    have passed (other : ¬Exact t dst dport src sport k)
        (later : ∀ j ∈ rest, ¬Exact t dst dport src sport j) :
        ∀ j ∈ k :: rest, ¬Exact t dst dport src sport j := by
      intro j member
      rcases List.mem_cons.mp member with rfl | member
      · exact other
      · exact later j member
    unfold lookupLoop at found
    dsimp only at found
    split at found
    · rename_i elsewhere
      refine (ih listener found).imp_right fun ⟨hears, later⟩ => ⟨hears, passed ?_ later⟩
      rintro ⟨live, tuple⟩
      have port : (t.conns k).localPort = dport := congrArg (fun x => x.2.1) tuple
      simp [((live_iff _).mp live).1, port] at elsewhere
    · rename_i here
      simp only [Bool.or_eq_true, Bool.not_eq_true', bne_iff_ne, not_or, Bool.not_eq_false,
        Decidable.not_not] at here
      split at found
      · rename_i listens
        have hears : ListensOn t dport k := ⟨here.1, listens, here.2⟩
        refine (ih _ found).imp_right fun ⟨first, later⟩ => ⟨?_, passed ?_ later⟩
        · rcases first with first | first
          · split at first
            · cases first
              exact .inr hears
            · exact .inl first
          · exact .inr first
        · rintro ⟨live, -⟩
          exact ((live_iff _).mp live).2.1 listens
      · rename_i other
        split at found
        · rename_i exact_
          simp only [Bool.and_eq_true, bne_iff_ne, beq_iff_eq] at exact_
          obtain ⟨⟨⟨open_, sport'⟩, src'⟩, dst'⟩ := exact_
          cases found
          refine .inl ⟨(live_iff _).mpr ⟨here.1, other, open_⟩, ?_⟩
          simp [Conn.tuple, here.2, sport', src', dst']
        · rename_i different
          refine (ih listener found).imp_right fun ⟨hears, later⟩ => ⟨hears, passed ?_ later⟩
          rintro ⟨live, tuple⟩
          simp only [Conn.tuple, Prod.mk.injEq] at tuple
          obtain ⟨dst', -, src', sport'⟩ := tuple
          simp [((live_iff _).mp live).2.2, dst', src', sport'] at different

/-- The loop does not pass the connection by. -/
theorem lookupLoop_none (found : t.lookupLoop dst dport src sport slots listener = none) :
    ∀ j ∈ slots, ¬Exact t dst dport src sport j := by
  induction slots generalizing listener with
  | nil => exact nofun
  | cons k rest ih =>
    unfold lookupLoop at found
    dsimp only at found
    intro j member exact_
    rcases List.mem_cons.mp member with rfl | member
    · obtain ⟨live, tuple⟩ := exact_
      obtain ⟨used, other, open_⟩ := (live_iff _).mp live
      simp only [Conn.tuple, Prod.mk.injEq] at tuple
      obtain ⟨dst', dport', src', sport'⟩ := tuple
      simp [used, other, open_, dst', dport', src', sport'] at found
    · split at found
      · exact ih listener found j member exact_
      split at found
      · exact ih _ found j member exact_
      split at found
      · cases found
      · exact ih listener found j member exact_

/-- lookup() finds the connection with these addresses, or a listener when
there is none. -/
theorem lookup_spec {i : Slot} (found : t.lookup dst dport src sport = some i) :
    Exact t dst dport src sport i ∨
      (ListensOn t dport i ∧ ∀ j, ¬Exact t dst dport src sport j) := by
  rcases lookupLoop_spec t dst dport src sport _ _ found with exact_ | ⟨hears, none⟩
  · exact .inl exact_
  have hears := hears.resolve_left nofun
  exact .inr ⟨hears, fun j => none j (List.mem_finRange j)⟩

theorem lookup_none (found : t.lookup dst dport src sport = none) (j : Slot) :
    ¬Exact t dst dport src sport j :=
  lookupLoop_none t dst dport src sport _ _ found j (List.mem_finRange j)

end

/-! Segments. -/

theorem take_fst (t : Table) (i : Slot) (r : Reply) :
    (t.take i r).1 = r.queued.foldl (fun t l => t.queue l (-1)) (t.set i r.conn) := rfl

theorem take_change {r : Reply} (tidy : r.Tidy calm (t.conns i)) :
    Change calm kids fits t (t.take i r).1 := by
  rw [take_fst]
  cases tidy with
  | stays stays told =>
    rw [told]
    exact .stays t i _ stays
  | freed lasts gone told =>
    rw [told]
    exact .freed t i _ lasts gone

/-- The slot tcp_new hands out was free. -/
theorem tcpNew_spec {uid : U32} {cap : Bool} {k : Slot}
    (made : t.tcpNew now uid cap = some (k, t')) :
    (t.conns k).used = false ∧ t' = t.set k (UzOS.Tcp.tcpNew now uid) := by
  unfold Table.tcpNew at made
  split at made
  · obtain ⟨i, found, same⟩ := Option.map_eq_some_iff.mp made
    cases same
    exact ⟨by simpa using findSlot_some found, rfl⟩
  · cases made

/-- A child in its slot, whatever becomes of it at once. -/
theorem child_changes {k : Slot} {c new : Conn} {r : Reply} (tidy : r.Tidy calm c) (allowed : kids)
    (hears : ListensOn t s.dstPort i) (absent : ∀ j, ¬Exact t s.dstIp s.dstPort s.srcIp s.srcPort j)
    (free : (t.conns k).used = false) (used : c.used) (listener : c.listener = some i.val)
    (fresh : (c.pending, c.backlog) = (0, 0)) (sock : c.sock = none) (state : c.state ≠ .listen)
    (tuple : c.tuple = (s.dstIp, (t.conns i).localPort, s.srcIp, s.srcPort))
    (room : fits → (t.conns i).pending < (t.conns i).backlog) :
    Changes calm kids fits t (((t.set k new).queue i 1).take k r).1 := by
  have port : c.localPort = (t.conns i).localPort := congrArg (fun x => x.2.1) tuple
  have first (j : Slot) (live : (t.conns j).live) : (t.conns j).tuple ≠ c.tuple :=
    fun same => absent j ⟨live, by rw [same, tuple, hears.2.2]⟩
  have made : Change calm kids fits t ((t.queue i 1).set k c) :=
    .child t i k c allowed hears.1 hears.2.1 free used listener fresh sock state port first room
  have same : (((t.set k new).queue i 1).take k r).1 = (((t.queue i 1).set k c).take k r).1 := by
    rw [take_fst, take_fst, set_queue_set, set_set]
  rw [same]
  exact made.changes.then (take_change (by rw [set_same]; exact tidy))

theorem newChild_changes (allowed : kids) (hears : ListensOn t s.dstPort i)
    (absent : ∀ j, ¬Exact t s.dstIp s.dstPort s.srcIp s.srcPort j) :
    Changes calm kids fits t (t.newChild now i s secrets).1 := by
  unfold Table.newChild
  dsimp only
  split
  · exact .refl t
  rename_i room
  split
  · exact .refl t
  rename_i k t' made
  obtain ⟨free, rfl⟩ := tcpNew_spec made
  have tidy : (UzOS.Tcp.newChild now (t.conns i) i secrets.isn s).Tidy calm
      (childConn now (t.conns i) i secrets.isn s) := by
    refine .stays ?_ rfl
    have sent : Stays calm (childConn now (t.conns i) i secrets.isn s)
        (tcpSendSegment (childConn now (t.conns i) i secrets.isn s) (tcpSyn ||| tcpAck)
          secrets.isn []).conn := .inPlace rfl rfl rfl
    exact sent.trans (armTimer_stays nofun)
  exact child_changes tidy allowed hears absent free rfl rfl rfl rfl nofun rfl
    fun _ => Int.not_le.mp room

theorem cookieChild_changes {secrets : Secrets} {made : Table × List Seg} (allowed : kids)
    (hears : ListensOn t s.dstPort i) (absent : ∀ j, ¬Exact t s.dstIp s.dstPort s.srcIp s.srcPort j)
    (room : fits → secrets.mss ≠ 0 → (t.conns i).pending < (t.conns i).backlog)
    (found : t.cookieChild now i s secrets = some made) : Changes calm kids fits t made.1 := by
  unfold Table.cookieChild at found
  split at found
  · cases found
  rename_i mss
  obtain ⟨⟨k, t'⟩, new, rfl⟩ := Option.map_eq_some_iff.mp found
  obtain ⟨free, rfl⟩ := tcpNew_spec new
  have tidy : (UzOS.Tcp.cookieChild now (t.conns i) i secrets.mss s).Tidy calm
      (cookieConn now (t.conns i) i secrets.mss s) := by
    unfold UzOS.Tcp.cookieChild
    split
    · exact (segment_verdict fun _ => .inr rfl).tidy nofun
    · exact .stays (.refl _) rfl
  exact child_changes tidy allowed hears absent free rfl rfl rfl rfl nofun rfl
    fun e => room e mss

theorem toListener_changes (allowed : s.has tcpRst = false → kids) (hears : ListensOn t s.dstPort i)
    (absent : ∀ j, ¬Exact t s.dstIp s.dstPort s.srcIp s.srcPort j)
    (room : fits → s.has tcpAck → secrets.mss ≠ 0 →
      (t.conns i).pending < (t.conns i).backlog) :
    Changes calm kids fits t (t.toListener now i s secrets).1 := by
  unfold toListener
  split
  · exact .refl t
  rename_i rst
  have allowed := allowed (Bool.not_eq_true _ ▸ rst)
  split
  · rename_i ack
    split
    · rename_i made found
      exact cookieChild_changes allowed hears absent (fun e => room e ack) found
    · exact .refl t
  · split
    · exact newChild_changes secrets allowed hears absent
    · exact .refl t

/-- Does the packet make no connection, wherever it goes? -/
def Packet.barren : Packet → Bool
  | .segment s _ => s.has tcpRst
  | .unreachable .. => true

/-- Does the listener have room, if the packet answers a cookie? -/
def Table.roomy (t : Table) : Packet → Bool
  | .segment s secrets =>
    !s.has tcpAck || secrets.mss == 0 ||
      (t.lookup s.dstIp s.dstPort s.srcIp s.srcPort).all fun i =>
        (t.conns i).state != .listen || decide ((t.conns i).pending < (t.conns i).backlog)
  | .unreachable .. => true

theorem receive_changes (t : Table) (p : Packet) (allowed : p.barren = false → kids)
    (room : fits → t.roomy p) :
    Changes calm kids fits t (t.tcpReceive now p).1 := by
  cases p with
  | segment s secrets =>
    unfold Table.tcpReceive
    dsimp only
    split
    · exact .refl t
    split
    · exact .refl t
    rename_i i found
    have counted : Change calm kids fits t (t.set i (t.conns i).counted) :=
      .stays t i _ (.inPlace rfl rfl rfl)
    split
    · rename_i listens
      rcases lookup_spec t _ _ _ _ found with ⟨live, -⟩ | ⟨hears, none⟩
      · exact absurd listens ((live_iff _).mp live).2.1
      refine counted.changes.trans (toListener_changes secrets allowed ?_ (fun j => ?_) ?_)
      · unfold ListensOn
        rw [set_same]
        exact hears
      · rintro ⟨live, tuple⟩
        refine none j ?_
        by_cases here : j = i
        · subst here
          rw [set_same] at live tuple
          exact ⟨live, tuple⟩
        rw [set_other _ _ here] at live tuple
        exact ⟨live, tuple⟩
      · intro e ack mss
        rw [set_same]
        have open_ : secrets.mss = 0#16 ∨ (t.conns i).pending < (t.conns i).backlog := by
          simpa [roomy, ack, found, hears.2.1] using room e
        exact open_.resolve_left mss
    · rename_i other
      have open_ : (t.conns i).state ≠ .closed := by
        rcases lookup_spec t _ _ _ _ found with ⟨live, -⟩ | ⟨hears, -⟩
        · exact ((live_iff _).mp live).2.2
        rw [hears.2.1]
        decide
      have tidy : (dispatch now (t.conns i).counted s).Tidy calm (t.conns i).counted :=
        (dispatch_verdict other open_).tidy other
      have same : (t.take i (dispatch now (t.conns i).counted s)).1 =
          ((t.set i (t.conns i).counted).take i (dispatch now (t.conns i).counted s)).1 := by
        rw [take_fst, take_fst, set_set]
      rw [same]
      exact counted.changes.then (take_change (by rw [set_same]; exact tidy))
  | unreachable src sport dst dport seq err =>
    unfold Table.tcpReceive
    dsimp only
    split
    · exact .refl t
    · exact (take_change (tcpIcmpError_tidy _ seq err)).changes

/-- Does every packet that is drained find room? -/
def Table.drainRoomy (now : U32) : Table → List Packet → Bool :=
  Runs.everyStep (fun t p => (t.tcpReceive now p).1) roomy

theorem drain_changes (t : Table) (packets : List Packet)
    (allowed : ∀ p ∈ packets, p.barren = false → kids)
    (room : fits → t.drainRoomy now packets) : Changes calm kids fits t (t.drain now packets) := by
  induction packets generalizing t with
  | nil => exact .refl t
  | cons p rest ih =>
    have both (e : fits) := Bool.and_eq_true_iff.mp (room e)
    exact (receive_changes t p (allowed p List.mem_cons_self) fun e => (both e).1).trans
      (ih _ (fun q member => allowed q (List.mem_cons_of_mem _ member)) fun e => (both e).2)

/-- One child of a listener that closes: nobody else becomes one. -/
theorem abortChild_changes (lo : Slot → Bool) (i : Slot) (t : Table) (j : Slot) :
    (abortChild now lo i t j = t ∧ ¬((t.conns j).used ∧ (t.conns j).listener = some i.val)) ∨
    (t.conns j).listener = some i.val ∧
      ∃ t', Changes calm False fits t t' ∧ abortChild now lo i t j = t'.set j .zero := by
  unfold abortChild
  dsimp only
  split
  · rename_i child
    simp only [Bool.and_eq_true, beq_iff_eq] at child
    have sent : Change calm False fits t (t.set j
        (tcpSendSegment (t.conns j) (tcpRst ||| tcpAck) (t.conns j).tx.sndNxt []).conn) :=
      .stays t j _ (.inPlace rfl rfl rfl)
    refine .inr ⟨child.2, _, ?_, rfl⟩
    split
    · refine sent.changes.trans (drain_changes _ _ (fun p member => ?_) fun _ => ?_)
      · cases List.mem_singleton.mp member
        have rst : flagSet (tcpRst ||| tcpAck) tcpRst := by decide
        exact fun barren => by cases rst.symm.trans barren
      · simp [drainRoomy, Runs.everyStep, tcpSendSegment, Reply.sent, roomy]
    · exact sent.changes
  · rename_i other
    exact .inl ⟨rfl, fun child => other (by simp [child.1, child.2])⟩

end UzOS.Tcp
