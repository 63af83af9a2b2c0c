import UzOS.Tcp.Rounds
import UzOS.Lib.Pointers

/-! Every child of a listener points to one that listens, and every listener
has counted its children right, as long as no program listens on a connection
whose timer still runs. -/
namespace UzOS.Tcp

open Table Runs Pointers

/-- The listener that a connection in use is a child of. -/
def Conn.target (c : Conn) : Option Slot :=
  if c.used then c.listener.bind fun l => if h : l < tcpMaxConns then some ⟨l, h⟩ else none else none

def Conn.listening (c : Conn) : Bool := c.used && c.state == .listen

theorem listening_iff (c : Conn) : c.listening ↔ c.used ∧ c.state = .listen := by
  simp [Conn.listening]

variable {c d : Conn} {t t' : Table} {i : Slot}

theorem listening_other (other : c.state ≠ .listen) : c.listening = false := by
  simp [Conn.listening, other]

/-- What each connection keeps to by itself: a child has no program, and a
listener no timer. -/
structure Conn.Tame (c : Conn) : Prop where
  inside : ∀ l, c.listener = some l → l < tcpMaxConns
  held : c.sock.isSome = true → c.listener = none
  leaf : c.state = .listen → c.listener = none
  timer : c.state = .listen → c.timers.rtxAt = 0
  idle : c.used = false → c.listener = none

theorem Conn.Tame.used (h : c.Tame) {l : Nat} (child : c.listener = some l) : c.used := by
  cases used : c.used with
  | true => rfl
  | false => cases child.symm.trans (h.idle used)

theorem Conn.Tame.target_iff (h : c.Tame) (k : Slot) :
    c.target = some k ↔ c.listener = some k.val := by
  unfold Conn.target
  cases child : c.listener with
  | none => simp
  | some l => simp [h.used child, h.inside l child, Fin.ext_iff]

theorem Conn.Tame.pending (h : c.Tame) (p : Int) : { c with pending := p }.Tame := { h with }

theorem Stays.tame (h : Stays True c d) (tame : c.Tame) : d.Tame where
  inside := by rw [h.listener]; exact tame.inside
  held := fun e => h.listener.trans (tame.held (h.sock e))
  leaf := fun l => h.listener.trans (tame.leaf (h.listen l))
  timer := fun l => (h.timer trivial l).trans (tame.timer (h.listen l))
  idle := fun e => h.listener.trans (tame.idle (h.used.symm.trans e))

/-- A connection that is nobody's child. -/
theorem Conn.Tame.lone (alone : c.listener = none) (off : c.state = .listen → c.timers.rtxAt = 0) :
    c.Tame where
  inside := fun _ e => by cases alone.symm.trans e
  held := fun _ => alone
  leaf := fun _ => alone
  timer := off
  idle := fun _ => alone

theorem zero_tame : Conn.zero.Tame := .lone rfl nofun

theorem target_none (alone : c.listener = none) : c.target = none := by simp [Conn.target, alone]

/-- The books of all listeners but `but`. -/
structure Accounted (but : Option Slot) (t : Table) : Prop where
  tame : ∀ i, (t.conns i).Tame
  balanced : Balanced but (fun i => (t.conns i).target) (fun i => (t.conns i).listening)
    fun i => (t.conns i).pending

variable {but : Option Slot}

section
variable (h : Accounted but t)
include h

/-- A connection is put into slot `i`, and some listeners told. -/
theorem Accounted.put (i : Slot) (d : Conn)
    (others : ∀ j, j ≠ i → ∃ p, t'.conns j = { t.conns j with pending := p })
    (own : ∃ p, t'.conns i = { d with pending := p }) (tame : d.Tame)
    (safe : (t.conns i).listening → d.listening ∨ ∀ j, (t.conns j).target ≠ some i)
    (aim : ∀ l, d.target = some l → l ≠ i ∧ (t.conns l).listening)
    (books : ∀ k, some k ≠ but →
      (t'.conns k).pending + (if (t.conns i).target = some k then 1 else 0) =
        (t.conns k).pending + if d.target = some k then 1 else 0) : Accounted but t' where
  tame := by
    intro j
    by_cases here : j = i
    · subst here
      obtain ⟨p, same⟩ := own
      rw [same]
      exact tame.pending p
    · obtain ⟨p, same⟩ := others j here
      rw [same]
      exact (h.tame j).pending p
  balanced := by
    have slot {β : Type} (f : Conn → β) (blind : ∀ c p, f { c with pending := p } = f c) :
        (fun j => f (t'.conns j)) = Function.update (fun j => f (t.conns j)) i (f d) := by
      funext j
      by_cases here : j = i
      · subst here
        obtain ⟨p, same⟩ := own
        rw [same, blind, Function.update_self]
      obtain ⟨p, same⟩ := others j here
      rw [same, blind, Function.update_of_ne here]
    rw [slot Conn.target fun _ _ => rfl, slot Conn.listening fun _ _ => rfl]
    exact h.balanced.update i safe aim books

/-- Only slot `i` is written, and no listener told. -/
theorem Accounted.set (i : Slot) (d : Conn) (tame : d.Tame)
    (safe : (t.conns i).listening → d.listening ∨ ∀ j, (t.conns j).target ≠ some i)
    (aim : ∀ l, d.target = some l → l ≠ i ∧ (t.conns l).listening)
    (books : ∀ k, some k ≠ but →
      ((t.set i d).conns k).pending + (if (t.conns i).target = some k then 1 else 0) =
        (t.conns k).pending + if d.target = some k then 1 else 0) : Accounted but (t.set i d) :=
  h.put i d (fun j apart => ⟨(t.conns j).pending, set_other t d apart⟩)
    ⟨d.pending, set_same t i d⟩ tame safe aim books

/-- A connection that neither takes nor gives up a place. -/
theorem Accounted.same (i : Slot) (d : Conn) (tame : d.Tame)
    (listening : (t.conns i).listening → d.listening)
    (target : d.target = (t.conns i).target)
    (pending : some i ≠ but → d.pending = (t.conns i).pending) : Accounted but (t.set i d) := by
  refine h.set i d tame (fun l => .inl (listening l)) (fun l points => ?_) fun k counts => ?_
  · rw [target] at points
    refine ⟨?_, h.balanced.aimed points⟩
    rintro rfl
    have listens := ((listening_iff _).mp (h.balanced.aimed points)).2
    have child := ((h.tame l).target_iff l).mp points
    cases ((h.tame l).leaf listens).symm.trans child
  · rw [target]
    by_cases here : k = i
    · subst here
      rw [set_same, pending counts]
    · rw [set_other _ _ here]

omit h in
theorem Stays.target (h : Stays True c d) : d.target = c.target := by
  unfold Conn.target
  rw [h.used, h.listener]

theorem Accounted.stays (stays : Stays True (t.conns i) d) : Accounted but (t.set i d) := by
  refine h.same i d (stays.tame (h.tame i)) (fun listens => ?_) stays.target fun _ => stays.pending
  obtain ⟨used, state⟩ := (listening_iff _).mp listens
  exact (listening_iff d).mpr ⟨stays.used.trans used, stays.stays trivial state⟩

/-- A connection nobody waits for makes place for a fresh one. -/
theorem Accounted.set_pending (other : (t.conns i).listening = false)
    (fresh : d.pending = 0) {k : Slot} (counts : some k ≠ but) :
    ((t.set i d).conns k).pending = (t.conns k).pending := by
  by_cases here : k = i
  · subst here
    rw [set_same, h.balanced.zero other counts]
    exact fresh
  · rw [set_other _ _ here]

/-- A slot that is free again, with its listener told. -/
theorem Accounted.freed (other : (t.conns i).state ≠ .listen)
    (gone : Stays True .zero d) : Accounted but ((t.set i d).release (t.conns i).listener) := by
  have closed := listening_other other
  have alone : d.target = none := target_none gone.listener
  refine h.put i d (fun j apart => ?_) ?_ (gone.tame zero_tame) (fun l => ?_) (fun l e => ?_) ?_
  · obtain ⟨p, same⟩ := release_same (t.set i d) (t.conns i).listener j
    exact ⟨p, by rw [same, set_other _ _ apart]⟩
  · obtain ⟨p, same⟩ := release_same (t.set i d) (t.conns i).listener i
    exact ⟨p, by rw [same, set_same]⟩
  · cases closed.symm.trans l
  · cases alone.symm.trans e
  · intro k counts
    simp only [release_pending, h.set_pending closed gone.pending counts, alone, (h.tame i).target_iff k]
    split <;> simp

omit h in
theorem child_tame {l : Slot} (used : c.used) (listener : c.listener = some l.val)
    (sock : c.sock = none) (state : c.state ≠ .listen) : c.Tame where
  inside := fun l' e => by
    cases listener.symm.trans e
    exact l.isLt
  held := fun e => by rw [sock] at e; cases e
  leaf := fun e => absurd e state
  timer := fun e => absurd e state
  idle := fun e => by cases used.symm.trans e

theorem Accounted.child {l k : Slot} (inUse : (t.conns l).used)
    (listens : (t.conns l).state = .listen) (free : (t.conns k).used = false) (tame : c.Tame)
    (listener : c.listener = some l.val) (pending : c.pending = 0) :
    Accounted but ((t.queue l 1).set k c) := by
  have closed : (t.conns k).listening = false := by simp [Conn.listening, free]
  have alone : (t.conns k).target = none := target_none ((h.tame k).idle free)
  have apart : l ≠ k := by
    rintro rfl
    cases free.symm.trans inUse
  have target (k' : Slot) : c.target = some k' ↔ k'.val = l.val := by
    rw [tame.target_iff, listener]
    exact ⟨fun e => (Option.some.inj e).symm, fun e => congrArg some e.symm⟩
  refine h.put k c (fun j apart => ?_) ⟨c.pending, set_same _ _ _⟩ tame (fun e => ?_) (fun l' e => ?_) ?_
  · obtain ⟨p, same⟩ := queue_same t l 1 j
    exact ⟨p, by rw [set_other _ _ apart, same]⟩
  · cases closed.symm.trans e
  · cases Fin.ext ((target l').mp e)
    exact ⟨apart, (listening_iff _).mpr ⟨inUse, listens⟩⟩
  · intro k' counts
    rw [alone]
    simp only [target, reduceCtorEq, if_false, add_zero]
    by_cases here : k' = k
    · subst here
      rw [set_same, pending, h.balanced.zero closed counts, if_neg fun e => apart (Fin.ext e.symm)]
      rfl
    · rw [set_other _ _ here, queue_pending]

omit h in
theorem Change.accounted {kids fits : Prop} (h : Change True kids fits t t') (a : Accounted but t) :
    Accounted but t' := by
  cases h with
  | stays i d stays => exact a.stays stays
  | freed i d lasts gone => exact a.freed (lasts trivial) gone
  | child l k c allowed inUse listens free used listener fresh sock state =>
    exact a.child inUse listens free (child_tame used listener sock state) listener
      (congrArg Prod.fst fresh)

/-- A slot whose connection is nobody's child and takes no place. -/
theorem Accounted.alone (i : Slot) (d : Conn) (tame : d.Tame)
    (before : (t.conns i).listener = none) (after : d.listener = none)
    (listening : (t.conns i).listening → d.listening)
    (pending : some i ≠ but → d.pending = (t.conns i).pending) : Accounted but (t.set i d) :=
  h.same i d tame listening ((target_none after).trans (target_none before).symm) pending

/-- A child that accept() takes has a place of its own. -/
theorem Accounted.accepted {l : Slot} (sock : Option Nat)
    (child : (t.conns i).listener = some l.val) (other : (t.conns i).state ≠ .listen) :
    Accounted but ((t.queue l (-1)).set i
      { (t.queue l (-1)).conns i with listener := none, sock := sock }) := by
  have tame : { t.conns i with listener := none, sock := sock }.Tame := .lone rfl fun e => absurd e other
  have alone : { t.conns i with listener := none, sock := sock }.target = none := target_none rfl
  refine h.put i _ (fun j apart => ?_) ?_ tame (fun e => ?_) (fun l e => ?_) fun k counts => ?_
  · obtain ⟨p, same⟩ := queue_same t l (-1) j
    exact ⟨p, by rw [set_other _ _ apart, same]⟩
  · obtain ⟨p, same⟩ := queue_same t l (-1) i
    exact ⟨p, by rw [set_same, same]⟩
  · cases (listening_other other).symm.trans e
  · cases alone.symm.trans e
  · have told : (((t.queue l (-1)).set i
        { (t.queue l (-1)).conns i with listener := none, sock := sock }).conns k).pending =
        (t.conns k).pending + if k.val = l.val then -1 else 0 := by
      rw [← queue_pending]
      by_cases here : k = i
      · subst here
        rw [set_same]
      · rw [set_other _ _ here]
    rw [told, alone]
    simp only [(h.tame i).target_iff k, child, Option.some.injEq]
    by_cases same : k.val = l.val
    · rw [if_pos same, if_pos same.symm]
      simp
    rw [if_neg same, if_neg fun e => same e.symm]
    simp

end

theorem Deal.accounted (h : Deal True False False t t') (a : Accounted none t) : Accounted none t' := by
  cases h with
  | port next => exact ⟨a.tame, a.balanced⟩
  | opened k c free used listener fresh state =>
    have closed : (t.conns k).listening = false := by simp [Conn.listening, free]
    have tame : c.Tame := .lone listener fun e => by cases state.symm.trans e
    refine a.alone k c tame ((a.tame k).idle free) listener (fun e => ?_) fun counts => ?_
    · cases closed.symm.trans e
    · rw [a.balanced.zero closed counts]
      exact congrArg Prod.fst fresh
  | bound i ip port => exact a.same i _ { a.tame i with } id rfl fun _ => rfl
  | listens i d held before off same state =>
    simp only [Prod.mk.injEq] at same
    obtain ⟨used, listener, pending, sock, rtx⟩ := same
    have alone := (a.tame i).held held
    have tame : d.Tame := .lone (listener.trans alone) fun _ =>
      rtx.trans (before.elim (off trivial) (a.tame i).timer)
    refine a.alone i d tame alone (listener.trans alone) (fun e => ?_) fun _ => pending
    exact (listening_iff d).mpr ⟨used.trans ((listening_iff _).mp e).1, state⟩
  | connects i d held before same state =>
    simp only [Prod.mk.injEq] at same
    obtain ⟨used, listener, pending, sock⟩ := same
    have alone := (a.tame i).held held
    have tame : d.Tame := .lone (listener.trans alone) fun e => by cases state.symm.trans e
    refine a.alone i d tame alone (listener.trans alone) (fun e => ?_) fun _ => pending
    cases before.symm.trans ((listening_iff _).mp e).2
  | accepted i l sock used child other => exact a.accepted sock child other

/-! The close of a listener. -/

theorem Change.target {fits : Prop} (h : Change True False fits t t') (j i : Slot)
    (points : (t'.conns j).target = some i) : (t.conns j).target = some i := by
  cases h with
  | stays k d stays =>
    by_cases here : j = k
    · subst here
      rw [set_same, stays.target] at points
      exact points
    · rwa [set_other _ _ here] at points
  | freed k d lasts gone =>
    obtain ⟨p, same⟩ := release_same (t.set k d) (t.conns k).listener j
    rw [same] at points
    by_cases here : j = k
    · subst here
      rw [set_same] at points
      cases (target_none gone.listener).symm.trans points
    · rwa [set_other _ _ here] at points
  | child l k c allowed => exact allowed.elim

/-- A child of the listener that closes is freed, and nobody told. -/
theorem Accounted.dropped {j : Slot} (h : Accounted (some i) t)
    (other : (t.conns j).state ≠ .listen) (mine : ∀ l, (t.conns j).target = some l → l = i) :
    Accounted (some i) (t.set j .zero) := by
  have closed := listening_other other
  refine h.set j .zero zero_tame (fun e => ?_) (fun l e => by cases e) fun k counts => ?_
  · cases closed.symm.trans e
  · have apart : (t.conns j).target ≠ some k := fun e => counts (congrArg some (mine k e))
    rw [h.set_pending closed rfl counts, if_neg apart]
    rfl

/-- One child after the other: nobody becomes a child, and this one no longer is. -/
theorem abortChild_spec (h : Accounted (some i) t) (now : U32) (lo : Slot → Bool) (j : Slot) :
    Accounted (some i) (abortChild now lo i t j) ∧
    (∀ k l, ((abortChild now lo i t j).conns k).target = some l → (t.conns k).target = some l) ∧
    ((abortChild now lo i t j).conns j).target ≠ some i := by
  rcases @abortChild_changes True False now lo i t j with
    ⟨same, other⟩ | ⟨child, t2, changes, same⟩ <;> rw [same]
  · refine ⟨h, fun k l => id, fun points => other ?_⟩
    have child := ((h.tame j).target_iff i).mp points
    exact ⟨(h.tame j).used child, child⟩
  have fewer (k l : Slot) (points : (t2.conns k).target = some l) : (t.conns k).target = some l := by
    clear same
    induction changes with
    | refl => exact points
    | tail _ change ih => exact ih (change.target k l points)
  have accounted : Accounted (some i) t2 := changes.keeps h fun change => change.accounted
  have other : (t2.conns j).state ≠ .listen := fun listens => by
    cases ((h.tame j).leaf (changes.listen j listens)).symm.trans child
  refine ⟨accounted.dropped other fun l points => ?_, fun k l points => ?_, ?_⟩
  · have before := ((h.tame j).target_iff l).mp (fewer j l points)
    exact Fin.ext (Option.some.inj (before.symm.trans child))
  · by_cases here : k = j
    · subst here
      rw [set_same] at points
      cases points
    rw [set_other _ _ here] at points
    exact fewer k l points
  · rw [set_same]
    exact nofun

theorem abortChildren_spec (h : Accounted (some i) t) (now : U32) (lo : Slot → Bool) :
    Accounted (some i) (t.abortChildren now lo i) ∧
    (∀ k l, ((t.abortChildren now lo i).conns k).target = some l → (t.conns k).target = some l) ∧
    ∀ j, ((t.abortChildren now lo i).conns j).target ≠ some i := by
  have rounds (slots : List Slot) (t : Table) (h : Accounted (some i) t) :
      Accounted (some i) (slots.foldl (abortChild now lo i) t) ∧
      (∀ k l, ((slots.foldl (abortChild now lo i) t).conns k).target = some l →
        (t.conns k).target = some l) ∧
      ∀ j ∈ slots, ((slots.foldl (abortChild now lo i) t).conns j).target ≠ some i := by
    induction slots generalizing t with
    | nil => exact ⟨h, fun _ _ => id, nofun⟩
    | cons j rest ih =>
      obtain ⟨one, fewer, gone⟩ := abortChild_spec h now lo j
      obtain ⟨all, fewer', gone'⟩ := ih _ one
      refine ⟨all, fun k l points => fewer k l (fewer' k l points), fun k member points => ?_⟩
      rcases List.mem_cons.mp member with rfl | member
      · exact gone (fewer' k i points)
      · exact gone' k member points
  obtain ⟨all, fewer, gone⟩ := rounds (List.finRange tcpMaxConns) t h
  exact ⟨all, fewer, fun j => gone j (List.mem_finRange j)⟩

theorem closeListener_accounted (h : Accounted none t) (now : U32) (lo : Slot → Bool)
    (listens : (t.conns i).state = .listen) : Accounted none (t.closeListener now lo i) := by
  have released : Stays True (t.conns i) { t.conns i with sock := none } := .release _
  have start : Accounted none (t.set i { t.conns i with sock := none }) := h.stays released
  have start' : Accounted (some i) (t.set i { t.conns i with sock := none }) :=
    ⟨start.tame, start.balanced.aimed, fun {k} _ => start.balanced.counted (by simp)⟩
  have root : ((t.set i { t.conns i with sock := none }).conns i).target = none := by
    rw [set_same]
    exact target_none ((h.tame i).leaf listens)
  unfold closeListener
  obtain ⟨all, fewer, gone⟩ := abortChildren_spec start' now lo
  generalize (t.set i { t.conns i with sock := none }).abortChildren now lo i = t' at all fewer gone
  have alone : (t'.conns i).listener = none := by
    cases child : (t'.conns i).listener with
    | none => rfl
    | some l =>
      have points := ((all.tame i).target_iff ⟨l, (all.tame i).inside l child⟩).mpr child
      cases root.symm.trans (fewer i _ points)
  show Accounted none ((t'.set i .zero).release (t'.conns i).listener)
  rw [alone]
  have freed : Accounted (some i) (t'.set i .zero) := by
    refine all.set i .zero zero_tame (fun _ => .inr gone) (fun l e => by cases e) fun k counts => ?_
    have apart : k ≠ i := fun same => counts (congrArg some same)
    rw [target_none alone, set_other _ _ apart]
    rfl
  refine ⟨freed.tame, freed.balanced.settle (fun j points => ?_) ?_⟩
  · by_cases here : j = i
    · subst here
      rw [set_same] at points
      cases points
    rw [set_other _ _ here] at points
    exact gone j points
  · rw [set_same]
    rfl

theorem accounted_steady : Steady True False False (Accounted none) where
  change := fun change a => change.accounted a
  deal := fun deal a => deal.accounted a
  off := fun _ _ a i => (a.tame i).timer
  low := False.elim
  closes := fun now lo _ a listens _ => closeListener_accounted a now lo listens

theorem boot_accounted : Accounted none .boot where
  tame := fun _ => zero_tame
  balanced := {
    aimed := nofun
    counted := fun {k} _ => by rfl }

/-- The connections in use that wait for the listener in slot `k`. -/
def Table.children (t : Table) (k : Slot) : Finset Slot :=
  Finset.univ.filter fun i => (t.conns i).used = true ∧ (t.conns i).listener = some k.val

/-- In every state of a run in which each program listens on a connection whose
timer is off, every child in use points to a connection in use that listens,
and every listener's `pending` is the number of its children. -/
theorem listeners_accounted (rounds : List Round)
    (off : everyStep Table.round Table.timerOff .boot rounds = true) :
    (∀ i l, ((run Table.round .boot rounds).conns i).used = true →
      ((run Table.round .boot rounds).conns i).listener = some l →
      ∃ k : Slot, k.val = l ∧ ((run Table.round .boot rounds).conns k).used = true ∧
        ((run Table.round .boot rounds).conns k).state = .listen) ∧
    ∀ k, ((run Table.round .boot rounds).conns k).used = true →
      ((run Table.round .boot rounds).conns k).state = .listen →
      ((run Table.round .boot rounds).conns k).pending =
        ((run Table.round .boot rounds).children k).card := by
  have accounted : Accounted none (run Table.round .boot rounds) := by
    refine run_keeps (fun t r a ok => ?_) boot_accounted rounds off
    exact accounted_steady.round (fun _ => ok) False.elim False.elim a
  refine ⟨fun i l _ child => ?_, fun k _ _ => ?_⟩
  · have inside := (accounted.tame i).inside l child
    have points := ((accounted.tame i).target_iff ⟨l, inside⟩).mpr child
    exact ⟨⟨l, inside⟩, rfl, (listening_iff _).mp (accounted.balanced.aimed points)⟩
  · have counted := accounted.balanced.counted (k := k) (by simp)
    refine counted.trans (congrArg (fun s : Finset Slot => (s.card : Int)) ?_)
    refine Finset.filter_congr fun i _ => ?_
    rw [(accounted.tame i).target_iff k]
    exact ⟨fun child => ⟨(accounted.tame i).used child, child⟩, And.right⟩

/-- Nothing is drained and nothing goes over lo. -/
def plain (now : U32) (job : Job) : Round := ⟨now, job, [], fun _ => false⟩

/-- A segment from 10.0.0.2, port 5000, for port 1000. -/
def callerSegment (seq ack : U32) (flags : U8) : Packet :=
  .segment ⟨0x0a000002, 0x7f000001, 5000, 1000, seq, ack, flags, 1000, [], []⟩ ⟨900, 0, 0, true⟩

/-- Slot 0 listens on port 1000, and a child in slot 1 waits to be accepted. -/
def listenRounds : List Round :=
  [plain 20 (.listen 0 5), plain 30 (.arrive (callerSegment 700 0 tcpSyn)),
   plain 40 (.arrive (callerSegment 701 901 tcpAck))]

def bindRounds : List Round := [plain 1 (.socket 0 true 7), plain 2 (.bind 0 0x7f000001 1000 false)]

theorem listeners_accounted_child :
    ((run Table.round .boot (bindRounds ++ listenRounds)).conns 0).pending =
      ((run Table.round .boot (bindRounds ++ listenRounds)).children 0).card :=
  (listeners_accounted (bindRounds ++ listenRounds) (by decide +kernel)).2 0 (by decide +kernel)
    (by decide +kernel)

/-- A connect over lo that is refused before tcp_connect arms the timer. -/
def refusedRound : Round :=
  ⟨10, .connect 0 0x7f000001 80 (some 0x7f000001) 100,
    [[.segment ⟨0x7f000001, 0x7f000001, 80, 1000, 0, 101, tcpRst ||| tcpAck, 0, [], []⟩ ⟨0, 0, 0, true⟩]],
    fun _ => false⟩

/-- The ticks at which that timer falls due. -/
def timeoutRounds : List Round :=
  [1010, 3010, 7010, 15010, 31010, 61010, 91010, 121010, 151010].map fun now => plain now .tick

/-- The stale timer ends the listener under its child; when the slot is used
again, the child's end is taken off the stranger's count. -/
theorem stale_timer_ends_listener :
    let rounds := bindRounds ++ [refusedRound] ++ listenRounds ++ timeoutRounds
    let later := rounds ++ [plain 160000 (.close 0), plain 160010 (.socket 0 true 8),
      plain 160020 (.arrive (callerSegment 701 0 tcpRst))]
    ((run Table.round .boot rounds).conns 1).used = true ∧
    ((run Table.round .boot rounds).conns 1).listener = some 0 ∧
    ((run Table.round .boot rounds).conns 0).state = .closed ∧
    ((run Table.round .boot later).conns 0).sock = some 8 ∧
    ((run Table.round .boot later).conns 0).pending = -1 := by
  decide +kernel

/-! How many may wait. -/

/-- No queue is longer than its backlog. -/
def Queued (t : Table) : Prop := ∀ i, (t.conns i).pending ≤ (t.conns i).backlog

theorem Queued.set (h : Queued t) (i : Slot) (own : d.pending ≤ d.backlog) : Queued (t.set i d) := by
  intro j
  by_cases here : j = i
  · rw [here, set_same]
    exact own
  · rw [set_other _ _ here]
    exact h j

theorem Queued.queue (h : Queued t) (l : Slot) (n : Int)
    (room : (t.conns l).pending + n ≤ (t.conns l).backlog) : Queued (t.queue l n) := by
  intro j
  rw [queue_conns]
  split
  · rename_i same
    cases Fin.ext same
    exact room
  · exact h j

theorem Queued.release (h : Queued t) (l : Option Nat) : Queued (t.release l) := by
  intro j
  obtain ⟨p, same⟩ := release_same t l j
  have backlog : ((t.release l).conns j).backlog = (t.conns j).backlog := by rw [same]
  have := h j
  rw [release_pending]
  split <;> omega

theorem Change.queued {kids : Prop} (h : Change False kids True t t') (q : Queued t) :
    Queued t' := by
  cases h with
  | stays i d stays => exact q.set i (by rw [stays.pending, stays.backlog]; exact q i)
  | freed i d lasts gone => exact (q.set i (by rw [gone.pending, gone.backlog]; rfl)).release _
  | child l k c allowed inUse listens free used listener fresh sock state port first room =>
    have := room trivial
    obtain ⟨pending, backlog⟩ := Prod.mk.inj fresh
    exact (q.queue l 1 (by omega)).set k (by omega)

theorem Deal.queued (h : Deal False False True t t') (q : Queued t) : Queued t' := by
  cases h with
  | port => exact q
  | opened k c free used listener fresh => exact q.set k (by simp_all)
  | bound i => exact q.set i (q i)
  | listens i d held before off same state named room => exact q.set i (room trivial)
  | connects i d held before same =>
    have := q i
    exact q.set i (by simp_all)
  | accepted i l =>
    have queued := q.queue l (-1) (by have := q l; omega)
    exact queued.set i (queued i)

theorem queued_steady : Steady False False True Queued where
  change := fun change q => change.queued q
  deal := fun deal q => deal.queued q
  off := False.elim
  low := False.elim
  closes := fun {t} now lo i q _ _ => by
    have released : Queued (t.set i { t.conns i with sock := none }) := q.set i (q i)
    have aborted : Queued ((t.set i { t.conns i with sock := none }).abortChildren now lo i) := by
      refine forSlots_keeps released fun t j q => ?_
      rcases @abortChild_changes False True now lo i t j with ⟨same, -⟩ | ⟨-, t', changes, same⟩
      · rw [same]
        exact q
      · rw [same]
        exact Queued.set (changes.keeps q fun change => change.queued) j (by decide)
    exact (aborted.set i (by decide)).release _

/-- In every state of a run in which the answers to SYN cookies find room, and
no listen() sets a backlog below what already waits, no more connections wait
for a listener than its backlog. -/
theorem pending_within_backlog (rounds : List Round)
    (room : everyStep Table.round Table.hasRoom .boot rounds = true) (i : Slot) :
    ((run Table.round .boot rounds).conns i).pending ≤
      ((run Table.round .boot rounds).conns i).backlog := by
  have queued : Queued (run Table.round .boot rounds) := by
    refine run_keeps (fun t r q ok => ?_) (fun _ => Int.le_refl 0) rounds room
    exact queued_steady.round False.elim False.elim (fun _ => ok) q
  exact queued i

/-- A SYN makes a child, and then the answer to a cookie makes another. -/
def cookieRounds (backlog : Int) : List Round :=
  let answer := Packet.segment ⟨0x0a000003, 0x7f000001, 5000, 1000, 701, 41, tcpAck, 1000, [], []⟩
    ⟨900, 0, 536, true⟩
  bindRounds ++ [plain 20 (.listen 0 backlog), plain 30 (.arrive (callerSegment 700 0 tcpSyn)),
    plain 40 (.arrive answer)]

theorem pending_within_backlog_cookie :
    ((run Table.round .boot (cookieRounds 2)).conns 0).pending = 2 ∧
    ((run Table.round .boot (cookieRounds 2)).conns 0).pending ≤
      ((run Table.round .boot (cookieRounds 2)).conns 0).backlog :=
  ⟨by decide +kernel, pending_within_backlog (cookieRounds 2) (by decide +kernel) 0⟩

/-- With a queue of one the second child has no place. -/
theorem cookie_exceeds_backlog :
    let t := run Table.round .boot (cookieRounds 1)
    (t.conns 0).state = .listen ∧ (t.conns 0).backlog = 1 ∧ (t.conns 0).pending = 2 := by
  decide +kernel

end UzOS.Tcp
