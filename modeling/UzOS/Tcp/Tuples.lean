import UzOS.Tcp.Rounds

/-! No two connections have the same addresses, as long as tcp_connect is not
called for a connection that would take another one's. -/
namespace UzOS.Tcp

open Table Runs

structure Unique (t : Table) : Prop where
  tuples : ∀ i j, i ≠ j → (t.conns i).live = true → (t.conns j).live = true →
    (t.conns i).tuple ≠ (t.conns j).tuple
  named : ∀ i, (t.conns i).state ≠ .closed → (t.conns i).localPort ≠ 0
  low : ephemeralLow ≤ t.nextPort

theorem boot_unique : Unique .boot where
  tuples := nofun
  named := fun _ open_ => absurd rfl open_
  low := by decide

variable {t : Table} {calm : Prop}

/-- A connection put into a slot, with addresses nobody else has. -/
theorem Unique.set (h : Unique t) (i : Slot) (d : Conn)
    (first : d.live → ∀ j, j ≠ i → (t.conns j).live → (t.conns j).tuple ≠ d.tuple)
    (named : d.state ≠ .closed → d.localPort ≠ 0) : Unique (t.set i d) where
  tuples := by
    intro a b apart live live'
    by_cases left : a = i
    · subst left
      rw [set_same] at live ⊢
      rw [set_other _ _ apart.symm] at live' ⊢
      exact (first live b apart.symm live').symm
    · rw [set_other _ _ left] at live ⊢
      by_cases right : b = i
      · subst right
        rw [set_same] at live' ⊢
        exact first live' a left live
      rw [set_other _ _ right] at live' ⊢
      exact h.tuples a b apart live live'
  named := by
    intro j
    by_cases here : j = i
    · subst here
      rw [set_same]
      exact named
    rw [set_other _ _ here]
    exact h.named j
  low := h.low

/-- One that lookup() does not find. -/
theorem Unique.hide (h : Unique t) (i : Slot) (d : Conn) (state : d.state = .closed) :
    Unique (t.set i d) := by
  refine h.set i d (fun live => ?_) fun open_ => absurd state open_
  exact absurd state ((live_iff _).mp live).2.2

theorem Unique.pending {t' : Table} (h : Unique t)
    (same : ∀ j, ∃ p, t'.conns j = { t.conns j with pending := p })
    (port : t'.nextPort = t.nextPort) : Unique t' where
  tuples := by
    intro i j
    obtain ⟨p, left⟩ := same i
    obtain ⟨q, right⟩ := same j
    rw [left, right]
    exact h.tuples i j
  named := by
    intro i
    obtain ⟨p, left⟩ := same i
    rw [left]
    exact h.named i
  low := by rw [port]; exact h.low

theorem Unique.queue (h : Unique t) (l : Nat) (n : Int) : Unique (t.queue l n) :=
  h.pending (queue_same t l n) (queue_port t l n)

theorem Unique.release (h : Unique t) (l : Option Nat) : Unique (t.release l) := by
  cases l with
  | none => exact h
  | some l => exact h.queue l (-1)

/-- A connection that stays in its place is not found more than before. -/
theorem Stays.live {c d : Conn} (h : Stays calm c d) (live : d.live) : c.live := by
  obtain ⟨used, other, open_⟩ := (live_iff d).mp live
  refine (live_iff c).mpr ⟨h.used.symm.trans used, fun listens => ?_, fun closed => ?_⟩
  · exact (h.ends listens).elim other open_
  · exact open_ (h.closed closed)

theorem Unique.stays (h : Unique t) {i : Slot} {d : Conn} (stays : Stays calm (t.conns i) d) :
    Unique (t.set i d) := by
  refine h.set i d (fun live j apart live' => ?_) fun open_ => ?_
  · rw [stays.tuple]
    exact h.tuples j i apart live' (stays.live live)
  · have port : d.localPort = (t.conns i).localPort := congrArg (fun x => x.2.1) stays.tuple
    rw [port]
    exact h.named i fun closed => open_ (stays.closed closed)

theorem Change.unique {kids fits : Prop} {t' : Table} (h : Change calm kids fits t t') (u : Unique t) :
    Unique t' := by
  cases h with
  | stays i d stays => exact u.stays stays
  | freed i d lasts gone => exact (u.hide i d (gone.closed rfl)).release _
  | child l k c allowed inUse listens free used listener fresh sock state port first =>
    refine (u.queue l 1).set k c (fun _ j _ live => ?_) fun _ => ?_
    · obtain ⟨p, same⟩ := queue_same t l 1 j
      rw [same] at live ⊢
      exact first j live
    · rw [port]
      exact u.named l (by rw [listens]; decide)

theorem Deal.unique {fits : Prop} {t' : Table} (h : Deal calm True fits t t') (u : Unique t) :
    Unique t' := by
  cases h with
  | port next low => exact ⟨u.tuples, u.named, low trivial⟩
  | opened k c free used listener fresh state => exact u.hide k c state
  | bound i ip port unbound =>
    refine u.hide i _ ?_
    by_contra open_
    exact u.named i open_ unbound
  | listens i d held before off same state named =>
    refine u.set i d (fun live => ?_) fun _ => named trivial
    exact absurd state ((live_iff _).mp live).2.1
  | connects i d held before same state named first =>
    exact u.set i d (fun _ j apart => first trivial j apart) fun _ => named trivial
  | accepted i l sock =>
    have queued := u.queue l (-1)
    exact queued.set i _ (fun live j apart live' => queued.tuples j i apart live' live) (queued.named i)

theorem Unique.abortChildren (h : Unique t) (now : U32) (lo : Slot → Bool) (i : Slot) :
    Unique (t.abortChildren now lo i) := by
  refine forSlots_keeps h fun t j u => ?_
  rcases @abortChild_changes False False now lo i t j with ⟨same, -⟩ | ⟨-, t', changes, same⟩
  · rw [same]
    exact u
  · rw [same]
    exact Unique.hide (changes.keeps u fun change => change.unique) j .zero rfl

theorem unique_steady : Steady False True False Unique where
  change := fun change u => change.unique u
  deal := fun deal u => deal.unique u
  off := False.elim
  low := fun _ _ u => u.low
  closes := fun {t} now lo i u _ _ => by
    have released : Stays False (t.conns i) { t.conns i with sock := none } := .release _
    exact (((u.stays released).abortChildren now lo i).hide i .zero rfl).release _

/-- In every state of a run in which no connect takes the addresses of another
connection, no two connections that are in use and neither listen nor are
CLOSED have the same addresses, and a segment belongs to at most one. -/
theorem four_tuples_unique (rounds : List Round)
    (free : everyStep Table.round Table.addressFree .boot rounds = true) :
    (∀ i j, i ≠ j → ((run Table.round .boot rounds).conns i).live = true →
      ((run Table.round .boot rounds).conns j).live = true →
      ((run Table.round .boot rounds).conns i).tuple ≠ ((run Table.round .boot rounds).conns j).tuple) ∧
    ∀ s i j, ((run Table.round .boot rounds).conns i).matches s = true →
      ((run Table.round .boot rounds).conns j).matches s = true → i = j := by
  have unique : Unique (run Table.round .boot rounds) := by
    refine run_keeps (fun t r u first => ?_) boot_unique rounds free
    exact unique_steady.round False.elim (fun _ => first) False.elim u
  refine ⟨unique.tuples, fun s i j left right => ?_⟩
  by_contra apart
  simp only [Conn.matches, Bool.and_eq_true, bne_iff_ne, beq_iff_eq] at left right
  obtain ⟨⟨⟨⟨⟨⟨used, port⟩, listen⟩, closed⟩, rport⟩, rip⟩, ip⟩ := left
  obtain ⟨⟨⟨⟨⟨⟨used', port'⟩, listen'⟩, closed'⟩, rport'⟩, rip'⟩, ip'⟩ := right
  refine unique.tuples i j apart ((live_iff _).mpr ⟨used, listen, closed⟩)
    ((live_iff _).mpr ⟨used', listen', closed'⟩) ?_
  simp [Conn.tuple, port, port', rport, rport', rip, rip', ip, ip']

/-- A socket, bound with SO_REUSEADDR to port 1000, that connects to `port`. -/
def reuseRounds (i : Slot) (port : U16) : List Round :=
  [⟨10, .socket 0 true i, [], fun _ => false⟩,
   ⟨20, .bind i 0x0a000001 1000 true, [], fun _ => false⟩,
   ⟨30, .connect i 0x0a000002 port (some 0x0a000001) 100, [], fun _ => false⟩]

theorem four_tuples_unique_reuse :
    ((run Table.round .boot (reuseRounds 0 80 ++ reuseRounds 1 81)).conns 0).tuple ≠
      ((run Table.round .boot (reuseRounds 0 80 ++ reuseRounds 1 81)).conns 1).tuple :=
  (four_tuples_unique (reuseRounds 0 80 ++ reuseRounds 1 81) (by decide +kernel)).1 0 1 (by decide)
    (by decide +kernel) (by decide +kernel)

/-- With SO_REUSEADDR the second bind succeeds while the first connection is in
use, and tcp_connect does not look at the addresses it completes. -/
theorem reuse_takes_tuple :
    ((run Table.round .boot (reuseRounds 0 80 ++ reuseRounds 1 80)).conns 0).state = .synSent ∧
    ((run Table.round .boot (reuseRounds 0 80 ++ reuseRounds 1 80)).conns 1).state = .synSent ∧
    ((run Table.round .boot (reuseRounds 0 80 ++ reuseRounds 1 80)).conns 0).tuple =
      ((run Table.round .boot (reuseRounds 0 80 ++ reuseRounds 1 80)).conns 1).tuple := by
  decide +kernel

end UzOS.Tcp
