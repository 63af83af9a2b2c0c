import UzOS.Tcp.Changes

/-! What holds of the table through every round, wherever its calls and timers
are interrupted. -/
namespace UzOS.Tcp

open Table

variable {calm only fits : Prop} {now : U32} {lo : Slot → Bool}

/-- What programs do. `only` says that a connection is only opened to addresses
no other one has, and `fits` that no backlog is less than what waits. -/
inductive Deal (calm only fits : Prop) : Table → Table → Prop where
  | port (t : Table) (next : U16) (low : only → ephemeralLow ≤ next) :
      Deal calm only fits t { t with nextPort := next }
  | opened (t : Table) (k : Slot) (c : Conn) (free : (t.conns k).used = false) (used : c.used = true)
      (listener : c.listener = none) (fresh : (c.pending, c.backlog) = (0, 0))
      (state : c.state = .closed) :
      Deal calm only fits t (t.set k c)
  | bound (t : Table) (i : Slot) (ip : U32) (port : U16) (unbound : (t.conns i).localPort = 0) :
      Deal calm only fits t (t.set i { t.conns i with localIp := ip, localPort := port })
  | listens (t : Table) (i : Slot) (d : Conn) (held : (t.conns i).sock.isSome = true)
      (before : (t.conns i).state = .closed ∨ (t.conns i).state = .listen)
      (off : calm → (t.conns i).state = .closed → (t.conns i).timers.rtxAt = 0)
      (same : (d.used, d.listener, d.pending, d.sock, d.timers.rtxAt) =
        ((t.conns i).used, (t.conns i).listener, (t.conns i).pending, (t.conns i).sock,
          (t.conns i).timers.rtxAt))
      (state : d.state = .listen) (named : only → d.localPort ≠ 0)
      (room : fits → d.pending ≤ d.backlog) : Deal calm only fits t (t.set i d)
  | connects (t : Table) (i : Slot) (d : Conn) (held : (t.conns i).sock.isSome = true)
      (before : (t.conns i).state = .closed)
      (same : (d.used, d.listener, d.pending, d.sock, d.backlog) =
        ((t.conns i).used, (t.conns i).listener, (t.conns i).pending, (t.conns i).sock,
          (t.conns i).backlog))
      (state : d.state = .synSent) (named : only → d.localPort ≠ 0)
      (first : only → ∀ j, j ≠ i → (t.conns j).live = true → (t.conns j).tuple ≠ d.tuple) :
      Deal calm only fits t (t.set i d)
  | accepted (t : Table) (i l : Slot) (sock : Option Nat) (used : (t.conns i).used = true)
      (child : (t.conns i).listener = some l.val) (state : (t.conns i).state ≠ .listen) :
      Deal calm only fits t ((t.queue l (-1)).set i
        { (t.queue l (-1)).conns i with listener := none, sock := sock })

/-- The close of a listener: its children are aborted, then its slot is freed. -/
def Table.closeListener (now : U32) (lo : Slot → Bool) (i : Slot) (t : Table) : Table :=
  let t := (t.set i { t.conns i with sock := none }).abortChildren now lo i
  (t.set i .zero).release (t.conns i).listener

/-- What is in the slot before does not matter. -/
theorem host_set (t : Table) (i : Slot) (c : Conn) (d : Dialog) :
    Table.host now lo i d (t.set i c) = Table.host now lo i d t := by
  cases d with
  | done => simp only [Table.host, set_set]
  | say _ e => cases e <;> simp only [Table.host, set_set]

/-- A property of the table that nothing spoils. -/
structure Steady (calm only fits : Prop) (P : Table → Prop) : Prop where
  change : ∀ {t t'}, Change calm True fits t t' → P t → P t'
  deal : ∀ {t t'}, Deal calm only fits t t' → P t → P t'
  off : calm → ∀ {t}, P t → ∀ i, (t.conns i).state = .listen → (t.conns i).timers.rtxAt = 0
  low : only → ∀ {t}, P t → ephemeralLow ≤ t.nextPort
  closes : ∀ {t} (now : U32) (lo : Slot → Bool) (i : Slot), P t → (t.conns i).state = .listen →
    (t.conns i).sock.isSome = true → P (t.closeListener now lo i)

section
variable {P : Table → Prop} (h : Steady calm only fits P)
include h

variable {t : Table}

theorem Steady.changes {t' : Table} (changes : Changes calm True fits t t') (start : P t) : P t' :=
  changes.keeps start h.change

/-- Whatever goes on at a connection, and is drained in the middle of it. -/
theorem Steady.host {i : Slot} {d : Dialog} (tidy : Tidy calm (t.conns i) d) (start : P t) :
    (Table.host now lo i d t).Safe (Changes calm True fits) P P := by
  generalize here : t.conns i = c at tidy
  induction tidy generalizing t with
  | done stays =>
    subst here
    exact h.change (.stays t i _ stays) start
  | gone lasts alone =>
    subst here
    have freed := h.change (.freed t i .zero lasts (.refl _)) start
    rw [alone] at freed
    exact freed
  | @sent c d s next stays rest ih =>
    subst here
    have left : P (t.set i d) := h.change (.stays t i _ stays) start
    refine ⟨left, fun t' reached => ?_⟩
    have later : P t' := h.changes reached left
    refine ih (t'.conns i) ⟨fun listens => ?_, fun e => h.off e later i⟩ later rfl
    have before := reached.listen i listens
    rwa [set_same] at before
  | freed lasts child =>
    subst here
    have freed := h.change (.freed t i .zero lasts (.refl _)) start
    rw [child] at freed
    show P (Table.set _ i _)
    rw [set_self]
    exact freed

theorem Steady.close {i : Slot} (held : (t.conns i).sock.isSome) (start : P t) :
    (Table.host now lo i (tcpCloseTalk now (t.conns i)) t).Safe (Changes calm True fits) P P := by
  by_cases listens : (t.conns i).state = .listen
  · have closed := h.closes now lo i start listens held
    have same : tcpCloseTalk now (t.conns i) =
        .say { t.conns i with sock := none } .abortChildren fun c => (tcpFree c).tell .done := by
      simp only [tcpCloseTalk, listens]
    rw [same]
    unfold Table.host
    dsimp only
    unfold closeListener at closed
    dsimp only at closed
    generalize (t.set i { t.conns i with sock := none }).abortChildren now lo i = t' at closed
    unfold tcpFree Reply.tell
    cases child : (t'.conns i).listener with
    | none =>
      rw [child] at closed
      exact closed
    | some l =>
      rw [child] at closed
      show P (Table.set _ i _)
      rw [set_self]
      exact closed
  · exact h.host (tcpClose_tidy listens) start

theorem Steady.tick (slots : List Slot) (start : P t) :
    (Table.tcpTick now lo slots t).Safe (Changes calm True fits) P P := by
  induction slots generalizing t with
  | nil => exact start
  | cons i rest ih =>
    refine (h.host (tcpTick_tidy fun listens e => h.off e start i listens) start).andThen ?_
    exact fun t' later => ih later

end

/-! The port that tcp_bind chooses. -/

variable {port : U16}

theorem ephemeralLoop_spec (t : Table) (ip : U32) (self : Slot) (tries : Nat)
    (low : ephemeralLow ≤ port) :
    ephemeralLow ≤ (t.ephemeralLoop ip self tries port).2 ∧
    ∀ p, (t.ephemeralLoop ip self tries port).1 = some p →
      ephemeralLow ≤ p ∧ t.portConflict ip p false self = false := by
  induction tries generalizing port with
  | zero => exact ⟨low, fun p e => by cases e⟩
  | succ tries ih =>
    have next : ephemeralLow ≤ if ephemeralHigh ≤ port then ephemeralLow else port + 1 := by
      split
      · decide
      bv_omega
    rw [ephemeralLoop]
    split
    · rename_i free
      refine ⟨next, fun p e => ?_⟩
      cases e
      exact ⟨low, by simpa using free⟩
    · exact ih next

/-- The backlog that listen() sets. -/
def clampBacklog (backlog : Int) : Int :=
  if backlog < 1 then 1 else if tcpMaxBacklog < backlog then tcpMaxBacklog else backlog

/-- What tcp_listen leaves when it does not refuse. -/
theorem listens_conn {c d : Conn} {port : Option U16} (backlog : Int)
    (left : (UzOS.Tcp.tcpListen now c backlog port).2 = d) :
    d = c ∨ ((c.state = .closed ∨ c.state = .listen) ∧ d.state = .listen ∧
      d.backlog = clampBacklog backlog ∧
      ((c.localPort ≠ 0 ∧ d.localPort = c.localPort) ∨ port = some d.localPort) ∧
      (d.used, d.listener, d.pending, d.sock, d.timers.rtxAt) =
        (c.used, c.listener, c.pending, c.sock, c.timers.rtxAt)) := by
  unfold UzOS.Tcp.tcpListen at left
  split at left
  · exact .inl left.symm
  rename_i state
  have state : c.state = .closed ∨ c.state = .listen := by
    by_cases closed : c.state = .closed
    · exact .inl closed
    · simpa [closed] using state
  generalize named : (if c.localPort = 0 then _ else _ : Option Conn) = bound at left
  cases bound with
  | none => exact .inl left.symm
  | some e =>
    subst left
    split at named
    · obtain ⟨p, rfl, rfl⟩ := Option.map_eq_some_iff.mp named
      exact .inr ⟨state, rfl, rfl, .inr rfl, rfl⟩
    rename_i bound
    cases named
    exact .inr ⟨state, rfl, rfl, .inl ⟨bound, rfl⟩, rfl⟩

/-- What tcp_connect goes on with when it does not refuse: the connection in
SYN_SENT, under the name `c` had or the one that was found for it. -/
theorem connects_conn (now : U32) (c : Conn) (ip : U32) (port : U16) (route : Option U32)
    (found : Option U16)
    (isn : U32) :
    (tcpConnectTalk now c ip port route found isn).2 = .done c ∨
    ∃ src d s, route = some src ∧ c.state = .closed ∧
      (tcpConnectTalk now c ip port route found isn).2 =
        .say d (.send s) (fun c => .done (armTimer now c)) ∧
      d.state = .synSent ∧
      (d.used, d.listener, d.pending, d.sock, d.backlog) =
        (c.used, c.listener, c.pending, c.sock, c.backlog) ∧
      ((c.localPort ≠ 0 ∧
          d.tuple = (if c.localIp = 0 then src else c.localIp, c.localPort, ip, port)) ∨
        (c.localPort = 0 ∧ found = some d.localPort)) := by
  unfold tcpConnectTalk
  split
  · exact .inl rfl
  rename_i closed
  rw [not_not] at closed
  cases route with
  | none => exact .inl rfl
  | some src =>
    dsimp only
    split
    · exact .inl rfl
    rename_i e named
    refine .inr ⟨src, _, _, rfl, closed, rfl, rfl, ?_, ?_⟩
    · split at named
      · obtain ⟨p, -, rfl⟩ := Option.map_eq_some_iff.mp named
        rfl
      cases named
      rfl
    · split at named
      · rename_i unbound
        obtain ⟨p, rfl, rfl⟩ := Option.map_eq_some_iff.mp named
        exact .inr ⟨unbound, rfl⟩
      rename_i bound
      cases named
      exact .inl ⟨bound, rfl⟩

/-- No other connection has the port. -/
theorem portConflict_none {t : Table} {self : Slot}
    (free : t.portConflict 0 port false self = false) {j : Slot} (apart : j ≠ self)
    (used : (t.conns j).used) : (t.conns j).localPort ≠ port := by
  intro same
  have all := List.any_eq_false.mp free j (List.mem_finRange j)
  simp [used, apart, same] at all

theorem low_ne_zero {p : U16} (low : ephemeralLow ≤ p) : p ≠ 0 := by
  simp only [ephemeralLow] at low
  bv_omega

section
variable {P : Table → Prop} (h : Steady calm only fits P)
include h

variable {i : Slot} {t : Table}

theorem Steady.bind (unbound : (t.conns i).localPort = 0) (ip : U32) (port : U16) (reuse : Bool)
    (start : P t) : P (t.tcpBind i ip port reuse).2 := by
  unfold tcpBind
  split
  · have moved : P { t with nextPort := (t.ephemeral ip i).2 } :=
      h.deal (.port t _ fun e => (ephemeralLoop_spec t ip i _ (h.low e start)).1) start
    dsimp only
    split
    · exact moved
    · exact h.deal (.bound { t with nextPort := (t.ephemeral ip i).2 } i ip _ unbound) moved
  · split
    · exact start
    · exact h.deal (.bound t i ip port unbound) start

/-- A port is looked for where one is wanted. -/
theorem Steady.search {wanted : Bool} {found : Option U16 × U16} (start : P t)
    (search : (if wanted = true then t.ephemeral 0 i else (none, t.nextPort)) = found) :
    P { t with nextPort := found.2 } ∧
    (only → ∀ p, found.1 = some p → p ≠ 0 ∧ t.portConflict 0 p false i = false) := by
  subst search
  split
  · have spec (e : only) := ephemeralLoop_spec t 0 i (ephemeralHigh - ephemeralLow).toNat (h.low e start)
    refine ⟨h.deal (.port t _ fun e => (spec e).1) start, fun e p found => ?_⟩
    exact ⟨low_ne_zero ((spec e).2 p found).1, ((spec e).2 p found).2⟩
  · exact ⟨start, fun _ p e => by cases e⟩

theorem Steady.listen (held : (t.conns i).sock.isSome) (backlog : Int)
    (off : calm → (t.conns i).state = .closed → (t.conns i).timers.rtxAt = 0)
    (room : fits → (t.conns i).pending ≤ clampBacklog backlog) (start : P t) :
    P (t.tcpListen now i backlog).2 := by
  unfold Table.tcpListen
  dsimp only
  generalize (_ && decide ((t.conns i).localPort = 0)) = wanted
  generalize search : (if wanted = true then t.ephemeral 0 i else (none, t.nextPort)) = found
  obtain ⟨moved, low⟩ := h.search start search
  have left : (UzOS.Tcp.tcpListen now (t.conns i) backlog found.1).2 = _ := rfl
  rcases listens_conn backlog left with same | ⟨state, listens, limit, named, same⟩
  · rw [same, set_self]
    exact moved
  refine h.deal (.listens { t with nextPort := found.2 } i _ held state off same listens (fun e => ?_)
    fun e => ?_) moved
  · rcases named with ⟨bound, named⟩ | named
    · rw [named]
      exact bound
    · exact (low e _ named).1
  · have pending := congrArg (fun x => x.2.2.1) same
    rw [limit]
    exact pending.trans_le (room e)

/-- A connection is opened; the answer may be there before its timer is armed. -/
theorem Steady.connect (held : (t.conns i).sock.isSome) (ip : U32) (port : U16)
    (route : Option U32) (isn : U32) (start : P t)
    (first : only → ∀ src, route = some src → (t.conns i).localPort ≠ 0 → ∀ j,
      ¬Exact t (if (t.conns i).localIp = 0 then src else (t.conns i).localIp) (t.conns i).localPort
        ip port j) :
    (t.tcpConnect now lo i ip port route isn).Safe (Changes calm True fits) P P := by
  unfold Table.tcpConnect
  dsimp only
  generalize (_ && decide ((t.conns i).localPort = 0)) = wanted
  generalize search : (if wanted = true then t.ephemeral 0 i else (none, t.nextPort)) = found
  obtain ⟨moved, low⟩ := h.search start search
  rcases connects_conn now (t.conns i) ip port route found.1 isn with
    same | ⟨src, d, s, routed, closed, same, state, kept, named⟩
  · rw [same]
    show P (Table.set _ i _)
    rw [set_self]
    exact moved
  · rw [same]
    have opened : P (({ t with nextPort := found.2 } : Table).set i d) := by
      refine h.deal (.connects { t with nextPort := found.2 } i d held closed kept state ?_ ?_) moved
      · intro e
        rcases named with ⟨bound, tuple⟩ | ⟨-, named⟩
        · have port : d.localPort = (t.conns i).localPort := congrArg (fun x => x.2.1) tuple
          rw [port]
          exact bound
        · exact (low e _ named).1
      · intro e j apart live tuple
        rcases named with ⟨bound, named⟩ | ⟨-, named⟩
        · exact first e src routed bound j ⟨live, tuple.trans named⟩
        refine portConflict_none (low e _ named).2 apart ((live_iff _).mp live).1 ?_
        exact congrArg (fun x => x.2.1) tuple
    refine ⟨opened, fun t' reached => ?_⟩
    have later : P t' := h.changes reached opened
    refine h.change (.stays t' i _ (armTimer_stays fun _ listens => ?_)) later
    have before := reached.listen i listens
    rw [set_same, state] at before
    cases before

theorem Steady.accept {l : Slot} (sock : Option Nat) (start : P t) :
    (t.tcpAccept now lo l sock).Safe (Changes calm True fits) P P := by
  unfold tcpAccept
  split
  · exact start
  rename_i i found
  have ready := findSlot_some found
  simp only [Bool.and_eq_true, beq_iff_eq] at ready
  obtain ⟨⟨used, child⟩, ready⟩ := ready
  dsimp only
  obtain ⟨p, same⟩ := queue_same t l (-1) i
  have ready' : ((t.queue l (-1)).conns i).ready := by
    rw [same]
    exact ready
  have other : (t.conns i).state ≠ .listen := by
    simp only [Conn.ready, Bool.and_eq_true, Bool.or_eq_true, decide_eq_true_eq] at ready
    rcases ready.2 with e | e <;> rw [e] <;> decide
  have given := h.deal (.accepted t i l sock used child other) start
  unfold tcpAcceptTalk
  rw [if_pos ready']
  split
  · exact given
  rw [← host_set]
  refine h.host ?_ given
  rw [set_same]
  refine tcpClose_tidy ?_
  rw [same]
  exact other

end

/-! The rounds. -/

/-- The timer of the connection a program listens on is off. -/
def Table.timerOff (t : Table) (r : Round) : Bool :=
  match r.job with
  | .listen i _ => (t.conns i).state != .closed || (t.conns i).timers.rtxAt == 0
  | _ => true

/-- The addresses that a bound connection is opened to are not another
connection's: lookup() finds no more than a listener. -/
def Table.addressFree (t : Table) (r : Round) : Bool :=
  match r.job with
  | .connect i ip port (some src) _ =>
    let c := t.conns i
    c.localPort == 0 ||
      (t.lookup (if c.localIp = 0 then src else c.localIp) c.localPort ip port).all fun k =>
        (t.conns k).state == .listen
  | _ => true

theorem addressFree_spec {t : Table} {i : Slot} {ip : U32} {src : U32} {isn now : U32}
    {drained : List (List Packet)}
    (free : t.addressFree ⟨now, .connect i ip port (some src) isn, drained, lo⟩)
    (bound : (t.conns i).localPort ≠ 0) (j : Slot) :
    ¬Exact t (if (t.conns i).localIp = 0 then src else (t.conns i).localIp) (t.conns i).localPort
      ip port j := by
  simp only [addressFree, Bool.or_eq_true, beq_iff_eq, bound] at free
  cases found : t.lookup (if (t.conns i).localIp = 0 then src else (t.conns i).localIp)
      (t.conns i).localPort ip port with
  | none => exact lookup_none t _ _ _ _ found j
  | some k =>
    rw [found] at free
    have listens : (t.conns k).state = .listen := by simpa using free
    rcases lookup_spec t _ _ _ _ found with ⟨live, -⟩ | ⟨-, none⟩
    · exact absurd listens ((live_iff _).mp live).2.1
    · exact none j

/-- Does no listener come to have more children than its backlog? -/
def Table.hasRoom (t : Table) (r : Round) : Bool :=
  (match r.job with
    | .listen i backlog => decide ((t.conns i).pending ≤ clampBacklog backlog)
    | .arrive p => t.roomy p
    | _ => true) &&
  (r.job.talk r.now r.lo t).every (fun packets _ t => t.drain r.now packets) (drainRoomy r.now) []
    r.drained

section
variable {P : Table → Prop} (h : Steady calm only fits P)
include h

theorem Steady.talk {t : Table} {r : Round} (allowed : r.allowed t)
    (off : calm → t.timerOff r) (first : only → t.addressFree r)
    (room : fits → t.hasRoom r) (start : P t) :
    (r.job.talk r.now r.lo t).Safe (Changes calm True fits) P P := by
  obtain ⟨now, job, drained, lo⟩ := r
  have held {i : Slot} (caller : job.caller = some i) : (t.conns i).sock.isSome := by
    simp only [Round.allowed, caller, Option.all_some, Bool.and_eq_true] at allowed
    exact allowed.2
  cases job with
  | socket uid cap sock =>
    simp only [Job.talk]
    split
    · exact start
    rename_i i t' made
    obtain ⟨free, rfl⟩ := tcpNew_spec made
    rw [set_same, set_set]
    exact h.deal (.opened t i _ free rfl rfl rfl rfl) start
  | bind i ip port reuse =>
    simp only [Job.talk]
    split
    · rename_i unbound
      exact h.bind unbound ip port reuse start
    · exact start
  | listen i backlog =>
    refine h.listen (held rfl) backlog (fun e closed => ?_) (fun e => ?_) start
    · simpa [timerOff, closed] using off e
    · exact of_decide_eq_true (Bool.and_eq_true_iff.mp (room e)).1
  | connect i ip port route isn =>
    refine h.connect (held rfl) ip port route isn start ?_
    rintro e src rfl bound
    exact addressFree_spec (first e) bound
  | accept i sock => exact h.accept sock start
  | send i buf => exact h.host (tcpSend_tidy _ buf) start
  | recv i len peek => exact h.host (tcpRecv_tidy _ len peek) start
  | shutdownWrite i => exact h.host (tcpShutdownWrite_tidy _) start
  | close i => exact h.close (held rfl) start
  | arrive p => exact h.changes (receive_changes t p (fun _ => trivial) fun e =>
    (Bool.and_eq_true_iff.mp (room e)).1) start
  | tick => exact h.tick _ start

/-- What is steady holds after every round. -/
theorem Steady.round {t : Table} {r : Round} (off : calm → t.timerOff r)
    (first : only → t.addressFree r) (room : fits → t.hasRoom r) (start : P t) :
    P (t.round r) := by
  unfold Table.round
  split
  · rename_i allowed
    have safe := h.talk allowed off first room start
    have drained (packets : List Packet) (t : Table) (room : fits → t.drainRoomy r.now packets) :
        Changes calm True fits t (t.drain r.now packets) :=
      drain_changes t packets (fun _ _ _ => trivial) room
    by_cases strict : fits
    · exact safe.run_every r.drained (Bool.and_eq_true_iff.mp (room strict)).2
        fun packets _ t _ ok => drained packets t fun _ => ok
    · exact safe.run (fun _ t _ => drained [] t fun e => absurd e strict) r.drained
        fun packets _ _ t _ => drained packets t fun e => absurd e strict
  · exact start

end

end UzOS.Tcp
