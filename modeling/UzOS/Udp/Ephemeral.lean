import UzOS.Udp.Ports

/-! The ports that udp_bind picks itself: they lie in the ephemeral range as long as the
counter has not run past it. -/
namespace UzOS.Udp

open BitVec Option

open Runs (run everyStep)

def ephemeral (port : U16) : Bool :=
  decide (udpEphemeralLow ≤ port) && decide (port ≤ udpEphemeralHigh)

/-! When udp_bind picks a port, and what becomes of the counter. -/

/-- The endpoint of the socket, as do_bind fills it in for "any port". -/
def anyPort (x : Socket) (ip : U32) : Endpoint :=
  { x.udp with
    localIp := ip, reuseport := x.reuseport, localPort := 0, uid := x.uid, receive := true }

/-- The endpoint that the call has a port picked for. -/
def Call.picks (s : Ports) : Call → Option Endpoint
  | .bind ours k ip port =>
    if (s.sockets k).used && port == 0 && (ip == 0 || ours ip) then unbound k ip else none
  | .connect _ route k ip _ =>
    if (s.sockets k).used && (ip == ipv4Broadcast || (route ip).isSome) then unbound k 0 else none
  | .send _ k dest len =>
    let x := s.sockets k
    if x.used && decide (len ≤ udpMaxPayload) &&
        (dest.or (if x.connected then some (x.remoteIp, x.remotePort) else none)).any
          fun d => d.1 != ipv4Broadcast || x.broadcast then unbound k 0 else none
  | _ => none
where
  unbound (k : SockSlot) (ip : U32) : Option Endpoint :=
    if (s.sockets k).udp.receive then none else some (anyPort (s.sockets k) ip)

/-- The counter is in the range, or the port that it names is taken. -/
def Call.counts (s : Ports) (call : Call) : Bool :=
  (call.picks s).all fun ep =>
    decide (s.nextEphemeral ≤ udpEphemeralHigh) || portTaken s ep s.nextEphemeral

/-- The counter and the record after a search. -/
def picked (s : Ports) (ep : Endpoint) : U16 × List U16 :=
  let (next, found) := pickPort (portTaken s ep) ephemeralTries s.nextEphemeral
  if found then (next + 1, next :: s.chosen) else (next, s.chosen)

def Ports.counter (s : Ports) : U16 × List U16 := (s.nextEphemeral, s.chosen)

section
variable {s : Ports}

@[simp] theorem setEndpoint_counter (o : Owner) (ep : Endpoint) :
    (s.setEndpoint o ep).counter = s.counter := by
  cases o <;> rfl

/-- Whether a port is taken depends on the endpoints in the table only. -/
theorem portTaken_setEndpoint {o : Owner} (absent : Absent s o) (ep ep' : Endpoint) :
    portTaken (s.setEndpoint o ep) ep' = portTaken s ep' := by
  funext port
  unfold portTaken
  congr 1
  funext i
  rw [setEndpoint_table]
  cases here : s.table i with
  | none => rfl
  | some p =>
    have other : p ≠ o := fun same => absent i (same ▸ here)
    simp only [any_some, setEndpoint_other s o ep other]

theorem udpBind_counter (o : Owner) :
    (udpBind s o).1.counter =
      if (s.endpoint o).localPort = 0 then picked s (s.endpoint o) else s.counter := by
  have kept : (udpBind s o).1.counter = (settlePort s o).1.counter := by
    unfold udpBind
    rcases settlePort s o with ⟨t, error⟩
    cases error with
    | some e => rfl
    | none =>
      dsimp only
      cases findSlot fun i => (t.table i).isNone <;> rfl
  rw [kept]
  unfold settlePort picked
  extract_lets ep
  split
  · rcases pickPort (portTaken s ep) ephemeralTries s.nextEphemeral with ⟨next, found⟩
    cases found
    · rfl
    · simp only [if_true, setEndpoint_counter]
      rfl
  · split <;> rfl

theorem doBind_counter (held : Held s) (ours : U32 → Bool) (k : SockSlot) (ip : U32) (port : U16) :
    (doBind s ours k ip port).1.counter =
      if !(s.sockets k).udp.receive && port == 0 && (ip == 0 || ours ip) then
        picked s (anyPort (s.sockets k) ip)
      else s.counter := by
  unfold doBind
  extract_lets x ep t
  split
  · next bound => simp [x, bound]
  next closed =>
  split
  · next foreign =>
    simp at foreign
    simp [foreign]
  next ours_ =>
  split
  · next refused =>
    have given : port ≠ 0#16 := fun any => by simp [defPortBindOk, any] at refused
    simp [given]
  have closed : (s.sockets k).udp.receive = false := Bool.eq_false_iff.mpr closed
  have absent : Absent s (some k) := held.absent_of_receive closed
  have endpoint : t.endpoint (some k) = { ep with
      localIp := ip, reuseport := x.reuseport, localPort := port, uid := x.uid, receive := true } := by
    simp [t]
  have counter : (udpBind t (some k)).1.counter =
      if port = 0 then picked s (anyPort x ip) else s.counter := by
    rw [udpBind_counter, endpoint]
    simp only [picked, t, setEndpoint_counter, portTaken_setEndpoint absent]
    split
    · next any =>
      subst any
      rfl
    · rfl
  refine Eq.trans ?_ (counter.trans ?_)
  · generalize udpBind t (some k) = out
    rcases out with ⟨u, e | _⟩
    · exact setEndpoint_counter ..
    · rfl
  · have here : ip = 0#32 ∨ ours ip := by simpa [or_iff_not_imp_left] using ours_
    simp [x, closed, here]

theorem autobind_counter (held : Held s) (ours : U32 → Bool) (k : SockSlot) :
    (autobind s ours k).1.counter = (Call.picks.unbound s k 0).elim s.counter (picked s) := by
  unfold autobind Call.picks.unbound
  split
  · rfl
  rename_i closed
  rw [doBind_counter held]
  simp [closed]

/-- What a call does to the counter. -/
theorem apply_counter (held : Held s) (call : Call) :
    (call.apply s).counter = (call.picks s).elim s.counter (picked s) := by
  cases call with
  | create uid idle =>
    simp only [Call.apply, socketCreate]
    split <;> rfl
  | setReuseport k on | setBroadcast k on | disconnect k =>
    simp only [Call.apply, Call.apply.onSocket]
    split <;> rfl
  | close k =>
    simp only [Call.apply, socketClose, udpSockClose]
    split
    · split <;> rfl
    · rfl
  | dhcpStart =>
    simp only [Call.apply, dhcpStart]
    split
    · rfl
    have given : dhcpClientPort ≠ 0 := by decide
    have counter := (udpBind_counter (s := { s with dhcp :=
      { s.dhcp with localPort := dhcpClientPort, receive := true } }) none).trans (if_neg given)
    generalize udpBind _ none = out at counter ⊢
    rcases out with ⟨u, e | _⟩ <;> exact counter
  | bind ours k ip port =>
    simp only [Call.apply, Call.apply.onSocket, Call.picks, Call.picks.unbound]
    cases used : (s.sockets k).used
    · rfl
    rw [if_pos rfl, doBind_counter held, Bool.true_and, Bool.and_assoc]
    cases (s.sockets k).udp.receive <;> cases port == 0 && (ip == 0 || ours ip) <;> rfl
  | connect ours route k ip port =>
    simp only [Call.apply, Call.apply.onSocket, Call.picks, udpSockConnect]
    cases used : (s.sockets k).used
    · rfl
    have counter := autobind_counter held ours k
    rw [if_pos rfl, Bool.true_and]
    split
    · next lost =>
      simp at lost
      simp [lost]
    · next reached =>
      have reached : ip = ipv4Broadcast ∨ (route ip).isSome := by
        simpa [or_iff_not_imp_left, Option.isSome_iff_ne_none] using reached
      rw [if_pos (by simpa using reached), ← counter]
      generalize autobind s ours k = out
      rcases out with ⟨u, e | _⟩ <;> rfl
  | send ours k dest len =>
    simp only [Call.apply, Call.apply.onSocket, Call.picks, udpSockSend]
    cases used : (s.sockets k).used
    · rfl
    have counter := autobind_counter held ours k
    generalize dest.or _ = place
    cases place with
    | none => simp
    | some place =>
      obtain ⟨ip, port⟩ := place
      by_cases long : udpMaxPayload < len
      · simp [long, not_le.mpr long]
      have may : (ip != ipv4Broadcast || (s.sockets k).broadcast) =
          !(decide (ip = ipv4Broadcast) && !(s.sockets k).broadcast) := by
        rw [Bool.not_and, Bool.not_not, bne, beq_eq_decide]
      dsimp only
      rw [if_neg long, decide_eq_true (Nat.le_of_not_lt long), any_some, may]
      cases decide (ip = ipv4Broadcast) && !(s.sockets k).broadcast
      · exact counter
      · rfl

end

/-! The range. -/

theorem ephemeral_iff (port : U16) :
    ephemeral port ↔ 32768 ≤ port.toNat ∧ port.toNat ≤ 60999 := by
  rw [ephemeral, Bool.and_eq_true, decide_eq_true_iff, decide_eq_true_iff]
  exact Iff.rfl

theorem advance_ephemeral {port : U16} (inside : ephemeral port) :
    ephemeral (advance port) := by
  unfold advance
  split
  · decide
  rename_i below
  have short : port.toNat < 60999 := by simpa [le_def, udpEphemeralHigh] using below
  rw [ephemeral_iff] at inside ⊢
  simp
  omega

theorem pickPort_ephemeral {taken : U16 → Bool} (tries : Nat) {next : U16}
    (inside : ephemeral next) : ephemeral (pickPort taken tries next).1 := by
  induction tries generalizing next with
  | zero => exact inside
  | succ tries ih =>
    unfold pickPort
    split
    · exact ih (advance_ephemeral inside)
    · exact inside

theorem ephemeralTries_pos : ephemeralTries = 28231 + 1 := by decide

theorem pickPort_first {taken : U16 → Bool} {next : U16} (free : taken next = false) :
    pickPort taken ephemeralTries next = (next, true) := by
  rw [ephemeralTries_pos, pickPort, free]
  rfl

/-- The counter is in the range or just past it. -/
def Counting (s : Ports) : Prop :=
  ephemeral s.nextEphemeral = true ∨ s.nextEphemeral = udpEphemeralHigh + 1

theorem counting_succ {port : U16} (inside : ephemeral port) :
    ephemeral (port + 1) ∨ port + 1 = udpEphemeralHigh + 1 := by
  rw [ephemeral_iff] at inside
  by_cases last : port.toNat = 60999
  · have same : port = udpEphemeralHigh := eq_of_toNat_eq last
    exact .inr (by rw [same])
  rw [ephemeral_iff]
  simp
  omega

section
variable {s : Ports} {ep : Endpoint}

/-- The search starts at the counter, or at the bottom of the range if the counter is
past it and that port is taken. -/
theorem pick_start (counting : Counting s)
    (counts : (decide (s.nextEphemeral ≤ udpEphemeralHigh) ||
      portTaken s ep s.nextEphemeral)) :
    ephemeral (pickPort (portTaken s ep) ephemeralTries s.nextEphemeral).1 := by
  rcases counting with inside | past
  · exact pickPort_ephemeral _ inside
  have taken : portTaken s ep s.nextEphemeral := by
    rcases Bool.or_eq_true_iff.mp counts with low | taken
    · rw [past] at low
      cases low
    · exact taken
  rw [ephemeralTries_pos, pickPort, if_pos taken, past]
  exact pickPort_ephemeral _ (by decide)

theorem picked_counts (counting : Counting s)
    (counts : (decide (s.nextEphemeral ≤ udpEphemeralHigh) ||
      portTaken s ep s.nextEphemeral)) :
    (ephemeral (picked s ep).1 ∨ (picked s ep).1 = udpEphemeralHigh + 1) ∧
      ((∀ port ∈ (picked s ep).2, ephemeral port) ↔
        ∀ port ∈ s.chosen, ephemeral port) := by
  have inside := pick_start counting counts
  unfold picked
  generalize pickPort (portTaken s ep) ephemeralTries s.nextEphemeral = out at inside ⊢
  obtain ⟨next, found⟩ := out
  cases found with
  | false => exact ⟨.inl inside, Iff.rfl⟩
  | true =>
    refine ⟨counting_succ inside, ?_⟩
    simp [inside]

/-- Past the range, a port that is free is handed out. -/
theorem picked_past (counting : Counting s)
    (counts : (decide (s.nextEphemeral ≤ udpEphemeralHigh) ||
      portTaken s ep s.nextEphemeral) = false) :
    ∃ port ∈ (picked s ep).2, ephemeral port = false := by
  obtain ⟨high, free⟩ := Bool.or_eq_false_iff.mp counts
  have past : s.nextEphemeral = udpEphemeralHigh + 1 := by
    rcases counting with inside | past
    · have low := (Bool.and_eq_true_iff.mp inside).2
      cases low.symm.trans high
    · exact past
  refine ⟨s.nextEphemeral, ?_, by rw [past]; decide⟩
  simp [picked, pickPort_first free]

theorem picked_chosen {port : U16} (old : port ∈ s.chosen) : port ∈ (picked s ep).2 := by
  unfold picked
  generalize pickPort (portTaken s ep) ephemeralTries s.nextEphemeral = out
  obtain ⟨next, found⟩ := out
  cases found with
  | false => exact old
  | true => exact List.mem_cons_of_mem _ old

end

/-! Runs. -/

theorem run_chosen {s : Ports} (held : Held s) (calls : List Call) {port : U16}
    (old : port ∈ s.chosen) : port ∈ (run Call.apply s calls).chosen := by
  induction calls generalizing s with
  | nil => exact old
  | cons call rest ih =>
    apply ih (held.step call)
    have counter := congrArg Prod.snd (apply_counter held call)
    change (call.apply s).chosen = _ at counter
    rw [counter]
    cases call.picks s with
    | none => exact old
    | some ep => exact picked_chosen old

theorem run_ephemeral {s : Ports} (held : Held s) (counting : Counting s) (calls : List Call) :
    (∀ port ∈ (run Call.apply s calls).chosen, ephemeral port) ↔
      (∀ port ∈ s.chosen, ephemeral port) ∧
        everyStep Call.apply Call.counts s calls := by
  induction calls generalizing s with
  | nil => simp [run, everyStep]
  | cons call rest ih =>
    have next := congrArg Prod.fst (apply_counter held call)
    have record := congrArg Prod.snd (apply_counter held call)
    change (call.apply s).nextEphemeral = _ at next
    change (call.apply s).chosen = _ at record
    have steps : run Call.apply s (call :: rest) = run Call.apply (call.apply s) rest := rfl
    rw [everyStep, steps, Bool.and_eq_true]
    cases picks : call.picks s with
    | none =>
      rw [picks] at next record
      have counts : call.counts s := by rw [Call.counts, picks]; rfl
      have same : Counting (call.apply s) := by unfold Counting; rw [next]; exact counting
      rw [ih (held.step call) same, record, counts]
      simp [Ports.counter]
    | some ep =>
      rw [picks] at next record
      dsimp only [elim_some] at next record
      have rule : call.counts s = (decide (s.nextEphemeral ≤ udpEphemeralHigh) ||
          portTaken s ep s.nextEphemeral) := by rw [Call.counts, picks]; rfl
      cases counts : call.counts s with
      | true =>
        obtain ⟨still, chosen⟩ := picked_counts counting (rule.symm.trans counts)
        have same : Counting (call.apply s) := by unfold Counting; rw [next]; exact still
        rw [ih (held.step call) same, record, chosen]
        simp
      | false =>
        obtain ⟨port, made, outside⟩ := picked_past counting (rule.symm.trans counts)
        refine iff_of_false (fun all => ?_) fun no => by cases no.2.1
        have kept := run_chosen (held.step call) rest (record ▸ made)
        cases (all port kept).symm.trans outside

/-- Every port that udp_bind picked in a run lies in the ephemeral range, if and only if
in each search of the run the counter was not past the range, or the port it named there
was taken. -/
theorem picked_ports_ephemeral_iff (calls : List Call) :
    (∀ port ∈ (run Call.apply {} calls).chosen, 32768 ≤ port.toNat ∧ port.toNat ≤ 60999) ↔
      everyStep Call.apply Call.counts {} calls = true := by
  have all := run_ephemeral start_held (.inl (by decide)) calls
  simp only [ephemeral_iff] at all
  rw [all]
  simp

/-! One program that opens a socket, binds it to any port and closes it, again and
again. -/

def openAndClose : List Call :=
  [.create 5 fun _ => true, .bind (fun _ => true) 0 0 0, .close 0]

/-- Nobody holds a port; the socket in slot 0 was the last one closed. -/
def resting (next : U16) (chosen : List U16) (x : Socket) : Ports :=
  { nextEphemeral := next, chosen, sockets := Function.update (fun _ => {}) 0 x }

def closedOn (port : U16) : Socket :=
  { uid := 5, localPort := port, udp := { localPort := port, uid := 5, receive := true } }

theorem openAndClose_rests (next : U16) (chosen : List U16) {x : Socket} (free : x.used = false) :
    run Call.apply (resting next chosen x) openAndClose =
      resting (next + 1) (next :: chosen) (closedOn next) := by
  have created : Call.apply (resting next chosen x) (.create 5 fun _ => true) =
      resting next chosen { used := true, uid := 5 } := by
    have first : (findSlot fun k => !((resting next chosen x).sockets k).used && true) = some 0 := by
      simp [findSlot, List.finRange_succ, resting, free]
    rw [Call.apply, socketCreate, first]
    simp [Ports.setSocket, resting]
  have bound : Call.apply (resting next chosen { used := true, uid := 5 })
      (.bind (fun _ => true) 0 0 0) = { resting (next + 1) (next :: chosen)
        { closedOn next with used := true } with
          table := Function.update (fun _ => none) 0 (some (some 0)) } := by
    -- the search finds the counter's own port free
    have search (ep : Endpoint) (y : Socket) : pickPort (portTaken (resting next chosen y) ep)
        ephemeralTries next = (next, true) := pickPort_first (by simp [portTaken, resting])
    have slot : (findSlot fun _ : Fin udpMaxEndpoints => true) = some 0 := by
      simp [findSlot, List.finRange_succ]
    simp [Call.apply, Call.apply.onSocket, doBind, resting, defPortBindOk, udpBind, settlePort,
      Ports.setEndpoint, Ports.setSocket, Ports.endpoint]
    simp [resting] at search
    simp [search, slot, closedOn]
  simp only [run, openAndClose, List.foldl_cons, List.foldl_nil, created, bound]
  simp [Call.apply, socketClose, udpSockClose, udpUnbind, Ports.setSocket, resting, closedOn]
  funext i
  by_cases first : i = 0 <;> simp [first]

/-- After `n` rounds the counter has moved `n` ports up, and each port on the way was
picked. -/
theorem rounds_chosen (n : Nat) : ∃ chosen x, x.used = false ∧
    run Call.apply {} (List.replicate n openAndClose).flatten =
      resting (udpEphemeralLow + BitVec.ofNat 16 n) chosen x ∧
    ∀ i < n, udpEphemeralLow + BitVec.ofNat 16 i ∈ chosen := by
  induction n with
  | zero =>
    refine ⟨[], {}, rfl, ?_, fun i no => absurd no (Nat.not_lt_zero i)⟩
    simp [run, resting]
  | succ n ih =>
    obtain ⟨chosen, x, free, before, all⟩ := ih
    refine ⟨(udpEphemeralLow + BitVec.ofNat 16 n) :: chosen,
      closedOn (udpEphemeralLow + BitVec.ofNat 16 n), rfl, ?_, fun i below => ?_⟩
    · rw [List.replicate_succ', List.flatten_append, List.flatten_singleton, Runs.run_append, before,
        openAndClose_rests _ _ free, BitVec.add_assoc, ofNat_add]
      rfl
    · rcases Nat.lt_succ_iff_lt_or_eq.mp below with earlier | rfl
      · exact List.mem_cons_of_mem _ (all i earlier)
      · exact List.mem_cons_self

/-- The 28233rd automatic bind of a program that closes its sockets again gets port 61000,
the 32769th gets port 0. -/
theorem picked_ports_leave_range :
    (61000 : U16) ∈ (run Call.apply {} (List.replicate 32769 openAndClose).flatten).chosen ∧
      (0 : U16) ∈ (run Call.apply {} (List.replicate 32769 openAndClose).flatten).chosen := by
  obtain ⟨chosen, x, -, same, all⟩ := rounds_chosen 32769
  rw [same]
  exact ⟨all 28232 (by decide), all 32768 (by decide)⟩

end UzOS.Udp
