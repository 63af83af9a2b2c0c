import UzOS.Ipv4.Send
import UzOS.Lib.Runs
import UzOS.Lib.Slots

/-! The routing table through its changes (core/route/route.c), and the route a lookup
takes. -/
namespace UzOS.Ipv4

open List Option

abbrev routeMax : Nat := 16
def netEinval : Int := 22
def netEaddrinuse : Int := 98

/-- route_t in its slot, with the number of its interface. -/
structure HeldRoute where
  used : Bool := false
  dest : U32 := 0
  mask : U32 := 0
  gateway : U32 := 0
  dev : Nat := 0
  metric : U32 := 0

abbrev RouteTable := Fin routeMax → HeldRoute

def HeldRoute.isFor (r : HeldRoute) (dest mask : U32) : Bool :=
  r.used && r.dest == dest && r.mask == mask

variable (t : RouteTable)

def routeAdd (dest mask gateway : U32) (dev : Option Nat) (metric : U32) : RouteTable × Int :=
  match dev with
  | none => (t, -netEinval)
  | some dev =>
    if dest &&& ~~~mask ≠ 0 then (t, -netEinval)
    else if (findSlot fun i => (t i).isFor dest mask && (t i).metric == metric).isSome then
      (t, -netEaddrinuse)
    else match findSlot fun i => !(t i).used with
      | none => (t, -netEnobufs)
      | some slot =>
        (Function.update t slot { used := true, dest, mask, gateway, dev, metric }, 0)

def routeDel (dest mask : U32) : RouteTable × Int :=
  match findSlot fun i => (t i).isFor dest mask with
  | none => (t, -netEinval)
  | some i => (Function.update t i { t i with used := false }, 0)

def routeFlushDev (dev : Nat) : RouteTable :=
  fun i => if (t i).used && (t i).dev == dev then { t i with used := false } else t i

/-- A contiguous mask. -/
def prefixMask (length : Fin 33) : U32 := BitVec.allOnes 32 <<< (32 - length.val)

inductive RouteCall where
  | add (dest : U32) (length : Fin 33) (gateway : U32) (dev : Option Nat) (metric : U32)
  | del (dest mask : U32)
  | flushDev (dev : Nat)

def RouteCall.apply : RouteCall → RouteTable
  | .add dest length gateway dev metric => (routeAdd t dest (prefixMask length) gateway dev metric).1
  | .del dest mask => (routeDel t dest mask).1
  | .flushDev dev => routeFlushDev t dev

/-- The table after some calls. -/
def routesAfter (calls : List RouteCall) : RouteTable := Runs.run RouteCall.apply (fun _ => {}) calls

/-- The routes it holds, whatever their slots. -/
def RouteTable.routes : Set HeldRoute := {r | r.used = true ∧ ∃ i, t i = r}

/-- No two routes for one network have the same metric, and masks are contiguous. -/
structure RouteTable.Sound (t : RouteTable) : Prop where
  once : ∀ i j, (t i).used = true → (t j).isFor (t i).dest (t i).mask = true →
    (t j).metric = (t i).metric → i = j
  masks : ∀ i, (t i).used = true → ∃ length, (t i).mask = prefixMask length

/-- Taking routes away keeps the rest sound. -/
theorem RouteTable.Sound.less {t t' : RouteTable} (h : t.Sound)
    (less : ∀ i, (t' i).used → t' i = t i) : t'.Sound := by
  constructor
  · intro i j used same metric
    have other : (t' j).used := by
      simp only [HeldRoute.isFor, Bool.and_eq_true] at same
      exact same.1.1
    rw [less i used, less j other] at same metric
    exact h.once i j (less i used ▸ used) same metric
  · intro i used
    have same := less i used
    rw [same] at used ⊢
    exact h.masks i used

theorem RouteTable.Sound.add {t : RouteTable} (h : t.Sound) {slot : Fin routeMax} {r : HeldRoute}
    (fresh : ∀ j, ((t j).isFor r.dest r.mask && (t j).metric == r.metric) = false)
    (mask : ∃ length, r.mask = prefixMask length) : RouteTable.Sound (Function.update t slot r) := by
  simp only [HeldRoute.isFor, Bool.and_eq_false_imp, beq_eq_false_iff_ne, Bool.and_eq_true,
    beq_iff_eq] at fresh
  constructor
  · intro i j used same metric
    simp only [HeldRoute.isFor, Bool.and_eq_true, beq_iff_eq, Function.update_apply] at used same metric
    have once := h.once i j
    simp only [HeldRoute.isFor, Bool.and_eq_true, beq_iff_eq] at once
    -- the new route is unlike every other, on either side
    grind
  · intro i used
    by_cases here : i = slot
    · simpa [here] using mask
    simp only [ne_eq, here, not_false_eq_true, Function.update_of_ne] at used ⊢
    exact h.masks i used

theorem RouteTable.Sound.apply {t : RouteTable} (h : t.Sound) (call : RouteCall) :
    RouteTable.Sound (call.apply t) := by
  cases call with
  | add dest length gateway dev metric =>
    simp only [RouteCall.apply, routeAdd]
    cases dev with
    | none => exact h
    | some dev =>
      simp only
      split
      · exact h
      split
      · exact h
      next fresh =>
        simp only [Bool.not_eq_true, isSome_eq_false_iff, isNone_iff_eq_none] at fresh
        split
        · exact h
        · exact h.add (findSlot_none fresh) ⟨length, rfl⟩
  | del dest mask =>
    simp only [RouteCall.apply, routeDel]
    split
    · exact h
    rename_i gone _
    apply h.less
    intro i used
    by_cases here : i = gone
    · simp [here] at used
    · simp [here]
  | flushDev dev =>
    apply h.less
    intro i used
    simp only [RouteCall.apply, routeFlushDev] at used ⊢
    split at used
    · cases used
    · next kept => rw [if_neg kept]

theorem routesAfter_sound (calls : List RouteCall) : (routesAfter calls).Sound :=
  Runs.run_invariant (fun _ call h => h.apply call) ⟨by simp, by simp⟩ calls

/-! ## The lookup -/

/-- The search prefers greater keys. -/
def Route.key (r : Route) : Nat := r.mask.toNat * 2 ^ 32 + (2 ^ 32 - 1 - r.metric.toNat)

def Route.eligible (dest : U32) (r : Route) : Bool :=
  r.used && (dest &&& r.mask) == r.dest && r.dev.running

/-- One round keeps the route with the greater key. -/
theorem orBest_cases (dest : U32) (best : Option Route) (r : Route) :
    (Route.orBest dest best r = best ∧ (r.eligible dest → ∃ b ∈ best, r.key ≤ b.key)) ∨
      Route.orBest dest best r = some r ∧ r.eligible dest ∧ ∀ b ∈ best, b.key ≤ r.key := by
  have skipped : (!r.used || (dest &&& r.mask) != r.dest || !r.dev.running) = !r.eligible dest := by
    simp [Route.eligible, bne]
  unfold Route.orBest
  rw [skipped]
  cases fits : r.eligible dest with
  | false => exact .inl ⟨rfl, by simp⟩
  | true =>
    cases best with
    | none => exact .inr ⟨rfl, rfl, by simp⟩
    | some b =>
      simp only [Bool.not_true, Bool.false_eq_true, ↓reduceIte, mem_def, Option.some.injEq,
        exists_eq_left', forall_eq', Route.key, BitVec.lt_def, Bool.or_eq_true,
        Bool.and_eq_true, decide_eq_true_eq, beq_iff_eq, ← BitVec.toNat_inj]
      split
      · exact .inr ⟨rfl, trivial, by omega⟩
      · exact .inl ⟨rfl, fun _ => by omega⟩

theorem search_best (dest : U32) (table : List Route) :
    let best := table.foldl (Route.orBest dest) none
    (∀ b ∈ best, b ∈ table ∧ b.eligible dest) ∧
      ∀ r ∈ table, r.eligible dest → ∃ b ∈ best, r.key ≤ b.key := by
  induction table using List.reverseRecOn with
  | nil => simp
  | append_singleton table r ih =>
    obtain ⟨among, most⟩ := ih
    rw [foldl_concat]
    simp only [mem_append, mem_singleton, or_imp, forall_and, forall_eq]
    rcases orBest_cases dest (table.foldl (Route.orBest dest) none) r with
      ⟨same, less⟩ | ⟨taken, fits, greatest⟩
    · rw [same]
      exact ⟨⟨fun b here => .inl (among b here).1, fun b here => (among b here).2⟩, most, less⟩
    rw [taken]
    refine ⟨by simp [fits], fun q before fit => ?_, fun _ => ⟨r, rfl, le_refl _⟩⟩
    obtain ⟨b, here, less⟩ := most q before fit
    exact ⟨r, rfl, le_trans less (greatest b here)⟩

/-! ## The best route -/

def prefixLength (mask : U32) : Nat := (List.range 32).countP mask.getLsbD

theorem prefixMask_order : ∀ a b : Fin 33, (prefixMask a < prefixMask b ↔
    prefixLength (prefixMask a) < prefixLength (prefixMask b)) := by decide +kernel

section Lookup

variable (devs : List Netdev) (loopbackDev : Netdev) (dev : Nat → Netdev) (dest : U32)

/-- The route as a lookup reads it, with the state of its interface. -/
def HeldRoute.read (r : HeldRoute) : Route := ⟨r.used, r.dest, r.mask, r.gateway, dev r.dev, r.metric⟩

def RouteTable.net (t : RouteTable) : Net :=
  ⟨devs, loopbackDev, (List.ofFn t).map (HeldRoute.read dev)⟩

/-- A route of a running device that covers the destination. -/
def HeldRoute.covers (r : HeldRoute) : Prop := dest &&& r.mask = r.dest ∧ (dev r.dev).running = true

def HeldRoute.answer (r : HeldRoute) : RouteResult :=
  ⟨dev r.dev, if r.gateway ≠ 0 then r.gateway else dest, (dev r.dev).ip⟩

/-- It has the longest prefix of those that cover the destination, and of these the
lowest metric. -/
structure BestRoute (routes : Set HeldRoute) (r : HeldRoute) : Prop where
  held : r ∈ routes
  covers : r.covers dev dest
  best : ∀ q ∈ routes, q.covers dev dest → prefixLength q.mask < prefixLength r.mask ∨
    prefixLength q.mask = prefixLength r.mask ∧ r.metric ≤ q.metric

variable {devs loopbackDev dev dest} {t : RouteTable}

theorem BestRoute.unique (sound : t.Sound) {r q : HeldRoute} (h : BestRoute dev dest t.routes r)
    (h' : BestRoute dev dest t.routes q) : r = q := by
  obtain ⟨used, i, rfl⟩ := h.held
  obtain ⟨used', j, rfl⟩ := h'.held
  have one := h.best _ h'.held h'.covers
  have two := h'.best _ h.held h.covers
  obtain ⟨a, first⟩ := sound.masks i used
  obtain ⟨b, second⟩ := sound.masks j used'
  have order := prefixMask_order a b
  have order' := prefixMask_order b a
  rw [← first, ← second] at order order'
  have mask : (t j).mask = (t i).mask := by
    simp only [BitVec.lt_def, ← BitVec.toNat_inj] at order order' ⊢
    omega
  have metric : (t j).metric = (t i).metric := by
    simp only [BitVec.le_def, ← BitVec.toNat_inj] at one two ⊢
    omega
  have network : (t j).dest = (t i).dest := by rw [← h.covers.1, ← h'.covers.1, mask]
  rw [sound.once i j used (by simp [HeldRoute.isFor, used', network, mask]) metric]

theorem read_eligible (r : HeldRoute) :
    (r.read dev).eligible dest ↔ r.used ∧ r.covers dev dest := by
  simp [Route.eligible, HeldRoute.read, HeldRoute.covers, and_assoc]

/-- A search through the table ends with the best route, if any covers the destination. -/
theorem search_table (sound : t.Sound) (dev : Nat → Netdev) (dest : U32) :
    let best := ((List.ofFn t).map (HeldRoute.read dev)).foldl (Route.orBest dest) none
    (best = none ∧ ∀ r ∈ t.routes, ¬ r.covers dev dest) ∨
      ∃ r, BestRoute dev dest t.routes r ∧ best = some (r.read dev) := by
  obtain ⟨among, most⟩ := search_best dest ((List.ofFn t).map (HeldRoute.read dev))
  simp only [List.mem_map, mem_ofFn, forall_exists_index, and_imp, forall_apply_eq_imp_iff,
    read_eligible] at among most
  generalize ((List.ofFn t).map (HeldRoute.read dev)).foldl (Route.orBest dest) none = best at *
  cases best with
  | none =>
    refine .inl ⟨rfl, ?_⟩
    rintro r ⟨used, i, rfl⟩ covers
    simpa using most i used covers
  | some b =>
    obtain ⟨⟨_, ⟨i, rfl⟩, rfl⟩, fits⟩ := among b rfl
    obtain ⟨used, covers⟩ := read_eligible _ |>.mp fits
    refine .inr ⟨t i, ⟨⟨used, i, rfl⟩, covers, ?_⟩, rfl⟩
    rintro q ⟨used', j, rfl⟩ covers'
    have less : ((t j).read dev).key ≤ ((t i).read dev).key := by simpa using most j used' covers'
    obtain ⟨a, first⟩ := sound.masks i used
    obtain ⟨b, second⟩ := sound.masks j used'
    have order := prefixMask_order b a
    rw [← first, ← second] at order
    simp only [Route.key, HeldRoute.read, BitVec.lt_def, BitVec.le_def] at less order ⊢
    by_cases same : (t j).mask = (t i).mask
    · rw [same] at less ⊢
      exact .inr ⟨rfl, by omega⟩
    have differs : (t j).mask.toNat ≠ (t i).mask.toNat := fun eq => same (BitVec.eq_of_toNat_eq eq)
    exact .inl (order.mp (by omega))

theorem routeLookup_iff (sound : t.Sound)
    (foreign : (t.net devs loopbackDev dev).routeIsLocal dest = false) (result : RouteResult) :
    (t.net devs loopbackDev dev).routeLookup dest = some result ↔
      ∃ r, BestRoute dev dest t.routes r ∧ result = r.answer dev dest := by
  rw [Net.routeLookup, foreign, if_neg (by simp)]
  rcases search_table sound dev dest with ⟨fails, uncovered⟩ | ⟨r, best, found⟩
  · simp only [RouteTable.net, fails, reduceCtorEq, false_iff, not_exists, not_and]
    exact fun r best => absurd best.covers (uncovered r best.held)
  simp only [RouteTable.net, found, Option.some.injEq]
  constructor
  · rintro rfl
    exact ⟨r, best, rfl⟩
  · rintro ⟨q, best', rfl⟩
    rw [best.unique sound best']
    rfl

/-- After any calls a lookup for a foreign address fails only if no route of a running
device covers it, and else takes the best route, of which there is one. So it is
decided by the routes held alone. -/
theorem routeLookup_best (calls : List RouteCall)
    (foreign : ((routesAfter calls).net devs loopbackDev dev).routeIsLocal dest = false) :
    let routes := (routesAfter calls).routes
    let found := ((routesAfter calls).net devs loopbackDev dev).routeLookup dest
    (found = none ↔ ∀ r ∈ routes, ¬ r.covers dev dest) ∧
      (∀ result, found = some result ↔
        ∃ r, BestRoute dev dest routes r ∧ result = r.answer dev dest) ∧
      (∀ r q, BestRoute dev dest routes r → BestRoute dev dest routes q → r = q) ∧
      ∀ others, (routesAfter others).routes = routes →
        ((routesAfter others).net devs loopbackDev dev).routeLookup dest = found := by
  have sound := routesAfter_sound calls
  have found := routeLookup_iff sound foreign
  refine ⟨?_, found, fun r q h h' => h.unique sound h', ?_⟩
  · rw [eq_none_iff_forall_ne_some]
    simp only [ne_eq, found]
    constructor
    · intro none r held covers
      rcases search_table sound dev dest with ⟨-, uncovered⟩ | ⟨best, is, -⟩
      · exact uncovered r held covers
      · exact none _ ⟨best, is, rfl⟩
    · rintro uncovered _ ⟨r, best, -⟩
      exact uncovered r best.held best.covers
  · intro others same
    have foreign' : ((routesAfter others).net devs loopbackDev dev).routeIsLocal dest = false := foreign
    ext result
    rw [routeLookup_iff (routesAfter_sound others) foreign', same, found]

end Lookup

def eth0 : Netdev := ⟨0x0A00020F, 1500, true, true, ethernet_mtu⟩

/-- A default route, and two ways to 10.0.0.0/8, the second of which costs less. -/
def overlapping : List RouteCall :=
  [.add 0 0 0x0A000202 (some 0) 0, .add 0x0A000000 8 0x0A000203 (some 0) 5,
   .add 0x0A000000 8 0x0A000204 (some 0) 1]

theorem routeLookup_best_overlapping :
    let net := (routesAfter overlapping).net [eth0] eth0 fun _ => eth0
    net.routeLookup 0x0A090909 = some ⟨eth0, 0x0A000204, 0x0A00020F⟩ ∧
      ∃ r, BestRoute (fun _ => eth0) 0x0A090909 (routesAfter overlapping).routes r ∧
        ⟨eth0, 0x0A000204, 0x0A00020F⟩ = r.answer (fun _ => eth0) 0x0A090909 := by
  intro net
  have found : net.routeLookup 0x0A090909 = some ⟨eth0, 0x0A000204, 0x0A00020F⟩ := rfl
  exact ⟨found, ((routeLookup_best overlapping (by decide +kernel)).2.1 _).mp found⟩

end UzOS.Ipv4
