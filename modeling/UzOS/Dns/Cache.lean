import UzOS.Dns.Message
import UzOS.Lib.Runs
import UzOS.Lib.Slots

/-! The cache of core/dns/dns.c, by a clock that wraps every 2^32 ms: how old an answer
from it can be. -/
namespace UzOS.Dns

open BitVec Function

abbrev cacheSize : Nat := 16
def cacheMaxTtl : U32 := 300

structure CacheEntry where
  name : CString := ⟨[], by simp⟩
  ip : U32 := 0
  expiresMs : U32 := 0

abbrev Cache := Fin cacheSize → CacheEntry

/-- same_name of two C strings; past its end a string reads as 0. -/
def sameNames : List U8 → List U8 → Bool
  | a :: as, b :: bs => lower a == lower b && sameNames as bs
  | as, bs => lower (as.headD 0) == lower (bs.headD 0)

/-- The signed difference of two moments of the clock. -/
def CacheEntry.left (e : CacheEntry) (now : U32) : Int := (e.expiresMs - now).toInt

def cacheLookup (c : Cache) (now : U32) (name : CString) : Option U32 :=
  (findSlot fun i => (c i).name.1 != [] && sameNames (c i).name.1 name.1 &&
    decide ((c i).left now > 0)).map fun i => (c i).ip

/-- A free or expired slot, else the oldest. -/
def cacheSlot (c : Cache) (now : U32) : Option (Fin cacheSize) :=
  (findSlot fun i => decide ((c i).left now ≤ 0)).or
    (oldestSlot (fun _ => true) fun i => (c i).expiresMs)

def expiresAt (now ttl : U32) : U32 :=
  now + (if ttl > cacheMaxTtl then cacheMaxTtl else ttl) * 1000

/-- Also says which slot it wrote. -/
def cacheAdd (c : Cache) (now : U32) (name : CString) (ip ttl : U32) :
    Cache × Option (Fin cacheSize) :=
  if name.1.length ≥ dnsNameMax then (c, none)
  else match cacheSlot c now with
    | none => (c, none)
    | some slot => (Function.update c slot { name, ip, expiresMs := expiresAt now ttl }, some slot)

/-! ## Runs in real time -/

/-- A call of cache_add that stored its answer, at a time that does not wrap. -/
structure Added where
  name : CString
  ip : U32
  ttl : U32
  time : Nat

/-- In ms. -/
def Added.lifetime (a : Added) : Nat := min a.ttl.toNat 300 * 1000

def Added.entry (a : Added) : CacheEntry where
  name := a.name
  ip := a.ip
  expiresMs := expiresAt (BitVec.ofNat 32 a.time) a.ttl

/-- The cache, the real time in ms, the calls that stored an answer, and for each slot
the last of them. -/
structure Timed where
  cache : Cache := fun _ => {}
  time : Nat := 0
  log : List Added := []
  stored : Fin cacheSize → Option Added := fun _ => none

def Timed.now (s : Timed) : U32 := BitVec.ofNat 32 s.time

inductive CacheEvent where
  | wait (ms : Nat)
  | add (name : CString) (ip ttl : U32)
  | lookup (name : CString)

def Timed.step (s : Timed) : CacheEvent → Timed
  | .wait ms => { s with time := s.time + ms }
  | .lookup _ => s
  | .add name ip ttl =>
    let a : Added := { name, ip, ttl, time := s.time }
    match cacheAdd s.cache s.now name ip ttl with
    | (_, none) => s
    | (cache, some slot) =>
      { s with cache, log := s.log ++ [a], stored := Function.update s.stored slot (some a) }

/-- Some call stored this address for this name no longer ago than its lifetime. -/
def Timed.fresh (s : Timed) (name : CString) (ip : U32) : Prop :=
  ∃ a ∈ s.log, sameNames a.name.1 name.1 = true ∧ a.ip = ip ∧ a.time ≤ s.time ∧
    s.time ≤ a.time + a.lifetime

/-- No entry for the name ran out more than 2^31 ms ago. -/
def prompt (s : Timed) : CacheEvent → Bool
  | .lookup name => decide (∀ i, (s.stored i).all fun a =>
      !sameNames a.name.1 name.1 || decide (s.time ≤ a.time + a.lifetime + 2 ^ 31))
  | _ => true

/-- Every slot in use holds what the last call wrote there. -/
structure Held (s : Timed) : Prop where
  free : ∀ i, s.stored i = none → (s.cache i).name.1 = []
  used : ∀ i a, s.stored i = some a → s.cache i = a.entry ∧ a ∈ s.log ∧ a.time ≤ s.time

theorem Held.step {s : Timed} (h : Held s) (e : CacheEvent) : Held (s.step e) := by
  cases e with
  | lookup name => exact h
  | wait ms =>
    constructor
    · exact h.free
    · intro i a stored
      obtain ⟨entry, logged, past⟩ := h.used i a stored
      exact ⟨entry, logged, Nat.le_add_right_of_le past⟩
  | add name ip ttl =>
    simp only [Timed.step, cacheAdd]
    split
    · exact h
    rename_i cache slot added
    split at added
    · cases added
    split at added
    · cases added
    cases added
    constructor
    · intro i free
      by_cases here : i = slot
      · simp [here] at free
      simp only [ne_eq, here, not_false_eq_true, update_of_ne] at free ⊢
      exact h.free i free
    · intro i a stored
      by_cases here : i = slot
      · subst here
        simp only [update_self, Option.some.injEq] at stored ⊢
        subst stored
        exact ⟨rfl, by simp, le_refl _⟩
      · simp only [ne_eq, here, not_false_eq_true, update_of_ne] at stored ⊢
        obtain ⟨entry, logged, past⟩ := h.used i a stored
        exact ⟨entry, List.mem_append_left _ logged, past⟩

theorem Added.span (a : Added) :
    ((if a.ttl > cacheMaxTtl then cacheMaxTtl else a.ttl) * 1000).toNat = a.lifetime := by
  have cap : cacheMaxTtl.toNat = 300 := rfl
  unfold lifetime
  split
  · next more =>
    have more := lt_def.mp more
    rw [Nat.min_eq_right (by omega)]
    rfl
  · next most =>
    have most := le_def.mp (BitVec.not_lt.mp most)
    rw [Nat.min_eq_left (by omega)]
    exact Nat.mod_eq_of_lt (by simp; omega)

/-- Up to 2^31 ms after its end an entry reads as live only while it is. -/
theorem Added.live {a : Added} {time : Nat} (soon : time ≤ a.time + a.lifetime + 2 ^ 31)
    (live : a.entry.left (BitVec.ofNat 32 time) > 0) : time ≤ a.time + a.lifetime := by
  simp only [CacheEntry.left, entry, expiresAt, toInt_eq_toNat_cond, toNat_sub,
    toNat_add, a.span, toNat_ofNat] at live
  omega

/-- In a run whose lookups all are prompt, every address found was stored for that name
within its lifetime. -/
theorem lookups_fresh (events : List CacheEvent)
    (ok : Runs.everyStep Timed.step prompt {} events = true) (pre post : List CacheEvent)
    (name : CString) (part : events = pre ++ .lookup name :: post) (ip : U32)
    (found : cacheLookup (Runs.run Timed.step {} pre).cache (Runs.run Timed.step {} pre).now name =
      some ip) :
    (Runs.run Timed.step {} pre).fresh name ip := by
  subst part
  have asked : prompt _ _ = true := Runs.everyStep_next ok
  have held : Held (Runs.run Timed.step {} pre) :=
    Runs.run_invariant (fun _ e h => h.step e) ⟨fun _ _ => rfl, by simp⟩ pre
  generalize Runs.run Timed.step {} pre = s at *
  simp only [cacheLookup, Option.map_eq_some_iff] at found
  obtain ⟨i, slot, rfl⟩ := found
  have test := findSlot_some slot
  simp only [Bool.and_eq_true, bne_iff_ne, decide_eq_true_eq] at test
  obtain ⟨⟨used, same⟩, live⟩ := test
  cases stored : s.stored i with
  | none => exact absurd (held.free i stored) used
  | some a =>
    obtain ⟨entry, logged, past⟩ := held.used i a stored
    rw [entry] at same live ⊢
    have soon := of_decide_eq_true asked i
    rw [stored] at soon
    have same' : sameNames a.name.1 name.1 = true := same
    simp only [Option.all_some, same', Bool.not_true, Bool.false_or, decide_eq_true_eq] at soon
    exact ⟨a, logged, same, rfl, past, Added.live soon live⟩

def hostName : CString := ⟨[97], by decide⟩

def answeredOnce (ms : Nat) : List CacheEvent := [.add hostName 7 60, .wait ms]

theorem lookups_fresh_minute :
    Runs.everyStep Timed.step prompt {} (answeredOnce 59999 ++ [.lookup hostName]) = true ∧
      (Runs.run Timed.step {} (answeredOnce 59999)).fresh hostName 7 :=
  have ok : Runs.everyStep Timed.step prompt {} (answeredOnce 59999 ++ [.lookup hostName]) = true :=
    by decide +kernel
  ⟨ok, lookups_fresh _ ok (answeredOnce 59999) [] hostName rfl 7 (by decide +kernel)⟩

/-- 25 days later the minute's answer is live again. -/
theorem lookup_revives :
    let s := Runs.run Timed.step {} (answeredOnce (25 * 24 * 3600 * 1000))
    cacheLookup s.cache s.now hostName = some 7 ∧ ¬ s.fresh hostName 7 := by
  have gone : ∀ a ∈ (Runs.run Timed.step {} (answeredOnce (25 * 24 * 3600 * 1000))).log,
      a.time + a.lifetime < 25 * 24 * 3600 * 1000 := by decide +kernel
  constructor
  · decide +kernel
  · rintro ⟨a, logged, -, -, -, fresh⟩
    exact absurd fresh (not_le.mpr (gone a logged))

end UzOS.Dns
