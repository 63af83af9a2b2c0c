import UzOS.Ipv4.Send
import UzOS.Lib.Runs

/-! The firewall (core/firewall/firewall.c): one table holds the rules of both chains, and
what it comes to for each of them. -/
namespace UzOS.Ipv4

open List

abbrev fwMaxRules : Nat := 16
def protoTcp : U8 := 6
def protoUdp : U8 := 17

inductive Chain where
  | input
  | output
  deriving DecidableEq

inductive Target where
  | accept
  | drop
  | reject
  | log
  deriving DecidableEq

/-- fw_rule_t without its counters. -/
structure Rule where
  used : Bool := false
  chain : Chain := .input
  protocol : U8 := 0
  src : U32 := 0
  srcMask : U32 := 0
  dst : U32 := 0
  dstMask : U32 := 0
  sport : U16 := 0
  dport : U16 := 0
  synOnly : Bool := false
  iface : List U8 := []
  target : Target := .accept

/-! ## Matching -/

/-- The ports and the TCP flags, if the packet has them. -/
def transport (p : Packet) : U16 × U16 × U8 :=
  let byte (i : Nat) : U8 := p.payload.getD i 0
  let word (i : Nat) : U16 := (byte i).setWidth 16 <<< 8 ||| (byte (i + 1)).setWidth 16
  if p.header.protocol ≠ protoTcp ∧ p.header.protocol ≠ protoUdp then (0, 0, 0)
  else if p.payload.length < 4 ∨ p.frag &&& ipv4OffsetMask ≠ 0 then (0, 0, 0)
  else (word 0, word 2,
    if p.header.protocol = protoTcp ∧ p.payload.length ≥ 20 then byte 13 else 0)

/-- `dev` is the name of the interface. -/
def Rule.matches (r : Rule) (p : Packet) (dev : Option (List U8)) : Bool :=
  let (sport, dport, flags) := transport p
  (r.protocol == 0 || r.protocol == p.header.protocol) &&
    ntohl p.header.src &&& r.srcMask == r.src &&& r.srcMask &&
    ntohl p.header.dst &&& r.dstMask == r.dst &&& r.dstMask &&
    (r.sport == 0 || r.sport == sport) && (r.dport == 0 || r.dport == dport) &&
    (!r.synOnly || (flags &&& 2 != 0 && flags &&& 16 == 0)) &&
    (r.iface == [] || dev == some r.iface)

/-- The loop of firewall_check; LOG goes on to the next rule. -/
def decided (chain : Chain) (p : Packet) (dev : Option (List U8)) : List Rule → Option Target
  | [] => none
  | r :: rest =>
    if !r.used || r.chain != chain || !r.matches p dev then decided chain p dev rest
    else if r.target = .log then decided chain p dev rest
    else some r.target

def verdict (policy : Chain → Target) (table : List Rule) (chain : Chain) (p : Packet)
    (dev : Option (List U8)) : Target := (decided chain p dev table).getD (policy chain)

def firewallCheck (policy : Chain → Target) (table : List Rule) (chain : Chain) (p : Packet)
    (dev : Option (List U8)) : Bool :=
  verdict policy table chain p dev != .drop && verdict policy table chain p dev != .reject

/-! ## The table -/

def Rule.stored (r : Rule) : Rule := { r with used := true }

def Rule.cleared (r : Rule) : Rule := { r with used := false }

/-- The first free slot. -/
def appendLoop (rule : Rule) : List Rule → Option (List Rule)
  | [] => none
  | r :: rest => if !r.used then some (rule.stored :: rest) else (appendLoop rule rest).map (r :: ·)

def firewallAppend (t : List Rule) (rule : Rule) : List Rule × Int :=
  match appendLoop rule t with
  | none => (t, -netEnobufs)
  | some t => (t, 0)

/-- The rules in front move one down. -/
def firewallInsert (t : List Rule) (rule : Rule) : List Rule × Int :=
  let count := (t.takeWhile Rule.used).length
  if count < fwMaxRules then (rule.stored :: t.take count ++ t.drop (count + 1), 0)
  else (t, -netEnobufs)

/-- The `position`-th rule of the chain goes and the rest moves up; `n` were counted. -/
def deleteLoop (chain : Chain) (position : Int) : Int → List Rule → Option (List Rule)
  | _, [] => none
  | n, r :: rest =>
    if r.used && r.chain == chain then
      if n + 1 = position then some (rest ++ [(rest.getLastD r).cleared])
      else (deleteLoop chain position (n + 1) rest).map (r :: ·)
    else (deleteLoop chain position n rest).map (r :: ·)

def firewallDelete (t : List Rule) (chain : Chain) (position : Int) : List Rule × Int :=
  match deleteLoop chain position 0 t with
  | none => (t, -22)
  | some t => (t, 0)

/-- `none` is every chain. -/
def firewallFlush (t : List Rule) (chain : Option Chain) : List Rule :=
  let kept := t.filter fun r => r.used && chain.any (· != r.chain)
  kept ++ (t.drop kept.length).map Rule.cleared

inductive FwCall where
  | append (rule : Rule)
  | insert (rule : Rule)
  | delete (chain : Chain) (position : Int)
  | flush (chain : Option Chain)

def FwCall.apply (t : List Rule) : FwCall → List Rule × Int
  | .append rule => firewallAppend t rule
  | .insert rule => firewallInsert t rule
  | .delete chain position => firewallDelete t chain position
  | .flush chain => (firewallFlush t chain, 0)

/-! ## Lists of rules -/

abbrev Lists := Chain → List Rule

def Lists.total (l : Lists) : Nat := (l .input).length + (l .output).length

/-- What the calls do to a list for each chain, with room for all of them together. -/
def FwCall.spec (l : Lists) : FwCall → Lists × Int
  | .append rule =>
    if l.total < fwMaxRules then
      (Function.update l rule.chain (l rule.chain ++ [rule.stored]), 0)
    else (l, -netEnobufs)
  | .insert rule =>
    if l.total < fwMaxRules then (Function.update l rule.chain (rule.stored :: l rule.chain), 0)
    else (l, -netEnobufs)
  | .delete chain position =>
    if 1 ≤ position ∧ position ≤ (l chain).length then
      (Function.update l chain ((l chain).eraseIdx (position.toNat - 1)), 0)
    else (l, -22)
  | .flush none => (fun _ => [], 0)
  | .flush (some chain) => (Function.update l chain [], 0)

def Rule.isOn (c : Chain) (r : Rule) : Bool := r.used && r.chain == c

/-- The entries in use come first, and each chain's are those of its list. -/
structure Holds (t : List Rule) (l : Lists) : Prop where
  size : t.length = fwMaxRules
  packed : t.Pairwise fun a b => b.used = true → a.used = true
  lists : ∀ c, l c = t.filter (Rule.isOn c)

section Calls

variable {t t' pre post : List Rule} {l : Lists} {r b : Rule}

theorem isOn_total (t : List Rule) : (t.filter (Rule.isOn .input)).length +
    (t.filter (Rule.isOn .output)).length = (t.filter Rule.used).length := by
  induction t with
  | nil => rfl
  | cons r rest ih =>
    cases used : r.used <;> cases chain : r.chain <;> simp [Rule.isOn, used, chain] <;> omega

theorem Holds.total (h : Holds t l) : l.total = (t.filter Rule.used).length := by
  simp only [Lists.total, h.lists, isOn_total]

/-- Behind a free entry all are free. -/
theorem Holds.rest (h : Holds (pre ++ b :: post) l) (free : b.used = false) (c : Chain) :
    (b :: post).filter (Rule.isOn c) = [] := by
  rw [filter_eq_nil_iff]
  have later := (pairwise_cons.mp (pairwise_append.mp h.packed).2.1).1
  intro r member on
  have used : r.used := (Bool.and_eq_true_iff.mp on).1
  rcases mem_cons.mp member with rfl | behind
  · cases free.symm.trans used
  · cases free.symm.trans (later r behind used)

/-- The first free entry, if there is one. -/
theorem Holds.room (h : Holds t l) : (¬ l.total < fwMaxRules ∧ ∀ r ∈ t, r.used) ∨
    l.total < fwMaxRules ∧ ∃ pre b post, t = pre ++ b :: post ∧ (∀ r ∈ pre, r.used) ∧
      b.used = false := by
  rw [h.total, ← h.size, length_filter_lt_length_iff_exists]
  cases found : t.find? fun r => !r.used with
  | none =>
    have all : ∀ r ∈ t, r.used := by simpa using found
    exact .inl ⟨by simpa using all, all⟩
  | some b =>
    obtain ⟨free, pre, post, rfl, before⟩ := List.find?_eq_some_iff_append.mp found
    exact .inr ⟨⟨b, by simp, by simpa using free⟩, pre, b, post, rfl, by simpa using before,
      by simpa using free⟩

theorem packed_of_used (used : ∀ r ∈ pre, r.used)
    (packed : post.Pairwise fun a b => b.used → a.used) :
    (pre ++ post).Pairwise fun a b => b.used → a.used :=
  pairwise_append.mpr ⟨List.Pairwise.imp_of_mem (fun first _ _ _ => used _ first)
    (pairwise_of_forall fun _ _ => trivial), packed, fun a first _ _ _ => used a first⟩

/-- A rule joins those in use in the place of a free entry. -/
theorem Holds.joins (h : Holds (pre ++ b :: post) l) (free : b.used = false) (front : List Rule)
    (length : front.length = pre.length + 1) (used : ∀ r ∈ front, r.used) :
    Holds (front ++ post) fun c => front.filter (Rule.isOn c) where
  size := by
    rw [← h.size, length_append, length_append, length_cons]
    omega
  packed := packed_of_used used (pairwise_append.mp h.packed).2.1.tail
  lists c := by
    have none := h.rest free c
    rw [filter_cons_of_neg (by simp [Rule.isOn, free])] at none
    simp [none]

theorem Holds.joined (h : Holds (pre ++ b :: post) l) (free : b.used = false) (rule : Rule) :
    Function.update l rule.chain (l rule.chain ++ [rule.stored]) =
        (fun c => (pre ++ [rule.stored]).filter (Rule.isOn c)) ∧
      Function.update l rule.chain (rule.stored :: l rule.chain) =
        fun c => (rule.stored :: pre).filter (Rule.isOn c) := by
  have lists (c : Chain) : l c = pre.filter (Rule.isOn c) := by
    rw [h.lists, filter_append, h.rest free, append_nil]
  constructor
  all_goals
    funext c
    by_cases own : c = rule.chain
    · subst own
      simp [lists, Rule.isOn, Rule.stored]
    · simp [lists, Rule.isOn, Rule.stored, own, Ne.symm own]

theorem appendLoop_used (rule : Rule) (used : ∀ r ∈ pre, r.used) (post : List Rule) :
    appendLoop rule (pre ++ post) = (appendLoop rule post).map (pre ++ ·) := by
  induction pre with
  | nil => simp
  | cons r pre ih =>
    rw [cons_append, appendLoop, used r mem_cons_self,
      ih fun q member => used q (mem_cons_of_mem r member)]
    simp [Function.comp_def]

/-- A call answers as the lists do, and the table holds them afterwards. -/
structure Agrees (t : List Rule) (l : Lists) (call : FwCall) : Prop where
  answer : (call.apply t).2 = (call.spec l).2
  holds : Holds (call.apply t).1 (call.spec l).1

theorem Holds.append (h : Holds t l) (rule : Rule) : Agrees t l (.append rule) := by
  rcases h.room with ⟨full, all⟩ | ⟨fits, pre, b, post, rfl, used, free⟩
  · have loop := appendLoop_used rule all []
    rw [append_nil] at loop
    constructor <;> simp only [FwCall.apply, firewallAppend, FwCall.spec, loop, if_neg full]
    · rfl
    · exact h
  · have joins := h.joins free (pre ++ [rule.stored]) (by simp)
      (by simpa [or_imp, forall_and] using ⟨used, rfl⟩)
    rw [← (h.joined free rule).1] at joins
    constructor <;> simp only [FwCall.apply, firewallAppend, FwCall.spec, if_pos fits,
      appendLoop_used rule used, appendLoop, free, Bool.not_false, ↓reduceIte, Option.map_some]
    simpa using joins

theorem Holds.insert (h : Holds t l) (rule : Rule) : Agrees t l (.insert rule) := by
  rcases h.room with ⟨full, all⟩ | ⟨fits, pre, b, post, rfl, used, free⟩
  · have count : ¬ (t.takeWhile Rule.used).length < fwMaxRules := by
      rw [takeWhile_eq_self_iff.mpr all, h.size]
      exact lt_irrefl _
    constructor <;> simp only [FwCall.apply, firewallInsert, FwCall.spec, if_neg full, if_neg count]
    exact h
  · have count : (pre ++ b :: post).takeWhile Rule.used = pre := by
      rw [takeWhile_append_of_pos used, takeWhile_cons_of_neg (by simp [free]), append_nil]
    have short : pre.length < fwMaxRules := by
      rw [← h.size, length_append, length_cons]
      omega
    have joins := h.joins free (rule.stored :: pre) rfl (by simpa using ⟨rfl, used⟩)
    rw [← (h.joined free rule).2] at joins
    constructor <;> simp only [FwCall.apply, firewallInsert, FwCall.spec, count, if_pos fits,
      if_pos short]
    simpa using joins

/-- The rule in its place, or too few of the chain. -/
theorem deleteLoop_cases (chain : Chain) (position n : Int) (t : List Rule) :
    (deleteLoop chain position n t = none ∧
      ¬ (n < position ∧ position ≤ n + (t.filter (Rule.isOn chain)).length)) ∨
      ∃ pre r post blank, t = pre ++ r :: post ∧ r.isOn chain ∧
        position = n + (pre.filter (Rule.isOn chain)).length + 1 ∧ blank.used = false ∧
        deleteLoop chain position n t = some (pre ++ post ++ [blank]) := by
  induction t generalizing n with
  | nil => exact .inl ⟨rfl, by simp⟩
  | cons r rest ih =>
    rw [deleteLoop, ← Rule.isOn]
    cases on : r.isOn chain with
    | false =>
      rw [filter_cons_of_neg (by simp [on])]
      rcases ih n with ⟨none, few⟩ | ⟨pre, q, post, blank, rfl, own, place, free, found⟩
      · exact .inl ⟨by simp [none], few⟩
      · exact .inr ⟨r :: pre, q, post, blank, rfl, own, by simp [on, place], free, by simp [found]⟩
    | true =>
      rw [filter_cons_of_pos on]
      by_cases here : n + 1 = position
      · exact .inr ⟨[], r, rest, (rest.getLastD r).cleared, rfl, on, by simp [here], rfl,
          by simp [here]⟩
      rcases ih (n + 1) with ⟨none, few⟩ | ⟨pre, q, post, blank, rfl, own, place, free, found⟩
      · refine .inl ⟨by simp [here, none], ?_⟩
        rw [length_cons]
        push_cast
        omega
      · refine .inr ⟨r :: pre, q, post, blank, rfl, own, ?_, free, by simp [here, found]⟩
        rw [filter_cons_of_pos on, length_cons]
        push_cast
        omega

theorem Holds.delete (h : Holds t l) (chain : Chain) (position : Int) :
    Agrees t l (.delete chain position) := by
  rcases deleteLoop_cases chain position 0 t with ⟨none, few⟩ |
    ⟨pre, r, post, blank, rfl, own, place, free, found⟩
  · have few : ¬ (1 ≤ position ∧ position ≤ (l chain).length) := by
      rw [h.lists]
      omega
    constructor <;> simp only [FwCall.apply, firewallDelete, FwCall.spec, none, if_neg few]
    exact h
  · have lists (c : Chain) : l c =
        pre.filter (Rule.isOn c) ++ (r :: post).filter (Rule.isOn c) := by
      rw [h.lists, filter_append]
    have inside : 1 ≤ position ∧ position ≤ (l chain).length := by
      rw [lists, filter_cons_of_pos own, length_append, length_cons]
      omega
    constructor <;> simp only [FwCall.apply, firewallDelete, FwCall.spec, found, if_pos inside]
    constructor
    · simp [← h.size]
    · rw [pairwise_append]
      refine ⟨h.packed.sublist (by simp), pairwise_singleton _ _, ?_⟩
      intro a _ b last used
      rw [mem_singleton.mp last, free] at used
      cases used
    · intro c
      have gone : (pre ++ post ++ [blank]).filter (Rule.isOn c) =
          pre.filter (Rule.isOn c) ++ post.filter (Rule.isOn c) := by
        simp [Rule.isOn, free]
      rw [gone]
      by_cases same : c = chain
      · subst same
        have index : position.toNat - 1 = (pre.filter (Rule.isOn c)).length := by omega
        simp [lists, own, index, eraseIdx_append_of_length_le]
      · have other : r.isOn c = false := by
          simp only [Rule.isOn, Bool.and_eq_true, beq_iff_eq] at own
          simp [Rule.isOn, own, Ne.symm same]
        simp [lists, same, other]

theorem flush_holds (h : Holds t l) (keep : Rule → Bool)
    (keeps : ∀ r, keep r → r.used) :
    Holds (t.filter keep ++ (t.drop (t.filter keep).length).map Rule.cleared)
      fun c => t.filter fun r => r.isOn c && keep r := by
  have free : ∀ r ∈ (t.drop (t.filter keep).length).map Rule.cleared, r.used = false := by
    simp only [mem_map]
    rintro _ ⟨r, -, rfl⟩
    rfl
  constructor
  · have short := length_filter_le keep t
    simp only [length_append, length_map, length_drop]
    rw [← h.size]
    omega
  · apply packed_of_used fun r member => keeps r (mem_filter.mp member).2
    apply List.Pairwise.imp_of_mem (R := fun _ _ => True) _ (pairwise_of_forall (by simp))
    intro a b _ last _ used
    cases (free b last).symm.trans used
  · intro c
    have none : ((t.drop (t.filter keep).length).map Rule.cleared).filter (Rule.isOn c) = [] := by
      rw [filter_eq_nil_iff]
      intro r member on
      cases (free r member).symm.trans (Bool.and_eq_true_iff.mp on).1
    rw [filter_append, none, append_nil, filter_filter]

theorem Holds.flush (h : Holds t l) (chain : Option Chain) : Agrees t l (.flush chain) := by
  constructor
  · cases chain <;> rfl
  have holds := flush_holds h (fun r => r.used && chain.any (· != r.chain)) (by simp +contextual)
  have lists : (fun c => t.filter fun r => r.isOn c && (r.used && chain.any (· != r.chain))) =
      ((FwCall.flush chain).spec l).1 := by
    funext c
    cases chain with
    | none => simp [FwCall.spec]
    | some gone =>
      by_cases same : c = gone
      · subst same
        simp only [FwCall.spec, Rule.isOn]
        simp +contextual
      · simp only [FwCall.spec, Function.update_of_ne same, h.lists]
        apply filter_congr
        intro r _
        by_cases own : r.chain = c
        · simp [Rule.isOn, own, Ne.symm same]
        · simp [Rule.isOn, own]
  exact lists ▸ holds

theorem Holds.agrees (h : Holds t l) (call : FwCall) : Agrees t l call := by
  cases call with
  | append rule => exact h.append rule
  | insert rule => exact h.insert rule
  | delete chain position => exact h.delete chain position
  | flush chain => exact h.flush chain

theorem decided_find (chain : Chain) (p : Packet) (dev : Option (List U8)) (t : List Rule) :
    decided chain p dev t = ((t.filter (Rule.isOn chain)).find? fun r =>
      r.matches p dev && r.target != .log).map Rule.target := by
  induction t with
  | nil => rfl
  | cons r rest ih =>
    rw [decided, ih, filter_cons, Rule.isOn]
    by_cases on : r.used ∧ r.chain = chain
    · cases fits : r.matches p dev <;> by_cases log : r.target = .log <;> simp [on, fits, log]
    · have off : (r.used && r.chain == chain) = false := by simpa using on
      have skip : (!r.used || r.chain != chain) := by simpa [imp_iff_not_or] using on
      simp [off, skip]

end Calls

theorem apply_fails (t : List Rule) (call : FwCall) (fails : (call.apply t).2 ≠ 0) :
    (call.apply t).1 = t := by
  cases call with
  | append | delete =>
    simp only [FwCall.apply, firewallAppend, firewallDelete] at fails ⊢
    split at fails
    · rfl
    · cases fails rfl
  | insert =>
    simp only [FwCall.apply, firewallInsert] at fails ⊢
    split at fails
    · cases fails rfl
    · next full => rw [if_neg full]
  | flush => cases fails rfl

/-- The table and the lists after some calls. -/
def fwRun (calls : List FwCall) : List Rule × Lists :=
  Runs.run (fun (t, l) call => ((call.apply t).1, (call.spec l).1))
    (List.replicate fwMaxRules {}, fun _ => []) calls

/-- After any calls the table holds, for each chain, the list that the calls give, in the
first entries; the next call answers as the lists do and changes nothing if it fails; and
a packet's verdict is that of the first rule of the chain's list that matches and does not
just log, or the policy. -/
theorem firewall_refines_lists (calls : List FwCall) : Holds (fwRun calls).1 (fwRun calls).2 ∧
    (∀ call : FwCall, (call.apply (fwRun calls).1).2 = (call.spec (fwRun calls).2).2 ∧
      ((call.apply (fwRun calls).1).2 ≠ 0 → (call.apply (fwRun calls).1).1 = (fwRun calls).1)) ∧
    ∀ policy chain p dev, verdict policy (fwRun calls).1 chain p dev =
      ((((fwRun calls).2 chain).find? fun r => r.matches p dev && r.target != .log).map
        Rule.target).getD (policy chain) := by
  have holds : Holds (fwRun calls).1 (fwRun calls).2 := by
    refine Runs.run_invariant (P := fun s : List Rule × Lists => Holds s.1 s.2)
      (fun _ call h => (h.agrees call).holds) ⟨by simp, ?_, fun c => by simp [Rule.isOn]⟩ calls
    exact pairwise_replicate.mpr (.inr id)
  refine ⟨holds, fun call => ⟨(holds.agrees call).answer, apply_fails _ call⟩, ?_⟩
  intro policy chain p dev
  rw [verdict, decided_find, holds.lists]

end UzOS.Ipv4
