import UzOS.Dhcp.Client
import UzOS.Icmp.Errors
import UzOS.Lib.Checked
import UzOS.Tcp.Input

/-! The three loops over option bytes, with every load: read_mss (core/tcp/tcp.c),
def_ip_options_ok (defence drop_ip_options) and read_options (core/dhcp/dhcp.c). They stay
inside the bytes they were given, end, and read what the models of their callers take. -/
namespace UzOS.Options

open Checked List

variable (opt : List U8) (len : U32)

/-- read_mss from the position `o` on. -/
def readMss : Nat → Nat → Except Fault U16
  | 0, _ => .error .unfinished
  | rounds + 1, o =>
    if opt.length ≤ o then .ok 0
    else load opt o >>= fun kind =>
      if kind = 0 then .ok 0
      else if kind = 1 then readMss rounds (o + 1)
      else if opt.length ≤ o + 1 then .ok 0
      else load opt (o + 1) >>= fun size =>
        if size.toNat < 2 ∨ opt.length < o + size.toNat then .ok 0
        else if kind = 2 ∧ size = 4 then load16 opt (o + 2)
        else readMss rounds (o + size.toNat)

/-- The loop of def_ip_options_ok, whose index has 32 bits. -/
def ok : Nat → U32 → Except Fault Bool
  | 0, _ => .error .unfinished
  | rounds + 1, i =>
    if len ≤ i then .ok true
    else load opt i.toNat >>= fun kind =>
      if kind = 0 then .ok true
      else if kind = 1 then ok rounds (i + 1)
      else if kind = 0x83 ∨ kind = 0x89 then .ok false
      else if len ≤ i + 1 then .ok false
      else load opt (i + 1).toNat >>= fun size =>
        if size.toNat < 2 then .ok false else ok rounds (i + size.setWidth 32)

/-- What read_options keeps of an option other than the type. -/
def keep (code size : U8) (ip : U32) (out : Dhcp.Lease) : Dhcp.Lease :=
  let long := decide (4 ≤ size.toNat)
  let out := if code = Dhcp.optNetmask && long then { out with netmask := ip } else out
  let out := if code = Dhcp.optRouter && long then { out with router := ip } else out
  let out := if code = Dhcp.optDns && long then { out with dns := ip } else out
  let out := if code = Dhcp.optLease && long then { out with leaseS := ip } else out
  if code = Dhcp.optServerId && long then { out with server := ip } else out

/-- read_options from the position `o` on. -/
def readOptions : Nat → Nat → U8 → Dhcp.Lease → Except Fault (U8 × Dhcp.Lease)
  | 0, _, _, _ => .error .unfinished
  | rounds + 1, o, type, out =>
    if opt.length ≤ o then .ok (type, out)
    else load opt o >>= fun code =>
      if code = Dhcp.optEnd then .ok (type, out)
      else if code = Dhcp.optPad then readOptions rounds (o + 1) type out
      else if opt.length < o + 2 then .ok (type, out)
      else load opt (o + 1) >>= fun size =>
        if opt.length < o + 2 + size.toNat then .ok (type, out)
        else (if 4 ≤ size.toNat then load32 opt (o + 2) else .ok 0) >>= fun ip =>
          (if code = Dhcp.optMsgType ∧ 1 ≤ size.toNat then load opt (o + 2) else .ok type) >>= fun type =>
            readOptions rounds (o + 2 + size.toNat) type (keep code size ip out)

variable {opt len}

/-- A load, and what is left from there on. -/
theorem load_drop {o : Nat} (inside : ¬ opt.length ≤ o) :
    ∃ b, load opt o = .ok b ∧ opt.drop o = b :: opt.drop (o + 1) := by
  have inside := Nat.lt_of_not_le inside
  exact ⟨_, load_some (List.getElem?_eq_getElem inside), drop_eq_getElem_cons inside⟩

theorem readMss_eq {rounds o : Nat} (enough : opt.length ≤ o + rounds) :
    readMss opt (rounds + 1) o = .ok (Tcp.readMssLoop rounds (opt.drop o)) := by
  induction rounds generalizing o with
  | zero => rw [readMss, if_pos (by omega), Tcp.readMssLoop]
  | succ rounds ih =>
    rw [readMss]
    by_cases past : opt.length ≤ o
    · rw [if_pos past, List.drop_of_length_le past, Tcp.readMssLoop]
    obtain ⟨kind, here, left⟩ := load_drop past
    rw [if_neg past, here, ok_bind, left]
    simp only [Tcp.readMssLoop]
    split_ifs with stop nop short
    · rfl
    · exact ih (by omega)
    · rw [List.drop_of_length_le short]
    obtain ⟨size, there, left⟩ := load_drop short
    rw [there, ok_bind, left]
    have guard : (size.toNat < 2 || (opt.drop (o + 1 + 1)).length + 2 < size.toNat) ↔
        size.toNat < 2 ∨ opt.length < o + size.toNat := by
      simp
      omega
    simp only [guard]
    split_ifs with runs wanted
    · rfl
    · have four : size.toNat = 4 := congrArg BitVec.toNat wanted.2
      obtain ⟨hi, first, left⟩ := @load_drop opt (o + 2) (by omega)
      obtain ⟨lo, second, rest⟩ := @load_drop opt (o + 2 + 1) (by omega)
      rw [load16, first, ok_bind, second, ok_bind, left, rest, decide_eq_true wanted]
    · rw [decide_eq_false wanted, drop_drop]
      have next : o + 1 + 1 + (size.toNat - 2) = o + size.toNat := by omega
      rw [next]
      exact ih (by omega)

/-- As long as the index cannot wrap. -/
theorem ok_eq {rounds : Nat} {i : U32} (given : opt.length = len.toNat)
    (room : len.toNat ≤ 2 ^ 32 - 254) (enough : opt.length ≤ i.toNat + rounds) :
    ok opt len (rounds + 1) i = .ok (Icmp.optionsLoop rounds (opt.drop i.toNat)) := by
  induction rounds generalizing i with
  | zero => rw [ok, if_pos (BitVec.le_def.mpr (by omega)), Icmp.optionsLoop]
  | succ rounds ih =>
    rw [ok]
    by_cases past : len ≤ i
    · rw [if_pos past, List.drop_of_length_le (given ▸ BitVec.le_def.mp past)]
      rfl
    have inside : ¬ opt.length ≤ i.toNat := by rwa [given, ← BitVec.le_def]
    obtain ⟨kind, here, left⟩ := load_drop inside
    have moved {v : U32} (sum : i.toNat + v.toNat < 2 ^ 32) : (i + v).toNat = i.toNat + v.toNat := by
      rw [BitVec.toNat_add, Nat.mod_eq_of_lt sum]
    have succ : (i + 1).toNat = i.toNat + 1 := moved (show i.toNat + 1 < 2 ^ 32 by omega)
    rw [if_neg past, here, ok_bind, left]
    simp only [Icmp.optionsLoop, ← or_assoc]
    by_cases stop : kind = 0
    · simp only [if_pos stop]
    by_cases nop : kind = 1
    · simp only [if_neg stop, if_pos nop, ← succ]
      exact ih (by omega)
    by_cases route : kind = 0x83 ∨ kind = 0x89
    · simp only [if_neg stop, if_neg nop, if_pos route, if_pos (Or.inl route)]
    simp only [if_neg stop, if_neg nop, route, false_or, if_false]
    by_cases last : len ≤ i + 1
    · have gone : opt.length ≤ i.toNat + 1 := by rwa [given, ← succ, ← BitVec.le_def]
      rw [if_pos last, List.drop_of_length_le gone]
      rfl
    obtain ⟨size, there, tail⟩ := @load_drop opt (i.toNat + 1) (by
      rwa [given, ← succ, ← BitVec.le_def])
    rw [if_neg last, succ, there, ok_bind, tail, List.headD_cons]
    by_cases bad : size.toNat < 2
    · rw [if_pos bad, if_pos (BitVec.lt_def.mpr bad)]
    rw [BitVec.le_def, succ] at last
    have width : (size.setWidth 32).toNat = size.toNat := BitVec.toNat_setWidth_of_le (by decide)
    have jump : (i + size.setWidth 32).toNat = i.toNat + size.toNat :=
      (moved (by omega)).trans (congrArg _ width)
    have next : (size :: opt.drop (i.toNat + 1 + 1)).drop (size.toNat - 1) =
        opt.drop (i + size.setWidth 32).toNat := by
      rw [← tail, drop_drop, jump]
      congr 1
      omega
    rw [if_neg bad, if_neg (mt BitVec.lt_def.mp bad), next]
    exact ih (by omega)

theorem load_value {first n k : Nat} (inside : first + n ≤ opt.length) (before : k < n) :
    load opt (first + k) = .ok (Dhcp.byteAt ((opt.drop first).take n) k) := by
  apply load_some
  rw [Dhcp.byteAt, getD_eq_getElem?_getD, List.getElem?_take_of_lt before, List.getElem?_drop,
    List.getElem?_eq_getElem (by omega), Option.getD_some]

theorem load32_value {first n : Nat} (inside : first + n ≤ opt.length) (long : 4 ≤ n) :
    load32 opt first = .ok (Dhcp.wordAt ((opt.drop first).take n) 0) := by
  have byte (k : Nat) (before : k < 4) := load_value inside (lt_of_lt_of_le before long)
  have word (a b c d : U8) : ((a ++ b : U16) ++ (c ++ d : U16) : U32) = a ++ b ++ c ++ d :=
    (@BitVec.append_assoc _ _ _ (a ++ b) c d).symm
  have start : load opt first = _ := byte 0 (by decide)
  rw [load32, load16, load16, add_assoc, start, byte 1 (by decide), byte 2 (by decide),
    byte 3 (by decide)]
  exact congrArg Except.ok (word _ _ _ _)

theorem readOptions_eq {rounds o : Nat} (enough : opt.length ≤ o + rounds) (type : U8)
    (out : Dhcp.Lease) : readOptions opt (rounds + 1) o type out =
      .ok (Dhcp.readOptionsLoop rounds (opt.drop o) type out) := by
  induction rounds generalizing o type out with
  | zero => rw [readOptions, if_pos (by omega), Dhcp.readOptionsLoop]
  | succ rounds ih =>
    rw [readOptions]
    by_cases past : opt.length ≤ o
    · rw [if_pos past, List.drop_of_length_le past, Dhcp.readOptionsLoop]
    obtain ⟨code, here, left⟩ := load_drop past
    rw [if_neg past, here, ok_bind, left]
    simp only [Dhcp.readOptionsLoop]
    split_ifs with stop pad short
    · rfl
    · exact ih (by omega) type out
    · rw [List.drop_of_length_le (by omega)]
    obtain ⟨size, there, left⟩ := @load_drop opt (o + 1) (by omega)
    rw [there, ok_bind, left]
    simp only [length_drop]
    by_cases runs : opt.length < o + 2 + size.toNat
    · rw [if_pos runs, if_pos (by omega)]
    have fits : ¬ opt.length - (o + 1 + 1) < size.toNat := by omega
    rw [if_neg runs, if_neg fits]
    have inside : o + 2 + size.toNat ≤ opt.length := Nat.le_of_not_lt runs
    have length : ((opt.drop (o + 2)).take size.toNat).length = size.toNat := by
      rw [length_take, length_drop]
      omega
    generalize value_eq : (opt.drop (o + 1 + 1)).take size.toNat = value at length
    have ip : (if 4 ≤ size.toNat then load32 opt (o + 2) else .ok 0) =
        .ok (if 4 ≤ value.length then Dhcp.wordAt value 0 else 0) := by
      rw [length]
      split
      · next long => rw [load32_value inside long, value_eq]
      · rfl
    have told : (if code = Dhcp.optMsgType ∧ 1 ≤ size.toNat then load opt (o + 2) else .ok type) =
        .ok (Dhcp.readOption code value type out).1 := by
      simp only [Dhcp.readOption, length, Bool.and_eq_true, decide_eq_true_iff]
      split
      · next asked =>
        have first : load opt (o + 2) = _ := load_value (k := 0) inside asked.2
        rw [first, value_eq]
      · rfl
    have kept : keep code size (if 4 ≤ value.length then Dhcp.wordAt value 0 else 0) out =
        (Dhcp.readOption code value type out).2 := by
      rw [keep, ← length]
      rfl
    rw [ip, ok_bind, told, ok_bind, kept, ih (by omega), drop_drop]

/-- No-operations, and an option at the end that is said to have 255 bytes. -/
def spin (n : Nat) : List U8 := List.replicate n 1 ++ [7, 255]

/-- With it the index wraps, and the no-operations are read again. -/
theorem ok_spins {n : Nat} (given : len.toNat = n + 2) (wide : 2 ^ 32 - 254 < len.toNat)
    {i : U32} (inside : i.toNat ≤ n) (rounds : Nat) :
    ok (spin n) len rounds i = .error .unfinished := by
  induction rounds generalizing i with
  | zero => rfl
  | succ rounds ih =>
    have below := len.isLt
    have moved (v : U32) : (i + v).toNat = (i.toNat + v.toNat) % 2 ^ 32 := BitVec.toNat_add ..
    have before : ¬ len ≤ i := fun past => by
      have := BitVec.le_def.mp past
      omega
    rw [ok, if_neg before]
    obtain nop | last := Nat.lt_or_eq_of_le inside
    · have here : (spin n)[i.toNat]? = some 1 := by
        simp [spin, List.getElem?_append_left, nop]
      rw [load_some here, ok_bind, if_neg (by decide), if_pos rfl]
      apply ih
      rw [moved]
      change (i.toNat + 1) % 2 ^ 32 ≤ n
      omega
    · have next : (i + 1).toNat = n + 1 := by
        rw [moved]
        change (i.toNat + 1) % 2 ^ 32 = n + 1
        omega
      have here : (spin n)[i.toNat]? = some 7 := by simp [spin, last]
      have there : (spin n)[(i + 1).toNat]? = some 255 := by
        rw [next]
        simp [spin]
      have more : ¬ len ≤ i + 1 := fun past => by
        have := BitVec.le_def.mp past
        omega
      rw [load_some here, ok_bind, if_neg (by decide), if_neg (by decide), if_neg (by decide),
        if_neg more, load_some there, ok_bind, if_neg (by decide)]
      apply ih
      rw [moved]
      change (i.toNat + 255) % 2 ^ 32 ≤ n
      omega

/-- Some number of rounds is enough, and no load is outside the bytes. -/
def Safe {α : Type} (run : Nat → Except Fault α) : Prop := ∃ rounds a, run rounds = .ok a

/-- Every load is inside the option bytes and every loop ends; that of def_ip_options_ok
as long as the bytes are not so many that its index can wrap. -/
theorem option_parsers_safe :
    (∀ opt, Safe fun rounds => readMss opt rounds 0) ∧
    (∀ opt out, Safe fun rounds => readOptions opt rounds 0 0 out) ∧
    ∀ len : U32, (∀ opt : List U8, opt.length = len.toNat → Safe fun rounds => ok opt len rounds 0) ↔
      len.toNat ≤ 2 ^ 32 - 254 := by
  refine ⟨fun opt => ⟨opt.length + 1, _, readMss_eq (by omega)⟩,
    fun opt out => ⟨opt.length + 1, _, readOptions_eq (by omega) 0 out⟩, fun len => ⟨?_, ?_⟩⟩
  · intro safe
    by_contra wide
    have given : len.toNat = len.toNat - 2 + 2 := by omega
    obtain ⟨rounds, a, ends⟩ := safe (spin (len.toNat - 2)) (by simpa [spin] using given.symm)
    have spins : ok (spin (len.toNat - 2)) len rounds 0 = .error .unfinished :=
      ok_spins given (Nat.lt_of_not_le wide) zero_le rounds
    cases ends.symm.trans spins
  · intro room opt given
    exact ⟨opt.length + 1, _, ok_eq given room (Nat.le_add_left _ _)⟩

end UzOS.Options
