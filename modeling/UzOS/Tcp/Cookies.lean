import UzOS.Tcp.Table

/-! SYN cookies (security/syn_flood/defence/syn_cookies): what a listener with a
full queue puts into its SYN-ACK, and what it reads back from the ACK. -/
namespace UzOS.Tcp

open Runs BitVec

/-- The segment sizes a cookie can name. -/
def sizes : List U16 := [536, 1024, 1220, 1300, 1400, 1440, 1460, 1460]

def sizeAt (i : Nat) : U16 := sizes.getD i 0

/-- The static secret; 0 until the first hash. -/
structure Cookies where
  secret : U32

variable (k : Cookies)

/-- The first hash draws the secret from the time stamp counter. -/
def Cookies.keyed (tsc : U32) : Cookies :=
  if k.secret = 0 then ⟨tsc * 2246822519 ||| 1⟩ else k

def mix (h part : U32) : U32 :=
  let h := (h ^^^ part) * 0x85EBCA6B
  h ^^^ (h >>> 13)

def hash (secret : U32) (a : U32) (ap : U16) (b : U32) (bp : U16) (seq step : U32) : U32 :=
  [a, b, (ap.setWidth 32 <<< 16) ||| bp.setWidth 32, seq, step].foldl mix secret

def make (secret : U32) (a : U32) (ap : U16) (b : U32) (bp : U16) (seq step : U32)
    (mssIndex : U32) : U32 :=
  (hash secret a ap b bp seq step &&& ~~~7#32) ||| mssIndex

/-- The loop of index_of, with the rounds left until `i` is 6. -/
def indexFrom (mss : U16) : Nat → Nat → Nat
  | 0, i => i
  | left + 1, i => if sizeAt (i + 1) ≤ mss then indexFrom mss left (i + 1) else i

def indexOf (mss : U16) : Nat := indexFrom mss 6 0

def Cookies.defSynCookieMake (tsc now : U32) (localIp : U32) (localPort : U16)
    (remoteIp : U32) (remotePort : U16) (theirSeq : U32) (mss : U16) : U32 × Cookies :=
  let k := k.keyed tsc
  (make k.secret localIp localPort remoteIp remotePort theirSeq (now / 64000)
    (BitVec.ofNat 32 (indexOf mss)), k)

/-- The size the cookie names if it was made in this time step or the one
before; 0 otherwise. -/
def Cookies.defSynCookieCheck (tsc now : U32) (localIp : U32) (localPort : U16)
    (remoteIp : U32) (remotePort : U16) (theirSeq cookie : U32) : U16 × Cookies :=
  let k := k.keyed tsc
  let step := now / 64000
  let mssIndex := cookie &&& 7
  (if make k.secret localIp localPort remoteIp remotePort theirSeq step mssIndex = cookie ∨
      make k.secret localIp localPort remoteIp remotePort theirSeq (step - 1) mssIndex = cookie
    then sizeAt mssIndex.toNat else 0, k)

/-- The cookie new_child makes for a SYN to the listener `l`. -/
def Cookies.forSyn (tsc now : U32) (l : Conn) (s : Seg) : U32 × Cookies :=
  k.defSynCookieMake tsc now s.dstIp l.localPort s.srcIp s.srcPort s.seq
    (defMssClamp (if readMss s ≠ 0 then readMss s else tcpDefaultMss))

/-- The size cookie_child finds in an ACK for the listener `l`. -/
def Cookies.forAck (tsc now : U32) (l : Conn) (s : Seg) : U16 × Cookies :=
  k.defSynCookieCheck tsc now s.dstIp l.localPort s.srcIp s.srcPort (s.seq - 1) (s.ack - 1)

/-- Other cookies that are made and checked, for any listener and segment. -/
inductive CookieCall where
  | make (tsc now : U32) (l : Conn) (s : Seg)
  | check (tsc now : U32) (l : Conn) (s : Seg)

def CookieCall.apply : CookieCall → Cookies
  | .make tsc now l s => (k.forSyn tsc now l s).2
  | .check tsc now l s => (k.forAck tsc now l s).2

/-- The MSS option of a segment, as read_mss looks for it; `none` if there is no
such option. -/
def announcedLoop : Nat → List U8 → Option U16
  | 0, _ => none
  | _ + 1, [] => none
  | fuel + 1, kind :: rest =>
    if kind = 0 then none
    else if kind = 1 then announcedLoop fuel rest
    else match rest with
      | [] => none
      | len :: body =>
        if len.toNat < 2 || body.length + 2 < len.toNat then none
        else match decide (kind = 2 ∧ len = 4), body with
          | true, hi :: lo :: _ => some (hi ++ lo)
          | _, _ => announcedLoop fuel (body.drop (len.toNat - 2))

def announcedMss (s : Seg) : Option U16 := announcedLoop s.options.length s.options

/-- What may be sent to a client in one segment: the size it announced, but not
an absurdly small one. -/
def mssBound (s : Seg) : U16 := (announcedMss s).elim tcpDefaultMss defMssClamp

/-! The secret is drawn once. -/

theorem or_one_ne_zero (x : U32) : x ||| 1 ≠ 0 := by
  intro zero
  have bit := congrArg (fun y : U32 => y.getLsbD 0) zero
  simp at bit

theorem keyed_secret (tsc : U32) : (k.keyed tsc).secret ≠ 0 := by
  rw [Cookies.keyed]
  split
  · exact or_one_ne_zero _
  · assumption

variable (mss : U16) {k : Cookies} {i : Nat}

theorem keyed_of_secret (known : k.secret ≠ 0) (tsc : U32) : k.keyed tsc = k := if_neg known

theorem CookieCall.apply_of_secret (known : k.secret ≠ 0) (call : CookieCall) :
    call.apply k = k := by
  cases call with
  | make tsc now l s | check tsc now l s => exact keyed_of_secret known tsc

theorem run_of_secret (known : k.secret ≠ 0) (calls : List CookieCall) :
    run (fun k call => CookieCall.apply k call) k calls = k := by
  induction calls with
  | nil => rfl
  | cons call rest ih =>
    change run _ (call.apply k) rest = k
    rw [call.apply_of_secret known, ih]

/-! The sizes. -/

theorem indexFrom_le (left i : Nat) : indexFrom mss left i ≤ i + left := by
  fun_induction indexFrom mss left i with
  | case1 i => exact le_refl i
  | case2 left i more ih | case3 left i stop => omega

theorem indexOf_le : indexOf mss ≤ 6 := indexFrom_le mss 6 0

/-- The loop stops at a size that fits, unless it stops at the first. -/
theorem indexFrom_fits {mss : U16} (left : Nat) (fits : i = 0 ∨ sizeAt i ≤ mss) :
    indexFrom mss left i = 0 ∨ sizeAt (indexFrom mss left i) ≤ mss := by
  fun_induction indexFrom mss left i with
  | case1 i => exact fits
  | case2 left i more ih => exact ih (.inr more)
  | case3 left i stop => exact fits

theorem smallest_size (inside : i ≤ 6) : sizeAt 0 ≤ sizeAt i := by interval_cases i <;> decide

theorem sizeAt_ne_zero (inside : i ≤ 6) : sizeAt i ≠ 0 := by interval_cases i <;> decide

/-- The size named for an MSS is not larger, unless the MSS is below all. -/
theorem sizeAt_indexOf_le_iff : sizeAt (indexOf mss) ≤ mss ↔ tcpDefaultMss ≤ mss := by
  have smallest := smallest_size (indexOf_le mss)
  constructor
  · intro fits
    exact BitVec.le_trans smallest fits
  · intro enough
    have stops : indexOf mss = 0 ∨ sizeAt (indexOf mss) ≤ mss := indexFrom_fits 6 (.inl rfl)
    obtain first | fits := stops
    · rw [first]
      exact enough
    · exact fits

/-! The round trip. -/

theorem readMssLoop_announced (fuel : Nat) (options : List U8) :
    readMssLoop fuel options = (announcedLoop fuel options).getD 0 := by
  induction fuel generalizing options with
  | zero => rfl
  | succ fuel ih =>
    cases options with
    | nil => rfl
    | cons kind rest =>
      simp only [readMssLoop, announcedLoop]
      split
      · rfl
      split
      · exact ih rest
      cases rest with
      | nil => rfl
      | cons len body =>
        dsimp only
        split
        · rfl
        generalize decide (kind = 2 ∧ len = 4) = wanted
        match wanted, body with
        | true, hi :: lo :: tail => rfl
        | true, [] => exact ih _
        | true, [hi] => exact ih _
        | false, body => exact ih _

theorem readMss_announced (s : Seg) : readMss s = (announcedMss s).getD 0 :=
  readMssLoop_announced _ _

theorem make_index (secret a : U32) (ap : U16) (b : U32) (bp : U16) (seq step : U32)
    (inside : i ≤ 6) :
    make secret a ap b bp seq step (BitVec.ofNat 32 i) &&& 7 = BitVec.ofNat 32 i := by
  have named : BitVec.ofNat 32 i &&& 7#32 = BitVec.ofNat 32 i := by interval_cases i <;> decide
  have cleared : hash secret a ap b bp seq step &&& ~~~7#32 &&& 7#32 = 0#32 := by
    rw [BitVec.and_assoc, show ~~~7#32 &&& 7#32 = 0#32 by decide, and_zero]
  change (hash secret a ap b bp seq step &&& ~~~7#32 ||| BitVec.ofNat 32 i) &&& 7#32 = _
  rw [and_or_distrib_right, cleared, named, zero_or]

/-- The acknowledgment of a SYN-ACK. -/
structure Answers (reply ack : Seg) : Prop where
  srcIp : ack.srcIp = reply.dstIp
  dstIp : ack.dstIp = reply.srcIp
  srcPort : ack.srcPort = reply.dstPort
  seq : ack.seq = reply.ack
  ack : ack.ack = reply.seq + 1

/-- A cookie made by `make` is accepted in its own time step and in the next. -/
theorem check_made (known : k.secret ≠ 0) (tsc : U32) {now later : U32}
    (soon : later.toNat / 64000 = now.toNat / 64000 ∨
      later.toNat / 64000 = now.toNat / 64000 + 1) (a : U32) (ap : U16) (b : U32) (bp : U16)
    (seq : U32) (inside : i ≤ 6) :
    (k.defSynCookieCheck tsc later a ap b bp seq
      (make k.secret a ap b bp seq (now / 64000) (BitVec.ofNat 32 i))).1 = sizeAt i := by
  have steps : later / 64000 = now / 64000 ∨ later / 64000 - 1 = now / 64000 := by
    obtain same | next := soon
    · left
      apply eq_of_toNat_eq
      exact same
    · right
      have earlier : later / 64000 = now / 64000 + 1 := by
        apply eq_of_toNat_eq
        simp
        omega
      rw [earlier]
      exact BitVec.add_sub_cancel _ _
  have index : (BitVec.ofNat 32 i).toNat = i := by
    rw [toNat_ofNat]
    omega
  simp only [Cookies.defSynCookieCheck, keyed_of_secret known, make_index _ _ _ _ _ _ _ inside]
  rw [if_pos, index]
  obtain same | back := steps
  · left
    rw [same]
  right
  rw [back]

/-- The size a cookie is made for. -/
theorem cookie_size_le_iff (s : Seg) :
    sizeAt (indexOf (defMssClamp (if readMss s ≠ 0 then readMss s else tcpDefaultMss))) ≤
        mssBound s ↔
      ∀ m, announcedMss s = some m → tcpDefaultMss ≤ m := by
  rw [readMss_announced, mssBound]
  cases announcedMss s with
  | none => exact iff_of_true (by decide) (fun m absent => by cases absent)
  | some m =>
    simp only [Option.getD_some, Option.elim_some, Option.some.injEq, forall_eq']
    by_cases zero : m = 0
    · subst zero
      decide
    rw [if_pos zero, sizeAt_indexOf_le_iff, defMssClamp]
    split
    · rfl
    rename_i tiny
    have far : ¬ tcpDefaultMss ≤ m := fun large =>
      tiny (BitVec.le_trans (show tcpMssMin ≤ tcpDefaultMss by decide) large)
    exact iff_of_false (by decide) far

/-- The cookie in the SYN-ACK of a listener with a full queue is accepted with
the ACK in the same or the next time step, whatever other cookies are made and
checked in between. The size it comes back with is one the client can take
exactly if the client did not announce less than the smallest size. -/
theorem cookie_round_trip (k : Cookies) (tsc now : U32) (t : Table) (i : Slot) (syn : Seg)
    (secrets : Secrets) (full : (t.conns i).backlog ≤ (t.conns i).pending) {reply ack : Seg}
    (sent : reply ∈ (t.newChild now i syn
      { secrets with cookie := (k.forSyn tsc now (t.conns i) syn).1 }).2)
    (answers : Answers reply ack) (calls : List CookieCall) (tsc' later : U32) (l : Conn)
    (port : l.localPort = (t.conns i).localPort)
    (soon : later.toNat / 64000 = now.toNat / 64000 ∨ later.toNat / 64000 = now.toNat / 64000 + 1) :
    ((run (fun k call => CookieCall.apply k call) (k.forSyn tsc now (t.conns i) syn).2
        calls).forAck tsc' later l ack).1 ≠ 0 ∧
      (((run (fun k call => CookieCall.apply k call) (k.forSyn tsc now (t.conns i) syn).2
        calls).forAck tsc' later l ack).1 ≤ mssBound syn ↔
        ∀ m, announcedMss syn = some m → tcpDefaultMss ≤ m) := by
  rw [Table.newChild, if_pos full, List.mem_singleton] at sent
  subst sent
  have known := keyed_secret k tsc
  have kept : run (fun k call => CookieCall.apply k call)
      (k.forSyn tsc now (t.conns i) syn).2 calls = k.keyed tsc := run_of_secret known calls
  have back : ack.seq - 1 = syn.seq := by
    rw [answers.seq]
    exact BitVec.add_sub_cancel _ _
  have cookie : ack.ack - 1 = (k.forSyn tsc now (t.conns i) syn).1 := by
    rw [answers.ack]
    exact BitVec.add_sub_cancel _ _
  have found := check_made known tsc' soon syn.dstIp (t.conns i).localPort syn.srcIp syn.srcPort
    syn.seq (indexOf_le (defMssClamp (if readMss syn ≠ 0 then readMss syn else tcpDefaultMss)))
  have checked : ((k.keyed tsc).forAck tsc' later l ack).1 =
      sizeAt (indexOf (defMssClamp (if readMss syn ≠ 0 then readMss syn else tcpDefaultMss))) := by
    rw [Cookies.forAck, answers.dstIp, answers.srcIp, answers.srcPort, port, back, cookie]
    exact found
  rw [kept, checked]
  exact ⟨sizeAt_ne_zero (indexOf_le _), cookie_size_le_iff syn⟩

/-- Connections on port 80 without room for a child. -/
def flooded : Table := ⟨fun _ => { Conn.zero with localPort := 80 }, ephemeralLow⟩

/-- A SYN of 10.0.2.2 with the given options, and the ACK of the answer `cookie`. -/
def clientSyn (options : List U8) : Seg :=
  ⟨0x0A000202, 0x0A00020F, 4000, 80, 777, 0, tcpSyn, 1000, options, []⟩

def clientAck (cookie : U32) : Seg :=
  ⟨0x0A000202, 0x0A00020F, 4000, 80, 778, cookie + 1, tcpAck, 1000, [], []⟩

/-- A client that announces 1000 bytes, and answers in the next time step. -/
theorem cookie_round_trip_next :
    (((Cookies.mk 7).forSyn 0 63999 (flooded.conns 0) (clientSyn [2, 4, 3, 232])).2.forAck 0 64000
      (flooded.conns 0) (clientAck ((Cookies.mk 7).forSyn 0 63999 (flooded.conns 0)
        (clientSyn [2, 4, 3, 232])).1)).1 ≠ 0 :=
  (cookie_round_trip ⟨7⟩ 0 63999 flooded 0 (clientSyn [2, 4, 3, 232]) ⟨0, 0, 0, false⟩ (by decide)
    (List.mem_singleton_self _) (show Answers _ (clientAck _) from ⟨rfl, rfl, rfl, rfl, rfl⟩) [] 0
    64000 (flooded.conns 0) rfl (by decide)).1

/-- A client that announces 100 bytes is sent segments of 536. -/
theorem cookie_mss_exceeds_announced :
    mssBound (clientSyn [2, 4, 0, 100]) = 100 ∧
      (((Cookies.mk 7).forSyn 0 5000 (flooded.conns 0) (clientSyn [2, 4, 0, 100])).2.forAck 0 6000
        (flooded.conns 0) (clientAck ((Cookies.mk 7).forSyn 0 5000 (flooded.conns 0)
          (clientSyn [2, 4, 0, 100])).1)).1 = 536 := by
  decide

end UzOS.Tcp
