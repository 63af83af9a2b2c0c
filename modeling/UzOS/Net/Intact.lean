import UzOS.Net.Calls

/-! What a call has handed over so far, for each kind of call, and that the calls of
other processes leave it alone. -/
namespace UzOS.Net
open Kernel (Slot)

inductive Kind where
  | sendfile
  | stream
  | datagram
  deriving DecidableEq

def Job.kind : Job → Kind
  | .sendfile _ => .sendfile
  | .stream _ _ _ _ => .stream
  | .datagram _ _ => .datagram

def Made.kind : Made → Option Kind
  | .sendfile _ _ _ => some .sendfile
  | .stream _ _ => some .stream
  | .datagram _ _ => some .datagram
  | .other => none

/-- Right after a chunk of the file went out. -/
structure FileSent (w : World) (number : Nat) (t : Transfer) : Prop where
  input : w.files t.input = t.file
  held : t.done ≤ (t.file.contents.drop t.pos).length
  accepted : (w.sockets t.out).acceptedFrom number = (t.file.contents.drop t.pos).take t.done

/-- In the middle of a chunk. -/
structure FileGoing (w : World) (number : Nat) (t : Transfer) (f : Sendto) : Prop where
  socket : f.socket = t.out
  input : w.files t.input = t.file
  len : f.len = t.got
  more : f.done < t.got
  whole : (w.sockets t.out).type ≠ .stream → f.done = 0
  chunk : Buffer.slice w.chunk 0 t.got = (t.file.contents.drop (t.pos + t.done)).take t.got
  held : t.done + t.got ≤ (t.file.contents.drop t.pos).length
  accepted : (w.sockets t.out).acceptedFrom number =
    (t.file.contents.drop t.pos).take (t.done + f.done)

/-- Between two pieces: all of the earlier ones, or, after a piece that went out in
part, some of them. -/
structure StreamSent (w : World) (number : Nat) (s : SockSlot) (pieces : List (List U8))
    (i total : Nat) : Prop where
  type : (w.sockets s).type = .stream
  within : total ≤ (pieces.take i).flatten.length
  accepted : (w.sockets s).acceptedFrom number = (pieces.take i).flatten.take total

/-- In the middle of a piece; after a short one nothing of it has gone. -/
structure StreamGoing (w : World) (number : Nat) (s : SockSlot) (pieces : List (List U8))
    (i total : Nat) (piece : List U8) (f : Sendto) : Prop where
  socket : f.socket = s
  here : pieces[i]? = some piece
  type : (w.sockets s).type = .stream
  len : f.len = piece.length
  more : f.done < piece.length ∨ f.done = 0
  within : total ≤ (pieces.take i).flatten.length
  short : total < (pieces.take i).flatten.length → f.done = 0
  accepted : (w.sockets s).acceptedFrom number =
    (pieces.take i).flatten.take total ++ piece.take f.done

/-- The datagram is gathered and has not gone. -/
structure DatagramGoing (w : World) (number : Nat) (s : SockSlot) (pieces : List (List U8))
    (f : Sendto) : Prop where
  socket : f.socket = s
  type : (w.sockets s).type ≠ .stream
  len : f.len = pieces.flatten.length
  none : f.done = 0
  gather : Buffer.slice w.gather 0 pieces.flatten.length = pieces.flatten
  accepted : (w.sockets s).entriesOf number = []

def Going (w : World) (number : Nat) (job : Job) (f : Sendto) : Prop :=
  match job with
  | .sendfile t => FileGoing w number t f
  | .stream s pieces i total => ∃ piece, StreamGoing w number s pieces i total piece f
  | .datagram s pieces => DatagramGoing w number s pieces f

/-- What a call that returned `r` has handed over. -/
def Delivered (w : World) (m : Made) (number : Nat) (r : Result) : Prop :=
  match m, r with
  | .sendfile out file pos, .ok n => n ≤ (file.contents.drop pos).length ∧
      (w.sockets out).acceptedFrom number = (file.contents.drop pos).take n
  | .sendfile out _ _, .error _ => (w.sockets out).acceptedFrom number = []
  | .stream s pieces, .ok n => n ≤ pieces.flatten.length ∧
      (w.sockets s).acceptedFrom number = pieces.flatten.take n
  | .stream s _, .error _ => (w.sockets s).acceptedFrom number = []
  | .datagram s pieces, .ok _ => (w.sockets s).entriesOf number = [pieces.flatten]
  | .datagram s _, .error _ => (w.sockets s).entriesOf number = []
  | .other, _ => True

/-- The calls of one kind are in order, except for the one that `but` is in. -/
structure Kept (k : Kind) (w : World) (but : Option Slot) : Prop where
  numbered : ∀ p c, some p ≠ but → w.call p = some c → w.made[c.number]? = some c.job.made
  apart : ∀ p q c d, some p ≠ but → some q ≠ but → w.call p = some c → w.call q = some d →
    c.number = d.number → p = q
  unreturned : ∀ p c, some p ≠ but → w.call p = some c → ∀ b ∈ w.returned, b.number ≠ c.number
  past : ∀ b ∈ w.returned, b.number < w.made.length
  fresh : ∀ s n, w.made.length ≤ n → (w.sockets s).entriesOf n = []
  going : ∀ p c, some p ≠ but → w.call p = some c → c.job.kind = k →
    Going w c.number c.job c.sendto
  ended : ∀ b ∈ w.returned, ∀ m, w.made[b.number]? = some m → m.kind = some k →
    Delivered w m b.number b.result
  lone : k = .sendfile → ∀ p q c d, some p ≠ but → some q ≠ but → w.call p = some c →
    w.call q = some d → c.job.kind = .sendfile → d.job.kind = .sendfile → p = q

abbrev Intact (k : Kind) (w : World) : Prop := Kept k w none

/-- The number `n` was given to the call of `p` that is on its way. -/
structure Owns (w : World) (p : Slot) (n : Nat) (m : Made) : Prop where
  made : w.made[n]? = some m
  others : ∀ q c, q ≠ p → w.call q = some c → c.number ≠ n
  running : ∀ b ∈ w.returned, b.number ≠ n

/-- Nobody else is inside a sendfile. -/
def Alone (w : World) (p : Slot) : Prop :=
  ∀ q c, q ≠ p → w.call q = some c → c.job.kind ≠ .sendfile

section Frames

variable {k : Kind} {w w' : World} {p : Slot} {but : Option Slot} {n : Nat} {m : Made}

theorem Owns.below (owns : Owns w p n m) : n < w.made.length := by
  by_contra above
  have none := List.getElem?_eq_none (not_lt.mp above)
  rw [owns.made] at none
  cases none

theorem Kept.owns (h : Intact k w) {c : Call} (here : w.call p = some c) :
    Owns w p c.number c.job.made where
  made := h.numbered p c nofun here
  others := fun q d other there same => other (h.apart q p d c nofun nofun there here same)
  running := h.unreturned p c nofun here

theorem Kept.alone (h : Intact k w) {c : Call} (here : w.call p = some c) (files : k = .sendfile)
    (mine : c.job.kind = .sendfile) : Alone w p :=
  fun q d other there both => other (h.lone files q p d c nofun nofun there here both mine)

theorem Kept.others (h : Intact k w) (p : Slot) : Kept k w (some p) where
  numbered := fun q c _ => h.numbered q c nofun
  apart := fun q q' c d _ _ => h.apart q q' c d nofun nofun
  unreturned := fun q c _ => h.unreturned q c nofun
  past := h.past
  fresh := h.fresh
  going := fun q c _ => h.going q c nofun
  ended := h.ended
  lone := fun files q q' c d _ _ => h.lone files q q' c d nofun nofun

/-- What a call in progress depends on. -/
theorem Going.congr {number : Nat} {job : Job} {f : Sendto} (going : Going w number job f)
    (types : ∀ s, (w'.sockets s).type = (w.sockets s).type)
    (entries : ∀ s, (w'.sockets s).entriesOf number = (w.sockets s).entriesOf number)
    (files : ∀ t, job = .sendfile t → w'.files t.input = w.files t.input)
    (chunk : job.kind = .sendfile → w'.chunk = w.chunk)
    (gather : job.kind = .datagram → w'.gather = w.gather) : Going w' number job f := by
  have bytes (s : SockSlot) : (w'.sockets s).acceptedFrom number =
      (w.sockets s).acceptedFrom number := by
    rw [Socket.acceptedFrom, entries, Socket.acceptedFrom]
  cases job with
  | sendfile t =>
    exact ⟨going.socket, (files t rfl).trans going.input, going.len, going.more,
      types t.out ▸ going.whole, chunk rfl ▸ going.chunk, going.held,
      (bytes t.out).trans going.accepted⟩
  | stream s pieces i total =>
    obtain ⟨piece, going⟩ := going
    exact ⟨piece, going.socket, going.here, (types s).trans going.type, going.len, going.more,
      going.within, going.short, (bytes s).trans going.accepted⟩
  | datagram s pieces =>
    exact ⟨going.socket, types s ▸ going.type, going.len, going.none, gather rfl ▸ going.gather,
      (entries s).trans going.accepted⟩

theorem Delivered.congr {number : Nat} {r : Result} (delivered : Delivered w m number r)
    (entries : ∀ s, (w'.sockets s).entriesOf number = (w.sockets s).entriesOf number) :
    Delivered w' m number r := by
  cases m with
  | other => trivial
  | _ => cases r <;> simpa only [Delivered, Socket.acceptedFrom, entries] using delivered

/-- A change that the calls in progress, apart from that of `but`, do not see. -/
structure Unseen (k : Kind) (w w' : World) (but : Option Slot) : Prop where
  calls : ∀ q, some q ≠ but → w'.call q = w.call q
  made : w'.made = w.made
  returned : w'.returned = w.returned
  types : ∀ s, (w'.sockets s).type = (w.sockets s).type
  entries : ∀ s, (w'.sockets s).accepted = (w.sockets s).accepted
  files : k = .sendfile → ∀ q c t, some q ≠ but → w.call q = some c → c.job = .sendfile t →
    w'.files t.input = w.files t.input
  chunk : k = .sendfile → w'.chunk = w.chunk ∨
    ∀ q c, some q ≠ but → w.call q = some c → c.job.kind ≠ .sendfile
  gather : k = .datagram → w'.gather = w.gather ∨
    ∀ q c, some q ≠ but → w.call q = some c → c.job.kind ≠ .datagram

theorem Unseen.refl (k : Kind) (w : World) (but : Option Slot) : Unseen k w w but :=
  ⟨fun _ _ => rfl, rfl, rfl, fun _ => rfl, fun _ => rfl, fun _ _ _ _ _ _ _ => rfl,
    fun _ => .inl rfl, fun _ => .inl rfl⟩

theorem Kept.unseen (h : Kept k w but) (u : Unseen k w w' but) : Kept k w' but := by
  have entries (s : SockSlot) (number : Nat) :
      (w'.sockets s).entriesOf number = (w.sockets s).entriesOf number := by
    rw [Socket.entriesOf, u.entries, Socket.entriesOf]
  constructor
  · intro q c out here
    rw [u.made]
    exact h.numbered q c out (u.calls q out ▸ here)
  · intro q q' c d out out' here there
    exact h.apart q q' c d out out' (u.calls q out ▸ here) (u.calls q' out' ▸ there)
  · intro q c out here
    rw [u.returned]
    exact h.unreturned q c out (u.calls q out ▸ here)
  · rw [u.returned, u.made]
    exact h.past
  · intro s number above
    rw [entries]
    exact h.fresh s number (u.made ▸ above)
  · intro q c out here kind
    have here := u.calls q out ▸ here
    apply (h.going q c out here kind).congr u.types fun s => entries s c.number
    · intro t job
      exact u.files (by rw [← kind, job]; rfl) q c t out here job
    · intro file
      exact (u.chunk (kind.symm.trans file)).resolve_right fun none => none q c out here file
    · intro datagram
      exact (u.gather (kind.symm.trans datagram)).resolve_right
        fun none => none q c out here datagram
  · intro b mem m made kind
    rw [u.returned] at mem
    rw [u.made] at made
    exact (h.ended b mem m made kind).congr fun s => entries s b.number
  · intro files q q' c d out out' here there
    exact h.lone files q q' c d out out' (u.calls q out ▸ here) (u.calls q' out' ▸ there)

theorem Owns.congr (owns : Owns w p n m) (calls : ∀ q, q ≠ p → w'.call q = w.call q)
    (made : w'.made = w.made) (returned : w'.returned = w.returned) : Owns w' p n m where
  made := made ▸ owns.made
  others := fun q c other here => owns.others q c other (calls q other ▸ here)
  running := returned ▸ owns.running

theorem Owns.accept (owns : Owns w p n m) (s : SockSlot) (number : Nat) (bytes : List U8) :
    Owns (w.accept s number bytes) p n m := owns.congr (fun _ _ => rfl) rfl rfl

theorem accept_types (w : World) (s s' : SockSlot) (number : Nat) (bytes : List U8) :
    ((w.accept s number bytes).sockets s').type = (w.sockets s').type := by
  by_cases here : s' = s
  · subst here
    simp [World.accept, Socket.accept]
  · simp [World.accept, here]

theorem accept_entries_other (w : World) (s s' : SockSlot) {number other : Nat}
    (differ : other ≠ number) (bytes : List U8) :
    ((w.accept s number bytes).sockets s').entriesOf other = (w.sockets s').entriesOf other := by
  by_cases here : s' = s
  · subst here
    simp [World.accept, Socket.entriesOf_accept_other _ differ]
  · simp [World.accept, here]

/-- What a socket takes of one call is not seen by the others. -/
theorem Kept.accept (h : Kept k w (some p)) (owns : Owns w p n m) (s : SockSlot)
    (bytes : List U8) : Kept k (w.accept s n bytes) (some p) where
  numbered := h.numbered
  apart := h.apart
  unreturned := h.unreturned
  past := h.past
  fresh := by
    intro s' number above
    have differ : number ≠ n := fun same => absurd owns.below (not_lt.mpr (same ▸ above))
    rw [accept_entries_other w s s' differ]
    exact h.fresh s' number above
  going := by
    intro q c out here kind
    have differ : c.number ≠ n := owns.others q c (fun same => out (congrArg some same)) here
    exact (h.going q c out here kind).congr (accept_types w s · n bytes)
      (accept_entries_other w s · differ bytes) (fun _ _ => rfl) (fun _ => rfl) fun _ => rfl
  ended := by
    intro b mem m' made kind
    exact (h.ended b mem m' made kind).congr (accept_entries_other w s · (owns.running b mem) bytes)
  lone := h.lone

theorem setProc_other (w : World) {p q : Slot} (other : q ≠ p) (r : Proc) :
    (w.setProc p r).call q = w.call q := by
  simp [World.call, World.setProc, other]

/-- A change of the process itself. -/
theorem Kept.own (h : Kept k w (some p)) (r : Proc) : Kept k (w.setProc p r) (some p) := by
  refine h.unseen { Unseen.refl k w (some p) with calls := fun q out => ?_ }
  exact setProc_other w (fun same => out (congrArg some same)) r

theorem Owns.own (owns : Owns w p n m) (r : Proc) : Owns (w.setProc p r) p n m :=
  owns.congr (fun _ other => setProc_other w other r) rfl rfl

/-- All calls are in order once the one of `p` is. -/
theorem Kept.whole (h : Kept k w (some p))
    (own : ∀ c, w.call p = some c → Owns w p c.number c.job.made ∧
      (c.job.kind = k → Going w c.number c.job c.sendto) ∧
      (k = .sendfile → c.job.kind = .sendfile → Alone w p)) : Intact k w := by
  have out {q : Slot} (other : q ≠ p) : some q ≠ some p := fun same => other (Option.some.inj same)
  constructor
  · intro q c _ here
    by_cases mine : q = p
    · subst mine
      exact (own c here).1.made
    · exact h.numbered q c (out mine) here
  · intro q q' c d _ _ here there same
    by_cases mine : q = p
    · subst mine
      by_contra other
      exact (own c here).1.others q' d (Ne.symm other) there same.symm
    by_cases theirs : q' = p
    · subst theirs
      exact absurd same ((own d there).1.others q c mine here)
    · exact h.apart q q' c d (out mine) (out theirs) here there same
  · intro q c _ here
    by_cases mine : q = p
    · subst mine
      exact (own c here).1.running
    · exact h.unreturned q c (out mine) here
  · exact h.past
  · exact h.fresh
  · intro q c _ here kind
    by_cases mine : q = p
    · subst mine
      exact (own c here).2.1 kind
    · exact h.going q c (out mine) here kind
  · exact h.ended
  · intro files q q' c d _ _ here there one two
    by_cases mine : q = p
    · subst mine
      by_contra other
      exact (own c here).2.2 files one q' d (Ne.symm other) there two
    by_cases theirs : q' = p
    · subst theirs
      exact absurd one ((own d there).2.2 files two q c mine here)
    · exact h.lone files q q' c d (out mine) (out theirs) here there one two

theorem setCall_self (w : World) (p : Slot) (c : Option Call) : (w.setCall p c).call p = c := by
  simp [World.setCall, World.setProc, World.call]

/-- The call goes on. -/
theorem Kept.put (h : Kept k w (some p)) {c : Call} (owns : Owns w p c.number c.job.made)
    (going : c.job.kind = k → Going w c.number c.job c.sendto)
    (alone : k = .sendfile → c.job.kind = .sendfile → Alone w p) (cpu : Option Slot) :
    Intact k { w.setCall p (some c) with onCpu := cpu } := by
  have kept : Kept k { w.setCall p (some c) with onCpu := cpu } (some p) :=
    (h.own { w.proc p with call := some c }).unseen { Unseen.refl k (w.setCall p c) (some p) with }
  apply kept.whole
  intro d here
  obtain rfl := Option.some.inj ((setCall_self w p (some c)).symm.trans here)
  refine ⟨{ owns.own { w.proc p with call := some c } with }, fun kind => ?_,
    fun files mine q e other there => ?_⟩
  · exact (going kind).congr (fun _ => rfl) (fun _ => rfl) (fun _ _ => rfl) (fun _ => rfl)
      fun _ => rfl
  · exact alone files mine q e other ((setProc_other w other _).symm.trans there)

/-- The call returns. -/
theorem Kept.finish (h : Kept k w (some p)) {back : Returned} (owns : Owns w p back.number m)
    (delivered : m.kind = some k → Delivered w m back.number back.result) :
    Intact k (w.finish p back) := by
  have idle (q : Slot) (d : Call) (here : (w.setCall p none).call q = some d) : q ≠ p := by
    rintro rfl
    rw [setCall_self] at here
    cases here
  have whole : Intact k (w.setCall p none) :=
    Kept.whole (h.own _) fun c here => absurd rfl (idle p c here)
  constructor
  · exact whole.numbered
  · exact whole.apart
  · intro q d _ here b mem
    rcases List.mem_append.mp mem with old | new
    · exact whole.unreturned q d nofun here b old
    rw [List.mem_singleton.mp new]
    exact ((owns.own _).others q d (idle q d here) here).symm
  · intro b mem
    rcases List.mem_append.mp mem with old | new
    · exact h.past b old
    rw [List.mem_singleton.mp new]
    exact owns.below
  · exact h.fresh
  · intro q d _ here kind
    exact (whole.going q d nofun here kind).congr (fun _ => rfl) (fun _ => rfl) (fun _ _ => rfl)
      (fun _ => rfl) fun _ => rfl
  · intro b mem m' made kind
    rcases List.mem_append.mp mem with old | new
    · exact (h.ended b old m' made kind).congr fun _ => rfl
    obtain rfl := List.mem_singleton.mp new
    have same : m' = m := Option.some.inj (made.symm.trans owns.made)
    subst same
    exact (delivered kind).congr fun _ => rfl
  · exact whole.lone

/-- A call starts. -/
theorem Kept.register (h : Intact k w) (p : Slot) (m : Made) :
    Kept k (w.register m) (some p) ∧ Owns (w.register m) p w.made.length m := by
  have still {number : Nat} (below : number < w.made.length) :
      (w.register m).made[number]? = w.made[number]? := List.getElem?_append_left below
  have below {q : Slot} {c : Call} (here : w.call q = some c) : c.number < w.made.length := by
    have made := h.numbered q c nofun here
    by_contra above
    rw [List.getElem?_eq_none (not_lt.mp above)] at made
    cases made
  constructor
  · constructor
    · intro q c _ here
      rw [still (below here)]
      exact h.numbered q c nofun here
    · exact fun q q' c d _ _ => h.apart q q' c d nofun nofun
    · exact fun q c _ => h.unreturned q c nofun
    · intro b mem
      exact lt_of_lt_of_le (h.past b mem) (by simp [World.register])
    · intro s number above
      exact h.fresh s number (le_trans (by simp [World.register]) above)
    · intro q c _ here kind
      exact (h.going q c nofun here kind).congr (fun _ => rfl) (fun _ => rfl)
        (fun _ _ => rfl) (fun _ => rfl) fun _ => rfl
    · intro b mem m' made kind
      rw [still (h.past b mem)] at made
      exact (h.ended b mem m' made kind).congr fun _ => rfl
    · exact fun files q q' c d _ _ => h.lone files q q' c d nofun nofun
  · constructor
    · simp [World.register]
    · intro q c _ here
      exact ne_of_lt (below here)
    · intro b mem
      exact ne_of_lt (h.past b mem)

end Frames

end UzOS.Net
