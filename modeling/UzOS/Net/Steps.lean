import UzOS.Net.Handover

/-! The steps of the calls keep what has been handed over intact. -/
namespace UzOS.Net

open List
open Kernel (Slot)

/-- Not about to send part of a message of which an earlier part was left out. -/
def Call.gapless (c : Call) : Bool :=
  match c.job with
  | .stream _ pieces i total =>
    decide ((pieces.take i).flatten.length ≤ total) || (pieces[i]?.getD []).isEmpty
  | _ => true

section Ends

variable {k : Kind} {w : World} {p : Slot} {n : Nat}

variable {pieces : List (List U8)} {s : SockSlot} {t : Transfer}

theorem leaveSendfile_intact (h : Kept k w (some p))
    (owns : Owns w p n (.sendfile t.out t.file t.pos)) (sent : k = .sendfile → FileSent w n t) :
    Intact k (w.leaveSendfile p n t) := by
  have delivered (kind : (Made.sendfile t.out t.file t.pos).kind = some k) :
      Delivered w (.sendfile t.out t.file t.pos) n (.ok t.done) := by
    have sent := sent (Option.some.inj kind).symm
    exact ⟨sent.held, sent.accepted⟩
  unfold World.leaveSendfile
  split
  · exact h.finish owns delivered
  have moved (q : Proc) : Intact k ((w.setProc p q).finish p ⟨n, .ok t.done, none⟩) :=
    (h.own q).finish (owns.own q) fun kind => (delivered kind).congr fun _ => rfl
  exact moved _

theorem StreamSent.delivered {i total : Nat} (sent : StreamSent w n s pieces i total) :
    Delivered w (.stream s pieces) n (.ok total) :=
  ⟨le_trans sent.within (flatten_take_length pieces i),
    sent.accepted.trans (flatten_take_take pieces sent.within)⟩

theorem giveUp_intact (job : Job) (h : Kept k w (some p)) (owns : Owns w p n job.made)
    (stalled : job.kind = k → Stalled w n job) (why : Errno) :
    Intact k (w.giveUp p n job why) := by
  cases job with
  | sendfile t =>
    have sent (files : k = .sendfile) : FileSent w n t := stalled files.symm
    simp only [World.giveUp]
    split
    · next none =>
      apply h.finish owns
      intro kind
      have accepted := (sent (Option.some.inj kind).symm).accepted
      rwa [none, take_zero] at accepted
    · exact leaveSendfile_intact h owns sent
  | stream s pieces i total =>
    apply h.finish owns
    intro kind
    have sent : StreamSent w n s pieces i total := stalled (Option.some.inj kind)
    split
    · exact sent.delivered
    rename_i none
    have accepted := sent.accepted
    rwa [not_not.mp none, take_zero] at accepted
  | datagram s pieces =>
    apply h.finish owns
    intro kind
    exact stalled (Option.some.inj kind)

theorem begin_intact (job : Job) {f : Sendto} (h : Kept k w (some p))
    (owns : Owns w p n job.made) (going : job.kind = k → Going w n job f) (none : f.done = 0)
    (alone : k = .sendfile → job.kind = .sendfile → Alone w p) :
    Intact k (w.begin p n job f) := by
  unfold World.begin
  split
  · exact giveUp_intact job h owns (fun kind => (going kind).stalled none) _
  · exact h.put (c := ⟨n, job, f, false⟩) owns going alone _

theorem FileSent.read (sent : FileSent w n t) {want : Nat} {bytes : List U8}
    (reads : Fs.ramdiskRead (w.files t.input) (t.pos + t.done) want = bytes) (some : bytes ≠ []) :
    FileGoing { w with chunk := Buffer.blit w.chunk 0 bytes } n { t with got := bytes.length }
      { socket := t.out, dontwait := false, len := bytes.length } := by
  have part : bytes = (t.file.contents.drop (t.pos + t.done)).take want := by
    rw [← reads, sent.input, Fs.ramdiskRead_contents, Fs.Contents.read]
  have held := sent.held
  have size : bytes.length ≤ (t.file.contents.drop (t.pos + t.done)).length := by
    rw [part]
    exact length_take_le' _ _
  rw [length_drop] at held size
  refine ⟨rfl, sent.input, rfl, length_pos_iff.mpr some, fun _ => rfl, ?_, ?_, sent.accepted⟩
  · rw [Buffer.slice_blit]
    rw [part, length_take, ← take_take, take_length]
  · dsimp only
    rw [length_drop]
    omega

theorem nextChunk_intact (h : Kept k w (some p)) (owns : Owns w p n (.sendfile t.out t.file t.pos))
    (sent : k = .sendfile → FileSent w n t) (alone : k = .sendfile → Alone w p) :
    Intact k (w.nextChunk p n t) := by
  unfold World.nextChunk
  split
  · dsimp only
    generalize (if t.count - t.done < chunkSize then t.count - t.done else chunkSize) = want
    split
    · exact leaveSendfile_intact h owns sent
    rename_i some
    obtain ⟨bytes, reads⟩ : ∃ bytes,
      Fs.ramdiskRead (w.files t.input) (t.pos + t.done) want = bytes := ⟨_, rfl⟩
    rw [reads] at some ⊢
    have filled : Unseen k w { w with chunk := Buffer.blit w.chunk 0 bytes } (.some p) :=
      { Unseen.refl k w (.some p) with
        chunk := fun files => .inr fun q c out =>
          alone files q c fun same => out (congrArg Option.some same) }
    refine begin_intact _ (h.unseen filled) (owns.congr (fun _ _ => rfl) rfl rfl) ?_ rfl
      fun files _ => alone files
    intro kind
    exact (sent kind.symm).read reads some
  · exact leaveSendfile_intact h owns sent

theorem nextPiece_intact {dontwait : Bool} {i total : Nat} (h : Kept k w (some p))
    (owns : Owns w p n (.stream s pieces)) (sent : k = .stream → StreamSent w n s pieces i total) :
    Intact k (w.nextPiece p n s dontwait pieces i total) := by
  unfold World.nextPiece
  split
  · apply h.finish owns
    intro kind
    exact (sent (Option.some.inj kind).symm).delivered
  rename_i piece here
  refine begin_intact (.stream s pieces i total) h owns ?_ rfl nofun
  intro kind
  have sent := sent kind.symm
  exact ⟨piece, rfl, here, sent.type, rfl, .inr rfl, sent.within, fun _ => rfl, by
    rw [sent.accepted, take_zero, append_nil]⟩

end Ends

section Rounds

variable {k : Kind} {w : World} {p : Slot} {c : Call}

theorem afterSendto_intact {r : Result} (h : Kept k w (some p))
    (owns : Owns w p c.number c.job.made)
    (sent : c.job.kind = k → Sent w c.number c.job r)
    (alone : k = .sendfile → c.job.kind = .sendfile → Alone w p) :
    Intact k (w.afterSendto p c r) := by
  cases r with
  | error why => exact giveUp_intact _ h owns sent why
  | ok n =>
    unfold World.afterSendto
    cases job : c.job with
    | sendfile t =>
      simp only [job] at sent owns
      dsimp only
      split
      · next none =>
        rw [none] at sent
        exact giveUp_intact (.sendfile t) h owns sent _
      split
      · exact leaveSendfile_intact (t := { t with done := t.done + n }) h owns
          fun files => sent files.symm
      exact nextChunk_intact (t := { t with done := t.done + n }) h owns
        (fun files => sent files.symm) fun files => alone files (by rw [job]; rfl)
    | stream s pieces i total =>
      simp only [job] at sent owns
      exact nextPiece_intact h owns fun streams => sent streams.symm
    | datagram s pieces =>
      simp only [job] at sent owns
      apply h.finish owns
      intro kind
      exact sent (Option.some.inj kind)

theorem carryOn_intact {round : Round} (h : Kept k w (some p))
    (owns : Owns w p c.number c.job.made) (kept : c.job.kind = k → RoundKept w c round)
    (alone : k = .sendfile → c.job.kind = .sendfile → Alone w p) :
    Intact k (w.carryOn p c round) := by
  cases round with
  | returns r => exact afterSendto_intact h owns kept alone
  | goesOn done =>
    exact h.put (c := { c with sendto := { c.sendto with done }, asleep := false }) owns kept
      alone _
  | sleeps => exact h.put (c := { c with asleep := true }) owns kept alone _

theorem wake_intact (h : Intact k w) (here : w.call p = some c) (calm : Bool) :
    Intact k (w.wake p c calm) := by
  have woken (kind : c.job.kind = k) :=
    (h.going p c nofun here kind).waited (c.sendto.waited + waitSliceMs)
  have owns : Owns w p c.number c.job.made := h.owns here
  have alone (files : k = .sendfile) (mine : c.job.kind = .sendfile) : Alone w p :=
    h.alone here files mine
  refine carryOn_intact (c := { c with sendto := (c.sendto.wake calm).1 }) (h.others p) owns ?_
    alone
  intro kind
  split
  · exact woken kind
  · exact (woken kind).giveUp .eintr

theorem answer_intact (h : Intact k w) (here : w.call p = some c) (a : Answer)
    (gapless : ∀ more, a = .room more → k = .stream → c.gapless) :
    Intact k (w.answer p c a) := by
  have owns : Owns w p c.number c.job.made := h.owns here
  have others := h.others p
  cases a with
  | refuses why =>
    exact carryOn_intact others owns
      (fun kind => (h.going p c nofun here kind).refused _ why) (h.alone here)
  | room more =>
    refine carryOn_intact (others.accept owns _ _) (owns.accept _ _ _) ?_ (h.alone here)
    intro kind
    have going := h.going p c nofun here kind
    cases job : c.job with
    | sendfile t | datagram s pieces =>
      rw [job] at going
      rw [going.socket]
      exact going.room job more
    | stream s pieces i total =>
      rw [job] at going
      obtain ⟨piece, going⟩ := going
      have streams : k = .stream := by rw [← kind, job]; rfl
      rw [going.socket]
      apply going.room job more
      intro short
      have closed := gapless more rfl streams
      simp only [Call.gapless, job, going.here, Bool.or_eq_true,
        decide_eq_true_eq, List.isEmpty_iff] at closed
      exact closed.resolve_left (not_le.mpr short)

end Rounds

/-! ## Conditions -/

namespace World

def nobodyIn (w : World) (k : Kind) : Bool :=
  decide (∀ q, (w.call q).all (fun c => c.job.kind != k) = true)

/-- Is a sendfile to a socket reading the file? -/
def reading (w : World) (f : FileId) (q : Slot) : Bool :=
  (w.call q).any fun c => match c.job with
    | .sendfile t => t.input == f
    | _ => false

def unread (w : World) (f : FileId) : Bool := decide (∀ q, w.reading f q = false)

/-- The call reads at least one byte into the static chunk. -/
def fillsChunk (w : World) (p : Slot) (outFd inFd : Int) (offset : Option Nat) (count : Nat) :
    Bool :=
  let q := w.proc p
  !decide (inFd < 3 ∨ maxFds ≤ inFd ∨ outFd < 3 ∨ maxFds ≤ outFd) &&
    match q.fdTable inFd.toNat, q.fdTable outFd.toNat with
    | some (.file input), some _ => decide (0 < count) &&
        decide (offset.getD (q.fdOffset inFd.toNat) < (w.files input).size)
    | _, _ => false

/-- The call copies its pieces into the static buffer. -/
def gathers (w : World) (p : Slot) (fd : Int) (msg : Msghdr) : Bool :=
  (w.socketFromFd p fd).any fun s => !decide (msgIovMax < msg.pieces.length ∨ msg.controllen ≠ 0) &&
    (w.sockets s).type != .stream

end World

/-- No file changes while a sendfile is reading it. -/
def filesKept (w : World) : Event → Bool
  | .setFile f _ => w.unread f
  | .sendfile p outFd _ _ _ _ => match (w.proc p).fdTable outFd.toNat with
    | some (.file f) => w.unread f
    | _ => true
  | _ => true

/-- Nobody reads into the chunk while a sendfile of another process is on its way. -/
def chunkFree (w : World) : Event → Bool
  | .sendfile p outFd inFd offset count _ =>
    !w.fillsChunk p outFd inFd offset count || w.nobodyIn .sendfile
  | _ => true

/-- Nobody gathers a datagram while another one waits to be taken. -/
def gatherFree (w : World) : Event → Bool
  | .sendmsg p fd msg _ => !w.gathers p fd msg || w.nobodyIn .datagram
  | _ => true

/-- A socket that took a piece of a stream message in part has no room when it is
offered the next. -/
def noGap (w : World) : Event → Bool
  | .answer (.room _) => w.onCpu.all fun p => (w.call p).all Call.gapless
  | _ => true

def clean (w : World) (e : Event) : Kind → Bool
  | .sendfile => filesKept w e && chunkFree w e
  | .stream => noGap w e
  | .datagram => gatherFree w e

section Starts

variable {k : Kind} {w : World} {p : Slot}

theorem nobodyIn_iff (k : Kind) :
    w.nobodyIn k ↔ ∀ q c, w.call q = some c → c.job.kind ≠ k := by
  simp only [World.nobodyIn, decide_eq_true_eq, Option.all_eq_true, bne_iff_ne]

theorem unread_iff (f : FileId) : w.unread f ↔
    ∀ q c t, w.call q = some c → c.job = .sendfile t → t.input ≠ f := by
  rw [World.unread, decide_eq_true_iff]
  constructor
  · intro none q c t here job same
    have unread := none q
    simp [World.reading, here, job, same] at unread
  · intro none q
    cases here : w.call q with
    | none => simp [World.reading, here]
    | some c =>
      cases job : c.job with
      | sendfile t => simpa [World.reading, here, job] using none q c t here job
      | stream | datagram => simp [World.reading, here, job]

theorem refuse_intact (h : Intact k w) (p : Slot) (why : Errno) : Intact k (w.refuse p why) := by
  obtain ⟨kept, owns⟩ := h.register p .other
  exact kept.finish owns nofun

variable {input : FileId} {count : Nat} {output : Option FileId} {offset : Option Nat}

variable {alloc : Nat → Bool}

theorem copyFile_files {pos fuel : Nat} {c : Copy} {f : FileId} (other : some f ≠ output) :
    (copyFile alloc input output count pos fuel c).files f = c.files f := by
  induction fuel generalizing c with
  | zero => rfl
  | succ fuel ih =>
    have wrote (c : Copy) (alloc : Bool) (bytes : List U8) :
        (c.write alloc output bytes).1.files f = c.files f := by
      cases output with
      | none => rfl
      | some o =>
        have apart : f ≠ o := fun same => other (congrArg some same)
        simp [Copy.write, apart]
    unfold copyFile
    split
    · dsimp only
      generalize (if count - c.done < chunkSize then count - c.done else chunkSize) = want
      split
      · rfl
      split
      · exact wrote _ _ _
      rw [ih]
      exact wrote _ _ _
    · rfl

theorem copyFile_empty {pos : Nat} (fuel : Nat) {c : Copy} (fresh : c.done = 0)
    (nothing : count = 0 ∨ (c.files input).size ≤ pos) :
    copyFile alloc input output count pos fuel c = c := by
  cases fuel with
  | zero => rfl
  | succ fuel =>
    unfold copyFile
    split
    · have past : (c.files input).size ≤ pos + c.done := by omega
      simp [Fs.ramdiskRead, past]
    · rfl

theorem nextChunk_empty {n : Nat} {t : Transfer} (fresh : t.done = 0)
    (nothing : t.count = 0 ∨ (w.files t.input).size ≤ t.pos) :
    w.nextChunk p n t = w.leaveSendfile p n t := by
  unfold World.nextChunk
  split
  · have past : (w.files t.input).size ≤ t.pos + t.done := by omega
    simp [Fs.ramdiskRead, past]
  · rfl

theorem sendfileToFile_intact (h : Intact k w) {outFd inFd : Nat}
    (kept : k = .sendfile → ∀ f, output = some f → w.unread f)
    (free : k = .sendfile → 0 < count →
      offset.getD ((w.proc p).fdOffset inFd) < (w.files input).size → w.nobodyIn .sendfile) :
    Intact k (w.sendfileToFile p outFd inFd input output offset count alloc) := by
  obtain ⟨registered, owns⟩ := h.register p .other
  obtain ⟨c, copies⟩ : ∃ c, copyFile alloc input output count
      (offset.getD ((w.proc p).fdOffset inFd)) count
      { files := w.files, chunk := w.chunk, outOffset := (w.proc p).fdOffset outFd } = c := ⟨_, rfl⟩
  have copied : Unseen k (w.register .other)
      { w.register .other with files := c.files, chunk := c.chunk } (some p) := by
    refine { Unseen.refl k (w.register .other) (some p) with files := ?_, chunk := ?_ }
    · intro files q d t _ here job
      rw [← copies]
      apply copyFile_files
      intro same
      exact (unread_iff t.input).mp (kept files t.input same.symm) q d t here job rfl
    · intro files
      by_cases fills : 0 < count ∧ offset.getD ((w.proc p).fdOffset inFd) < (w.files input).size
      · right
        intro q d _ here
        exact (nobodyIn_iff .sendfile).mp (free files fills.1 fills.2) q d here
      left
      rw [← copies, copyFile_empty count rfl (by simp only; omega)]
      rfl
  have after := registered.unseen copied
  have owned : Owns { w.register .other with files := c.files, chunk := c.chunk } p w.made.length
      .other := owns.congr (fun _ _ => rfl) rfl rfl
  unfold World.sendfileToFile
  dsimp only
  rw [copies]
  split
  · exact after.finish owned nofun
  split <;> exact (after.own _).finish (owned.own _) nofun

theorem sysSendfile_intact (h : Intact k w) {outFd inFd : Int}
    (ok : k = .sendfile → filesKept w (.sendfile p outFd inFd offset count alloc) ∧
      chunkFree w (.sendfile p outFd inFd offset count alloc)) :
    Intact k (w.sysSendfile p outFd inFd offset count alloc) := by
  unfold World.sysSendfile
  dsimp only
  split
  · exact refuse_intact h p _
  rename_i inside
  have free (files : k = .sendfile) {input : FileId} {out : Node}
      (reads : (w.proc p).fdTable inFd.toNat = some (.file input))
      (writes : (w.proc p).fdTable outFd.toNat = some out) (more : 0 < count)
      (left : offset.getD ((w.proc p).fdOffset inFd.toNat) < (w.files input).size) :
      w.nobodyIn .sendfile := by
    have clear := (ok files).2
    have fills : w.fillsChunk p outFd inFd offset count := by
      simp [World.fillsChunk, inside, reads, writes, more, left]
    simpa [chunkFree, fills] using clear
  split
  · next input out reads writes =>
    have began := h.register p (.sendfile out (w.files input)
      (offset.getD ((w.proc p).fdOffset inFd.toNat)))
    obtain ⟨registered, owns⟩ := began
    have sent (_ : k = .sendfile) : FileSent (w.register (.sendfile out (w.files input)
        (offset.getD ((w.proc p).fdOffset inFd.toNat)))) w.made.length
        { out, inFd := inFd.toNat, input, offset := offset.isSome, count
          pos := offset.getD ((w.proc p).fdOffset inFd.toNat), file := w.files input } := by
      refine ⟨rfl, zero_le, ?_⟩
      have fresh : (w.sockets out).entriesOf w.made.length = [] := h.fresh out _ le_rfl
      simp only [World.register, Socket.acceptedFrom, fresh, flatten_nil, take_zero]
    by_cases fills : 0 < count ∧ offset.getD ((w.proc p).fdOffset inFd.toNat) < (w.files input).size
    · apply nextChunk_intact registered owns sent
      intro files q c _ here
      exact (nobodyIn_iff .sendfile).mp (free files reads writes fills.1 fills.2) q c here
    rw [nextChunk_empty rfl (by simp only [World.register]; omega)]
    exact leaveSendfile_intact registered owns sent
  · next input output reads writes =>
    apply sendfileToFile_intact h
    · rintro files f same
      obtain rfl := Option.some.inj same
      have unread := (ok files).1
      simpa [filesKept, writes] using unread
    · exact fun files => free files reads writes
  · next input reads writes =>
    apply sendfileToFile_intact h
    · simp
    · exact fun files => free files reads writes
  · exact refuse_intact h p _
  · exact refuse_intact h p _

theorem gatherInto_some {pieces : List (List U8)} {buf gather : Nat → U8} {len total : Nat}
    (fits : World.gatherInto buf len pieces = (gather, some total)) :
    total = len + pieces.flatten.length ∧
      Buffer.slice gather 0 total = Buffer.slice buf 0 len ++ pieces.flatten := by
  induction pieces generalizing buf len with
  | nil =>
    obtain ⟨rfl, same⟩ := Prod.mk.inj fits
    obtain rfl := Option.some.inj same
    simp
  | cons piece rest ih =>
    unfold World.gatherInto at fits
    split at fits
    · cases (Prod.mk.inj fits).2
    obtain ⟨size, bytes⟩ := ih fits
    have grown := Buffer.slice_blit_append buf 0 len piece
    rw [zero_add] at grown
    constructor
    · rw [size, flatten_cons, length_append, add_assoc]
    · rw [bytes, grown, flatten_cons, append_assoc]

theorem Kept.gathered (gather : Nat → U8) (h : Intact k w)
    (free : k = .datagram → w.nobodyIn .datagram) : Intact k { w with gather } := by
  refine Kept.unseen h { Unseen.refl k w none with gather := fun datagrams => .inr ?_ }
  exact fun q c _ => (nobodyIn_iff .datagram).mp (free datagrams) q c

theorem sysSendmsg_intact (h : Intact k w) {fd : Int} {msg : Msghdr} {dontwait : Bool}
    (ok : k = .datagram → gatherFree w (.sendmsg p fd msg dontwait)) :
    Intact k (w.sysSendmsg p fd msg dontwait) := by
  unfold World.sysSendmsg
  split
  · exact refuse_intact h p _
  rename_i s names
  split
  · exact refuse_intact h p _
  rename_i header
  split
  · next type =>
    obtain ⟨registered, owns⟩ := h.register p (.stream s msg.pieces)
    apply nextPiece_intact registered owns
    intro _
    have fresh : (w.sockets s).entriesOf w.made.length = [] := h.fresh s _ le_rfl
    refine ⟨type, zero_le, ?_⟩
    simp only [World.register, Socket.acceptedFrom, fresh, flatten_nil, take_zero]
  · next type =>
    have free (datagrams : k = .datagram) : w.nobodyIn .datagram := by
      have clear := ok datagrams
      have gathers : w.gathers p fd msg := by simp [World.gathers, names, header, type]
      simpa [gatherFree, gathers] using clear
    split
    · exact refuse_intact (Kept.gathered _ h free) p _
    rename_i gather len fits
    obtain ⟨size, bytes⟩ := gatherInto_some fits
    obtain ⟨registered, owns⟩ := (Kept.gathered gather h free).register p (.datagram s msg.pieces)
    refine begin_intact (.datagram s msg.pieces) registered owns ?_ rfl fun _ other => by cases other
    intro _
    have fresh : (w.sockets s).entriesOf w.made.length = [] := h.fresh s _ le_rfl
    rw [zero_add] at size
    refine ⟨rfl, type, size, rfl, ?_, fresh⟩
    rw [← size]
    simpa [Buffer.slice] using bytes

end Starts

/-! ## All steps -/

section All

variable {k : Kind} {w : World}

theorem setFds_intact (h : Intact k w) {p : Slot} (idle : w.call p = none) (r : Proc)
    (still : r.call = none) : Intact k (w.setProc p r) := by
  refine Kept.unseen h { Unseen.refl k w none with calls := fun q _ => ?_ }
  by_cases here : q = p
  · subst here
    rw [idle]
    simpa [World.call, World.setProc] using still
  · exact setProc_other w here r

theorem setFile_intact (h : Intact k w) {f : FileId} {file : Fs.File}
    (ok : k = .sendfile → w.unread f) :
    Intact k { w with files := Function.update w.files f file } := by
  refine Kept.unseen h { Unseen.refl k w none with files := fun files q c t _ here job => ?_ }
  exact Function.update_of_ne ((unread_iff f).mp (ok files) q c t here job) file w.files

theorem setSocket_intact (h : Intact k w) {s : SockSlot} {socket : Socket}
    (type : socket.type = (w.sockets s).type) (accepted : socket.accepted = (w.sockets s).accepted) :
    Intact k { w with sockets := Function.update w.sockets s socket } := by
  refine Kept.unseen h { Unseen.refl k w none with types := fun s' => ?_, entries := fun s' => ?_ }
  · by_cases here : s' = s
    · subst here
      simpa using type
    · simp [here]
  · by_cases here : s' = s
    · subst here
      simpa using accepted
    · simp [here]

theorem step_intact (h : Intact k w) (e : Event) (ok : clean w e k) :
    Intact k (step w e) := by
  unfold step
  cases cpu : w.onCpu with
  | some p =>
    dsimp only
    split
    · next a c here =>
      apply answer_intact h here
      rintro more rfl rfl
      have closed : noGap w (.answer (.room more)) := ok
      simpa [noGap, cpu, here] using closed
    · exact h
  | none =>
    cases e with
    | sendfile p outFd inFd offset count alloc =>
      simp only [between]
      split
      · apply sysSendfile_intact h
        rintro rfl
        exact Bool.and_eq_true_iff.mp ok
      · exact h
    | sendmsg p fd msg dontwait =>
      simp only [between]
      split
      · apply sysSendmsg_intact h
        rintro rfl
        exact ok
      · exact h
    | answer a => exact h
    | wake p calm =>
      simp only [between]
      split
      · next c here =>
        split
        · exact wake_intact h here calm
        · exact h
      · exact h
    | setFds p fdTable fdOffset =>
      simp only [between]
      split
      · next idle =>
        have idle := Option.isNone_iff_eq_none.mp idle
        exact setFds_intact h idle _ idle
      · exact h
    | setFile f file =>
      apply setFile_intact h
      rintro rfl
      exact (Bool.and_eq_true_iff.mp ok).1
    | setSocket s nonblock shutWr sndtimeoMs => exact setSocket_intact h rfl rfl

theorem World.Quiet.intact (quiet : w.Quiet) (k : Kind) : Intact k w := by
  have nobody {p : Slot} {c : Call} : w.call p ≠ some c := by simp [quiet.calls p]
  constructor
  · exact fun p c _ here => absurd here nobody
  · exact fun p q c d _ _ here => absurd here nobody
  · exact fun p c _ here => absurd here nobody
  · simp [quiet.returned]
  · intro s n _
    simp [Socket.entriesOf, quiet.sockets s]
  · exact fun p c _ here => absurd here nobody
  · simp [quiet.returned]
  · exact fun _ p q c d _ _ here => absurd here nobody

theorem run_intact (quiet : w.Quiet) (events : List Event)
    (ok : Runs.everyStep step (fun w e => clean w e k) w events) :
    Intact k (Runs.run step w events) :=
  Runs.run_keeps (P := fun w => Intact k w) (fun _ e h ok => step_intact h e ok) (quiet.intact k)
    events ok

end All

end UzOS.Net
