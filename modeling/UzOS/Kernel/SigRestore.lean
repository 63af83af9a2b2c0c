import UzOS.Kernel.SigFrame

/-! A handler's return puts back what its frame saved, at any depth of handlers. -/
namespace UzOS.Kernel

open Buffer List Option

/-- Two frames that do not overlap. -/
def FramesApart (a b : U32) : Prop := a.toNat + 92 ≤ b.toNat ∨ b.toNat + 92 ≤ a.toNat

/-- The frame at `sp` is as it was, and still mapped. -/
def FrameKept (before after : Proc.System) (sp : U32) : Prop :=
  (∀ x, sp.toNat ≤ x → x < sp.toNat + 92 → after.mem x = before.mem x) ∧
    Proc.defUserRangeOk after sp sizeofSigframe = true

/-- The program leaves the frames that are out alone, a new frame lies apart from
them, and a handler that returns has popped its own return address. -/
def WellNested (t : Task) : Act → Prop
  | .user _ sys => ∀ f ∈ t.pushed, FrameKept t.sys sys f.sp
  | .deliver sig _ => ∀ f ∈ t.pushed, FramesApart (frameSp t.proc sig t.regs.useresp) f.sp
  | .sigreturn => t.regs.cs &&& 3 = 3 ∧
      ∃ top, t.pushed.head? = some top ∧ t.regs.useresp = top.sp + 4
  | .settings _ | .execve _ _ _ => True

def WellNestedRun (t : Task) : List Act → Prop
  | [] => True
  | a :: rest => WellNested t a ∧ ∀ u, t.step a = some u → WellNestedRun u rest

variable {t u : Task}

theorem storeFrame_outside {m : Proc.Memory} {sp : U32} {words : List U32}
    (fits : words.length = 21) {x : Nat} (outside : x < sp.toNat ∨ sp.toNat + 92 ≤ x) :
    storeFrame m sp words x = m x := by
  have stored : Memory.storeWords m sp.toNat words x = m x := Memory.storeWords_outside (by omega)
  unfold storeFrame
  obtain before | after := outside
  · rw [blit_before _ _ _ _ (by omega), stored]
  · rw [blit_after _ _ _ _ (by simpa [frameCode] using after), stored]

theorem word_storeFrame (m : Proc.Memory) (sp : U32) {words : List U32}
    (fits : words.length = 21) {i : Nat} (inside : i < words.length) :
    Memory.word (storeFrame m sp words) (sp.toNat + 4 * i) = words[i] := by
  rw [← Memory.word_storeWords (m := m) (a := sp.toNat) inside]
  apply Memory.word_congr
  intro x _ _
  exact blit_before _ _ _ _ (by omega)

/-- What push_frame saved is what rt_sigreturn reads. -/
theorem readContext_storeFrame (m : Proc.Memory) (sp : U32) {head : List U32}
    (ten : head.length = 10) (c : Sigcontext) :
    readContext (storeFrame m sp (head ++ c.words)) sp = c := by
  have fits : (head ++ c.words).length = 21 := by simp [ten, Sigcontext.words]
  have saved (k : Nat) (inside : k < 11) :
      Memory.word (storeFrame m sp (head ++ c.words)) (sp.toNat + 40 + 4 * k) =
        c.words.get ⟨k, inside⟩ := by
    have word := word_storeFrame m sp fits (i := 10 + k) (by omega)
    rw [getElem_append_right (by omega)] at word
    have index : 10 + k - head.length = k := by omega
    simp only [index] at word
    rw [get_eq_getElem, ← word]
    congr 1
    omega
  unfold readContext
  dsimp only
  rw [saved 0 (by decide), saved 1 (by decide), saved 2 (by decide), saved 3 (by decide),
    saved 4 (by decide), saved 5 (by decide), saved 6 (by decide), saved 7 (by decide),
    saved 8 (by decide), saved 9 (by decide), saved 10 (by decide)]
  rfl

theorem readContext_congr {m n : Proc.Memory} {sp : U32}
    (same : ∀ x, sp.toNat ≤ x → x < sp.toNat + 92 → n x = m x) :
    readContext n sp = readContext m sp := by
  have word (k : Nat) (inside : k < 11) : Memory.word n (sp.toNat + 40 + 4 * k) =
      Memory.word m (sp.toNat + 40 + 4 * k) :=
    Memory.word_congr fun x _ _ => same x (by omega) (by omega)
  unfold readContext
  dsimp only
  rw [word 0 (by decide), word 1 (by decide), word 2 (by decide), word 3 (by decide),
    word 4 (by decide), word 5 (by decide), word 6 (by decide), word 7 (by decide),
    word 8 (by decide), word 9 (by decide), word 10 (by decide)]

/-- The frame holds the registers and the mask of the time it was pushed. -/
structure Saves (s : Proc.System) (f : Pushed) : Prop where
  context : ∃ blocked, readContext s.mem f.sp = savedContext f.regs blocked ∧
    blocked &&& ~~~sigUnblockable = f.mask
  mapped : Proc.defUserRangeOk s f.sp sizeofSigframe = true

theorem Saves.kept {s s' : Proc.System} {f : Pushed} (saves : Saves s f)
    (kept : FrameKept s s' f.sp) : Saves s' f := by
  refine ⟨?_, kept.2⟩
  rw [readContext_congr kept.1]
  exact saves.context

def Intact (t : Task) : Prop := ∀ f ∈ t.pushed, Saves t.sys f

theorem Intact.push (intact : Intact t) {sig : Nat} {info : Siginfo}
    (nested : WellNested t (.deliver sig info)) (pushes : pushFrame t sig info = some u) :
    Intact u := by
  obtain ⟨-, mapped, -, sys, -, -, pushed⟩ := pushFrame_some pushes
  have fits : (frameHead t.proc sig info (frameSp t.proc sig t.regs.useresp) ++
      (savedContext t.regs t.proc.maskBefore).words).length = 21 := by
    simp [frameHead, Sigcontext.words]
  intro f out
  rw [pushed, mem_cons] at out
  rw [sys]
  obtain rfl | out := out
  · refine ⟨⟨t.proc.maskBefore, ?_, rfl⟩, mapped⟩
    exact readContext_storeFrame _ _ rfl _
  apply (intact f out).kept
  refine ⟨fun x low high => storeFrame_outside fits ?_, (intact f out).mapped⟩
  obtain apart | apart := nested f out
  · omega
  omega

theorem Intact.step (intact : Intact t) {a : Act} (nested : WellNested t a)
    (steps : t.step a = some u) : Intact u := by
  cases a with
  | user regs sys =>
    obtain rfl := Option.some.inj steps
    exact fun f out => (intact f out).kept (nested f out)
  | settings p =>
    obtain rfl := Option.some.inj steps
    exact intact
  | deliver sig info => exact intact.push nested steps
  | sigreturn =>
    simp only [Task.step] at steps
    split at steps
    · obtain rfl := Option.some.inj steps
      exact intact
    · cases steps
    rename_i back
    obtain rfl := Option.some.inj steps
    obtain ⟨c, -, -, -, -, -, rfl⟩ := sysRtSigreturn_restored back
    exact fun f out => intact f (mem_of_mem_tail out)
  | execve p regs sys =>
    obtain rfl := Option.some.inj steps
    exact fun f out => absurd out (by simp)

theorem Intact.run (intact : Intact t) (acts : List Act) (nested : WellNestedRun t acts)
    (runs : t.run acts = some u) : Intact u := by
  induction acts generalizing t with
  | nil => exact Option.some.inj runs ▸ intact
  | cons a rest ih =>
    obtain ⟨next, steps, runs⟩ := bind_eq_some_iff.mp runs
    exact ih (intact.step nested.1 steps) (nested.2 next steps) runs

/-- A context that sigframe_check lets back. -/
def Registers.returnable (r : Registers) : Bool := userAddress r.eip && userAddress r.useresp

/-- The registers as rt_sigreturn puts them back. -/
def Registers.sanitised (r : Registers) (cs : U32) : Registers :=
  { r with eflags := (r.eflags &&& sigframeUserEflags) ||| sigframeFixedEflags, cs }

/-- rt_sigreturn in a handler that returns: its own frame is still intact. -/
theorem sysRtSigreturn_intact (tracks : Tracks t) (intact : Intact t)
    (returns : WellNested t .sigreturn) : ∃ top, t.pushed.head? = some top ∧
      (top.regs.returnable → ∃ u, sysRtSigreturn t = .restored u ∧
        u.regs = top.regs.sanitised t.regs.cs ∧ u.proc.sigBlocked = top.mask) ∧
      (top.regs.returnable = false → sysRtSigreturn t = .refused) := by
  obtain ⟨ring, top, newest, esp⟩ := returns
  obtain ⟨rest, list⟩ := List.head?_eq_some_iff.mp newest
  have out : top ∈ t.pushed := List.mem_of_mem_head? newest
  have frame : t.regs.useresp - 4 = top.sp := by rw [esp, BitVec.add_sub_cancel]
  have mapped := (intact top out).mapped
  obtain ⟨blocked, context, mask⟩ := (intact top out).context
  have some_ : t.proc.sigFrames ≠ 0 := by
    rw [← tracks.stack.length, list]
    simp
  have same : t.proc.sigFrame (t.proc.sigFrames - 1) = top.sp := by
    obtain ⟨first, _, also, here, -⟩ := tracks.newest some_
    rw [list] at also
    rw [← here, (List.cons.inj also).1]
  have check : defSigframeCheck t.proc (t.regs.useresp - 4)
      (readContext t.sys.mem (t.regs.useresp - 4)) =
      if top.regs.returnable then some ({ t.proc with sigFrames := t.proc.sigFrames - 1 },
        savedContext (top.regs.sanitised t.regs.cs) blocked) else none := by
    rw [frame, context]
    unfold defSigframeCheck
    rw [if_neg (not_or.mpr ⟨some_, not_not.mpr same⟩)]
    cases ok : top.regs.returnable with
    | false =>
      rw [if_pos (by simpa [Registers.returnable, savedContext, ← Bool.not_and] using ok)]
      rfl
    | true =>
      rw [if_neg (by simpa [Registers.returnable, savedContext] using ok)]
      rfl
  refine ⟨top, newest, fun ok => ?_, fun bad => ?_⟩
  · rw [if_pos ok] at check
    unfold sysRtSigreturn
    rw [if_neg (not_not.mpr ring), check, frame, mapped]
    exact ⟨_, rfl, rfl, mask⟩
  · rw [if_neg (by simp [bad])] at check
    unfold sysRtSigreturn
    rw [if_neg (not_not.mpr ring), check, frame, mapped, if_neg (by simp)]

/-- In every sequence of deliveries, returns and handler activity that leaves the
frames alone, a handler's return puts back the registers and the mask from before
its own delivery, or ends the program when those registers had EIP or ESP outside
user space. -/
theorem sigreturn_restores (start : Task) (fresh : start.Fresh) (acts : List Act)
    (nested : WellNestedRun start acts) (t : Task) (runs : start.run acts = some t)
    (returns : WellNested t .sigreturn) : ∃ top, t.pushed.head? = some top ∧
      (top.regs.returnable = true → ∃ u, sysRtSigreturn t = .restored u ∧
        u.regs = top.regs.sanitised t.regs.cs ∧ u.proc.sigBlocked = top.mask) ∧
      (top.regs.returnable = false → sysRtSigreturn t = .refused) := by
  have intact : Intact start := by
    intro f out
    rw [fresh.2.1] at out
    exact absurd out (by simp)
  exact sysRtSigreturn_intact (fresh.tracks.run acts runs) (intact.run acts nested runs) returns

/-- The handler of SIGUSR2 runs on the alternate stack. -/
def twoStacks : Task :=
  { program with
    proc := { program.proc with
      sigFlags := fun sig => if sig = 12 then saOnstack else 0
      altstackSp := 0x0A000000, altstackSize := 0x1000 } }

/-- In the handler of SIGUSR1, and then of SIGUSR2, which came during it. -/
def inUsr1 : Task := (pushFrame twoStacks 10 {}).get (by decide +kernel)

def inUsr2 : Task := (pushFrame inUsr1 12 {}).get (by decide +kernel)

/-- The second handler uses the registers and is about to return. -/
def nestedActs : List Act := [.deliver 10 {}, .deliver 12 {},
  .user { inUsr2.regs with eax := 0, ebx := 0, useresp := inUsr2.regs.useresp + 4 } inUsr2.sys]

theorem nestedActs_nested : WellNestedRun twoStacks nestedActs := by
  refine ⟨fun f out => absurd out (by simp [twoStacks, program]), fun u pushes => ?_⟩
  obtain rfl : u = inUsr1 := (get_of_eq_some _ pushes).symm
  have apart : WellNested inUsr1 (.deliver 12 {}) := by
    unfold WellNested FramesApart
    decide +kernel
  refine ⟨apart, fun v pushes => ⟨?_, fun _ _ => trivial⟩⟩
  obtain rfl : v = inUsr2 := (get_of_eq_some _ pushes).symm
  have mapped : ∀ f ∈ inUsr2.pushed, Proc.defUserRangeOk inUsr2.sys f.sp sizeofSigframe := by
    decide +kernel
  exact fun f out => ⟨fun _ _ _ => rfl, mapped f out⟩

/-- The frame on the alternate stack brings back the first handler, whose frame is still out. -/
theorem sigreturn_restores_nested : ∃ t u, twoStacks.run nestedActs = some t ∧
    t.pushed.map Pushed.sp = [0x0A000FA0, 0x0BFFEFA0] ∧ sysRtSigreturn t = .restored u ∧
    u.regs = inUsr1.regs.sanitised 0x1B ∧ u.proc.sigBlocked = sigBit 10 := by
  have runs : twoStacks.run nestedActs = some { inUsr2 with
      regs := { inUsr2.regs with eax := 0, ebx := 0, useresp := inUsr2.regs.useresp + 4 } } := rfl
  obtain ⟨top, newest, restores, -⟩ := sigreturn_restores twoStacks ⟨rfl, rfl, rfl⟩ nestedActs
    nestedActs_nested _ runs ⟨by decide +kernel, _, rfl, rfl⟩
  obtain rfl := Option.some.inj newest
  obtain ⟨u, back, regs, mask⟩ := restores (by decide +kernel)
  exact ⟨_, u, runs, by decide +kernel, back, regs, mask⟩

/-- A program on its alternate stack may have anything in ESP. -/
def spareStack : Task :=
  { program with
    proc := { program.proc with
      sigFlags := fun _ => saOnstack, altstackSp := 0x0A000000, altstackSize := 0x1000 }
    regs := { program.regs with useresp := 0 } }

def Task.afterRet (t : Task) : Task :=
  { t with regs := { t.regs with useresp := t.regs.useresp + 4 } }

def Sigreturn.isRefused : Sigreturn → Bool
  | .refused => true
  | _ => false

/-- The handler's frame is untouched, yet the program is ended when it returns: ESP
was not in user space. -/
theorem spare_stack_refused : (pushFrame spareStack 10 {}).map (fun t =>
    (sysRtSigreturn t.afterRet).isRefused) = some true := by
  decide +kernel

end UzOS.Kernel
