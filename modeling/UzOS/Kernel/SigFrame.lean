import UzOS.Kernel.Signal
import UzOS.Lib.ArrayStack

/-! Handler frames of one program: push_frame (core/signal/deliver.c), rt_sigreturn
and its defence sigframe_check. Between them the program may do to its registers and
to memory what it likes. -/
namespace UzOS.Kernel

open List Nat Option

def saOnstack : U32 := 0x08000000
def ssDisable : U32 := 2
def signalMaxFrames : Nat := 4
def sizeofSigframe : U32 := 92
def eflagsTf : U32 := 0x100
def eflagsDf : U32 := 0x400
def sigframeUserEflags : U32 := 0x00050DD5
def sigframeFixedEflags : U32 := 0x00000202

/-- What the interrupt saved of the program. -/
structure Registers where
  eax : U32
  ebx : U32
  ecx : U32
  edx : U32
  esi : U32
  edi : U32
  ebp : U32
  useresp : U32
  eip : U32
  eflags : U32
  cs : U32
  deriving DecidableEq

/-- Everything the handler's return must put back. -/
structure Sigcontext where
  eax : U32
  ebx : U32
  ecx : U32
  edx : U32
  esi : U32
  edi : U32
  ebp : U32
  esp : U32
  eip : U32
  eflags : U32
  blocked : U32

/-- A frame that rt_sigreturn has not taken back: which push it was, where it is, and
the registers and the mask in force before it. -/
structure Pushed where
  number : Nat
  sp : U32
  regs : Registers
  mask : U32

/-- `pushes`, `pushed` and `returned` only record what happened, the newest first;
nothing reads them. -/
structure Task where
  proc : Process
  regs : Registers
  sys : Proc.System
  pushes : Nat := 0
  pushed : List Pushed := []
  returned : List Nat := []

/-! Pushing a frame. -/

def onAltstack (p : Process) (sp : U32) : Bool :=
  p.altstackSize != 0 && decide (p.altstackSp ≤ sp) && decide (sp < p.altstackSp + p.altstackSize)

/-- Where the frame goes: below ESP or on the alternate stack, 16-byte aligned. -/
def frameSp (p : Process) (sig : Nat) (useresp : U32) : U32 :=
  let sp :=
    if p.sigFlags sig &&& saOnstack ≠ 0 ∧ p.altstackSize ≠ 0 ∧ p.altstackFlags &&& ssDisable = 0 ∧
      onAltstack p useresp = false then p.altstackSp + p.altstackSize
    else useresp
  (sp - sizeofSigframe) &&& ~~~15

/-- The mask that comes back with the frame; rt_sigsuspend's saved one, if any. -/
def Process.maskBefore (p : Process) : U32 :=
  if p.sigRestoreMask then p.sigSavedMask else p.sigBlocked

def savedContext (r : Registers) (blocked : U32) : Sigcontext :=
  { eax := r.eax, ebx := r.ebx, ecx := r.ecx, edx := r.edx, esi := r.esi, edi := r.edi
    ebp := r.ebp, esp := r.useresp, eip := r.eip, eflags := r.eflags, blocked }

def Sigcontext.words (c : Sigcontext) : List U32 :=
  [c.eax, c.ebx, c.ecx, c.edx, c.esi, c.edi, c.ebp, c.esp, c.eip, c.eflags, c.blocked]

/-- ret, signo, info and context, then siginfo: what stands before `saved`. -/
def frameHead (p : Process) (sig : Nat) (info : Siginfo) (sp : U32) : List U32 :=
  [if p.sigFlags sig &&& saRestorer ≠ 0 then p.sigRestorer sig else sp + 84,
    .ofNat 32 sig, sp + 16, sp + 40,
    .ofNat 32 info.signo, info.error, info.code, info.pid, info.uid, info.value]

/-- mov eax, SYS_RT_SIGRETURN ; int 0x80 -/
def frameCode : List U8 := [0xB8, 76, 0, 0, 0, 0xCD, 0x80, 0]

def storeFrame (m : Proc.Memory) (sp : U32) (words : List U32) : Proc.Memory :=
  Buffer.blit (Memory.storeWords m sp.toNat words) (sp.toNat + 84) frameCode

/-- `none`: the frame does not fit, and the program is ended. -/
def pushFrame (t : Task) (sig : Nat) (info : Siginfo) : Option Task :=
  let p := t.proc
  let sp := frameSp p sig t.regs.useresp
  if p.sigFrames ≥ signalMaxFrames then none
  else if !Proc.defUserRangeOk t.sys sp sizeofSigframe then none
  else
    some { t with
      proc := p.enterHandler sig sp
      regs := { t.regs with
        useresp := sp
        eip := p.sigHandler sig
        eax := .ofNat 32 sig
        eflags := t.regs.eflags &&& ~~~(eflagsTf ||| eflagsDf) }
      sys := { t.sys with
        mem := storeFrame t.sys.mem sp
          (frameHead p sig info sp ++ (savedContext t.regs p.maskBefore).words) }
      pushes := t.pushes + 1
      pushed := { number := t.pushes, sp, regs := t.regs
                  mask := p.maskBefore &&& ~~~sigUnblockable } :: t.pushed }

/-! Taking it back. -/

/-- The `saved` part of the frame at `frame`. -/
def readContext (m : Proc.Memory) (frame : U32) : Sigcontext :=
  let word (k : Nat) := Memory.word m (frame.toNat + 40 + 4 * k)
  { eax := word 0, ebx := word 1, ecx := word 2, edx := word 3, esi := word 4, edi := word 5
    ebp := word 6, esp := word 7, eip := word 8, eflags := word 9, blocked := word 10 }

/-- sigframe_check: `none` refuses, else one frame fewer and clean EFLAGS. -/
def defSigframeCheck (p : Process) (frame : U32) (c : Sigcontext) :
    Option (Process × Sigcontext) :=
  if p.sigFrames = 0 ∨ p.sigFrame (p.sigFrames - 1) ≠ frame then none
  else if !userAddress c.eip || !userAddress c.esp then none
  else some ({ p with sigFrames := p.sigFrames - 1 },
    { c with eflags := (c.eflags &&& sigframeUserEflags) ||| sigframeFixedEflags })

inductive Sigreturn where
  | failed
  | refused
  | restored (t : Task)

def Sigreturn.task : Sigreturn → Option Task
  | .restored t => some t
  | _ => none

def Registers.restore (r : Registers) (c : Sigcontext) : Registers :=
  { eax := c.eax, ebx := c.ebx, ecx := c.ecx, edx := c.edx, esi := c.esi, edi := c.edi
    ebp := c.ebp, useresp := c.esp, eip := c.eip, eflags := c.eflags, cs := r.cs }

/-- The frame is at ESP - 4: 'ret' was popped by the handler. -/
def sysRtSigreturn (t : Task) : Sigreturn :=
  let frame := t.regs.useresp - 4
  if t.regs.cs &&& 3 ≠ 3 then .failed
  else if !Proc.defUserRangeOk t.sys frame sizeofSigframe then .refused
  else match defSigframeCheck t.proc frame (readContext t.sys.mem frame) with
    | none => .refused
    | some (p, c) => .restored { t with
        proc := { p with sigBlocked := c.blocked &&& ~~~sigUnblockable }
        regs := t.regs.restore c
        pushed := t.pushed.tail
        returned := (t.pushed.head?.map Pushed.number).toList ++ t.returned }

/-! A run of the program. -/

inductive Act where
  /-- The program runs; others may write its memory and change its mappings. -/
  | user (regs : Registers) (sys : Proc.System)
  /-- A call that changes handlers, masks or the alternate stack. -/
  | settings (p : Process)
  | deliver (sig : Nat) (info : Siginfo)
  | sigreturn
  | execve (p : Process) (regs : Registers) (sys : Proc.System)

/-- `none`: the program was ended. Only push_frame, rt_sigreturn and execve write
the stack of frames. -/
def Task.step (t : Task) : Act → Option Task
  | .user regs sys => some { t with regs, sys }
  | .settings p =>
    some { t with proc := { p with sigFrame := t.proc.sigFrame, sigFrames := t.proc.sigFrames } }
  | .deliver sig info => pushFrame t sig info
  | .sigreturn => match sysRtSigreturn t with
    | .failed => some { t with regs := { t.regs with eax := -1 } }
    | .refused => none
    | .restored t => some t
  | .execve p regs sys =>
    some { t with
      proc := { p with sigFrame := t.proc.sigFrame, sigFrames := 0 }, regs, sys, pushed := [] }

def Task.run (t : Task) : List Act → Option Task
  | [] => some t
  | a :: rest => (t.step a).bind fun t => t.run rest

/-- No handler has run yet. -/
def Task.Fresh (t : Task) : Prop :=
  t.proc.sigFrames = 0 ∧ t.pushed = [] ∧ t.returned = []

variable {t u : Task}

/-- The kernel's stack of frames is the list of frames still out, and no frame is
out or back twice. -/
structure Tracks (t : Task) : Prop where
  stack : ArrayStack.Holds t.proc.sigFrame t.proc.sigFrames (t.pushed.map Pushed.sp)
  depth : t.proc.sigFrames ≤ signalMaxFrames
  known : ∀ n ∈ t.pushed.map Pushed.number ++ t.returned, n < t.pushes
  once : (t.pushed.map Pushed.number ++ t.returned).Nodup

theorem Task.Fresh.tracks (fresh : t.Fresh) : Tracks t := by
  obtain ⟨none, pushed, returned⟩ := fresh
  constructor
  · rw [none, pushed]
    exact ArrayStack.holds_nil _
  · rw [none]
    exact zero_le
  · simp [pushed, returned]
  · simp [pushed, returned]

theorem pushFrame_some {sig : Nat} {info : Siginfo} (pushes : pushFrame t sig info = some u) :
    t.proc.sigFrames < signalMaxFrames ∧
      Proc.defUserRangeOk t.sys (frameSp t.proc sig t.regs.useresp) sizeofSigframe ∧
      u.proc = t.proc.enterHandler sig (frameSp t.proc sig t.regs.useresp) ∧
      u.sys = { t.sys with
        mem := storeFrame t.sys.mem (frameSp t.proc sig t.regs.useresp)
          (frameHead t.proc sig info (frameSp t.proc sig t.regs.useresp) ++
            (savedContext t.regs t.proc.maskBefore).words) } ∧
      u.pushes = t.pushes + 1 ∧ u.returned = t.returned ∧
      u.pushed = { number := t.pushes, sp := frameSp t.proc sig t.regs.useresp, regs := t.regs
                   mask := t.proc.maskBefore &&& ~~~sigUnblockable } :: t.pushed := by
  unfold pushFrame at pushes
  dsimp only at pushes
  split at pushes
  · exact nomatch pushes
  rename_i room
  split at pushes
  · exact nomatch pushes
  rename_i fits
  obtain rfl := Option.some.inj pushes
  exact ⟨Nat.lt_of_not_le room, by simpa using fits, rfl, rfl, rfl, rfl, rfl⟩

theorem defSigframeCheck_some {p q : Process} {frame : U32} {c d : Sigcontext}
    (passes : defSigframeCheck p frame c = some (q, d)) :
    p.sigFrames ≠ 0 ∧ p.sigFrame (p.sigFrames - 1) = frame ∧ userAddress c.eip ∧
      userAddress c.esp ∧ q = { p with sigFrames := p.sigFrames - 1 } ∧
      d = { c with eflags := (c.eflags &&& sigframeUserEflags) ||| sigframeFixedEflags } := by
  unfold defSigframeCheck at passes
  split at passes
  · exact nomatch passes
  rename_i newest
  split at passes
  · exact nomatch passes
  rename_i addresses
  obtain ⟨rfl, rfl⟩ := Prod.mk.inj (Option.some.inj passes)
  obtain ⟨some_, same⟩ := by simpa only [not_or, not_not] using newest
  obtain ⟨eip, esp⟩ : userAddress c.eip ∧ userAddress c.esp := by
    simpa using addresses
  exact ⟨some_, same, eip, esp, rfl, rfl⟩

/-- What a successful rt_sigreturn found and did. -/
theorem sysRtSigreturn_restored (back : sysRtSigreturn t = .restored u) :
    ∃ c, c = readContext t.sys.mem (t.regs.useresp - 4) ∧ t.proc.sigFrames ≠ 0 ∧
      t.proc.sigFrame (t.proc.sigFrames - 1) = t.regs.useresp - 4 ∧
      userAddress c.eip ∧ userAddress c.esp ∧
      u = { t with
        proc := { t.proc with
          sigFrames := t.proc.sigFrames - 1
          sigBlocked := c.blocked &&& ~~~sigUnblockable }
        regs := t.regs.restore
          { c with eflags := (c.eflags &&& sigframeUserEflags) ||| sigframeFixedEflags }
        pushed := t.pushed.tail
        returned := (t.pushed.head?.map Pushed.number).toList ++ t.returned } := by
  unfold sysRtSigreturn at back
  dsimp only at back
  split at back
  · exact nomatch back
  split at back
  · exact nomatch back
  split at back
  · exact nomatch back
  rename_i passes
  obtain ⟨some_, same, eip, esp, rfl, rfl⟩ := defSigframeCheck_some passes
  exact ⟨_, rfl, some_, same, eip, esp, (Sigreturn.restored.inj back).symm⟩

section
variable (tracks : Tracks t)
include tracks

/-- The frame that comes back is the newest one still out. -/
theorem Tracks.newest (some_ : t.proc.sigFrames ≠ 0) :
    ∃ top rest, t.pushed = top :: rest ∧ top.sp = t.proc.sigFrame (t.proc.sigFrames - 1) ∧
      ArrayStack.Holds t.proc.sigFrame (t.proc.sigFrames - 1) (rest.map Pushed.sp) := by
  obtain ⟨n, count⟩ := exists_eq_succ_of_ne_zero some_
  have stack := tracks.stack
  rw [count] at stack ⊢
  obtain ⟨rest, same, below⟩ := stack.pop
  obtain ⟨top, tail, list, here, rfl⟩ := map_eq_cons_iff.mp same
  exact ⟨top, tail, list, here, below⟩

theorem Tracks.push {sig : Nat} {info : Siginfo}
    (pushes : pushFrame t sig info = some u) : Tracks u := by
  obtain ⟨room, -, proc, -, count, returned, pushed⟩ := pushFrame_some pushes
  constructor
  · rw [proc, pushed]
    exact tracks.stack.push _
  · rw [proc]
    exact room
  · intro n mem
    rw [pushed, returned, map_cons, cons_append, mem_cons] at mem
    rw [count]
    obtain rfl | old := mem
    · exact lt_succ_self _
    · exact lt_succ_of_lt (tracks.known n old)
  · rw [pushed, returned, map_cons, cons_append, nodup_cons]
    exact ⟨fun mem => lt_irrefl _ (tracks.known _ mem), tracks.once⟩

theorem Tracks.sigreturn (back : sysRtSigreturn t = .restored u) : Tracks u := by
  obtain ⟨c, -, some_, -, -, -, rfl⟩ := sysRtSigreturn_restored back
  obtain ⟨top, rest, list, -, below⟩ := tracks.newest some_
  have known := tracks.known
  have once := tracks.once
  rw [list] at known once
  have moved : (top.number :: (rest.map Pushed.number ++ t.returned)).Perm
      (rest.map Pushed.number ++ top.number :: t.returned) := perm_middle.symm
  constructor
  · simpa [list] using below
  · exact le_trans (sub_le _ _) tracks.depth
  · intro n mem
    exact known n (moved.mem_iff.mpr (by simpa [list] using mem))
  · simpa [list] using moved.nodup_iff.mp once

theorem Tracks.step {a : Act} (steps : t.step a = some u) : Tracks u := by
  cases a with
  | user regs sys | settings p =>
    obtain rfl := Option.some.inj steps
    exact ⟨tracks.stack, tracks.depth, tracks.known, tracks.once⟩
  | deliver sig info => exact tracks.push steps
  | sigreturn =>
    simp only [Task.step] at steps
    split at steps
    · obtain rfl := Option.some.inj steps
      exact ⟨tracks.stack, tracks.depth, tracks.known, tracks.once⟩
    · exact nomatch steps
    rename_i back
    obtain rfl := Option.some.inj steps
    exact tracks.sigreturn back
  | execve p regs sys =>
    obtain rfl := Option.some.inj steps
    refine ⟨ArrayStack.holds_nil _, zero_le, fun n mem => ?_, ?_⟩
    · exact tracks.known n (mem_append_right _ (by simpa using mem))
    · exact (nodup_append.mp tracks.once).2.1

theorem Tracks.run (acts : List Act) (runs : t.run acts = some u) : Tracks u := by
  induction acts generalizing t with
  | nil => exact Option.some.inj runs ▸ tracks
  | cons a rest ih =>
    obtain ⟨next, steps, runs⟩ := bind_eq_some_iff.mp runs
    exact ih (tracks.step steps) runs

end

def eflagsIopl : U32 := 0x3000
def eflagsNt : U32 := 0x4000
def eflagsVm : U32 := 0x20000
def eflagsIf : U32 := 0x200

theorem clean_eflags (e : U32) :
    ((e &&& sigframeUserEflags) ||| sigframeFixedEflags) &&&
        (eflagsIopl ||| eflagsNt ||| eflagsVm) = 0 ∧
      ((e &&& sigframeUserEflags) ||| sigframeFixedEflags) &&& eflagsIf = eflagsIf := by
  constructor
  · rw [BitVec.and_or_distrib_right, BitVec.and_assoc]
    have first : sigframeUserEflags &&& (eflagsIopl ||| eflagsNt ||| eflagsVm) = 0 := by decide
    have second : sigframeFixedEflags &&& (eflagsIopl ||| eflagsNt ||| eflagsVm) = 0 := by decide
    simp [first, second]
  · rw [BitVec.and_or_distrib_right, BitVec.and_assoc]
    have first : sigframeUserEflags &&& eflagsIf = 0 := by decide
    have second : sigframeFixedEflags &&& eflagsIf = eflagsIf := by decide
    simp [first, second]

/-- Whatever the program wrote into its memory and registers, and whatever came in
between: a successful rt_sigreturn is for the newest frame still out, which has not
come back before, and leaves nothing in the registers that ring 3 may not have. -/
theorem sigreturn_only_newest (start : Task) (fresh : start.Fresh) (acts : List Act) (t u : Task)
    (runs : start.run acts = some t) (back : sysRtSigreturn t = .restored u) :
    (∃ top rest, t.pushed = top :: rest ∧ top.sp = t.regs.useresp - 4 ∧
      top.number ∉ t.returned ∧ u.pushed = rest ∧ u.returned = top.number :: t.returned) ∧
    u.returned.Nodup ∧
    userAddress u.regs.eip = true ∧ userAddress u.regs.useresp = true ∧
    u.regs.eflags &&& (eflagsIopl ||| eflagsNt ||| eflagsVm) = 0 ∧
    u.regs.eflags &&& eflagsIf = eflagsIf ∧
    u.proc.sigBlocked &&& (sigBit sigkill ||| sigBit sigstop) = 0 := by
  have tracks := fresh.tracks.run acts runs
  have after := tracks.sigreturn back
  obtain ⟨c, -, some_, same, eip, esp, rfl⟩ := sysRtSigreturn_restored back
  obtain ⟨top, rest, list, here, -⟩ := tracks.newest some_
  have once := tracks.once
  rw [list, map_cons, cons_append, nodup_cons, mem_append] at once
  refine ⟨⟨top, rest, list, here.trans same, fun old => once.1 (.inr old), ?_, ?_⟩, ?_, eip, esp,
    (clean_eflags _).1, (clean_eflags _).2, ?_⟩
  · simp [list]
  · simp [list]
  · exact (nodup_append.mp after.once).2.1
  · simp [sigUnblockable, BitVec.and_assoc]

/-- A program with handlers at 0x08048100 and all of memory mapped for it. -/
def program : Task where
  proc := { sigHandler := fun _ => 0x08048100 }
  regs := { eax := 1, ebx := 2, ecx := 3, edx := 4, esi := 5, edi := 6, ebp := 7,
            useresp := 0x0BFFF000, eip := 0x08048000, eflags := 0x202, cs := 0x1B }
  sys := { mem := fun _ => 0, pde := fun _ => 7, pte := fun _ _ => 7, current := none, table := [] }

/-- A context that asks for IOPL 3 and for SIGKILL to be blocked. -/
def greedy : Sigcontext where
  eax := 0
  ebx := 0
  ecx := 0
  edx := 0
  esi := 0
  edi := 0
  ebp := 0
  esp := 0x0BFFF000
  eip := 0x08048000
  eflags := 0x3202
  blocked := sigBit sigkill

def rewrittenFrame : Proc.Memory :=
  storeFrame program.sys.mem 0x0BFFEFA0 (frameHead program.proc 10 {} 0x0BFFEFA0 ++ greedy.words)

/-- SIGUSR1 comes, its handler rewrites the frame it got, and returns. -/
def rewritten : List Act :=
  [.deliver 10 {}, .user { program.regs with useresp := 0x0BFFEFA4 }
    { program.sys with mem := rewrittenFrame }]

theorem sigreturn_only_newest_rewritten : ∃ t u, program.run rewritten = some t ∧
    sysRtSigreturn t = .restored u ∧ u.returned.Nodup ∧
    u.regs.eflags &&& (eflagsIopl ||| eflagsNt ||| eflagsVm) = 0 ∧
    u.proc.sigBlocked &&& (sigBit sigkill ||| sigBit sigstop) = 0 := by
  have works : ((program.run rewritten).bind fun t => (sysRtSigreturn t).task).isSome = true := by
    decide +kernel
  obtain ⟨u, both⟩ := isSome_iff_exists.mp works
  obtain ⟨t, runs, back⟩ := bind_eq_some_iff.mp both
  have back : sysRtSigreturn t = .restored u := by
    cases returns : sysRtSigreturn t with
    | restored v =>
      rw [returns] at back
      exact congrArg _ (Option.some.inj back)
    | failed | refused => exact absurd back (by simp [returns, Sigreturn.task])
  obtain ⟨-, once, -, -, clean, -, mask⟩ :=
    sigreturn_only_newest program ⟨rfl, rfl, rfl⟩ rewritten t u runs back
  exact ⟨t, u, runs, back, once, clean, mask⟩

end UzOS.Kernel
