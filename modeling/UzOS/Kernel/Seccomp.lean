import UzOS.Kernel.Life

/-! The seccomp sandbox: syscalls/seccomp/sys_seccomp.c, the defence
seccomp_filter, and the gate in syscalls/handler/syscall_handler.c. -/
namespace UzOS.Kernel

def seccompRetKillThread : U32 := 0x00000000
def seccompRetKillProcess : U32 := 0x80000000
def seccompRetErrno : U32 := 0x00050000
def seccompRetAllow : U32 := 0x7FFF0000

def nrExit : U32 := 1
def nrRead : U32 := 15
def nrWrite : U32 := 16
def nrRtSigreturn : U32 := 76
def nrSeccomp : U32 := 90

def seccompSetModeStrict : U32 := 0
def seccompSetModeFilter : U32 := 1

def sigsys : U32 := 31
def capSetuid : U32 := 1

structure SeccompList where
  action : U32
  allow : Fin 4 → U32

def strictAllows (nr : U32) : Bool :=
  nr == nrRead || nr == nrWrite || nr == nrExit || nr == nrRtSigreturn

def filterAllows (allow : Fin 4 → U32) (nr : U32) : Bool :=
  decide (nr < 128) && (allow (Fin.ofNat 4 (nr.toNat / 32))).getLsbD (nr.toNat % 32)

/-- allowed() of seccomp_filter -/
def Process.seccompAllowed (p : Process) (nr : U32) : Bool :=
  match p.seccompMode with
  | .strict => strictAllows nr
  | .filter => filterAllows p.seccompAllow nr
  | .off => true

def defSeccompAction (p : Process) : U32 :=
  if p.seccompMode = .strict then seccompRetKillProcess else p.seccompAction

def killsCaller (action : U32) : Bool :=
  action == seccompRetKillThread || action == seccompRetKillProcess

def actionKnown (a : U32) : Bool :=
  killsCaller a || a &&& 0xFFFF0000 == seccompRetErrno || a == seccompRetAllow

/-- Killing beats failing beats allowing. -/
def stricter (a b : U32) : U32 :=
  if killsCaller a || killsCaller b then seccompRetKillProcess
  else if a = seccompRetAllow then b
  else a

/-- no_new_privs -/
def defNnpSeccompOk (p : Process) : Bool := p.noNewPrivs || Proc.capsHas p.uid capSetuid

def Process.addFilter (p : Process) (list : SeccompList) : Process :=
  let first := p.seccompMode ≠ .filter
  { p with
    seccompAllow := fun k => (if first then 0xFFFFFFFF else p.seccompAllow k) &&& list.allow k
    seccompAction := stricter (if first then seccompRetAllow else p.seccompAction) list.action
    seccompMode := .filter }

/-- What sys_seccomp does to its caller; `args` is `none` for a null pointer. -/
def Process.seccomp (p : Process) (op flags : U32) (args : Option SeccompList) : Process :=
  if flags ≠ 0 then p
  else if op = seccompSetModeStrict then
    match args with
    | some _ => p
    | none => { p with seccompMode := .strict }
  else if op = seccompSetModeFilter then
    match args with
    | none => p
    | some list =>
      if !actionKnown list.action then p
      else if p.seccompMode = .strict then p
      else if !defNnpSeccompOk p then p
      else p.addFilter list
  else p

/-- sandbox_allows: `none` lets the call go on. -/
def sandboxRefuses (m : Machine) (self : Slot) (nr : U32) : Option Machine :=
  let p := m.table self
  if p.seccompMode = .off ∨ p.seccompAllowed nr then none
  else if killsCaller (defSeccompAction p) then some (endWith m self (sigsys ||| coreDump))
  else some m

/-- seccomp() through the system call gate. -/
def doSeccomp (m : Machine) (self : Slot) (op flags : U32) (args : Option SeccompList) : Machine :=
  match sandboxRefuses m self nrSeccomp with
  | some refused => refused
  | none => m.setProcess self ((m.table self).seccomp op flags args)

end UzOS.Kernel
