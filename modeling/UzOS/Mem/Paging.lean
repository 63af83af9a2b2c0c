import UzOS.Lib.Slots

/-! Frames of physical memory (core/pmm/pmm.c) and the page tables of the user half of
the address space (core/vmm/vmm.c). Every page there is mapped for ring 3, and no page
of the kernel lies there. -/
namespace UzOS.Umem

/-- `used` is the bitmap; frame 0 is among the reserved ones. `tables` and `pages` give
the frame behind a present entry of the directory and of its tables. -/
structure Paging where
  total : Nat
  reserved : Nat → Bool
  used : Nat → Bool
  tables : Nat → Option Nat := fun _ => none
  pages : Nat → Option Nat := fun _ => none

def pagesPerTable : Nat := 1024

variable (s : Paging)

def pmmAllocBlock : Option (Paging × Nat) :=
  ((List.range s.total).find? fun f => !s.used f).map fun f =>
    ({ s with used := Function.update s.used f true }, f)

/-- DEFENCE pmm_free_guard: real RAM, not reserved, in use. -/
def defPmmFreeOk (f : Nat) : Bool := decide (f < s.total) && !s.reserved f && s.used f

def pmmFreeBlock (f : Nat) : Paging :=
  if defPmmFreeOk s f then { s with used := Function.update s.used f false } else s

/-- `none` when there is no frame for a page table. -/
def vmmMapPage (p f : Nat) : Option Paging :=
  match s.tables (p / pagesPerTable) with
  | some _ => some { s with pages := Function.update s.pages p (some f) }
  | none => (pmmAllocBlock s).map fun made =>
    let empty (q : Nat) : Option Nat :=
      if q / pagesPerTable = p / pagesPerTable then none else s.pages q
    { made.1 with
      tables := Function.update s.tables (p / pagesPerTable) (some made.2)
      pages := Function.update empty p (some f) }

def tableIsEmpty (d : Nat) : Bool :=
  (List.range pagesPerTable).all fun i => (s.pages (d * pagesPerTable + i)).isNone

def vmmUnmapPage (p : Nat) : Paging :=
  match s.tables (p / pagesPerTable) with
  | none => s
  | some t =>
    let s := { s with pages := Function.update s.pages p none }
    -- the last page of the table: its frame goes back too
    if tableIsEmpty s (p / pagesPerTable) then
      pmmFreeBlock { s with tables := Function.update s.tables (p / pagesPerTable) none } t
    else s

def vmmWalk (p : Nat) : Option Nat :=
  match s.tables (p / pagesPerTable) with
  | none => none
  | some _ => s.pages p

variable {s s' : Paging} {p q f g : Nat}

/-- No page has a frame that is free, and no two pages have one frame. -/
structure Backed (s : Paging) : Prop where
  used : ∀ p f, vmmWalk s p = some f → s.used f = true
  only : ∀ p q f, vmmWalk s p = some f → vmmWalk s q = some f → p = q

theorem pmmAllocBlock_spec (made : pmmAllocBlock s = some (s', f)) :
    s.used f = false ∧ s' = { s with used := Function.update s.used f true } := by
  obtain ⟨g, found, eq⟩ := Option.map_eq_some_iff.mp made
  cases eq
  exact ⟨by simpa using List.find?_some found, rfl⟩

/-- The page gets the frame, and the other pages keep theirs. -/
theorem vmmMapPage_walk (maps : vmmMapPage s p f = some s') (q : Nat) :
    vmmWalk s' q = if q = p then some f else vmmWalk s q := by
  unfold vmmMapPage at maps
  cases table : s.tables (p / pagesPerTable) with
  | some t =>
    rw [table] at maps
    obtain rfl := Option.some.inj maps
    by_cases here : q = p
    · simp [vmmWalk, here, table]
    · simp [vmmWalk, here]
  | none =>
    rw [table] at maps
    obtain ⟨made, -, rfl⟩ := Option.map_eq_some_iff.mp maps
    by_cases here : q = p
    · simp [vmmWalk, here]
    by_cases near : q / pagesPerTable = p / pagesPerTable
    · simp [vmmWalk, here, near, table]
    · simp [vmmWalk, here, near]

theorem vmmMapPage_used (maps : vmmMapPage s p f = some s') (taken : s.used g) :
    s'.used g := by
  unfold vmmMapPage at maps
  split at maps
  · obtain rfl := Option.some.inj maps
    exact taken
  obtain ⟨made, alloc, rfl⟩ := Option.map_eq_some_iff.mp maps
  obtain ⟨-, rest⟩ := pmmAllocBlock_spec alloc
  by_cases here : g = made.2 <;> simp [rest, here, taken]

/-- A fresh frame goes behind one more page. -/
theorem Backed.map {fresh : Paging} (h : Backed s) (made : pmmAllocBlock s = some (fresh, f))
    (maps : vmmMapPage fresh p f = some s') : Backed s' := by
  obtain ⟨free, rfl⟩ := pmmAllocBlock_spec made
  have walks := vmmMapPage_walk maps
  have nobody (q : Nat) : vmmWalk s q ≠ some f := by
    intro there
    rw [h.used q f there] at free
    cases free
  constructor
  · intro q g there
    apply vmmMapPage_used maps
    rw [walks] at there
    split at there
    · cases there
      simp
    have other : g ≠ f := fun same => nobody q (same ▸ there)
    simpa [other] using h.used q g there
  · intro q r g there back
    rw [walks] at there back
    split at there <;> split at back
    · next first second => exact first.trans second.symm
    · cases there
      exact absurd back (nobody r)
    · cases back
      exact absurd there (nobody q)
    · exact h.only q r g there back

end UzOS.Umem
