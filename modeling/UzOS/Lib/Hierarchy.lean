import Mathlib

/-! Named trees kept by parent pointers and child lists, over any type of
nodes: how far a node hangs below another, and what inserting, removing,
re-hanging and swapping nodes do to that. -/
namespace UzOS

open Function List

variable {α ν : Type}

/-- A node outside the tree has no parent; the root is its own parent. -/
structure Hierarchy (α ν : Type) where
  root : α
  parent : α → Option α
  children : α → List α
  name : α → ν

namespace Hierarchy

/-- `x` hangs below `a`, and the names on the way weigh `n` in all. -/
inductive Below (h : Hierarchy α ν) (w : ν → Nat) (a : α) : α → Nat → Prop where
  | here : Below h w a a 0
  | step {c p : α} {n : Nat} (inner : c ≠ h.root) (up : h.parent c = some p)
      (above : Below h w a p n) : Below h w a c (n + w (h.name c))

/-- Every node of the tree hangs below the root, by no more than `limit`. -/
def Within (h : Hierarchy α ν) (w : ν → Nat) (limit : Nat) : Prop :=
  ∀ x, h.parent x ≠ none → ∃ n ≤ limit, h.Below w h.root x n

structure Valid (h : Hierarchy α ν) : Prop where
  top : h.parent h.root = some h.root
  unlisted : ∀ p, h.root ∉ h.children p
  listed : ∀ p c, c ≠ h.root → (c ∈ h.children p ↔ h.parent c = some p)
  nodup : ∀ p, (h.children p).Nodup
  names : ∀ p, ∀ c ∈ h.children p, ∀ d ∈ h.children p, h.name c = h.name d → c = d

variable {h g : Hierarchy α ν} {w : ν → Nat} {limit : Nat}

variable {n m k j : Nat}

theorem Below.trans {a b c : α} (upper : h.Below w a b n) (lower : h.Below w b c m) :
    h.Below w a c (n + m) := by
  induction lower with
  | here => exact upper
  | step inner up _ ih =>
    rw [← add_assoc]
    exact .step inner up ih

variable {x : α}

theorem Below.unique (one : h.Below w h.root x n) (other : h.Below w h.root x m) : n = m := by
  induction one generalizing m with
  | here =>
    cases other with
    | here => rfl
    | step inner => exact absurd rfl inner
  | step inner up _ ih =>
    cases other with
    | here => exact absurd rfl inner
    | step _ same above =>
      cases up.symm.trans same
      rw [ih above]

/-- The other weights have a derivation of the same shape. -/
theorem Below.reweigh (v : ν → Nat) {a x : α} (below : h.Below w a x n) : ∃ m, h.Below v a x m := by
  induction below with
  | here => exact ⟨0, .here⟩
  | step inner up _ ih =>
    obtain ⟨m, above⟩ := ih
    exact ⟨_, .step inner up above⟩

/-- Seen from the top: the node itself, or something below one of its children. -/
theorem Below.split {a x : α} (below : h.Below w a x n) :
    (x = a ∧ n = 0) ∨ ∃ c m, c ≠ h.root ∧ h.parent c = some a ∧ h.Below w c x m ∧
      n = w (h.name c) + m := by
  induction below with
  | here => exact .inl ⟨rfl, rfl⟩
  | @step c p n inner up above ih =>
    refine .inr ?_
    obtain ⟨rfl, rfl⟩ | ⟨d, m, outer, top, rest, rfl⟩ := ih
    · exact ⟨c, 0, inner, up, .here, add_comm _ _⟩
    · exact ⟨d, _, outer, top, .step inner up rest, add_assoc _ _ _⟩

theorem Below.parent_ne_none {a x : α} (below : h.Below w a x n) (inTree : h.parent a ≠ none) :
    h.parent x ≠ none := by
  cases below with
  | here => exact inTree
  | step _ up => simp [up]

/-- In a tree nothing hangs below itself. -/
theorem Within.acyclic (within : h.Within w limit) (below : h.Below w x x n) : n = 0 := by
  cases below with
  | here => rfl
  | step inner up above =>
    obtain ⟨m, _, fromRoot⟩ := within x (by simp [up])
    have twice := fromRoot.unique (fromRoot.trans (.step inner up above))
    omega

theorem Below.leaf {a x : α} (leaf : ∀ c, c ≠ h.root → h.parent c ≠ some a)
    (below : h.Below w a x n) : x = a ∧ n = 0 := by
  obtain itself | ⟨c, _, inner, up, _⟩ := below.split
  · exact itself
  · exact absurd up (leaf c inner)

/-- A parent is not below its child. -/
theorem Within.parent_clear (within : h.Within w limit) (positive : ∀ c, 0 < w c) {x p : α}
    (inner : x ≠ h.root) (up : h.parent x = some p) (m : Nat) : ¬ h.Below w x p m := by
  intro below
  have zero := within.acyclic (.step inner up below)
  have some_weight := positive (h.name x)
  omega

/-- The same tree: names outside it do not count. -/
structure Agree (h g : Hierarchy α ν) : Prop where
  root : g.root = h.root
  parent : g.parent = h.parent
  children : g.children = h.children
  name : ∀ x, h.parent x ≠ none → g.name x = h.name x

theorem Valid.agree (valid : h.Valid) (agree : Agree h g) : g.Valid := by
  obtain ⟨root, parent, children, name⟩ := agree
  have listed : ∀ p, ∀ c ∈ h.children p, g.name c = h.name c := by
    intro p c member
    apply name
    have inner : c ≠ h.root := by
      rintro rfl
      exact valid.unlisted p member
    simp [(valid.listed p c inner).mp member]
  constructor
  · rw [root, parent]
    exact valid.top
  · rw [root, children]
    exact valid.unlisted
  · rw [root, parent, children]
    exact valid.listed
  · rw [children]
    exact valid.nodup
  · rw [children]
    intro p c first d second
    rw [listed p c first, listed p d second]
    exact valid.names p c first d second

theorem Below.agree (agree : Agree h g) {a x : α} (below : h.Below w a x n) : g.Below w a x n := by
  induction below with
  | here => exact .here
  | @step c p n inner up _ ih =>
    rw [← agree.name c (by simp [up])]
    exact .step (agree.root ▸ inner) (agree.parent ▸ up) ih

theorem Within.agree (within : h.Within w limit) (agree : Agree h g) : g.Within w limit := by
  intro x inTree
  obtain ⟨n, small, below⟩ := within x (agree.parent ▸ inTree)
  exact ⟨n, small, agree.root ▸ below.agree agree⟩

/-- Only the `moved` nodes have another parent or name in `g`. -/
structure SameBut (moved : α → Prop) (h g : Hierarchy α ν) : Prop where
  root : g.root = h.root
  parent : ∀ c, ¬ moved c → g.parent c = h.parent c
  name : ∀ c, ¬ moved c → g.name c = h.name c

/-- A node keeps its place when no moved node is above it. -/
theorem Below.outside {moved : α → Prop} (same : SameBut moved h g)
    (below : h.Below w h.root x n) (clear : ∀ s m, moved s → ¬ h.Below w s x m) :
    g.Below w g.root x n := by
  induction below with
  | here =>
    rw [same.root]
    exact .here
  | @step c p n inner up _ ih =>
    have still : ¬ moved c := fun s => clear c 0 s .here
    rw [← same.name c still]
    exact .step (same.root ▸ inner) ((same.parent c still).trans up) (ih fun s m isMoved above =>
      clear s _ isMoved (.step inner up above))

/-- What hangs below a moved node goes with it. -/
theorem Below.inside {moved : α → Prop} (same : SameBut moved h g) (positive : ∀ c, 0 < w c)
    {s x : α} (below : h.Below w s x n) (apart : ∀ t m, moved t → h.Below w s t m → m = 0)
    (placed : g.Below w g.root s k) : g.Below w g.root x (k + n) := by
  induction below with
  | here => exact placed
  | @step c p n inner up above ih =>
    have still : ¬ moved c := by
      intro isMoved
      have zero := apart c _ isMoved (.step inner up above)
      have some_weight := positive (h.name c)
      omega
    rw [← add_assoc, ← same.name c still]
    exact .step (same.root ▸ inner) ((same.parent c still).trans up) ih

/-- A moved node `s` hangs below `q` now, which does not move itself. -/
structure Hung (h g : Hierarchy α ν) (w : ν → Nat) (moved : α → Prop) (s q : α) (k : Nat) :
    Prop where
  inner : s ≠ h.root
  apart : ∀ t m, moved t → h.Below w s t m → m = 0
  up : g.parent s = some q
  fromRoot : h.Below w h.root q k
  clear : ∀ t m, moved t → ¬ h.Below w t q m

theorem Hung.below {moved : α → Prop} {s q x : α} (hung : Hung h g w moved s q k)
    (same : SameBut moved h g) (positive : ∀ c, 0 < w c) (below : h.Below w s x m) :
    g.Below w g.root x (k + w (g.name s) + m) :=
  below.inside same positive hung.apart
    (.step (same.root ▸ hung.inner) hung.up (hung.fromRoot.outside same hung.clear))

/-- Every moved node has room for everything that comes along. -/
theorem Within.rehung {moved : α → Prop} (same : SameBut moved h g)
    (positive : ∀ c, 0 < w c) (within : h.Within w limit)
    (hung : ∀ s, moved s → ∃ q k, Hung h g w moved s q k ∧
      ∀ x m, h.Below w s x m → k + w (g.name s) + m ≤ limit) : g.Within w limit := by
  intro x inTree
  by_cases below : ∃ s m, moved s ∧ h.Below w s x m
  · obtain ⟨s, m, isMoved, below⟩ := below
    obtain ⟨q, k, hung, fits⟩ := hung s isMoved
    exact ⟨_, fits x m below, hung.below same positive below⟩
  have clear : ∀ s m, moved s → ¬ h.Below w s x m := fun s m isMoved b => below ⟨s, m, isMoved, b⟩
  have still : ¬ moved x := fun isMoved => clear x 0 isMoved .here
  obtain ⟨n, small, fromRoot⟩ := within x (same.parent x still ▸ inTree)
  exact ⟨n, small, fromRoot.outside same clear⟩

/-- One node moves below `q`, which is not below it. -/
theorem Within.moved {x q : α} (same : SameBut (fun c => c = x) h g) (positive : ∀ c, 0 < w c)
    (within : h.Within w limit) (inner : x ≠ h.root) (up : g.parent x = some q)
    (fromRoot : h.Below w h.root q k) (clear : ∀ m, ¬ h.Below w x q m)
    (fits : ∀ y m, h.Below w x y m → k + w (g.name x) + m ≤ limit) : g.Within w limit := by
  apply within.rehung same positive
  rintro s rfl
  refine ⟨q, k, ⟨inner, ?_, up, fromRoot, ?_⟩, fits⟩
  · rintro t m rfl below
    exact within.acyclic below
  · rintro t m rfl
    exact clear m

/-- Two nodes, neither below the other, with their parents. -/
structure Swappable (h : Hierarchy α ν) (w : ν → Nat) (a b p q : α) (j k : Nat) : Prop where
  innerA : a ≠ h.root
  innerB : b ≠ h.root
  upA : h.parent a = some p
  upB : h.parent b = some q
  placeA : h.Below w h.root p j
  placeB : h.Below w h.root q k
  clearA : ∀ m, ¬ h.Below w a b m
  clearB : ∀ m, ¬ h.Below w b a m

variable {a b p q : α}

theorem Swappable.symm (pair : Swappable h w a b p q j k) : Swappable h w b a q p k j :=
  ⟨pair.innerB, pair.innerA, pair.upB, pair.upA, pair.placeB, pair.placeA, pair.clearB, pair.clearA⟩

/-- One side of a swap. -/
theorem Swappable.hung (pair : Swappable h w a b p q j k) (within : h.Within w limit)
    (positive : ∀ c, 0 < w c) (parent : g.parent a = some q) :
    Hung h g w (fun c => c = a ∨ c = b) a q k := by
  refine ⟨pair.innerA, ?_, parent, pair.placeB, ?_⟩
  · rintro t m (rfl | rfl) below
    · exact within.acyclic below
    · exact absurd below (pair.clearA m)
  · rintro t m (rfl | rfl) below
    · exact pair.clearA _ (.step pair.innerB pair.upB below)
    · exact within.parent_clear positive pair.innerB pair.upB m below

/-! Operations. -/

variable [DecidableEq α]

/-- Hang the new node `x` below `p` under the name `n`. -/
def insert (h : Hierarchy α ν) (x p : α) (n : ν) : Hierarchy α ν where
  root := h.root
  parent := Function.update h.parent x (some p)
  children := Function.update h.children p (h.children p ++ [x])
  name := Function.update h.name x n

/-- Take `x` out of the tree. -/
def detach (h : Hierarchy α ν) (x : α) : Hierarchy α ν where
  root := h.root
  parent := Function.update h.parent x none
  children := fun p => (h.children p).erase x
  name := h.name

/-- Move `x` to another parent. -/
def rehang (h : Hierarchy α ν) (x q : α) (n : ν) : Hierarchy α ν where
  root := h.root
  parent := Function.update h.parent x (some q)
  children := fun p => if p = q then h.children q ++ [x] else (h.children p).erase x
  name := Function.update h.name x n

def rename (h : Hierarchy α ν) (x : α) (n : ν) : Hierarchy α ν :=
  { h with name := Function.update h.name x n }

/-- `a` and `b` take each other's place and name. -/
def swap (h : Hierarchy α ν) (a b : α) : Hierarchy α ν where
  root := h.root
  parent := fun x => h.parent (Equiv.swap a b x)
  children := fun p => (h.children p).map (Equiv.swap a b)
  name := fun x => h.name (Equiv.swap a b x)

variable {l : List α} {a b : α}

/-- Overwriting the slot of `a` by `b` in a list without `b`. -/
theorem set_eq_map_swap {i : Nat} (nodup : l.Nodup)
    (slot : l.idxOf? a = some i) (absent : b ∉ l) : l.set i b = l.map (Equiv.swap a b) := by
  obtain ⟨inside, rfl, _⟩ := List.idxOf?_eq_some_iff.mp slot
  apply ext_getElem (by simp)
  intro k _ high
  rw [length_map] at high
  have other : l[k] ≠ b := fun same => absent (same ▸ getElem_mem high)
  rw [getElem_set, getElem_map]
  split
  · rename_i here
    subst here
    simp
  rename_i elsewhere
  refine (Equiv.swap_apply_of_ne_of_ne ?_ other).symm
  exact fun same => elsewhere (nodup.getElem_inj_iff.mp same).symm

/-- Overwriting both slots in one list. -/
theorem set_set_eq_map_swap {i : Nat} (nodup : l.Nodup)
    (slotA : l.idxOf? a = some i) (slotB : l.idxOf? b = some j) :
    (l.set i b).set j a = l.map (Equiv.swap a b) := by
  obtain ⟨insideA, rfl, _⟩ := List.idxOf?_eq_some_iff.mp slotA
  obtain ⟨insideB, rfl, _⟩ := List.idxOf?_eq_some_iff.mp slotB
  apply ext_getElem (by simp)
  intro k _ high
  rw [getElem_set, getElem_set, getElem_map]
  split
  · rename_i here
    subst here
    simp
  rename_i notB
  split
  · rename_i here
    subst here
    simp
  rename_i notA
  refine (Equiv.swap_apply_of_ne_of_ne ?_ ?_).symm
  · exact fun same => notA (nodup.getElem_inj_iff.mp same).symm
  · exact fun same => notB (nodup.getElem_inj_iff.mp same).symm

theorem map_swap_eq_self (absentA : a ∉ l) (absentB : b ∉ l) : l.map (Equiv.swap a b) = l := by
  conv_rhs => rw [← map_id l]
  apply map_congr_left
  intro c member
  exact Equiv.swap_apply_of_ne_of_ne (fun same => absentA (same ▸ member))
    (fun same => absentB (same ▸ member))

theorem Valid.unlisted_of_none (valid : h.Valid) (out : h.parent x = none) (p : α) :
    x ∉ h.children p := by
  intro member
  by_cases root : x = h.root
  · exact valid.unlisted p (root ▸ member)
  · cases out.symm.trans ((valid.listed p x root).mp member)

variable {n : ν}

theorem Valid.insert (valid : h.Valid) {x p : α} (out : h.parent x = none)
    (free : ∀ c ∈ h.children p, h.name c ≠ n) : (h.insert x p n).Valid := by
  have inner : x ≠ h.root := by
    rintro rfl
    cases out.symm.trans valid.top
  have fresh := valid.unlisted_of_none out
  constructor
  · simp [Hierarchy.insert, update_of_ne inner.symm, valid.top]
  · intro q
    by_cases here : q = p
    · subst here
      simp [Hierarchy.insert, valid.unlisted, inner.symm]
    · simp [Hierarchy.insert, here, valid.unlisted]
  · intro q c notRoot
    by_cases new : c = x
    · subst new
      by_cases here : q = p
      · subst here
        simp [Hierarchy.insert]
      · simp [Hierarchy.insert, here, fresh, Ne.symm here]
    · by_cases here : q = p
      · subst here
        simp [Hierarchy.insert, new, valid.listed q c notRoot]
      · simp [Hierarchy.insert, here, new, valid.listed q c notRoot]
  · intro q
    by_cases here : q = p
    · subst here
      simpa [Hierarchy.insert, nodup_append] using
        ⟨valid.nodup q, fun c member same => fresh q (same ▸ member)⟩
    · simpa [Hierarchy.insert, here] using valid.nodup q
  · intro q c first d second
    have old : ∀ c ∈ h.children q, (h.insert x p n).name c = h.name c := fun c member =>
      update_of_ne (fun (e : c = x) => fresh q (e ▸ member)) _ _
    have new : (h.insert x p n).name x = n := update_self ..
    by_cases here : q = p
    · subst here
      simp only [Hierarchy.insert, update_self, mem_append, mem_singleton] at first second
      obtain first | rfl := first <;> obtain second | rfl := second
      · rw [old c first, old d second]
        exact valid.names q c first d second
      · rw [old c first, new]
        exact fun same => absurd same (free c first)
      · rw [new, old d second]
        exact fun same => absurd same.symm (free d second)
      · exact fun _ => rfl
    · simp only [Hierarchy.insert, update_of_ne here] at first second
      rw [old c first, old d second]
      exact valid.names q c first d second

theorem Valid.detach (valid : h.Valid) (inner : x ≠ h.root) : (h.detach x).Valid := by
  constructor
  · simp [Hierarchy.detach, update_of_ne inner.symm, valid.top]
  · exact fun p member => valid.unlisted p (mem_of_mem_erase member)
  · intro p c notRoot
    by_cases gone : c = x
    · subst gone
      simp [Hierarchy.detach, (valid.nodup p).mem_erase_iff]
    · simp [Hierarchy.detach, gone, valid.listed p c notRoot]
  · exact fun p => (valid.nodup p).erase x
  · exact fun p c first d second =>
      valid.names p c (mem_of_mem_erase first) d (mem_of_mem_erase second)

theorem Valid.rename (valid : h.Valid)
    (free : ∀ p, x ∈ h.children p → ∀ c ∈ h.children p, c ≠ x → h.name c ≠ n) :
    (h.rename x n).Valid := by
  refine ⟨valid.top, valid.unlisted, valid.listed, valid.nodup, ?_⟩
  intro p c first d second same
  by_cases one : c = x <;> by_cases two : d = x
  · rw [one, two]
  · subst one
    simp only [Hierarchy.rename, update_self, update_of_ne two] at same
    exact absurd same.symm (free p first d second two)
  · subst two
    simp only [Hierarchy.rename, update_self, update_of_ne one] at same
    exact absurd same (free p second c first one)
  · simp only [Hierarchy.rename, update_of_ne one, update_of_ne two] at same
    exact valid.names p c first d second same

/-- Moving to another parent is taking out and inserting again. -/
theorem rehang_eq (h : Hierarchy α ν) (x q : α) (n : ν) (away : x ∉ h.children q) :
    h.rehang x q n = (h.detach x).insert x q n := by
  simp only [rehang, insert, detach, update_idem, erase_of_not_mem away]
  congr 1
  funext p
  by_cases here : p = q
  · subst here
    simp
  · simp [here]

theorem Valid.rehang (valid : h.Valid) {x q : α} (inner : x ≠ h.root)
    (away : x ∉ h.children q) (free : ∀ c ∈ h.children q, h.name c ≠ n) :
    (h.rehang x q n).Valid := by
  rw [rehang_eq h x q n away]
  apply (valid.detach inner).insert
  · simp [Hierarchy.detach]
  · exact fun c member => free c (mem_of_mem_erase member)

theorem Valid.swap (valid : h.Valid) (innerA : a ≠ h.root) (innerB : b ≠ h.root) :
    (h.swap a b).Valid := by
  have fixed : Equiv.swap a b h.root = h.root :=
    Equiv.swap_apply_of_ne_of_ne innerA.symm innerB.symm
  have member : ∀ p c, c ∈ (h.swap a b).children p ↔ Equiv.swap a b c ∈ h.children p := by
    intro p c
    simp only [Hierarchy.swap, mem_map]
    constructor
    · rintro ⟨d, inside, rfl⟩
      simpa using inside
    · exact fun inside => ⟨_, inside, by simp⟩
  constructor
  · simp [Hierarchy.swap, fixed, valid.top]
  · intro p inside
    have := (member p _).mp inside
    simp only [Hierarchy.swap, fixed] at this
    exact valid.unlisted p this
  · intro p c notRoot
    rw [member p c]
    apply valid.listed
    intro isRoot
    apply notRoot
    rw [← Equiv.swap_apply_self a b c, isRoot]
    exact fixed
  · exact fun p => (valid.nodup p).map (Equiv.swap a b).injective
  · intro p c first d second same
    apply (Equiv.swap a b).injective
    exact valid.names p _ ((member p c).mp first) _ ((member p d).mp second) same

/-! Operations and limits. -/

theorem Within.insert (within : h.Within w limit) (positive : ∀ c, 0 < w c) {x p : α}
    {k : Nat} (inner : x ≠ h.root) (out : h.parent x = none)
    (leaf : ∀ c, c ≠ h.root → h.parent c ≠ some x) (fromRoot : h.Below w h.root p k)
    (fits : k + w n ≤ limit) : (h.insert x p n).Within w limit := by
  have same : SameBut (fun c => c = x) h (h.insert x p n) := by
    constructor <;> simp +contextual [Hierarchy.insert]
  refine within.moved (q := p) same positive inner ?_ fromRoot ?_ ?_
  · simp [Hierarchy.insert]
  · intro m below
    obtain ⟨rfl, _⟩ := below.leaf leaf
    cases fromRoot with
    | here => exact inner rfl
    | step _ up => cases out.symm.trans up
  · intro y m below
    obtain ⟨_, rfl⟩ := below.leaf leaf
    simpa [Hierarchy.insert] using fits

theorem Within.detach (within : h.Within w limit)
    (leaf : ∀ c, c ≠ h.root → h.parent c ≠ some x) : (h.detach x).Within w limit := by
  have same : SameBut (fun c => c = x) h (h.detach x) := by
    constructor <;> simp +contextual [Hierarchy.detach]
  intro y inTree
  have other : y ≠ x := by
    rintro rfl
    simp [Hierarchy.detach] at inTree
  obtain ⟨n, small, fromRoot⟩ := within y (same.parent y other ▸ inTree)
  refine ⟨n, small, fromRoot.outside same ?_⟩
  rintro s m rfl below
  exact other (below.leaf leaf).1

theorem Within.rehang (within : h.Within w limit) (positive : ∀ c, 0 < w c) {x q : α}
    (inner : x ≠ h.root) (fromRoot : h.Below w h.root q k) (clear : ∀ m, ¬ h.Below w x q m)
    (fits : ∀ y m, h.Below w x y m → k + w n + m ≤ limit) : (h.rehang x q n).Within w limit := by
  have same : SameBut (fun c => c = x) h (h.rehang x q n) := by
    constructor <;> simp +contextual [Hierarchy.rehang]
  refine within.moved (q := q) same positive inner ?_ fromRoot clear ?_
  · simp [Hierarchy.rehang]
  · simpa [Hierarchy.rehang] using fits

theorem Within.rename (within : h.Within w limit) (positive : ∀ c, 0 < w c) {x q : α}
    (inner : x ≠ h.root) (up : h.parent x = some q) (fromRoot : h.Below w h.root q k)
    (fits : ∀ y m, h.Below w x y m → k + w n + m ≤ limit) : (h.rename x n).Within w limit := by
  have same : SameBut (fun c => c = x) h (h.rename x n) := by
    constructor <;> simp +contextual [Hierarchy.rename]
  apply within.moved same positive inner up fromRoot (within.parent_clear positive inner up)
  simpa [Hierarchy.rename] using fits

theorem swap_comm (h : Hierarchy α ν) (a b : α) : h.swap a b = h.swap b a := by
  simp only [swap, Equiv.swap_comm]

theorem swap_sameBut (h : Hierarchy α ν) (a b : α) :
    SameBut (fun c => c = a ∨ c = b) h (h.swap a b) := by
  have fixed : ∀ c, ¬ (c = a ∨ c = b) → Equiv.swap a b c = c := by
    intro c still
    rw [not_or] at still
    exact Equiv.swap_apply_of_ne_of_ne still.1 still.2
  exact ⟨rfl, fun c still => congrArg h.parent (fixed c still),
    fun c still => congrArg h.name (fixed c still)⟩

/-- What was below `a` hangs where `b` was. -/
theorem Swappable.below {a b p q x : α} (pair : Swappable h w a b p q j k)
    (within : h.Within w limit) (positive : ∀ c, 0 < w c) (below : h.Below w a x m) :
    (h.swap a b).Below w h.root x (k + w (h.name b) + m) := by
  have hung := pair.hung within positive (g := h.swap a b) (by simp [swap, pair.upB])
  simpa [swap] using hung.below (swap_sameBut h a b) positive below

/-- A swap stays within the limit exactly when both sides fit. -/
theorem Within.swap_iff (within : h.Within w limit) (positive : ∀ c, 0 < w c)
    (pair : Swappable h w a b p q j k) (top : h.parent h.root = some h.root) :
    (h.swap a b).Within w limit ↔
      (∀ y m, h.Below w a y m → k + w (h.name b) + m ≤ limit) ∧
      (∀ y m, h.Below w b y m → j + w (h.name a) + m ≤ limit) := by
  constructor
  · intro after
    have placed : ∀ y n, (h.swap a b).Below w h.root y n → n ≤ limit := by
      intro y n below
      have fixed : Equiv.swap a b h.root = h.root :=
        Equiv.swap_apply_of_ne_of_ne pair.innerA.symm pair.innerB.symm
      obtain ⟨n', small, same⟩ := after y (below.parent_ne_none (by simp [swap, fixed, top]))
      exact Below.unique below same ▸ small
    refine ⟨fun y m below => placed y _ (pair.below within positive below), fun y m below => ?_⟩
    have other := pair.symm.below within positive below
    rw [swap_comm] at other
    exact placed y _ other
  · rintro ⟨fitsA, fitsB⟩
    apply within.rehung (swap_sameBut h a b) positive
    rintro s (rfl | rfl)
    · exact ⟨q, k, pair.hung within positive (by simp [swap, pair.upB]), by simpa [swap] using fitsA⟩
    · refine ⟨p, j, ?_, by simpa [swap] using fitsB⟩
      have hung := pair.symm.hung within positive (g := h.swap a s) (by simp [swap, pair.upA])
      simpa only [or_comm] using hung

end Hierarchy
end UzOS
