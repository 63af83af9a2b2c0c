import Mathlib

/-! A stretch of addresses tiled by blocks, each a header of `H` bytes and the
data after it; first fit with splitting, and merging of free neighbours. -/
namespace UzOS.Tiling

open List

structure Block where
  addr : Nat
  size : Nat
  free : Bool

def Block.finish (H : Nat) (b : Block) : Nat := b.addr + H + b.size

/-- The blocks follow each other from the first address up to the second. -/
inductive Tiles (H : Nat) : Nat → List Block → Nat → Prop where
  | nil (a : Nat) : Tiles H a [] a
  | cons {b : Block} {rest : List Block} {stop : Nat} (tail : Tiles H (b.finish H) rest stop) :
      Tiles H b.addr (b :: rest) stop

/-- No two neighbours are both free. -/
def Merged : List Block → Prop := List.IsChain fun b c => ¬ (b.free = true ∧ c.free = true)

/-- All data sizes are multiples of `k`. -/
def Multiples (k : Nat) (bs : List Block) : Prop := ∀ b ∈ bs, k ∣ b.size

section
variable {H start stop : Nat} {bs : List Block} {b c : Block}

section
variable (tiles : Tiles H start bs stop)
include tiles

theorem Tiles.le : start ≤ stop := by
  induction tiles with
  | nil => exact le_refl _
  | cons _ ih =>
    simp only [Block.finish] at ih
    omega

theorem Tiles.bounds (member : b ∈ bs) : start ≤ b.addr ∧ b.finish H ≤ stop := by
  induction tiles with
  | nil => cases member
  | @cons head rest stop tail ih =>
    obtain rfl | later := mem_cons.mp member
    · exact ⟨le_refl _, tail.le⟩
    obtain ⟨low, high⟩ := ih later
    simp only [Block.finish] at low
    exact ⟨by omega, high⟩

theorem Tiles.length_le : start + H * bs.length ≤ stop := by
  induction tiles with
  | nil => simp
  | @cons head rest stop tail ih =>
    simp only [Block.finish] at ih
    rw [length_cons, Nat.mul_succ]
    omega

/-- Two blocks are the same one, or one ends before the other starts. -/
theorem Tiles.apart (first : b ∈ bs) (second : c ∈ bs) :
    b = c ∨ b.addr + H + b.size ≤ c.addr ∨ c.addr + H + c.size ≤ b.addr := by
  induction tiles with
  | nil => cases first
  | cons tail ih =>
    obtain rfl | later := mem_cons.mp first <;> obtain rfl | later' := mem_cons.mp second
    · exact .inl rfl
    · exact .inr (.inl (tail.bounds later').1)
    · exact .inr (.inr (tail.bounds later).1)
    · exact ih later later'

/-- Every address belongs to a block. -/
theorem Tiles.owner {x : Nat} (low : start ≤ x) (high : x < stop) :
    ∃ b ∈ bs, b.addr ≤ x ∧ x < b.finish H := by
  induction tiles with
  | nil => omega
  | @cons head rest stop tail ih =>
    by_cases here : x < head.finish H
    · exact ⟨head, mem_cons_self, low, here⟩
    obtain ⟨b, member, inside⟩ := ih (by omega) high
    exact ⟨b, mem_cons_of_mem _ member, inside⟩

end

theorem tiles_nil : Tiles H start [] stop ↔ start = stop := by
  constructor
  · intro tiles
    cases tiles
    rfl
  · rintro rfl
    exact .nil _

theorem tiles_cons :
    Tiles H start (b :: bs) stop ↔ start = b.addr ∧ Tiles H (b.finish H) bs stop := by
  constructor
  · intro tiles
    cases tiles with
    | cons tail => exact ⟨rfl, tail⟩
  · rintro ⟨rfl, tail⟩
    exact .cons tail

theorem Tiles.addr_multiple {k : Nat} (tiles : Tiles H start bs stop) (sizes : Multiples k bs)
    (first : k ∣ start) (header : k ∣ H) (member : b ∈ bs) : k ∣ b.addr := by
  induction tiles with
  | nil => cases member
  | @cons head rest stop tail ih =>
    obtain rfl | later := mem_cons.mp member
    · exact first
    obtain ⟨size, sizes⟩ := forall_mem_cons.mp sizes
    exact ih sizes (Nat.dvd_add (Nat.dvd_add first header) size) later

theorem merged_cons_cons : Merged (b :: c :: bs) ↔
    ¬ (b.free ∧ c.free) ∧ Merged (c :: bs) :=
  isChain_cons_cons

end

/-! First fit. -/

/-- Hand out the first free block that is large enough; what is left of it
becomes a block of its own if it has room for `spare` bytes. -/
def place (H spare n : Nat) : List Block → Option (Block × List Block)
  | [] => none
  | b :: rest =>
    if b.free = true ∧ n ≤ b.size then
      if n + H + spare ≤ b.size then
        some (⟨b.addr, n, false⟩,
          ⟨b.addr, n, false⟩ :: ⟨b.addr + H + n, b.size - n - H, true⟩ :: rest)
      else some ({ b with free := false }, { b with free := false } :: rest)
    else match place H spare n rest with
      | none => none
      | some (c, rest) => some (c, b :: rest)

theorem place_eq_none {H spare n : Nat} {bs : List Block} :
    place H spare n bs = none ↔ ∀ b ∈ bs, ¬ (b.free ∧ n ≤ b.size) := by
  induction bs with
  | nil => simp [place]
  | cons b rest ih =>
    rw [place, forall_mem_cons, ← ih]
    split
    · rename_i fits
      split <;> simp [fits]
    · rename_i tight
      cases place H spare n rest <;> simp [tight]

/-- The blocks before and after `c` is handed out. -/
structure Placed (H k n start stop : Nat) (bs : List Block) (c : Block) (bs' : List Block) :
    Prop where
  tiles : Tiles H start bs' stop
  sizes : Multiples k bs'
  merged : Merged bs → Merged bs'
  after : ∀ b, Merged (b :: bs) → Merged (b :: bs')
  member : c ∈ bs'
  used : c.free = false
  enough : n ≤ c.size
  origin : ∃ b ∈ bs, b.free = true ∧ b.addr = c.addr
  kept : ∀ b ∈ bs, b.free = false → b ∈ bs'

section
variable {H k n start stop : Nat} {rest rest' : List Block} {b c : Block}

theorem merged_tail (merged : Merged (b :: rest)) : Merged rest := List.IsChain.of_cons merged

theorem merged_used (used : b.free = false) (merged : Merged rest) : Merged (b :: rest) := by
  cases rest with
  | nil => exact List.IsChain.singleton _
  | cons c rest =>
    rw [merged_cons_cons]
    exact ⟨by simp [used], merged⟩

theorem Placed.split (tail : Tiles H (b.finish H) rest stop) (sizes : Multiples k (b :: rest))
    (header : k ∣ H) (amount : k ∣ n) (free : b.free) (fits : n + H ≤ b.size) :
    Placed H k n b.addr stop (b :: rest) ⟨b.addr, n, false⟩
      (⟨b.addr, n, false⟩ :: ⟨b.addr + H + n, b.size - n - H, true⟩ :: rest) := by
  obtain ⟨size, sizes⟩ := forall_mem_cons.mp sizes
  have remainder : Merged (b :: rest) → Merged (⟨b.addr + H + n, b.size - n - H, true⟩ :: rest) := by
    intro merged
    cases rest with
    | nil => exact List.IsChain.singleton _
    | cons c rest =>
      rw [merged_cons_cons, free] at merged
      rw [merged_cons_cons]
      exact merged
  constructor
  · rw [tiles_cons, tiles_cons]
    simp only [Block.finish] at tail ⊢
    rw [show b.addr + H + n + H + (b.size - n - H) = b.addr + H + b.size by omega]
    exact ⟨trivial, trivial, tail⟩
  · intro c member
    simp only [mem_cons] at member
    obtain rfl | rfl | later := member
    · exact amount
    · exact Nat.dvd_sub (Nat.dvd_sub size amount) header
    · exact sizes c later
  · exact fun merged => merged_used rfl (remainder merged)
  · intro x merged
    rw [merged_cons_cons] at merged ⊢
    exact ⟨by simp, merged_used rfl (remainder merged.2)⟩
  · exact mem_cons_self
  · rfl
  · exact le_refl n
  · exact ⟨b, mem_cons_self, free, rfl⟩
  · intro x member used
    obtain rfl | later := mem_cons.mp member
    · cases free.symm.trans used
    · exact mem_cons_of_mem _ (mem_cons_of_mem _ later)

theorem Placed.entire (tail : Tiles H (b.finish H) rest stop) (sizes : Multiples k (b :: rest))
    (free : b.free) (fits : n ≤ b.size) :
    Placed H k n b.addr stop (b :: rest) { b with free := false }
      ({ b with free := false } :: rest) := by
  obtain ⟨size, sizes⟩ := forall_mem_cons.mp sizes
  constructor
  · rw [tiles_cons]
    exact ⟨rfl, tail⟩
  · exact forall_mem_cons.mpr ⟨size, sizes⟩
  · exact fun merged => merged_used rfl (merged_tail merged)
  · intro x merged
    rw [merged_cons_cons] at merged ⊢
    exact ⟨by simp, merged_used rfl (merged_tail merged.2)⟩
  · exact mem_cons_self
  · rfl
  · exact fits
  · exact ⟨b, mem_cons_self, free, rfl⟩
  · intro x member used
    obtain rfl | later := mem_cons.mp member
    · cases free.symm.trans used
    · exact mem_cons_of_mem _ later

theorem Placed.later (placed : Placed H k n (b.finish H) stop rest c rest') (size : k ∣ b.size) :
    Placed H k n b.addr stop (b :: rest) c (b :: rest') where
  tiles := .cons placed.tiles
  sizes := forall_mem_cons.mpr ⟨size, placed.sizes⟩
  merged := placed.after b
  after x merged := by
    rw [merged_cons_cons] at merged ⊢
    exact ⟨merged.1, placed.after b merged.2⟩
  member := mem_cons_of_mem _ placed.member
  used := placed.used
  enough := placed.enough
  origin := by
    obtain ⟨x, member, free, addr⟩ := placed.origin
    exact ⟨x, mem_cons_of_mem _ member, free, addr⟩
  kept x member used := by
    obtain rfl | later := mem_cons.mp member
    · exact mem_cons_self
    · exact mem_cons_of_mem _ (placed.kept x later used)

theorem place_placed {spare : Nat} {bs bs' : List Block} (tiles : Tiles H start bs stop)
    (sizes : Multiples k bs) (header : k ∣ H) (amount : k ∣ n)
    (result : place H spare n bs = some (c, bs')) : Placed H k n start stop bs c bs' := by
  induction tiles generalizing bs' with
  | nil => cases result
  | @cons b rest stop tail ih =>
    simp only [place] at result
    split at result
    · rename_i fits
      split at result
      · cases result
        exact .split tail sizes header amount fits.1 (by omega)
      cases result
      exact .entire tail sizes fits.1 fits.2
    · split at result
      · cases result
      rename_i c' rest' found
      cases result
      obtain ⟨size, sizes⟩ := forall_mem_cons.mp sizes
      exact (ih sizes found).later size

end

/-! Giving a block back. -/

/-- Mark the block at `a` as free. -/
def release (a : Nat) (bs : List Block) : List Block :=
  bs.map fun b => if b.addr = a then { b with free := true } else b

section
variable {H k start stop a : Nat} {bs : List Block} {b c : Block}

theorem release_tiles (a : Nat) (tiles : Tiles H start bs stop) :
    Tiles H start (release a bs) stop := by
  induction tiles with
  | nil => exact .nil _
  | @cons b rest stop tail ih =>
    rw [release, map_cons, tiles_cons]
    split <;> exact ⟨rfl, ih⟩

theorem mem_release (member : c ∈ release a bs) :
    ∃ b ∈ bs, b.addr = a ∧ c = { b with free := true } ∨ b.addr ≠ a ∧ c = b := by
  obtain ⟨b, listed, same⟩ := mem_map.mp member
  refine ⟨b, listed, ?_⟩
  split at same
  · rename_i here
    exact .inl ⟨here, same.symm⟩
  rename_i elsewhere
  exact .inr ⟨elsewhere, same.symm⟩

theorem release_sizes (sizes : Multiples k bs) : Multiples k (release a bs) := by
  intro c member
  obtain ⟨b, listed, ⟨_, rfl⟩ | ⟨_, rfl⟩⟩ := mem_release member
  · exact sizes b listed
  · exact sizes c listed

theorem release_kept (member : b ∈ bs) (elsewhere : b.addr ≠ a) : b ∈ release a bs :=
  mem_map.mpr ⟨b, member, if_neg elsewhere⟩

end

/-! Merging. -/

/-- Walk from `b` on and merge each free block with free ones after it. -/
def mergeFrom (H : Nat) (b : Block) : List Block → List Block
  | [] => [b]
  | c :: rest =>
    if b.free = true ∧ c.free = true then
      mergeFrom H { b with size := b.size + (H + c.size) } rest
    else b :: mergeFrom H c rest

section
variable {H k start stop : Nat} {rest : List Block} {b c : Block}

/-- Two neighbours as one block. -/
theorem Tiles.join (tiles : Tiles H start (b :: c :: rest) stop) :
    Tiles H start ({ b with size := b.size + (H + c.size) } :: rest) stop := by
  rw [tiles_cons, tiles_cons] at tiles
  obtain ⟨first, second, tail⟩ := tiles
  rw [tiles_cons]
  simp only [Block.finish] at second tail ⊢
  rw [show b.addr + H + (b.size + (H + c.size)) = c.addr + H + c.size by omega]
  exact ⟨first, tail⟩

theorem mergeFrom_tiles (tiles : Tiles H start (b :: rest) stop) :
    Tiles H start (mergeFrom H b rest) stop := by
  induction rest generalizing b start with
  | nil => exact tiles
  | cons c rest ih =>
    simp only [mergeFrom]
    split
    · exact ih tiles.join
    cases tiles with
    | cons tail => exact .cons (ih tail)

theorem mergeFrom_sizes (sizes : Multiples k (b :: rest)) (header : k ∣ H) :
    Multiples k (mergeFrom H b rest) := by
  induction rest generalizing b with
  | nil => exact sizes
  | cons c rest ih =>
    obtain ⟨size, others⟩ := forall_mem_cons.mp sizes
    obtain ⟨next, later⟩ := forall_mem_cons.mp others
    simp only [mergeFrom]
    split
    · apply ih
      exact forall_mem_cons.mpr ⟨Nat.dvd_add size (Nat.dvd_add header next), later⟩
    · exact forall_mem_cons.mpr ⟨size, ih others⟩

/-- The first block after merging is as free as the one before. -/
theorem mergeFrom_head (H : Nat) (b : Block) (rest : List Block) :
    ∃ b' rest', mergeFrom H b rest = b' :: rest' ∧ b'.free = b.free := by
  induction rest generalizing b with
  | nil => exact ⟨b, [], rfl, rfl⟩
  | cons c rest ih =>
    simp only [mergeFrom]
    split
    · exact ih _
    · exact ⟨b, _, rfl, rfl⟩

theorem mergeFrom_merged (H : Nat) (b : Block) (rest : List Block) : Merged (mergeFrom H b rest) := by
  induction rest generalizing b with
  | nil => exact List.IsChain.singleton _
  | cons c rest ih =>
    simp only [mergeFrom]
    split
    · exact ih _
    rename_i apart
    obtain ⟨c', rest', same, free⟩ := mergeFrom_head H c rest
    have merged := ih c
    rw [same] at merged ⊢
    rw [merged_cons_cons, free]
    exact ⟨apart, merged⟩

theorem mergeFrom_kept (member : c ∈ b :: rest) (used : c.free = false) :
    c ∈ mergeFrom H b rest := by
  induction rest generalizing b with
  | nil => exact member
  | cons d rest ih =>
    simp only [mergeFrom]
    split
    · rename_i both
      obtain rfl | rfl | later : c = b ∨ c = d ∨ c ∈ rest := by simpa using member
      · cases used.symm.trans both.1
      · cases used.symm.trans both.2
      · exact ih (mem_cons_of_mem _ later)
    · obtain rfl | later := mem_cons.mp member
      · exact mem_cons_self
      · exact mem_cons_of_mem _ (ih later)

end

end UzOS.Tiling
