import UzOS.Lib.Slots

/-! A table whose used entries carry stamps holds a queue, whatever slots the
entries lie in: the used entries, the smallest stamp first. -/
namespace UzOS.Stamped

open Function List

variable {n : Nat} {ρ ω : Type} [LT ω]

/-- `slots` are the used slots, the smallest stamp first. -/
structure Lines (used : ρ → Bool) (order : ρ → ω) (table : Fin n → ρ) (slots : List (Fin n)) :
    Prop where
  members : ∀ k, k ∈ slots ↔ used (table k) = true
  sorted : slots.Pairwise fun i j => order (table i) < order (table j)

/-- `queue` is what the table holds, the smallest stamp first. -/
def Holds (used : ρ → Bool) (order : ρ → ω) (table : Fin n → ρ) (queue : List ρ) : Prop :=
  ∃ slots, Lines used order table slots ∧ queue = slots.map table

variable {used : ρ → Bool} {order : ρ → ω} {table : Fin n → ρ} {queue : List ρ}

theorem holds_empty (none : ∀ k, used (table k) = false) : Holds used order table [] :=
  ⟨[], ⟨by simp [none], .nil⟩, rfl⟩

theorem Holds.mem (holds : Holds used order table queue) {r : ρ} :
    r ∈ queue ↔ ∃ k, used (table k) ∧ table k = r := by
  obtain ⟨slots, lines, rfl⟩ := holds
  simp only [mem_map, lines.members]

variable [LE ω] [Std.LawfulOrderLT ω]

theorem Lines.nodup {slots : List (Fin n)} (lines : Lines used order table slots) :
    slots.Nodup := by
  apply lines.sorted.imp
  rintro i j earlier rfl
  exact Std.lt_irrefl earlier

theorem Holds.not_full (holds : Holds used order table queue) {k : Fin n}
    (free : used (table k) = false) : queue.length < n := by
  obtain ⟨slots, lines, rfl⟩ := holds
  have unlisted : k ∉ slots := by simp [lines.members, free]
  have more : (k :: slots).Nodup := nodup_cons.mpr ⟨unlisted, lines.nodup⟩
  simpa using more.length_le_card

theorem Holds.full (holds : Holds used order table queue)
    (all : ∀ k, used (table k)) : queue.length = n := by
  obtain ⟨slots, lines, rfl⟩ := holds
  have every : slots.Perm (List.finRange n) := by
    apply (perm_ext_iff_of_nodup lines.nodup (nodup_finRange n)).mpr
    simp [lines.members, all]
  simpa using every.length_eq

/-! The oldest entry of a kind. -/

section Oldest

variable [Std.IsLinearOrder ω] [DecidableLT ω]

private theorem oldest_foldl_least {test : Fin n → Bool} {stamp : Fin n → ω}
    (rounds : List (Fin n)) (best : Option (Fin n)) {i : Fin n}
    (found : rounds.foldl (fun best i =>
      if test i && best.all fun b => decide (stamp i < stamp b) then some i else best) best =
        some i) :
    (∀ b, best = some b → stamp i ≤ stamp b) ∧ ∀ j ∈ rounds, test j → stamp i ≤ stamp j := by
  induction rounds generalizing best with
  | nil =>
    obtain rfl : best = some i := found
    simp
  | cons j rest ih =>
    rw [foldl_cons] at found
    split at found
    · next taken =>
      obtain ⟨least, others⟩ := ih (some j) found
      have below := least j rfl
      simp only [Bool.and_eq_true, Option.all_eq_true, decide_eq_true_eq] at taken
      refine ⟨fun b here => ?_, ?_⟩
      · exact Std.le_trans below (Std.le_of_lt (taken.2 b here))
      · simpa [below] using others
    · next kept =>
      obtain ⟨least, others⟩ := ih best found
      refine ⟨least, ?_⟩
      rintro j' there passes
      obtain rfl | later := mem_cons.mp there
      · -- `j` passes the test and was left, so an older one had been found.
        simp only [passes, Bool.true_and, Option.all_eq_true, decide_eq_true_eq] at kept
        push Not at kept
        obtain ⟨b, here, older⟩ := kept
        exact Std.le_trans (least b here) (Std.not_lt.mp older)
      · exact others j' later passes

/-- None that passes the test has a smaller stamp. -/
theorem oldestSlot_least {test : Fin n → Bool} {stamp : Fin n → ω} {i j : Fin n}
    (found : oldestSlot test stamp = some i) (passes : test j) : stamp i ≤ stamp j :=
  (oldest_foldl_least _ none found).2 j (mem_finRange j) passes

/-- The search over the slots finds the first entry of the kind in the queue. -/
theorem Lines.oldest {slots : List (Fin n)} (lines : Lines used order table slots)
    (kind : ρ → Bool) :
    oldestSlot (fun k => used (table k) && kind (table k)) (fun k => order (table k)) =
      slots.find? fun k => kind (table k) := by
  cases found : oldestSlot (fun k => used (table k) && kind (table k))
      (fun k => order (table k)) with
  | none =>
    symm
    rw [List.find?_eq_none]
    intro k listed
    have fails := oldestSlot_none found k
    simpa [(lines.members k).mp listed] using fails
  | some k =>
    have passes := oldestSlot_some found
    simp only [Bool.and_eq_true] at passes
    obtain ⟨listed, right⟩ : k ∈ slots ∧ kind (table k) :=
      ⟨(lines.members k).mpr passes.1, passes.2⟩
    obtain ⟨before, after, rfl⟩ := append_of_mem listed
    symm
    rw [List.find?_eq_some_iff_append]
    refine ⟨right, before, after, rfl, fun j earlier => ?_⟩
    by_contra right'
    have smaller : order (table j) < order (table k) :=
      (pairwise_append.mp lines.sorted).2.2 j earlier k mem_cons_self
    have used' : used (table j) := (lines.members j).mp (by simp [earlier])
    have least := oldestSlot_least (j := j) found (by simpa [used'] using right')
    exact Std.lt_irrefl (Std.lt_of_lt_of_le smaller least)

theorem Holds.oldest (holds : Holds used order table queue) (kind : ρ → Bool) :
    (oldestSlot (fun k => used (table k) && kind (table k)) fun k => order (table k)).map table =
      queue.find? kind := by
  obtain ⟨slots, lines, rfl⟩ := holds
  rw [lines.oldest, List.find?_map]
  rfl

end Oldest

/-! The changes: an entry comes last, or one goes. -/

section Change

variable {k : Fin n} {r : ρ} {slots : List (Fin n)}

private theorem map_update_erase (nodup : slots.Nodup) :
    (slots.erase k).map (Function.update table k r) = (slots.erase k).map table := by
  apply map_congr_left
  intro j listed
  exact update_of_ne (nodup.mem_erase_iff.mp listed).1 _ _

theorem Lines.erase (lines : Lines used order table slots) (gone : used r = false) :
    Lines used order (Function.update table k r) (slots.erase k) where
  members j := by
    rw [lines.nodup.mem_erase_iff]
    by_cases here : j = k
    · simp [here, gone]
    · simp [here, lines.members]
  sorted := by
    apply (lines.sorted.sublist erase_sublist).imp_of_mem
    intro i j one two smaller
    rwa [update_of_ne (lines.nodup.mem_erase_iff.mp one).1,
      update_of_ne (lines.nodup.mem_erase_iff.mp two).1]

theorem Lines.put (lines : Lines used order table slots) (here : used r)
    (last : ∀ j ∈ slots.erase k, order (table j) < order r) :
    Lines used order (Function.update table k r) (slots.erase k ++ [k]) where
  members j := by
    by_cases changed : j = k
    · simp [changed, here]
    · simp [changed, lines.members]
  sorted := by
    rw [pairwise_append]
    refine ⟨?_, pairwise_singleton _ _, ?_⟩
    · apply (lines.sorted.sublist erase_sublist).imp_of_mem
      intro i j one two smaller
      rwa [update_of_ne (lines.nodup.mem_erase_iff.mp one).1,
        update_of_ne (lines.nodup.mem_erase_iff.mp two).1]
    · intro j listed k' own
      rw [mem_singleton.mp own, update_self,
        update_of_ne (lines.nodup.mem_erase_iff.mp listed).1]
      exact last j listed

/-- An entry with the largest stamp goes to the end, into a free slot. -/
theorem Holds.add (holds : Holds used order table queue) (free : used (table k) = false)
    (here : used r) (last : ∀ x ∈ queue, order x < order r) :
    Holds used order (Function.update table k r) (queue ++ [r]) := by
  obtain ⟨slots, lines, rfl⟩ := holds
  have unlisted : slots.erase k = slots := erase_of_not_mem (by simp [lines.members, free])
  refine ⟨slots.erase k ++ [k], lines.put here fun j listed => ?_, ?_⟩
  · exact last _ (mem_map_of_mem (mem_of_mem_erase listed))
  · rw [map_append, map_update_erase lines.nodup, unlisted]
    simp

/-- An entry with the largest stamp goes to the end, over the oldest. -/
theorem Holds.replace [Std.IsLinearOrder ω] [DecidableLT ω]
    (holds : Holds used order table queue)
    (oldest : oldestSlot (fun k => used (table k)) (fun k => order (table k)) = some k)
    (here : used r) (last : ∀ x ∈ queue, order x < order r) :
    Holds used order (Function.update table k r) (queue.tail ++ [r]) := by
  obtain ⟨slots, lines, rfl⟩ := holds
  have first : slots.find? (fun _ => true) = some k := by
    simpa [oldest] using (lines.oldest fun _ => true).symm
  obtain ⟨rest, rfl⟩ : ∃ rest, slots = k :: rest := by
    cases slots with
    | nil => cases first
    | cons j rest => exact ⟨rest, by simpa using first⟩
  refine ⟨_, lines.put (k := k) here fun j listed => ?_, ?_⟩
  · exact last _ (mem_map_of_mem (mem_of_mem_erase listed))
  · rw [map_append, map_update_erase lines.nodup]
    simp

/-- The first entry of the kind goes. -/
theorem Holds.take [Std.IsLinearOrder ω] [DecidableLT ω] (holds : Holds used order table queue)
    (kind : ρ → Bool) (oldest : oldestSlot (fun k => used (table k) && kind (table k))
      (fun k => order (table k)) = some k) (gone : used r = false) :
    Holds used order (Function.update table k r) (queue.eraseP kind) := by
  obtain ⟨slots, lines, rfl⟩ := holds
  rw [lines.oldest, List.find?_eq_some_iff_append] at oldest
  obtain ⟨right, before, after, rfl, earlier⟩ := oldest
  have unlisted : k ∉ before := by
    intro listed
    simpa [right] using earlier k listed
  refine ⟨_, lines.erase (k := k) gone, ?_⟩
  rw [map_update_erase lines.nodup, erase_append_right _ unlisted, erase_cons_head,
    map_append, map_append, map_cons, eraseP_append_right,
    eraseP_cons_of_pos right]
  simpa using earlier

omit [LE ω] [Std.LawfulOrderLT ω] in
/-- The entries that are not kept go, all at once. -/
theorem Holds.filter (holds : Holds used order table queue) (keep : ρ → Bool)
    {table' : Fin n → ρ} (same : ∀ k, used (table' k) → table' k = table k)
    (stays : ∀ k, used (table' k) ↔ used (table k) ∧ keep (table k)) :
    Holds used order table' (queue.filter keep) := by
  obtain ⟨slots, lines, rfl⟩ := holds
  have listed (k : Fin n) : k ∈ slots.filter (fun k => keep (table k)) ↔ used (table' k) := by
    rw [mem_filter, lines.members, stays]
  refine ⟨slots.filter fun k => keep (table k), ⟨listed, ?_⟩, ?_⟩
  · apply (lines.sorted.filter _).imp_of_mem
    intro i j one two smaller
    rwa [same i ((listed i).mp one), same j ((listed j).mp two)]
  · rw [filter_map]
    apply map_congr_left
    intro k here
    exact (same k ((listed k).mp here)).symm

end Change

end UzOS.Stamped
