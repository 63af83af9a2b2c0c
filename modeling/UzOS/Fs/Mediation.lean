import UzOS.Fs.Lookup

/-! A path walk always comes to an end, and nothing is looked up in a directory
or followed from it without its check. -/
namespace UzOS.Fs

open List Nat

/-- Everything the walk has done passed its check. -/
structure Mediated (uid : U32) (w : Walk) : Prop where
  searched : ∀ v dir, .looked v dir ∈ w.trace → defSearchOk uid v dir = true
  trusted : ∀ v dir link, .followed v dir link ∈ w.trace → defFollowOk uid v dir link = true
  counted : w.trace.countP Event.isFollow ≤ w.hops
  few : w.trace.countP Event.isFollow ≤ linkHopsMax

/-- The walk from `w` to `w'` is mediated if `w` was. -/
structure Advances (uid : U32) (w w' : Walk) : Prop where
  hops : w.hops ≤ w'.hops
  mediated : Mediated uid w → Mediated uid w'

section
variable {env : Walker} {uid : U32} {w w' : Walk}

theorem Advances.refl (w : Walk) : Advances uid w w := ⟨le_refl _, id⟩

theorem Advances.trans {w'' : Walk} (first : Advances uid w w') (second : Advances uid w' w'') :
    Advances uid w w'' :=
  ⟨le_trans first.hops second.hops, fun m => second.mediated (first.mediated m)⟩

@[simp] theorem note_hops (e : Event) : (w.note e).hops = w.hops := rfl

/-- The volume is not part of what was done. -/
theorem Mediated.congr {u : Walk} (m : Mediated uid w) (trace : u.trace = w.trace)
    (hops : w.hops ≤ u.hops) : Mediated uid u := by
  obtain ⟨searched, trusted, counted, few⟩ := m
  rw [← trace] at searched trusted counted few
  exact ⟨searched, trusted, le_trans counted hops, few⟩

theorem vfsFinddir_advances (dir : NodeId) (name : Name) :
    Advances uid w (vfsFinddir env w dir name).2 := by
  unfold vfsFinddir
  split
  · exact .refl w
  split
  · exact .refl w
  · exact ⟨le_refl _, fun m => m.congr rfl (le_refl _)⟩

variable {dir : NodeId}

/-- A look at a directory that search_check lets pass. -/
theorem note_looked (passed : defSearchOk uid w.volume dir) :
    Advances uid w (w.note (.looked w.volume dir)) := by
  refine ⟨le_refl _, fun m => ?_⟩
  have count : (w.note (.looked w.volume dir)).trace.countP Event.isFollow =
      w.trace.countP Event.isFollow := by simp [Walk.note, Event.isFollow]
  constructor
  · intro v x member
    rcases mem_append.mp member with old | new
    · exact m.searched v x old
    obtain ⟨rfl, rfl⟩ : v = w.volume ∧ x = dir := by simpa using new
    exact passed
  · intro v x link member
    rcases mem_append.mp member with old | new
    · exact m.trusted v x link old
    · simp at new
  · rw [count]
    exact m.counted
  · rw [count]
    exact m.few

theorem step_advances (name : Name) (passed : defSearchOk env.uid w.volume dir) :
    Advances env.uid w (step env w dir name).2 := by
  have looked := note_looked passed
  unfold step
  extract_lets u
  split
  · exact looked
  split
  · exact looked
  · exact looked.trans (vfsFinddir_advances dir name)

/-- A link that link_depth and protected_symlinks let follow. -/
theorem note_followed {link : NodeId} (hop : defLinkHopOk (w.hops + 1))
    (passed : defFollowOk uid w.volume dir link) :
    Advances uid w ({ w with hops := w.hops + 1 }.note (.followed w.volume dir link)) := by
  refine ⟨le_succ _, fun m => ?_⟩
  have count : ({ w with hops := w.hops + 1 }.note
      (.followed w.volume dir link)).trace.countP Event.isFollow =
      w.trace.countP Event.isFollow + 1 := by simp [Walk.note, Event.isFollow]
  have within : w.hops + 1 ≤ linkHopsMax := by simpa [defLinkHopOk] using hop
  have counted := m.counted
  constructor
  · intro v x member
    rcases mem_append.mp member with old | new
    · exact m.searched v x old
    · simp at new
  · intro v x y member
    rcases mem_append.mp member with old | new
    · exact m.trusted v x y old
    obtain ⟨rfl, rfl, rfl⟩ : v = w.volume ∧ x = dir ∧ y = link := by simpa using new
    exact passed
  · rw [count]
    exact succ_le_succ counted
  · omega

end

/-! Termination. -/

theorem nextComponent_shorter {path name rest : Name}
    (next : nextComponent path = some (name, rest)) (named : name.length ≠ 0) :
    rest.length < path.length := by
  unfold nextComponent at next
  extract_lets p component at next
  split at next
  · cases next
  obtain ⟨rfl, rfl⟩ : component = name ∧ p.drop component.length = rest := by simpa using next
  have inside : component.length ≤ p.length := (List.takeWhile_prefix _).length_le
  have skipped : p.length ≤ path.length := (dropWhile_suffix _).length_le
  rw [length_drop]
  omega

theorem linkTarget_short (link : Node) : (linkTarget link).length < fsPathMax := by
  unfold linkTarget
  extract_lets n
  have short : ((Buffer.slice link.bytes.data 0 n).takeWhile (· != 0)).length ≤ n := by
    simpa using (List.takeWhile_prefix (l := Buffer.slice link.bytes.data 0 n) (· != 0)).length_le
  have small : n < fsPathMax := by
    unfold n fsPathMax
    split <;> omega
  omega

/-- Following a link pays for the walk of its target. -/
theorem roundsLeft_follow {hops n : Nat} {target : Name} (hop : hops + 1 ≤ linkHopsMax)
    (short : target.length < fsPathMax) (room : (linkHopsMax - hops) * fsPathMax ≤ n) :
    roundsLeft (hops + 1) target ≤ n := by
  have pays : linkHopsMax - hops = (linkHopsMax - (hops + 1)) + 1 := by omega
  rw [pays, succ_mul] at room
  unfold roundsLeft
  omega

/-- A round pays for the next one. -/
theorem roundsLeft_round {hops hops' : Nat} {path rest : Name} (shorter : rest.length < path.length)
    (more : hops ≤ hops') : roundsLeft hops' rest < roundsLeft hops path := by
  have fewer : (linkHopsMax - hops') * fsPathMax ≤ (linkHopsMax - hops) * fsPathMax :=
    Nat.mul_le_mul_right _ (by omega)
  unfold roundsLeft
  omega

/-- From `n` units of fuel on, the run has a result, and it advances on `w`. -/
def Ends (uid : U32) (run : Nat → Option (Option NodeId × Walk)) (n : Nat) (w : Walk) : Prop :=
  ∃ found w', (∀ fuel, n ≤ fuel → run fuel = some (found, w')) ∧ Advances uid w w'

section
variable {env : Walker} {w : Walk} {n : Nat}

/-- Following a link ends if a walk of its target does. -/
theorem follow_ends (walk : Nat → NodeId → Name → Walk → Option (Option NodeId × Walk))
    (dir link : NodeId) (room : (linkHopsMax - w.hops) * fsPathMax ≤ n)
    (inner : ∀ target u, roundsLeft u.hops target ≤ n →
      Ends env.uid (fun fuel => walk fuel dir target u) n u) :
    Ends env.uid (fun fuel => follow env (walk fuel) dir link w) n w := by
  have met : Advances env.uid w { w with hops := w.hops + 1 } :=
    ⟨le_succ _, fun m => m.congr rfl (le_succ _)⟩
  by_cases refused : (!defLinkHopOk (w.hops + 1) || !defFollowOk env.uid w.volume dir link ||
      decide ((w.volume.node link).bytes.capacity = 0))
  · exact ⟨none, _, fun fuel _ => by simp only [follow, refused, if_true], met⟩
  by_cases memory : env.memory (w.hops + 1)
  · have passed := refused
    simp only [Bool.or_eq_true, not_or, Bool.not_eq_true', Bool.not_eq_false] at passed
    have hop : w.hops + 1 ≤ linkHopsMax := by simpa [defLinkHopOk] using passed.1.1
    have short := linkTarget_short (w.volume.node link)
    have paid := roundsLeft_follow hop short room
    obtain ⟨found, w', run, advance⟩ := inner (linkTarget (w.volume.node link))
      ({ w with hops := w.hops + 1 }.note (.followed w.volume dir link)) (by rwa [note_hops])
    refine ⟨found, w', fun fuel enough => ?_, (note_followed passed.1.1 passed.1.2).trans advance⟩
    simp only [follow, refused, memory]
    exact run fuel enough
  · exact ⟨none, _, fun fuel _ => by simp [follow, memory], met⟩

/-- Every round leaves fewer rounds, and every walk inside has one link less. -/
theorem walkLoop_ends (followLast : Bool) (node : NodeId) (path : Name)
    (enough : roundsLeft w.hops path ≤ n) :
    Ends env.uid (fun fuel => walkLoop env fuel followLast node path w) n w := by
  induction n generalizing followLast node path w with
  | zero => simp [roundsLeft] at enough
  | succ n ih =>
    have stops : ∀ found w', (∀ fuel, n ≤ fuel →
        walkLoop env (fuel + 1) followLast node path w = some (found, w')) →
        Advances env.uid w w' →
        Ends env.uid (fun fuel => walkLoop env fuel followLast node path w) (n + 1) w := by
      intro found w' ends advance
      refine ⟨found, w', fun fuel more => ?_, advance⟩
      obtain ⟨fuel, rfl⟩ := Nat.exists_eq_add_of_le' (le_trans (Nat.le_add_left 1 n) more)
      exact ends fuel (by omega)
    have goesOn : ∀ node' rest w', (∀ fuel, n ≤ fuel →
        walkLoop env (fuel + 1) followLast node path w =
          walkLoop env fuel followLast node' rest w') →
        rest.length < path.length → Advances env.uid w w' →
        Ends env.uid (fun fuel => walkLoop env fuel followLast node path w) (n + 1) w := by
      intro node' rest w' round shorter advance
      have paid := roundsLeft_round shorter advance.hops
      have left : roundsLeft w'.hops rest ≤ n := by omega
      obtain ⟨found, w'', run, further⟩ := ih followLast node' rest left
      exact stops found w'' (fun fuel more => (round fuel more).trans (run fuel more))
        (advance.trans further)
    cases next : nextComponent path with
    | none => exact stops none w (fun fuel _ => by simp only [walkLoop, next]) (.refl w)
    | some part =>
      obtain ⟨name, rest⟩ := part
      by_cases done : name.length = 0
      · exact stops (some node) w (fun fuel _ => by simp only [walkLoop, next, done, if_true])
          (.refl w)
      by_cases isDir : (w.volume.node node).flags = .directory
      case neg => exact stops none w (fun fuel _ => by simp [walkLoop, next, done, isDir]) (.refl w)
      by_cases passed : defSearchOk env.uid w.volume node
      case neg =>
        exact stops none w (fun fuel _ => by simp [walkLoop, next, done, passed]) (.refl w)
      have stepped := step_advances name passed
      have shorter := nextComponent_shorter next done
      rcases taken : step env w node name with ⟨child, w'⟩
      rw [taken] at stepped
      cases child with
      | none =>
        exact stops none w' (fun fuel _ => by simp [walkLoop, next, done, isDir, passed, taken])
          stepped
      | some x =>
        by_cases isLink : ((w'.volume.node x).flags = .link &&
            (followLast || moreNames rest))
        case neg =>
          exact goesOn (vfsInode w'.volume.toDisk x) rest w' (fun fuel _ => by
            simp only [walkLoop, next, done, isDir, passed, taken, isLink]
            rfl) shorter stepped
        have room : (linkHopsMax - w'.hops) * fsPathMax ≤ n := by
          have fewer : (linkHopsMax - w'.hops) * fsPathMax ≤ (linkHopsMax - w.hops) * fsPathMax :=
            Nat.mul_le_mul_right _ (Nat.sub_le_sub_left stepped.hops _)
          unfold roundsLeft at enough
          omega
        let walk := fun fuel dir target w =>
          walkLoop env fuel true (walkStart w.volume (some dir) target) target w
        have inner : ∀ target u, roundsLeft u.hops target ≤ n →
            Ends env.uid (fun fuel => walk fuel node target u) n u :=
          fun target u left => ih true _ target left
        obtain ⟨found, w'', followed, further⟩ := follow_ends walk node x room inner
        have round : ∀ fuel, n ≤ fuel → walkLoop env (fuel + 1) followLast node path w =
            match found with
            | none => some (none, w'')
            | some y => walkLoop env fuel followLast (vfsInode w''.volume.toDisk y) rest w'' := by
          intro fuel more
          have met : follow env (walk fuel) node x w' = some (found, w'') := followed fuel more
          simp only [walk] at met
          simp only [walkLoop, next, done, isDir, passed, taken, isLink, met]
          cases found <;> rfl
        cases found with
        | none => exact stops none w'' round (stepped.trans further)
        | some y => exact goesOn _ rest w'' round shorter (stepped.trans further)

end

variable (env : Walker) (v : Volume) (start : Option NodeId)

/-- A walk, whatever links it meets, comes to an end, and nothing was looked up
or followed on the way without its check. -/
theorem walk_ends (path : Option Name) (followLast : Bool) :
    Ends env.uid (fun fuel => walk env fuel start path followLast ⟨v, 0, []⟩)
      (roundsLeft 0 (path.getD [])) ⟨v, 0, []⟩ := by
  cases path with
  | none => exact ⟨none, _, fun _ _ => rfl, .refl _⟩
  | some path => exact walkLoop_ends followLast _ path (le_refl _)

theorem mediated_start (uid : U32) (v : Volume) : Mediated uid ⟨v, 0, []⟩ := by constructor <;> simp

/-- Whatever the links of the tree, a lookup ends, and every directory in which
it looked a name up passed search_check, every link that it followed passed
protected_symlinks, and there were eight at most. -/
theorem lookup_mediated (env : Walker) (v : Volume) (start : Option NodeId)
    (path : Option Name) :
    ∃ found w, (∀ fuel, roundsLeft 0 (path.getD []) ≤ fuel →
        vfsLookup env fuel v start path = some (found, w)) ∧
      (∀ u dir, .looked u dir ∈ w.trace → defSearchOk env.uid u dir = true) ∧
      (∀ u dir link, .followed u dir link ∈ w.trace → defFollowOk env.uid u dir link = true) ∧
      w.trace.countP Event.isFollow ≤ linkHopsMax := by
  obtain ⟨found, w, run, advance⟩ := walk_ends env v start path true
  have mediated := advance.mediated (mediated_start env.uid v)
  exact ⟨found, w, run, mediated.searched, mediated.trusted, mediated.few⟩

/-- More rounds change nothing. -/
theorem lookup_eq (path : Name) (fuel : Nat) (enough : roundsLeft 0 path ≤ fuel) :
    vfsLookup env fuel v start (some path) = some (lookup env v start path) := by
  obtain ⟨found, w, run, _⟩ := walk_ends env v start (some path) true
  have all : vfsLookup env (roundsLeft 0 path) v start (some path) = some (found, w) :=
    run _ (le_refl _)
  rw [lookup, all]
  exact run fuel enough

/-- "a" leads to "b" and "b" back to "a". -/
def circle : Volume where
  toDisk := [Call.symlink (some 3) (some 1) [0x61] [0x62] true,
    Call.symlink (some 4) (some 1) [0x62] [0x61] true].foldl Call.apply
      (ramdiskInit 1 none [] true)
  owner := fun _ => 0
  mode := fun _ => 0x34

example : (vfsLookup ⟨1000, fun _ => true, fun v _ _ => (none, v.owner)⟩ (roundsLeft 0 [0x61]) circle
    none (some [0x61])).map (fun out => (out.1, out.2.hops, out.2.trace.countP Event.isFollow)) =
      some (none, 9, 8) := by
  decide +kernel

end UzOS.Fs
