import UzOS.Fs.InodeRun
import UzOS.Fs.Mediation

/-! On a sound disk a path walk stays among the nodes of the tree and changes
nothing, whatever the other drivers do. -/
namespace UzOS.Fs

/-- Pointers between nodes lead to nodes. -/
structure Grounded (d : Disk) : Prop where
  root : d.Holdable d.root
  child : ∀ {p c}, d.live p = true → c ∈ (d.node p).children → d.live c = true
  parent : ∀ {x p}, d.live x = true → (d.node x).parent = some p → d.live p = true
  inode : ∀ {c}, d.live c = true → d.Holdable (vfsInode d c)
  driver : ∀ {x}, d.live x = true → (d.node x).flags = .directory → (d.node x).finddir = true

theorem Files.Sound.grounded {s : Files} (sound : s.Sound) : Grounded s.disk where
  root := by
    obtain ⟨live, directory⟩ := sound.counted.top
    refine ⟨live, ?_⟩
    cases target : (s.disk.node s.disk.root).target with
    | none => rfl
    | some t => cases (sound.counted.links _ t live target).2.1.symm.trans directory
  child := fun live member =>
    (sound.tree.live_of_child (Disk.shape_children.mpr ⟨live, member⟩)).2.1
  parent := by
    intro x p live up
    by_cases top : x = s.disk.root
    · have own := (Disk.shape_parent.mp sound.tree.valid.top).2
      rw [top] at up
      cases up.symm.trans own
      exact sound.counted.top.1
    · exact (sound.tree.child_of_parent top live up).1
  inode := sound.counted.holdable
  driver := by
    intro x live directory
    rw [(sound.tree.nodes x live).driver, directory]
    rfl

/-- A walk that has changed nothing and found a node, if it found any. -/
def Stays (w : Walk) (out : Option NodeId × Walk) : Prop :=
  out.2.volume = w.volume ∧ ∀ x, out.1 = some x → w.volume.Holdable x

section
variable (env : Walker) {w : Walk} (grounded : Grounded w.volume.toDisk)
include grounded

theorem step_stays {dir : NodeId} (live : w.volume.live dir) (name : Name) :
    (step env w dir name).2.volume = w.volume ∧
      ∀ x, (step env w dir name).1 = some x → w.volume.live x := by
  unfold step
  extract_lets u
  split
  · exact ⟨rfl, fun x same => Option.some.inj same ▸ live⟩
  split
  · exact ⟨rfl, fun x up => grounded.parent live up⟩
  unfold vfsFinddir
  split
  · exact ⟨rfl, fun x no => by cases no⟩
  rename_i directory
  split
  · exact ⟨rfl, fun x found => grounded.child live (finddir_some found).1⟩
  rename_i foreign
  exact absurd (grounded.driver live (not_not.mp directory)) foreign

end

variable {start : Option NodeId} {w : Walk} {env : Walker} {out : Option NodeId × Walk}

/-- Following a link stays if a walk of its target does. -/
theorem follow_stays {walk : NodeId → Name → Walk → Option (Option NodeId × Walk)}
    {dir link : NodeId}
    (inner : ∀ target u, u.volume = w.volume → walk dir target u = some out → Stays u out)
    (ends : follow env walk dir link w = some out) : Stays w out := by
  unfold follow at ends
  extract_lets u at ends
  have nothing : Stays w (none, u) := ⟨rfl, fun x no => by cases no⟩
  split at ends
  · cases ends
    exact nothing
  split at ends
  · cases ends
    exact nothing
  obtain ⟨volume, found⟩ := inner _ (u.note (.followed u.volume dir link)) rfl ends
  exact ⟨volume, found⟩

theorem Stays.trans {u : Walk} (volume : u.volume = w.volume) (stays : Stays u out) : Stays w out :=
  ⟨stays.1.trans volume, fun x same => volume ▸ stays.2 x same⟩

theorem walkStart_holdable {v : Volume} (grounded : Grounded v.toDisk)
    (holdable : ∀ x, start = some x → v.Holdable x) (path : Name) :
    v.Holdable (walkStart v start path) := by
  unfold walkStart
  split
  · exact grounded.root
  cases start with
  | none => exact grounded.root
  | some x => exact holdable x rfl

/-- The induction is on the rounds; a walk inside another has fewer. -/
theorem walkLoop_stays (fuel : Nat) {followLast : Bool} {node : NodeId} {path : Name}
    (grounded : Grounded w.volume.toDisk)
    (holdable : w.volume.Holdable node) (ends : walkLoop env fuel followLast node path w = some out) :
    Stays w out := by
  induction fuel generalizing followLast node path w out with
  | zero => cases ends
  | succ fuel ih =>
    have nothing : ∀ u : Walk, u.volume = w.volume → Stays w (none, u) :=
      fun u volume => ⟨volume, fun x no => by cases no⟩
    unfold walkLoop at ends
    split at ends
    · cases ends
      exact nothing w rfl
    rename_i name rest _
    split at ends
    · cases ends
      exact ⟨rfl, fun x same => Option.some.inj same ▸ holdable⟩
    split at ends
    · cases ends
      exact nothing w rfl
    split at ends
    · cases ends
      exact nothing w rfl
    obtain ⟨volume, lives⟩ := step_stays env grounded holdable.1 name
    rcases taken : step env w node name with ⟨child, u⟩
    rw [taken] at ends volume lives
    cases child with
    | none =>
      cases ends
      exact nothing u volume
    | some x =>
      have still : Grounded u.volume.toDisk := volume ▸ grounded
      have liveX : u.volume.live x := volume ▸ lives x rfl
      simp only at ends
      split at ends
      · have follows : ∀ out', follow env (fun dir target w =>
            walkLoop env fuel true (walkStart w.volume (some dir) target) target w) node x u =
              some out' → Stays u out' := by
          intro out' followed
          refine follow_stays (fun target w' same walks => ?_) followed
          have deep : Grounded w'.volume.toDisk := same ▸ still
          have start : w'.volume.Holdable node := same ▸ volume ▸ holdable
          refine ih deep (walkStart_holdable deep ?_ target) walks
          rintro y ⟨⟩
          exact start
        split at ends
        · cases ends
        · rename_i u' followed
          cases ends
          exact .trans volume (follows _ followed)
        rename_i y u' followed
        obtain ⟨again, found⟩ := follows _ followed
        have after : Grounded u'.volume.toDisk := again ▸ still
        have liveY : u'.volume.live y := again ▸ (found y rfl).1
        exact .trans (again.trans volume) (ih after (after.inode liveY) ends)
      · exact .trans volume (ih still (still.inode liveX) ends)

theorem lookup_stays (env : Walker) {v : Volume} (grounded : Grounded v.toDisk)
    (holdable : ∀ x, start = some x → v.Holdable x) (path : Name) :
    (lookup env v start path).2.volume = v ∧
      ∀ x, (lookup env v start path).1 = some x → v.Holdable x := by
  have ends := lookup_eq env v start path _ (le_refl _)
  have stays := walkLoop_stays _ (w := ⟨v, 0, []⟩) grounded
    (walkStart_holdable grounded holdable path) ends
  exact stays

end UzOS.Fs
