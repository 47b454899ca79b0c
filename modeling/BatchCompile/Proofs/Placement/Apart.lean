import BatchCompile.Proofs.Path.Onward
import BatchCompile.Proofs.Placement.Names

/-!
# Artifacts at one path

Below a destination directory an artifact goes the way that it has from the working directory. Two
files can end at one path only if the way of one of them goes up past the top, or goes down through
what it left on its way up from the destination; where none does, the path tells the file
(`resolve_eq_of_destination_eq`). Files below the working directory never do (`clear_of_inside`).
-/

namespace BatchCompile

open BatchCompile.Path

/-- How many segments a file has in common with the working directory, up to the first other one. -/
def sharedWith (cwd name : Path) : Nat :=
  sharedLength (stepsOf (normalize cwd)) (stepsOf (resolve cwd [name]))

/-- How many steps up are left on the way to a file when the base path is taken off. -/
def stepsUp (cwd : Path) (base : Option Path) (name : Path) : Nat :=
  (stepsOf (normalize cwd)).length - sharedWith cwd name - (baseSegments base).length

/-- A file that a destination directory does not move through itself: it has the root of the working
directory and no drive on its way, and from the destination its way neither leads up past the top
nor down again by the segment that it went up by last. -/
structure Clear (cwd directory : Path) (base : Option Path) (name : Path) : Prop where
  root : (Parts.of (resolve cwd [name])).root = (Parts.of (normalize cwd)).root
  driveFree : ∀ s ∈ stepsOf (resolve cwd [name]), isDrive s = false
  top : stepsUp cwd base name ≤ (stepsOf (resolve cwd [directory])).length
  down : ∀ s ∈ (stepsOf (resolve cwd [name]))[sharedWith cwd name]?,
    (stepsOf (resolve cwd [directory]))[(stepsOf (resolve cwd [directory])).length -
      stepsUp cwd base name]? ≠ some s

instance (cwd directory : Path) (base : Option Path) (name : Path) :
    Decidable (Clear cwd directory base name) :=
  decidable_of_iff
    ((Parts.of (resolve cwd [name])).root = (Parts.of (normalize cwd)).root ∧
      (∀ s ∈ stepsOf (resolve cwd [name]), isDrive s = false) ∧
      stepsUp cwd base name ≤ (stepsOf (resolve cwd [directory])).length ∧
      ∀ s ∈ (stepsOf (resolve cwd [name]))[sharedWith cwd name]?,
        (stepsOf (resolve cwd [directory]))[(stepsOf (resolve cwd [directory])).length -
          stepsUp cwd base name]? ≠ some s)
    ⟨fun ⟨hroot, hfree, htop, hdown⟩ => ⟨hroot, hfree, htop, hdown⟩,
      fun h => ⟨h.root, h.driveFree, h.top, h.down⟩⟩

theorem clear_of_inside {cwd name : Path} (hc : FromTop cwd) (h : Inside cwd name)
    (directory : Path) (base : Option Path) : Clear cwd directory base name := by
  obtain ⟨ss, -, ho, hr⟩ := h.segments hc
  have hcwd := isSegment_all (ordinary_land_top hc)
  have hall : ∀ s ∈ land [] cwd ++ ss, IsSegment s :=
    List.forall_mem_append.2 ⟨hcwd, fun s hm => (ho s hm).1.toIsSegment⟩
  have hshared : sharedWith cwd name = (stepsOf (normalize cwd)).length := by
    unfold sharedWith stepsOf
    rw [hr, normalize_of_top hc, of_atTop hcwd, of_atTop hall]
    exact sharedLength_append _ _
  have hup : stepsUp cwd base name = 0 := by
    unfold stepsUp
    omega
  refine ⟨?_, ?_, by omega, fun s _ => ?_⟩
  · rw [hr, normalize_of_top hc, of_atTop hcwd, of_atTop hall]
  · rw [stepsOf, hr, of_atTop hall]
    exact (driveFree_atTop hall).1 (hr ▸ h.driveFree)
  · simp [hup]

section

variable {cwd directory : Path} {c : Configuration} (hc : isRooted cwd = true)
  (hs : c.singleOutput = false) (hd : c.destination = some directory)
  (hb : ∀ b, c.basePath = some b → ∃ start, b = start ++ ['/'])

include hc hs hd hb

/-- From the destination a file goes what the base path leaves of its way: up, and then down. -/
theorem exists_down {name goal : Path} (hclear : Clear cwd directory c.basePath name)
    (h : destination cwd c name = .ok goal) :
    let place := stepsOf (resolve cwd [directory])
    let k := stepsUp cwd c.basePath name
    ∃ zs, (∀ z ∈ zs, Ordinary z) ∧ (∀ z ∈ zs.head?, place[place.length - k]? ≠ some z) ∧
      way (stepsOf (normalize cwd)) (stepsOf (resolve cwd [name])) =
        baseSegments c.basePath ++ (ups k ++ zs) ∧
      stepsOf goal = Path.settle place (ups k ++ zs) := by
  intro place k
  let bs := baseSegments c.basePath
  let down := (stepsOf (resolve cwd [name])).drop (sharedWith cwd name)
  let skipped := bs.length - ((stepsOf (normalize cwd)).length - sharedWith cwd name)
  have hname := anchored_resolve hc name
  obtain ⟨rest, rfl, hrel⟩ := exists_rest hs hd h
  rw [resolve_cwd_cons hc, resolve_nil,
    relative_of_root (anchored_normalize hc) hname hclear.root.symm] at hrel
  have hsegs : ∀ s ∈ way (stepsOf (normalize cwd)) (stepsOf (resolve cwd [name])),
      IsSegment s ∧ isDrive s = false := by
    intro s hm
    rcases mem_way hm with rfl | hm
    · exact ⟨isSegment_up, rfl⟩
    · exact ⟨(hname.ordinary s hm).toIsSegment, hclear.driveFree s hm⟩
  obtain ⟨front, rs, hway, htakes, rfl⟩ :=
    takesOff_of_append_eq hb (fun s hm => (hsegs s hm).1.slash) hrel
  rw [hway] at hsegs
  obtain ⟨hfront, hrs⟩ := List.forall_mem_append.1 hsegs
  obtain rfl : front = bs := htakes.eq_baseSegments hfront
  have hleft : rs = ups k ++ down.drop skipped := by
    have hdrop := drop_way (stepsOf (normalize cwd)) (stepsOf (resolve cwd [name])) bs.length
    rwa [hway, List.drop_left] at hdrop
  refine ⟨down.drop skipped, fun z hz => ?_, fun z hz => ?_, ?_, ?_⟩
  · exact hname.ordinary z (List.mem_of_mem_drop (List.mem_of_mem_drop hz))
  · -- a base path that takes off more than the steps up leaves none of them
    rcases Nat.eq_zero_or_pos k with hk | hk
    · simp [hk]
    · have hnone : skipped = 0 := by
        have : k = (stepsOf (normalize cwd)).length - sharedWith cwd name - bs.length := rfl
        omega
      rw [hnone, List.drop_zero, List.head?_drop] at hz
      exact hclear.down z hz
  · rw [hway, hleft]
  · rw [← hleft, resolve_cwd_cons hc]
    exact segments_resolve hc [directory] hrs

/-- Files that are clear of the destination and go to one path are one file. -/
theorem resolve_eq_of_destination_eq {name name' goal goal' : Path}
    (hclear : Clear cwd directory c.basePath name) (hclear' : Clear cwd directory c.basePath name')
    (h : destination cwd c name = .ok goal) (h' : destination cwd c name' = .ok goal')
    (he : stepsOf goal = stepsOf goal') : resolve cwd [name] = resolve cwd [name'] := by
  obtain ⟨zs, hz, hleave, hway, hgoal⟩ := exists_down hc hs hd hb hclear h
  obtain ⟨zs', hz', hleave', hway', hgoal'⟩ := exists_down hc hs hd hb hclear' h'
  rw [hgoal, hgoal'] at he
  have hrest := eq_of_settle_eq (anchored_resolve hc directory).ordinary hclear.top hclear'.top
    hz hz' hleave hleave' he
  rw [hrest, ← hway'] at hway
  have hcwd := (anchored_normalize hc).ordinary
  have hname := anchored_resolve hc name
  have hname' := anchored_resolve hc name'
  have hsteps : stepsOf (resolve cwd [name]) = stepsOf (resolve cwd [name']) := by
    rw [← settle_way hcwd hname.ordinary, ← settle_way hcwd hname'.ordinary]
    exact congrArg _ hway
  exact hname.eq_of_stepsOf_eq hname' (hclear.root.trans hclear'.root.symm) hsteps

end

end BatchCompile
