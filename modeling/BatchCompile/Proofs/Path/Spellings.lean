import BatchCompile.Proofs.Path.Normal
import BatchCompile.Proofs.Path.Relative

/-!
# Spellings of paths

From a working directory at the top, paths may be followed all at once or some of them first, and
each of them in any spelling that is normalized alike (`resolve_stepwise`). That rests on `land`: two
spellings lead from every place to the same one (`land_eq_of_normalize_eq`).
-/

namespace BatchCompile

namespace Path

/-! ## Landing on spellings -/

theorem isDrive_of_normalize {q : Path} (h : isDrive (forward (normalize q)) = false) :
    isDrive (forward q) = false := by
  rw [Bool.eq_false_iff]
  intro hd
  have hroot : isRooted q = true := isRooted_iff.2 (.inr hd)
  obtain ⟨letter, slash, hslash, hcut⟩ := root_of_isDrive hd
  have hproper := proper_cutRoot hroot
  have hn := normalize_of_isRooted hroot
  rw [hcut] at hproper hn
  have hl : letter.isAlpha = true := hproper
  rw [hn, forward_through hproper (isSegment_all (ordinary_of_isRooted q))] at h
  cases slash <;> simp [Root.through, Root.text, isDrive, hl] at h

theorem land_text_of_isDrive (place : List Text) {us : List Text} (hus : ∀ s ∈ us, IsSegment s)
    (hd : isDrive (forward (Parts.text ⟨.here, us⟩)) = false) :
    land place (Parts.text ⟨.here, us⟩) = settle place us := by
  cases us with
  | nil => exact (land_self place).trans (settle_nil place).symm
  | cons u us =>
    have hhead : (forward (Text.join ['/'] (u :: us))).head? ≠ some '/' := by
      rw [forward_join hus]
      exact head?_join (hus u List.mem_cons_self)
    rw [text_here_cons] at hd ⊢
    rw [land_of_here place hhead hd, forward_join hus, segmentsOf_join hus]

/-- It does not matter whether a path is normalized before it is followed, if no drive stands at its
front then. -/
theorem land_normalize_of_isDrive (place : List Text) {q : Path}
    (h : isDrive (forward (normalize q)) = false) : land place (normalize q) = land place q := by
  have hd := isDrive_of_normalize h
  cases hroot : isRooted q with
  | true =>
    have htop : FromTop q := (isRooted_iff.1 hroot).resolve_right (by simp [hd])
    obtain ⟨t, ht⟩ := htop.forward_eq
    rw [normalize_of_top htop, land_atTop place (ordinary_land_top htop), land_of_top [] ht,
      land_of_top place ht]
  | false =>
    have hhead : (forward q).head? ≠ some '/' := fun htop => by
      rw [isRooted_iff.2 (.inl htop)] at hroot
      cases hroot
    obtain ⟨k, zs, hzs, hfold, hn⟩ := exists_fold_of_not_isRooted hroot
    rw [hn] at h ⊢
    rw [land_text_of_isDrive place (isSegment_ups_append hzs) h, land_of_here place hhead hd, ← hfold,
      partsOf_of_not_isRooted hroot, settle_fold]

/-- Two spellings lead to the same places if they are normalized alike, and one of them is free of
drives. -/
theorem land_eq_of_normalize_eq (place : List Text) {q r : Path} (hq : DriveFree q)
    (h : normalize r = normalize q) :
    isDrive (forward r) = false ∧ land place r = land place q := by
  have hr : isDrive (forward (normalize r)) = false := h ▸ hq.isDrive_normalize
  exact ⟨isDrive_of_normalize hr,
    by rw [← land_normalize_of_isDrive place hr, h, land_normalize place hq]⟩

theorem DriveFree.normalize_normalize {q : Path} (h : DriveFree q) :
    normalize (normalize q) = normalize q := by
  rcases settled_or_slips q with ⟨hsettled, -⟩ | ⟨hslips, -⟩
  · exact hsettled
  · have hfree := h.isDrive_normalize
    rw [Path.isDrive_forward, hslips.isDrive_normalize] at hfree
    cases hfree

/-! ## Resolving in steps -/

section

variable {cwd : Path} (hc : FromTop cwd) {xs ys : List Path}
  (hx : ∀ q ∈ xs, isDrive (forward q) = false)

include hx

theorem ordinary_foldl_land {place : List Text} (hp : ∀ s ∈ place, Ordinary s) :
    ∀ s ∈ xs.foldl land place, Ordinary s := by
  induction xs using List.reverseRecOn with
  | nil => exact hp
  | append_singleton xs q ih =>
    obtain ⟨hxs, hq⟩ := List.forall_mem_append.1 hx
    rw [List.foldl_append]
    exact ordinary_land (ih hxs) (hq q (List.mem_singleton_self q))

include hc

theorem resolve_eq_atTop : ∃ ss, (∀ s ∈ ss, Ordinary s) ∧ resolve cwd xs = atTop ss :=
  ⟨_, ordinary_foldl_land hx (ordinary_land_top hc), resolve_eq hc hx⟩

theorem resolve_append (hy : ∀ q ∈ ys, isDrive (forward q) = false) :
    resolve cwd (xs ++ ys) = resolve (resolve cwd xs) ys := by
  rw [resolve_eq hc (List.forall_mem_append.2 ⟨hx, hy⟩), List.foldl_append, resolve_eq hc hx,
    resolve_eq (fromTop_atTop _) hy, land_atTop [] (ordinary_foldl_land hx (ordinary_land_top hc))]

end

theorem resolve_respelled {cwd : Path} (hc : FromTop cwd) {before after : List Path} {q r : Path}
    (hfree : ∀ p ∈ before ++ q :: after, DriveFree p) (h : normalize r = normalize q) :
    resolve cwd (before ++ r :: after) = resolve cwd (before ++ q :: after) := by
  obtain ⟨hbefore, hfree⟩ := List.forall_mem_append.1 hfree
  obtain ⟨hq, hafter⟩ := List.forall_mem_cons.1 hfree
  have hland := fun place => land_eq_of_normalize_eq place hq h
  have hpaths : ∀ p, isDrive (forward p) = false →
      ∀ p' ∈ before ++ p :: after, isDrive (forward p') = false := fun p hp =>
    List.forall_mem_append.2 ⟨fun _ hm => (hbefore _ hm).isDrive_forward,
      List.forall_mem_cons.2 ⟨hp, fun _ hm => (hafter _ hm).isDrive_forward⟩⟩
  rw [resolve_eq hc (hpaths r (hland []).1), resolve_eq hc (hpaths q hq.isDrive_forward),
    List.foldl_append, List.foldl_append, List.foldl_cons, List.foldl_cons, (hland _).2]

end Path

open BatchCompile.Path

/-- From a working directory at the top, paths without drives may be resolved one part after the
other, and what they are resolved to starts at the top, has no segment that could be folded away and
is its own normal form. One of the paths may be normalized first, or spelled in any way that is
normalized alike; so such spellings name one file. -/
theorem resolve_stepwise {m : Type → Type} (h : Host m) (hc : FromTop h.cwd) (xs ys : List Path)
    (hfree : ∀ q ∈ xs ++ ys, DriveFree q) :
    resolve h.cwd (xs ++ ys) = resolve (resolve h.cwd xs) ys ∧
      (∃ ss, (∀ s ∈ ss, Ordinary s) ∧ resolve h.cwd (xs ++ ys) = atTop ss) ∧
      normalize (resolve h.cwd (xs ++ ys)) = resolve h.cwd (xs ++ ys) ∧
      (∀ before q after, xs ++ ys = before ++ q :: after →
        ∀ r, r = normalize q ∨ normalize r = normalize q →
          resolve h.cwd (before ++ r :: after) = resolve h.cwd (xs ++ ys)) ∧
      ∀ q ∈ xs ++ ys, ∀ r, normalize r = normalize q → h.absolute r = h.absolute q := by
  have hdrive : ∀ q ∈ xs ++ ys, isDrive (forward q) = false := fun q hq =>
    (hfree q hq).isDrive_forward
  obtain ⟨hx, hy⟩ := List.forall_mem_append.1 hdrive
  obtain ⟨ss, hss, hresolve⟩ := resolve_eq_atTop hc hdrive
  refine ⟨resolve_append hc hx hy, ⟨ss, hss, hresolve⟩, ?_, ?_, ?_⟩
  · rw [hresolve, normalize_atTop hss]
  · intro before q after hsplit r hr
    rw [hsplit] at hfree ⊢
    have hq := hfree q (by simp)
    refine resolve_respelled hc hfree (hr.elim ?_ id)
    rintro rfl
    exact hq.normalize_normalize
  · intro q hq r hr
    have halone : ∀ p ∈ [] ++ [q], DriveFree p := by simpa using hfree q hq
    exact resolve_respelled hc halone hr

/-- Some segments are folded over the end of a path, and a rooted one starts anew. -/
theorem resolve_stepwise_spelled :
    let h := Memory.host "/work//x/..".toList
    let xs := ["src\\a".toList, [], "../../..".toList]
    let ys := ["./b/".toList, "/lib\\.".toList, "../c".toList]
    resolve h.cwd (xs ++ ys) = resolve (resolve h.cwd xs) ys ∧
      resolve h.cwd (xs ++ ys) = "/c".toList ∧
      h.absolute "src/b/../a/".toList = h.absolute "src\\a".toList := by
  intro h xs ys
  obtain ⟨hsteps, -, -, -, halike⟩ := resolve_stepwise h (by decide) xs ys (by decide)
  exact ⟨hsteps, by decide, halike "src\\a".toList (by decide) _ (by decide)⟩

end BatchCompile
