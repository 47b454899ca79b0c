import BatchCompile.Proofs.Path.Anchored
import BatchCompile.Proofs.Path.Ways

/-!
# Going on from a rooted path

From a rooted path a way leads on as `settle` says, whatever the root is (`segments_resolve`), and
between two places with one root it is the way between their segments (`relative_of_root`). Steps up
are forgotten where the way goes down again through what it left; where it does not, the place tells
the way (`eq_of_settle_eq`).
-/

namespace BatchCompile.Path

/-- The segments of a path, without its root. -/
def stepsOf (p : Path) : List Text :=
  (Parts.of p).segments

/-! ## Working directories -/

theorem resolve_nil (cwd : Path) : resolve cwd [] = normalize cwd := by
  rw [resolve, List.foldl_nil, normalize, forward_forward, normalize]

section

variable {cwd : Path} (hc : isRooted cwd = true)

include hc

theorem resolve_cwd_cons (qs : List Path) : resolve cwd (cwd :: qs) = resolve cwd qs := by
  have hne : cwd ≠ [] := by
    rintro rfl
    cases hc
  rw [resolve, List.foldl_cons, follow, if_neg hne, if_pos hc, resolve]

theorem segmentsOf_append_of_isRooted (t : Text) :
    segmentsOf (cutRoot (forward cwd ++ '/' :: t)).2 =
      segmentsOf (cutRoot (forward cwd)).2 ++ segmentsOf t := by
  have hproper := proper_cutRoot hc
  have hcut := text_cutRoot (forward cwd)
  generalize hp : forward cwd = p at hproper hcut ⊢
  rcases hroot : cutRoot p with ⟨root, rest⟩
  rw [hroot] at hproper hcut
  subst hcut
  match root, hproper with
  | .top, _ => exact segmentsOf_append_slash rest t
  | .drive letter true, hl =>
    show segmentsOf (cutRoot (letter :: ':' :: '/' :: (rest ++ '/' :: t))).2 = _
    rw [cutRoot_drive_slash hl]
    exact segmentsOf_append_slash rest t
  | .drive letter false, hl =>
    show segmentsOf (cutRoot (letter :: ':' :: (rest ++ '/' :: t))).2 = _
    cases rest with
    | nil =>
      rw [List.nil_append, cutRoot_drive_slash hl]
      rfl
    | cons x rest =>
      have hx : (x :: rest ++ '/' :: t).head? ≠ some '/' := by
        rintro hx
        obtain rfl : x = '/' := by simpa using hx
        have := (cutRoot_drive_slash hl rest).symm.trans hroot
        cases this
      rw [cutRoot_drive hl hx]
      exact segmentsOf_append_slash (x :: rest) t

/-- From a rooted working directory segments lead on from where other paths led. -/
theorem segments_resolve (qs : List Path) {rs : List Text}
    (hr : ∀ s ∈ rs, IsSegment s ∧ isDrive s = false) :
    stepsOf (resolve cwd (qs ++ [Text.join ['/'] rs])) = settle (stepsOf (resolve cwd qs)) rs := by
  have hseg : ∀ s ∈ rs, IsSegment s := fun s hm => (hr s hm).1
  have hparts : ∀ {p : Path}, isRooted p = true →
      stepsOf (normalize p) = settle [] (segmentsOf (cutRoot (forward p)).2) := by
    intro p hp
    rw [stepsOf, normalize_of_isRooted hp, of_through (proper_cutRoot hp)
      (isSegment_all (ordinary_of_isRooted p))]
  have hplace := isRooted_foldl_follow hc qs
  rw [resolve, resolve, List.foldl_append, List.foldl_cons, List.foldl_nil]
  generalize qs.foldl follow (forward cwd) = p at hplace
  cases rs with
  | nil => exact (settle_nil _).symm
  | cons r rs =>
    have hhead : (Text.join ['/'] (r :: rs)).head? ≠ some '/' :=
      head?_join (hseg r List.mem_cons_self)
    have hne : Text.join ['/'] (r :: rs) ≠ [] := by
      intro hnil
      have hempty := segmentsOf_join hseg
      rw [hnil] at hempty
      cases hempty
    have hfree : isDrive (Text.join ['/'] (r :: rs)) = false :=
      (isDrive_join r rs).trans (hr r List.mem_cons_self).2
    have hroot : isRooted (Text.join ['/'] (r :: rs)) = false := by
      rw [isRooted, forward_join hseg, cutRoot_here hhead hfree]
      rfl
    have hfollow : follow p (Text.join ['/'] (r :: rs)) = p ++ '/' :: Text.join ['/'] (r :: rs) := by
      rw [follow, if_neg hne, if_neg (by simp [hroot])]
    rw [hfollow, hparts (isRooted_append hplace _), hparts hplace, forward_append,
      forward_cons_slash, forward_join hseg, segmentsOf_append_of_isRooted hplace,
      segmentsOf_join hseg, settle_append]

end

theorem relative_of_root {p q : Path} (hp : Anchored p) (hq : Anchored q)
    (h : (Parts.of p).root = (Parts.of q).root) :
    relative p q = Text.join ['/'] (way (stepsOf p) (stepsOf q)) := by
  obtain ⟨root, xs, hroot, hx, rfl⟩ := hp
  obtain ⟨root', ys, hroot', hy, rfl⟩ := hq
  unfold stepsOf
  rw [of_through hroot (isSegment_all hx), of_through hroot' (isSegment_all hy)] at h ⊢
  obtain rfl : root = root' := h
  unfold relative
  rw [normalize_through hroot hx, normalize_through hroot hy]
  by_cases he : root.through xs = root.through ys
  · obtain rfl : xs = ys := by
      have := congrArg Parts.of he
      rw [of_through hroot (isSegment_all hx), of_through hroot (isSegment_all hy)] at this
      exact congrArg Parts.segments this
    have hstay := way_append xs []
    rw [List.append_nil] at hstay
    simp only [↓reduceIte, hstay, Text.join_nil]
  · simp only [if_neg he, of_through hroot (isSegment_all hx), of_through hroot (isSegment_all hy),
      ne_eq, not_true_eq_false, ↓reduceIte]
    rw [show xs.filter (fun s => decide ¬s = self) = xs from filter_self_eq hx,
      show ys.filter (fun s => decide ¬s = self) = ys from filter_self_eq hy]
    rfl

theorem Anchored.eq_of_stepsOf_eq {p q : Path} (hp : Anchored p) (hq : Anchored q)
    (hr : (Parts.of p).root = (Parts.of q).root) (hs : stepsOf p = stepsOf q) : p = q := by
  obtain ⟨root, xs, hroot, hx, rfl⟩ := hp
  obtain ⟨root', ys, hroot', hy, rfl⟩ := hq
  unfold stepsOf at hs
  rw [of_through hroot (isSegment_all hx), of_through hroot' (isSegment_all hy)] at hr hs
  obtain rfl : root = root' := hr
  obtain rfl : xs = ys := hs
  rfl

theorem Anchored.ordinary {p : Path} (hp : Anchored p) : ∀ s ∈ stepsOf p, Ordinary s := by
  obtain ⟨root, ss, hroot, hs, rfl⟩ := hp
  rwa [stepsOf, of_through hroot (isSegment_all hs)]

/-! ## Steps up -/

theorem drop_way (xs ys : List Text) (n : Nat) :
    (way xs ys).drop n = ups (xs.length - sharedLength xs ys - n) ++
      (ys.drop (sharedLength xs ys)).drop (n - (xs.length - sharedLength xs ys)) := by
  rw [way, List.drop_append, List.drop_replicate, List.length_replicate, ups]

section

variable {place : List Text}

/-- A way that does not go down through what it left shares with the place what it did not leave. -/
theorem sharedLength_take {zs : List Text} {k : Nat} (hk : k ≤ place.length)
    (hz : ∀ z ∈ zs.head?, place[k]? ≠ some z) : sharedLength place (place.take k ++ zs) = k := by
  induction place generalizing k with
  | nil =>
    obtain rfl : k = 0 := Nat.le_zero.1 hk
    rfl
  | cons x place ih =>
    cases k with
    | zero =>
      cases zs with
      | nil => rfl
      | cons z zs =>
        have hne : x ≠ z := by simpa using hz z rfl
        exact if_neg hne
    | succ k =>
      rw [List.take_succ_cons, List.cons_append, sharedLength, if_pos rfl,
        ih (Nat.le_of_succ_le_succ hk) fun z hm => by simpa using hz z hm]

variable (hp : ∀ s ∈ place, Ordinary s) {k k' : Nat} {zs zs' : List Text}

include hp

theorem settle_ups_append (hk : k ≤ place.length) (hz : ∀ z ∈ zs, Ordinary z) :
    settle place (ups k ++ zs) = place.take (place.length - k) ++ zs := by
  have hlength : (place.drop (place.length - k)).length = k := by
    rw [List.length_drop]
    omega
  have hback := settle_ups (place.take (place.length - k))
    fun s hs => hp s (List.mem_of_mem_drop (i := place.length - k) hs)
  rw [hlength, List.take_append_drop] at hback
  rw [settle_append, ups, hback, settle_ordinary _ hz]

/-- From one place two ways lead to different places, if neither goes down through what it left. -/
theorem eq_of_settle_eq (hk : k ≤ place.length) (hk' : k' ≤ place.length)
    (hz : ∀ z ∈ zs, Ordinary z) (hz' : ∀ z ∈ zs', Ordinary z)
    (hleave : ∀ z ∈ zs.head?, place[place.length - k]? ≠ some z)
    (hleave' : ∀ z ∈ zs'.head?, place[place.length - k']? ≠ some z)
    (h : settle place (ups k ++ zs) = settle place (ups k' ++ zs')) :
    ups k ++ zs = ups k' ++ zs' := by
  rw [settle_ups_append hp hk hz, settle_ups_append hp hk' hz'] at h
  have hshared := sharedLength_take (Nat.sub_le _ _) hleave
  rw [h, sharedLength_take (Nat.sub_le _ _) hleave'] at hshared
  obtain rfl : k = k' := by omega
  rw [List.append_cancel_left h]

end

end BatchCompile.Path
