import BatchCompile.Proofs.Path.Anchored

/-!
# Normal forms

What `normalize` makes of a rooted path stays as it is when it is normalized again, and so does what
it makes of any other path, with one exception: segments may be folded down to a first one that is
written like a drive with dots behind it (`Slips`). Read again, that is a drive, and the dots are
folded away. A second pass is always the last (`normalize_settles`).
-/

namespace BatchCompile.Path

theorem normalize_of_anchored {p : Path} (h : Anchored p) : normalize p = p := by
  obtain ⟨root, ss, hroot, hs, rfl⟩ := h
  exact normalize_through hroot hs

/-! ## Ways that go up first -/

theorem foldl_push_ups (k : Nat) : (ups k).foldl (Parts.push false) [] = ups k := by
  induction k with
  | zero => rfl
  | succ k ih =>
    have hpush : Parts.push false (ups k) up = up :: ups k := by
      have hself : up ≠ self := by decide
      cases k <;> simp [Parts.push, hself, ups, List.replicate_succ]
    rw [ups, List.replicate_succ', List.foldl_append, ← ups, ih, List.foldl_cons, List.foldl_nil,
      hpush, ups, ← List.replicate_succ, List.replicate_succ']

theorem foldl_push_ordinary {ss : List Text} (h : ∀ s ∈ ss, Ordinary s) (kept : List Text) :
    ss.foldl (Parts.push false) kept = ss.reverse ++ kept := by
  induction ss generalizing kept with
  | nil => rfl
  | cons s ss ih =>
    have hs := h s List.mem_cons_self
    have hpush : Parts.push false kept s = s :: kept := by
      simp [Parts.push, hs.ne_self, hs.ne_up]
    rw [List.foldl_cons, hpush, ih fun u hu => h u (List.mem_cons_of_mem _ hu)]
    simp

theorem fold_ups_append {k : Nat} {zs : List Text} (h : ∀ z ∈ zs, Ordinary z) :
    Parts.fold ⟨.here, ups k ++ zs⟩ = ⟨.here, ups k ++ zs⟩ := by
  have hreverse : (ups k).reverse = ups k := List.reverse_replicate
  rw [Parts.fold, Root.anchored, List.foldl_append, foldl_push_ups, foldl_push_ordinary h,
    List.reverse_append, List.reverse_reverse, hreverse]

theorem isSegment_ups_append {k : Nat} {zs : List Text} (h : ∀ z ∈ zs, Ordinary z) :
    ∀ s ∈ ups k ++ zs, IsSegment s :=
  List.forall_mem_append.2
    ⟨fun _ hu => List.eq_of_mem_replicate hu ▸ isSegment_up, isSegment_all h⟩

theorem text_here_cons (s : Text) (ss : List Text) :
    Parts.text ⟨.here, s :: ss⟩ = Text.join ['/'] (s :: ss) := by
  rw [Parts.text, if_neg fun hnil => List.cons_ne_nil _ _ hnil.2]
  rfl

theorem normalize_text_here {k : Nat} {zs : List Text} (h : ∀ z ∈ zs, Ordinary z)
    (hd : ∀ s ∈ (ups k ++ zs).head?, isDrive s = false) :
    normalize (Parts.text ⟨.here, ups k ++ zs⟩) = Parts.text ⟨.here, ups k ++ zs⟩ := by
  have hseg := isSegment_ups_append (k := k) h
  have hfold := fold_ups_append (k := k) h
  generalize ups k ++ zs = us at hd hseg hfold
  cases us with
  | nil => decide
  | cons s ss =>
    have hdrive : isDrive (Text.join ['/'] (s :: ss)) = false := (isDrive_join s ss).trans (hd s rfl)
    have hof : Parts.of (Text.join ['/'] (s :: ss)) = ⟨.here, s :: ss⟩ := by
      rw [partsOf_eq, cutRoot_here (head?_join (hseg s List.mem_cons_self)) hdrive,
        segmentsOf_join hseg]
    rw [text_here_cons, normalize, forward_join hseg, hof, hfold, text_here_cons]

/-! ## Drives that segments are folded down to -/

/-- A drive with `.` or `..` behind it, in one segment. -/
def dotsOnDrive : Text → Bool
  | letter :: ':' :: dots => letter.isAlpha && (dots = self || dots = up)
  | _ => false

/-- A path that starts anywhere and is folded down to segments of which the first is a drive with
dots behind it. -/
def Slips (p : Path) : Prop :=
  isRooted p = false ∧ ∃ s ∈ (Parts.of (forward p)).fold.segments.head?, dotsOnDrive s = true

section

variable {letter : Char} (hl : letter.isAlpha = true) {rest : Text} {zs : List Text}

theorem text_drive (letter : Char) (rest : Text) (zs : List Text) :
    Parts.text ⟨.here, (letter :: ':' :: rest) :: zs⟩ =
      (Root.drive letter false).through (rest :: zs) := by
  rw [text_here_cons, Text.join, List.intercalate_cons_cons_left, List.intercalate_cons_cons_left]
  rfl

theorem isSegment_dots (h : rest = self ∨ rest = up) (hz : ∀ z ∈ zs, IsSegment z) :
    ∀ s ∈ rest :: zs, IsSegment s := by
  refine List.forall_mem_cons.2 ⟨?_, hz⟩
  rcases h with rfl | rfl
  · exact ⟨by decide, by decide, by decide⟩
  · exact isSegment_up

include hl

/-- Without dots behind it, a drive in front of a normal form is as good as one in front of the
path. -/
theorem anchored_text_drive (hz : ∀ z ∈ zs, Ordinary z) (hs : '/' ∉ rest) (hb : '\\' ∉ rest)
    (hdots : rest ≠ self ∧ rest ≠ up) :
    Anchored (Parts.text ⟨.here, (letter :: ':' :: rest) :: zs⟩) := by
  rw [text_drive]
  by_cases hrest : rest = []
  · subst hrest
    by_cases hnil : zs = []
    · subst hnil
      exact ⟨.drive letter false, [], hl, by simp, rfl⟩
    · refine ⟨.drive letter true, zs, hl, hz, ?_⟩
      rw [Root.through, Text.join_cons _ _ hnil]
      rfl
  · refine ⟨.drive letter false, rest :: zs, hl, List.forall_mem_cons.2 ⟨?_, hz⟩, rfl⟩
    exact ⟨⟨hrest, hs, hb⟩, hdots.1, hdots.2⟩

theorem normalize_text_dots (hz : ∀ z ∈ zs, Ordinary z) (hdots : rest = self ∨ rest = up) :
    normalize (Parts.text ⟨.here, (letter :: ':' :: rest) :: zs⟩) =
      (Root.drive letter false).through zs := by
  have hproper : (Root.drive letter false).Proper := hl
  have hseg := isSegment_dots hdots (isSegment_all hz)
  have hstay : settle [] [rest] = [] := by
    rcases hdots with rfl | rfl
    · exact settle_self []
    · exact settle_top
  rw [text_drive, normalize_of_isRooted (isRooted_through hproper hseg),
    forward_through hproper hseg, cutRoot_through hproper hseg, segmentsOf_join hseg, settle_cons,
    hstay, settle_ordinary [] hz, List.nil_append]

theorem normalize_text_dots_ne (hz : ∀ z ∈ zs, Ordinary z) (hdots : rest = self ∨ rest = up) :
    normalize (Parts.text ⟨.here, (letter :: ':' :: rest) :: zs⟩) ≠
      Parts.text ⟨.here, (letter :: ':' :: rest) :: zs⟩ := by
  have hproper : (Root.drive letter false).Proper := hl
  rw [normalize_text_dots hl hz hdots, text_drive]
  intro heq
  have hparts := congrArg Parts.of heq
  rw [of_through hproper (isSegment_all hz),
    of_through hproper (isSegment_dots hdots (isSegment_all hz))] at hparts
  exact absurd (congrArg (·.segments.length) hparts) (by simp)

end

/-! ## Normalizing again -/

theorem isDrive_of_dotsOnDrive {s : Text} (h : dotsOnDrive s = true) : isDrive s = true := by
  unfold dotsOnDrive at h
  split at h
  · exact (Bool.and_eq_true_iff.1 h).1
  · cases h

theorem partsOf_of_not_isRooted {p : Path} (h : isRooted p = false) :
    Parts.of (forward p) = ⟨.here, segmentsOf (forward p)⟩ := by
  have hne := isRooted_iff.not.1 (Bool.eq_false_iff.1 h)
  rw [not_or, Bool.not_eq_true] at hne
  rw [partsOf_eq, cutRoot_here hne.1 hne.2]

theorem exists_fold_of_not_isRooted {p : Path} (h : isRooted p = false) :
    ∃ k zs, (∀ z ∈ zs, Ordinary z) ∧ (Parts.of (forward p)).fold.segments = ups k ++ zs ∧
      normalize p = Parts.text ⟨.here, ups k ++ zs⟩ := by
  have hseg : ∀ s ∈ segmentsOf (forward p), IsSegment s := fun s =>
    isSegment_of_mem_segmentsOf (backslash_notMem_forward p)
  obtain ⟨k, zs, hzs, hfold⟩ := fold_here hseg
  have hof := partsOf_of_not_isRooted h
  refine ⟨k, zs, hzs, hof ▸ hfold, ?_⟩
  rw [normalize, hof, ← hfold]
  rfl

theorem exists_drive {k : Nat} {zs : List Text} {s : Text} (hs : s ∈ (ups k ++ zs).head?)
    (hd : isDrive s = true) :
    ∃ letter rest zs', letter.isAlpha = true ∧ s = letter :: ':' :: rest ∧
      ups k ++ zs = s :: zs' ∧ zs = s :: zs' := by
  cases k with
  | succ k =>
    obtain rfl : up = s := by simpa [ups, List.replicate_succ] using hs
    cases hd
  | zero =>
    obtain ⟨zs', hzs'⟩ := List.head?_eq_some_iff.1 hs
    unfold isDrive at hd
    split at hd
    · rename_i letter rest
      exact ⟨letter, rest, zs', hd, rfl, hzs', hzs'⟩
    · cases hd

/-- Either a path is settled once it is normalized, or it slips: then it becomes another path when
it is normalized again, and that one is anchored. -/
theorem settled_or_slips (p : Path) :
    (normalize (normalize p) = normalize p ∧ ¬Slips p) ∨
      (Slips p ∧ normalize (normalize p) ≠ normalize p ∧ Anchored (normalize (normalize p))) := by
  cases hroot : isRooted p with
  | true =>
    refine .inl ⟨normalize_of_anchored (anchored_normalize hroot), fun hslips => ?_⟩
    rw [hslips.1] at hroot
    cases hroot
  | false =>
    obtain ⟨k, zs, hzs, hfold, hn⟩ := exists_fold_of_not_isRooted hroot
    rw [Slips, hfold, hn]
    by_cases hd : ∀ s ∈ (ups k ++ zs).head?, isDrive s = false
    · refine .inl ⟨normalize_text_here hzs hd, ?_⟩
      rintro ⟨-, s, hs, hdots⟩
      exact absurd (isDrive_of_dotsOnDrive hdots) (by simp [hd s hs])
    · simp only [not_forall, Bool.not_eq_false] at hd
      obtain ⟨s, hs, hd⟩ := hd
      obtain ⟨letter, rest, zs', hl, rfl, he, rfl⟩ := exists_drive hs hd
      obtain ⟨hz, hzs'⟩ := List.forall_mem_cons.1 hzs
      rw [he]
      by_cases hdots : rest = self ∨ rest = up
      · refine .inr ⟨⟨hroot, _, rfl, by simpa [dotsOnDrive, hl] using hdots⟩,
          normalize_text_dots_ne hl hzs' hdots, ?_⟩
        rw [normalize_text_dots hl hzs' hdots]
        exact ⟨.drive letter false, zs', hl, hzs', rfl⟩
      · refine .inl ⟨normalize_of_anchored (anchored_text_drive hl hzs' ?_ ?_ (not_or.1 hdots)), ?_⟩
        · exact fun hm => hz.slash (by simp [hm])
        · exact fun hm => hz.backslash (by simp [hm])
        · rintro ⟨-, s, hs, hslip⟩
          obtain rfl : _ = s := by simpa using hs
          exact hdots (by simpa [dotsOnDrive, hl] using hslip)

theorem Slips.isDrive_normalize {p : Path} (h : Slips p) : isDrive (normalize p) = true := by
  obtain ⟨hroot, s, hs, hdots⟩ := h
  obtain ⟨k, zs, -, hfold, hn⟩ := exists_fold_of_not_isRooted hroot
  rw [hfold] at hs
  obtain ⟨ss, hss⟩ := List.head?_eq_some_iff.1 hs
  rw [hn, hss, text_here_cons]
  exact (isDrive_join s ss).trans (isDrive_of_dotsOnDrive hdots)

/-- Normalizing twice is normalizing once, except where a path slips onto a drive; normalizing three
times is always normalizing twice. -/
theorem normalize_settles (p : Path) :
    (normalize (normalize p) = normalize p ↔ ¬Slips p) ∧
      normalize (normalize (normalize p)) = normalize (normalize p) := by
  rcases settled_or_slips p with ⟨hsettled, hnot⟩ | ⟨hslips, hne, hanchored⟩
  · exact ⟨iff_of_true hsettled hnot, congrArg normalize hsettled⟩
  · exact ⟨iff_of_false hne (not_not_intro hslips), normalize_of_anchored hanchored⟩

/-- A dot that is kept as part of a segment is folded away on a drive the next time. -/
theorem normalize_again_folds_dot :
    let once := normalize "./C:./a".toList
    once = "C:./a".toList ∧ normalize once = "C:a".toList ∧ normalize once ≠ once := by
  decide

end BatchCompile.Path
