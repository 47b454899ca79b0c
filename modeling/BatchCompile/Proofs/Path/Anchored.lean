import BatchCompile.Proofs.Path.Parents

/-!
# Anchored paths

Seen from a rooted working directory every path becomes a root and ordinary segments
(`exists_anchored`). Such a path is the same from everywhere (`resolve_anchored`), and so are all
the directories above it (`anchored_of_mem_ancestors`).
-/

namespace BatchCompile.Path

/-- A root that a path can start with and be the same from everywhere. -/
def Root.Proper : Root → Prop
  | .here => False
  | .top => True
  | .drive letter _ => letter.isAlpha = true

def Root.through (root : Root) (ss : List Text) : Path :=
  root.text ++ Text.join ['/'] ss

/-- A path that starts at a root and leads down. -/
def Anchored (p : Path) : Prop :=
  ∃ (root : Root) (ss : List Text), root.Proper ∧ (∀ s ∈ ss, Ordinary s) ∧ p = root.through ss

theorem Root.Proper.anchored {root : Root} (h : root.Proper) : root.anchored = true := by
  cases root with
  | here => exact h.elim
  | top => rfl
  | drive letter slash => rfl

theorem Root.Proper.text_ne_nil {root : Root} (h : root.Proper) : root.text ≠ [] := by
  match root, h with
  | .top, _ => exact List.cons_ne_nil _ _
  | .drive _ true, _ => exact List.cons_ne_nil _ _
  | .drive _ false, _ => exact List.cons_ne_nil _ _

theorem Root.Proper.backslash {root : Root} (h : root.Proper) : '\\' ∉ root.text := by
  have hletter : ∀ letter : Char, letter.isAlpha = true → '\\' ≠ letter := by
    rintro _ hl rfl
    exact absurd hl (by decide)
  match root, h with
  | .top, _ => decide
  | .drive letter true, h => simpa [Root.text] using hletter letter h
  | .drive letter false, h => simpa [Root.text] using hletter letter h

/-! ## Roots can be read off -/

theorem text_cutRoot (p : Path) : (cutRoot p).1.text ++ (cutRoot p).2 = p := by
  unfold cutRoot
  split
  · rfl
  · split
    · split <;> rfl
    · rfl
  · rfl

theorem proper_cutRoot {p : Path} (h : (cutRoot p).1.anchored = true) : (cutRoot p).1.Proper := by
  unfold cutRoot at h ⊢
  split at h
  · trivial
  · rename_i letter rest _
    split at h
    · rename_i hletter
      rw [if_pos hletter]
      split <;> exact hletter
    · cases h
  · cases h

theorem cutRoot_drive_slash {letter : Char} (h : letter.isAlpha = true) (rest : Text) :
    cutRoot (letter :: ':' :: '/' :: rest) = (.drive letter true, rest) := by
  unfold cutRoot
  split
  · rename_i heq
    cases heq
    exact absurd h (by decide)
  · rename_i heq
    cases heq
    rw [if_pos h]
    rfl
  · rename_i hne
    exact absurd rfl (hne letter _)

theorem cutRoot_drive {letter : Char} (h : letter.isAlpha = true) {rest : Text}
    (hr : rest.head? ≠ some '/') : cutRoot (letter :: ':' :: rest) = (.drive letter false, rest) := by
  unfold cutRoot
  split
  · rename_i heq
    cases heq
    exact absurd h (by decide)
  · rename_i heq
    cases heq
    rw [if_pos h]
    split
    · exact absurd rfl hr
    · rfl
  · rename_i hne
    exact absurd rfl (hne letter _)

theorem cutRoot_through {root : Root} (h : root.Proper) {ss : List Text}
    (hs : ∀ s ∈ ss, IsSegment s) : cutRoot (root.through ss) = (root, Text.join ['/'] ss) := by
  match root, h with
  | .top, _ => rfl
  | .drive letter true, h => exact cutRoot_drive_slash h _
  | .drive letter false, h =>
    refine cutRoot_drive h ?_
    cases ss with
    | nil => exact (nomatch ·)
    | cons s ss => exact head?_join (hs s List.mem_cons_self)

theorem forward_through {root : Root} (h : root.Proper) {ss : List Text}
    (hs : ∀ s ∈ ss, IsSegment s) : forward (root.through ss) = root.through ss := by
  rw [Root.through, forward_append, forward_eq_self h.backslash, forward_join hs]

/-! ## Anchored paths are fixed -/

theorem normalize_through {root : Root} (h : root.Proper) {ss : List Text}
    (hs : ∀ s ∈ ss, Ordinary s) : normalize (root.through ss) = root.through ss := by
  have hseg := isSegment_all hs
  have hne : root ≠ .here := by
    rintro rfl
    exact h
  have hfold : (ss.foldl (Parts.push true) []).reverse = ss := by
    have := settle_ordinary [] hs
    rwa [settle] at this
  rw [normalize, forward_through h hseg, partsOf_eq, cutRoot_through h hseg, segmentsOf_join hseg,
    Parts.fold, h.anchored, hfold, Parts.text, if_neg fun e => hne e.1]
  rfl

/-- The root and the segments of an anchored path can be read off it. -/
theorem of_through {root : Root} (h : root.Proper) {ss : List Text} (hs : ∀ s ∈ ss, IsSegment s) :
    Parts.of (root.through ss) = ⟨root, ss⟩ := by
  rw [partsOf_eq, cutRoot_through h hs, segmentsOf_join hs]

theorem normalize_of_isRooted {p : Path} (h : isRooted p = true) :
    normalize p =
      (cutRoot (forward p)).1.through (settle [] (segmentsOf (cutRoot (forward p)).2)) := by
  have hproper := proper_cutRoot h
  have hne : (cutRoot (forward p)).1 ≠ .here := by
    intro e
    rw [e] at hproper
    exact hproper
  rw [normalize, partsOf_eq, Parts.fold, hproper.anchored, Parts.text, if_neg fun e => hne e.1]
  rfl

theorem ordinary_of_isRooted (p : Path) :
    ∀ s ∈ settle [] (segmentsOf (cutRoot (forward p)).2), Ordinary s := by
  have hbackslash : '\\' ∉ (cutRoot (forward p)).2 := by
    intro hb
    have := List.mem_append_right (cutRoot (forward p)).1.text hb
    rw [text_cutRoot] at this
    exact backslash_notMem_forward p this
  exact ordinary_settle (by simp) fun s hs => isSegment_of_mem_segmentsOf hbackslash hs

/-- What starts at a root is normalized to an anchored path. -/
theorem anchored_normalize {p : Path} (h : isRooted p = true) : Anchored (normalize p) :=
  ⟨_, _, proper_cutRoot h, ordinary_of_isRooted p, normalize_of_isRooted h⟩

theorem isRooted_through {root : Root} (h : root.Proper) {ss : List Text}
    (hs : ∀ s ∈ ss, IsSegment s) : isRooted (root.through ss) = true := by
  rw [isRooted, forward_through h hs, cutRoot_through h hs]
  exact h.anchored

/-! ## Resolving -/

theorem isRooted_iff {p : Path} :
    isRooted p = true ↔ FromTop p ∨ isDrive (forward p) = true := by
  constructor
  · intro h
    by_contra hne
    rw [not_or, Bool.not_eq_true] at hne
    rw [isRooted, cutRoot_here hne.1 hne.2] at h
    cases h
  · rintro (h | h)
    · obtain ⟨t, ht⟩ := h.forward_eq
      rw [isRooted, ht]
      rfl
    · obtain ⟨letter, slash, -, hroot⟩ := root_of_isDrive h
      rw [isRooted, hroot]
      rfl

theorem isRooted_append {p : Path} (h : isRooted p = true) (q : Path) :
    isRooted (p ++ q) = true := by
  rw [isRooted_iff] at h ⊢
  refine h.imp (fun h => ?_) fun h => ?_
  · obtain ⟨t, ht⟩ := h.forward_eq
    rw [FromTop, forward_append, ht]
    rfl
  · rw [forward_append]
    unfold isDrive at h
    split at h
    · rename_i heq
      rw [heq]
      exact h
    · cases h

theorem isRooted_follow {p : Path} (h : isRooted p = true) (q : Path) :
    isRooted (follow p q) = true := by
  unfold follow
  split
  · exact h
  · split
    · rename_i hq
      rwa [isRooted, forward_forward]
    · exact isRooted_append h _

theorem isRooted_foldl_follow {cwd : Path} (hc : isRooted cwd = true) (qs : List Path) :
    isRooted (qs.foldl follow (forward cwd)) = true := by
  induction qs using List.reverseRecOn with
  | nil => rwa [List.foldl_nil, isRooted, forward_forward]
  | append_singleton qs q ih =>
    rw [List.foldl_append]
    exact isRooted_follow ih q

theorem anchored_resolve_all {cwd : Path} (hc : isRooted cwd = true) (qs : List Path) :
    Anchored (resolve cwd qs) :=
  anchored_normalize (isRooted_foldl_follow hc qs)

theorem anchored_resolve {cwd : Path} (hc : isRooted cwd = true) (p : Path) :
    Anchored (resolve cwd [p]) :=
  anchored_resolve_all hc [p]

/-- An anchored path is the same from everywhere. -/
theorem resolve_anchored (cwd : Path) {p : Path} (h : Anchored p) : resolve cwd [p] = p := by
  obtain ⟨root, ss, hroot, hs, rfl⟩ := h
  have hseg := isSegment_all hs
  have hne : root.through ss ≠ [] := fun e => hroot.text_ne_nil (List.append_eq_nil_iff.1 e).1
  rw [resolve, List.foldl_cons, List.foldl_nil, follow, if_neg hne,
    if_pos (isRooted_through hroot hseg), forward_through hroot hseg, normalize_through hroot hs]

theorem Anchored.forward {p : Path} (h : Anchored p) : forward p = p := by
  obtain ⟨root, ss, hroot, hs, rfl⟩ := h
  exact forward_through hroot (isSegment_all hs)

theorem Anchored.isRooted {p : Path} (h : Anchored p) : isRooted p = true := by
  obtain ⟨root, ss, hroot, hs, rfl⟩ := h
  exact isRooted_through hroot (isSegment_all hs)

/-! ## Directories above -/

theorem dirName_through {root : Root} (h : root.Proper) {ss : List Text} {s : Text}
    (hs : ∀ u ∈ ss ++ [s], IsSegment u) :
    dirName (root.through (ss ++ [s])) = some (root.through ss) := by
  have hcut : cutRoot (forward (root.through (ss ++ [s]))) =
      (root, Text.join ['/'] (ss ++ [s])) := by rw [forward_through h hs, cutRoot_through h hs]
  rw [dirName_of_cutRoot hcut (hs s (by simp))]
  split
  · rename_i hss
    rw [hss, if_pos h.anchored, Root.through, Text.join_nil, List.append_nil]
  · rfl

theorem dirName_root {root : Root} (h : root.Proper) : dirName (root.through []) = none := by
  unfold dirName
  rw [forward_through h (by simp), cutRoot_through h (by simp)]
  rfl

theorem Anchored.dirName {p q : Path} (h : Anchored p) (hq : dirName p = some q) : Anchored q := by
  obtain ⟨root, ss, hroot, hs, rfl⟩ := h
  cases ss using List.reverseRecOn with
  | nil =>
    rw [dirName_root hroot] at hq
    cases hq
  | append_singleton ss s =>
    rw [dirName_through hroot (isSegment_all hs)] at hq
    cases hq
    exact ⟨root, ss, hroot, fun u hu => hs u (List.mem_append_left _ hu), rfl⟩

theorem anchored_of_mem_ancestors {p d : Path} (h : Anchored p) (hd : d ∈ ancestors p) :
    Anchored d := by
  fun_induction ancestors p with
  | case1 p hp => cases hd
  | case2 p q hp ih =>
    have hq := h.dirName hp
    rcases List.mem_cons.1 hd with rfl | hd
    · exact hq
    · exact ih hq hd

end BatchCompile.Path
