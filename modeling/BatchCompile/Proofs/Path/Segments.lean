import BatchCompile.Path.Names
import BatchCompile.Proofs.Text.Pieces

/-!
# Segments of paths

A path from the top is `atTop` of its segments, and they can be read off it again
(`of_atTop`). A path is free of drives if none of its segments looks like one; then its root is
where it starts and nothing else (`cutRoot_here`). `Ordinary` segments are those that lead down.
-/

namespace BatchCompile.Path

/-! ## Slashes -/

@[simp] theorem forward_nil : forward [] = [] := rfl

@[simp] theorem forward_append (a b : Path) : forward (a ++ b) = forward a ++ forward b :=
  List.map_append

@[simp] theorem forward_cons_slash (t : Path) : forward ('/' :: t) = '/' :: forward t := rfl

theorem backslash_notMem_forward (p : Path) : '\\' ∉ forward p := by
  intro h
  obtain ⟨c, _, hc⟩ := List.mem_map.1 h
  split at hc
  · cases hc
  · rename_i hne
    exact hne hc

theorem forward_eq_self {p : Path} (h : '\\' ∉ p) : forward p = p := by
  refine (List.map_congr_left fun c hc => ?_).trans (List.map_id p)
  have hne : c ≠ '\\' := fun e => h (e ▸ hc)
  rw [if_neg hne, id]

theorem forward_forward (p : Path) : forward (forward p) = forward p :=
  forward_eq_self (backslash_notMem_forward p)

/-! ## Segments -/

/-- The segments of a text without a root: what stands between its slashes and is not empty. -/
def segmentsOf (t : Text) : List Text :=
  (t.splitOn '/').filter (· ≠ [])

/-- What may stand between two slashes. -/
structure IsSegment (s : Text) : Prop where
  ne_nil : s ≠ []
  slash : '/' ∉ s
  backslash : '\\' ∉ s

/-- A segment that leads down: neither the place itself nor the place above. -/
structure Ordinary (s : Text) : Prop extends IsSegment s where
  ne_self : s ≠ self
  ne_up : s ≠ up

theorem isSegment_all {ss : List Text} (h : ∀ s ∈ ss, Ordinary s) : ∀ s ∈ ss, IsSegment s :=
  fun s hm => (h s hm).toIsSegment

theorem partsOf_eq (p : Path) : Parts.of p = ⟨(cutRoot p).1, segmentsOf (cutRoot p).2⟩ := rfl

@[simp] theorem segmentsOf_nil : segmentsOf [] = [] := rfl

theorem segmentsOf_append_slash (a b : Text) :
    segmentsOf (a ++ '/' :: b) = segmentsOf a ++ segmentsOf b := by
  rw [segmentsOf, List.splitOn_append_cons_self, List.filter_append]
  rfl

theorem segmentsOf_of_isSegment {s : Text} (h : IsSegment s) : segmentsOf s = [s] := by
  rw [segmentsOf, List.splitOn_eq_singleton h.slash]
  simp [h.ne_nil]

theorem isSegment_of_mem_segmentsOf {t s : Text} (ht : '\\' ∉ t) (h : s ∈ segmentsOf t) :
    IsSegment s := by
  obtain ⟨hs, hne⟩ := List.mem_filter.1 h
  refine ⟨by simpa using hne, Text.separator_notMem_of_mem_splitOn hs, fun hb => ht ?_⟩
  rw [← Text.join_splitOn (s := '/') t]
  exact Text.mem_join_of_mem _ hs hb

theorem segmentsOf_join {ss : List Text} (h : ∀ s ∈ ss, IsSegment s) :
    segmentsOf (Text.join ['/'] ss) = ss := by
  by_cases hs : ss = []
  · subst hs
    rfl
  rw [segmentsOf, Text.splitOn_join hs fun s hm => (h s hm).slash, List.filter_eq_self]
  intro s hm
  simpa using (h s hm).ne_nil

theorem backslash_notMem_join {ss : List Text} (h : ∀ s ∈ ss, IsSegment s) :
    '\\' ∉ Text.join ['/'] ss := by
  intro hb
  rcases Text.mem_join hb with hb | ⟨s, hm, hb⟩
  · simp at hb
  · exact (h s hm).backslash hb

theorem head?_join {s : Text} {ss : List Text} (h : IsSegment s) :
    (Text.join ['/'] (s :: ss)).head? ≠ some '/' := by
  cases s with
  | nil => exact absurd rfl h.ne_nil
  | cons c s =>
    rw [Text.join, List.intercalate_cons_cons_left]
    intro hc
    exact h.slash (by simp_all)

/-! ## Drives -/

/-- Whether a text starts like a drive: a letter and a colon. -/
def isDrive : Text → Bool
  | letter :: ':' :: _ => letter.isAlpha
  | _ => false

theorem free_all {ss : List Text} (h : ∀ s ∈ ss, Ordinary s ∧ isDrive s = false) :
    ∀ s ∈ ss, IsSegment s ∧ isDrive s = false :=
  fun s hm => ⟨(h s hm).1.toIsSegment, (h s hm).2⟩

/-- No segment of a path looks like a drive. Either slash ends a segment. -/
def DriveFree (p : Path) : Prop :=
  ∀ s ∈ (forward p).splitOn '/', isDrive s = false

instance (p : Path) : Decidable (DriveFree p) :=
  inferInstanceAs (Decidable (∀ s ∈ _, _))

theorem isDrive_slash (t : Text) : isDrive ('/' :: t) = false := by
  unfold isDrive
  split
  · rename_i heq
    cases heq
    rfl
  · rfl

theorem isDrive_append_slash (a b : Text) : isDrive (a ++ '/' :: b) = isDrive a := by
  match a with
  | [] => exact isDrive_slash b
  | [c] => simp [isDrive]
  | c :: d :: a =>
    unfold isDrive
    by_cases h : d = ':' <;> simp [h]

theorem isDrive_join (s : Text) (ss : List Text) :
    isDrive (Text.join ['/'] (s :: ss)) = isDrive s := by
  by_cases h : ss = []
  · subst h
    rw [Text.join_singleton]
  · rw [Text.join_cons _ _ h, List.append_assoc, List.singleton_append, isDrive_append_slash]

theorem DriveFree.isDrive_forward {p : Path} (h : DriveFree p) : isDrive (forward p) = false := by
  rw [← Text.join_splitOn (s := '/') (forward p)]
  unfold DriveFree at h
  cases hs : (forward p).splitOn '/' with
  | nil => exact absurd hs (List.splitOn_ne_nil _ _)
  | cons s ss =>
    rw [isDrive_join]
    exact h s (hs ▸ List.mem_cons_self)

theorem cutRoot_here {t : Text} (hs : t.head? ≠ some '/') (hd : isDrive t = false) :
    cutRoot t = (.here, t) := by
  unfold cutRoot
  split
  · simp at hs
  · rename_i letter rest _
    rw [if_neg (by simpa [isDrive] using hd)]
  · rfl

theorem root_of_isDrive {t : Text} (h : isDrive t = true) :
    ∃ letter slash, letter ≠ '/' ∧ (cutRoot t).1 = .drive letter slash := by
  unfold isDrive at h
  split at h
  · rename_i letter rest
    have hslash : letter ≠ '/' := by
      rintro rfl
      exact absurd h (by decide)
    unfold cutRoot
    split
    · rename_i heq
      cases heq
      exact absurd rfl hslash
    · rename_i heq
      cases heq
      rw [if_pos h]
      split
      · exact ⟨letter, true, hslash, rfl⟩
      · exact ⟨letter, false, hslash, rfl⟩
    · rename_i hne
      exact absurd rfl (hne letter rest)
  · cases h

/-- The segments of a way that starts anywhere can be read off it, if no drive is among them. -/
theorem of_join {ss : List Text} (h : ∀ s ∈ ss, IsSegment s ∧ isDrive s = false) :
    Parts.of (Text.join ['/'] ss) = ⟨.here, ss⟩ := by
  have hs : ∀ s ∈ ss, IsSegment s := fun s hm => (h s hm).1
  cases ss with
  | nil => rfl
  | cons s ss =>
    have hd : isDrive (Text.join ['/'] (s :: ss)) = false :=
      (isDrive_join s ss).trans (h s List.mem_cons_self).2
    rw [partsOf_eq, cutRoot_here (head?_join (hs s List.mem_cons_self)) hd, segmentsOf_join hs]

theorem head?_of_cutRoot {t : Text} (h : (cutRoot t).1 = .top) : t.head? = some '/' := by
  unfold cutRoot at h
  split at h
  · rfl
  · split at h
    · split at h <;> cases h
    · cases h
  · cases h

/-! ## Paths from the top -/

def atTop (ss : List Text) : Path :=
  '/' :: Text.join ['/'] ss

def FromTop (p : Path) : Prop :=
  (forward p).head? = some '/'

instance (p : Path) : Decidable (FromTop p) :=
  inferInstanceAs (Decidable (_ = _))

theorem FromTop.forward_eq {p : Path} (h : FromTop p) : ∃ t, forward p = '/' :: t := by
  unfold FromTop at h
  cases hp : forward p with
  | nil => simp [hp] at h
  | cons c t =>
    rw [hp] at h
    cases h
    exact ⟨t, rfl⟩

theorem forward_atTop {ss : List Text} (h : ∀ s ∈ ss, IsSegment s) :
    forward (atTop ss) = atTop ss := by
  rw [atTop, forward_cons_slash, forward_eq_self (backslash_notMem_join h)]

theorem fromTop_atTop (ss : List Text) : FromTop (atTop ss) := rfl

theorem of_atTop {ss : List Text} (h : ∀ s ∈ ss, IsSegment s) :
    Parts.of (atTop ss) = ⟨.top, ss⟩ := by
  rw [partsOf_eq, atTop]
  exact congrArg (Parts.mk .top) (segmentsOf_join h)

theorem driveFree_atTop {ss : List Text} (h : ∀ s ∈ ss, IsSegment s) :
    DriveFree (atTop ss) ↔ ∀ s ∈ ss, isDrive s = false := by
  have hsplit : (atTop ss).splitOn '/' = [] :: (Text.join ['/'] ss).splitOn '/' :=
    List.splitOn_append_cons_self [] _
  rw [DriveFree, forward_atTop h, hsplit]
  by_cases hs : ss = []
  · subst hs
    decide
  · rw [Text.splitOn_join hs fun s hm => (h s hm).slash, List.forall_mem_cons]
    exact and_iff_right rfl

theorem atTop_inj {ss us : List Text} (hs : ∀ s ∈ ss, IsSegment s) (hu : ∀ s ∈ us, IsSegment s)
    (h : atTop ss = atTop us) : ss = us := by
  have := congrArg Parts.of h
  rw [of_atTop hs, of_atTop hu] at this
  exact congrArg Parts.segments this

end BatchCompile.Path
