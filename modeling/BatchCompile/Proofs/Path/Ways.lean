import BatchCompile.Proofs.Path.Places

/-!
# Ways between places

`relative` is the way from one place to another: up to the last place above both, and down from
there. Going it leads there (`settle_way`), and `combine` puts a path below a place
(`combine_eq`).
-/

namespace BatchCompile.Path

def ups (k : Nat) : List Text :=
  List.replicate k up

theorem sharedLength_le_right (xs ys : List Text) : sharedLength xs ys ≤ ys.length := by
  fun_induction sharedLength xs ys with
  | case1 a as bs ih => simpa using ih
  | case2 a as b bs h => exact Nat.zero_le _
  | case3 => exact Nat.zero_le _

theorem take_sharedLength (xs ys : List Text) :
    xs.take (sharedLength xs ys) = ys.take (sharedLength xs ys) := by
  fun_induction sharedLength xs ys with
  | case1 a as bs ih => simpa using ih
  | case2 a as b bs h => rfl
  | case3 => rfl

@[simp] theorem sharedLength_append (xs ys : List Text) :
    sharedLength xs (xs ++ ys) = xs.length := by
  induction xs with
  | nil => rfl
  | cons x xs ih => simp [sharedLength, ih]

def way (xs ys : List Text) : List Text :=
  List.replicate (xs.length - sharedLength xs ys) up ++ ys.drop (sharedLength xs ys)

theorem filter_self_eq {ss : List Text} (h : ∀ s ∈ ss, Ordinary s) : ss.filter (· ≠ self) = ss :=
  List.filter_eq_self.2 fun s hm => by simpa using (h s hm).ne_self

theorem relative_atTop {xs ys : List Text} (hx : ∀ s ∈ xs, Ordinary s) (hy : ∀ s ∈ ys, Ordinary s)
    (hne : xs ≠ ys) : relative (atTop xs) (atTop ys) = Text.join ['/'] (way xs ys) := by
  have hx' := isSegment_all hx
  have hy' := isSegment_all hy
  have h : atTop xs ≠ atTop ys := fun e => hne (atTop_inj hx' hy' e)
  unfold relative
  rw [normalize_atTop hx, normalize_atTop hy]
  simp only [if_neg h, of_atTop hx', of_atTop hy', ne_eq, not_true_eq_false, ↓reduceIte]
  rw [show xs.filter (fun s => decide ¬s = self) = xs from filter_self_eq hx,
    show ys.filter (fun s => decide ¬s = self) = ys from filter_self_eq hy]
  rfl

/-- Going the way to a place leads there. -/
theorem settle_way {xs ys : List Text} (hx : ∀ s ∈ xs, Ordinary s) (hy : ∀ s ∈ ys, Ordinary s) :
    settle xs (way xs ys) = ys := by
  let k := sharedLength xs ys
  have hk : (xs.drop k).length = xs.length - k := List.length_drop
  calc settle xs (way xs ys)
      = settle (settle (xs.take k ++ xs.drop k) (List.replicate (xs.drop k).length up))
          (ys.drop k) := by rw [way, settle_append, hk, List.take_append_drop]
    _ = settle (xs.take k) (ys.drop k) := by
        rw [settle_ups _ fun s hm => hx s (List.mem_of_mem_drop hm)]
    _ = ys.take k ++ ys.drop k := by
        rw [settle_ordinary _ fun s hm => hy s (List.mem_of_mem_drop hm), take_sharedLength]
    _ = ys := List.take_append_drop k ys

theorem way_append (xs ys : List Text) : way xs (xs ++ ys) = ys := by
  simp [way]

theorem mem_way {xs ys : List Text} {s : Text} (h : s ∈ way xs ys) : s = up ∨ s ∈ ys := by
  rcases List.mem_append.1 h with h | h
  · exact .inl (List.eq_of_mem_replicate h)
  · exact .inr (List.mem_of_mem_drop h)

theorem sharedLength_concat {xs ys : List Text} {y : Text} (h : ¬ys ++ [y] <+: xs) :
    sharedLength xs (ys ++ [y]) = sharedLength xs ys := by
  induction xs generalizing ys with
  | nil => simp [sharedLength]
  | cons x xs ih =>
    cases ys with
    | nil =>
      have hne : x ≠ y := by
        rintro rfl
        exact h ⟨xs, rfl⟩
      simp [sharedLength, hne]
    | cons z ys =>
      rw [List.cons_append, sharedLength, sharedLength]
      by_cases hz : x = z
      · subst hz
        rw [if_pos rfl, if_pos rfl, ih fun hp => h (List.cons_prefix_cons.2 ⟨rfl, hp⟩)]
      · rw [if_neg hz, if_neg hz]

/-- The way to a file that is not passed on the way is the way to its directory and its name. -/
theorem way_concat {xs ys : List Text} {y : Text} (h : ¬ys ++ [y] <+: xs) :
    way xs (ys ++ [y]) = way xs ys ++ [y] := by
  rw [way, way, sharedLength_concat h, List.drop_append_of_le_length (sharedLength_le_right xs ys),
    List.append_assoc]

theorem combine_eq {p : Path} (hp : FromTop p) (q : Path) :
    combine p q = atTop (settle (land [] p) (segmentsOf (forward q))) := by
  obtain ⟨t, ht⟩ := hp.forward_eq
  match p, q with
  | [], _ => cases hp
  | c :: p, [] =>
    exact (normalize_of_top hp).trans (by rw [forward_nil, segmentsOf_nil, settle_nil])
  | c :: p, d :: q =>
    have hf : forward ((c :: p) ++ '/' :: (d :: q)) = '/' :: (t ++ '/' :: forward (d :: q)) := by
      rw [forward_append, ht, forward_cons_slash]
      rfl
    have htop : FromTop ((c :: p) ++ '/' :: (d :: q)) := by rw [FromTop, hf]; rfl
    exact (normalize_of_top htop).trans (by
      rw [land_of_top _ hf, land_of_top _ ht, segmentsOf_append_slash, settle_append])

/-- A directory joined with the way to a place is that place. -/
theorem combine_relative {xs ys : List Text} (hx : ∀ s ∈ xs, Ordinary s)
    (hy : ∀ s ∈ ys, Ordinary s) :
    combine (atTop xs) (relative (atTop xs) (atTop ys)) = atTop ys := by
  by_cases he : xs = ys
  · subst he
    rw [relative, if_pos rfl, combine_eq (fromTop_atTop xs), land_atTop [] hx]
    exact congrArg atTop (settle_nil xs)
  · have hway : ∀ s ∈ way xs ys, IsSegment s := fun s hs =>
      (mem_way hs).elim (fun e => e ▸ isSegment_up) fun hm => (hy s hm).toIsSegment
    rw [relative_atTop hx hy he, combine_eq (fromTop_atTop xs), land_atTop [] hx,
      forward_join hway, segmentsOf_join hway, settle_way hx hy]

theorem combine_segment {ss : List Text} (hs : ∀ s ∈ ss, Ordinary s) {x : Text}
    (hx : Ordinary x) : combine (atTop ss) x = atTop (ss ++ [x]) := by
  rw [combine_eq (fromTop_atTop ss), land_atTop [] hs, forward_eq_self hx.backslash,
    segmentsOf_of_isSegment hx.toIsSegment, settle_down ss hx.ne_self hx.ne_up]

/-! ## Ways that start anywhere -/

/-- Folded where it starts anywhere, a way goes up first and then only down. -/
theorem fold_here {ss : List Text} (h : ∀ s ∈ ss, IsSegment s) :
    ∃ k zs, (∀ z ∈ zs, Ordinary z) ∧ (Parts.fold ⟨.here, ss⟩).segments = ups k ++ zs := by
  show ∃ k zs, (∀ z ∈ zs, Ordinary z) ∧ (ss.foldl (Parts.push false) []).reverse = ups k ++ zs
  induction ss using List.reverseRecOn with
  | nil => exact ⟨0, [], by simp, rfl⟩
  | append_singleton ss s ih =>
    obtain ⟨k, zs, hzs, hkept⟩ := ih fun u hu => h u (List.mem_append_left _ hu)
    rw [List.foldl_append, List.foldl_cons, List.foldl_nil, List.reverse_eq_iff.1 hkept]
    by_cases h₁ : s = self
    · exact ⟨k, zs, hzs, by simp [Parts.push, h₁]⟩
    by_cases h₂ : s = up
    · subst h₂
      cases zs using List.reverseRecOn with
      | nil =>
        -- nothing to take back: one more step up
        refine ⟨k + 1, [], by simp, ?_⟩
        cases k with
        | zero => simp [Parts.push, h₁, ups]
        | succ k =>
          have hlast : (ups (k + 1) ++ []).reverse = up :: ups k := by
            rw [List.append_nil, ups, List.reverse_replicate, List.replicate_succ, ups]
          rw [hlast]
          simp [Parts.push, h₁, ups, ← List.replicate_succ']
      | append_singleton zs z =>
        have hz : z ≠ up := (hzs z (by simp)).ne_up
        refine ⟨k, zs, fun u hu => hzs u (List.mem_append_left _ hu), ?_⟩
        simp [Parts.push, h₁, hz]
    · refine ⟨k, zs ++ [s], fun u hu => ?_, by simp [Parts.push, h₁, h₂]⟩
      rcases List.mem_append.1 hu with hu | hu
      · exact hzs u hu
      · rw [List.mem_singleton.1 hu]
        exact ⟨h s (by simp), h₁, h₂⟩

theorem exists_normalize_here {p : Path} (hs : (forward p).head? ≠ some '/') (h : DriveFree p) :
    ∃ k zs, (∀ z ∈ zs, Ordinary z) ∧ normalize p = Parts.text ⟨.here, ups k ++ zs⟩ ∧
      ∀ place, settle place (ups k ++ zs) = settle place (segmentsOf (forward p)) := by
  have hsegments : ∀ s ∈ segmentsOf (forward p), IsSegment s := fun s =>
    isSegment_of_mem_segmentsOf (backslash_notMem_forward p)
  obtain ⟨k, zs, hzs, hfold⟩ := fold_here hsegments
  refine ⟨k, zs, hzs, ?_, fun place => hfold ▸ settle_fold place _⟩
  rw [normalize, partsOf_eq, cutRoot_here hs h.isDrive_forward, ← hfold]
  rfl

theorem combine_of_ne_nil {p q : Path} (hp : p ≠ []) (hq : q ≠ []) :
    combine p q = normalize (p ++ '/' :: q) := by
  match p, q with
  | [], _ => exact absurd rfl hp
  | _ :: _, [] => exact absurd rfl hq
  | _ :: _, _ :: _ => rfl

section

variable {us : List Text} (h : ∀ s ∈ us, IsSegment s ∧ isDrive s = false)

include h

theorem text_here_ne_nil : Parts.text ⟨.here, us⟩ ≠ [] := by
  intro hnil
  have := land_text_here [] h
  rw [hnil] at this
  unfold Parts.text at hnil
  split at hnil
  · cases hnil
  · rename_i hne
    have hsplit := segmentsOf_join fun s hm => (h s hm).1
    rw [show Text.join ['/'] us = [] from hnil] at hsplit
    exact hne ⟨rfl, hsplit.symm⟩

theorem settle_text_here (place : List Text) :
    settle place (segmentsOf (forward (Parts.text ⟨.here, us⟩))) = settle place us := by
  unfold Parts.text
  split
  · rename_i hnil
    obtain rfl : us = [] := hnil.2
    exact (settle_self place).trans (settle_nil place).symm
  · show settle place (segmentsOf (forward (Text.join ['/'] us))) = _
    rw [forward_join fun s hm => (h s hm).1, segmentsOf_join fun s hm => (h s hm).1]

theorem driveFree_text_here : DriveFree (Parts.text ⟨.here, us⟩) := by
  unfold Parts.text
  split
  · decide
  · rename_i hne
    have hus : us ≠ [] := fun e => hne ⟨rfl, e⟩
    intro s hs
    rw [show Root.text .here ++ Text.join ['/'] us = Text.join ['/'] us from rfl,
      forward_join fun s hm => (h s hm).1, Text.splitOn_join hus fun s hm => (h s hm).1.slash] at hs
    exact (h s hs).2

theorem head?_text_here : (forward (Parts.text ⟨.here, us⟩)).head? ≠ some '/' := by
  unfold Parts.text
  split
  · decide
  · show (forward (Text.join ['/'] us)).head? ≠ some '/'
    rw [forward_join fun s hm => (h s hm).1]
    cases us with
    | nil => decide
    | cons u us => exact head?_join (h u List.mem_cons_self).1

/-- A segment below a way leads from any place where the way and the segment lead. -/
theorem settle_combine (place : List Text) {f : Text} (hf : IsSegment f ∧ isDrive f = false) :
    settle place (segmentsOf (forward (combine (Parts.text ⟨.here, us⟩) f))) =
      settle place (us ++ [f]) := by
  have hff : forward f = f := forward_eq_self hf.1.backslash
  have hq : forward (Parts.text ⟨.here, us⟩ ++ '/' :: f) =
      forward (Parts.text ⟨.here, us⟩) ++ '/' :: f := by
    rw [forward_append, forward_cons_slash, hff]
  have hhead : (forward (Parts.text ⟨.here, us⟩ ++ '/' :: f)).head? ≠ some '/' := by
    have hstart := head?_text_here h
    rw [hq]
    cases hp : forward (Parts.text ⟨.here, us⟩) with
    | nil => exact absurd (List.map_eq_nil_iff.1 hp) (text_here_ne_nil h)
    | cons c t =>
      rw [hp] at hstart
      exact hstart
  have hfree : DriveFree (Parts.text ⟨.here, us⟩ ++ '/' :: f) := by
    intro s hs
    rw [hq, List.splitOn_append_cons_self, List.splitOn_eq_singleton hf.1.slash, List.mem_append,
      List.mem_singleton] at hs
    rcases hs with hs | rfl
    · exact driveFree_text_here h s hs
    · exact hf.2
  obtain ⟨ss, hss, hn, hsettle⟩ := normalize_of_here hhead hfree
  rw [combine_of_ne_nil (text_here_ne_nil h) hf.1.ne_nil, hn, settle_text_here hss, hsettle, hq,
    segmentsOf_append_slash, settle_append, settle_text_here h, segmentsOf_of_isSegment hf.1,
    ← settle_append]

end

end BatchCompile.Path
