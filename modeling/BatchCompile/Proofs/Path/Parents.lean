import BatchCompile.Path.Names
import BatchCompile.Proofs.Path.Ways
import BatchCompile.Proofs.Text.Bytes

/-!
# Parents and names

A path from the top through some segments lies in the path through all but the last of them
(`dirName_atTop`), which is its name (`baseName_append`). Another extension changes no other
segment than that (`replaceExtension_append`).
-/

namespace BatchCompile.Path

/-! ## Last segments -/

theorem exists_front (us : List Text) : ∃ front, ('/' :: front).getLast? = some '/' ∧
    ∀ y, Text.join ['/'] (us ++ [y]) = front ++ y := by
  by_cases h : us = []
  · subst h
    exact ⟨[], rfl, Text.join_singleton _⟩
  · refine ⟨Text.join ['/'] us ++ ['/'], ?_, fun y => ?_⟩
    · rw [← List.cons_append, List.getLast?_concat]
    · rw [Text.join_append _ h (List.cons_ne_nil _ _), Text.join_singleton]

theorem isSlash_of_mem {x : Text} (h : IsSegment x) {c : Char} (hc : c ∈ x) :
    isSlash c = false := by
  have h₁ : c ≠ '/' := fun e => h.slash (e ▸ hc)
  have h₂ : c ≠ '\\' := fun e => h.backslash (e ▸ hc)
  simp [isSlash, h₁, h₂]

theorem exists_last {x : Text} (h : IsSegment x) : ∃ t c, x = t ++ [c] ∧ isSlash c = false := by
  have hx := List.dropLast_concat_getLast h.ne_nil
  exact ⟨_, _, hx.symm, isSlash_of_mem h (List.getLast_mem h.ne_nil)⟩

theorem baseName_append (front : Text) {x : Text} (h : IsSegment x)
    (hf : ∀ c ∈ front.getLast?, isSlash c = true) : baseName (front ++ x) = x := by
  obtain ⟨t, c, rfl, hc⟩ := exists_last h
  have hall : ∀ d ∈ (t ++ [c]).reverse, (!isSlash d) = true := fun d hd => by
    rw [isSlash_of_mem h (List.mem_reverse.1 hd)]
    rfl
  have hlast : (c :: t.reverse ++ front.reverse).dropWhile isSlash =
      (t ++ [c]).reverse ++ front.reverse := by
    rw [List.cons_append, List.dropWhile_cons_of_neg (by simp [hc]), List.reverse_concat]
    rfl
  rw [baseName, List.reverse_append, List.reverse_concat, hlast, List.takeWhile_append_of_pos hall]
  have hstop : front.reverse.takeWhile (fun d => !isSlash d) = [] := by
    cases hr : front.reverse with
    | nil => rfl
    | cons d rest =>
      have hd : isSlash d = true := hf d (by simp [List.getLast?_eq_head?_reverse, hr])
      rw [List.takeWhile_cons_of_neg (by simp [hd])]
  rw [hstop, List.append_nil, List.reverse_reverse]

theorem baseName_segment {x : Text} (h : IsSegment x) : baseName x = x :=
  baseName_append [] h (by simp)

theorem baseName_atTop (xs : List Text) {x : Text} (h : IsSegment x) :
    baseName (atTop (xs ++ [x])) = x := by
  obtain ⟨front, hslash, hfront⟩ := exists_front xs
  have hname : atTop (xs ++ [x]) = '/' :: front ++ x := congrArg _ (hfront x)
  rw [hname]
  refine baseName_append _ h fun c hc => ?_
  rw [hslash] at hc
  cases hc
  rfl

/-! ## Directories -/

theorem rdropWhile_join (us : List Text) {y : Text} (h : IsSegment y) :
    (Text.join ['/'] (us ++ [y])).rdropWhile (· == '/') = Text.join ['/'] (us ++ [y]) := by
  obtain ⟨front, -, hfront⟩ := exists_front us
  obtain ⟨t, c, rfl, hc⟩ := exists_last h
  rw [hfront, ← List.append_assoc, List.rdropWhile_concat_neg]
  simp [isSlash] at hc
  simpa using hc.1

/-- A path lies in the path through all but its last segment. With no other segment it lies in its
root, or in the place itself. -/
theorem dirName_of_cutRoot {p : Path} {root : Root} {us : List Text} {y : Text}
    (hcut : cutRoot (forward p) = (root, Text.join ['/'] (us ++ [y]))) (hy : IsSegment y) :
    dirName p =
      if us = [] then
        if root.anchored then some root.text else if y = self then none else some self
      else some (root.text ++ Text.join ['/'] us) := by
  have hbody : ((Text.join ['/'] (us ++ [y])).reverse.dropWhile (· == '/')).reverse =
      Text.join ['/'] (us ++ [y]) := rdropWhile_join us hy
  unfold dirName
  simp only [hcut, hbody]
  by_cases hus : us = []
  · subst hus
    rw [List.nil_append, Text.join_singleton, Text.cutLast?_eq_none hy.slash, if_pos rfl]
    simp [hy.ne_nil]
  · rw [Text.join_append _ hus (List.cons_ne_nil _ _), Text.join_singleton, List.append_assoc,
      List.singleton_append, Text.cutLast?_append _ hy.slash, if_neg hus]

theorem dirName_atTop {xs : List Text} {x : Text} (h : ∀ s ∈ xs ++ [x], IsSegment s) :
    dirName (atTop (xs ++ [x])) = some (atTop xs) := by
  have hcut : cutRoot (forward (atTop (xs ++ [x]))) = (.top, Text.join ['/'] (xs ++ [x])) := by
    rw [forward_atTop h]
    rfl
  rw [dirName_of_cutRoot hcut (h x (by simp))]
  split
  · rename_i hxs
    subst hxs
    rfl
  · rfl

/-- The way to a file less its last segment is the way to the directory. -/
theorem dirName_join {us : List Text} {y : Text}
    (h : ∀ s ∈ us ++ [y], IsSegment s ∧ isDrive s = false) (hy : y ≠ self) :
    dirName (Text.join ['/'] (us ++ [y])) = some (Parts.text ⟨.here, us⟩) := by
  have hseg : ∀ s ∈ us ++ [y], IsSegment s := fun s hm => (h s hm).1
  have hcut : cutRoot (forward (Text.join ['/'] (us ++ [y]))) =
      (.here, Text.join ['/'] (us ++ [y])) := by
    obtain ⟨s, ss, hs⟩ := List.exists_cons_of_ne_nil (l := us ++ [y]) (by simp)
    rw [forward_join hseg]
    rw [hs] at h hseg ⊢
    exact cutRoot_here (head?_join (hseg s List.mem_cons_self))
      ((isDrive_join s ss).trans (h s List.mem_cons_self).2)
  rw [dirName_of_cutRoot hcut (hseg y (by simp))]
  split
  · rename_i hus
    simp [hus, Root.anchored, Parts.text]
  · rename_i hus
    simp [hus, Parts.text]

theorem ancestors_of_dirName {p q : Path} (h : dirName p = some q) :
    ancestors p = q :: ancestors q := by
  rw [ancestors]
  split
  · rename_i heq
    rw [h] at heq
    cases heq
  · rename_i heq
    rw [h] at heq
    cases heq
    rfl

theorem mem_ancestors_atTop {xs ys : List Text} (hy : ∀ s ∈ ys, IsSegment s) (h : xs <+: ys)
    (hne : xs ≠ ys) : atTop xs ∈ ancestors (atTop ys) := by
  induction ys using List.reverseRecOn with
  | nil => exact absurd (List.prefix_nil.1 h) hne
  | append_singleton ys y ih =>
    rw [ancestors_of_dirName (dirName_atTop hy)]
    by_cases he : xs = ys
    · rw [he]
      exact List.mem_cons_self
    · refine List.mem_cons_of_mem _ (ih (fun s hm => hy s (List.mem_append_left _ hm)) ?_ he)
      exact (List.prefix_concat_iff.1 h).resolve_left hne

/-! ## Extensions -/

theorem dropBytes_append (e t : Text) : dropBytes (Text.byteLength e) (e ++ t) = t := by
  induction e with
  | nil => rw [List.nil_append, Text.byteLength, List.foldl_nil, dropBytes]
  | cons c e ih =>
    have hsize := Text.byteLength_cons c e
    have hpos : 0 < c.utf8Size := Char.utf8Size_pos c
    obtain ⟨n, hn⟩ : ∃ n, Text.byteLength (c :: e) = n + 1 :=
      Nat.exists_eq_succ_of_ne_zero (by omega)
    have hrest : n + 1 - c.utf8Size = Text.byteLength e := by omega
    rw [hn, List.cons_append, dropBytes, hrest, ih]

theorem exists_stem (p : Path) : ∃ stem, baseName p = stem ++ extension p ∧
    (baseName p ≠ [] → stem ≠ []) ∧ (extension p = [] ∨ ∃ e, extension p = '.' :: e) := by
  unfold extension
  split
  · exact ⟨baseName p, (List.append_nil _).symm, id, .inl rfl⟩
  · exact ⟨baseName p, (List.append_nil _).symm, id, .inl rfl⟩
  · rename_i before after hne heq
    exact ⟨before, Text.eq_of_cutLast? heq, fun _ => hne, .inr ⟨after, rfl⟩⟩

theorem replaceExtension_append {p q : Path} (h : p = q ++ extension p) (new : Text) :
    replaceExtension p new = q ++ new := by
  have hrev : p.reverse = (extension p).reverse ++ q.reverse := by
    rw [← List.reverse_append, ← h]
  rw [replaceExtension, ← Text.byteLength_reverse, hrev, dropBytes_append, List.reverse_reverse]

end BatchCompile.Path
