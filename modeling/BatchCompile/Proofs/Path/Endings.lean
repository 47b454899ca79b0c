import BatchCompile.Proofs.Path.Anchored
import BatchCompile.Proofs.Path.Ways

/-!
# Endings of names

An ending such as that of a script stays at the end of a path, whatever is folded away in front of
it (`ending_resolve`). The way to a file keeps the ending of the file, unless it leads nowhere but up
(`ending_relative`).
-/

namespace BatchCompile.Path

/-- What can only stand at the end of a last segment, and is longer than `..`. -/
structure Ending (e : Text) : Prop where
  slash : '/' ∉ e
  backslash : '\\' ∉ e
  colon : ':' ∉ e
  long : 2 < e.length

theorem ending_script : Ending ".js".toList :=
  ⟨by decide, by decide, by decide, by decide⟩

theorem ending_map : Ending ".js.map".toList :=
  ⟨by decide, by decide, by decide, by decide⟩

theorem ending_source : Ending ".ts".toList :=
  ⟨by decide, by decide, by decide, by decide⟩

theorem suffix_of_append_cons {e a b : Text} {c : Char} (hc : c ∉ e) (h : e <:+ a ++ c :: b) :
    e <:+ b := by
  rcases List.suffix_or_suffix_of_suffix h (List.suffix_append a (c :: b)) with h | h
  · refine (List.suffix_cons_iff.1 h).resolve_left fun he => hc ?_
    exact he ▸ List.mem_cons_self
  · exact absurd (h.subset List.mem_cons_self) hc

theorem suffix_join_concat (sep : Text) (ss : List Text) (s : Text) :
    s <:+ Text.join sep (ss ++ [s]) := by
  by_cases hs : ss = []
  · simp [hs]
  · rw [Text.join_append sep hs (List.cons_ne_nil _ _), Text.join_singleton]
    exact List.suffix_append _ _

theorem segments_fold_concat (root : Root) (ss : List Text) {s : Text} (h₁ : s ≠ self)
    (h₂ : s ≠ up) :
    (Parts.fold ⟨root, ss ++ [s]⟩).segments = (Parts.fold ⟨root, ss⟩).segments ++ [s] := by
  simp [Parts.fold, Parts.push, h₁, h₂]

theorem suffix_text {parts : Parts} {ss : List Text} {s : Text} (h : parts.segments = ss ++ [s]) :
    s <:+ parts.text := by
  have hne : parts.segments ≠ [] := by simp [h]
  rw [Parts.text, if_neg fun hnil => hne hnil.2, h]
  exact (suffix_join_concat _ ss s).trans (List.suffix_append _ _)

namespace Ending

variable {e : Text} (he : Ending e)

include he

theorem ne_nil : e ≠ [] := by
  rintro rfl
  exact absurd he.long (by decide)

theorem leadsDown {s : Text} (h : e <:+ s) : s ≠ self ∧ s ≠ up := by
  have hlong := Nat.lt_of_lt_of_le he.long h.length_le
  constructor <;> rintro rfl <;> exact absurd hlong (by decide)

theorem suffix_cutRoot {p : Path} (h : e <:+ p) : e <:+ (cutRoot p).2 := by
  have hcut := text_cutRoot p
  generalize cutRoot p = parts at hcut
  obtain ⟨root, rest⟩ := parts
  subst hcut
  match root with
  | .here => exact h
  | .top => exact suffix_of_append_cons (a := []) he.slash h
  | .drive letter true => exact suffix_of_append_cons (a := [letter, ':']) he.slash h
  | .drive letter false => exact suffix_of_append_cons (a := [letter]) he.colon h

theorem exists_last (a : Text) : ∃ ss s, segmentsOf (a ++ e) = ss ++ [s] ∧ e <:+ s := by
  by_cases ha : '/' ∈ a
  · obtain ⟨before, after, hcut⟩ := List.append_of_mem ha
    obtain ⟨ss, s, hs, hend⟩ := exists_last after
    refine ⟨segmentsOf before ++ ss, s, ?_, hend⟩
    rw [hcut, List.append_assoc, List.cons_append, segmentsOf_append_slash, hs, List.append_assoc]
  · have hslash : '/' ∉ a ++ e := fun hm => (List.mem_append.1 hm).elim ha he.slash
    refine ⟨[], a ++ e, ?_, List.suffix_append a e⟩
    rw [segmentsOf, List.splitOn_eq_singleton hslash, List.nil_append]
    exact List.filter_eq_self.2 (by simp [he.ne_nil])
  termination_by a.length
  decreasing_by simp [hcut]; omega

theorem exists_last_segment {p : Path} (h : e <:+ p) :
    ∃ ss s, (Parts.of p).segments = ss ++ [s] ∧ e <:+ s := by
  obtain ⟨a, ha⟩ := he.suffix_cutRoot h
  rw [partsOf_eq, ← ha]
  exact he.exists_last a

theorem suffix_forward {p : Path} (h : e <:+ p) : e <:+ forward p := by
  have := List.IsSuffix.map (fun c => if c = '\\' then '/' else c) h
  rwa [← forward, ← forward, forward_eq_self he.backslash] at this

theorem suffix_normalize {p : Path} (h : e <:+ p) : e <:+ normalize p := by
  obtain ⟨ss, s, hs, hend⟩ := he.exists_last_segment (he.suffix_forward h)
  obtain ⟨h₁, h₂⟩ := he.leadsDown hend
  have hlast := segments_fold_concat (Parts.of (forward p)).root ss h₁ h₂
  rw [← hs] at hlast
  exact hend.trans (suffix_text hlast)

theorem suffix_combine (p : Path) {q : Path} (h : e <:+ q) : e <:+ combine p q := by
  have hq : q ≠ [] := by
    rintro rfl
    exact he.ne_nil (List.suffix_nil.1 h)
  unfold combine
  split
  · exact absurd rfl hq
  · exact he.suffix_normalize h
  · exact absurd rfl hq
  · exact he.suffix_normalize (h.trans ((List.suffix_cons _ q).trans (List.suffix_append _ _)))

theorem suffix_follow (place : Path) {q : Path} (h : e <:+ q) : e <:+ follow place q := by
  have hq : q ≠ [] := by
    rintro rfl
    exact he.ne_nil (List.suffix_nil.1 h)
  rw [follow, if_neg hq]
  split
  · exact he.suffix_forward h
  · exact h.trans ((List.suffix_cons _ q).trans (List.suffix_append place _))

end Ending

theorem ending_resolve {e : Text} (he : Ending e) (cwd : Path) (qs : List Path) {q : Path}
    (h : e <:+ q) : e <:+ resolve cwd (qs ++ [q]) := by
  rw [resolve, List.foldl_append]
  exact he.suffix_normalize (he.suffix_follow _ h)

/-- The way to a place has the ending of the place, or leads up only. -/
theorem ending_relative {e : Text} (he : Ending e) (start : Path) {goal : Path} (h : e <:+ goal) :
    e <:+ relative start goal ∨ ∃ k, relative start goal = Text.join ['/'] (ups k) := by
  have hgoal := he.suffix_normalize h
  obtain ⟨ss, s, hs, hend⟩ := he.exists_last_segment hgoal
  have hfilter : (ss ++ [s]).filter (· ≠ self) = ss.filter (· ≠ self) ++ [s] := by
    simp [List.filter_append, (he.leadsDown hend).1]
  unfold relative
  simp only
  split
  · exact .inr ⟨0, rfl⟩
  split
  · exact .inl hgoal
  rw [hs, hfilter]
  generalize ss.filter (· ≠ self) = us
  generalize sharedLength _ _ = shared
  by_cases hshared : shared ≤ us.length
  · rw [List.drop_append_of_le_length hshared, ← List.append_assoc]
    exact .inl (hend.trans (suffix_join_concat _ _ s))
  · rw [List.drop_eq_nil_of_le (by simp; omega), List.append_nil]
    exact .inr ⟨_, rfl⟩

end BatchCompile.Path
