import BatchCompile.Proofs.Text.Pieces

/-!
# Cuts

`cut?` cuts a text where a pattern first stands (`cut?_eq_some_iff`), and nowhere only if the
pattern stands nowhere (`cut?_eq_none_iff`). `cutAll` goes on behind each such place. A join of
lines is cut into these lines at the ends of lines (`cutAll_join_concat`).
-/

namespace BatchCompile.Text

variable {pattern t before after : Text}

/-- A text is cut where a pattern stands and does not stand before. -/
theorem cut?_eq_some_iff : cut? pattern t = some (before, after) ↔
    t = before ++ pattern ++ after ∧ ∀ n < before.length, ¬pattern <+: t.drop n := by
  induction t generalizing before with
  | nil =>
    cases pattern with
    | nil => cases before <;> cases after <;> simp [cut?]
    | cons c pattern => simp [cut?]
  | cons c t ih =>
    rw [cut?]
    by_cases hfront : pattern <+: c :: t
    · obtain ⟨rest, hrest⟩ := hfront
      rw [List.isPrefixOf?_eq_some_iff_append_eq.2 hrest]
      simp only [Option.some.injEq, Prod.mk.injEq]
      constructor
      · rintro ⟨rfl, rfl⟩
        exact ⟨hrest.symm, fun n hn => absurd hn (Nat.not_lt_zero n)⟩
      · rintro ⟨he, hfirst⟩
        obtain rfl : before = [] := by
          by_contra hne
          exact hfirst 0 (List.length_pos_iff.2 hne) ⟨rest, hrest⟩
        exact ⟨rfl, List.append_cancel_left (hrest.trans he)⟩
    · rw [isPrefixOf?_eq_none.2 hfront]
      simp only [Option.map_eq_some_iff]
      constructor
      · rintro ⟨⟨front, rest⟩, hcut, he⟩
        cases he
        obtain ⟨rfl, hfirst⟩ := ih.1 hcut
        refine ⟨rfl, fun n hn => ?_⟩
        cases n with
        | zero => exact hfront
        | succ n => exact hfirst n (Nat.lt_of_succ_lt_succ hn)
      · rintro ⟨he, hfirst⟩
        cases before with
        | nil => exact absurd ⟨after, he.symm⟩ hfront
        | cons d before =>
          obtain ⟨rfl, rfl⟩ := List.cons.inj he
          exact ⟨(before, after), ih.2 ⟨rfl, fun n hn => hfirst (n + 1) (Nat.succ_lt_succ hn)⟩, rfl⟩

theorem cut?_eq_none_iff : cut? pattern t = none ↔ ¬pattern <:+: t := by
  induction t with
  | nil => cases pattern <;> simp [cut?]
  | cons c t ih =>
    rw [cut?, List.infix_cons_iff, not_or, ← ih]
    by_cases hfront : pattern <+: c :: t
    · obtain ⟨rest, hrest⟩ := hfront
      rw [List.isPrefixOf?_eq_some_iff_append_eq.2 hrest]
      simp [← hrest]
    · rw [isPrefixOf?_eq_none.2 hfront, Option.map_eq_none_iff]
      exact (and_iff_right hfront).symm

theorem cut?_append (h : cut? pattern t = some (before, after)) (rest : Text) :
    cut? pattern (t ++ rest) = some (before, after ++ rest) := by
  obtain ⟨rfl, hfirst⟩ := cut?_eq_some_iff.1 h
  refine cut?_eq_some_iff.2 ⟨by simp, fun n hn hprefix => hfirst n hn ?_⟩
  rw [List.drop_append_of_le_length (by simp only [List.length_append]; omega)] at hprefix
  refine List.prefix_of_prefix_length_le hprefix (List.prefix_append _ _) ?_
  simp only [List.length_drop, List.length_append]
  omega

theorem cut?_append_cons {front : Text} {c : Char} (hfront : ¬pattern <:+: front)
    (hc : c ∉ pattern) : cut? pattern (front ++ c :: t) =
      (cut? pattern t).map fun (before, after) => (front ++ c :: before, after) := by
  induction front with
  | nil =>
    have hhead : ¬pattern <+: c :: t := by
      rintro ⟨rest, hrest⟩
      cases pattern with
      | nil => exact hfront (List.nil_infix)
      | cons d pattern => exact hc ((List.cons.inj hrest).1 ▸ List.mem_cons_self)
    rw [List.nil_append, cut?, isPrefixOf?_eq_none.2 hhead]
    rfl
  | cons d front ih =>
    rw [List.infix_cons_iff, not_or] at hfront
    have hhead : ¬pattern <+: d :: front ++ c :: t := by
      intro hprefix
      rcases List.prefix_or_prefix_of_prefix hprefix (List.prefix_append _ _) with h | ⟨rest, rfl⟩
      · exact hfront.1 h
      · -- the pattern goes on with `c`
        rw [List.prefix_append_right_inj] at hprefix
        cases rest with
        | nil => exact hfront.1 (by simp)
        | cons e rest =>
          refine hc (List.mem_append_right _ ?_)
          rw [(List.cons_prefix_cons.1 hprefix).1]
          exact List.mem_cons_self
    rw [List.cons_append] at hhead ⊢
    rw [cut?, isPrefixOf?_eq_none.2 hhead, ih hfront.2, Option.map_map]
    rfl

/-! ## All places -/

/-- The pieces between the places where a pattern stands, found from left to right. -/
def cutAll (pattern t : Text) : List Text :=
  if _hp : pattern = [] then [t]
  else
    match _h : cut? pattern t with
    | none => [t]
    | some (before, after) => before :: cutAll pattern after
  termination_by t.length
  decreasing_by
    obtain ⟨rfl, -⟩ := cut?_eq_some_iff.1 _h
    have := List.length_pos_iff.2 _hp
    simp only [List.length_append]
    omega

theorem cutAll_of_cut? (hp : pattern ≠ []) (h : cut? pattern t = some (before, after)) :
    cutAll pattern t = before :: cutAll pattern after := by
  rw [cutAll, dif_neg hp]
  split
  · rename_i hnone
    cases h.symm.trans hnone
  · rename_i hsome
    cases h.symm.trans hsome
    rfl

theorem cutAll_eq_self (h : ¬pattern <:+: t) : cutAll pattern t = [t] := by
  rw [cutAll]
  split
  · rfl
  split
  · rfl
  · rename_i hsome
    cases (cut?_eq_none_iff.2 h).symm.trans hsome

theorem cutAll_ne_nil (pattern t : Text) : cutAll pattern t ≠ [] := by
  rw [cutAll]
  split
  · simp
  split <;> simp

theorem join_cutAll (pattern t : Text) : join pattern (cutAll pattern t) = t := by
  fun_induction cutAll pattern t with
  | case1 => exact join_singleton _ _
  | case2 => exact join_singleton _ _
  | case3 t hp before after h ih =>
    obtain ⟨rfl, -⟩ := cut?_eq_some_iff.1 h
    rw [join_cons _ _ (cutAll_ne_nil _ _), ih]

theorem cutAll_eq_self_iff (hp : pattern ≠ []) : cutAll pattern t = [t] ↔ ¬pattern <:+: t := by
  refine ⟨fun h hinfix => ?_, cutAll_eq_self⟩
  cases hcut : cut? pattern t with
  | none => exact cut?_eq_none_iff.1 hcut hinfix
  | some pieces =>
    obtain ⟨before, after⟩ := pieces
    rw [cutAll_of_cut? hp hcut] at h
    exact cutAll_ne_nil _ _ (List.cons.inj h).2

/-! ## Words -/

section

variable {s : Char} {w p : Text}

theorem infix_of_infix_append (hp : s ∉ p) (h : s :: w <:+: p ++ t) : s :: w <:+: t := by
  induction p with
  | nil => exact h
  | cons c p ih =>
    rw [List.mem_cons, not_or] at hp
    rcases List.infix_cons_iff.1 h with h | h
    · exact absurd (List.cons_prefix_cons.1 h).1 hp.1
    · exact ih hp.2 h

/-- A word between two `s` is found where it stands so, unless one stands so in front of it. -/
theorem cut?_between (hs : s ∉ w) (hp : ¬s :: (w ++ [s]) <:+: p ++ [s]) (rest : Text) :
    cut? (s :: (w ++ [s])) (p ++ s :: (w ++ [s]) ++ rest) = some (p, rest) := by
  refine cut?_eq_some_iff.2 ⟨by simp, fun n hn hprefix => ?_⟩
  obtain ⟨c, tail, hdrop⟩ : ∃ c tail, p.drop n = c :: tail :=
    List.exists_cons_of_ne_nil (List.drop_eq_nil_iff.not.2 (Nat.not_le.2 hn))
  have hrest : (p ++ s :: (w ++ [s]) ++ rest).drop n =
      c :: (tail ++ [s]) ++ (w ++ s :: rest) := by
    rw [List.append_assoc, List.drop_append_of_le_length (Nat.le_of_lt hn), hdrop]
    simp
  rw [hrest] at hprefix
  by_cases hlength : tail.length < w.length
  · -- the `s` behind `p` would stand in the word
    have hword : tail ++ [s] <+: w ++ [s] :=
      (List.cons_prefix_cons.1 (List.prefix_of_prefix_length_le (List.prefix_append _ _) hprefix
        (by simpa using Nat.le_of_lt hlength))).2
    have hinside := List.prefix_of_prefix_length_le hword (List.prefix_append _ _)
      (by simpa using Nat.succ_le_of_lt hlength)
    exact hs (hinside.subset (List.mem_append_right _ List.mem_cons_self))
  · have hbefore : s :: (w ++ [s]) <+: c :: (tail ++ [s]) :=
      List.prefix_of_prefix_length_le hprefix (List.prefix_append _ _) (by simpa using hlength)
    refine hp (hbefore.isInfix.trans (List.IsSuffix.isInfix ⟨p.take n, ?_⟩))
    rw [← List.cons_append, ← hdrop, ← List.append_assoc, List.take_append_drop]

end

/-! ## Ends of lines -/

section

variable {s : Char} {e p : Text}

/-- Behind a line without `s`, what ends in its only `s` is found first. -/
theorem cut?_line (he : s ∉ e) (hp : s ∉ p) (rest : Text) :
    cut? (e ++ [s]) (p ++ (e ++ [s]) ++ rest) = some (p, rest) := by
  refine cut?_eq_some_iff.2 ⟨rfl, fun n hn hprefix => ?_⟩
  have hdrop : (p ++ (e ++ [s]) ++ rest).drop n = (p.drop n ++ e) ++ s :: rest := by
    rw [List.append_assoc, List.drop_append_of_le_length (Nat.le_of_lt hn)]
    simp
  rw [hdrop] at hprefix
  -- the pattern would end before the first `s`
  have hshort : e ++ [s] <+: p.drop n ++ e := by
    refine List.prefix_of_prefix_length_le hprefix (List.prefix_append _ _) ?_
    simp only [List.length_append, List.length_singleton, List.length_drop]
    omega
  rcases List.mem_append.1 (hshort.subset (List.mem_append_right e List.mem_cons_self)) with h | h
  · exact hp (List.mem_of_mem_drop h)
  · exact he h

theorem cutAll_join_concat (he : s ∉ e) {ps : List Text} (hps : ∀ p ∈ ps, s ∉ p) (t : Text) :
    cutAll (e ++ [s]) (join (e ++ [s]) (ps ++ [t])) = ps ++ cutAll (e ++ [s]) t := by
  induction ps with
  | nil => rw [List.nil_append, join_singleton, List.nil_append]
  | cons p ps ih =>
    obtain ⟨hp, hps⟩ := List.forall_mem_cons.1 hps
    rw [List.cons_append, join_cons _ _ (List.append_ne_nil_of_right_ne_nil ps (List.cons_ne_nil _ _)),
      cutAll_of_cut? (List.append_ne_nil_of_right_ne_nil e (List.cons_ne_nil _ _)) (cut?_line he hp _),
      ih hps, List.cons_append]

end

end BatchCompile.Text
