import BatchCompile.Text.Basic
import Mathlib.Data.List.DropRight

/-!
# Pieces of texts

Splitting and joining undo each other: a text is the join of its pieces (`join_splitOn`), and
pieces that hold no separator are the pieces of their join (`splitOn_join`). Lines can be told from
their join, also where more than a separator ends them (`join_injective`).
-/

namespace BatchCompile.Text

variable {s : Char}

theorem separator_notMem_of_mem_splitOn {t p : Text} (h : p ∈ t.splitOn s) : s ∉ p := by
  induction t generalizing p with
  | nil =>
    rw [List.splitOn_nil, List.mem_singleton] at h
    subst h
    exact List.not_mem_nil
  | cons c t ih =>
    rw [List.splitOn_cons_eq_if_modifyHead] at h
    split at h
    · rcases List.mem_cons.1 h with rfl | h
      · exact List.not_mem_nil
      · exact ih h
    rename_i hc
    rw [beq_iff_eq] at hc
    cases hs : t.splitOn s with
    | nil => exact absurd hs (List.splitOn_ne_nil s t)
    | cons q qs =>
      rw [hs] at h ih
      rcases List.mem_cons.1 h with rfl | h
      · simpa [Ne.symm hc] using ih List.mem_cons_self
      · exact ih (List.mem_cons_of_mem _ h)

@[simp] theorem join_nil (sep : Text) : join sep [] = [] := rfl

@[simp] theorem join_singleton (sep p : Text) : join sep [p] = p :=
  List.intercalate_singleton

theorem join_cons (sep p : Text) {ps : List Text} (h : ps ≠ []) :
    join sep (p :: ps) = p ++ sep ++ join sep ps :=
  List.intercalate_cons_of_ne_nil h

theorem join_append (sep : Text) {ps qs : List Text} (hp : ps ≠ []) (hq : qs ≠ []) :
    join sep (ps ++ qs) = join sep ps ++ sep ++ join sep qs := by
  induction ps with
  | nil => exact absurd rfl hp
  | cons p ps ih =>
    by_cases h : ps = []
    · subst h
      rw [List.singleton_append, join_cons sep p hq, join_singleton]
    · rw [List.cons_append, join_cons sep p (by simp [h]), ih h, join_cons sep p h]
      simp

theorem join_splitOn (t : Text) : join [s] (t.splitOn s) = t :=
  List.intercalate_splitOn s

theorem splitOn_join {ps : List Text} (h : ps ≠ []) (hs : ∀ p ∈ ps, s ∉ p) :
    (join [s] ps).splitOn s = ps :=
  List.splitOn_intercalate s hs h

/-- Where lines end in `e` and `s`, the first piece is the first line and `e`. -/
theorem splitOn_join_cons {e p : Text} {ps : List Text} (he : s ∉ e) (hp : s ∉ p) (h : ps ≠ []) :
    (join (e ++ [s]) (p :: ps)).splitOn s = (p ++ e) :: (join (e ++ [s]) ps).splitOn s := by
  have hpe : s ∉ p ++ e := fun hm => (List.mem_append.1 hm).elim hp he
  rw [join_cons _ _ h, ← List.append_assoc, List.append_assoc (p ++ e), List.singleton_append,
    List.splitOn_append_cons_self_of_not_mem hpe]

/-- Lines can be told from their join, if there are any: none is lost and none changes its place. -/
theorem join_injective {e : Text} (he : s ∉ e) {ps qs : List Text} (hp : ps ≠ []) (hq : qs ≠ [])
    (hps : ∀ p ∈ ps, s ∉ p) (hqs : ∀ q ∈ qs, s ∉ q)
    (h : join (e ++ [s]) ps = join (e ++ [s]) qs) : ps = qs := by
  induction ps generalizing qs with
  | nil => exact absurd rfl hp
  | cons p ps ih =>
    obtain ⟨q, qs, rfl⟩ := List.exists_cons_of_ne_nil hq
    obtain ⟨hp, hps⟩ := List.forall_mem_cons.1 hps
    obtain ⟨hq, hqs⟩ := List.forall_mem_cons.1 hqs
    by_cases hps₀ : ps = [] <;> by_cases hqs₀ : qs = []
    · subst hps₀ hqs₀
      rw [join_singleton, join_singleton] at h
      rw [h]
    · have := congrArg (List.splitOn s) h
      rw [hps₀, join_singleton, List.splitOn_eq_singleton hp, splitOn_join_cons he hq hqs₀] at this
      exact absurd (List.cons.inj this).2.symm (List.splitOn_ne_nil _ _)
    · have := congrArg (List.splitOn s) h
      rw [hqs₀, join_singleton, List.splitOn_eq_singleton hq, splitOn_join_cons he hp hps₀] at this
      exact absurd (List.cons.inj this).2 (List.splitOn_ne_nil _ _)
    · have := congrArg (List.splitOn s) h
      rw [splitOn_join_cons he hp hps₀, splitOn_join_cons he hq hqs₀] at this
      obtain ⟨hhead, htail⟩ := List.cons.inj this
      have hrest := congrArg (join [s]) htail
      rw [join_splitOn, join_splitOn] at hrest
      rw [List.append_cancel_right hhead, ih hps₀ hqs₀ hps hqs hrest]

theorem mem_join {c : Char} {sep : Text} {ps : List Text} (h : c ∈ join sep ps) :
    c ∈ sep ∨ ∃ p ∈ ps, c ∈ p := by
  induction ps with
  | nil => cases h
  | cons p ps ih =>
    by_cases hps : ps = []
    · subst hps
      rw [join_singleton] at h
      exact .inr ⟨p, List.mem_cons_self, h⟩
    rw [join_cons _ _ hps, List.mem_append, List.mem_append] at h
    rcases h with (h | h) | h
    · exact .inr ⟨p, List.mem_cons_self, h⟩
    · exact .inl h
    · rcases ih h with h | ⟨q, hq, hc⟩
      · exact .inl h
      · exact .inr ⟨q, List.mem_cons_of_mem _ hq, hc⟩

theorem mem_join_of_mem {c : Char} {p : Text} {ps : List Text} (sep : Text) (hp : p ∈ ps)
    (hc : c ∈ p) : c ∈ join sep ps := by
  induction ps with
  | nil => cases hp
  | cons q ps ih =>
    by_cases hps : ps = []
    · subst hps
      rwa [join_singleton, ← List.mem_singleton.1 hp]
    rw [join_cons _ _ hps]
    rcases List.mem_cons.1 hp with rfl | hp
    · simp [hc]
    · simp [ih hp]

theorem lineFeed_notMem_of_mem_lines {t line : Text} (h : line ∈ lines t) : '\n' ∉ line := by
  have hended : ∀ l ∈ (t.splitOn '\n').dropLast.map dropReturn, '\n' ∉ l := by
    intro l hl
    obtain ⟨piece, hpiece, rfl⟩ := List.mem_map.1 hl
    have hfree := separator_notMem_of_mem_splitOn (List.dropLast_subset _ hpiece)
    unfold dropReturn
    split
    · exact fun hm => hfree (List.dropLast_subset _ hm)
    · exact hfree
  unfold lines at h
  simp only at h
  split at h
  · exact hended line h
  · exact hended line h
  · rename_i last _ hlast
    rcases List.mem_append.1 h with h | h
    · exact hended line h
    · rw [List.mem_singleton.1 h]
      exact separator_notMem_of_mem_splitOn (List.mem_of_getLast? hlast)

/-! ## Starts -/

theorem isPrefixOf?_eq_none {start t : Text} : start.isPrefixOf? t = none ↔ ¬start <+: t := by
  rw [← Option.not_isSome_iff_eq_none, List.isSome_isPrefixOf?_eq_isPrefixOf,
    List.isPrefixOf_iff_prefix]

/-- A start that ends in the separator is taken off between two pieces, or not at all. -/
theorem isPrefixOf?_join {start rest : Text} {ps : List Text} (h : ps ≠ [])
    (hs : ∀ p ∈ ps, s ∉ p) :
    (start ++ [s]).isPrefixOf? (join [s] ps) = some rest ↔
      ∃ qs rs, qs ≠ [] ∧ rs ≠ [] ∧ ps = qs ++ rs ∧ start = join [s] qs ∧ rest = join [s] rs := by
  rw [List.isPrefixOf?_eq_some_iff_append_eq, List.append_assoc, List.singleton_append]
  constructor
  · intro he
    refine ⟨start.splitOn s, rest.splitOn s, List.splitOn_ne_nil _ _, List.splitOn_ne_nil _ _, ?_,
      (join_splitOn _).symm, (join_splitOn _).symm⟩
    rw [← List.splitOn_append_cons_self, he, splitOn_join h hs]
  · rintro ⟨qs, rs, hq, hr, rfl, rfl, rfl⟩
    rw [join_append _ hq hr, List.append_assoc, List.singleton_append]

/-! ## Ends -/

theorem takeWhile_ne_append {c : Char} {a : Text} (h : c ∉ a) (b : Text) :
    (a ++ c :: b).takeWhile (· != c) = a ∧ (a ++ c :: b).dropWhile (· != c) = c :: b := by
  have hall : ∀ x ∈ a, (x != c) = true := by
    rintro x hx
    rw [bne_iff_ne]
    rintro rfl
    exact h hx
  rw [List.takeWhile_append_of_pos hall, List.dropWhile_append_of_pos hall,
    List.takeWhile_cons_of_neg (by simp), List.dropWhile_cons_of_neg (by simp), List.append_nil]
  exact ⟨rfl, rfl⟩

theorem cutLast?_append {c : Char} (a : Text) {b : Text} (h : c ∉ b) :
    cutLast? c (a ++ c :: b) = some (a, b) := by
  obtain ⟨h₁, h₂⟩ := takeWhile_ne_append (c := c) (a := b.reverse) (by simpa using h) a.reverse
  have hrev : (a ++ c :: b).reverse = b.reverse ++ c :: a.reverse := by simp
  simp only [cutLast?, hrev, h₁, h₂, List.reverse_reverse]

theorem cutLast?_eq_none {c : Char} {t : Text} (h : c ∉ t) : cutLast? c t = none := by
  have hdrop : t.reverse.dropWhile (· != c) = [] := by
    rw [List.dropWhile_eq_nil_iff]
    rintro x hx
    rw [bne_iff_ne]
    rintro rfl
    exact h (List.mem_reverse.1 hx)
  simp only [cutLast?, hdrop]

theorem eq_of_cutLast? {c : Char} {t before after : Text}
    (h : cutLast? c t = some (before, after)) : t = before ++ c :: after := by
  unfold cutLast? at h
  simp only at h
  split at h
  · cases h
  · rename_i d rest heq
    cases h
    have hd : d = c := by
      have := List.head_dropWhile_not (· != c) (l := t.reverse) (by simp [heq])
      simpa [heq] using this
    have hall := List.takeWhile_append_dropWhile (p := (· != c)) (l := t.reverse)
    rw [heq, hd] at hall
    have := congrArg List.reverse hall
    simpa using this.symm

end BatchCompile.Text
