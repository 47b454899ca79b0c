import BatchCompile.Emission

/-!
# Comments in small steps

The search that goes from comment to comment and the reader that goes from character to character
agree: the reader ends in a block comment exactly if the search finds one that is not closed, and
then it is the same one (`run_code_eq_block_iff`).
-/

namespace BatchCompile.Comments

/-- A text whose reader is left in a block comment. -/
def Open (t : Text) : Prop :=
  ∃ left, State.run .code t = .block left

instance (t : Text) : Decidable (Open t) :=
  match h : State.run .code t with
  | .code => isFalse fun ⟨_, hl⟩ => by rw [h] at hl; cases hl
  | .line => isFalse fun ⟨_, hl⟩ => by rw [h] at hl; cases hl
  | .block left => isTrue ⟨left, h⟩

/-! ## One step of the reader -/

theorem run_code_cons {c : Char} {rest : Text}
    (h : ¬(c = '/' ∧ (rest.head? = some '/' ∨ rest.head? = some '*'))) :
    State.run .code (c :: rest) = State.run .code rest := by
  rw [State.run]
  · rintro rest' rfl rfl
    exact h ⟨rfl, .inl rfl⟩
  · rintro rest' rfl rfl
    exact h ⟨rfl, .inr rfl⟩

theorem run_block_cons {c : Char} {rest : Text} (left : Nat)
    (h : ¬(c = '*' ∧ rest.head? = some '/')) :
    State.run (.block left) (c :: rest) = State.run (.block left) rest := by
  rw [State.run]
  rintro rest' rfl rfl
  exact h ⟨rfl, rfl⟩

/-! ## From comment to comment -/

theorem run_code_of_opener?_eq_none {t : Text} (h : opener? t = none) :
    State.run .code t = .code := by
  fun_induction opener? t with
  | case1 => rfl
  | case2 c rest hc => cases h
  | case3 c rest hc ih => rw [run_code_cons hc, ih h]

theorem run_code_of_opener? {t comment : Text} (h : opener? t = some comment) :
    State.run .code t = State.run .code comment := by
  fun_induction opener? t with
  | case1 => cases h
  | case2 c rest hc => rw [Option.some.inj h]
  | case3 c rest hc ih => rw [run_code_cons hc, ih h]

theorem opener?_eq_cons {t comment : Text} (h : opener? t = some comment) :
    ∃ rest, comment = '/' :: '/' :: rest ∨ comment = '/' :: '*' :: rest := by
  fun_induction opener? t with
  | case1 => cases h
  | case2 c rest hc =>
    obtain ⟨rfl, hd⟩ := hc
    cases rest with
    | nil => simp at hd
    | cons d rest =>
      obtain rfl := Option.some.inj h
      refine ⟨rest, ?_⟩
      rcases hd with hd | hd
      · exact .inl (by rw [Option.some.inj hd])
      · exact .inr (by rw [Option.some.inj hd])
  | case3 c rest hc ih => exact ih h

theorem run_line (t : Text) :
    State.run .line t = if toLineEnd t = [] then .line else State.run .code (toLineEnd t) := by
  induction t with
  | nil => rfl
  | cons c rest ih =>
    by_cases hc : c = '\n'
    · subst hc
      rw [State.run, if_pos rfl, show toLineEnd ('\n' :: rest) = '\n' :: rest from rfl,
        if_neg (List.cons_ne_nil _ _), run_code_cons (by simp)]
    · have hdrop : toLineEnd (c :: rest) = toLineEnd rest :=
        List.dropWhile_cons_of_pos (by simpa using hc)
      rw [State.run, if_neg hc, ih, hdrop]

theorem run_block (left : Nat) (t : Text) :
    State.run (.block left) t = (afterCloser? t).elim (.block left) (State.run .code) := by
  fun_induction afterCloser? t with
  | case1 => rfl
  | case2 c rest hc =>
    obtain ⟨rfl, hd⟩ := hc
    cases rest with
    | nil => simp at hd
    | cons d rest =>
      obtain rfl := Option.some.inj hd
      rfl
  | case3 c rest hc ih => rw [run_block_cons left hc, ih]

/-- The reader ends in the block comment that the search finds. -/
theorem run_code_eq_block_iff {t : Text} {left : Nat} :
    State.run .code t = .block left ↔ ∃ u, unclosedFrom? t = some u ∧ left = u.length := by
  fun_induction unclosedFrom? t with
  | case1 t h => simp [run_code_of_opener?_eq_none h]
  | case2 t comment h hslash ih =>
    rw [run_code_of_opener? h]
    obtain ⟨rest, rfl | rfl⟩ := opener?_eq_cons h
    · rw [← ih, State.run, run_line]
      have hend : toLineEnd ('/' :: rest) = toLineEnd rest := rfl
      rw [List.tail_cons, hend]
      split
      · rename_i hnil
        simp [hnil, State.run]
      · rfl
    · cases hslash
  | case3 t comment h hslash hclose =>
    rw [run_code_of_opener? h]
    obtain ⟨rest, rfl | rfl⟩ := opener?_eq_cons h
    · exact absurd rfl hslash
    · rw [State.run, run_block, show afterCloser? rest = none from hclose]
      simp [eq_comm]
  | case4 t comment h hslash rest' hclose ih =>
    rw [run_code_of_opener? h]
    obtain ⟨rest, rfl | rfl⟩ := opener?_eq_cons h
    · exact absurd rfl hslash
    · rw [State.run, run_block, show afterCloser? rest = some rest' from hclose]
      exact ih

theorem open_iff {t : Text} : Open t ↔ ∃ p, unclosed? t = some p := by
  unfold Open unclosed?
  simp only [run_code_eq_block_iff, Option.map_eq_some_iff]
  constructor
  · rintro ⟨_, u, hu, rfl⟩
    exact ⟨_, u, hu, rfl⟩
  · rintro ⟨_, u, hu, rfl⟩
    exact ⟨_, u, hu, rfl⟩

/-! ## Where comments start -/

theorem suffix_of_opener? {t u : Text} (h : opener? t = some u) : u <:+ t := by
  fun_induction opener? t with
  | case1 => cases h
  | case2 c rest hc => exact Option.some.inj h ▸ List.suffix_refl _
  | case3 c rest hc ih => exact (ih h).trans (List.suffix_cons c rest)

theorem suffix_of_afterCloser? {t u : Text} (h : afterCloser? t = some u) : u <:+ t := by
  fun_induction afterCloser? t with
  | case1 => cases h
  | case2 c rest hc =>
    obtain rfl := Option.some.inj h
    exact (List.tail_suffix rest).trans (List.suffix_cons c rest)
  | case3 c rest hc ih => exact (ih h).trans (List.suffix_cons c rest)

theorem suffix_of_unclosedFrom? {t u : Text} (h : unclosedFrom? t = some u) : u <:+ t := by
  fun_induction unclosedFrom? t with
  | case1 => cases h
  | case2 t comment hc hline ih =>
    have htail : toLineEnd comment.tail <:+ comment :=
      (List.dropWhile_suffix _).trans (List.tail_suffix comment)
    exact (ih h).trans (htail.trans (suffix_of_opener? hc))
  | case3 t comment hc hline hclose => exact Option.some.inj h ▸ suffix_of_opener? hc
  | case4 t comment hc hline rest hclose ih =>
    have hrest : rest <:+ comment := (suffix_of_afterCloser? hclose).trans (List.drop_suffix 2 comment)
    exact (ih h).trans (hrest.trans (suffix_of_opener? hc))

theorem unclosedFrom?_eq_cons {t u : Text} (h : unclosedFrom? t = some u) :
    ∃ inside, u = '/' :: '*' :: inside := by
  fun_induction unclosedFrom? t with
  | case1 => cases h
  | case2 t comment hc hline ih => exact ih h
  | case3 t comment hc hline hclose =>
    obtain rfl := Option.some.inj h
    obtain ⟨inside, rfl | rfl⟩ := opener?_eq_cons hc
    · exact absurd rfl hline
    · exact ⟨inside, rfl⟩
  | case4 t comment hc hline rest hclose ih => exact ih h

end BatchCompile.Comments
