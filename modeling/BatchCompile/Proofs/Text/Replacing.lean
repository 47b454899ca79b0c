import BatchCompile.Text.Basic
import Mathlib.Data.List.Infix

/-!
# Replacing

`replaceAll` puts a new text at every place of a pattern (`replaceAll_append`) and leaves every other
character (`replaceAll_cons`). Where the pattern is known to stand, the text is written with holes
at these places. It may stand elsewhere too: then it strays. `replaceAll_plug_iff` says that the
holes, and nothing else, are filled in, exactly if it does not stray or is replaced by itself.
-/

namespace BatchCompile.Text

variable {pattern new : Text}

theorem replaceFrom_eq_drop (skip : Nat) (t : Text) :
    replaceFrom pattern new skip t = replaceAll pattern new (t.drop skip) := by
  induction t generalizing skip with
  | nil => cases skip <;> rfl
  | cons c t ih =>
    cases skip with
    | zero => rfl
    | succ skip => exact ih skip

@[simp] theorem replaceAll_nil (pattern new : Text) : replaceAll pattern new [] = [] := rfl

theorem replaceAll_append (hp : pattern ≠ []) (t : Text) :
    replaceAll pattern new (pattern ++ t) = new ++ replaceAll pattern new t := by
  cases pattern with
  | nil => exact absurd rfl hp
  | cons x tail =>
    have hfront : (x :: tail).isPrefixOf (x :: (tail ++ t)) = true :=
      List.isPrefixOf_iff_prefix.2 ⟨t, rfl⟩
    rw [List.cons_append, replaceAll, replaceFrom, if_pos hfront, replaceFrom_eq_drop]
    simp

theorem replaceAll_cons {c : Char} {t : Text} (h : ¬pattern <+: c :: t) :
    replaceAll pattern new (c :: t) = c :: replaceAll pattern new t := by
  rw [replaceAll, replaceFrom, if_neg (by rwa [List.isPrefixOf_iff_prefix])]
  rfl

theorem replaceAll_self (hp : pattern ≠ []) (t : Text) : replaceAll pattern pattern t = t := by
  induction h : t.length using Nat.strong_induction_on generalizing t with
  | _ n ih =>
    subst h
    cases t with
    | nil => rfl
    | cons c t =>
      by_cases hfront : pattern <+: c :: t
      · obtain ⟨rest, hrest⟩ := hfront
        have hshort : rest.length < (c :: t).length := by
          rw [← hrest, List.length_append]
          exact Nat.lt_add_of_pos_left (List.length_pos_iff.2 hp)
        rw [← hrest, replaceAll_append hp, ih rest.length hshort rest rfl]
      · rw [replaceAll_cons hfront, ih t.length (Nat.lt_succ_self _) t rfl]

/-- A text with holes in it. -/
abbrev Holed := List (Option Char)

namespace Holed

def plug (h : Holed) (t : Text) : Text :=
  h.flatMap fun c? => c?.elim t fun c => [c]

@[simp] theorem plug_nil (t : Text) : plug [] t = [] := rfl

@[simp] theorem plug_none (h : Holed) (t : Text) : plug (none :: h) t = t ++ plug h t := rfl

@[simp] theorem plug_some (c : Char) (h : Holed) (t : Text) :
    plug (some c :: h) t = c :: plug h t := rfl

@[simp] theorem plug_append (h h' : Holed) (t : Text) : plug (h ++ h') t = plug h t ++ plug h' t :=
  List.flatMap_append

@[simp] theorem plug_map_some (s t : Text) : plug (s.map some) t = s := by
  induction s with
  | nil => rfl
  | cons c s ih => rw [List.map_cons, plug_some, ih]

/-- With the pattern in every hole, it also stands where a character starts it that is in no hole. -/
def Strays (pattern : Text) (h : Holed) : Prop :=
  ∃ before c after, h = before ++ some c :: after ∧ pattern <+: c :: plug after pattern

theorem not_strays_nil (pattern : Text) : ¬Strays pattern [] := by
  rintro ⟨before, c, after, h, -⟩
  exact absurd h.symm (by simp)

theorem strays_none {h : Holed} : Strays pattern (none :: h) ↔ Strays pattern h := by
  constructor
  · rintro ⟨before, c, after, he, hp⟩
    cases before with
    | nil => cases he
    | cons d before => exact ⟨before, c, after, (List.cons.inj he).2, hp⟩
  · rintro ⟨before, c, after, rfl, hp⟩
    exact ⟨none :: before, c, after, rfl, hp⟩

theorem strays_some {c : Char} {h : Holed} :
    Strays pattern (some c :: h) ↔ pattern <+: c :: plug h pattern ∨ Strays pattern h := by
  constructor
  · rintro ⟨before, d, after, he, hp⟩
    cases before with
    | nil =>
      cases he
      exact .inl hp
    | cons d' before => exact .inr ⟨before, d, after, (List.cons.inj he).2, hp⟩
  · rintro (hp | ⟨before, d, after, rfl, hp⟩)
    · exact ⟨[], c, h, rfl, hp⟩
    · exact ⟨some c :: before, d, after, rfl, hp⟩

section

variable {x : Char} {tail : Text}

/-- In front of a text without its first character, the pattern does not stand anew. -/
theorem strays_map_some {s : Text} (hs : x ∉ s) {h : Holed} :
    Strays (x :: tail) (s.map some ++ h) ↔ Strays (x :: tail) h := by
  induction s with
  | nil => rfl
  | cons c s ih =>
    rw [List.mem_cons, not_or] at hs
    rw [List.map_cons, List.cons_append, strays_some, ih hs.2, or_iff_right_iff_imp]
    exact fun hp => absurd (List.cons_prefix_cons.1 hp).1 hs.1

/-- What holds no `x` reaches into no hole, if what is in the holes starts with `x`. -/
theorem eq_map_some_append {t : Text} (ht : x ∉ t) {h : Holed} (hp : t <+: plug h (x :: tail)) :
    ∃ rest, h = t.map some ++ rest := by
  induction t generalizing h with
  | nil => exact ⟨h, rfl⟩
  | cons y t ih =>
    rw [List.mem_cons, not_or] at ht
    match h with
    | [] => exact absurd (List.prefix_nil.1 hp) (List.cons_ne_nil y t)
    | none :: h => exact absurd (List.cons_prefix_cons.1 hp).1.symm ht.1
    | some c :: h =>
      obtain ⟨rfl, htail⟩ := List.cons_prefix_cons.1 hp
      obtain ⟨rest, rfl⟩ := ih ht.2 htail
      exact ⟨rest, rfl⟩

/-- A text with holes is read from the left: a hole, a place where the pattern strays, or another
character. The pattern does not stand across such parts, as its first character is only there. -/
theorem induction_on (hx : x ∉ tail) {motive : Holed → Prop} (nil : motive [])
    (hole : ∀ h, motive h → motive (none :: h))
    (stray : ∀ h, motive h → motive ((x :: tail).map some ++ h))
    (plain : ∀ c h, ¬x :: tail <+: c :: plug h (x :: tail) → motive h → motive (some c :: h))
    (h : Holed) : motive h := by
  induction hn : h.length using Nat.strong_induction_on generalizing h with
  | _ n ih =>
    subst hn
    match h with
    | [] => exact nil
    | none :: h => exact hole h (ih h.length (Nat.lt_succ_self _) h rfl)
    | some c :: h =>
      by_cases hp : x :: tail <+: c :: plug h (x :: tail)
      · obtain ⟨rfl, htail⟩ := List.cons_prefix_cons.1 hp
        obtain ⟨rest, rfl⟩ := eq_map_some_append hx htail
        refine stray rest (ih rest.length ?_ rest rfl)
        simp only [List.length_cons, List.length_append]
        omega
      · exact plain c h hp (ih h.length (Nat.lt_succ_self _) h rfl)

theorem length_replaceAll_plug (hx : x ∉ tail) (new : Text) (h : Holed) :
    ∃ strays, (replaceAll (x :: tail) new (plug h (x :: tail))).length
        + strays * (x :: tail).length = (plug h new).length + strays * new.length := by
  have hp : x :: tail ≠ [] := List.cons_ne_nil x tail
  induction h using induction_on hx with
  | nil => exact ⟨0, by simp⟩
  | hole h ih =>
    obtain ⟨strays, ih⟩ := ih
    refine ⟨strays, ?_⟩
    rw [plug_none, plug_none, replaceAll_append hp, List.length_append, List.length_append]
    omega
  | stray h ih =>
    obtain ⟨strays, ih⟩ := ih
    refine ⟨strays + 1, ?_⟩
    rw [plug_append, plug_append, plug_map_some, plug_map_some, replaceAll_append hp,
      List.length_append, List.length_append, Nat.succ_mul, Nat.succ_mul]
    omega
  | plain c h hc ih =>
    obtain ⟨strays, ih⟩ := ih
    refine ⟨strays, ?_⟩
    have hone (t : Text) : (c :: t).length = t.length + 1 := rfl
    rw [plug_some, plug_some, replaceAll_cons hc, hone, hone]
    omega

theorem replaceAll_plug (hp : pattern ≠ []) {h : Holed} (hs : ¬Strays pattern h) :
    replaceAll pattern new (plug h pattern) = plug h new := by
  induction h with
  | nil => rfl
  | cons c? h ih =>
    cases c? with
    | none => rw [plug_none, plug_none, replaceAll_append hp, ih (mt strays_none.2 hs)]
    | some c =>
      rw [strays_some, not_or] at hs
      rw [plug_some, plug_some, replaceAll_cons hs.1, ih hs.2]

/-- The holes and nothing else are filled in, exactly if the pattern stands nowhere else or nothing
changes. -/
theorem replaceAll_plug_iff (hx : x ∉ tail) (new : Text) (h : Holed) :
    replaceAll (x :: tail) new (plug h (x :: tail)) = plug h new ↔
      new = x :: tail ∨ ¬Strays (x :: tail) h := by
  have hp : x :: tail ≠ [] := List.cons_ne_nil x tail
  constructor
  · rw [or_iff_not_imp_right, not_not]
    induction h using induction_on hx with
    | nil => exact fun _ hs => absurd hs (not_strays_nil _)
    | hole h ih =>
      intro he hs
      rw [plug_none, plug_none, replaceAll_append hp] at he
      exact ih (List.append_cancel_left he) (strays_none.1 hs)
    | stray h ih =>
      -- The new text stands where the pattern has to stay, so the two are as long as each other.
      intro he _
      rw [plug_append, plug_append, plug_map_some, plug_map_some, replaceAll_append hp] at he
      obtain ⟨strays, hlength⟩ := length_replaceAll_plug hx new h
      have hsum := congrArg List.length he
      rw [List.length_append, List.length_append] at hsum
      have hmul : (strays + 1) * new.length = (strays + 1) * (x :: tail).length := by
        rw [Nat.succ_mul, Nat.succ_mul]
        omega
      exact (List.append_inj he (Nat.eq_of_mul_eq_mul_left (Nat.succ_pos strays) hmul)).1
    | plain c h hc ih =>
      intro he hs
      rw [plug_some, plug_some, replaceAll_cons hc] at he
      exact ih (List.cons.inj he).2 ((strays_some.1 hs).resolve_left hc)
  · rintro (rfl | hs)
    · exact replaceAll_self hp _
    · exact replaceAll_plug hp hs

end

end Holed

end BatchCompile.Text
