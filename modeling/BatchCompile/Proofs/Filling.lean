import BatchCompile.Diagnostic
import BatchCompile.Proofs.Text.Replacing
import Mathlib.Data.List.GetD
import Mathlib.Data.Nat.Digits.Defs

/-!
# Filling in messages

`pieces` reads a template as its placeholders and the characters between them, and `substitute` puts
the arguments at these placeholders, all at once. `fill` puts one in after the other and searches what
the earlier ones have made, so it does the same only if a placeholder is never read there by chance
(`fill_simultaneous`).
-/

namespace BatchCompile.Template

open Text Text.Holed

/-! ### Placeholders -/

theorem placeholder_eq_cons (i : Nat) : placeholder i = '\x7b' :: (Text.ofNat i ++ ['\x7d']) := rfl

theorem placeholder_ne_nil (i : Nat) : placeholder i ≠ [] :=
  List.cons_ne_nil _ _

theorem isDigit_ofNat (i : Nat) : ∀ c ∈ Text.ofNat i, c.isDigit = true := fun _ =>
  Nat.isDigit_of_mem_toDigits (by decide) (by decide)

theorem opening_notMem {ds : Text} (hds : ∀ c ∈ ds, c.isDigit = true) : '\x7b' ∉ ds ++ ['\x7d'] := by
  rw [List.mem_append, List.mem_singleton]
  rintro (h | h)
  · exact absurd (hds _ h) (by decide)
  · exact absurd h (by decide)

/-- The number of the placeholder at the front of a text. -/
def placeAt? (t : Text) : Option Nat :=
  let number := Nat.ofDigitChars 10 ((t.drop 1).takeWhile Char.isDigit) 0
  if (placeholder number).isPrefixOf t then some number else none

theorem placeAt?_eq_some {t : Text} {i : Nat} : placeAt? t = some i ↔ placeholder i <+: t := by
  constructor
  · intro h
    rw [placeAt?] at h
    split at h
    · cases h
      exact List.isPrefixOf_iff_prefix.1 ‹_›
    · cases h
  · rintro ⟨rest, rfl⟩
    have hread : ((placeholder i ++ rest).drop 1).takeWhile Char.isDigit = Text.ofNat i := by
      rw [placeholder_eq_cons, List.cons_append, List.drop_one, List.tail_cons, List.append_assoc,
        List.takeWhile_append_of_pos (isDigit_ofNat i)]
      simp
    have hnumber : Nat.ofDigitChars 10 (Text.ofNat i) 0 = i :=
      Nat.ofDigitChars_toDigits (by decide) (by decide)
    rw [placeAt?, hread, hnumber, if_pos (List.isPrefixOf_iff_prefix.2 ⟨rest, rfl⟩)]

theorem placeAt?_eq_none {t : Text} : placeAt? t = none ↔ ∀ i, ¬placeholder i <+: t := by
  simp only [← placeAt?_eq_some, Option.eq_none_iff_forall_ne_some, ne_eq]

/-- No two placeholders start at one place. -/
theorem eq_of_placeholder_prefix {t : Text} {i j : Nat} (hi : placeholder i <+: t)
    (hj : placeholder j <+: t) : i = j :=
  Option.some.inj ((placeAt?_eq_some.2 hi).symm.trans (placeAt?_eq_some.2 hj))

/-! ### Templates -/

inductive Piece where
  | char (c : Char)
  | place (number : Nat)
  deriving DecidableEq, Repr

/-- `pieces`, after passing over `skip` characters. -/
def piecesFrom : Nat → Text → List Piece
  | _, [] => []
  | skip + 1, _ :: rest => piecesFrom skip rest
  | 0, c :: rest =>
    match placeAt? (c :: rest) with
    | some number => .place number :: piecesFrom ((placeholder number).length - 1) rest
    | none => .char c :: piecesFrom 0 rest

def pieces (template : Text) : List Piece :=
  piecesFrom 0 template

/-- What a piece becomes: a placeholder its argument, if there is one, and all else itself. -/
def Piece.text (args : List Text) : Piece → Text
  | .char c => [c]
  | .place i => args.getD i (placeholder i)

/-- The template with all its placeholders filled in at once. -/
def substitute (template : Text) (args : List Text) : Text :=
  (pieces template).flatMap (Piece.text args)

theorem piecesFrom_eq_drop (skip : Nat) (t : Text) : piecesFrom skip t = pieces (t.drop skip) := by
  induction t generalizing skip with
  | nil => cases skip <;> rfl
  | cons c t ih =>
    cases skip with
    | zero => rfl
    | succ skip => exact ih skip

theorem pieces_placeholder (i : Nat) (t : Text) :
    pieces (placeholder i ++ t) = .place i :: pieces t := by
  have hfront : placeAt? ('\x7b' :: (Text.ofNat i ++ ['\x7d'] ++ t)) = some i :=
    placeAt?_eq_some.2 ⟨t, rfl⟩
  rw [placeholder_eq_cons, List.cons_append, pieces, piecesFrom, hfront]
  simp only [piecesFrom_eq_drop, placeholder_eq_cons, List.length_cons, Nat.add_sub_cancel,
    List.drop_left]

theorem pieces_cons {c : Char} {t : Text} (h : placeAt? (c :: t) = none) :
    pieces (c :: t) = .char c :: pieces t := by
  rw [pieces, piecesFrom, h]
  rfl

/-- A template is read from the left, a placeholder or a character at a time. -/
theorem template_induction {motive : Text → Prop} (nil : motive [])
    (place : ∀ i t, motive t → motive (placeholder i ++ t))
    (char : ∀ c t, placeAt? (c :: t) = none → motive t → motive (c :: t)) (t : Text) : motive t := by
  induction hn : t.length using Nat.strong_induction_on generalizing t with
  | _ n ih =>
    subst hn
    cases t with
    | nil => exact nil
    | cons c t =>
      cases hfront : placeAt? (c :: t) with
      | none => exact char c t hfront (ih t.length (Nat.lt_succ_self _) t rfl)
      | some i =>
        obtain ⟨rest, hrest⟩ := placeAt?_eq_some.1 hfront
        rw [← hrest] at ih ⊢
        refine place i rest (ih rest.length ?_ rest rfl)
        rw [List.length_append]
        exact Nat.lt_add_of_pos_left (List.length_pos_iff.2 (placeholder_ne_nil i))

theorem substitute_placeholder (i : Nat) (t : Text) (args : List Text) :
    substitute (placeholder i ++ t) args = args.getD i (placeholder i) ++ substitute t args := by
  rw [substitute, pieces_placeholder, List.flatMap_cons]
  rfl

theorem substitute_cons {c : Char} {t : Text} (h : placeAt? (c :: t) = none) (args : List Text) :
    substitute (c :: t) args = c :: substitute t args := by
  rw [substitute, pieces_cons h, List.flatMap_cons]
  rfl

theorem substitute_without (template : Text) : substitute template [] = template := by
  induction template using template_induction with
  | nil => rfl
  | place i t ih => rw [substitute_placeholder, ih]; rfl
  | char c t h ih => rw [substitute_cons h, ih]

/-! ### One argument after the other -/

/-- A piece once some arguments are filled in: a hole, if the next argument goes there. -/
def Piece.holed (given : List Text) : Piece → Holed
  | .char c => [some c]
  | .place i => if i = given.length then [none] else (given.getD i (placeholder i)).map some

def holed (template : Text) (given : List Text) : Holed :=
  (pieces template).flatMap (Piece.holed given)

theorem getD_concat_of_ne {given : List Text} {i : Nat} (hi : i ≠ given.length) (a d : Text) :
    (given ++ [a]).getD i d = given.getD i d := by
  rcases Nat.lt_or_gt_of_ne hi with hi | hi
  · exact List.getD_append _ _ _ _ hi
  · rw [List.getD_eq_default _ _ (Nat.le_of_lt hi), List.getD_eq_default]
    rw [List.length_append]
    exact hi

theorem Piece.plug_holed (given : List Text) (a : Text) (p : Piece) :
    plug (p.holed given) a = p.text (given ++ [a]) := by
  cases p with
  | char c => rfl
  | place i =>
    rw [Piece.holed, Piece.text]
    by_cases hi : i = given.length
    · subst i
      simp
    · rw [if_neg hi, plug_map_some, getD_concat_of_ne hi]

theorem plug_holed (template : Text) (given : List Text) (a : Text) :
    plug (holed template given) a = substitute template (given ++ [a]) := by
  rw [holed, substitute, plug, List.flatMap_assoc]
  exact congrArg (pieces template).flatMap (funext (Piece.plug_holed given a))

/-- The holes are the places of the next placeholder. -/
theorem plug_holed_placeholder (template : Text) (given : List Text) :
    plug (holed template given) (placeholder given.length) = substitute template given := by
  rw [plug_holed, substitute, substitute]
  refine congrArg (pieces template).flatMap (funext fun p => ?_)
  cases p with
  | char c => rfl
  | place i =>
    rw [Piece.text, Piece.text]
    by_cases hi : i = given.length
    · subst i
      simp
    · exact getD_concat_of_ne hi _ _

theorem fillFrom_concat (n : Nat) (template : Text) (given : List Text) (a : Text) :
    fillFrom n template (given ++ [a]) =
      replaceAll (placeholder (n + given.length)) a (fillFrom n template given) := by
  induction given generalizing n template with
  | nil => rfl
  | cons b given ih =>
    rw [List.cons_append, fillFrom, ih, fillFrom, List.length_cons]
    congr 2
    omega

theorem fill_concat (template : Text) (given : List Text) (a : Text) :
    fill template (given ++ [a]) =
      replaceAll (placeholder given.length) a (fill template given) := by
  rw [fill, fillFrom_concat, Nat.zero_add]
  rfl

/-- The next argument is filled in rightly, exactly if its placeholder stands at no other place of the
text so far, or is itself the argument. -/
theorem fill_concat_eq_iff {template : Text} {given : List Text}
    (h : fill template given = substitute template given) (a : Text) :
    fill template (given ++ [a]) = substitute template (given ++ [a]) ↔
      a = placeholder given.length ∨ ¬Strays (placeholder given.length) (holed template given) := by
  rw [fill_concat, h, ← plug_holed_placeholder, ← plug_holed, placeholder_eq_cons]
  exact replaceAll_plug_iff (opening_notMem (isDigit_ofNat _)) a _

/-! ### Arguments that take no part in a placeholder -/

/-- No part of a placeholder is read in the text: it holds no brace, and more than digits. -/
def Inert (a : Text) : Prop :=
  '\x7b' ∉ a ∧ '\x7d' ∉ a ∧ ∃ c ∈ a, c.isDigit = false

theorem Inert.not_prefix {a : Text} (ha : Inert a) {ds : Text} (hds : ∀ c ∈ ds, c.isDigit = true)
    (rest : Text) : ¬ds ++ ['\x7d'] <+: a ++ rest := by
  intro hp
  obtain ⟨-, hclosing, c, hc, hdigit⟩ := ha
  rcases List.prefix_or_prefix_of_prefix hp (List.prefix_append a rest) with hin | hin
  · exact hclosing (hin.mem (by simp))
  · rcases List.mem_append.1 (hin.mem hc) with hmem | hmem
    · exact absurd ((hds c hmem).symm.trans hdigit) (by decide)
    · exact hclosing (List.mem_singleton.1 hmem ▸ hc)

section

variable {given : List Text}

theorem getD_inert_or (hgiven : ∀ a ∈ given, Inert a) (i : Nat) :
    Inert (given.getD i (placeholder i)) ∨ given.getD i (placeholder i) = placeholder i := by
  rw [List.getD_eq_getElem?_getD]
  cases hi : given[i]? with
  | none => exact .inr rfl
  | some a => exact .inl (hgiven a (List.mem_of_getElem? hi))

/-- The end of a placeholder in the text made with inert arguments is one of the template. -/
theorem prefix_of_prefix_substitute (hgiven : ∀ a ∈ given, Inert a) {ds : Text}
    (hds : ∀ c ∈ ds, c.isDigit = true) {t : Text}
    (hp : ds ++ ['\x7d'] <+: substitute t given) : ds ++ ['\x7d'] <+: t := by
  induction t using template_induction generalizing ds with
  | nil => exact hp
  | place i t _ =>
    rw [substitute_placeholder] at hp
    rcases getD_inert_or hgiven i with ha | hi
    · exact absurd hp (ha.not_prefix hds _)
    · rw [hi] at hp
      obtain ⟨c, rest, hcons⟩ := List.exists_cons_of_ne_nil (List.concat_ne_nil '\x7d' ds)
      rw [hcons, placeholder_eq_cons] at hp
      obtain rfl := (List.cons_prefix_cons.1 hp).1
      exact absurd (hcons ▸ List.mem_cons_self) (opening_notMem hds)
  | char c t h ih =>
    rw [substitute_cons h] at hp
    cases ds with
    | nil =>
      rw [List.nil_append] at hp ⊢
      exact List.cons_prefix_cons.2 ⟨(List.cons_prefix_cons.1 hp).1, List.nil_prefix⟩
    | cons d ds =>
      obtain ⟨rfl, htail⟩ := List.cons_prefix_cons.1 hp
      rw [List.forall_mem_cons] at hds
      exact List.cons_prefix_cons.2 ⟨rfl, ih hds.2 htail⟩

/-- Behind inert arguments a placeholder stands at its places only. -/
theorem not_strays_of_inert (hgiven : ∀ a ∈ given, Inert a) (template : Text) :
    ¬Strays (placeholder given.length) (holed template given) := by
  induction template using template_induction with
  | nil => exact not_strays_nil _
  | place i t ih =>
    rw [holed, pieces_placeholder, List.flatMap_cons, Piece.holed]
    split
    · exact mt strays_none.1 ih
    rename_i hi
    rcases getD_inert_or hgiven i with ha | heq
    · exact mt (strays_map_some ha.1).1 ih
    · rw [heq, placeholder_eq_cons i, List.map_cons, List.cons_append, strays_some, not_or]
      refine ⟨fun hp => hi ?_, mt (strays_map_some ?_).1 ih⟩
      · rw [plug_append, plug_map_some] at hp
        exact eq_of_placeholder_prefix ⟨_, rfl⟩ hp
      · exact opening_notMem (isDigit_ofNat i)
  | char c t h ih =>
    rw [holed, pieces_cons h, List.flatMap_cons, Piece.holed, List.singleton_append, strays_some,
      not_or]
    refine ⟨fun hp => ?_, ih⟩
    change _ <+: c :: plug (holed t given) _ at hp
    rw [plug_holed_placeholder, placeholder_eq_cons] at hp
    obtain ⟨rfl, htail⟩ := List.cons_prefix_cons.1 hp
    have hin := prefix_of_prefix_substitute hgiven (isDigit_ofNat _) htail
    exact placeAt?_eq_none.1 h given.length (List.cons_prefix_cons.2 ⟨rfl, hin⟩)

end

/-- The arguments are filled in rightly one by one, exactly if the placeholder of none of them stands
where the template has none when it is its turn. -/
theorem forall_fill_eq_iff (template : Text) (args : List Text) :
    (∀ given, given <+: args → fill template given = substitute template given) ↔
      ∀ given a, given ++ [a] <+: args →
        a = placeholder given.length ∨
          ¬Strays (placeholder given.length) (holed template given) := by
  constructor
  · intro hfill given a hp
    have hgiven := hfill given ((List.prefix_append given [a]).trans hp)
    exact (fill_concat_eq_iff hgiven a).1 (hfill _ hp)
  · intro hstays given
    induction given using List.reverseRecOn with
    | nil => exact fun _ => (substitute_without template).symm
    | append_singleton given a ih =>
      intro hp
      have hgiven := ih ((List.prefix_append given [a]).trans hp)
      exact (fill_concat_eq_iff hgiven a).2 (hstays given a hp)

/-- With every argument in its turn, the message is the template with its placeholders filled in at
once, exactly if no placeholder is read where the template has none, be it in an argument or across
its ends. None is read so if all arguments but the last are inert. -/
theorem fill_simultaneous (template : Text) (args : List Text) :
    ((∀ given, given <+: args → fill template given = substitute template given) ↔
      ∀ given a, given ++ [a] <+: args →
        a = placeholder given.length ∨
          ¬Strays (placeholder given.length) (holed template given)) ∧
    ((∀ a ∈ args.dropLast, Inert a) → fill template args = substitute template args) := by
  refine ⟨forall_fill_eq_iff template args, fun hinert => ?_⟩
  refine (forall_fill_eq_iff template args).2 (fun given a hp => .inr ?_) args List.prefix_rfl
  refine not_strays_of_inert (fun b hb => hinert b ?_) template
  obtain ⟨rest, rfl⟩ := hp
  rw [List.append_assoc, List.dropLast_append_of_ne_nil (by simp)]
  exact List.mem_append_left _ hb

/-- The last argument may look like a placeholder. -/
theorem fill_simultaneous_last :
    fill "\x7b1\x7d: \x7b0\x7d, \x7b1\x7d" ["/work/a.ts", "\x7b0\x7d"] =
        substitute "\x7b1\x7d: \x7b0\x7d, \x7b1\x7d" ["/work/a.ts", "\x7b0\x7d"] ∧
      substitute "\x7b1\x7d: \x7b0\x7d, \x7b1\x7d" ["/work/a.ts", "\x7b0\x7d"] =
        "\x7b0\x7d: /work/a.ts, \x7b0\x7d".toList := by
  have hinert : Inert "/work/a.ts" := ⟨by decide, by decide, '/', by decide, rfl⟩
  exact ⟨(fill_simultaneous _ _).2 (List.forall_mem_singleton.2 hinert), by decide +kernel⟩

/-- A placeholder in the first argument is read when the second one is filled in. -/
theorem fill_rereads :
    fill "\x7b0\x7d\x7b1\x7d" ["\x7b1\x7d", "x"] = "xx".toList ∧
      substitute "\x7b0\x7d\x7b1\x7d" ["\x7b1\x7d", "x"] = "\x7b1\x7dx".toList ∧
      fill "\x7b0\x7d\x7b1\x7d" ["\x7b1\x7d", "x"] ≠
        substitute "\x7b0\x7d\x7b1\x7d" ["\x7b1\x7d", "x"] := by
  decide +kernel

end BatchCompile.Template
