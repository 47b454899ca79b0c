import BatchCompile.Closure
import BatchCompile.Proofs.Comments
import BatchCompile.Proofs.Text.Pieces
import Mathlib.Data.List.Induction

/-!
# Carriage returns at line ends

A text whose lines end in line feeds, and the same text with a carriage return in front of each of
them: both have the same lines (`lines_withReturns`) and so the same directives, and a block comment
that is not closed starts in the same line at the same character (`unclosed?_withReturns`). None of
the readers has to know of the other style, as a carriage return opens and closes no comment and is
part of no position: it stands in front of a line feed only.
-/

namespace BatchCompile

namespace Text

/-- The text with a carriage return in front of every line feed. -/
def withReturns (t : Text) : Text :=
  t.flatMap fun c => if c = '\n' then ['\r', '\n'] else [c]

@[simp] theorem withReturns_nil : withReturns [] = [] := rfl

@[simp] theorem withReturns_lineFeed (t : Text) :
    withReturns ('\n' :: t) = '\r' :: '\n' :: withReturns t := rfl

theorem withReturns_cons {c : Char} (h : c ≠ '\n') (t : Text) :
    withReturns (c :: t) = c :: withReturns t := by
  rw [withReturns, List.flatMap_cons, if_neg h]
  rfl

@[simp] theorem withReturns_append (t u : Text) :
    withReturns (t ++ u) = withReturns t ++ withReturns u :=
  List.flatMap_append

theorem withReturns_eq_self {t : Text} (h : '\n' ∉ t) : withReturns t = t := by
  induction t with
  | nil => rfl
  | cons c t ih =>
    obtain ⟨hc, ht⟩ := List.ne_and_not_mem_of_not_mem_cons h
    rw [withReturns_cons hc.symm, ih ht]

theorem head?_withReturns {c : Char} (hn : c ≠ '\n') (hr : c ≠ '\r') (t : Text) :
    (withReturns t).head? = some c ↔ t.head? = some c := by
  cases t with
  | nil => rfl
  | cons d t =>
    by_cases hd : d = '\n'
    · subst hd
      simp [hn.symm, hr.symm]
    · rw [withReturns_cons hd, List.head?_cons, List.head?_cons]

/-! ## Lines -/

theorem withReturns_join {ps : List Text} (h : ∀ p ∈ ps, '\n' ∉ p) :
    withReturns (join ['\n'] ps) = join ['\r', '\n'] ps := by
  induction ps with
  | nil => rfl
  | cons p ps ih =>
    obtain ⟨hp, hps⟩ := List.forall_mem_cons.1 h
    by_cases hne : ps = []
    · subst hne
      rw [join_singleton, join_singleton, withReturns_eq_self hp]
    · rw [join_cons _ _ hne, join_cons _ _ hne, withReturns_append, withReturns_append,
        withReturns_eq_self hp, ih hps]
      rfl

theorem splitOn_join_returns {ps : List Text} {last : Text} (h : ∀ p ∈ ps ++ [last], '\n' ∉ p) :
    (join ['\r', '\n'] (ps ++ [last])).splitOn '\n' = ps.map (· ++ ['\r']) ++ [last] := by
  induction ps with
  | nil =>
    rw [List.nil_append, join_singleton, List.splitOn_eq_singleton (h last (by simp))]
    rfl
  | cons p ps ih =>
    obtain ⟨hp, hps⟩ := List.forall_mem_cons.1 h
    rw [List.cons_append, ← List.singleton_append (l := ['\n']),
      splitOn_join_cons (by decide) hp (by simp), List.singleton_append, ih hps]
    rfl

theorem dropReturn_append (p : Text) : dropReturn (p ++ ['\r']) = p := by
  rw [dropReturn, List.getLast?_concat, if_pos rfl, List.dropLast_concat]

theorem dropReturn_eq_self {p : Text} (h : '\r' ∉ p) : dropReturn p = p :=
  if_neg fun hlast => h (List.mem_of_getLast? hlast)

theorem lines_of_splitOn {t last : Text} {ps : List Text} (h : t.splitOn '\n' = ps ++ [last]) :
    lines t = ps.map dropReturn ++ if last = [] then [] else [last] := by
  simp only [lines, h, List.dropLast_concat, List.getLast?_concat]
  cases last with
  | nil => simp
  | cons c last => simp

theorem lines_withReturns {t : Text} (h : '\r' ∉ t) : lines (withReturns t) = lines t := by
  obtain ⟨ps, last, hsplit⟩ : ∃ ps last, t.splitOn '\n' = ps ++ [last] :=
    ⟨_, _, (List.dropLast_concat_getLast (List.splitOn_ne_nil '\n' t)).symm⟩
  have hfeed : ∀ p ∈ ps ++ [last], '\n' ∉ p := fun p hp =>
    separator_notMem_of_mem_splitOn (hsplit ▸ hp)
  have hreturn : ∀ p ∈ ps, '\r' ∉ p := fun p hp hc => by
    have hmem : p ∈ t.splitOn '\n' := hsplit ▸ List.mem_append_left _ hp
    exact h (join_splitOn (s := '\n') t ▸ mem_join_of_mem _ hmem hc)
  have hsplit' : (withReturns t).splitOn '\n' = ps.map (· ++ ['\r']) ++ [last] := by
    rw [← splitOn_join_returns hfeed, ← withReturns_join hfeed, ← hsplit, join_splitOn]
  rw [lines_of_splitOn hsplit, lines_of_splitOn hsplit', List.map_map]
  congr 1
  refine List.map_congr_left fun p hp => ?_
  rw [Function.comp_apply, dropReturn_append, dropReturn_eq_self (hreturn p hp)]

end Text

/-! ## Comments -/

namespace Comments

open Text

theorem opener?_withReturns (t : Text) :
    opener? (withReturns t) = (opener? t).map withReturns := by
  induction t with
  | nil => rfl
  | cons c t ih =>
    by_cases hc : c = '\n'
    · subst hc
      rw [withReturns_lineFeed, opener?, if_neg (by simp), opener?, if_neg (by simp), ih, opener?,
        if_neg (by simp)]
    · have hopens : (c = '/' ∧ ((withReturns t).head? = some '/' ∨
          (withReturns t).head? = some '*')) ↔
          c = '/' ∧ (t.head? = some '/' ∨ t.head? = some '*') := by
        rw [head?_withReturns (by decide) (by decide), head?_withReturns (by decide) (by decide)]
      rw [withReturns_cons hc, opener?, opener?]
      by_cases hstarts : c = '/' ∧ (t.head? = some '/' ∨ t.head? = some '*')
      · rw [if_pos (hopens.2 hstarts), if_pos hstarts, Option.map_some, withReturns_cons hc]
      · rw [if_neg (mt hopens.1 hstarts), if_neg hstarts, ih]

theorem afterCloser?_withReturns (t : Text) :
    afterCloser? (withReturns t) = (afterCloser? t).map withReturns := by
  induction t with
  | nil => rfl
  | cons c t ih =>
    by_cases hc : c = '\n'
    · subst hc
      rw [withReturns_lineFeed, afterCloser?, if_neg (by simp), afterCloser?, if_neg (by simp), ih,
        afterCloser?, if_neg (by simp)]
    · have hcloses : (c = '*' ∧ (withReturns t).head? = some '/') ↔
          c = '*' ∧ t.head? = some '/' := by
        rw [head?_withReturns (by decide) (by decide)]
      rw [withReturns_cons hc, afterCloser?, afterCloser?]
      by_cases hends : c = '*' ∧ t.head? = some '/'
      · obtain ⟨u, rfl⟩ := List.head?_eq_some_iff.1 hends.2
        rw [if_pos (hcloses.2 hends), if_pos hends, Option.map_some,
          withReturns_cons (by decide), List.tail_cons, List.tail_cons]
      · rw [if_neg (mt hcloses.1 hends), if_neg hends, ih]

/-- Behind a line comment the search goes on in front of the line feed, where the carriage return
before it no longer matters. -/
theorem opener?_toLineEnd_withReturns (t : Text) :
    opener? (toLineEnd (withReturns t)) = opener? (withReturns (toLineEnd t)) := by
  induction t with
  | nil => rfl
  | cons c t ih =>
    by_cases hc : c = '\n'
    · subst hc
      rw [withReturns_lineFeed]
      show opener? ('\n' :: withReturns t) = opener? ('\r' :: '\n' :: withReturns t)
      conv_rhs => rw [opener?, if_neg (by simp)]
    · have hdrop : ∀ u, toLineEnd (c :: u) = toLineEnd u := fun u =>
        List.dropWhile_cons_of_pos (by simpa using hc)
      rw [withReturns_cons hc, hdrop, hdrop, ih]

/-! ### One step of the search -/

theorem unclosedFrom?_congr {t u : Text} (h : opener? t = opener? u) :
    unclosedFrom? t = unclosedFrom? u := by
  rw [unclosedFrom?, unclosedFrom?, h]

theorem unclosedFrom?_none {t : Text} (h : opener? t = none) : unclosedFrom? t = none := by
  rw [unclosedFrom?, h]

theorem unclosedFrom?_line {t rest : Text} (h : opener? t = some ('/' :: '/' :: rest)) :
    unclosedFrom? t = unclosedFrom? (toLineEnd ('/' :: rest)) := by
  rw [unclosedFrom?, h]
  exact if_pos rfl

theorem unclosedFrom?_block {t rest : Text} (h : opener? t = some ('/' :: '*' :: rest)) :
    unclosedFrom? t = (afterCloser? rest).elim (some ('/' :: '*' :: rest)) unclosedFrom? := by
  rw [unclosedFrom?, h]
  refine (if_neg (by simp)).trans ?_
  split
  · rename_i hnone
    rw [show afterCloser? rest = none from hnone]
    rfl
  · rename_i hsome
    rw [show afterCloser? rest = some _ from hsome]
    rfl

theorem unclosedFrom?_withReturns (t : Text) :
    unclosedFrom? (withReturns t) = (unclosedFrom? t).map withReturns := by
  have hslash : ∀ u, withReturns ('/' :: u) = '/' :: withReturns u := withReturns_cons (by decide)
  have hstar : ∀ u, withReturns ('*' :: u) = '*' :: withReturns u := withReturns_cons (by decide)
  fun_induction unclosedFrom? t with
  | case1 t h =>
    have hopener := opener?_withReturns t
    rw [h] at hopener
    exact unclosedFrom?_none hopener
  | case2 t comment h hline ih =>
    have hopener := opener?_withReturns t
    obtain ⟨rest, rfl | rfl⟩ := opener?_eq_cons h
    · rw [h, Option.map_some, hslash, hslash] at hopener
      rw [unclosedFrom?_line hopener, ← hslash, ← ih]
      exact unclosedFrom?_congr (opener?_toLineEnd_withReturns _)
    · cases hline
  | case3 t comment h hline hclose =>
    have hopener := opener?_withReturns t
    obtain ⟨rest, rfl | rfl⟩ := opener?_eq_cons h
    · exact absurd rfl hline
    · rw [h, Option.map_some, hslash, hstar] at hopener
      rw [unclosedFrom?_block hopener, afterCloser?_withReturns,
        show afterCloser? rest = none from hclose, Option.map_some, hslash, hstar]
      rfl
  | case4 t comment h hline rest' hclose ih =>
    have hopener := opener?_withReturns t
    obtain ⟨rest, rfl | rfl⟩ := opener?_eq_cons h
    · exact absurd rfl hline
    · rw [h, Option.map_some, hslash, hstar] at hopener
      rw [unclosedFrom?_block hopener, afterCloser?_withReturns,
        show afterCloser? rest = some rest' from hclose]
      exact ih

/-! ### Where the comment starts -/

/-- The position behind a text does not change: carriage returns stand in front of line feeds only.
-/
theorem behind_withReturns (before : Text) :
    Position.behind (withReturns before) = Position.behind before := by
  induction before using List.reverseRecOn with
  | nil => rfl
  | append_singleton before c ih =>
    simp only [Position.behind, Position.mk.injEq] at ih ⊢
    obtain ⟨hline, hcharacter⟩ := ih
    rw [withReturns_append]
    by_cases hc : c = '\n'
    · subst hc
      simp [hline]
    · rw [withReturns_cons hc, withReturns_nil]
      simp [hline, hcharacter, hc]

theorem unclosed?_of_append {before rest : Text}
    (h : unclosedFrom? (before ++ rest) = some rest) :
    unclosed? (before ++ rest) = some (Position.behind before) := by
  simp [unclosed?, h]

theorem unclosed?_withReturns (t : Text) : unclosed? (withReturns t) = unclosed? t := by
  have hsearch := unclosedFrom?_withReturns t
  cases h : unclosedFrom? t with
  | none =>
    rw [h] at hsearch
    rw [unclosed?, unclosed?, h, hsearch]
    rfl
  | some rest =>
    obtain ⟨before, rfl⟩ := suffix_of_unclosedFrom? h
    rw [h, Option.map_some, withReturns_append] at hsearch
    rw [withReturns_append, unclosed?_of_append hsearch, unclosed?_of_append h,
      behind_withReturns]

end Comments

/-! ## Texts in another style -/

namespace Text

/-- A text as it is, or with a carriage return in front of every line feed if it holds none. -/
def Restyled (t t' : Text) : Prop :=
  t' = t ∨ '\r' ∉ t ∧ t' = withReturns t

variable {t t' : Text}

theorem Restyled.lines (h : Restyled t t') : Text.lines t' = Text.lines t := by
  rcases h with rfl | ⟨hr, rfl⟩
  · rfl
  · exact lines_withReturns hr

theorem Restyled.unclosed? (h : Restyled t t') : Comments.unclosed? t' = Comments.unclosed? t := by
  rcases h with rfl | ⟨-, rfl⟩
  · rfl
  · exact Comments.unclosed?_withReturns t

theorem Restyled.scan (h : Restyled t t') : Directives.scan t' = Directives.scan t := by
  rw [Directives.scan, Directives.scan, h.lines]

end Text

end BatchCompile
