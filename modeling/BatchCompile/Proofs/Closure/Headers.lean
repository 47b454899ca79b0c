import BatchCompile.Proofs.Closure.Attributes
import BatchCompile.Proofs.Closure.Imports
import BatchCompile.Proofs.Text.Returns
import Mathlib.Data.List.Basic

/-!
# Headers

A source is cut in two behind its header, the first lines that are blank or start with three slashes
(`exists_headed`). What it references is read from the lines of the header alone, whatever follows
them (`scan_of_lines`), and paths that are written as references are read as they are, whatever they
hold (`reference?_referenceLine`). `scan_headed` puts this together.
-/

namespace BatchCompile

namespace Text

/-! ## Lines in front of others -/

theorem lines_append {a b : Text} (h : a = [] ∨ a.getLast? = some '\n' ∨ b = []) :
    lines (a ++ b) = lines a ++ lines b := by
  rcases h with rfl | h | rfl
  · rfl
  · obtain ⟨front, rfl⟩ := List.getLast?_eq_some_iff.1 h
    obtain ⟨ps, last, hb⟩ : ∃ ps last, b.splitOn '\n' = ps ++ [last] :=
      ⟨_, _, (List.dropLast_concat_getLast (List.splitOn_ne_nil '\n' b)).symm⟩
    have hfront : (front ++ ['\n']).splitOn '\n' = front.splitOn '\n' ++ [[]] :=
      List.splitOn_append_cons_self front []
    have hboth : (front ++ ['\n'] ++ b).splitOn '\n' = (front.splitOn '\n' ++ ps) ++ [last] := by
      rw [List.append_assoc, List.singleton_append, List.splitOn_append_cons_self, hb, List.append_assoc]
    rw [lines_of_splitOn hfront, lines_of_splitOn hb, lines_of_splitOn hboth, List.map_append, if_pos rfl,
      List.append_nil, List.append_assoc]
  · simp

theorem lines_concat {line : Text} (h : '\n' ∉ line) : lines (line ++ ['\n']) = [dropReturn line] := by
  have hsplit : (line ++ ['\n']).splitOn '\n' = [line] ++ [[]] := by
    rw [List.splitOn_append_cons_self line [], List.splitOn_eq_singleton h]
    rfl
  rw [lines_of_splitOn hsplit]
  rfl

theorem lines_line {line : Text} (h : '\n' ∉ line) (rest : Text) :
    lines (line ++ ['\n'] ++ rest) = dropReturn line :: lines rest := by
  rw [lines_append (.inr (.inl (by simp))), lines_concat h]
  rfl

theorem lines_eq_singleton {t : Text} (hne : t ≠ []) (h : '\n' ∉ t) : lines t = [t] := by
  have hsplit : t.splitOn '\n' = [] ++ [t] := List.splitOn_eq_singleton h
  rw [lines_of_splitOn hsplit, if_neg hne]
  rfl

theorem lines_ne_nil {t : Text} (h : t ≠ []) : lines t ≠ [] := by
  intro hnil
  obtain ⟨ps, last, ht⟩ : ∃ ps last, t.splitOn '\n' = ps ++ [last] :=
    ⟨_, _, (List.dropLast_concat_getLast (List.splitOn_ne_nil '\n' t)).symm⟩
  rw [lines_of_splitOn ht, List.append_eq_nil_iff, List.map_eq_nil_iff] at hnil
  obtain ⟨rfl, hlast⟩ := hnil
  have hempty : last = [] := by
    by_contra hne
    rw [if_neg hne] at hlast
    cases hlast
  refine h ?_
  rw [← join_splitOn (s := '\n') t, ht, hempty]
  rfl

/-- No pattern stands across a character that is not in it. -/
theorem not_infix_append_cons {pattern front rest : Text} {c : Char} (hc : c ∉ pattern)
    (hfront : ¬pattern <:+: front) (hrest : ¬pattern <:+: rest) :
    ¬pattern <:+: front ++ c :: rest := by
  rw [← cut?_eq_none_iff, cut?_append_cons hfront hc, cut?_eq_none_iff.2 hrest]
  rfl

end Text

namespace Directives

open Text (asciiLower isBlank trimStart)

/-! ## Lines of headers -/

/-- A line that is blank, or has three slashes behind its blanks. -/
def HeaderLine (line : Text) : Prop :=
  ∃ blanks rest, line = blanks ++ rest ∧ (∀ c ∈ blanks, isBlank c = true) ∧
    (rest = [] ∨ "///".toList <+: rest)

theorem trimStart_append {blanks rest : Text} (hblanks : ∀ c ∈ blanks, isBlank c = true)
    (hrest : ∀ c ∈ rest.head?, isBlank c = false) : trimStart (blanks ++ rest) = rest := by
  rw [trimStart, List.dropWhile_append_of_pos hblanks]
  cases rest with
  | nil => rfl
  | cons c rest => exact List.dropWhile_cons_of_neg (by simp [hrest c rfl])

theorem inHeader_iff {line : Text} : inHeader line = true ↔ line = [] ∨ "///".toList <+: line := by
  rw [inHeader, Bool.or_eq_true, List.isEmpty_iff, List.isPrefixOf_iff_prefix]

theorem inHeader_trimStart {line : Text} :
    inHeader (trimStart line) = true ↔ HeaderLine line := by
  rw [inHeader_iff]
  constructor
  · intro h
    refine ⟨line.takeWhile isBlank, trimStart line, ?_, fun c hc => List.mem_takeWhile_imp hc, h⟩
    exact List.takeWhile_append_dropWhile.symm
  · rintro ⟨blanks, rest, rfl, hblanks, hrest⟩
    rwa [trimStart_append hblanks]
    intro c hc
    rcases hrest with rfl | ⟨slashes, rfl⟩
    · cases hc
    · cases hc
      decide

theorem trimStart_eq_nil {line : Text} (h : line.all isBlank = true) : trimStart line = [] := by
  rw [trimStart, List.dropWhile_eq_nil_iff]
  exact List.all_eq_true.1 h

theorem headerLine_of_blank {line : Text} (h : line.all isBlank = true) : HeaderLine line :=
  inHeader_trimStart.1 (inHeader_iff.2 (.inl (trimStart_eq_nil h)))

/-! ## Sources with headers -/

/-- Some first lines of a source, all of which may stand in a header, and the rest of it. -/
structure Leading (front rest : Text) : Prop where
  whole : front = [] ∨ front.getLast? = some '\n' ∨ rest = []
  lines : ∀ line ∈ Text.lines front, HeaderLine line

/-- A header and what may follow it. -/
structure Headed (header body : Text) : Prop extends Leading header body where
  stops : ∀ line ∈ (Text.lines body).head?, ¬HeaderLine line

theorem exists_headed (source : Text) :
    ∃ header body, source = header ++ body ∧ Headed header body := by
  induction hlength : source.length using Nat.strong_induction_on generalizing source with
  | _ n ih =>
  by_cases hfeed : '\n' ∈ source
  · obtain ⟨line, rest, rfl, hline⟩ := List.eq_append_cons_of_mem hfeed
    have hsource : line ++ '\n' :: rest = line ++ ['\n'] ++ rest := by simp
    by_cases hheader : HeaderLine (Text.dropReturn line)
    · obtain ⟨header, body, rfl, hheaded⟩ := ih rest.length
        (by rw [← hlength, List.length_append, List.length_cons]; omega) rest rfl
      refine ⟨line ++ ['\n'] ++ header, body, by simp, ⟨?_, ?_⟩, hheaded.stops⟩
      · rcases hheaded.whole with rfl | h | h
        · exact .inr (.inl (by simp))
        · exact .inr (.inl (by rw [List.getLast?_append, h]; rfl))
        · exact .inr (.inr h)
      · rw [Text.lines_line hline]
        exact List.forall_mem_cons.2 ⟨hheader, hheaded.lines⟩
    · refine ⟨[], line ++ '\n' :: rest, rfl, ⟨.inl rfl, by simp⟩, fun first hfirst => ?_⟩
      rw [hsource, Text.lines_line hline] at hfirst
      cases hfirst
      exact hheader
  · by_cases hne : source = []
    · subst hne
      exact ⟨[], [], rfl, ⟨.inl rfl, by simp⟩, by simp⟩
    have hlines := Text.lines_eq_singleton hne hfeed
    by_cases hheader : HeaderLine source
    · exact ⟨source, [], by simp, ⟨.inr (.inr rfl), by simpa [hlines] using hheader⟩, by simp⟩
    · exact ⟨[], source, rfl, ⟨.inl rfl, by simp⟩, by simpa [hlines] using hheader⟩

/-- A header goes as far as its lines can. -/
theorem Headed.longest {header body front rest : Text} (h : Headed header body)
    (hsame : front ++ rest = header ++ body) (hfront : Leading front rest) : front <+: header := by
  have hprefix : front <+: header ++ body := ⟨rest, hsame⟩
  rcases List.prefix_or_prefix_of_prefix hprefix (List.prefix_append _ _) with hshort | ⟨more, rfl⟩
  · exact hshort
  have hbody : body = more ++ rest := by
    rw [List.append_assoc] at hsame
    exact (List.append_cancel_left hsame).symm
  cases more with
  | nil => simp
  | cons c more =>
    -- the first line of what is left over would stop the header
    have hwhole := h.whole.imp_right (Or.resolve_right · (by simp [hbody]))
    have hlines : Text.lines (header ++ c :: more) = Text.lines header ++ Text.lines (c :: more) :=
      Text.lines_append (hwhole.imp_right .inl)
    have hrest : Text.lines body = Text.lines (c :: more) ++ Text.lines rest := by
      refine hbody ▸ Text.lines_append (.inr (hfront.whole.resolve_left (by simp) |>.imp_left ?_))
      intro hlast
      rwa [List.getLast?_append_of_ne_nil _ (List.cons_ne_nil _ _)] at hlast
    obtain ⟨line, hline⟩ : ∃ line, (Text.lines (c :: more)).head? = some line := by
      cases hempty : Text.lines (c :: more) with
      | nil => exact absurd hempty (Text.lines_ne_nil (List.cons_ne_nil _ _))
      | cons line _ => exact ⟨line, rfl⟩
    refine absurd (hfront.lines line ?_) (h.stops line ?_)
    · rw [hlines]
      exact List.mem_append_right _ (List.mem_of_head? hline)
    · rw [hrest, List.head?_append, hline]
      rfl

def reference? (line : Text) : Option Text :=
  attribute? "path" (trimStart line)

def deniesLib (line : Text) : Bool :=
  (attribute? "no-default-lib" (trimStart line)).any fun v => asciiLower (Text.trim v) = "true".toList

theorem scan_of_lines {source : Text} {above below : List Text}
    (hlines : Text.lines source = above ++ below) (habove : ∀ line ∈ above, HeaderLine line)
    (hbelow : ∀ line ∈ below.head?, ¬HeaderLine line) :
    (scan source).references = above.filterMap reference? ∧
      (scan source).noDefaultLib = above.any deniesLib := by
  have hheader : ((Text.lines source).map trimStart).takeWhile inHeader = above.map trimStart := by
    have hall : ∀ line ∈ above, (inHeader ∘ trimStart) line = true := fun line hline =>
      inHeader_trimStart.2 (habove line hline)
    have hstop : below.takeWhile (inHeader ∘ trimStart) = [] := by
      cases below with
      | nil => rfl
      | cons line below => exact List.takeWhile_cons_of_neg (mt inHeader_trimStart.1 (hbelow line rfl))
    rw [List.takeWhile_map, hlines, List.takeWhile_append_of_pos hall, hstop, List.append_nil]
  constructor
  · show (((Text.lines source).map trimStart).takeWhile inHeader).filterMap (attribute? "path") = _
    rw [hheader, List.filterMap_map]
    rfl
  · show (((Text.lines source).map trimStart).takeWhile inHeader).any _ = _
    rw [hheader, List.any_map]
    rfl

theorem Headed.scan {header body : Text} (h : Headed header body) :
    (scan (header ++ body)).references = (Text.lines header).filterMap reference? ∧
      (scan (header ++ body)).noDefaultLib = (Text.lines header).any deniesLib :=
  scan_of_lines (Text.lines_append h.whole) h.lines h.stops

/-! ## Lines with references -/

/-- What stands in front of the quoted path in a line that references it. -/
def referenceStart : Text := "/// <reference path="

def referenceLine (p : Text) : Text :=
  referenceStart ++ '"' :: (p ++ '"' :: ['/', '>'])

section

variable {p : Text}

theorem trimStart_referenceLine (p : Text) : trimStart (referenceLine p) = referenceLine p := rfl

theorem headerLine_referenceLine (p : Text) : HeaderLine (referenceLine p) :=
  ⟨[], referenceLine p, rfl, by simp, .inr ⟨_, rfl⟩⟩

/-- The name of the attribute is found in front of the path, whatever the path holds. -/
theorem reference?_referenceLine (hquote : '"' ∉ p) : reference? (referenceLine p) = some p := by
  have hreference : (Text.cut? "<reference".toList (asciiLower (referenceLine p))).isSome = true := by
    have hcut : Text.cut? "<reference".toList (asciiLower referenceStart) =
      some ("/// ".toList, " path=".toList) := by decide
    rw [referenceLine, Text.asciiLower_append, Text.cut?_append hcut]
    rfl
  have hvalue : attributeValue? "path".toList (referenceLine p) =
      some ('"' :: (p ++ '"' :: ['/', '>'])) := rfl
  rw [reference?, trimStart_referenceLine, attribute?, if_pos hreference, hvalue, Option.bind_some,
    enclosed?_quote (.inl rfl) hquote]

theorem deniesLib_referenceLine (h : ¬"no-default-lib".toList <:+: asciiLower p) :
    deniesLib (referenceLine p) = false := by
  have hline : asciiLower (referenceLine p) =
      referenceStart ++ '"' :: (asciiLower p ++ '"' :: ['/', '>']) := by
    have hstart : asciiLower referenceStart = referenceStart := by decide
    rw [referenceLine, Text.asciiLower_append, hstart]
    simp [asciiLower]
  have hnone : ¬"no-default-lib".toList <:+: asciiLower (referenceLine p) := by
    rw [hline]
    refine Text.not_infix_append_cons (by decide) (Text.cut?_eq_none_iff.1 (by decide)) ?_
    exact Text.not_infix_append_cons (by decide) h (Text.cut?_eq_none_iff.1 (by decide))
  rw [deniesLib, trimStart_referenceLine, attribute?, attributeValue?_eq_none hnone]
  split <;> rfl

theorem dropReturn_referenceLine (p : Text) :
    Text.dropReturn (referenceLine p) = referenceLine p := by
  have hlast : (referenceLine p).getLast? = some '>' := by
    have hend : referenceLine p = referenceStart ++ '"' :: (p ++ ['"', '/']) ++ ['>'] := by
      simp [referenceLine]
    rw [hend, List.getLast?_concat]
  exact if_neg (by rw [hlast]; decide)

theorem lines_references {ps : List Text} (h : ∀ p ∈ ps, '\n' ∉ p) (body : Text) :
    Text.lines ((ps.flatMap fun p => referenceLine p ++ ['\n']) ++ body) =
      ps.map referenceLine ++ Text.lines body := by
  induction ps with
  | nil => rfl
  | cons p ps ih =>
    obtain ⟨hp, hps⟩ := List.forall_mem_cons.1 h
    have hstart : '\n' ∉ referenceStart := by decide
    have hline : '\n' ∉ referenceLine p := by simp [referenceLine, hstart, hp]
    rw [List.flatMap_cons, List.append_assoc, Text.lines_line hline, dropReturn_referenceLine, ih hps]
    rfl

end

/-- References are read back, with all that a body starts with being blank lines. -/
theorem scan_of_references {source : Text} {ps : List Text} {below : List Text}
    (hlines : Text.lines source = ps.map referenceLine ++ below)
    (hps : ∀ p ∈ ps, '"' ∉ p ∧ ¬"no-default-lib".toList <:+: asciiLower p)
    (hbelow : ∀ line ∈ below.find? (fun line => !line.all isBlank),
      ¬"///".toList <+: trimStart line) :
    (scan source).references = ps ∧ (scan source).noDefaultLib = false := by
  have hblank : ∀ line ∈ below.takeWhile (·.all isBlank), line.all isBlank = true := fun _ =>
    List.mem_takeWhile_imp
  have hsplit : Text.lines source = (ps.map referenceLine ++ below.takeWhile (·.all isBlank)) ++
      below.dropWhile (·.all isBlank) := by
    rw [List.append_assoc, List.takeWhile_append_dropWhile, hlines]
  have hstop : ∀ line ∈ (below.dropWhile (·.all isBlank)).head?, ¬HeaderLine line := by
    intro line hline
    have hfind : below.find? (fun line => !line.all isBlank) = some line := by
      rw [List.find?_eq_head?_dropWhile_not]
      simpa using hline
    have hsome : line.all isBlank = false := by simpa using List.find?_some hfind
    rw [← inHeader_trimStart, inHeader_iff, not_or]
    refine ⟨fun hnil => ?_, hbelow line hfind⟩
    rw [trimStart, List.dropWhile_eq_nil_iff, ← List.all_eq_true, hsome] at hnil
    cases hnil
  obtain ⟨hreferences, hflag⟩ := scan_of_lines hsplit (by
    refine List.forall_mem_append.2 ⟨?_, fun line hline => headerLine_of_blank (hblank line hline)⟩
    exact List.forall_mem_map.2 fun p _ => headerLine_referenceLine p) hstop
  rw [hreferences, hflag, List.filterMap_append, List.any_append]
  constructor
  · have hpaths : (ps.map referenceLine).filterMap reference? = ps := by
      have hread : ∀ p ∈ ps, (reference? ∘ referenceLine) p = some p := fun p hp =>
        reference?_referenceLine (hps p hp).1
      rw [List.filterMap_map, List.filterMap_congr hread, List.filterMap_some]
    have hnone : (below.takeWhile (·.all isBlank)).filterMap reference? = [] := by
      rw [List.filterMap_eq_nil_iff]
      intro line hline
      rw [reference?, trimStart_eq_nil (hblank line hline)]
      rfl
    rw [hpaths, hnone, List.append_nil]
  · rw [Bool.or_eq_false_iff, List.any_eq_false, List.any_eq_false]
    refine ⟨List.forall_mem_map.2 fun p hp => ?_, fun line hline => ?_⟩
    · simp [deniesLib_referenceLine (hps p hp).2]
    · rw [deniesLib, trimStart_eq_nil (hblank line hline)]
      decide

/-- Headers are read exactly. Every source is a header, as long as its lines allow, and what follows
it; its references and whether it does without the default library are read from the lines of the
header, and are the same whatever follows. References to paths without double quotes and line feeds are read
back, if none names the other attribute; and the value of an attribute is found in bytes, too, by a
search that always ends and cuts no character in two. -/
theorem scan_headed :
    (∀ source, ∃ header body, source = header ++ body ∧ Headed header body ∧
      (scan source).references = (Text.lines header).filterMap reference? ∧
      (scan source).noDefaultLib = (Text.lines header).any deniesLib ∧
      (∀ front rest, source = front ++ rest → Leading front rest → front <+: header) ∧
      ∀ other, Headed header other →
        (scan (header ++ other)).references = (scan source).references ∧
        (scan (header ++ other)).noDefaultLib = (scan source).noDefaultLib) ∧
    (∀ (ps : List Text) (body : Text),
      (∀ p ∈ ps, '"' ∉ p ∧ '\n' ∉ p ∧ ¬"no-default-lib".toList <:+: asciiLower p) →
      (∀ line ∈ (Text.lines body).find? (fun line => !line.all isBlank),
        ¬"///".toList <+: trimStart line) →
      (scan ((ps.flatMap fun p => referenceLine p ++ ['\n']) ++ body)).references = ps ∧
      (scan ((ps.flatMap fun p => referenceLine p ++ ['\n']) ++ body)).noDefaultLib = false) ∧
    ∀ name ∈ ["path".toList, "no-default-lib".toList], ∀ line found,
      Reads name line found ↔ found = attribute? name line := by
  refine ⟨fun source => ?_, fun ps body hps hbody => ?_, fun name hname line found => ?_⟩
  · obtain ⟨header, body, rfl, hheaded⟩ := exists_headed source
    obtain ⟨hreferences, hflag⟩ := hheaded.scan
    refine ⟨header, body, rfl, hheaded, hreferences, hflag,
      fun front rest hsame => hheaded.longest hsame.symm, fun other hother => ?_⟩
    rw [hreferences, hflag]
    exact hother.scan
  · refine scan_of_references (lines_references (fun p hp => (hps p hp).2.1) body)
      (fun p hp => ⟨(hps p hp).1, (hps p hp).2.2⟩) hbody
  · have hword : ∀ name ∈ ["path".toList, "no-default-lib".toList],
        name ≠ [] ∧ name.any isBlank = false := by decide
    obtain ⟨hne, hblank⟩ := hword name hname
    exact reads_iff hne fun c hc => Bool.eq_false_iff.2 (List.any_eq_false.1 hblank c hc)

/-- Names of attributes, quotes, a carriage return and other alphabets in the paths, and a name that
stands behind false hits. -/
theorem scan_headed_odd :
    let p := "a path='b' <reference/é\r".toList
    let ps := [p, "../İ>.ts".toList, p]
    let body := " \n\u00a0\r\nlet x;\n/// <reference path='z'/>\n".toList
    let line := "/// <reference İpath='x' path PATH ='é' path='y'/>".toList
    (∀ p ∈ ps, '"' ∉ p ∧ '\n' ∉ p ∧ ¬"no-default-lib".toList <:+: asciiLower p) ∧
      (∀ line ∈ (Text.lines body).find? (fun line => !line.all isBlank),
        ¬"///".toList <+: trimStart line) ∧
      (scan ((ps.flatMap fun p => referenceLine p ++ ['\n']) ++ body)).references = ps ∧
      (scan ((ps.flatMap fun p => referenceLine p ++ ['\n']) ++ body)).noDefaultLib = false ∧
      Reads "path".toList line (some "é".toList) := by
  intro p ps body line
  have hps : ∀ p ∈ ps, '"' ∉ p ∧ '\n' ∉ p ∧ ¬"no-default-lib".toList <:+: asciiLower p := by
    have hcuts : ∀ p ∈ ps, '"' ∉ p ∧ '\n' ∉ p ∧
        Text.cut? "no-default-lib".toList (asciiLower p) = none := by decide +kernel
    exact fun p hp => (hcuts p hp).imp_right (And.imp_right Text.cut?_eq_none_iff.1)
  have hbody : ∀ line ∈ (Text.lines body).find? (fun line => !line.all isBlank),
      ¬"///".toList <+: trimStart line := by
    decide +kernel
  obtain ⟨-, hread, hsearch⟩ := scan_headed
  obtain ⟨hreferences, hflag⟩ := hread ps body hps hbody
  have hname : "path".toList ∈ ["path".toList, "no-default-lib".toList] := List.mem_cons_self
  have hline : some "é".toList = attribute? "path".toList line := by decide +kernel
  exact ⟨hps, hbody, hreferences, hflag, (hsearch _ hname _ _).2 hline⟩

end Directives

end BatchCompile
