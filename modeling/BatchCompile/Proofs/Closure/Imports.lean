import BatchCompile.Closure
import BatchCompile.Proofs.Text.Cuts

/-!
# Named imports

A line that imports a relative name is recorded with this name, unless it holds one of the words
that are looked for elsewhere, too (`scan_named`): `require(` behind the opening quote, from where
the name is read then, or `from` between blanks in the clause, where the line is dropped.
-/

namespace BatchCompile.Directives

/-! ## Quotes -/

theorem enclosed?_quote {quote : Char} (hquote : quote = '"' ∨ quote = '\'') {name : Text}
    (hname : quote ∉ name) (rest : Text) :
    enclosed? (quote :: (name ++ quote :: rest)) = some name := by
  have hcut : Text.cut? [quote] (name ++ quote :: rest) = some (name, rest) := by
    simpa using Text.cut?_line (e := []) List.not_mem_nil hname rest
  rw [enclosed?, if_pos hquote, hcut]
  rfl

theorem enclosed?_trimStart_eq_none {front : Text} (hfront : '"' ∉ front ∧ '\'' ∉ front) {c : Char}
    (hblank : Text.isBlank c = false) (hc : c ≠ '"' ∧ c ≠ '\'') (rest : Text) :
    enclosed? (Text.trimStart (front ++ c :: rest)) = none := by
  induction front with
  | nil =>
    rw [List.nil_append, Text.trimStart, List.dropWhile_cons_of_neg (by simp [hblank]), enclosed?,
      if_neg (not_or.2 hc)]
  | cons d front ih =>
    simp only [List.mem_cons, not_or] at hfront
    obtain ⟨⟨hdouble, hfront₁⟩, hsingle, hfront₂⟩ := hfront
    rw [List.cons_append, Text.trimStart]
    by_cases hb : Text.isBlank d = true
    · rw [List.dropWhile_cons_of_pos hb]
      exact ih ⟨hfront₁, hfront₂⟩
    · rw [List.dropWhile_cons_of_neg hb, enclosed?,
        if_neg (not_or.2 ⟨Ne.symm hdouble, Ne.symm hsingle⟩)]

/-! ## Lines with a named import -/

/-- What a line with a named import consists of. The clause, without quotes and opening parentheses,
says what is imported, and the name, in quotes, from where. -/
structure NamedImport where
  exported : Bool
  clause : Text
  quote : Char
  name : Text
  trail : Text
  clause_plain : '"' ∉ clause ∧ '\'' ∉ clause ∧ '(' ∉ clause
  quote_eq : quote = '"' ∨ quote = '\''
  quote_notMem : quote ∉ name
  relative : isRelative name = true

namespace NamedImport

/-- The import without `export` in front. -/
def statement (i : NamedImport) : Text :=
  "import ".toList ++ i.clause ++ " from ".toList ++ i.quote :: (i.name ++ i.quote :: i.trail)

/-- The line from its first character that is not blank. -/
def line (i : NamedImport) : Text :=
  (if i.exported then "export ".toList else []) ++ i.statement

def FromInClause (i : NamedImport) : Prop :=
  " from ".toList <:+: " ".toList ++ i.clause ++ " ".toList

variable (i : NamedImport)

theorem getD_isPrefixOf?_line :
    ("export ".toList.isPrefixOf? i.line).getD i.line = i.statement := by
  unfold line
  cases i.exported with
  | true => rw [if_pos rfl, List.isPrefixOf?_eq_some_iff_append_eq.2 rfl, Option.getD_some]
  | false => rfl

theorem inHeader_line : inHeader i.line = false := by
  unfold line
  cases i.exported <;> rfl

theorem specifier?_line : specifier? i.line =
    enclosed? (Text.trimStart (match Text.cut? "require(".toList i.statement with
      | some (_, after) => after
      | none =>
        match Text.cut? " from ".toList i.statement with
        | some (_, after) => after
        | none => i.statement.drop "import".length)) := by
  rw [specifier?, i.getD_isPrefixOf?_line]
  exact if_pos rfl

/-- No clause hides a `require(` or holds a part of one. -/
theorem cut?_require : Text.cut? "require(".toList i.statement =
    (Text.cut? "require(".toList (i.name ++ i.quote :: i.trail)).map fun (before, after) =>
      ("import ".toList ++ i.clause ++ " from ".toList ++ i.quote :: before, after) := by
  refine Text.cut?_append_cons (fun hinfix => ?_) ?_
  · have hparen : '(' ∈ "import ".toList ++ i.clause ++ " from ".toList :=
      hinfix.subset (by decide)
    simp only [List.mem_append] at hparen
    rcases hparen with (h | h) | h
    · exact absurd h (by decide)
    · exact i.clause_plain.2.2 h
    · exact absurd h (by decide)
  · rcases i.quote_eq with h | h <;> rw [h] <;> decide

theorem cut?_from_of_not (h : ¬i.FromInClause) : Text.cut? " from ".toList i.statement =
    some ("import ".toList ++ i.clause, i.quote :: (i.name ++ i.quote :: i.trail)) := by
  refine Text.cut?_between (s := ' ') (w := "from".toList) (by decide) (fun hinfix => h ?_) _
  exact Text.infix_of_infix_append (p := "import".toList) (by decide) hinfix

theorem statement_eq : i.statement = "import".toList ++ (" ".toList ++ i.clause ++ " ".toList) ++
    'f' :: ("rom ".toList ++ i.quote :: (i.name ++ i.quote :: i.trail)) := by
  have happend : ∀ a b c d e : Text,
      a ++ b ++ c ++ (b ++ d) ++ e = a ++ (b ++ c ++ b) ++ (d ++ e) := by
    simp
  exact happend "import".toList " ".toList i.clause "from ".toList _

theorem quotes_notMem :
    '"' ∉ "import".toList ++ (" ".toList ++ i.clause ++ " ".toList) ∧
      '\'' ∉ "import".toList ++ (" ".toList ++ i.clause ++ " ".toList) := by
  obtain ⟨hdouble, hsingle, -⟩ := i.clause_plain
  simp only [List.mem_append, not_or]
  exact ⟨⟨by decide, ⟨by decide, hdouble⟩, by decide⟩, by decide, ⟨by decide, hsingle⟩, by decide⟩

theorem enclosed?_of_fromInClause (h : i.FromInClause) {before after : Text}
    (hcut : Text.cut? " from ".toList i.statement = some (before, after)) :
    enclosed? (Text.trimStart after) = none := by
  rw [statement_eq] at hcut
  have hplain := i.quotes_notMem
  have hinside : " from ".toList <:+: "import".toList ++ (" ".toList ++ i.clause ++ " ".toList) :=
    h.trans (List.suffix_append _ _).isInfix
  -- the first `from` lies in this part, which has no quotes
  generalize "import".toList ++ (" ".toList ++ i.clause ++ " ".toList) = front at hcut hplain hinside
  obtain ⟨⟨b, a⟩, hfront⟩ :=
    Option.ne_none_iff_exists'.1 (mt Text.cut?_eq_none_iff.1 (not_not.2 hinside))
  rw [Text.cut?_append hfront] at hcut
  cases hcut
  obtain ⟨rfl, -⟩ := Text.cut?_eq_some_iff.1 hfront
  exact enclosed?_trimStart_eq_none (hplain.imp (mt (List.mem_append_right _))
    (mt (List.mem_append_right _))) (by decide) (by decide) _

/-- The name is read from behind a `require(`, if there is one behind the opening quote; else from
behind the first `from`. -/
theorem specifier?_eq :
    (∀ before after,
      Text.cut? "require(".toList (i.name ++ i.quote :: i.trail) = some (before, after) →
      specifier? i.line = enclosed? (Text.trimStart after)) ∧
    (¬"require(".toList <:+: i.name ++ i.quote :: i.trail →
      (i.FromInClause → specifier? i.line = none) ∧
      (¬i.FromInClause → specifier? i.line = some i.name)) := by
  rw [specifier?_line, cut?_require]
  refine ⟨fun before after hcut => ?_, fun hnone => ?_⟩
  · rw [hcut]
    rfl
  rw [Text.cut?_eq_none_iff.2 hnone]
  refine ⟨fun hfrom => ?_, fun hfrom => ?_⟩
  · cases hcut : Text.cut? " from ".toList i.statement with
    | none =>
      refine absurd ?_ (Text.cut?_eq_none_iff.1 hcut)
      exact ⟨"import ".toList ++ i.clause, _, rfl⟩
    | some pieces => exact i.enclosed?_of_fromInClause hfrom hcut
  · rw [i.cut?_from_of_not hfrom]
    have hblank : Text.isBlank i.quote = false := by
      rcases i.quote_eq with h | h <;> rw [h] <;> decide
    show enclosed? (Text.trimStart (i.quote :: (i.name ++ i.quote :: i.trail))) = some i.name
    rw [Text.trimStart, List.dropWhile_cons_of_neg (by simp [hblank])]
    exact enclosed?_quote i.quote_eq i.quote_notMem _

end NamedImport

/-! ## Sources with a named import -/

/-- The relative names that lines ask for. -/
def namesIn (lines : List Text) : List Text :=
  (lines.filterMap specifier?).filter isRelative

/-- Where one line is no part of the header, neither are those below it. -/
theorem imports_scan {source line : Text} {above below : List Text}
    (hlines : Text.lines source = above ++ line :: below)
    (hline : inHeader (Text.trimStart line) = false) :
    (scan source).imports = namesIn ((above.map Text.trimStart).dropWhile inHeader) ++
      namesIn [Text.trimStart line] ++ namesIn (below.map Text.trimStart) := by
  have hbody : ((Text.lines source).map Text.trimStart).dropWhile inHeader =
      (above.map Text.trimStart).dropWhile inHeader ++
        Text.trimStart line :: below.map Text.trimStart := by
    rw [hlines, List.map_append, List.map_cons, List.dropWhile_append]
    split
    · rename_i hempty
      rw [List.dropWhile_cons_of_neg (by simp [hline]), List.isEmpty_iff.1 hempty, List.nil_append]
    · rfl
  show namesIn (((Text.lines source).map Text.trimStart).dropWhile inHeader) = _
  rw [hbody, List.append_cons]
  simp only [namesIn, List.filterMap_append, List.filter_append]

/-- What comes of a line with a named import. It is the name, in line with the other names, unless a
`require(` follows the opening quote or the clause holds `from` as a word. -/
theorem scan_named (i : NamedImport) {source line : Text} {above below : List Text}
    (hlines : Text.lines source = above ++ line :: below) (hline : Text.trimStart line = i.line) :
    ∃ recorded,
      (scan source).imports = namesIn ((above.map Text.trimStart).dropWhile inHeader) ++ recorded ++
        namesIn (below.map Text.trimStart) ∧
      (¬"require(".toList <:+: i.name ++ i.quote :: i.trail →
        (¬i.FromInClause → recorded = [i.name]) ∧ (i.FromInClause → recorded = [])) ∧
      ∀ before after,
        Text.cut? "require(".toList (i.name ++ i.quote :: i.trail) = some (before, after) →
        recorded = ((enclosed? (Text.trimStart after)).filter isRelative).toList := by
  have himports := imports_scan hlines (hline ▸ i.inHeader_line)
  rw [hline] at himports
  obtain ⟨hrequire, hfrom⟩ := i.specifier?_eq
  refine ⟨_, himports, fun hnone => ⟨fun hnot => ?_, fun hclause => ?_⟩, fun before after hcut => ?_⟩
  · simp [namesIn, (hfrom hnone).2 hnot, i.relative]
  · simp [namesIn, (hfrom hnone).1 hclause]
  · rw [namesIn, List.filterMap_cons, hrequire before after hcut]
    cases enclosed? (Text.trimStart after) with
    | none => rfl
    | some name => by_cases h : isRelative name = true <;> simp [h, Option.filter]

def exportedImport : NamedImport where
  exported := true
  clause := "b, * as c".toList
  quote := '"'
  name := "../b".toList
  trail := "; // from d".toList
  clause_plain := by decide
  quote_eq := by decide
  quote_notMem := by decide
  relative := by decide

/-- The line stands between two others with imports. -/
theorem scan_named_between :
    let above := "import \"./a\";".toList
    let line := "  export import b, * as c from \"../b\"; // from d".toList
    let below := "import \"./e\";".toList
    Text.lines (Text.join ['\n'] [above, line, below]) = [above] ++ line :: [below] ∧
      Text.trimStart line = exportedImport.line ∧
      (scan (Text.join ['\n'] [above, line, below])).imports =
        ["./a".toList, "../b".toList, "./e".toList] := by
  intro above line below
  have hlines : Text.lines (Text.join ['\n'] [above, line, below]) = [above] ++ line :: [below] := by
    decide +kernel
  have hline : Text.trimStart line = exportedImport.line := by decide +kernel
  have hfrom : ¬exportedImport.FromInClause := Text.cut?_eq_none_iff.1 (by decide +kernel)
  have hrequire : ¬"require(".toList <:+:
      exportedImport.name ++ exportedImport.quote :: exportedImport.trail :=
    Text.cut?_eq_none_iff.1 (by decide +kernel)
  obtain ⟨recorded, himports, hnone, -⟩ := scan_named exportedImport hlines hline
  refine ⟨hlines, hline, himports.trans ?_⟩
  rw [(hnone hrequire).1 hfrom]
  decide +kernel

def importAsFrom : NamedImport where
  exported := false
  clause := "* as from".toList
  quote := '"'
  name := "./b".toList
  trail := ";".toList
  clause_plain := by decide
  quote_eq := by decide
  quote_notMem := by decide
  relative := by decide

/-- A source of this one line asks for no file. -/
theorem named_from_missed :
    importAsFrom.line = "import * as from from \"./b\";".toList ∧
      Text.lines (importAsFrom.line ++ ['\n']) = [importAsFrom.line] ∧
      Text.trimStart importAsFrom.line = importAsFrom.line ∧
      (scan (importAsFrom.line ++ ['\n'])).imports = [] := by
  decide +kernel

end BatchCompile.Directives
