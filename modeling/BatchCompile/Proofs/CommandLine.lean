import BatchCompile.CommandLine
import BatchCompile.Proofs.Text.Cuts
import Mathlib.Data.List.Forall2

/-!
# Command lines that spell arguments

A command line spells arguments if it lists every option that is set, once and in any order, by one
of its long names with its value attached, and then the files behind `--`. Reading it gives the
arguments back (`read_spelled`), whatever the values and the files look like. That rests on one step:
where some options are read already, the next one is added to them (`readArgument_spelled`).
-/

namespace BatchCompile

/-! ## Names and values -/

def ModuleName.names : ModuleName → List Text
  | commonJs => ["commonjs".toList, "common-js".toList]
  | node => ["node".toList]
  | amd => ["amd".toList]

namespace Arguments

variable {a : Arguments}

/-- What may be written for the value that an option is set to. -/
def Says (a : Arguments) (value : Text) : Setting → Prop
  | .dest => a.dest = some value
  | .task => a.task = some value
  | .libDir => a.libDir = some value
  | .basePath => a.basePath = some value
  | .target => ∃ t, a.target = some t ∧ Text.asciiLower value = t.name
  | .moduleName => ∃ m, a.moduleName = some m ∧ Text.asciiLower value ∈ m.names
  | .newLine => ∃ n, a.newLine = some n ∧ Text.asciiLower value = n.name
  | .ignoreTypeCheck =>
    ∃ b, a.ignoreTypeCheck = some b ∧ value = if b then "true".toList else "false".toList

/-- An option as it is written, by one of its long names. -/
inductive Spelled (a : Arguments) : Switch → Text → Prop
  | setting {s : Setting} {name : String} {value : Text} (hname : name ∈ s.names)
    (hvalue : a.Says value s) : Spelled a (.setting s) ('-' :: '-' :: (name.toList ++ '=' :: value))
  | flag {f : Flag} {name : String} (hname : name ∈ f.names) (hgiven : a.has f = true) :
    Spelled a (.flag f) ('-' :: '-' :: name.toList)

def sets (a : Arguments) : Switch → Bool
  | .setting .dest => a.dest.isSome
  | .setting .task => a.task.isSome
  | .setting .libDir => a.libDir.isSome
  | .setting .basePath => a.basePath.isSome
  | .setting .target => a.target.isSome
  | .setting .moduleName => a.moduleName.isSome
  | .setting .newLine => a.newLine.isSome
  | .setting .ignoreTypeCheck => a.ignoreTypeCheck.isSome
  | .flag f => a.has f
  | .help => false
  | .version => false

/-- The options that are set, each written once, in some order. -/
def SpelledBy (a : Arguments) (options : List Text) : Prop :=
  ∃ switches : List Switch, switches.Nodup ∧ (∀ s, a.sets s = true → s ∈ switches) ∧
    List.Forall₂ a.Spelled switches options

/-! ## Options read so far -/

/-- Of the options only these, and no files. -/
def only (a : Arguments) (these : List Switch) : Arguments where
  files := []
  dest := if .setting .dest ∈ these then a.dest else none
  task := if .setting .task ∈ these then a.task else none
  libDir := if .setting .libDir ∈ these then a.libDir else none
  basePath := if .setting .basePath ∈ these then a.basePath else none
  sourceMap := .flag .sourceMap ∈ these && a.sourceMap
  declaration := .flag .declaration ∈ these && a.declaration
  comments := .flag .comments ∈ these && a.comments
  target := if .setting .target ∈ these then a.target else none
  moduleName := if .setting .moduleName ∈ these then a.moduleName else none
  newLine := if .setting .newLine ∈ these then a.newLine else none
  noLib := .flag .noLib ∈ these && a.noLib
  ignoreTypeCheck := if .setting .ignoreTypeCheck ∈ these then a.ignoreTypeCheck else none
  noImplicitAny := .flag .noImplicitAny ∈ these && a.noImplicitAny
  disallowAsi := .flag .disallowAsi ∈ these && a.disallowAsi

theorem only_nil (a : Arguments) : a.only [] = empty := rfl

theorem only_of_sets {switches : List Switch} (h : ∀ s, a.sets s = true → s ∈ switches) :
    { a.only switches with files := a.files } = a := by
  have hvalue : ∀ {α : Type} (s : Switch) (o : Option α), (o.isSome = true → s ∈ switches) →
      (if s ∈ switches then o else none) = o := by
    intro α s o ho
    by_cases hs : s ∈ switches
    · rw [if_pos hs]
    · rw [if_neg hs]
      cases o with
      | none => rfl
      | some _ => exact absurd (ho rfl) hs
  have hflag : ∀ (s : Switch) (b : Bool), (b = true → s ∈ switches) →
      (decide (s ∈ switches) && b) = b := by
    intro s b hb
    cases b with
    | false => exact Bool.and_false _
    | true => simpa using hb rfl
  simp only [only, hvalue _ _ (h (.setting .dest)), hvalue _ _ (h (.setting .task)),
    hvalue _ _ (h (.setting .libDir)), hvalue _ _ (h (.setting .basePath)),
    hvalue _ _ (h (.setting .target)), hvalue _ _ (h (.setting .moduleName)),
    hvalue _ _ (h (.setting .newLine)), hvalue _ _ (h (.setting .ignoreTypeCheck)),
    hflag _ a.sourceMap (h (.flag .sourceMap)), hflag _ a.declaration (h (.flag .declaration)),
    hflag _ a.comments (h (.flag .comments)), hflag _ a.noLib (h (.flag .noLib)),
    hflag _ a.noImplicitAny (h (.flag .noImplicitAny)),
    hflag _ a.disallowAsi (h (.flag .disallowAsi))]

/-! ## One option -/

theorem oneOf_target {t : Target} {value : Text} (h : Text.asciiLower value = t.name) :
    oneOf [("es3", Target.es3), ("es5", Target.es5)] value = .ok t := by
  rw [oneOf, h]
  cases t <;> rfl

theorem oneOf_moduleName {m : ModuleName} {value : Text} (h : Text.asciiLower value ∈ m.names) :
    oneOf [("commonjs", ModuleName.commonJs), ("common-js", .commonJs), ("node", .node),
      ("amd", .amd)] value = .ok m := by
  rw [oneOf]
  generalize Text.asciiLower value = lower at h
  revert lower
  cases m <;> decide

theorem oneOf_newLine {n : NewLine} {value : Text} (h : Text.asciiLower value = n.name) :
    oneOf [("crlf", NewLine.crlf), ("lf", NewLine.lf)] value = .ok n := by
  rw [oneOf, h]
  cases n <;> rfl

theorem once_none {α : Type} (value : α) : once none (.ok value) = .ok (some value) := rfl

section

variable {done : List Switch}

theorem set_only {s : Setting} {value : Text} (htask : a.task ≠ some [])
    (hlibDir : a.libDir ≠ some []) (hnew : .setting s ∉ done) (hvalue : a.Says value s) :
    (a.only done).set s value = .ok (a.only (done ++ [.setting s])) := by
  cases s with
  | dest =>
    have hdest : a.dest = some value := hvalue
    simp [set, only, hnew, hdest, once_none]
  | task =>
    have hset : a.task = some value := hvalue
    have hne : value ≠ [] := by
      rintro rfl
      exact htask hset
    simp [set, only, hnew, hset, pathValue, hne, once_none]
  | libDir =>
    have hset : a.libDir = some value := hvalue
    have hne : value ≠ [] := by
      rintro rfl
      exact hlibDir hset
    simp [set, only, hnew, hset, pathValue, hne, once_none]
  | basePath =>
    have hbase : a.basePath = some value := hvalue
    simp [set, only, hnew, hbase, once_none]
  | target =>
    obtain ⟨t, ht, hname⟩ := hvalue
    simp [set, only, hnew, ht, oneOf_target hname, once_none]
  | moduleName =>
    obtain ⟨m, hm, hname⟩ := hvalue
    simp [set, only, hnew, hm, oneOf_moduleName hname, once_none]
  | newLine =>
    obtain ⟨n, hn, hname⟩ := hvalue
    simp [set, only, hnew, hn, oneOf_newLine hname, once_none]
  | ignoreTypeCheck =>
    obtain ⟨b, hb, rfl⟩ := hvalue
    cases b <;> simp [set, only, hnew, hb, boolValue, once_none]

theorem raise_only {f : Flag} (hnew : .flag f ∉ done) (hgiven : a.has f = true) :
    (a.only done).raise f = .ok (a.only (done ++ [.flag f])) := by
  cases f <;> simp [has] at hgiven <;> simp [raise, has, only, hnew, hgiven]

/-! ## One argument -/

theorem ofName?_setting {s : Setting} {name : String} (h : name ∈ s.names) :
    '=' ∉ name.toList ∧ Switch.ofName? name.toList = some (.setting s) := by
  revert name
  cases s <;> decide

theorem ofName?_flag {f : Flag} {name : String} (h : name ∈ f.names) :
    '=' ∉ name.toList ∧ name.toList ≠ [] ∧ Switch.ofName? name.toList = some (.flag f) := by
  revert name
  cases f <;> decide

/-- The first `=` ends the name, whatever the value holds. -/
theorem shape_value {name : Text} (h : '=' ∉ name) (value : Text) :
    Shape.of ('-' :: '-' :: (name ++ '=' :: value)) = .long name (some value) := by
  have hcut : Text.cut? ['='] (name ++ '=' :: value) = some (name, value) := by
    simpa using Text.cut?_line (e := []) List.not_mem_nil h value
  simp only [Shape.of, hcut]

theorem shape_name {name : Text} (h : '=' ∉ name) :
    Shape.of ('-' :: '-' :: name) = .long name none := by
  have hcut : Text.cut? ['='] name = none :=
    Text.cut?_eq_none_iff.2 fun hin => h (hin.subset List.mem_cons_self)
  simp only [Shape.of, hcut]

/-- An option that is not read yet is added to those that are. -/
theorem readArgument_spelled {s : Switch} {option : Text} (htask : a.task ≠ some [])
    (hlibDir : a.libDir ≠ some []) (hnew : s ∉ done) (h : a.Spelled s option) :
    option ≠ "--".toList ∧
      readArgument (a.only done) none option = .ok (a.only (done ++ [s]), none) := by
  cases h with
  | @setting s name value hname hvalue =>
    obtain ⟨hequals, hswitch⟩ := ofName?_setting hname
    refine ⟨by simp, ?_⟩
    unfold readArgument
    simp only [shape_value hequals, hswitch]
    show (do pure (← (a.only done).set s value, none)) = _
    rw [set_only htask hlibDir hnew hvalue]
    rfl
  | @flag f name hname hgiven =>
    obtain ⟨hequals, hne, hswitch⟩ := ofName?_flag hname
    refine ⟨by simpa using hne, ?_⟩
    unfold readArgument
    simp only [shape_name hequals, hswitch]
    show (do pure (← (a.only done).raise f, none)) = _
    rw [raise_only hnew hgiven]
    rfl

theorem readFrom_spelled {switches : List Switch} {options : List Text} (htask : a.task ≠ some [])
    (hlibDir : a.libDir ≠ some []) (h : List.Forall₂ a.Spelled switches options)
    (hnew : (done ++ switches).Nodup) (rest : List Text) :
    readFrom (a.only done) none (options ++ rest) =
      readFrom (a.only (done ++ switches)) none rest := by
  induction h generalizing done with
  | nil => rw [List.append_nil, List.nil_append]
  | @cons s option switches options hs _ ih =>
    have hdone : s ∉ done := fun hm =>
      (List.nodup_append.1 hnew).2.2 s hm s List.mem_cons_self rfl
    obtain ⟨hne, hread⟩ := readArgument_spelled htask hlibDir hdone hs
    rw [List.cons_append, readFrom, if_neg hne, hread]
    rw [List.append_cons done s switches] at hnew ⊢
    exact ih hnew

theorem foldl_addFile (a : Arguments) (files : List Path) :
    files.foldl addFile a = { a with files := a.files ++ files } := by
  induction files generalizing a with
  | nil => rw [List.foldl_nil, List.append_nil]
  | cons file files ih => rw [List.foldl_cons, ih, addFile, List.append_assoc]; rfl

end

/-- Arguments are read back from every command line that spells them, if none of the paths is empty
that must not be. Values and files are kept as they are, also if they look like options. -/
theorem read_spelled (a : Arguments) {options : List Text} (htask : a.task ≠ some [])
    (hlibDir : a.libDir ≠ some []) (h : a.SpelledBy options) :
    Arguments.read (options ++ "--".toList :: a.files) = .ok a := by
  obtain ⟨switches, hnodup, hall, hspelled⟩ := h
  have hoptions := @readFrom_spelled a [] _ _ htask hlibDir hspelled hnodup ("--".toList :: a.files)
  rw [only_nil, List.nil_append] at hoptions
  rw [Arguments.read, hoptions, readFrom, if_pos rfl, settle, Except.map, foldl_addFile]
  exact congrArg _ (only_of_sets hall)

/-- Values and files that look like options, or are empty where they may be. -/
def oddArguments : Arguments where
  files := ["-d".toList, [], "--".toList, "--help".toList, "--target=es3".toList]
  dest := some "--task==x".toList
  task := some "-".toList
  libDir := some "=".toList
  basePath := some []
  sourceMap := true
  declaration := false
  comments := false
  target := some .es5
  moduleName := some .commonJs
  newLine := some .lf
  noLib := true
  ignoreTypeCheck := some false
  noImplicitAny := true
  disallowAsi := false

/-- Aliases, capital letters and an order of their own. -/
theorem read_spelled_odd :
    let options := ["--nolib".toList, "--target=eS5".toList, "--dest=--task==x".toList,
      "--base-path=".toList, "--module=Common-JS".toList, "--sourcemap".toList,
      "--lib-dir==".toList, "--ignore-type-check=false".toList, "--task=-".toList,
      "--noImplicitAny".toList, "--new-line=LF".toList]
    oddArguments.task ≠ some [] ∧ oddArguments.libDir ≠ some [] ∧ oddArguments.SpelledBy options ∧
      Arguments.read (options ++ "--".toList :: oddArguments.files) = .ok oddArguments := by
  intro options
  have hspelled : List.Forall₂ oddArguments.Spelled
      [.flag .noLib, .setting .target, .setting .dest, .setting .basePath, .setting .moduleName,
        .flag .sourceMap, .setting .libDir, .setting .ignoreTypeCheck, .setting .task,
        .flag .noImplicitAny, .setting .newLine] options :=
    .cons (.flag (show "nolib" ∈ _ by decide) rfl) <|
    .cons (.setting (show "target" ∈ _ by decide) ⟨.es5, rfl, by decide⟩) <|
    .cons (.setting (show "dest" ∈ _ by decide) rfl) <|
    .cons (.setting (show "base-path" ∈ _ by decide) rfl) <|
    .cons (.setting (show "module" ∈ _ by decide) ⟨.commonJs, rfl, by decide⟩) <|
    .cons (.flag (show "sourcemap" ∈ _ by decide) rfl) <|
    .cons (.setting (show "lib-dir" ∈ _ by decide) rfl) <|
    .cons (.setting (show "ignore-type-check" ∈ _ by decide) ⟨false, rfl, rfl⟩) <|
    .cons (.setting (show "task" ∈ _ by decide) rfl) <|
    .cons (.flag (show "noImplicitAny" ∈ _ by decide) rfl) <|
    .cons (.setting (show "new-line" ∈ _ by decide) ⟨.lf, rfl, by decide⟩) .nil
  have hby : oddArguments.SpelledBy options := by
    refine ⟨_, by decide, fun s hs => ?_, hspelled⟩
    cases s with
    | setting s => cases s <;> decide
    | flag f =>
      cases f with
      | declaration => cases hs
      | comments => cases hs
      | disallowAsi => cases hs
      | _ => decide
    | help => cases hs
    | version => cases hs
  have htask : oddArguments.task ≠ some [] := by decide
  have hlibDir : oddArguments.libDir ≠ some [] := by decide
  exact ⟨htask, hlibDir, hby, read_spelled oddArguments htask hlibDir hby⟩

end Arguments

end BatchCompile
