import BatchCompile.Diagnostic
import BatchCompile.Encoding
import BatchCompile.Mapping.Document
import BatchCompile.Mapping.Lines
import BatchCompile.Options

/-!
# Emission

An `Engine` turns units into the results of its phases. `Engine.passThrough` checks comments and
emits each source as it is, apart from the ends of its lines, either into a script of its own or
all into one bundle.
-/

namespace BatchCompile

/-! ## Comments

`unclosed?` finds the block comment that a source does not close. It goes from one comment to the
next: a line comment ends before a line feed, a block comment behind `*/`. `State.run` is the same
in small steps: it reads a source character by character and is in code, in a line comment or in a
block comment.
-/

namespace Comments

/-- The rest of a text from the first `//` or `/*` on. -/
def opener? : Text → Option Text
  | [] => none
  | c :: rest =>
    if c = '/' ∧ (rest.head? = some '/' ∨ rest.head? = some '*') then some (c :: rest)
    else opener? rest

def afterCloser? : Text → Option Text
  | [] => none
  | c :: rest =>
    if c = '*' ∧ rest.head? = some '/' then some rest.tail else afterCloser? rest

theorem length_opener_le {t u : Text} (h : opener? t = some u) : u.length ≤ t.length := by
  induction t with
  | nil => simp [opener?] at h
  | cons c rest ih =>
    unfold opener? at h
    split at h
    · cases h
      simp
    · have := ih h
      simp
      omega

theorem length_afterCloser_lt {t u : Text} (h : afterCloser? t = some u) :
    u.length < t.length := by
  induction t with
  | nil => simp [afterCloser?] at h
  | cons c rest ih =>
    unfold afterCloser? at h
    split at h
    · cases h
      simp only [List.length_cons, List.length_tail]
      omega
    · have := ih h
      simp
      omega

def toLineEnd (t : Text) : Text :=
  t.dropWhile (· != '\n')

theorem length_toLineEnd_le (t : Text) : (toLineEnd t).length ≤ t.length :=
  (List.dropWhile_suffix (· != '\n')).length_le

/-- The text from the block comment on that is not closed, if there is one. -/
def unclosedFrom? (t : Text) : Option Text :=
  match _h : opener? t with
  | none => none
  | some comment =>
    if comment.tail.head? = some '/' then unclosedFrom? (toLineEnd comment.tail)
    else
      match _hc : afterCloser? (comment.drop 2) with
      | none => some comment
      | some rest => unclosedFrom? rest
  termination_by t.length
  decreasing_by
    · rename_i hslash
      have := length_opener_le _h
      have := length_toLineEnd_le comment.tail
      cases comment with
      | nil => simp at hslash
      | cons c r =>
        simp at *
        omega
    · have := length_opener_le _h
      have := length_afterCloser_lt _hc
      simp at this
      omega

/-- A place in a source: line and character, from zero. -/
structure Position where
  line : Nat
  character : Nat
  deriving DecidableEq, Repr

/-- The position behind a text. -/
def Position.behind (before : Text) : Position :=
  ⟨before.count '\n', (before.reverse.takeWhile (· != '\n')).length⟩

/-- Where the block comment starts that a source does not close. -/
def unclosed? (source : Text) : Option Position :=
  (unclosedFrom? source).map fun rest =>
    Position.behind (source.take (source.length - rest.length))

/-- Where a reader stands; in a block comment it knows how much was left where that started. -/
inductive State where
  | code
  | line
  | block (left : Nat)
  deriving DecidableEq, Repr

def State.run : State → Text → State
  | state, [] => state
  | code, '/' :: '/' :: rest => run line rest
  | code, '/' :: '*' :: rest => run (block (rest.length + 2)) rest
  | code, _ :: rest => run code rest
  | line, c :: rest => if c = '\n' then run code rest else run line rest
  | block _, '*' :: '/' :: rest => run code rest
  | block left, _ :: rest => run (block left) rest

end Comments

/-! ## Phases and units -/

inductive Phase where
  | syntaxCheck
  | semantics
  | emitOptions
  | emit
  | declarations
  deriving DecidableEq, Repr

def Phase.all : List Phase :=
  [.syntaxCheck, .semantics, .emitOptions, .emit, .declarations]

/-- A file that an engine makes. Its name is where the engine would put it. -/
structure Artifact where
  name : Path
  text : Text
  /-- Whether to write a mark in front. -/
  marked : Bool
  deriving DecidableEq, Repr

structure PhaseResult where
  phase : Phase
  diagnostics : List Diagnostic
  artifacts : List Artifact
  deriving DecidableEq, Repr

def PhaseResult.hasError (r : PhaseResult) : Bool :=
  r.diagnostics.any Diagnostic.isError

structure SourceUnit where
  path : Path
  text : Text
  mark : Mark
  references : List Path
  deriving DecidableEq, Repr

namespace SourceUnit

def isDeclaration (u : SourceUnit) : Bool :=
  ".d.ts".toList.isSuffixOf u.path

def commentFault? (u : SourceUnit) : Option Diagnostic :=
  (Comments.unclosed? u.text).map fun p =>
    (Diagnostic.ofMessage (some u.path) .commentNotClosed []).placed p.line p.character

end SourceUnit

/-- From settings, a way to make paths absolute and the units of a run to the results of the
phases, in order. -/
abbrev Engine := Settings → (Path → Path) → List SourceUnit → List PhaseResult

/-- The text in front of the name of a map. -/
def mapReference : Text := "//# sourceMappingURL="

/-- A script that names its map on a line of its own. -/
def withMap (newLine script mapName : Text) : Text :=
  let ended := script.isEmpty || newLine.isSuffixOf script
  script ++ (if ended then [] else newLine) ++ mapReference ++ mapName

def scriptText (newLine : NewLine) (lines : List Text) : Text :=
  Text.join newLine.text lines

/-- A line of each source line, with where it comes from. -/
def origins (source : Nat) (lines : List Text) : List Origin :=
  (List.range lines.length).map fun line => ⟨source, line⟩

/-- The script of some lines, and its map if one is asked for. -/
def scriptArtifacts (settings : Settings) (name : Path) (marked : Bool) (sources : List Path)
    (lines : List Text) (origins : List Origin) : List Artifact :=
  let script := scriptText settings.newLine lines
  if settings.mapSources then
    let mapName := name ++ ".map".toList
    let map := MapDocument.of (Path.baseName name) sources (lineMappings origins)
    [⟨name, withMap settings.newLine.text script (Path.baseName mapName), marked⟩,
      ⟨mapName, map.text, false⟩]
  else [⟨name, script, marked⟩]

def unitArtifacts (settings : Settings) (absolute : Path → Path) (u : SourceUnit) :
    List Artifact :=
  let lines := Text.lines u.text
  scriptArtifacts settings (absolute (Path.replaceExtension u.path ".js")) (!u.mark.isNone)
    [Path.baseName u.path] lines (origins 0 lines)

/-- The origins of the lines of several sources, the first of them with that number. -/
def bundleOrigins : Nat → List (List Text) → List Origin
  | _, [] => []
  | source, lines :: rest => origins source lines ++ bundleOrigins (source + 1) rest

def bundleArtifacts (settings : Settings) (outFile : Path) (units : List SourceUnit) :
    List Artifact :=
  let lines := units.map fun u => Text.lines u.text
  let directory := (Path.dirName outFile).getD outFile
  scriptArtifacts settings outFile false (units.map fun u => Path.relative directory u.path)
    lines.flatten (bundleOrigins 0 lines)

/-- The artifacts of all sources that do not only declare. -/
def artifacts (settings : Settings) (absolute : Path → Path) (units : List SourceUnit) :
    List Artifact :=
  let emitted := units.filter fun u => !u.isDeclaration
  match settings.outFile with
  | some outFile => bundleArtifacts settings outFile emitted
  | none => emitted.flatMap (unitArtifacts settings absolute)

/-- The result of a phase that checks comments and emits sources as they are. -/
def passThroughPhase (settings : Settings) (absolute : Path → Path) (units : List SourceUnit)
    (phase : Phase) : PhaseResult :=
  match phase with
  | .syntaxCheck => ⟨phase, units.filterMap SourceUnit.commentFault?, []⟩
  | .emit => ⟨phase, [], artifacts settings absolute units⟩
  | _ => ⟨phase, [], []⟩

/-- The engine that does no more than that. -/
def Engine.passThrough : Engine := fun settings absolute units =>
  Phase.all.map (passThroughPhase settings absolute units)

end BatchCompile
