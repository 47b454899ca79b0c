import BatchCompile.Diagnostic
import BatchCompile.Path.Names
import BatchCompile.Text.LowerCase

/-!
# The closure of the entry files

`Resolver.directives` finds the files to compile: the entries and all that they ask for, each once
and after the files it asks for. It walks depth first and marks a path before it looks at it, so
that cycles end.
-/

namespace BatchCompile

/-! ## Directives

What a source says about other files. Its header, the first lines that are blank or start with
three slashes, holds references; relative imports stand on any line after it.
-/

/-- The files that a source asks for, as it names them. -/
structure Directives where
  references : List Text
  imports : List Text
  /-- The source does without the default library. -/
  noDefaultLib : Bool
  deriving DecidableEq, Repr

namespace Directives

def enclosed? : Text → Option Text
  | [] => none
  | quote :: rest =>
    if quote = '"' ∨ quote = '\'' then (Text.cut? [quote] rest).map (·.1) else none

/-- What follows `=` at the front of a text, blanks aside. -/
def afterEquals? (t : Text) : Option Text :=
  (['='].isPrefixOf? (Text.trimStart t)).map Text.trimStart

/-- What follows an attribute's name and `=`, at the first place where the name stands after a
blank. ASCII case does not matter. -/
def attributeValue? (name : Text) : Text → Option Text
  | [] => none
  | before :: rest =>
    let named := Text.isBlank before && Text.asciiLower (rest.take name.length) = name
    match if named then afterEquals? (rest.drop name.length) else none with
    | some value => some value
    | none => attributeValue? name rest

def attribute? (name line : Text) : Option Text :=
  if (Text.cut? "<reference" (Text.asciiLower line)).isSome then
    (attributeValue? name line).bind enclosed?
  else none

def specifier? (line : Text) : Option Text :=
  let statement := ("export ".toList.isPrefixOf? line).getD line
  if "import ".toList.isPrefixOf statement || "import\"".toList.isPrefixOf statement then
    let after := match Text.cut? "require(" statement with
      | some (_, after) => after
      | none =>
        match Text.cut? " from " statement with
        | some (_, after) => after
        | none => statement.drop "import".length
    enclosed? (Text.trimStart after)
  else none

/-- Whether a name leads from the file that holds it. -/
def isRelative (name : Text) : Bool :=
  "./".toList.isPrefixOf name || "../".toList.isPrefixOf name

/-- Whether a line, from its first character that is not blank, belongs to a header. -/
def inHeader (line : Text) : Bool :=
  line.isEmpty || "///".toList.isPrefixOf line

def scan (source : Text) : Directives :=
  let lines := (Text.lines source).map Text.trimStart
  let header := lines.takeWhile inHeader
  let body := lines.dropWhile inHeader
  { references := header.filterMap (attribute? "path")
    imports := (body.filterMap specifier?).filter isRelative
    noDefaultLib := header.any fun line =>
      (attribute? "no-default-lib" line).any fun v =>
        Text.asciiLower (Text.trim v) = "true".toList }

end Directives

/-! ## The walk -/

/-- A file to compile and the files it asks for. -/
structure ResolvedFile where
  path : Path
  references : List Path
  imports : List Path
  deriving DecidableEq, Repr

structure Resolution where
  files : List ResolvedFile
  diagnostics : List Diagnostic
  /-- Some file does without the default library. -/
  sawNoDefaultLib : Bool
  deriving DecidableEq, Repr

/-- What a resolver may ask. -/
structure Services (m : Type → Type) where
  fileExists : Path → m Bool
  directoryExists : Path → m Bool
  parentDirectory : Path → m (Option Path)
  /-- The absolute path of a name, quoted or not, that stands in a file of a directory. -/
  resolve : Path → Option Path → m Path
  sourceText : Path → m Text
  /-- No more paths than this exist as files. -/
  pathBound : m Nat

/-- A way to find the files to compile. The flag says whether case tells paths apart. -/
abbrev Resolver (m : Type → Type) := List Path → Services m → Bool → m Resolution

/-- A walk under way: the marks it left and what it found. -/
structure Walk where
  visited : List Text
  found : Resolution
  deriving DecidableEq, Repr

namespace Walk

def start : Walk :=
  ⟨[], ⟨[], [], false⟩⟩

/-- The mark that a visit leaves. -/
def mark (caseSensitive : Bool) (p : Path) : Text :=
  if caseSensitive then p else Text.lowerCase p

def leave (w : Walk) (mark : Text) : Walk :=
  { w with visited := mark :: w.visited }

def missing (w : Walk) (asker : Option Path) (p : Path) : Walk :=
  let d := Diagnostic.ofMessage asker .fileNotFound [p]
  { w with found := { w.found with diagnostics := w.found.diagnostics ++ [d] } }

def note (w : Walk) (noDefaultLib : Bool) : Walk :=
  { w with found := { w.found with sawNoDefaultLib := w.found.sawNoDefaultLib || noDefaultLib } }

/-- Adds a file, after all that it asks for. -/
def add (w : Walk) (file : ResolvedFile) : Walk :=
  { w with found := { w.found with files := w.found.files ++ [file] } }

variable {m : Type → Type} [Monad m]

/-- The path that an import means: a source, or else a declaration; a source if there is
neither. -/
def importPath (services : Services m) (directory : Option Path) (name : Text) : m Path := do
  let source ← services.resolve (name ++ ".ts".toList) directory
  if ← services.fileExists source then pure source
  else
    let declaration ← services.resolve (name ++ ".d.ts".toList) directory
    if ← services.fileExists declaration then pure declaration else pure source

/-- Visits the files that names mean, one after the other; their paths are kept in order. -/
def follow (visit : Path → Walk → m Walk) (meaning : Text → m Path) (names : List Text)
    (w : Walk) : m (List Path × Walk) :=
  names.foldlM
    (fun (paths, w) name => do
      let p ← meaning name
      let w ← visit p w
      pure (paths ++ [p], w))
    ([], w)

/-- Visits a file and all that it asks for, `depth` files deep at most. -/
def visit (services : Services m) (caseSensitive : Bool) :
    Nat → Option Path → Path → Walk → m Walk
  | 0, _, _, w => pure w
  | depth + 1, asker, p, w => do
    let mark := mark caseSensitive p
    if w.visited.contains mark then pure w
    else
      let w := w.leave mark
      if !(← services.fileExists p) then pure (w.missing asker p)
      else
        let directives := Directives.scan (← services.sourceText p)
        let w := w.note directives.noDefaultLib
        let directory ← services.parentDirectory p
        let inner := visit services caseSensitive depth (some p)
        let (references, w) ←
          follow inner (services.resolve · directory) directives.references w
        let (imports, w) ← follow inner (importPath services directory) directives.imports w
        pure (w.add ⟨p, references, imports⟩)

end Walk

/-- The resolver that follows directives. Files that exist differ in their marks from one another,
so a walk is never deeper than there are files, and one more for a missing file. -/
def Resolver.directives {m : Type → Type} [Monad m] : Resolver m :=
  fun entries services caseSensitive => do
    let depth := (← services.pathBound) + 1
    let w ← entries.foldlM
      (fun w entry => do
        Walk.visit services caseSensitive depth none (← services.resolve entry none) w)
      Walk.start
    pure w.found

end BatchCompile
