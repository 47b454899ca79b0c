import BatchCompile.Choices
import BatchCompile.Failure
import BatchCompile.Json.Records
import BatchCompile.Path.Names
import BatchCompile.Text.LowerCase

/-!
# Options, tasks and configurations

What a user asks for, as written: every option may be unset. `Options.parse` reads them from a
document, `Options.merge` lays one set over another, and `Options.notices` tells which obsolete
ones are set. A `Task` is a set of options and groups of sources; each group is compiled on its
own. A `Configuration` is what one run works by.
-/

namespace BatchCompile

structure Options where
  basePath : Option Path
  sourceMap : Option Bool
  declaration : Option Bool
  comments : Option Bool
  target : Option Text
  moduleKind : Option Text
  newLine : Option Text
  noLib : Option Bool
  ignoreTypeCheck : Option Bool
  noImplicitAny : Option Bool
  disallowAsi : Option Bool
  fullSourceMapPath : Option Json.Value
  allowBool : Option Json.Value
  allowImportModule : Option Json.Value
  deriving Repr

namespace Options

def unset : Options :=
  ⟨none, none, none, none, none, none, none, none, none, none, none, none, none, none⟩

/-- The options with every one that `other` sets taken from there. -/
def merge (options other : Options) : Options where
  basePath := other.basePath <|> options.basePath
  sourceMap := other.sourceMap <|> options.sourceMap
  declaration := other.declaration <|> options.declaration
  comments := other.comments <|> options.comments
  target := other.target <|> options.target
  moduleKind := other.moduleKind <|> options.moduleKind
  newLine := other.newLine <|> options.newLine
  noLib := other.noLib <|> options.noLib
  ignoreTypeCheck := other.ignoreTypeCheck <|> options.ignoreTypeCheck
  noImplicitAny := other.noImplicitAny <|> options.noImplicitAny
  disallowAsi := other.disallowAsi <|> options.disallowAsi
  fullSourceMapPath := other.fullSourceMapPath <|> options.fullSourceMapPath
  allowBool := other.allowBool <|> options.allowBool
  allowImportModule := other.allowImportModule <|> options.allowImportModule

def flagOfWord? (t : Text) : Option Bool :=
  let word := Text.lowerCase (Text.trim t)
  if word ∈ ["true", "1", "yes", "on"].map String.toList then some true
  else if word ∈ ["false", "0", "no", "off"].map String.toList then some false
  else none

/-- A truth value, or a word for one; the whole value is read before it is looked at. -/
def readFlag (room : Nat) (t : Text) : Except Json.Fault (Bool × Text) := do
  let (v, rest) ← Json.value room t
  match v with
  | .bool b => .ok (b, rest)
  | .string given =>
    match flagOfWord? given with
    | some b => .ok (b, rest)
    | none => .error (.unplaced rest (.badFlag given))
  | _ => .error (.unplaced rest .notFlag)

def textField (name : Text) (aliases : List Text) (set : Option Text → Options → Options) :
    Json.Field Options :=
  .of name aliases (fun _ => Json.optional Json.string) set

def flagField (name : Text) (aliases : List Text) (set : Option Bool → Options → Options) :
    Json.Field Options :=
  .of name aliases (fun room => Json.optional (readFlag room)) set

def valueField (name : Text) (set : Option Json.Value → Options → Options) :
    Json.Field Options :=
  .of name [] (fun room => Json.optional (Json.value room)) set

def fields : List (Json.Field Options) := [
  textField "basePath" ["base_path"] fun v o => { o with basePath := v },
  flagField "sourcemap" ["sourceMap"] fun v o => { o with sourceMap := v },
  flagField "declaration" [] fun v o => { o with declaration := v },
  flagField "comments" [] fun v o => { o with comments := v },
  textField "target" [] fun v o => { o with target := v },
  textField "module" [] fun v o => { o with moduleKind := v },
  textField "newLine" [] fun v o => { o with newLine := v },
  flagField "nolib" ["noLib"] fun v o => { o with noLib := v },
  flagField "ignoreTypeCheck" [] fun v o => { o with ignoreTypeCheck := v },
  flagField "noImplicitAny" [] fun v o => { o with noImplicitAny := v },
  flagField "disallowAsi" [] fun v o => { o with disallowAsi := v },
  valueField "fullSourceMapPath" fun v o => { o with fullSourceMapPath := v },
  valueField "allowbool" fun v o => { o with allowBool := v },
  valueField "allowimportmodule" fun v o => { o with allowImportModule := v }]

def read (room : Nat) (t : Text) : Except Json.Fault (Options × Text) :=
  Json.record "struct TaskOptions" fields unset room t

def parse (document : Text) : Except Failure Options :=
  match Json.readDocument (read Json.maxDepth) document with
  | .ok options => .ok options
  | .error report => failing .parseOptions (.badDocument report)

def isSet (v : Option Json.Value) : Bool :=
  v.any Json.Value.isTruthy

/-- What a user is told about the obsolete options that are set. -/
def notices (o : Options) : List Text :=
  (if isSet o.fullSourceMapPath then ["fullSourceMapPath not supported.".toList] else [])
    ++ (if isSet o.allowBool then ["allowbool is obsolete.".toList] else [])
    ++ if isSet o.allowImportModule then ["allowimportmodule is obsolete.".toList] else []

end Options

/-! ## Tasks -/

/-- Sources that are compiled together, and where to. -/
structure Group where
  sources : List Path
  destination : Option Path
  deriving DecidableEq, Repr

namespace Group

def fields : List (Json.Field Group) := [
  .of "src" [] (Json.list fun _ => Json.string) fun v g => { g with sources := v },
  .of "dest" [] (fun _ => Json.optional Json.string) fun v g => { g with destination := v }]

def read (room : Nat) (t : Text) : Except Json.Fault (Group × Text) :=
  Json.record "struct FileGroup" fields ⟨[], none⟩ room t

end Group

structure Task where
  options : Options
  groups : List Group
  deriving Repr

namespace Task

def fields : List (Json.Field Task) := [
  .of "options" [] Options.read fun v t => { t with options := v },
  .of "files" [] (Json.list Group.read) fun v t => { t with groups := v }]

def empty : Task :=
  ⟨.unset, []⟩

def read (room : Nat) (t : Text) : Except Json.Fault (Task × Text) :=
  Json.record "struct TaskFile" fields empty room t

def parse (document : Text) : Except Failure Task :=
  match Json.readDocument (read Json.maxDepth) document with
  | .ok task => .ok task
  | .error report => failing .parseTask (.badDocument report)

end Task

/-! ## Configurations

`Configuration.resolve` makes one from options and a destination, and `Configuration.settings` is
the part that a compiler engine sees.
-/

structure Configuration where
  /-- The directory to place artifacts in, or the bundle. -/
  destination : Option Path
  /-- All sources go into one bundle. -/
  singleOutput : Bool
  /-- Where the bundle goes. -/
  outFile : Option Path
  /-- What is taken off the front of every relative path, with a slash at its end. -/
  basePath : Option Path
  ignoreTypeCheck : Bool
  noLib : Bool
  sourceMap : Bool
  declaration : Bool
  preserveComments : Bool
  target : Target
  moduleKind : ModuleKind
  newLine : NewLine
  noImplicitAny : Bool
  automaticSemicolons : Bool
  deriving DecidableEq, Repr

structure Settings where
  target : Target
  moduleKind : ModuleKind
  outFile : Option Path
  mapSources : Bool
  declarations : Bool
  removeComments : Bool
  noLib : Bool
  noImplicitAny : Bool
  automaticSemicolons : Bool
  caseSensitive : Bool
  newLine : NewLine
  deriving DecidableEq, Repr

namespace Configuration

def default : Configuration where
  destination := none
  singleOutput := false
  outFile := none
  basePath := none
  ignoreTypeCheck := true
  noLib := false
  sourceMap := false
  declaration := false
  preserveComments := false
  target := .es3
  moduleKind := .commonJs
  newLine := .lf
  noImplicitAny := false
  automaticSemicolons := true

def nonempty (p : Option Path) : Option Path :=
  p.filter (· ≠ [])

/-- A base path with a slash at its end. -/
def asBase (p : Path) : Path :=
  let p := Path.normalize p
  if p.getLast? = some '/' then p else p ++ ['/']

/-- The configuration for options and a destination, seen from a working directory. A
destination that names a script is a bundle. -/
def resolve (cwd : Path) (options : Options) (destination : Option Path) : Configuration :=
  let destination := (nonempty destination).map Path.normalize
  let bundled := destination.any fun d => Path.extension d = ".js".toList
  { destination := destination
    singleOutput := bundled
    outFile := if bundled then destination.map fun d => Path.resolve cwd [d] else none
    basePath := (nonempty options.basePath).map asBase
    ignoreTypeCheck := options.ignoreTypeCheck.getD true
    noLib := options.noLib.getD false
    sourceMap := options.sourceMap.getD false
    declaration := options.declaration.getD false
    preserveComments := options.comments.getD false
    target := (options.target.bind Target.ofName?).getD .es3
    moduleKind := (options.moduleKind.bind ModuleKind.ofName?).getD .commonJs
    newLine := (options.newLine.bind NewLine.ofName?).getD .lf
    noImplicitAny := options.noImplicitAny.getD false
    automaticSemicolons := !options.disallowAsi.getD false }

/-- The settings for an engine. Paths are looked up without regard to case. -/
def settings (c : Configuration) : Settings where
  target := c.target
  moduleKind := c.moduleKind
  outFile := c.outFile
  mapSources := c.sourceMap
  declarations := c.declaration
  removeComments := !c.preserveComments
  noLib := c.noLib
  noImplicitAny := c.noImplicitAny
  automaticSemicolons := c.automaticSemicolons
  caseSensitive := false
  newLine := c.newLine

end Configuration

end BatchCompile
