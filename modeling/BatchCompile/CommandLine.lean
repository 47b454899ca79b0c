import BatchCompile.Choices
import BatchCompile.Options

/-!
# The command line

`Arguments` are what a command line asks for; `Arguments.options` are the task options it sets. A
flag that is not given stays unset, so that it does not override a task file. `Arguments.read`
goes from left to right. An option may wait for the argument after it, and its value is looked at
when the next option, file or the end is reached; the first error found ends the reading. After
`--` everything is a file.
-/

namespace BatchCompile

/-- A module style as it is named on the command line. -/
inductive ModuleName where
  | commonJs
  | node
  | amd
  deriving DecidableEq, Repr, Inhabited

structure Arguments where
  files : List Path
  dest : Option Path
  task : Option Path
  libDir : Option Path
  basePath : Option Path
  sourceMap : Bool
  declaration : Bool
  comments : Bool
  target : Option Target
  moduleName : Option ModuleName
  newLine : Option NewLine
  noLib : Bool
  ignoreTypeCheck : Option Bool
  noImplicitAny : Bool
  disallowAsi : Bool
  deriving DecidableEq, Repr

def Target.name : Target → Text
  | es3 => "es3"
  | es5 => "es5"

def ModuleName.name : ModuleName → Text
  | commonJs => "commonjs"
  | node => "node"
  | amd => "amd"

def NewLine.name : NewLine → Text
  | crlf => "crlf"
  | lf => "lf"

namespace Arguments

def empty : Arguments :=
  ⟨[], none, none, none, none, false, false, false, none, none, none, false, none, false, false⟩

/-- A flag that is set only if it is given. -/
def given (flag : Bool) : Option Bool :=
  if flag then some true else none

def options (a : Arguments) : Options where
  basePath := a.basePath
  sourceMap := given a.sourceMap
  declaration := given a.declaration
  comments := given a.comments
  target := a.target.map Target.name
  moduleKind := a.moduleName.map ModuleName.name
  newLine := a.newLine.map NewLine.name
  noLib := given a.noLib
  ignoreTypeCheck := a.ignoreTypeCheck
  noImplicitAny := given a.noImplicitAny
  disallowAsi := given a.disallowAsi
  fullSourceMapPath := none
  allowBool := none
  allowImportModule := none

end Arguments

/-! ## Reading -/

inductive Setting where
  | dest
  | task
  | libDir
  | basePath
  | target
  | moduleName
  | newLine
  | ignoreTypeCheck
  deriving DecidableEq, Repr

inductive Flag where
  | sourceMap
  | declaration
  | comments
  | noLib
  | noImplicitAny
  | disallowAsi
  deriving DecidableEq, Repr

inductive Switch where
  | setting (s : Setting)
  | flag (f : Flag)
  | help
  | version
  deriving DecidableEq, Repr

inductive UsageError where
  | unknownArgument
  | invalidValue
  | tooManyValues
  | argumentConflict
  | displayHelp
  | displayVersion
  deriving DecidableEq, Repr

/-- The names of a value option after two dashes, the main one first. -/
def Setting.names : Setting → List String
  | dest => ["dest"]
  | task => ["task"]
  | libDir => ["libDir", "lib-dir"]
  | basePath => ["basePath", "base-path"]
  | target => ["target"]
  | moduleName => ["module"]
  | newLine => ["newLine", "new-line"]
  | ignoreTypeCheck => ["ignoreTypeCheck", "ignore-type-check"]

def Flag.names : Flag → List String
  | sourceMap => ["sourceMap", "source-map", "sourcemap"]
  | declaration => ["declaration"]
  | comments => ["comments"]
  | noLib => ["noLib", "no-lib", "nolib"]
  | noImplicitAny => ["noImplicitAny", "no-implicit-any"]
  | disallowAsi => ["disallowAsi", "disallow-asi"]

namespace Switch

def names : Switch → List String
  | setting s => s.names
  | flag f => f.names
  | help => ["help"]
  | version => ["version"]

def all : List Switch :=
  ([.dest, .task, .libDir, .basePath, .target, .moduleName, .newLine, .ignoreTypeCheck] :
      List Setting).map setting
    ++ ([.sourceMap, .declaration, .comments, .noLib, .noImplicitAny, .disallowAsi] :
      List Flag).map flag
    ++ [help, version]

def ofName? (name : Text) : Option Switch :=
  all.find? fun s => s.names.any fun n => n.toList = name

def ofLetter? : Char → Option Switch
  | 'd' => some (setting .dest)
  | 't' => some (setting .target)
  | 'm' => some (setting .moduleName)
  | 'h' => some help
  | 'V' => some version
  | _ => none

end Switch

/-- A name that is one of these, without regard to ASCII case. -/
def oneOf {α : Type} (named : List (String × α)) (value : Text) : Except UsageError α :=
  match named.find? fun (name, _) => name.toList = Text.asciiLower value with
  | some (_, a) => .ok a
  | none => .error .invalidValue

def pathValue (value : Text) : Except UsageError Path :=
  if value.isEmpty then .error .invalidValue else .ok value

/-- A truth value, written in one way only. -/
def boolValue (value : Text) : Except UsageError Bool :=
  if value = "true" then .ok true
  else if value = "false" then .ok false
  else .error .invalidValue

/-- What an option is set to, if it is not set yet. -/
def once {α : Type} (old : Option α) (value : Except UsageError α) :
    Except UsageError (Option α) :=
  match old with
  | some _ => .error .argumentConflict
  | none => value.map some

namespace Arguments

def set (a : Arguments) (s : Setting) (value : Text) : Except UsageError Arguments := do
  match s with
  | .dest => pure { a with dest := ← once a.dest (.ok value) }
  | .task => pure { a with task := ← once a.task (pathValue value) }
  | .libDir => pure { a with libDir := ← once a.libDir (pathValue value) }
  | .basePath => pure { a with basePath := ← once a.basePath (.ok value) }
  | .target =>
    let named := [("es3", Target.es3), ("es5", Target.es5)]
    pure { a with target := ← once a.target (oneOf named value) }
  | .moduleName =>
    let named := [("commonjs", ModuleName.commonJs), ("common-js", .commonJs), ("node", .node),
      ("amd", .amd)]
    pure { a with moduleName := ← once a.moduleName (oneOf named value) }
  | .newLine =>
    let named := [("crlf", NewLine.crlf), ("lf", NewLine.lf)]
    pure { a with newLine := ← once a.newLine (oneOf named value) }
  | .ignoreTypeCheck =>
    pure { a with ignoreTypeCheck := ← once a.ignoreTypeCheck (boolValue value) }

def has (a : Arguments) : Flag → Bool
  | .sourceMap => a.sourceMap
  | .declaration => a.declaration
  | .comments => a.comments
  | .noLib => a.noLib
  | .noImplicitAny => a.noImplicitAny
  | .disallowAsi => a.disallowAsi

/-- Gives a flag, if it is not given yet. -/
def raise (a : Arguments) (f : Flag) : Except UsageError Arguments :=
  if a.has f then .error .argumentConflict
  else
    match f with
    | .sourceMap => .ok { a with sourceMap := true }
    | .declaration => .ok { a with declaration := true }
    | .comments => .ok { a with comments := true }
    | .noLib => .ok { a with noLib := true }
    | .noImplicitAny => .ok { a with noImplicitAny := true }
    | .disallowAsi => .ok { a with disallowAsi := true }

def addFile (a : Arguments) (file : Path) : Arguments :=
  { a with files := a.files ++ [file] }

end Arguments

/-- The shape of an argument: an option by its name or its letter, perhaps with a value
attached, or plain text. -/
inductive Shape where
  | long (name : Text) (value : Option Text)
  | short (letter : Char) (rest : Text)
  | plain
  deriving DecidableEq, Repr

/-- The shape of an argument other than `--`. -/
def Shape.of : Text → Shape
  | '-' :: '-' :: rest =>
    match Text.cut? ['='] rest with
    | some (name, value) => .long name (some value)
    | none => .long rest none
  | '-' :: letter :: rest => .short letter rest
  | _ => .plain

def attached : Text → Option Text
  | [] => none
  | '=' :: value => some value
  | value => some value

/-- An option that waits: for its value, or for the value to be looked at. -/
abbrev Waiting := Option (Setting × Option Text)

/-- The arguments with the value of a waiting option. -/
def settle (a : Arguments) : Waiting → Except UsageError Arguments
  | none => .ok a
  | some (_, none) => .error .invalidValue
  | some (s, some value) => a.set s value

/-- An option that takes no value here: a flag, or one that ends the reading. -/
def act (a : Arguments) : Switch → Except UsageError Arguments
  | .flag f => a.raise f
  | .help => .error .displayHelp
  | .version => .error .displayVersion
  | .setting _ => .error .invalidValue

def readSwitch (a : Arguments) (waiting : Waiting) (switch : Switch) (value : Option Text) :
    Except UsageError (Arguments × Waiting) := do
  match switch, value with
  | .setting s, some value => pure (← (← settle a waiting).set s value, none)
  | .setting s, none => pure (← settle a waiting, some (s, none))
  | other, _ => pure (← act (← settle a waiting) other, none)

/-- One argument before any `--`. -/
def readArgument (a : Arguments) (waiting : Waiting) (argument : Text) :
    Except UsageError (Arguments × Waiting) :=
  match Shape.of argument with
  | .long name value =>
    match Switch.ofName? name with
    | none => .error .unknownArgument
    | some (.setting s) => readSwitch a waiting (.setting s) value
    | some other => if value.isSome then .error .tooManyValues else readSwitch a waiting other none
  | .short letter rest =>
    match Switch.ofLetter? letter with
    | none => .error .unknownArgument
    | some switch => readSwitch a waiting switch (attached rest)
  | .plain =>
    match waiting with
    | some (s, none) => .ok (a, some (s, some argument))
    | _ => (settle a waiting).map fun a => (a.addFile argument, none)

def readFrom (a : Arguments) (waiting : Waiting) : List Text → Except UsageError Arguments
  | [] => settle a waiting
  | argument :: rest =>
    if argument = "--" then (settle a waiting).map fun a => rest.foldl Arguments.addFile a
    else do
      let (a, waiting) ← readArgument a waiting argument
      readFrom a waiting rest

/-- Reads a command line, without the program's name. -/
def Arguments.read (commandLine : List Text) : Except UsageError Arguments :=
  readFrom .empty none commandLine

/-! ## Usage -/

def usage : String :=
  "Usage: [OPTIONS] [FILES]...

Options:
  -d, --dest <DEST>                 directory or bundle to write to
      --task <TASK>                 task file with options and groups of files
      --libDir <DIR>                directory of the default library
      --basePath <PATH>             what is taken off the front of relative paths
      --sourceMap                   write source maps
      --declaration                 write declarations
      --comments                    keep comments
  -t, --target <TARGET>             es3 or es5
  -m, --module <MODULE>             commonjs, node or amd
      --newLine <NEWLINE>           crlf or lf
      --noLib                       do without the default library
      --ignoreTypeCheck <BOOL>      go on after type errors
      --noImplicitAny               refuse implicit any types
      --disallowAsi                 refuse missing semicolons
  -h, --help                        print this help
  -V, --version                     print the version
"

def version : String :=
  "1.0.0\n"

namespace UsageError

/-- Whether a user asked for no more than to be told something. -/
def isRequest : UsageError → Bool
  | displayHelp | displayVersion => true
  | _ => false

def text : UsageError → String
  | unknownArgument => "error: unknown argument\n\n" ++ usage
  | invalidValue => "error: a value is missing or cannot be used\n\n" ++ usage
  | tooManyValues => "error: a value where none is taken\n\n" ++ usage
  | argumentConflict => "error: an option is given twice\n\n" ++ usage
  | displayHelp => usage
  | displayVersion => version

def status (e : UsageError) : Nat :=
  if e.isRequest then 0 else 2

end UsageError

end BatchCompile
