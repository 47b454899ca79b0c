import BatchCompile.Host
import BatchCompile.Closure
import BatchCompile.Emission
import BatchCompile.Mapping.Relocation
import BatchCompile.Summary
import BatchCompile.Options

/-!
# Runs

`run` compiles one list of files: it resolves the closure, hands the units to the engine, writes
the artifacts of each phase and closes with a summary. A run stops at the first phase that reports
a grave error and at the first artifact that cannot be written; what was written before stays.
-/

namespace BatchCompile

inductive Abort where
  | syntaxError
  | phase (p : Phase)
  | write
  deriving DecidableEq, Repr

structure Report where
  resolution : Resolution
  units : List SourceUnit
  /-- The phases whose results were taken from the engine. -/
  pulled : List Phase
  /-- The files written, in order. -/
  written : List Path
  abort : Option Abort
  deriving DecidableEq, Repr

def Report.succeeded (r : Report) : Bool :=
  r.abort.isNone

theorem Report.succeeded_iff {r : Report} : r.succeeded = true ↔ r.abort = none :=
  Option.isNone_iff_eq_none

def libraryFile : Text := "lib.d.ts"

variable {m : Type → Type} [Monad m]

/-- The services of a run to its resolver: answers about the host, kept for the whole run. -/
def Caches.services (h : Host m) : Services (StateT Caches m) where
  fileExists := Caches.fileExists h
  directoryExists p := liftM (h.directoryExists p)
  parentDirectory p := pure (Path.dirName p)
  resolve name directory := do
    let bare := Path.stripQuotes name
    let place := match directory with
      | some directory => if Path.isRooted bare then bare else Path.combine directory bare
      | none => bare
    pure (Path.forward (← Caches.absolute h place))
  sourceText p := do pure (← Caches.source h p).text
  pathBound := do
    let bound ← liftM (n := StateT Caches m) h.pathBound
    pure (bound + (← get).existence.length)

/-- The files that a run compiles: the default library first, unless it is not wanted. -/
def filesToCompile (library : Path) (c : Configuration) (r : Resolution) : List ResolvedFile :=
  if c.noLib || r.sawNoDefaultLib then r.files else ⟨library, [], []⟩ :: r.files

def unitOf (h : Host m) (file : ResolvedFile) : StateT Caches m SourceUnit := do
  let s ← Caches.source h file.path
  pure ⟨file.path, s.text, s.mark, file.references⟩

def printDiagnostic (h : Host m) (d : Diagnostic) : m Unit :=
  h.printLine .error d.shown

/-- Places and writes an artifact; its path. -/
def place (h : Host m) (c : Configuration) (a : Artifact) : m (Except Failure Path) := do
  match destination h.cwd c a.name with
  | .error f => pure (.error f)
  | .ok goal =>
    match placedText h.cwd c a.name goal a.text with
    | .error f => pure (.error f)
    | .ok text =>
      let p := h.absolute goal
      match ← h.writeFile p text a.marked with
      | .error f => pure (.error f)
      | .ok () => pure (.ok p)

/-- Writes artifacts up to the first that fails, which is reported: the paths written, and whether
all of them were. -/
def writeArtifacts (h : Host m) (c : Configuration) : List Artifact → m (List Path × Bool)
  | [] => pure ([], true)
  | a :: rest => do
    match ← place h c a with
    | .error f =>
      printDiagnostic h (.ofMessage (some a.name) .notEmitted [f.message])
      pure ([], false)
    | .ok p =>
      let (written, all) ← writeArtifacts h c rest
      pure (p :: written, all)

/-- Why the result of a phase stops a run before anything of it is written. -/
def fatal? (c : Configuration) (r : PhaseResult) : Option Abort :=
  if !r.hasError then none
  else if r.phase = .syntaxCheck then some .syntaxError
  else if c.ignoreTypeCheck then none
  else some (.phase r.phase)

structure Progress where
  pulled : List Phase
  written : List Path
  abort : Option Abort
  deriving DecidableEq, Repr

/-- Takes the results of phases one by one, up to the first that stops the run. -/
def takeResults (h : Host m) (c : Configuration) : List PhaseResult → m Progress
  | [] => pure ⟨[], [], none⟩
  | r :: rest => do
    r.diagnostics.forM (printDiagnostic h)
    match fatal? c r with
    | some abort => pure ⟨[r.phase], [], some abort⟩
    | none =>
      match ← writeArtifacts h c r.artifacts with
      | (written, false) => pure ⟨[r.phase], written, some .write⟩
      | (written, true) =>
        let later ← takeResults h c rest
        pure ⟨r.phase :: later.pulled, written ++ later.written, later.abort⟩

/-- Resolves the closure of the inputs and reads its units. -/
def gather (h : Host m) (resolver : Resolver (StateT Caches m)) (libraryDirectory : Path)
    (c : Configuration) (inputs : List Path) :
    StateT Caches m (Resolution × List SourceUnit) := do
  let resolution ← resolver inputs (Caches.services h) c.settings.caseSensitive
  resolution.diagnostics.forM fun d => liftM (printDiagnostic h d)
  let library := Path.combine (h.absolute libraryDirectory) libraryFile
  let units ← (filesToCompile library c resolution).mapM (unitOf h)
  pure (resolution, units)

/-- Compiles the inputs with a resolver and an engine. -/
def runWith (h : Host m) (resolver : Resolver (StateT Caches m)) (engine : Engine)
    (libraryDirectory : Path) (c : Configuration) (inputs : List Path) : m Report := do
  let ((resolution, units), _) ← (gather h resolver libraryDirectory c inputs).run .empty
  let progress ← takeResults h c (engine c.settings h.absolute units)
  if progress.abort.isNone then
    h.printLines .output ((Summary.of progress.written).lines c.singleOutput)
  pure ⟨resolution, units, progress.pulled, progress.written, progress.abort⟩

/-- Compiles the inputs by following directives and passing sources through. -/
def run (h : Host m) (libraryDirectory : Path) (c : Configuration) (inputs : List Path) :
    m Report :=
  runWith h Resolver.directives Engine.passThrough libraryDirectory c inputs

/-- The configuration for options and a destination; obsolete options are noted. -/
def configure (h : Host m) (options : Options) (destination : Option Path) :
    m Configuration := do
  h.printLines .output options.notices
  pure (Configuration.resolve h.cwd options destination)

/-- Compiles groups one after the other; whether every one succeeded. -/
def runGroups (h : Host m) (options : Options) (compile : List Path → Configuration → m Bool) :
    List Group → m Bool
  | [] => pure true
  | group :: rest => do
    let c ← configure h options group.destination
    let succeeded ← compile group.sources c
    let others ← runGroups h options compile rest
    pure (succeeded && others)

/-- Compiles the groups of a task, each in a run of its own. -/
def runTask (h : Host m) (libraryDirectory : Path) (options : Options) (groups : List Group) :
    m Bool :=
  runGroups h options (fun sources c => do pure (← run h libraryDirectory c sources).succeeded)
    groups

end BatchCompile
