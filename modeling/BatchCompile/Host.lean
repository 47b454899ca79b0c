import BatchCompile.Encoding
import BatchCompile.Failure
import BatchCompile.Path.Names

/-!
# Hosts

A `Host` is what a run may do to the world: read and write files, make directories and print. It
is a record of actions in some monad, so that a run is the same on a tree of files in memory, on
a disk, and with every action recorded (`Host.recorded`). A file is written after the directories
above it are made.

`Caches` are what a run has learnt about the world. `consult` asks only what has not been asked
before, so an answer stays the same for the rest of the run, whatever happens to the world
meanwhile.
-/

namespace BatchCompile

/-- A source file: its text and the mark it was stored with. -/
structure Source where
  text : Text
  mark : Mark
  deriving DecidableEq, Repr, Inhabited

inductive Channel where
  | output
  | error
  deriving DecidableEq, Repr

/-- The actions open to a run. -/
structure Host (m : Type → Type) where
  /-- The working directory, normalized. -/
  cwd : Path
  read : Path → m (Except Failure Source)
  /-- Writes a text, with a mark in front if asked for. -/
  write : Path → Text → Bool → m (Except Failure Unit)
  delete : Path → m (Except Failure Unit)
  fileExists : Path → m Bool
  directoryExists : Path → m Bool
  /-- Makes one directory; it is no failure if it is there. -/
  createDirectory : Path → m (Except Failure Unit)
  print : Channel → Text → m Unit
  /-- A message as it is laid out in lines. -/
  layout : Text → Text
  /-- No more paths than this exist as files. -/
  pathBound : m Nat

/-- An action that a host was asked for. -/
inductive Event where
  | read (p : Path)
  | write (p : Path)
  | createDirectory (p : Path)
  | print (channel : Channel) (t : Text)
  deriving DecidableEq, Repr

/-- The actions asked for, the last one first. -/
abbrev Journal := List Event

namespace Host

variable {m : Type → Type}

def absolute (h : Host m) (p : Path) : Path :=
  Path.resolve h.cwd [p]

def wayTo (h : Host m) (start goal : Path) : Path :=
  Path.relative (h.absolute start) (h.absolute goal)

def printLine (h : Host m) (channel : Channel) (t : Text) : m Unit :=
  h.print channel (h.layout t)

def printLines [Monad m] (h : Host m) (channel : Channel) (ts : List Text) : m Unit :=
  ts.forM (h.printLine channel)

/-- The same actions in a monad that can carry them. -/
def lift {n : Type → Type} [MonadLiftT m n] (h : Host m) : Host n where
  cwd := h.cwd
  read p := liftM (h.read p)
  write p t marked := liftM (h.write p t marked)
  delete p := liftM (h.delete p)
  fileExists p := liftM (h.fileExists p)
  directoryExists p := liftM (h.directoryExists p)
  createDirectory p := liftM (h.createDirectory p)
  print channel t := liftM (h.print channel t)
  layout := h.layout
  pathBound := liftM h.pathBound

/-- The host with every reading, writing, making of a directory and printing recorded, whether it
succeeds or not. -/
def recorded [Monad m] (h : Host m) : Host (StateT Journal m) where
  cwd := h.cwd
  read p := do
    modify (.read p :: ·)
    liftM (h.read p)
  write p t marked := do
    modify (.write p :: ·)
    liftM (h.write p t marked)
  delete p := liftM (h.delete p)
  fileExists p := liftM (h.fileExists p)
  directoryExists p := liftM (h.directoryExists p)
  createDirectory p := do
    modify (.createDirectory p :: ·)
    liftM (h.createDirectory p)
  print channel t := do
    modify (.print channel t :: ·)
    liftM (h.print channel t)
  layout := h.layout
  pathBound := liftM h.pathBound

end Host

def plainLayout (t : Text) : Text :=
  t ++ ['\n']

/-- A message as a console shows it: its lines without blanks around the whole, each after an
arrow. -/
def consoleLayout (t : Text) : Text :=
  (Text.lines (Text.trim t)).flatMap fun line => ">> ".toList ++ line ++ ['\n']

/-! ## Writing -/

namespace Host

variable {m : Type → Type} [Monad m]

/-- Makes the first of these directories, each of which lies in the next, and those of them that
it needs. -/
def ensureChain (h : Host m) : List Path → m (Except Failure Unit)
  | [] => pure (.ok ())
  | directory :: above => do
    if ← h.directoryExists directory then pure (.ok ())
    else if ← h.fileExists directory then pure (.error (.of (.notDirectory directory)))
    else
      match ← ensureChain h above with
      | .error f => pure (.error f)
      | .ok () => h.createDirectory directory

/-- Makes a directory and those above it that are missing, from the top down. -/
def ensureDirectory (h : Host m) (directory : Path) : m (Except Failure Unit) :=
  h.ensureChain (directory :: Path.ancestors directory)

/-- Writes a file and makes the directories above it. -/
def writeFile (h : Host m) (p : Path) (text : Text) (marked : Bool) :
    m (Except Failure Unit) := do
  match ← h.ensureChain (Path.ancestors p) with
  | .error f => pure (.error f)
  | .ok () => h.write p text marked

end Host

/-! ## Caches -/

/-- Questions about paths with their answers, the last one first. -/
abbrev Memo (α : Type) := List (Path × α)

namespace Memo

def answer? {α : Type} (memo : Memo α) (p : Path) : Option α :=
  (memo.find? (·.1 = p)).map (·.2)

/-- The answer to a question, asked only if it was not asked before. -/
def consult {α : Type} {m : Type → Type} [Monad m] (memo : Memo α) (p : Path) (ask : m α) :
    m (α × Memo α) :=
  match memo.answer? p with
  | some a => pure (a, memo)
  | none => do
    let a ← ask
    pure (a, (p, a) :: memo)

end Memo

/-- What a run has learnt: texts, absolute paths, and which files exist. -/
structure Caches where
  sources : Memo Source
  resolved : Memo Path
  existence : Memo Bool
  deriving DecidableEq, Repr

namespace Caches

variable {m : Type → Type} [Monad m]

def empty : Caches :=
  ⟨[], [], []⟩

/-- A source file; one that cannot be read is empty. -/
def source (h : Host m) (p : Path) : StateT Caches m Source := do
  let caches ← get
  let (s, sources) ← liftM (caches.sources.consult p do
    match ← h.read p with
    | .ok s => pure s
    | .error _ => pure ⟨[], .none⟩)
  set { caches with sources := sources }
  pure s

def absolute (h : Host m) (p : Path) : StateT Caches m Path := do
  let caches ← get
  let (q, resolved) ← liftM (caches.resolved.consult p (pure (f := m) (h.absolute p)))
  set { caches with resolved := resolved }
  pure q

def fileExists (h : Host m) (p : Path) : StateT Caches m Bool := do
  let caches ← get
  let (b, existence) ← liftM (caches.existence.consult p (h.fileExists p))
  set { caches with existence := existence }
  pure b

end Caches

/-! ## File systems

A `FileSystem` holds files as bytes and fails with errors of the system. `FileSystem.host` is the
host on it, which says in a failure what was being attempted.
-/

structure FileSystem (m : Type → Type) where
  read : Path → m (Except SystemError (List UInt8))
  /-- Writes a file anew. -/
  write : Path → List UInt8 → m (Except SystemError Unit)
  delete : Path → m (Except SystemError Unit)
  /-- Whether a file or a directory is there. -/
  present : Path → m Bool
  isDirectory : Path → m Bool
  createDirectory : Path → m (Except SystemError Unit)
  /-- No more paths than this are present. -/
  pathBound : m Nat

namespace FileSystem

variable {m : Type → Type}

def outcome {α : Type} (attempt : Attempt) : Except SystemError α → Except Failure α
  | .ok a => .ok a
  | .error e => failing attempt (.system e)

/-- The same file system in a monad that can carry it. -/
def lift {n : Type → Type} [MonadLiftT m n] (files : FileSystem m) : FileSystem n where
  read p := liftM (files.read p)
  write p bytes := liftM (files.write p bytes)
  delete p := liftM (files.delete p)
  present p := liftM (files.present p)
  isDirectory p := liftM (files.isDirectory p)
  createDirectory p := liftM (files.createDirectory p)
  pathBound := liftM files.pathBound

variable [Monad m]

/-- Makes a directory. If something is there already, it is no failure if that is a directory. -/
def ensureDirectory (files : FileSystem m) (p : Path) : m (Except SystemError Unit) := do
  match ← files.createDirectory p with
  | .error .fileExists =>
    if ← files.isDirectory p then pure (.ok ()) else pure (.error .fileExists)
  | other => pure other

/-- The host on a file system. For it, a directory exists as a file, too. -/
def host (files : FileSystem m) (cwd : Path) (print : Channel → Text → m Unit)
    (layout : Text → Text) : Host m where
  cwd := Path.normalize cwd
  read p := do
    let bytes ← files.read p
    pure ((outcome (.read p) bytes).map fun bytes =>
      let (text, mark) := decode bytes
      ⟨text, mark⟩)
  write p t marked := do pure (outcome (.write p) (← files.write p (fileBytes t marked)))
  delete p := do pure (outcome (.delete p) (← files.delete p))
  fileExists := files.present
  directoryExists := files.isDirectory
  createDirectory p := do pure (outcome (.createDirectory p) (← files.ensureDirectory p))
  print := print
  layout := layout
  pathBound := files.pathBound

/-- The text of a file that spells one. -/
def readText (files : FileSystem m) (p : Path) : m (Except SystemError Text) := do
  match ← files.read p with
  | .error e => pure (.error e)
  | .ok bytes => pure ((Text.Utf8.strict? bytes).elim (.error .notUtf8) .ok)

end FileSystem

end BatchCompile
