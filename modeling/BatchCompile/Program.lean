import BatchCompile.CommandLine
import BatchCompile.Run

/-!
# The program

What the command line does in its surroundings: it loads the task, lays the options given over
it, compiles every group and ends with an exit status.
-/

namespace BatchCompile

structure Surroundings (m : Type → Type) where
  files : FileSystem m
  cwd : Path
  /-- The directory that the program lies in. -/
  home : Path
  print : Channel → Text → m Unit

def Surroundings.host {m : Type → Type} [Monad m] (s : Surroundings m) : Host m :=
  s.files.host s.cwd s.print consoleLayout

/-- A cause in a report: its lines set in, and a number in front of the first if there is one. -/
def causeLines (number : Option Nat) (cause : Text) : Text :=
  match number with
  | none => "    ".toList ++ Text.replaceAll "\n" "\n    " cause
  | some n =>
    List.replicate (5 - (Text.ofNat n).length) ' ' ++ Text.ofNat n ++ ": ".toList
      ++ Text.replaceAll "\n" "\n       " cause

def causesText : List Text → Text
  | [] => []
  | [cause] => "\nCaused by:\n".toList ++ causeLines none cause ++ ['\n']
  | causes =>
    "\nCaused by:\n".toList
      ++ causes.zipIdx.flatMap fun (cause, n) => causeLines (some n) cause ++ ['\n']

def Failure.report (f : Failure) : Text :=
  match f.chain with
  | [] => []
  | widest :: causes => "Error: ".toList ++ widest ++ '\n' :: causesText causes

def Options.load {m : Type → Type} [Monad m] (files : FileSystem m) (p : Path) :
    m (Except Failure Options) := do
  let document ← files.readText p
  pure do
    attempting (.parseOptionsOf p)
      (Options.parse (← FileSystem.outcome (.readOptions p) document))

def Task.load {m : Type → Type} [Monad m] (files : FileSystem m) (p : Path) :
    m (Except Failure Task) := do
  let document ← files.readText p
  pure do
    attempting (.inTask p) (Task.parse (← FileSystem.outcome (.readTask p) document))

/-- What a command line asks for: its options laid over those of a task, and its files as one
more group. -/
def Task.with (task : Task) (a : Arguments) : Task where
  options := task.options.merge a.options
  groups := task.groups ++ if a.files = [] then [] else [⟨a.files, a.dest⟩]

variable {m : Type → Type} [Monad m]

def loadTask (files : FileSystem m) (a : Arguments) : m (Except Failure Task) := do
  let base ← match a.task with
    | none => pure (.ok .empty)
    | some p => Task.load files p
  pure do
    let task := (← base).with a
    if task.groups = [] then .error (.of .noInput) else .ok task

def carryOut (s : Surroundings m) (a : Arguments) : m Nat := do
  match ← loadTask s.files a with
  | .error f =>
    s.print .error f.report
    pure 1
  | .ok task =>
    let succeeded ← runTask s.host (a.libDir.getD s.home) task.options task.groups
    pure (if succeeded then 0 else 1)

/-- Reads and carries out a command line; the exit status. -/
def program (s : Surroundings m) (commandLine : List Text) : m (Except UsageError Nat) :=
  match Arguments.read commandLine with
  | .error e => pure (.error e)
  | .ok a => do pure (.ok (← carryOut s a))

end BatchCompile
