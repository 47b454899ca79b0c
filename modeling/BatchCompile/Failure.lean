import BatchCompile.Json.Fault
import BatchCompile.Path.Basic

/-!
# Failures

A `Failure` is a cause and what was being attempted when it arose, the widest attempt first.
`Failure.message` says all of it on one line.
-/

namespace BatchCompile

inductive SystemError where
  | notFound
  | fileExists
  | notDirectory
  | isDirectory
  | nameTooLong
  /-- A name holds a character that ends it. -/
  | nameEnded
  | notUtf8
  | other (number : Nat) (description : Text)
  deriving DecidableEq, Repr

namespace SystemError

def numbered (description : Text) (number : Nat) : Text :=
  description ++ " (os error ".toList ++ Text.ofNat number ++ [')']

def ofNumber (number : Nat) (description : Text) : SystemError :=
  match number with
  | 2 => notFound
  | 13 => other 13 "Permission denied"
  | 17 => fileExists
  | 20 => notDirectory
  | 21 => isDirectory
  | 36 => nameTooLong
  | _ => other number description

def text : SystemError → Text
  | notFound => numbered "No such file or directory" 2
  | fileExists => numbered "File exists" 17
  | notDirectory => numbered "Not a directory" 20
  | isDirectory => numbered "Is a directory" 21
  | nameTooLong => numbered "File name too long" 36
  | nameEnded => "file name contained an unexpected NUL byte"
  | notUtf8 => "stream did not contain valid UTF-8"
  | other number description => numbered description number

end SystemError

/-- Why a tree of files kept in memory refuses. -/
inductive Refusal where
  | permissionDenied (p : Path)
  | noSuchFile (p : Path)
  | noSuchDirectory (p : Path)
  | isDirectory (p : Path)
  | fileExists (p : Path)
  deriving DecidableEq, Repr

def Refusal.text : Refusal → Text
  | permissionDenied p => "permission denied: ".toList ++ p
  | noSuchFile p => "no such file: ".toList ++ p
  | noSuchDirectory p => "no such directory: ".toList ++ p
  | isDirectory p => "is a directory: ".toList ++ p
  | fileExists p => "file exists: ".toList ++ p

inductive Cause where
  | system (error : SystemError)
  | refused (refusal : Refusal)
  | badDocument (report : Json.Report)
  | outsideBasePath (file base : Path)
  | notDirectory (p : Path)
  | noSources
  | sourceNotString
  | noInput
  deriving DecidableEq, Repr

def Cause.text : Cause → Text
  | system error => error.text
  | refused refusal => refusal.text
  | badDocument report => report.text
  | outsideBasePath file base =>
    file ++ " is not under base path '".toList ++ base ++ ['\'']
  | notDirectory p => '"' :: p ++ "\" exists but isn't a directory".toList
  | noSources => "source map has no sources list"
  | sourceNotString => "source map source is not a string"
  | noInput => "no input files; pass source files or --task <file>"

inductive Attempt where
  | parseOptions
  | parseOptionsOf (p : Path)
  | readOptions (p : Path)
  | parseTask
  | inTask (p : Path)
  | readTask (p : Path)
  | parseMap
  | read (p : Path)
  | write (p : Path)
  | delete (p : Path)
  | createDirectory (p : Path)
  deriving DecidableEq, Repr

def Attempt.text : Attempt → Text
  | parseOptions => "failed to parse task options"
  | parseOptionsOf p => "failed to parse task options ".toList ++ p
  | readOptions p => "failed to read task options ".toList ++ p
  | parseTask => "failed to parse task file"
  | inTask p => "in task file ".toList ++ p
  | readTask p => "failed to read task file ".toList ++ p
  | parseMap => "failed to parse source map"
  | read p => "failed to read ".toList ++ p
  | write p => "failed to write ".toList ++ p
  | delete p => "failed to delete ".toList ++ p
  | createDirectory p => "failed to create directory ".toList ++ p

/-- A cause and the attempts it spoiled, the widest first. -/
structure Failure where
  attempts : List Attempt
  cause : Cause
  deriving DecidableEq, Repr

namespace Failure

def of (cause : Cause) : Failure :=
  ⟨[], cause⟩

/-- The attempts and the cause in words, the widest first. -/
def chain (f : Failure) : List Text :=
  f.attempts.map Attempt.text ++ [f.cause.text]

/-- The whole failure on one line. -/
def message (f : Failure) : Text :=
  Text.join ": " f.chain

end Failure

def attempting {α : Type} (attempt : Attempt) : Except Failure α → Except Failure α
  | .ok a => .ok a
  | .error f => .error { f with attempts := attempt :: f.attempts }

/-- A cause as a failure within an attempt. -/
def failing {α : Type} (attempt : Attempt) (cause : Cause) : Except Failure α :=
  .error ⟨[attempt], cause⟩

end BatchCompile
