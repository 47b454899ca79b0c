import BatchCompile.Path.Basic

/-!
# Diagnostics

A diagnostic is what is reported about a file. Most come from a `Message` whose numbered places
are filled in by `fill`, and `Diagnostic.shown` is the line a user reads.
-/

namespace BatchCompile

inductive Category where
  | warning
  | error
  | suggestion
  | message
  deriving DecidableEq, Repr, Inhabited

def Category.number : Category → Nat
  | warning => 0
  | error => 1
  | suggestion => 2
  | message => 3

/-- A message with places for its arguments. -/
structure Message where
  code : Nat
  category : Category
  template : Text
  deriving DecidableEq, Repr

namespace Message

def commentNotClosed : Message := ⟨1010, .error, "'*/' expected."⟩

def notEmitted : Message := ⟨5033, .error, "Emit Error: \x7b0\x7d."⟩

def fileNotFound : Message := ⟨6053, .error, "File '\x7b0\x7d' not found."⟩

end Message

def placeholder (number : Nat) : Text :=
  '\x7b' :: Text.ofNat number ++ ['\x7d']

/-- Fills in one argument after the other, from argument `number` on. -/
def fillFrom (number : Nat) (template : Text) : List Text → Text
  | [] => template
  | argument :: rest =>
    fillFrom (number + 1) (Text.replaceAll (placeholder number) argument template) rest

/-- The template with its places filled in. Each argument goes into the text that the arguments
before it have made. -/
def fill (template : Text) (arguments : List Text) : Text :=
  fillFrom 0 template arguments

/-- Something reported, with its place if it has one. Lines and characters count from zero. -/
structure Diagnostic where
  file : Option Path
  line : Option Nat
  character : Option Nat
  category : Category
  code : Nat
  text : Text
  deriving DecidableEq, Repr

namespace Diagnostic

def ofMessage (file : Option Path) (message : Message) (arguments : List Text) : Diagnostic :=
  ⟨file, none, none, message.category, message.code, fill message.template arguments⟩

def placed (d : Diagnostic) (line character : Nat) : Diagnostic :=
  { d with line := some line, character := some character }

def isError (d : Diagnostic) : Bool :=
  d.category == .error

/-- The line shown to a user: file, place counted from one, and text. -/
def shown (d : Diagnostic) : Text :=
  match d.file with
  | none => d.text
  | some file =>
    file ++ '(' :: Text.ofNat (d.line.getD 0 + 1) ++ ',' :: Text.ofNat (d.character.getD 0 + 1)
      ++ "): ".toList ++ d.text

/-- A number counted from one, of one counted from zero; what has no number counts as the first. -/
inductive FromOne : Option Nat → Nat → Prop where
  | known (n : Nat) : FromOne (some n) (n + 1)
  | unknown : FromOne none 1

/-- What is shown of a diagnostic: its text alone, or after the file and the place in it. -/
inductive Shows (d : Diagnostic) : Text → Prop where
  | alone : d.file = none → Shows d d.text
  | at {file : Path} {line character : Nat} :
      d.file = some file → FromOne d.line line → FromOne d.character character →
      Shows d (file ++ '(' :: Nat.toDigits 10 line ++ ',' :: Nat.toDigits 10 character
        ++ "): ".toList ++ d.text)

theorem fromOne_iff {n : Option Nat} {k : Nat} : FromOne n k ↔ k = n.getD 0 + 1 := by
  constructor
  · rintro (⟨n⟩ | _) <;> rfl
  · rintro rfl
    cases n with
    | none => exact .unknown
    | some n => exact .known n

theorem shows_iff {d : Diagnostic} {t : Text} : d.Shows t ↔ t = d.shown := by
  constructor
  · rintro (hfile | ⟨hfile, hline, hcharacter⟩)
    · rw [shown, hfile]
    · rw [shown, hfile, fromOne_iff.1 hline, fromOne_iff.1 hcharacter]
      rfl
  · rintro rfl
    cases hfile : d.file with
    | none =>
      rw [shown, hfile]
      exact .alone hfile
    | some file =>
      rw [shown, hfile]
      exact .at hfile (fromOne_iff.2 rfl) (fromOne_iff.2 rfl)

end Diagnostic

end BatchCompile
