import BatchCompile.Json.Value
import BatchCompile.Text.Quoted

/-!
# Faults

A `Fault` is what a reader found wrong and where it stood. `Fault.report` counts the place in
lines and bytes and gives the `Report` that a user sees.
-/

namespace BatchCompile.Json

/-- What stands where something else is expected. -/
inductive Found where
  | null
  | bool (b : Bool)
  | number (n : Number)
  | string (t : Text)
  | sequence
  | map
  deriving DecidableEq, Repr

def Found.text : Found → Text
  | null => "null"
  | bool true => "boolean `true`"
  | bool false => "boolean `false`"
  | number (.integer n) => "integer `".toList ++ Text.ofInt n ++ "`".toList
  | number (.float bits) => "floating point `".toList ++ floatText bits ++ "`".toList
  | string t => "string ".toList ++ Text.quoted t
  | sequence => "sequence"
  | map => "map"

inductive Problem where
  | listNotEnded
  | objectNotEnded
  | stringNotEnded
  | valueMissing
  | colonExpected
  | listCommaExpected
  | objectCommaExpected
  | unknownWord
  | valueExpected
  | badEscape
  | badNumber
  | numberTooLarge
  | controlCharacter
  | nameNotString
  | loneHalf
  | pairNotEnded
  | trailingComma
  | trailingCharacters
  | tooDeep
  | wrongType (found : Found) (expected : Text)
  | fieldTwice (name : Text)
  | notFlag
  | badFlag (given : Text)
  deriving DecidableEq, Repr

def Problem.text : Problem → Text
  | listNotEnded => "EOF while parsing a list"
  | objectNotEnded => "EOF while parsing an object"
  | stringNotEnded => "EOF while parsing a string"
  | valueMissing => "EOF while parsing a value"
  | colonExpected => "expected `:`"
  | listCommaExpected => "expected `,` or `]`"
  | objectCommaExpected => "expected `,` or `\x7d`"
  | unknownWord => "expected ident"
  | valueExpected => "expected value"
  | badEscape => "invalid escape"
  | badNumber => "invalid number"
  | numberTooLarge => "number out of range"
  | controlCharacter => "control character (\\u0000-\\u001F) found while parsing a string"
  | nameNotString => "key must be a string"
  | loneHalf => "lone leading surrogate in hex escape"
  | pairNotEnded => "unexpected end of hex escape"
  | trailingComma => "trailing comma"
  | trailingCharacters => "trailing characters"
  | tooDeep => "recursion limit exceeded"
  | wrongType found expected =>
    "invalid type: ".toList ++ found.text ++ ", expected ".toList ++ expected
  | fieldTwice name => "duplicate field `".toList ++ name ++ "`".toList
  | notFlag => "data did not match any variant of untagged enum BoolOrString"
  | badFlag given =>
    "invalid boolean value: '".toList ++ given
      ++ "'. Expected true, false, 'true', or 'false'".toList

/-- A problem and the text that was left when it was found. The place lies `past` bytes further
on; a fault whose place is not known yet gets it where the container around it ends. -/
structure Fault where
  problem : Problem
  rest : Text
  past : Option Nat
  deriving DecidableEq, Repr

namespace Fault

def before (rest : Text) (problem : Problem) : Fault :=
  ⟨problem, rest, some 0⟩

def onNext (rest : Text) (problem : Problem) : Fault :=
  ⟨problem, rest, some 1⟩

def unplaced (rest : Text) (problem : Problem) : Fault :=
  ⟨problem, rest, none⟩

end Fault

/-- Line, from one, and column, in bytes from the start of the line. -/
structure Place where
  line : Nat
  column : Nat
  deriving DecidableEq, Repr

/-- The place behind the first `bytes` bytes of a text. -/
def placeAfter (bytes : Nat) (t : Text) : Place :=
  let (_, line, start) := t.foldl
    (fun (offset, line, start) c =>
      let next := offset + c.utf8Size
      if c = '\n' ∧ offset < bytes then (next, line + 1, next) else (next, line, start))
    (0, 1, 0)
  ⟨line, bytes - start⟩

structure Report where
  problem : Problem
  place : Place
  deriving DecidableEq, Repr

def Report.text (r : Report) : Text :=
  r.problem.text ++ " at line ".toList ++ Text.ofNat r.place.line ++ " column ".toList
    ++ Text.ofNat r.place.column

def Fault.report (document : Text) (f : Fault) : Report :=
  let size := Text.byteLength document
  let bytes := size - Text.byteLength f.rest + f.past.getD 0
  ⟨f.problem, placeAfter (min size bytes) document⟩

/-- The text from the next character that is not blank between tokens. -/
def skipBlanks (t : Text) : Text :=
  t.dropWhile fun c => c = ' ' || c = '\n' || c = '\t' || c = '\r'

def word : Text → Text → Except Fault Text
  | [], t => .ok t
  | _ :: _, [] => .error (.before [] .valueMissing)
  | expected :: more, c :: rest =>
    if c = expected then word more rest else .error (.onNext (c :: rest) .unknownWord)

/-- How the end of a container is tried: what is wrong, if anything, and what is left then. -/
abbrev Ending := Text → Option Problem × Text

def endList : Ending := fun t =>
  match skipBlanks t with
  | [] => (some .listNotEnded, [])
  | ']' :: rest => (none, rest)
  | ',' :: rest =>
    match skipBlanks rest with
    | ']' :: after => (some .trailingComma, ']' :: after)
    | rest => (some .trailingCharacters, rest)
  | rest => (some .trailingCharacters, rest)

def endObject : Ending := fun t =>
  match skipBlanks t with
  | [] => (some .objectNotEnded, [])
  | '\x7d' :: rest => (none, rest)
  | ',' :: rest => (some .trailingComma, ',' :: rest)
  | rest => (some .trailingCharacters, rest)

/-- Ends a container, also one in which a fault was found; a fault that has no place yet gets
the one reached. -/
def close {α : Type} (ending : Ending) : Except Fault (α × Text) → Except Fault (α × Text)
  | .ok (a, t) =>
    match ending t with
    | (none, rest) => .ok (a, rest)
    | (some problem, rest) => .error (.onNext rest problem)
  | .error fault =>
    match fault.past with
    | some _ => .error fault
    | none => .error (.before (ending fault.rest).2 fault.problem)

/-- The next item of a list, if there is one. -/
def nextItem (first : Bool) (t : Text) : Except Fault (Option Text) :=
  match skipBlanks t with
  | [] => .error (.onNext [] .listNotEnded)
  | ']' :: _ => .ok none
  | c :: rest =>
    if first then .ok (some (c :: rest))
    else if c = ',' then
      match skipBlanks rest with
      | [] => .error (.onNext [] .valueMissing)
      | ']' :: after => .error (.onNext (']' :: after) .trailingComma)
      | rest => .ok (some rest)
    else .error (.onNext (c :: rest) .listCommaExpected)

/-- What follows the quote that opens the next name of an object, if there is one. -/
def nextName (first : Bool) (t : Text) : Except Fault (Option Text) :=
  match skipBlanks t with
  | [] => .error (.onNext [] .objectNotEnded)
  | '\x7d' :: _ => .ok none
  | c :: rest =>
    if first then
      if c = '"' then .ok (some rest) else .error (.onNext (c :: rest) .nameNotString)
    else if c = ',' then
      match skipBlanks rest with
      | [] => .error (.onNext [] .valueMissing)
      | '"' :: after => .ok (some after)
      | '\x7d' :: after => .error (.onNext ('\x7d' :: after) .trailingComma)
      | rest => .error (.onNext rest .nameNotString)
    else .error (.onNext (c :: rest) .objectCommaExpected)

def colon (t : Text) : Except Fault Text :=
  match skipBlanks t with
  | [] => .error (.onNext [] .objectNotEnded)
  | ':' :: rest => .ok rest
  | rest => .error (.onNext rest .colonExpected)

end BatchCompile.Json
