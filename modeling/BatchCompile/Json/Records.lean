import BatchCompile.Json.Read

/-!
# Records in documents

A record is an object whose names are known, or a list of its fields in order. Missing fields
keep their defaults, unknown names are passed over, and no name may come twice.
-/

namespace BatchCompile.Json

/-! ## Skipped values

A value under a name that nobody asked for is passed over. Containers may stand within each other
to any depth, so the open ones are kept in a list.
-/

inductive Open where
  | list
  | object
  deriving DecidableEq, Repr

namespace Open

/-- The text ends within the container. -/
def notEnded : Open → Problem
  | list => .listNotEnded
  | object => .objectNotEnded

/-- Neither a comma nor the end follows an item. -/
def commaExpected : Open → Problem
  | list => .listCommaExpected
  | object => .objectCommaExpected

def ender : Open → Char
  | list => ']'
  | object => '\x7d'

/-- Passes over the name that an item of the container starts with, if it has one. -/
def passName (o : Open) (t : Text) : Except Fault Text :=
  match o with
  | list => .ok t
  | object =>
    match skipBlanks t with
    | [] => .error (.onNext [] .objectNotEnded)
    | '"' :: rest => do colon (← passString rest)
    | rest => .error (.onNext rest .nameNotString)

end Open

/-- Passes over a value that is no container; the text does not start with a blank. -/
def passScalar (t : Text) : Except Fault Text :=
  match t with
  | [] => .error (.onNext [] .valueMissing)
  | 'n' :: rest => word "ull" rest
  | 't' :: rest => word "rue" rest
  | 'f' :: rest => word "alse" rest
  | '"' :: rest => passString rest
  | '-' :: rest => passNumber rest
  | c :: _ => if c.isDigit then passNumber t else .error (.onNext t .valueExpected)

mutual

/-- Passes over a value within open containers, and over what is left of those. -/
def passValue : Nat → List Open → Text → Except Fault Text
  | 0, _, t => .error (.before t .valueMissing)
  | bound + 1, within, t =>
    match skipBlanks t with
    | '[' :: rest => passItems bound false (.list :: within) rest
    | '\x7b' :: rest => passItems bound false (.object :: within) rest
    | rest => do passItems bound true within (← passScalar rest)

/-- Passes over what is left of open containers; `after` says that an item has just ended. -/
def passItems : Nat → Bool → List Open → Text → Except Fault Text
  | 0, _, _, t => .error (.before t .valueMissing)
  | _, _, [], t => .ok t
  | bound + 1, after, o :: within, t =>
    match skipBlanks t with
    | [] => .error (.onNext [] o.notEnded)
    | c :: rest =>
      if after && c = ',' then do passValue bound (o :: within) (← o.passName rest)
      else if c = o.ender then passItems bound true within rest
      else if after then .error (.onNext (c :: rest) o.commaExpected)
      else do passValue bound (o :: within) (← o.passName (c :: rest))

end

/-- Passes over a value. Every other step takes a character of the text, so the bound is never
reached. -/
def skipValue (t : Text) : Except Fault Text :=
  passValue (2 * t.length + 2) [] t

/-! ## Records -/

/-- What a value that is no container shows itself to be; its text is eaten. -/
def found (t : Text) : Except Fault (Found × Text) :=
  match t with
  | '[' :: _ => .ok (.sequence, t)
  | '\x7b' :: _ => .ok (.map, t)
  | _ => do
    let (v, rest) ← scalar t
    match v with
    | .bool b => pure (.bool b, rest)
    | .number n => pure (.number n, rest)
    | .string s => pure (.string s, rest)
    | _ => pure (.null, rest)

def wrongType {α : Type} (expected t : Text) : Except Fault (α × Text) := do
  let (given, rest) ← found t
  .error (.before rest (.wrongType given expected))

def string (t : Text) : Except Fault (Text × Text) :=
  match skipBlanks t with
  | [] => .error (.onNext [] .valueMissing)
  | '"' :: rest => stringTail rest
  | rest => wrongType "a string" rest

def list {α : Type} (item : Nat → Text → Except Fault (α × Text)) (room : Nat) (t : Text) :
    Except Fault (List α × Text) :=
  match skipBlanks t with
  | [] => .error (.onNext [] .valueMissing)
  | '[' :: rest =>
    match room with
    | 0 => .error (.onNext ('[' :: rest) .tooDeep)
    | inner + 1 => close endList (items (item inner) rest)
  | rest => wrongType "a sequence" rest

def optional {α : Type} (read : Text → Except Fault (α × Text)) (t : Text) :
    Except Fault (Option α × Text) :=
  match skipBlanks t with
  | 'n' :: rest => do pure (none, ← word "ull" rest)
  | t => (read t).map fun (a, rest) => (some a, rest)

/-- A field of a record: its name, other names it goes by, and how its value is read into the
record. -/
structure Field (σ : Type) where
  name : Text
  aliases : List Text
  read : Nat → Text → σ → Except Fault (σ × Text)

namespace Field

def answersTo {σ : Type} (f : Field σ) (name : Text) : Bool :=
  name = f.name || f.aliases.contains name

def of {σ α : Type} (name : Text) (aliases : List Text)
    (read : Nat → Text → Except Fault (α × Text)) (set : α → σ → σ) : Field σ where
  name := name
  aliases := aliases
  read := fun room t record => (read room t).map fun (a, rest) => (set a record, rest)

end Field

/-- The fields of a record in order, from a list. -/
def inOrder {σ : Type} (room : Nat) :
    List (Field σ) → Bool → σ → Text → Except Fault (σ × Text)
  | [], _, record, t => .ok (record, t)
  | field :: fields, first, record, t => do
    match ← nextItem first t with
    | none => .ok (record, t)
    | some t =>
      let (record, rest) ← field.read room t record
      inOrder room fields false record rest

/-- The fields of a record by name, as many as `bound` allows; `seen` are the names that came. -/
def byName {σ : Type} (fields : List (Field σ)) (room : Nat) :
    Nat → Bool → List Text → σ → Text → Except Fault (σ × Text)
  | 0, _, _, _, t => .error (.before t .objectNotEnded)
  | bound + 1, first, seen, record, t => do
    match ← nextName first t with
    | none => .ok (record, t)
    | some t =>
      let (name, rest) ← stringTail t
      match fields.find? (·.answersTo name) with
      | none => byName fields room bound false seen record (← skipValue (← colon rest))
      | some field =>
        if seen.contains field.name then .error (.unplaced rest (.fieldTwice field.name))
        else
          let (record, rest) ← field.read room (← colon rest) record
          byName fields room bound false (field.name :: seen) record rest

/-- A record. `expected` is what it is called, and `start` has the defaults. -/
def record {σ : Type} (expected : Text) (fields : List (Field σ)) (start : σ) (room : Nat)
    (t : Text) : Except Fault (σ × Text) :=
  match skipBlanks t with
  | [] => .error (.onNext [] .valueMissing)
  | '[' :: rest =>
    match room with
    | 0 => .error (.onNext ('[' :: rest) .tooDeep)
    | inner + 1 => close endList (inOrder inner fields true start rest)
  | '\x7b' :: rest =>
    match room with
    | 0 => .error (.onNext ('\x7b' :: rest) .tooDeep)
    | inner + 1 => close endObject (byName fields inner (rest.length + 1) true [] start rest)
  | rest => wrongType expected rest

end BatchCompile.Json
