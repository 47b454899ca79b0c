import BatchCompile.Encoding
import BatchCompile.Json.Fault

/-!
# Reading documents

`value` reads one value, with a bound on how many containers may stand within each other.
`Value.read` reads a whole document.
-/

namespace BatchCompile.Json

/-! ## Strings

`stringTail` reads the characters of a string up to its closing quote. An escape with a code is
one 16-bit unit, and two of them spell a character above U+FFFF.
-/

def hexValue? (c : Char) : Option Nat :=
  if c.isDigit then some (c.toNat - '0'.toNat)
  else if 'a' ≤ c ∧ c ≤ 'f' then some (c.toNat - 'a'.toNat + 10)
  else if 'A' ≤ c ∧ c ≤ 'F' then some (c.toNat - 'A'.toNat + 10)
  else none

def hexUnit? (a b c d : Char) : Option UInt16 := do
  let a ← hexValue? a
  let b ← hexValue? b
  let c ← hexValue? c
  let d ← hexValue? d
  pure (UInt16.ofNat (((a * 16 + b) * 16 + c) * 16 + d))

/-- Four bytes that are not four hexadecimal digits. -/
def badUnit (t : Text) : Fault :=
  if Text.byteLength t < 4 then .before [] .stringNotEnded else ⟨.badEscape, t, some 4⟩

def codeUnit (t : Text) : Except Fault (UInt16 × Text) :=
  match t with
  | a :: b :: c :: d :: rest =>
    match hexUnit? a b c d with
    | some unit => .ok (unit, rest)
    | none => .error (badUnit t)
  | _ => .error (badUnit t)

/-- Eats a character between the two units of a pair. -/
def withinPair (expected : Char) (t : Text) : Except Fault Text :=
  match t with
  | [] => .error (.before [] .stringNotEnded)
  | c :: rest => if c = expected then .ok rest else .error (.onNext t .pairNotEnded)

def codedChar (t : Text) : Except Fault (Char × Text) := do
  let (unit, rest) ← codeUnit t
  if Text.Utf16.isLow unit then .error (.before rest .loneHalf)
  else if Text.Utf16.isHigh unit then
    let (low, rest) ← codeUnit (← withinPair 'u' (← withinPair '\\' rest))
    if Text.Utf16.isLow low then .ok (Text.Utf16.ofPair unit low, rest)
    else .error (.before rest .loneHalf)
  else .ok (Char.ofNat unit.toNat, rest)

def escapeLetter? (c : Char) : Option Char :=
  match c with
  | '"' => some '"'
  | '\\' => some '\\'
  | '/' => some '/'
  | 'b' => some '\x08'
  | 'f' => some '\x0C'
  | 'n' => some '\n'
  | 'r' => some '\r'
  | 't' => some '\t'
  | _ => none

def escapedChar (t : Text) : Except Fault (Char × Text) :=
  match t with
  | [] => .error (.before [] .stringNotEnded)
  | c :: rest =>
    if c = 'u' then codedChar rest
    else
      match escapeLetter? c with
      | some meant => .ok (meant, rest)
      | none => .error (.onNext t .badEscape)

/-- One character of a string, or its closing quote. -/
def stringChar (t : Text) : Except Fault (Option Char × Text) :=
  match t with
  | [] => .error (.before [] .stringNotEnded)
  | c :: rest =>
    if c = '"' then .ok (none, rest)
    else if c = '\\' then (escapedChar rest).map fun (meant, after) => (some meant, after)
    else if c.toNat < 0x20 then .error (.onNext t .controlCharacter)
    else .ok (some c, rest)

/-- `stringTail`, with a bound on the number of characters. -/
def stringFrom : Nat → Text → Text → Except Fault (Text × Text)
  | 0, _, t => .error (.before t .stringNotEnded)
  | bound + 1, read, t => do
    match ← stringChar t with
    | (none, rest) => .ok (read.reverse, rest)
    | (some c, rest) => stringFrom bound (c :: read) rest

/-- The characters of a string after its opening quote. Each takes at least one character of the
text, so the bound is never reached. -/
def stringTail (t : Text) : Except Fault (Text × Text) :=
  stringFrom (t.length + 1) [] t

/-- Passes over one character of a string that nobody reads: an escape needs a letter or four
digits, and units need not pair. Whether the string goes on. -/
def passChar (t : Text) : Except Fault (Bool × Text) :=
  match t with
  | [] => .error (.before [] .stringNotEnded)
  | c :: rest =>
    if c = '"' then .ok (false, rest)
    else if c = '\\' then
      match rest with
      | [] => .error (.before [] .stringNotEnded)
      | letter :: after =>
        if letter = 'u' then (codeUnit after).map fun (_, after) => (true, after)
        else if (escapeLetter? letter).isSome then .ok (true, after)
        else .error (.onNext rest .badEscape)
    else if c.toNat < 0x20 then .error (.before t .controlCharacter)
    else .ok (true, rest)

def passStringFrom : Nat → Text → Except Fault Text
  | 0, t => .error (.before t .stringNotEnded)
  | bound + 1, t => do
    match ← passChar t with
    | (false, rest) => .ok rest
    | (true, rest) => passStringFrom bound rest

def passString (t : Text) : Except Fault Text :=
  passStringFrom (t.length + 1) t

/-! ## Numbers

The first digits that fit in 64 bits are the significand of a number. An integer that has no
others stays an integer; any other number is its significand in binary64, multiplied or divided
once by the power of ten that is left. A significand divided by more than `10 ^ 308` is divided
in steps.
-/

def maxSignificand : Nat := Nat.pow 2 64 - 1

/-- The greatest exponent that is written out. -/
def maxExponent : Nat := Nat.pow 2 31 - 1

/-- Appends digits to `n` while the result stays within `limit`: the result, how many digits it
took, and what is left. -/
def takeDigits (limit n count : Nat) : Text → Nat × Nat × Text
  | [] => (n, count, [])
  | c :: rest =>
    if c.isDigit then
      let more := n * 10 + (c.toNat - '0'.toNat)
      if limit < more then (n, count, c :: rest) else takeDigits limit more (count + 1) rest
    else (n, count, c :: rest)

def digitNext (t : Text) : Bool :=
  t.head?.any Char.isDigit

def exponentMark? : Text → Option Text
  | 'e' :: rest => some rest
  | 'E' :: rest => some rest
  | _ => none

def tenTo (exponent : Nat) : Float :=
  Float.ofScientific 1 false exponent

def divideByTen (f : Float) (exponent : Nat) : Float :=
  if exponent ≤ 308 then f / tenTo exponent
  else if f == 0 then f
  else divideByTen (f / tenTo 308) (exponent - 308)
  termination_by exponent
  decreasing_by omega

/-- The binary64 number of a significand and a power of ten, unless it is too large. -/
def ofParts? (significand : Nat) (exponent : Int) : Option Float :=
  let f := significand.toUInt64.toFloat
  if exponent < 0 then some (divideByTen f exponent.natAbs)
  else if exponent ≤ 308 then
    let product := f * tenTo exponent.toNat
    if product.isInf then none else some product
  else if f == 0 then some f
  else none

def signed (positive : Bool) (f : Float) : Number :=
  .float (if positive then f else -f).toBits

/-- The number of a significand and a power of ten, read up to `rest`. -/
def fromParts (positive : Bool) (significand : Nat) (exponent : Int) (rest : Text) :
    Except Fault (Number × Text) :=
  match ofParts? significand exponent with
  | some f => .ok (signed positive f, rest)
  | none => .error (.before rest .numberTooLarge)

def exponentSign : Text → Bool × Text
  | '+' :: rest => (true, rest)
  | '-' :: rest => (false, rest)
  | rest => (true, rest)

def fromExponent (positive : Bool) (significand : Nat) (shift : Int) (t : Text) :
    Except Fault (Number × Text) :=
  let (upward, t) := exponentSign t
  match t with
  | [] => .error (.before [] .valueMissing)
  | c :: _ =>
    if !c.isDigit then .error (.onNext t .badNumber)
    else
      let (exponent, _, rest) := takeDigits maxExponent 0 0 t
      if digitNext rest then
        if significand ≠ 0 && upward then .error (.onNext rest .numberTooLarge)
        else .ok (signed positive 0, rest.dropWhile Char.isDigit)
      else
        let exponent : Int := exponent
        fromParts positive significand (if upward then shift + exponent else shift - exponent) rest

def fromFraction (positive : Bool) (significand : Nat) (shift : Int) (t : Text) :
    Except Fault (Number × Text) :=
  let (significand, count, rest) := takeDigits maxSignificand significand 0 t
  if count = 0 ∧ !digitNext rest then
    match rest with
    | [] => .error (.onNext [] .valueMissing)
    | _ => .error (.onNext rest .badNumber)
  else
    let rest := rest.dropWhile Char.isDigit
    let shift := shift - count
    match exponentMark? rest with
    | some rest => fromExponent positive significand shift rest
    | none => fromParts positive significand shift rest

/-- An integer of 64 bits with its sign; one that does not fit, and a negative zero, are
binary64. -/
def whole (positive : Bool) (n : Nat) : Number :=
  if positive then .integer n
  else if n ≠ 0 ∧ n ≤ Nat.pow 2 63 then .integer (-n)
  else signed false n.toUInt64.toFloat

def number (positive : Bool) (t : Text) : Except Fault (Number × Text) :=
  match t with
  | [] => .error (.before [] .valueMissing)
  | c :: after =>
    if !c.isDigit then .error (.onNext t .badNumber)
    else if c = '0' && digitNext after then .error (.onNext after .badNumber)
    else
      let (significand, _, rest) := takeDigits maxSignificand 0 0 t
      let more := rest.takeWhile Char.isDigit
      let rest := rest.drop more.length
      match rest with
      | '.' :: fraction => fromFraction positive significand more.length fraction
      | _ =>
        match exponentMark? rest with
        | some exponent => fromExponent positive significand more.length exponent
        | none =>
          if more.isEmpty then .ok (whole positive significand, rest)
          else fromParts positive significand more.length rest

def passDigits (rest : Text) (fault : Fault) : Except Fault Text :=
  if digitNext rest then .ok (rest.dropWhile Char.isDigit) else .error fault

def passExponent (t : Text) : Except Fault Text :=
  match exponentMark? t with
  | none => .ok t
  | some rest =>
    let rest := match rest with
      | '+' :: after => after
      | '-' :: after => after
      | rest => rest
    passDigits rest (.onNext rest .badNumber)

/-- Passes over a number that nobody reads, after its sign. -/
def passNumber (t : Text) : Except Fault Text :=
  match t with
  | [] => .error (.before [] .badNumber)
  | c :: after =>
    if !c.isDigit then .error (.onNext t .badNumber)
    else if c = '0' && digitNext after then .error (.onNext after .badNumber)
    else
      match t.dropWhile Char.isDigit with
      | '.' :: fraction => do passExponent (← passDigits fraction (.onNext fraction .badNumber))
      | rest => passExponent rest

/-! ## Values -/

/-- A value that is no container; the text does not start with a blank. -/
def scalar (t : Text) : Except Fault (Value × Text) :=
  match t with
  | [] => .error (.onNext [] .valueMissing)
  | 'n' :: rest => do pure (.null, ← word "ull" rest)
  | 't' :: rest => do pure (.bool true, ← word "rue" rest)
  | 'f' :: rest => do pure (.bool false, ← word "alse" rest)
  | '"' :: rest => do
    let (t, rest) ← stringTail rest
    pure (.string t, rest)
  | '-' :: rest => do
    let (n, rest) ← number false rest
    pure (.number n, rest)
  | c :: _ =>
    if c.isDigit then do
      let (n, rest) ← number true t
      pure (.number n, rest)
    else .error (.onNext t .valueExpected)

def itemsFrom {α : Type} (item : Text → Except Fault (α × Text)) :
    Nat → Bool → Text → Except Fault (List α × Text)
  | 0, _, t => .error (.before t .listNotEnded)
  | bound + 1, first, t => do
    match ← nextItem first t with
    | none => .ok ([], t)
    | some t =>
      let (a, rest) ← item t
      let (more, rest) ← itemsFrom item bound false rest
      .ok (a :: more, rest)

/-- The items of a list up to its end. Each takes at least one character, so the bound is never
reached. -/
def items {α : Type} (item : Text → Except Fault (α × Text)) (t : Text) :
    Except Fault (List α × Text) :=
  itemsFrom item (t.length + 1) true t

/-- The members of an object, as many as `bound` allows, on top of those read before. -/
def membersFrom (value : Text → Except Fault (Value × Text)) :
    Nat → Bool → List (Text × Value) → Text → Except Fault (List (Text × Value) × Text)
  | 0, _, _, t => .error (.before t .objectNotEnded)
  | bound + 1, first, members, t => do
    match ← nextName first t with
    | none => .ok (members, t)
    | some t =>
      let (name, rest) ← stringTail t
      let (v, rest) ← value (← colon rest)
      membersFrom value bound false (setMember name v members) rest

def members (value : Text → Except Fault (Value × Text)) (t : Text) :
    Except Fault (List (Text × Value) × Text) :=
  membersFrom value (t.length + 1) true [] t

/-- A value in which at most `room` containers stand within each other. -/
def value (room : Nat) (t : Text) : Except Fault (Value × Text) :=
  match skipBlanks t with
  | '[' :: rest =>
    match room with
    | 0 => .error (.onNext ('[' :: rest) .tooDeep)
    | inner + 1 => do
      let (list, rest) ← close endList (items (value inner) rest)
      pure (.array list, rest)
  | '\x7b' :: rest =>
    match room with
    | 0 => .error (.onNext ('\x7b' :: rest) .tooDeep)
    | inner + 1 => do
      let (list, rest) ← close endObject (members (value inner) rest)
      pure (.object list, rest)
  | rest => scalar rest

/-- How many containers may stand within each other. -/
def maxDepth : Nat := 127

def readDocument {α : Type} (read : Text → Except Fault (α × Text)) (document : Text) :
    Except Report α :=
  match read document with
  | .error fault => .error (fault.report document)
  | .ok (a, rest) =>
    match skipBlanks rest with
    | [] => .ok a
    | rest => .error ((Fault.onNext rest .trailingCharacters).report document)

def Value.read (document : Text) : Except Report Value :=
  readDocument (value maxDepth) document

end BatchCompile.Json
