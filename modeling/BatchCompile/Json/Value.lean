import BatchCompile.Text.Basic

/-!
# Values of documents

A value of a document. An integer of 64 bits stays an integer; every other number is binary64,
kept as its 64 bits. The members of an object keep the order in which their names first came.
`Value.text` writes a value without blanks, its numbers in the fewest digits that read back.
-/

namespace BatchCompile

/-! ## Shortest decimals

Many decimals round to one binary number. `shortest` finds the one with the fewest digits, of
those the nearest, and of two equally near the even one. It tries grids of powers of ten from the
coarsest down: the first grid with a point that rounds to the number has the fewest digits.
-/

/-- A decimal `digits · 10 ^ exponent`. -/
structure Decimal where
  digits : Nat
  exponent : Int
  deriving DecidableEq, Repr

namespace Decimal

/-- A positive binary number `significand · 2 ^ power`, and whether the number below it is only
half as far as the one above. -/
structure Binary where
  significand : Nat
  power : Int
  narrowBelow : Bool

/-- `n · base ^ e` as a quotient of natural numbers. -/
def scaled (n base : Nat) (e : Int) : Nat × Nat :=
  match e with
  | .ofNat k => (n * Nat.pow base k, 1)
  | .negSucc k => (n, Nat.pow base (k + 1))

/-- The number's neighbours on the grid of `10 ^ exponent`, and the nearer one that rounds to it. -/
def onGrid? (b : Binary) (exponent : Int) : Option Nat :=
  let (up, down) := scaled 1 2 (b.power - 2)
  let (gridUp, gridDown) := scaled 1 10 exponent
  -- In units of `1 / (down · gridDown)`: quarter steps of the number, and the grid.
  let quarter := up * gridDown
  let grid := gridUp * down
  let value := 4 * b.significand * quarter
  let least := (4 * b.significand - if b.narrowBelow then 1 else 2) * quarter
  let greatest := (4 * b.significand + 2) * quarter
  let rounds (point : Nat) : Bool :=
    if b.significand % 2 = 0 then least ≤ point && point ≤ greatest
    else least < point && point < greatest
  let below := value / grid
  let above := below + 1
  let under := value - below * grid
  let beyond := above * grid - value
  match rounds (below * grid), rounds (above * grid) with
  | false, false => none
  | true, false => some below
  | false, true => some above
  | true, true =>
    if under < beyond then some below
    else if beyond < under then some above
    else if below % 2 = 0 then some below else some above

/-- The decimal on the first grid that has one, from `10 ^ exponent` down. -/
def shortestFrom (b : Binary) : Nat → Int → Decimal
  | 0, exponent => ⟨0, exponent⟩
  | grids + 1, exponent =>
    match onGrid? b exponent with
    | some digits => ⟨digits, exponent⟩
    | none => shortestFrom b grids (exponent - 1)

/-- The shortest decimal that rounds to the number. The grids from `10 ^ 309` down to
`10 ^ (-325)` are enough for every number of 64 bits. -/
def shortest (b : Binary) : Decimal :=
  shortestFrom b 635 309

end Decimal

namespace Json

/-! ## Numbers -/

inductive Number where
  | integer (n : Int)
  | float (bits : UInt64)
  deriving DecidableEq, Repr, Inhabited

def isNegative (bits : UInt64) : Bool :=
  Nat.pow 2 63 ≤ bits.toNat

def exponentField (bits : UInt64) : Nat :=
  bits.toNat / Nat.pow 2 52 % Nat.pow 2 11

def fractionField (bits : UInt64) : Nat :=
  bits.toNat % Nat.pow 2 52

def isZero (bits : UInt64) : Bool :=
  exponentField bits == 0 && fractionField bits == 0

def magnitude (bits : UInt64) : Decimal.Binary :=
  let exponent := exponentField bits
  let fraction := fractionField bits
  if exponent = 0 then ⟨fraction, -1074, false⟩
  else ⟨Nat.pow 2 52 + fraction, (exponent : Int) - 1075, fraction = 0 && 1 < exponent⟩

/-- Decimal digits with a point or an exponent. The point stands among the digits, or beside
zeros, while the first digit's exponent is from -5 to 15. -/
def decimalText (d : Decimal) : Text :=
  let digits := Text.ofNat d.digits
  let first : Int := digits.length - 1 + d.exponent
  if -5 ≤ first ∧ first ≤ 15 then
    if 0 ≤ d.exponent then digits ++ List.replicate d.exponent.toNat '0' ++ ['.', '0']
    else if 0 ≤ first then
      let whole := (first + 1).toNat
      digits.take whole ++ '.' :: digits.drop whole
    else '0' :: '.' :: List.replicate (-1 - first).toNat '0' ++ digits
  else
    let fraction := match digits.drop 1 with
      | [] => []
      | rest => '.' :: rest
    let sign := if first < 0 then '-' else '+'
    digits.take 1 ++ fraction ++ 'e' :: sign :: Text.ofNat first.natAbs

/-- A binary64 number in the fewest digits that read back. -/
def floatText (bits : UInt64) : Text :=
  let sign : Text := if isNegative bits then ['-'] else []
  sign ++ if isZero bits then ['0', '.', '0'] else decimalText (Decimal.shortest (magnitude bits))

namespace Number

def text : Number → Text
  | integer n => Text.ofInt n
  | float bits => floatText bits

def isNonzero : Number → Bool
  | integer n => n != 0
  | float bits => !isZero bits

end Number

/-! ## Values -/

inductive Value where
  | null
  | bool (b : Bool)
  | number (n : Number)
  | string (t : Text)
  | array (items : List Value)
  | object (members : List (Text × Value))
  deriving Repr, Inhabited

/-- Sets a member: a name that is there keeps its place. -/
def setMember (name : Text) (value : Value) : List (Text × Value) → List (Text × Value)
  | [] => [(name, value)]
  | (other, old) :: rest =>
    if other = name then (name, value) :: rest else (other, old) :: setMember name value rest

def member? (name : Text) (members : List (Text × Value)) : Option Value :=
  (members.find? (·.1 = name)).map (·.2)

/-- A control character by its code in four hexadecimal digits. -/
def escapedControl (c : Char) : Text :=
  let digits := Nat.toDigits 16 c.toNat
  ['\\', 'u'] ++ List.replicate (4 - digits.length) '0' ++ digits

def escaped (c : Char) : Text :=
  if c = '"' ∨ c = '\\' then ['\\', c]
  else if c = '\x08' then ['\\', 'b']
  else if c = '\x0C' then ['\\', 'f']
  else if c = '\n' then ['\\', 'n']
  else if c = '\r' then ['\\', 'r']
  else if c = '\t' then ['\\', 't']
  else if c.toNat < 0x20 then escapedControl c
  else [c]

def stringText (t : Text) : Text :=
  '"' :: t.flatMap escaped ++ ['"']

namespace Value

mutual

def text : Value → Text
  | null => "null".toList
  | bool true => "true".toList
  | bool false => "false".toList
  | number n => n.text
  | string t => stringText t
  | array items => '[' :: Text.join [','] (itemTexts items) ++ [']']
  | object members => '\x7b' :: Text.join [','] (memberTexts members) ++ ['\x7d']

def itemTexts : List Value → List Text
  | [] => []
  | item :: rest => text item :: itemTexts rest

def memberTexts : List (Text × Value) → List Text
  | [] => []
  | (name, value) :: rest => (stringText name ++ ':' :: text value) :: memberTexts rest

end

/-- Whether a loosely typed flag is set by this value. -/
def isTruthy : Value → Bool
  | null => false
  | bool b => b
  | number n => n.isNonzero
  | string t => !t.isEmpty
  | array _ => true
  | object _ => true

end Value

end Json

end BatchCompile
