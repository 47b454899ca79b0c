import BatchCompile.Text.Basic

/-!
# Encodings

Texts as bytes and as 16-bit units. A file may start with a mark that names its encoding; `decode`
finds the mark and reads the bytes after it. Bytes that spell nothing are replaced, and none is
refused.
-/

namespace BatchCompile

/-! ## UTF-8

`encode` writes a text as bytes. `decode` reads any bytes: it is a machine that takes one byte at
a time and knows, within a character, how many bytes are owed and what the next one may be. Each
longest run of bytes that starts a character and does not end it becomes one replacement
character. `strict?` refuses such bytes instead.
-/

namespace Text.Utf8

def encode (t : Text) : List UInt8 :=
  t.flatMap String.utf8EncodeChar

/-- A character part way through: the bytes still owed, the least and the greatest the next one
may be, and the bits so far. -/
structure Pending where
  owed : Nat
  least : UInt8
  greatest : UInt8
  bits : Nat

/-- What a first byte of several asks for. -/
def lead? (b : UInt8) : Option Pending :=
  let bits := b.toNat
  if 0xC2 ≤ b ∧ b ≤ 0xDF then some ⟨1, 0x80, 0xBF, bits % 0x20⟩
  else if b = 0xE0 then some ⟨2, 0xA0, 0xBF, bits % 0x10⟩
  else if b = 0xED then some ⟨2, 0x80, 0x9F, bits % 0x10⟩
  else if 0xE1 ≤ b ∧ b ≤ 0xEF then some ⟨2, 0x80, 0xBF, bits % 0x10⟩
  else if b = 0xF0 then some ⟨3, 0x90, 0xBF, bits % 8⟩
  else if b = 0xF4 then some ⟨3, 0x80, 0x8F, bits % 8⟩
  else if 0xF1 ≤ b ∧ b ≤ 0xF3 then some ⟨3, 0x80, 0xBF, bits % 8⟩
  else none

/-- A byte between characters: the characters it gives, and the character it starts. -/
def start (b : UInt8) : Text × Option Pending :=
  if b < 0x80 then ([Char.ofNat b.toNat], none)
  else
    match lead? b with
    | some pending => ([], some pending)
    | none => ([replacement], none)

/-- A byte within a character. One that cannot follow ends it and stands between characters. -/
def step (state : Option Pending) (b : UInt8) : Text × Option Pending :=
  match state with
  | none => start b
  | some p =>
    if p.least ≤ b ∧ b ≤ p.greatest then
      let bits := p.bits * 0x40 + b.toNat % 0x40
      if p.owed ≤ 1 then ([Char.ofNat bits], none)
      else ([], some ⟨p.owed - 1, 0x80, 0xBF, bits⟩)
    else
      let (given, next) := start b
      (replacement :: given, next)

def decodeFrom : Option Pending → List UInt8 → Text
  | none, [] => []
  | some _, [] => [replacement]
  | state, b :: rest =>
    let (given, next) := step state b
    given ++ decodeFrom next rest

def decode (bytes : List UInt8) : Text :=
  decodeFrom none bytes

/-- The text that the bytes spell, if they spell one. -/
def strict? (bytes : List UInt8) : Option Text :=
  let t := decode bytes
  if encode t = bytes then some t else none

end Text.Utf8

/-! ## UTF-16

A character above U+FFFF is a pair of units, a high half before a low half. `encode` writes units,
`decode` reads them and replaces every half that stands alone.
-/

namespace Text.Utf16

def isHigh (u : UInt16) : Bool :=
  0xD800 ≤ u && u < 0xDC00

def isLow (u : UInt16) : Bool :=
  0xDC00 ≤ u && u < 0xE000

def encodeChar (c : Char) : List UInt16 :=
  let n := c.toNat
  if n < 0x10000 then [UInt16.ofNat n]
  else
    let bits := n - 0x10000
    [UInt16.ofNat (0xD800 + bits / 0x400), UInt16.ofNat (0xDC00 + bits % 0x400)]

def encode (t : Text) : List UInt16 :=
  t.flatMap encodeChar

def ofPair (high low : UInt16) : Char :=
  Char.ofNat (0x10000 + (high.toNat - 0xD800) * 0x400 + (low.toNat - 0xDC00))

/-- A unit where no pair is open: the characters it gives, and the pair it opens. -/
def start (u : UInt16) : Text × Option UInt16 :=
  if isHigh u then ([], some u)
  else if isLow u then ([replacement], none)
  else ([Char.ofNat u.toNat], none)

/-- A unit after the half of an open pair, if there is one. -/
def step (high : Option UInt16) (u : UInt16) : Text × Option UInt16 :=
  match high with
  | none => start u
  | some high =>
    if isLow u then ([ofPair high u], none)
    else
      let (given, next) := start u
      (replacement :: given, next)

def decodeFrom : Option UInt16 → List UInt16 → Text
  | none, [] => []
  | some _, [] => [replacement]
  | high, u :: rest =>
    let (given, next) := step high u
    given ++ decodeFrom next rest

/-- The text that the units spell; a half that stands alone is replaced. -/
def decode (units : List UInt16) : Text :=
  decodeFrom none units

end Text.Utf16

/-! ## Files -/

/-- The mark at the start of a file. -/
inductive Mark where
  | none
  | utf8
  | utf16Big
  | utf16Little
  deriving DecidableEq, Repr, Inhabited

namespace Mark

def bytes : Mark → List UInt8
  | none => []
  | utf8 => [0xEF, 0xBB, 0xBF]
  | utf16Big => [0xFE, 0xFF]
  | utf16Little => [0xFF, 0xFE]

/-- The mark that the bytes start with. -/
def detect (file : List UInt8) : Mark :=
  ([utf16Big, utf16Little, utf8].find? fun m => m.bytes.isPrefixOf file).getD none

def length (m : Mark) : Nat :=
  m.bytes.length

def isNone (m : Mark) : Bool :=
  m == none

end Mark

/-- The 16-bit units that bytes spell in pairs; a last odd byte is dropped. -/
def units (unit : UInt8 → UInt8 → UInt16) : List UInt8 → List UInt16
  | a :: b :: rest => unit a b :: units unit rest
  | _ => []

def bigUnit (a b : UInt8) : UInt16 :=
  UInt16.ofNat (a.toNat * 0x100 + b.toNat)

def littleUnit (a b : UInt8) : UInt16 :=
  bigUnit b a

/-- The text of a file and its mark. -/
def decode (file : List UInt8) : Text × Mark :=
  let mark := Mark.detect file
  let body := file.drop mark.length
  match mark with
  | .utf16Big => (Text.Utf16.decode (units bigUnit body), mark)
  | .utf16Little => (Text.Utf16.decode (units littleUnit body), mark)
  | .utf8 | .none => (Text.Utf8.decode body, mark)

/-- The bytes of a file that holds `t`, with a mark in front if asked for. -/
def fileBytes (t : Text) (marked : Bool) : List UInt8 :=
  (if marked then Mark.utf8.bytes else []) ++ Text.Utf8.encode t

end BatchCompile
