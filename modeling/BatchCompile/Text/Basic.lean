/-!
# Texts

A text is a list of characters. `split` cuts one at every separator, `lines` at its line ends,
`cut?` at the first place a pattern stands, and `replaceAll` puts another text there. `isBlank`
holds of the characters with the property `White_Space`; `trim` takes them off both ends.
-/

namespace BatchCompile

abbrev Text := List Char

instance : Coe String Text := ⟨String.toList⟩

namespace Text

/-- The character that stands for what is no character. -/
def replacement : Char := '\uFFFD'

/-- The pieces between the separators; there is one more piece than separators. -/
abbrev split (separator : Char) (t : Text) : List Text :=
  t.splitOn separator

def join (separator : Text) (pieces : List Text) : Text :=
  separator.intercalate pieces

/-- A line without the carriage return at its end. -/
def dropReturn (line : Text) : Text :=
  if line.getLast? = some '\r' then line.dropLast else line

/-- The lines of a text. A line ends with a line feed, or a carriage return and a line feed; what
follows the last line feed is a line only if it is not empty, and keeps a carriage return. -/
def lines (t : Text) : List Text :=
  let pieces := split '\n' t
  let ended := pieces.dropLast.map dropReturn
  match pieces.getLast? with
  | none => ended
  | some [] => ended
  | some last => ended ++ [last]

/-- The text before the first place where `pattern` stands, and the text after that place. -/
def cut? (pattern : Text) : Text → Option (Text × Text)
  | [] => if pattern.isEmpty then some ([], []) else none
  | c :: rest =>
    match pattern.isPrefixOf? (c :: rest) with
    | some after => some ([], after)
    | none => (cut? pattern rest).map fun (before, after) => (c :: before, after)

/-- The text before the last `c`, and the text after it. -/
def cutLast? (c : Char) (t : Text) : Option (Text × Text) :=
  let back := t.reverse
  match back.dropWhile (· != c) with
  | [] => none
  | _ :: before => some (before.reverse, (back.takeWhile (· != c)).reverse)

/-- `replaceAll`, after passing over `skip` characters. -/
def replaceFrom (pattern new : Text) : Nat → Text → Text
  | _, [] => []
  | skip + 1, _ :: rest => replaceFrom pattern new skip rest
  | 0, c :: rest =>
    if pattern.isPrefixOf (c :: rest) then
      new ++ replaceFrom pattern new (pattern.length - 1) rest
    else c :: replaceFrom pattern new 0 rest

/-- Writes `new` for every `pattern`, from left to right. -/
def replaceAll (pattern new t : Text) : Text :=
  replaceFrom pattern new 0 t

def ofNat (n : Nat) : Text :=
  Nat.toDigits 10 n

/-- The digits of `n`, after a minus sign if it is negative. -/
def ofInt (n : Int) : Text :=
  if n < 0 then '-' :: ofNat n.natAbs else ofNat n.natAbs

def asciiLower (t : Text) : Text :=
  t.map Char.toLower

def byteLength (t : Text) : Nat :=
  t.foldl (fun n c => n + c.utf8Size) 0

@[simp] theorem lines_nil : lines [] = [] := rfl

/-! ## Blanks -/

/-- Closed ranges of code points. -/
abbrev Ranges := List (Nat × Nat)

def Ranges.covers (ranges : Ranges) (c : Char) : Bool :=
  ranges.any fun r => r.1 ≤ c.toNat && c.toNat ≤ r.2

/-- The characters with the property `White_Space`. -/
def blankRanges : Ranges := [
  (0x9, 0xD), (0x20, 0x20), (0x85, 0x85), (0xA0, 0xA0), (0x1680, 0x1680), (0x2000, 0x200A),
  (0x2028, 0x2029), (0x202F, 0x202F), (0x205F, 0x205F), (0x3000, 0x3000)]

def isBlank (c : Char) : Bool :=
  blankRanges.covers c

def trimStart (t : Text) : Text :=
  t.dropWhile isBlank

def trimEnd (t : Text) : Text :=
  (trimStart t.reverse).reverse

def trim (t : Text) : Text :=
  trimEnd (trimStart t)

end Text

end BatchCompile
