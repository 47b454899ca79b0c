import BatchCompile.Text.Basic

/-!
# Mappings of lines

Every generated line maps, at its start, to the start of a line of some source. A group of four
numbers says so: generated column, source, line and column, each as the difference to the group
before. Groups are separated by semicolons.
-/

namespace BatchCompile

/-! ## Variable-length numbers

An integer is written in digits of five bits, the lowest first, and a sixth bit on every digit
but the last. The lowest bit of the whole is the sign. `encode` writes such a number in the
characters of base 64, and `decode?` reads one off the front of a text.
-/

namespace Vlq

def alphabet : Text :=
  "ABCDEFGHIJKLMNOPQRSTUVWXYZabcdefghijklmnopqrstuvwxyz0123456789+/"

def digit (n : Nat) : Char :=
  alphabet.getD n 'A'

/-- An integer with its sign in the lowest bit. -/
def zigzag (n : Int) : Nat :=
  if n < 0 then 2 * n.natAbs + 1 else 2 * n.natAbs

/-- The digits of a number, with the mark that more follow on all but the last. -/
def digits (n : Nat) : List Nat :=
  if n < 32 then [n] else (32 + n % 32) :: digits (n / 32)
  termination_by n
  decreasing_by omega

def encode (n : Int) : Text :=
  (digits (zigzag n)).map digit

def value? (c : Char) : Option Nat :=
  alphabet.findIdx? (· == c)

/-- The integer with its sign in the lowest bit of `n`. -/
def unzigzag (n : Nat) : Int :=
  if n % 2 = 1 then -(n / 2 : Nat) else (n / 2 : Nat)

/-- The number in the digits at the front of a text, and what follows them. -/
def natural? : Text → Option (Nat × Text)
  | [] => none
  | c :: rest =>
    match value? c with
    | none => none
    | some d =>
      if d < 32 then some (d, rest)
      else (natural? rest).map fun (high, after) => (d - 32 + 32 * high, after)

def decode? (t : Text) : Option (Int × Text) :=
  (natural? t).map fun (n, rest) => (unzigzag n, rest)

end Vlq

/-! ## Groups -/

/-- A line of a source: the source's number and the line's, from zero. -/
structure Origin where
  source : Nat
  line : Nat
  deriving DecidableEq, Repr, Inhabited

/-- The group of a line that follows one mapped to `previous`. -/
def Origin.group (previous origin : Origin) : Text :=
  Vlq.encode 0 ++ Vlq.encode ((origin.source : Int) - previous.source)
    ++ Vlq.encode ((origin.line : Int) - previous.line) ++ Vlq.encode 0

def groupsAfter : Origin → List Origin → List Text
  | _, [] => []
  | previous, origin :: rest => previous.group origin :: groupsAfter origin rest

/-- The mappings of generated lines to their origins. -/
def lineMappings (origins : List Origin) : Text :=
  Text.join [';'] (groupsAfter ⟨0, 0⟩ origins)

end BatchCompile
