import BatchCompile.Text.Basic

/-!
# Paths

A path is a text with slashes between its segments. `Parts.of` takes it apart into a `Root` and
segments, `normalize` folds `.` and `..` away, `resolve` anchors a path at a working directory,
and `relative` is the way from one place to another. Nothing here asks a file system.
-/

namespace BatchCompile

abbrev Path := Text

namespace Path

def forward (p : Path) : Path :=
  p.map fun c => if c = '\\' then '/' else c

/-- Where a path starts: wherever its reader is, at the top, or on a drive. -/
inductive Root where
  | here
  | top
  | drive (letter : Char) (slash : Bool)
  deriving DecidableEq, Repr

namespace Root

def text : Root → Text
  | here => []
  | top => ['/']
  | drive letter true => [letter, ':', '/']
  | drive letter false => [letter, ':']

/-- Whether a path with this root is the same from everywhere. -/
def anchored : Root → Bool
  | here => false
  | _ => true

end Root

def cutRoot : Path → Root × Text
  | '/' :: rest => (.top, rest)
  | letter :: ':' :: rest =>
    if letter.isAlpha then
      match rest with
      | '/' :: rest => (.drive letter true, rest)
      | _ => (.drive letter false, rest)
    else (.here, letter :: ':' :: rest)
  | p => (.here, p)

/-- Whether a path starts at the top or on a drive. -/
def isRooted (p : Path) : Bool :=
  (cutRoot (forward p)).1.anchored

def self : Text := ['.']

def up : Text := ['.', '.']

structure Parts where
  root : Root
  segments : List Text
  deriving DecidableEq, Repr

namespace Parts

/-- The root and the segments of a path with forward slashes; empty segments do not count. -/
def of (p : Path) : Parts :=
  let (root, rest) := cutRoot p
  ⟨root, (Text.split '/' rest).filter (· ≠ [])⟩

/-- The path that has these parts; the place itself is written `.`. -/
def text (parts : Parts) : Path :=
  if parts.root = .here ∧ parts.segments = [] then self
  else parts.root.text ++ Text.join ['/'] parts.segments

/-- One segment more, on top of those kept so far: `.` changes nothing, and `..` takes the last
one back. Where there is none to take back, `..` is kept if the path is not anchored. -/
def push (anchored : Bool) (kept : List Text) (segment : Text) : List Text :=
  if segment = self then kept
  else if segment = up then
    match kept with
    | [] => if anchored then [] else [up]
    | last :: before =>
      if last = up then if anchored then kept else up :: kept
      else before
  else segment :: kept

/-- The parts with `.` and `..` folded away as far as they can be. -/
def fold (parts : Parts) : Parts :=
  ⟨parts.root, (parts.segments.foldl (push parts.root.anchored) []).reverse⟩

end Parts

/-- The shortest spelling of a path: forward slashes, no empty segment, no `.`, and `..` only at
the front of a path that is not rooted. -/
def normalize (p : Path) : Path :=
  (Parts.of (forward p)).fold.text

/-- One path below the other. A rooted `right` is put below `left` as well. -/
def combine (left right : Path) : Path :=
  match left, right with
  | [], [] => self
  | [], _ => normalize right
  | _, [] => normalize left
  | _, _ => normalize (left ++ '/' :: right)

/-- Goes on from `place` to `segment`: from the start if it is rooted. -/
def follow (place segment : Path) : Path :=
  if segment = [] then place
  else if isRooted segment then forward segment
  else place ++ '/' :: segment

/-- The place reached from `cwd` by following the segments one after the other. -/
def resolve (cwd : Path) (segments : List Path) : Path :=
  normalize (segments.foldl follow (forward cwd))

def sharedLength : List Text → List Text → Nat
  | a :: as, b :: bs => if a = b then sharedLength as bs + 1 else 0
  | _, _ => 0

/-- The way from `start` to `goal`, empty if they are one place. Between two roots there is no
way, and the goal itself is the answer. -/
def relative (start goal : Path) : Path :=
  let start := normalize start
  let goal := normalize goal
  if start = goal then []
  else
    let a := Parts.of start
    let b := Parts.of goal
    if Text.asciiLower a.root.text ≠ Text.asciiLower b.root.text then goal
    else
      let left := a.segments.filter (· ≠ self)
      let right := b.segments.filter (· ≠ self)
      let shared := sharedLength left right
      Text.join ['/'] (List.replicate (left.length - shared) up ++ right.drop shared)

end Path

end BatchCompile
