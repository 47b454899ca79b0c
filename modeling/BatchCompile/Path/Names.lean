import BatchCompile.Path.Basic

/-!
# Names in paths

`dirName` is the directory a path lies in, `baseName` its last segment and `extension` the end of
that from its last dot. `ancestors` are the directories above a path, the nearest first. The chain
ends, because each directory is shorter than what lies in it, or is `.`, which lies in nothing
(`rank_dirName_lt`).
-/

namespace BatchCompile.Path

def isSlash (c : Char) : Bool :=
  c == '/' || c == '\\'

/-- The directory that a path lies in. A root lies in no directory, and neither does `.`. -/
def dirName (p : Path) : Option Path :=
  let (root, rest) := cutRoot (forward p)
  let body := (rest.reverse.dropWhile (· == '/')).reverse
  match Text.cutLast? '/' body with
  | some (before, _) => some (root.text ++ before)
  | none =>
    if body = [] then none
    else if root.anchored then some root.text
    else if body = self then none
    else some self

def baseName (p : Path) : Text :=
  ((p.reverse.dropWhile isSlash).takeWhile fun c => !isSlash c).reverse

/-- The last segment from its last dot on; nothing if that dot is its first character. -/
def extension (p : Path) : Text :=
  match Text.cutLast? '.' (baseName p) with
  | none => []
  | some ([], _) => []
  | some (_, after) => '.' :: after

/-- What is left of a reversed text after `bytes` bytes. -/
def dropBytes : Nat → Text → Text
  | 0, t => t
  | _, [] => []
  | bytes + 1, c :: t => dropBytes (bytes + 1 - c.utf8Size) t
  termination_by _ t => t.length

/-- The path with another extension: as many bytes as the old one takes make way for the new
one. -/
def replaceExtension (p : Path) (new : Text) : Path :=
  (dropBytes (Text.byteLength (extension p)) p.reverse).reverse ++ new

def stripQuotes (p : Path) : Path :=
  match p with
  | [] => []
  | first :: rest =>
    if (first = '"' ∨ first = '\'') ∧ rest.getLast? = some first then rest.dropLast else p

/-! ## Ancestors -/

/-- The length of a path, but nothing for `.`. -/
def rank (p : Path) : Nat :=
  if p = self then 0 else p.length + 1

theorem length_cutRoot (p : Path) :
    (cutRoot p).1.text.length + (cutRoot p).2.length = p.length := by
  unfold cutRoot
  split
  · simp [Root.text]; omega
  · split
    · split
      · simp [Root.text]; omega
      · simp [Root.text]; omega
    · simp [Root.text]
  · simp [Root.text]

theorem length_cutLast_lt {c : Char} {t before after : Text}
    (h : Text.cutLast? c t = some (before, after)) : before.length < t.length := by
  have hs := (List.dropWhile_suffix (· != c) (l := t.reverse)).length_le
  unfold Text.cutLast? at h
  simp only at h
  split at h
  · cases h
  · rename_i heq
    rw [heq] at hs
    cases h
    simp at hs ⊢
    omega

theorem rank_dirName_lt {p q : Path} (h : dirName p = some q) : rank q < rank p := by
  have hf : (forward p).length = p.length := by simp [forward]
  have hc := length_cutRoot (forward p)
  have hd : ((cutRoot (forward p)).2.reverse.dropWhile (· == '/')).reverse.length
      ≤ (cutRoot (forward p)).2.length := by
    simpa using (List.dropWhile_suffix (· == '/') (l := (cutRoot (forward p)).2.reverse)).length_le
  have hp : p ≠ self := by
    rintro rfl
    exact absurd h (by rw [show dirName self = none from by decide]; simp)
  rw [rank, rank, if_neg hp]
  unfold dirName at h
  simp only at h
  split at h
  · rename_i before after hb
    have := length_cutLast_lt hb
    cases h
    split
    · omega
    · simp
      omega
  · split at h
    · cases h
    · rename_i hne
      have := List.length_pos_iff.2 hne
      split at h
      · cases h
        split <;> omega
      · split at h
        · cases h
        · cases h
          simp

/-- The directories above a path, the nearest first. -/
def ancestors (p : Path) : List Path :=
  match _h : dirName p with
  | none => []
  | some q => q :: ancestors q
  termination_by rank p
  decreasing_by exact rank_dirName_lt _h

end BatchCompile.Path
