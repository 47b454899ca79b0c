import BatchCompile.Path.Basic

/-!
# Summary of a run

The files that a run wrote, sorted by kind, and the lines that tell how many there are. `Closes` is
what these lines say of the written paths themselves (`Summary.closes_lines`).
-/

namespace BatchCompile

/-- Written files by kind, each kind in the order of writing. -/
structure Summary where
  scripts : List Path
  maps : List Path
  declarations : List Path
  other : List Path
  deriving DecidableEq, Repr

inductive FileKind where
  | script
  | map
  | declaration
  | other
  deriving DecidableEq, Repr

namespace FileKind

/-- What a written file is, by its name. -/
def of (p : Path) : FileKind :=
  if ".js".toList.isSuffixOf p then .script
  else if ".js.map".toList.isSuffixOf p then .map
  else if ".d.ts".toList.isSuffixOf p then .declaration
  else .other

theorem not_suffix_of_suffix {e e' p : Text} (h : ¬(e <:+ e' ∨ e' <:+ e)) (he : e <:+ p) :
    ¬e' <:+ p :=
  fun he' => h (List.suffix_or_suffix_of_suffix he he')

/-- The three endings exclude each other, so the order in which they are tried does not matter. -/
theorem of_spec (p : Path) :
    (of p = script ↔ ".js".toList <:+ p) ∧ (of p = map ↔ ".js.map".toList <:+ p) ∧
      (of p = declaration ↔ ".d.ts".toList <:+ p) := by
  unfold of
  simp only [List.isSuffixOf_iff_suffix]
  by_cases hscript : ".js".toList <:+ p
  · have hmap : ¬".js.map".toList <:+ p := not_suffix_of_suffix (by decide) hscript
    have hdeclaration : ¬".d.ts".toList <:+ p := not_suffix_of_suffix (by decide) hscript
    simp [-String.reduceToList, hscript, hmap, hdeclaration]
  by_cases hmap : ".js.map".toList <:+ p
  · have hdeclaration : ¬".d.ts".toList <:+ p := not_suffix_of_suffix (by decide) hmap
    simp [-String.reduceToList, hscript, hmap, hdeclaration]
  by_cases hdeclaration : ".d.ts".toList <:+ p <;>
    simp [-String.reduceToList, hscript, hmap, hdeclaration]

end FileKind

namespace Summary

def of (written : List Path) : Summary :=
  let ofKind (kind : FileKind) := written.filter (FileKind.of · = kind)
  ⟨ofKind .script, ofKind .map, ofKind .declaration, ofKind .other⟩

def total (s : Summary) : Nat :=
  s.scripts.length + s.maps.length + s.declarations.length + s.other.length

def files (count : Nat) : Text :=
  Text.ofNat count ++ if count = 1 then " file" else " files"

def counts (s : Summary) : Text :=
  "js: ".toList ++ files s.scripts.length ++ ", map: ".toList ++ files s.maps.length
    ++ ", declaration: ".toList ++ files s.declarations.length

/-- The lines that close a successful run; a bundle is named. -/
def lines (s : Summary) (bundled : Bool) : List Text :=
  if bundled then
    let named := match s.scripts with
      | [] => []
      | script :: _ => ["File ".toList ++ script ++ " created.".toList]
    named ++ [s.counts]
  else [files s.total ++ " created. ".toList ++ s.counts]

/-- Sorting drops no file, and puts each one by the ending of its path. -/
theorem of_spec (written : List Path) :
    (of written).scripts = written.filter (".js".toList <:+ ·) ∧
      (of written).maps = written.filter (".js.map".toList <:+ ·) ∧
      (of written).declarations = written.filter (".d.ts".toList <:+ ·) ∧
      (of written).total = written.length := by
  refine ⟨?_, ?_, ?_, ?_⟩
  · exact List.filter_congr fun p _ => decide_eq_decide.2 (FileKind.of_spec p).1
  · exact List.filter_congr fun p _ => decide_eq_decide.2 (FileKind.of_spec p).2.1
  · exact List.filter_congr fun p _ => decide_eq_decide.2 (FileKind.of_spec p).2.2
  · induction written with
    | nil => rfl
    | cons p written ih =>
      simp only [of, total] at ih ⊢
      cases hk : FileKind.of p <;> simp [hk] <;> omega

/-! ## What is told -/

/-- How a number of files is told. -/
inductive Told : Nat → Text → Prop where
  | one : Told 1 "1 file".toList
  | many {n : Nat} : n ≠ 1 → Told n (Nat.toDigits 10 n ++ " files".toList)

/-- A text counts the paths that end like scripts, maps and declarations. -/
def Counts (written : List Path) (t : Text) : Prop :=
  ∃ scripts maps declarations,
    Told (written.filter (".js".toList <:+ ·)).length scripts ∧
    Told (written.filter (".js.map".toList <:+ ·)).length maps ∧
    Told (written.filter (".d.ts".toList <:+ ·)).length declarations ∧
    t = "js: ".toList ++ scripts ++ ", map: ".toList ++ maps ++ ", declaration: ".toList
      ++ declarations

/-- The lines after which a run that wrote these paths is over. Where all goes into one bundle, it
is named: it is the first script that was written, if there is one. -/
inductive Closes (written : List Path) : Bool → List Text → Prop where
  | apart {total counts : Text} : Told written.length total → Counts written counts →
      Closes written false [total ++ " created. ".toList ++ counts]
  | bundle {before after : List Path} {script counts : Text} :
      written = before ++ script :: after → (∀ p ∈ before, ¬".js".toList <:+ p) →
      ".js".toList <:+ script → Counts written counts →
      Closes written true ["File ".toList ++ script ++ " created.".toList, counts]
  | noScript {counts : Text} : (∀ p ∈ written, ¬".js".toList <:+ p) → Counts written counts →
      Closes written true [counts]

theorem told_files (n : Nat) : Told n (files n) := by
  unfold files
  split
  · subst n
    exact .one
  · exact .many ‹_›

theorem counts_of (written : List Path) : Counts written (of written).counts := by
  obtain ⟨hscripts, hmaps, hdeclarations, -⟩ := of_spec written
  unfold counts
  rw [hscripts, hmaps, hdeclarations]
  exact ⟨_, _, _, told_files _, told_files _, told_files _, rfl⟩

theorem closes_lines (written : List Path) (bundled : Bool) :
    Closes written bundled ((of written).lines bundled) := by
  obtain ⟨hscripts, -, -, htotal⟩ := of_spec written
  cases bundled with
  | false =>
    rw [lines, htotal]
    exact .apart (told_files _) (counts_of written)
  | true =>
    rw [lines, if_pos rfl, hscripts]
    cases hjs : written.filter (".js".toList <:+ ·) with
    | nil =>
      refine .noScript (fun p hp => ?_) (counts_of written)
      simpa using List.filter_eq_nil_iff.1 hjs p hp
    | cons script rest =>
      obtain ⟨before, after, hwritten, hbefore, hscript, -⟩ := List.filter_eq_cons_iff.1 hjs
      refine .bundle hwritten (fun p hp => ?_) (by simpa using hscript) (counts_of written)
      simpa using hbefore p hp

end Summary

end BatchCompile
