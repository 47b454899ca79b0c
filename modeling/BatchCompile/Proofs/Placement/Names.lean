import BatchCompile.Emission
import BatchCompile.Proofs.Path.Endings
import BatchCompile.Proofs.Placement.Layout
import Mathlib.Data.List.Basic

/-!
# The names of artifacts

Where sources are passed through, a script is named after its source and a map after its script
(`names_artifacts`). The names end like scripts and maps, and an artifact keeps this ending wherever a
destination directory puts it (`ending_destination`).
-/

namespace BatchCompile

open BatchCompile.Path

/-! ## Names -/

def fileNames (settings : Settings) (name : Path) : List Path :=
  name :: if settings.mapSources then [name ++ ".map".toList] else []

def scriptNames (absolute : Path → Path) (units : List SourceUnit) : List Path :=
  (units.filter fun u => !u.isDeclaration).map fun u => absolute (replaceExtension u.path ".js")

theorem names_scriptArtifacts (settings : Settings) (name : Path) (marked : Bool)
    (sources : List Path) (lines : List Text) (origins : List Origin) :
    (scriptArtifacts settings name marked sources lines origins).map Artifact.name =
      fileNames settings name := by
  unfold scriptArtifacts fileNames
  cases settings.mapSources <;> rfl

theorem names_artifacts (settings : Settings) (absolute : Path → Path) (units : List SourceUnit) :
    (artifacts settings absolute units).map Artifact.name =
      match settings.outFile with
      | some out => fileNames settings out
      | none => (scriptNames absolute units).flatMap (fileNames settings) := by
  unfold artifacts
  cases settings.outFile with
  | some out => exact names_scriptArtifacts ..
  | none =>
    simp only [List.map_flatMap, scriptNames, List.flatMap_map]
    exact List.flatMap_congr fun u _ => names_scriptArtifacts ..

theorem flatMap_passThrough (settings : Settings) (absolute : Path → Path)
    (units : List SourceUnit) :
    (Engine.passThrough settings absolute units).flatMap PhaseResult.artifacts =
      artifacts settings absolute units := by
  simp [Engine.passThrough, Phase.all, passThroughPhase]

theorem mem_fileNames {settings : Settings} {name p : Path} (h : p ∈ fileNames settings name) :
    p = name ∨ settings.mapSources = true ∧ p = name ++ ".map".toList := by
  unfold fileNames at h
  cases hm : settings.mapSources <;> simp_all

theorem ending_of_mem_scriptNames {cwd : Path} {units : List SourceUnit} {name : Path}
    (h : name ∈ scriptNames (fun p => resolve cwd [p]) units) : ".js".toList <:+ name := by
  obtain ⟨u, -, rfl⟩ := List.mem_map.1 h
  exact ending_resolve ending_script cwd [] (List.suffix_append _ _)

/-! ## Destinations -/

/-- A name of the working directory or of a directory above: the way there leads up only. -/
def AtOrAbove (cwd name : Path) : Prop :=
  ∃ k, relative (resolve cwd [cwd]) (resolve cwd [name]) = Text.join ['/'] (ups k)

section

variable {cwd : Path} {c : Configuration} {name goal directory : Path}

/-- Below a destination directory an artifact goes what is left of its way. -/
theorem exists_rest (hs : c.singleOutput = false) (hd : c.destination = some directory)
    (h : destination cwd c name = .ok goal) :
    ∃ rest, goal = resolve cwd [cwd, directory, rest] ∧
      relative (resolve cwd [cwd]) (resolve cwd [name]) = c.basePath.getD [] ++ rest := by
  unfold destination at h
  rw [hs, hd] at h
  simp only at h
  split at h
  · rename_i hb
    rw [hb]
    exact ⟨_, (Except.ok.inj h).symm, rfl⟩
  · rename_i base hb
    split at h
    · rename_i rest hdrop
      rw [hb]
      exact ⟨rest, (Except.ok.inj h).symm, (List.isPrefixOf?_eq_some_iff_append_eq.1 hdrop).symm⟩
    · cases h

theorem goal_eq_or_exists_rest (h : destination cwd c name = .ok goal) :
    goal = name ∨ ∃ directory rest, c.singleOutput = false ∧ c.destination = some directory ∧
      goal = resolve cwd [cwd, directory, rest] ∧
      relative (resolve cwd [cwd]) (resolve cwd [name]) = c.basePath.getD [] ++ rest := by
  cases hs : c.singleOutput with
  | true =>
    rw [destination_of_singleOutput hs] at h
    exact .inl (Except.ok.inj h).symm
  | false =>
    cases hd : c.destination with
    | none =>
      rw [destination_of_none hd] at h
      exact .inl (Except.ok.inj h).symm
    | some directory =>
      obtain ⟨rest, hgoal, hway⟩ := exists_rest hs hd h
      exact .inr ⟨directory, rest, rfl, rfl, hgoal, hway⟩

theorem takesOff_of_append_eq {base : Option Path} (hb : ∀ b, base = some b → ∃ start, b = start ++ ['/'])
    {rest : Path} {ss : List Text} (hs : ∀ s ∈ ss, '/' ∉ s)
    (h : Text.join ['/'] ss = base.getD [] ++ rest) :
    ∃ bs rs, ss = bs ++ rs ∧ TakesOff base bs ∧ rest = Text.join ['/'] rs := by
  cases base with
  | none => exact ⟨[], ss, rfl, rfl, h.symm⟩
  | some b =>
    obtain ⟨start, rfl⟩ := hb b rfl
    have hne : ss ≠ [] := by
      rintro rfl
      simp at h
    obtain ⟨bs, rs, hbs, -, rfl, rfl, rfl⟩ :=
      (Text.isPrefixOf?_join hne hs).1 (List.isPrefixOf?_eq_some_iff_append_eq.2 h.symm)
    exact ⟨bs, rs, rfl, ⟨hbs, rfl⟩, rfl⟩

/-- An artifact keeps the ending of its name where it goes, unless the name is that of the working
directory or a directory above. -/
theorem ending_destination {e : Text} (he : Ending e)
    (hb : ∀ b, c.basePath = some b → ∃ start, b = start ++ ['/']) (hname : e <:+ name)
    (h : destination cwd c name = .ok goal) : e <:+ goal ∨ AtOrAbove cwd name := by
  rcases goal_eq_or_exists_rest h with rfl | ⟨directory, rest, -, -, rfl, hway⟩
  · exact .inl hname
  refine (ending_relative he (resolve cwd [cwd]) (ending_resolve he cwd [] hname)).imp
    (fun hend => ?_) id
  rw [List.nil_append, hway] at hend
  refine ending_resolve he cwd [cwd, directory] ?_
  cases hbase : c.basePath with
  | none => simpa [hbase] using hend
  | some b =>
    obtain ⟨start, rfl⟩ := hb b hbase
    rw [hbase, Option.getD_some, List.append_assoc] at hend
    exact suffix_of_append_cons he.slash hend

end

end BatchCompile
