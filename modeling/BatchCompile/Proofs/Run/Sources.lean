import BatchCompile.Proofs.Placement.Names
import BatchCompile.Proofs.Run.Frame

/-!
# Which sources a run can change

A file is changed by a run only if an artifact goes to its path, and nothing keeps artifacts off the
paths of sources (`script_source_overwritten`). But few sources are `Exposed`: artifacts go to paths
that end like scripts or maps, or to the bundle, or else the working directory lies at or below the
name of an artifact (`run_sources_kept`). So as a rule what is written does not end like a source
(`run_writes_no_source`).
-/

namespace BatchCompile

open BatchCompile.Path

variable {σ : Type}

/-- The paths at which a run can store an artifact. -/
inductive Exposed (cwd : Path) (c : Configuration) : Path → Prop where
  /-- Where there is no bundle, a path that ends like a script. -/
  | script {p : Path} : c.outFile = none → ".js".toList <:+ p → Exposed cwd c p
  /-- The same for a map, if maps are asked for. -/
  | map {p : Path} : c.outFile = none → c.sourceMap = true → ".js.map".toList <:+ p →
      Exposed cwd c p
  /-- The place of the bundle. -/
  | bundle {out goal : Path} : c.outFile = some out → destination cwd c out = .ok goal →
      Exposed cwd c (resolve cwd [goal])
  /-- The place of the map of the bundle. -/
  | bundleMap {out goal : Path} : c.outFile = some out → c.sourceMap = true →
      destination cwd c (out ++ ".map".toList) = .ok goal → Exposed cwd c (resolve cwd [goal])
  /-- The place of a script or map that has the name of the working directory or of one above. -/
  | above {name goal : Path} : c.outFile = none →
      ".js".toList <:+ name ∨ c.sourceMap = true ∧ ".js.map".toList <:+ name →
      AtOrAbove cwd name → destination cwd c name = .ok goal → Exposed cwd c (resolve cwd [goal])

/-! ## Where artifacts go -/

section

variable {h : Host (StateM σ)} {c : Configuration} {a : Artifact} {units : List SourceUnit}

theorem exposed_of_ending {e goal : Path} (he : Ending e) (ho : c.outFile = none)
    (hb : ∀ b, c.basePath = some b → ∃ start, b = start ++ ['/']) (hname : e <:+ a.name)
    (hgoal : destination h.cwd c a.name = .ok goal)
    (hexposed : ∀ p, e <:+ p → Exposed h.cwd c p)
    (hkind : ".js".toList <:+ a.name ∨ c.sourceMap = true ∧ ".js.map".toList <:+ a.name) :
    Exposed h.cwd c (h.absolute goal) := by
  rcases ending_destination he hb hname hgoal with hend | habove
  · exact hexposed _ (ending_resolve he h.cwd [] hend)
  · exact .above ho hkind habove hgoal

theorem exposed_of_goesTo (hb : ∀ b, c.basePath = some b → ∃ start, b = start ++ ['/'])
    (ha : a ∈ artifacts c.settings h.absolute units) {p : Path} (hp : GoesTo h c a p) :
    Exposed h.cwd c p := by
  obtain ⟨goal, hgoal, rfl⟩ := hp
  have hname : a.name ∈ (artifacts c.settings h.absolute units).map Artifact.name :=
    List.mem_map_of_mem ha
  rw [names_artifacts] at hname
  cases ho : c.outFile with
  | some out =>
    rw [show c.settings.outFile = some out from ho] at hname
    rcases mem_fileNames hname with hout | ⟨hm, hmap⟩
    · exact .bundle ho (hout ▸ hgoal)
    · exact .bundleMap ho hm (hmap ▸ hgoal)
  | none =>
    rw [show c.settings.outFile = none from ho] at hname
    obtain ⟨name, hscript, hname⟩ := List.mem_flatMap.1 hname
    have hjs := ending_of_mem_scriptNames hscript
    rcases mem_fileNames hname with hname | ⟨hm, hmap⟩
    · rw [← hname] at hjs
      exact exposed_of_ending ending_script ho hb hjs hgoal (fun p => .script ho) (.inl hjs)
    · have hend : ".js.map".toList <:+ a.name := by
        rw [hmap]
        obtain ⟨front, rfl⟩ := hjs
        exact ⟨front, by simp⟩
      exact exposed_of_ending ending_map ho hb hend hgoal (fun p => .map ho hm) (.inr ⟨hm, hend⟩)

end

/-! ## What is changed -/

theorem Framed.changed {t t' : Tree} {stored : List (Path × Source)} {goals : List Path}
    (hframe : Framed t stored goals t') (p : Path) :
    t'.file? p = t.file? p ∨ p ∈ stored.map (·.1) := by
  have hfile := hframe.files p
  cases hlast : lastStored? stored p with
  | none =>
    rw [hlast] at hfile
    exact .inl hfile
  | some s =>
    obtain ⟨e, he, -⟩ := Option.map_eq_some_iff.1 hlast
    obtain rfl : e.1 = p := by simpa using List.find?_some he
    exact .inr (List.mem_map_of_mem (List.mem_reverse.1 (List.mem_of_find?_eq_some he)))

/-- Whatever comes of a run, what it writes goes to exposed paths. -/
theorem run_writes_exposed (h : Host (StateM σ)) (library : Path) {c : Configuration}
    (hb : ∀ b, c.basePath = some b → ∃ start, b = start ++ ['/']) (inputs : List Path)
    (w : Trace σ) :
    ∀ p ∈ (exec (run h.recorded library c inputs) w).1.written, Exposed h.cwd c p := by
  obtain ⟨resolution, units, caches, w₁, w₂, hg, -⟩ :=
    exec_gather h c Resolver.directives library inputs w
  intro p hp
  rw [run, exec_runWith hg rfl] at hp
  obtain ⟨a, ha, hgoes⟩ := exists_goesTo_of_written hp
  rw [flatMap_passThrough] at ha
  exact exposed_of_goesTo hb ha hgoes

/-- Whatever comes of a run, the file of each of its units is as it was before, unless the run wrote
to its path; and it writes to exposed paths only. -/
theorem run_sources_kept {h : Host (StateM σ)} {tree : σ → Tree} (hh : h.Shows tree)
    (hroot : Path.isRooted h.cwd = true) (library : Path) {c : Configuration}
    (hb : ∀ b, c.basePath = some b → ∃ start, b = start ++ ['/']) (inputs : List Path)
    (w : Trace σ) :
    let (report, w') := exec (run h.recorded library c inputs) w
    (∀ u ∈ report.units, (tree w'.2).file? u.path = (tree w.2).file? u.path ∨
      u.path ∈ report.written) ∧ ∀ p ∈ report.written, Exposed h.cwd c p := by
  have hexposed := run_writes_exposed h library hb inputs w
  obtain ⟨resolution, units, caches, w₁, w₂, hg, hres⟩ :=
    exec_gather h c Resolver.directives library inputs w
  have hbegun : tree w₂.2 = tree w.2 :=
    (hres.begun (P := fun _ => True) (hh.steady (tree w.2)) (fun I hask => asks_directives _ _ _
      (keeps_services hask) inputs c.settings.caseSensitive) rfl).2.keeps
  rcases ht : exec (takeResults h.recorded c (Engine.passThrough c.settings h.absolute units)) w₂ with
    ⟨progress, w₃⟩
  obtain ⟨_, _, _, _, -, -, hwritten, hframe⟩ := framed_takeResults hh hroot ht
  have hclosed : tree (if progress.abort.isNone then
      told h ((Summary.of progress.written).lines c.singleOutput) w₃ else w₃).2 = tree w₃.2 :=
    (hh.steady (tree w₃.2)).kept_summary _ _ rfl
  rw [run, exec_runWith hg ht] at hexposed ⊢
  refine ⟨fun u _ => ?_, hexposed⟩
  simp only [hclosed]
  rw [hwritten, ← hbegun]
  exact hframe.changed u.path

/-- The script of a source goes elsewhere, and the source stays as it was. -/
theorem run_sources_kept_dist :
    let c := Configuration.resolve "/work".toList { Options.unset with noLib := some true }
      (some "dist".toList)
    let (report, w) := exec (run (Memory.host "/work".toList).recorded [] c ["a.ts".toList])
      ([], oneSource)
    report.units.map SourceUnit.path = ["/work/a.ts".toList] ∧
      (∀ u ∈ report.units, w.2.file? u.path = oneSource.file? u.path) ∧
      Exposed "/work".toList c "/work/dist/a.js".toList := by
  intro c
  have hmade : ∀ o, exec (run (Memory.host "/work".toList).recorded [] c ["a.ts".toList])
      ([], oneSource) = o → o.1.units.map SourceUnit.path = ["/work/a.ts".toList] ∧
      o.1.written = ["/work/dist/a.js".toList] := by
    rintro _ rfl
    decide +kernel
  have hkept := run_sources_kept (Memory.shows_host "/work".toList) (by decide) [] (c := c) nofun
    ["a.ts".toList] ([], oneSource)
  rcases hrun : exec (run (Memory.host "/work".toList).recorded [] c ["a.ts".toList])
    ([], oneSource) with ⟨report, w⟩
  obtain ⟨hunits, hwritten⟩ := hmade _ hrun
  rw [hrun] at hkept
  obtain ⟨hkept, hexposed⟩ := hkept
  have hgoal : "/work/dist/a.js".toList ∈ report.written := by
    rw [show report.written = _ from hwritten]
    decide
  refine ⟨hunits, fun u hu => (hkept u hu).resolve_right fun hm => ?_, hexposed _ hgoal⟩
  have hpath : u.path ∈ ["/work/a.ts".toList] := hunits ▸ List.mem_map_of_mem hu
  rw [List.mem_singleton.1 hpath, show report.written = _ from hwritten] at hm
  revert hm
  decide

def scriptSource : Memory where
  files := [("/work/a.js".toList, ⟨"let a;\n".toList, .none⟩)]
  directories := ["/".toList, "/work".toList]
  unreadable := []
  unwritable := []

/-- Its script goes where it lies itself, and the end of its last line is lost. -/
theorem script_source_overwritten :
    let c := { Configuration.default with noLib := true }
    let (report, w) := exec (run (Memory.host "/work".toList).recorded [] c ["a.js".toList])
      ([], scriptSource)
    report.abort = none ∧ report.units.map SourceUnit.path = ["/work/a.js".toList] ∧
      ¬∀ u ∈ report.units, w.2.file? u.path = scriptSource.file? u.path := by
  decide +kernel

/-! ## No source is written -/

/-- What is exposed is no source, unless the working directory lies at or below the name of an
artifact, or the bundle is no script. -/
theorem not_source_of_exposed {cwd p : Path} {c : Configuration} (hp : Exposed cwd c p)
    (hout : ∀ out, c.outFile = some out → c.singleOutput = true ∧ ".js".toList <:+ out)
    (habove : ∀ name, ".js".toList <:+ name ∨ ".js.map".toList <:+ name → ¬AtOrAbove cwd name) :
    ¬".ts".toList <:+ p := by
  have hends : ∀ {e q : Path}, e <:+ q → ".ts".toList.length ≤ e.length → ¬".ts".toList <:+ e →
      ¬".ts".toList <:+ q := fun he hle hne hq =>
    hne (List.suffix_of_suffix_length_le hq he hle)
  have hname : ∀ {name goal : Path}, c.singleOutput = true →
      destination cwd c name = .ok goal → goal = name := by
    intro name goal hsingle hgoal
    rw [destination, hsingle] at hgoal
    exact (Except.ok.inj hgoal).symm
  cases hp with
  | script _ hjs => exact hends hjs (by decide) (by decide)
  | map _ _ hmap => exact hends hmap (by decide) (by decide)
  | bundle ho hgoal =>
    obtain ⟨hsingle, hjs⟩ := hout _ ho
    obtain rfl := hname hsingle hgoal
    exact hends (ending_resolve ending_script cwd [] hjs) (by decide) (by decide)
  | bundleMap ho _ hgoal =>
    obtain ⟨hsingle, front, rfl⟩ := hout _ ho
    obtain rfl := hname hsingle hgoal
    have hmap : ".js.map".toList <:+ front ++ ".js".toList ++ ".map".toList := ⟨front, by simp⟩
    exact hends (ending_resolve ending_map cwd [] hmap) (by decide) (by decide)
  | above _ hkind hat _ => exact absurd hat (habove _ (hkind.imp_right And.right))

/-- A run writes no source, if it bundles only to scripts and its working directory lies neither at
nor below the name of a script or a map. -/
theorem run_writes_no_source (h : Host (StateM σ)) (library : Path) {c : Configuration}
    (hb : ∀ b, c.basePath = some b → ∃ start, b = start ++ ['/'])
    (hout : ∀ out, c.outFile = some out → c.singleOutput = true ∧ ".js".toList <:+ out)
    (habove : ∀ name, ".js".toList <:+ name ∨ ".js.map".toList <:+ name → ¬AtOrAbove h.cwd name)
    (inputs : List Path) (w : Trace σ) :
    ∀ p ∈ (exec (run h.recorded library c inputs) w).1.written, ¬".ts".toList <:+ p :=
  fun p hp => not_source_of_exposed (run_writes_exposed h library hb inputs w p hp) hout habove

end BatchCompile
