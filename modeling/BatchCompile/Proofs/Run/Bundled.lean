import BatchCompile.Proofs.Placement.Bundles
import BatchCompile.Proofs.Placement.Names
import BatchCompile.Proofs.Run.Unclosed

/-!
# Bundled runs

A bundled run that goes through writes the bundle, and its map if one is asked for, and nothing else
(`run_bundled`). The bundle is the lines of all units that do not only declare, and its map leads from
each of them back to the line that it was.
-/

namespace BatchCompile

open BatchCompile.Path

variable {σ : Type}

/-- A text is written to a path, without a mark, after the directories above it are made. -/
def Stores (h : Host (StateM σ)) (p : Path) (text : Text) (w w' : Trace σ) : Prop :=
  exec (h.recorded.writeFile p text false) w = (.ok (), w')

/-! ## What goes through -/

section

variable {h : Host (StateM σ)} {c : Configuration} {rs : List PhaseResult} {ps : List Path}
  {w w' : Trace σ}

theorem Passed.not_halted (hp : Passed h c rs ps w w') : ∀ r ∈ rs, ¬Halted c r := by
  induction hp with
  | nil => simp
  | cons hr _ _ ih => exact List.forall_mem_cons.2 ⟨hr, ih⟩

theorem Written.append {as bs : List Artifact} {qs : List Path} {w₁ : Trace σ}
    (h₁ : Written h c as ps w w₁) (h₂ : Written h c bs qs w₁ w') :
    Written h c (as ++ bs) (ps ++ qs) w w' := by
  induction h₁ with
  | nil => exact h₂
  | cons hp _ ih => exact .cons hp (ih h₂)

theorem Passed.written (hp : Passed h c rs ps w w') (hd : ∀ r ∈ rs, r.diagnostics = []) :
    Written h c (rs.flatMap PhaseResult.artifacts) ps w w' := by
  induction hp with
  | nil w => exact .nil w
  | cons _ hw _ ih =>
    obtain ⟨hr, hd⟩ := List.forall_mem_cons.1 hd
    rw [hr] at hw
    exact Written.append hw (ih hd)

/-- Where all phases go through, sources are passed through without a word. -/
theorem Passed.written_passThrough {settings : Settings} {absolute : Path → Path}
    {units : List SourceUnit}
    (hp : Passed h c (Engine.passThrough settings absolute units) ps w w') :
    Written h c (artifacts settings absolute units) ps w w' := by
  have hd : ∀ r ∈ Engine.passThrough settings absolute units, r.diagnostics = [] := by
    intro r hr
    have hnot := hp.not_halted r hr
    rw [halted_passThrough_iff hr] at hnot
    rw [diagnostics_passThrough hr]
    split
    · rename_i hphase
      refine List.filterMap_eq_nil_iff.2 fun u hu => ?_
      cases hf : u.commentFault? with
      | none => rfl
      | some d => exact absurd ⟨hphase, u, hu, (commentFault?_eq_some hf).1⟩ hnot
    · rfl
  rw [← flatMap_passThrough]
  exact hp.written hd

theorem Placed.stores {a : Artifact} {p : Path} (hs : c.singleOutput = true)
    (ha : h.absolute a.name = a.name) (hm : a.marked = false) (hp : Placed h c a p w w') :
    p = a.name ∧ Stores h a.name a.text w w' := by
  obtain ⟨goal, text, w₁, hgoal, rfl, htext, he, hw⟩ := hp
  rw [destination_of_singleOutput hs] at hgoal
  obtain rfl := Except.ok.inj hgoal
  rw [placedText_of_singleOutput hs] at htext
  obtain rfl := Except.ok.inj htext
  rw [ha] at he hw
  rw [hm] at hw
  refine ⟨ha, ?_⟩
  rw [Stores, Host.writeFile, exec_bind, he]
  exact hw

end

/-! ## Units -/

theorem path_of_units {h : Host (StateM σ)} {I : Trace σ → Prop} {P : Path → Prop}
    {files : List ResolvedFile} {units : List SourceUnit}
    (hunits : List.Forall₂ (UnitFor h I) files units) (hfiles : ∀ f ∈ files, P f.path) :
    ∀ u ∈ units, P u.path := by
  intro u hu
  have hpath : u.path ∈ units.map SourceUnit.path := List.mem_map_of_mem hu
  rw [paths_of_units hunits] at hpath
  obtain ⟨f, hf, he⟩ := List.mem_map.1 hpath
  exact he ▸ hfiles f hf

theorem anchored_filesToCompile {h : Host (StateM σ)} (hroot : isRooted h.cwd = true)
    (library : Path) (c : Configuration) {resolution : Resolution}
    (hfiles : FilesIn (fun p => ∃ q, p = forward (h.absolute q)) resolution.files) :
    ∀ f ∈ filesToCompile (combine (h.absolute library) libraryFile) c resolution,
      Anchored f.path := by
  have hall : ∀ f ∈ resolution.files, Anchored f.path := by
    intro f hf
    obtain ⟨⟨q, hq⟩, -⟩ := hfiles f hf
    have hanch : Anchored (h.absolute q) := anchored_resolve hroot q
    rwa [hq, hanch.forward]
  have hlibrary : Anchored (combine (h.absolute library) libraryFile) :=
    anchored_combine (anchored_resolve hroot library).isRooted (by decide)
  unfold filesToCompile
  split
  · exact hall
  · exact List.forall_mem_cons.2 ⟨hlibrary, hall⟩

/-! ## Runs -/

/-- The bundle, and its map if one is asked for, are stored one after the other. No lines but those of
the units give the text of the bundle, and the map leads from them back to the units. -/
structure Bundled (h : Host (StateM σ)) (c : Configuration) (out : Path) (units : List SourceUnit)
    (written : List Path) (w w' : Trace σ) : Prop where
  plain : c.sourceMap = false → written = [out] ∧
    Stores h out (Text.join c.newLine.text (linesOfUnits units)) w w'
  mapped : c.sourceMap = true → written = [out, out ++ ".map".toList] ∧
    ∃ document w₁,
      Stores h out (withMap c.newLine.text (Text.join c.newLine.text (linesOfUnits units))
        (baseName (out ++ ".map".toList))) w w₁ ∧
      Stores h (out ++ ".map".toList) document w₁ w' ∧
      ∃ directory sources mappings segments, dirName out = some directory ∧
        Documents document sources mappings ∧ Segment.decode? mappings = some segments ∧
        MapsBack directory units sources segments
  faithful : ∀ lines, lines ≠ [] → linesOfUnits units ≠ [] → (∀ l ∈ lines, '\n' ∉ l) →
    Text.join c.newLine.text lines = Text.join c.newLine.text (linesOfUnits units) →
    lines = linesOfUnits units

theorem Written.bundled {h : Host (StateM σ)} {c : Configuration} {oo : List Text} {x : Text}
    {units : List SourceUnit} {ps : List Path} {w w' : Trace σ} (hc : FromTop h.cwd)
    (hs : c.singleOutput = true) (ho : ∀ s ∈ oo, Ordinary s) (hx : Ordinary x)
    (hxm : Ordinary (x ++ ".map".toList)) (hu : ∀ u ∈ units, Anchored u.path)
    (hw : Written h c (bundleArtifacts c.settings (atTop (oo ++ [x])) units) ps w w') :
    Bundled h c (atTop (oo ++ [x])) units ps w w' := by
  have hmapName : atTop (oo ++ [x]) ++ ".map".toList = atTop (oo ++ [x ++ ".map".toList]) := by
    obtain ⟨front, -, hfront⟩ := exists_front oo
    rw [atTop, atTop, hfront, hfront]
    simp
  have habs : ∀ {y}, Ordinary y → h.absolute (atTop (oo ++ [y])) = atTop (oo ++ [y]) := fun hy =>
    resolve_atTop hc (List.forall_mem_append.2 ⟨ho, List.forall_mem_singleton.2 hy⟩)
  have hdir : dirName (atTop (oo ++ [x])) = some (atTop oo) :=
    dirName_atTop (isSegment_all (List.forall_mem_append.2 ⟨ho, List.forall_mem_singleton.2 hx⟩))
  have hlines : (units.map fun u => Text.lines u.text).flatten = linesOfUnits units := rfl
  rw [bundleArtifacts, hdir, Option.getD_some, hlines, scriptArtifacts] at hw
  refine ⟨fun hm => ?_, fun hm => ?_, fun _ hl hne hfree => eq_linesOfUnits _ hl hne hfree⟩
  · rw [show c.settings.mapSources = false from hm] at hw
    cases hw with
    | cons hp hrest =>
      cases hrest
      obtain ⟨rfl, hstore⟩ := hp.stores hs (habs hx) rfl
      exact ⟨rfl, hstore⟩
  · rw [show c.settings.mapSources = true from hm] at hw
    cases hw with
    | cons hp hrest =>
      cases hrest with
      | cons hp' hrest =>
        cases hrest
        obtain ⟨rfl, hstore⟩ := hp.stores hs (habs hx) rfl
        obtain ⟨rfl, hstore'⟩ := hp'.stores hs (hmapName ▸ habs hxm) rfl
        obtain ⟨segments, hdecode, hback⟩ := mapsBack_bundle ho hu
        exact ⟨rfl, _, _, hstore, hstore', _, _, _, segments, hdir, documents_of _ _ _, hdecode,
          hback⟩

/-- A bundled run that goes through asks for no change but to store the bundle of all units that do
not only declare. -/
theorem run_bundled {h : Host (StateM σ)} (hc : FromTop h.cwd) (options : Options)
    (goal : Option Path) {out : Path}
    (hout : (Configuration.resolve h.cwd options goal).outFile = some out) (ht : FromTop out)
    (library : Path) (inputs : List Path) {w w' : Trace σ} {report : Report}
    (hrun : exec (run h.recorded library (Configuration.resolve h.cwd options goal) inputs) w =
      (report, w')) (habort : report.abort = none) :
    ∃ w₁ w₂, changes w₁ = changes w ∧
      Bundled h (Configuration.resolve h.cwd options goal) out
        (report.units.filter fun u => !u.isDeclaration) report.written w₁ w₂ ∧
      w' = told h ((Summary.of report.written).lines true) w₂ := by
  obtain ⟨hs, oo, x, ho, hx, hxm, rfl⟩ := exists_outFile hc hout ht
  generalize Configuration.resolve h.cwd options goal = c at *
  obtain ⟨resolution, units, caches, w₁, w₂, hg, hres⟩ :=
    exec_gather h c Resolver.directives library inputs w
  obtain ⟨hfiles, hbegun⟩ := hres.begun h.steady_trivial (fun I hask => holds_directives
    (keeps_services hask) inputs c.settings.caseSensitive) trivial
  have hroot : isRooted h.cwd = true := isRooted_iff.2 (.inl hc)
  have hanch := path_of_units hbegun.units (anchored_filesToCompile hroot library c hfiles)
  rcases takeResults_policy (h := h) (c := c)
      (Engine.passThrough c.settings h.absolute units) w₂ with
    ⟨ps, w₃, he, hp⟩ | ⟨before, r, rest, why, done, last, ps, qs, w₃, w₄, -, -, -, he⟩
  · rw [run, exec_runWith hg he] at hrun
    cases hrun
    have hw := hp.written_passThrough
    rw [artifacts, show c.settings.outFile = _ from hout] at hw
    refine ⟨w₂, w₃, hbegun.changes, ?_, ?_⟩
    · exact Written.bundled hc hs ho hx hxm (fun u hu => hanch u (List.mem_filter.1 hu).1) hw
    · rw [hs]
      rfl
  · rw [run, exec_runWith hg he] at hrun
    cases hrun
    cases habort

def threeSources : Memory where
  files := [("/work/a.ts".toList, ⟨"let a;\nlet b;".toList, .none⟩),
    ("/work/lib/b.ts".toList, ⟨[], .none⟩), ("/work/c.ts".toList, ⟨"let c;\n".toList, .none⟩)]
  directories := ["/".toList, "/work".toList, "/work/lib".toList]
  unreadable := []
  unwritable := []

def mapOptions : Options :=
  { Options.unset with noLib := some true, sourceMap := some true }

/-- A bundle of three sources is stored with a map that leads back to them. -/
theorem run_bundled_three :
    let c := Configuration.resolve "/work".toList mapOptions (some "dist/out.js".toList)
    let o := exec (run (Memory.host "/work".toList).recorded [] c
      ["a.ts".toList, "lib/b.ts".toList, "c.ts".toList]) ([], threeSources)
    let units := o.1.units.filter fun u => !u.isDeclaration
    units.length = 3 ∧ ∃ w₁ w₂, changes w₁ = [] ∧
      Bundled (Memory.host "/work".toList) c "/work/dist/out.js".toList units o.1.written w₁ w₂ := by
  intro c
  have hout : (Configuration.resolve (Memory.host "/work".toList).cwd mapOptions
      (some "dist/out.js".toList)).outFile = some "/work/dist/out.js".toList := by decide +kernel
  have hmade : ∀ o, exec (run (Memory.host "/work".toList).recorded [] c
      ["a.ts".toList, "lib/b.ts".toList, "c.ts".toList]) ([], threeSources) = o →
      o.1.abort = none ∧ (o.1.units.filter fun u => !u.isDeclaration).length = 3 := by
    rintro _ rfl
    decide +kernel
  rcases hrun : exec (run (Memory.host "/work".toList).recorded [] c
    ["a.ts".toList, "lib/b.ts".toList, "c.ts".toList]) ([], threeSources) with ⟨report, w'⟩
  obtain ⟨habort, hunits⟩ := hmade _ hrun
  obtain ⟨w₁, w₂, hchanges, hbundled, -⟩ := run_bundled (h := Memory.host "/work".toList)
    (by decide) mapOptions _ hout (by decide) [] _ hrun habort
  exact ⟨hunits, w₁, w₂, hchanges, hbundled⟩

def driveSource : Memory where
  files := [("C:/x.ts".toList, ⟨"let x;\n".toList, .none⟩)]
  directories := ["/".toList, "/work".toList, "C:/".toList]
  unreadable := []
  unwritable := []

/-- A source on a drive is not found from the directory of a bundle at the top. -/
theorem drive_source_not_found :
    let c := Configuration.resolve "/work".toList mapOptions (some "out.js".toList)
    let o := exec (run (Memory.host "/work".toList).recorded [] c ["C:/x.ts".toList])
      ([], driveSource)
    let units := o.1.units.filter fun u => !u.isDeclaration
    o.1.abort = none ∧ c.outFile = some "/work/out.js".toList ∧
      dirName "/work/out.js".toList = some "/work".toList ∧
      ∃ document sources mappings,
        o.2.2.file? "/work/out.js.map".toList = some ⟨document, .none⟩ ∧
        Documents document sources mappings ∧
        ¬∀ (k : Nat) (u : SourceUnit) (r : Path), units[k]? = some u → sources[k]? = some r →
          combine "/work".toList r = u.path := by
  intro c
  have hmade : ∀ o, exec (run (Memory.host "/work".toList).recorded [] c ["C:/x.ts".toList])
      ([], driveSource) = o → o.1.abort = none ∧
      o.2.2.file? "/work/out.js.map".toList = some
        ⟨(MapDocument.of "out.js".toList ["C:/x.ts".toList] "AAAA".toList).text, .none⟩ ∧
      ((o.1.units.filter fun u => !u.isDeclaration)[0]?).map SourceUnit.path =
        some "C:/x.ts".toList := by
    rintro _ rfl
    decide +kernel
  generalize exec (run (Memory.host "/work".toList).recorded [] c ["C:/x.ts".toList])
    ([], driveSource) = o at hmade ⊢
  obtain ⟨habort, hfile, hpath⟩ := hmade o rfl
  refine ⟨habort, by decide, by decide, _, _, _, hfile, documents_of _ _ _, fun hall => ?_⟩
  obtain ⟨u, hu, hp⟩ := Option.map_eq_some_iff.1 hpath
  have hfound := hall 0 u "C:/x.ts".toList hu rfl
  rw [hp] at hfound
  revert hfound
  decide

end BatchCompile
