import BatchCompile.Proofs.Placement.Apart
import BatchCompile.Proofs.Run.Bundled
import Mathlib.Data.List.Nodup

/-!
# Artifacts that collide

A run does not look whether two of its artifacts go to one path, and the later one then replaces the
earlier (`artifacts_collide`). Below a destination directory this comes of two sources with one stem,
or of a way that leads through the destination itself. Without either all artifacts have paths of
their own (`run_written_nodup`).
-/

namespace BatchCompile

open BatchCompile.Path

/-! ## Names -/

theorem join_concat_append (sep : Text) (ss : List Text) (s t : Text) :
    Text.join sep (ss ++ [s]) ++ t = Text.join sep (ss ++ [s ++ t]) := by
  by_cases hs : ss = []
  · simp [hs]
  · rw [Text.join_append sep hs (List.cons_ne_nil _ _), Text.join_append sep hs (List.cons_ne_nil _ _),
      Text.join_singleton, Text.join_singleton, List.append_assoc]

theorem ending_mapExtension : Ending ".map".toList :=
  ⟨by decide, by decide, by decide, by decide⟩

theorem anchored_append_map {name : Path} (h : Anchored name) (hjs : ".js".toList <:+ name) :
    Anchored (name ++ ".map".toList) := by
  obtain ⟨us, s, hlast, hend⟩ := ending_script.exists_last_segment hjs
  obtain ⟨root, ss, hroot, hs, rfl⟩ := h
  rw [of_through hroot (isSegment_all hs)] at hlast
  obtain rfl : ss = us ++ [s] := hlast
  obtain ⟨hu, hlast⟩ := List.forall_mem_append.1 hs
  have hs := hlast s (List.mem_singleton_self s)
  obtain ⟨hself, hup⟩ := ending_mapExtension.leadsDown (List.suffix_append s _)
  have hordinary : Ordinary (s ++ ".map".toList) := by
    refine ⟨⟨by simp, fun hm => ?_, fun hm => ?_⟩, hself, hup⟩
    · exact (List.mem_append.1 hm).elim hs.slash ending_mapExtension.slash
    · exact (List.mem_append.1 hm).elim hs.backslash ending_mapExtension.backslash
  refine ⟨root, us ++ [s ++ ".map".toList], hroot,
    List.forall_mem_append.2 ⟨hu, List.forall_mem_singleton.2 hordinary⟩, ?_⟩
  rw [Root.through, Root.through, List.append_assoc, join_concat_append]

theorem anchored_of_mem_fileNames {settings : Settings} {name p : Path} (h : Anchored name)
    (hjs : ".js".toList <:+ name) (hp : p ∈ fileNames settings name) : Anchored p := by
  rcases mem_fileNames hp with rfl | ⟨-, rfl⟩
  · exact h
  · exact anchored_append_map h hjs

/-- No script is named like a map. -/
theorem ne_append_map {name name' : Path} (h : ".js".toList <:+ name) :
    name ≠ name' ++ ".map".toList := by
  rintro rfl
  obtain ⟨front, hfront⟩ := h
  have hlast := congrArg List.getLast? hfront
  simp at hlast

theorem nodup_fileNames {settings : Settings} {names : List Path} (h : names.Nodup)
    (hjs : ∀ n ∈ names, ".js".toList <:+ n) : (names.flatMap (fileNames settings)).Nodup := by
  refine List.nodup_flatMap.2 ⟨fun n _ => ?_, h.imp_of_mem fun {n n'} hn hn' hne => ?_⟩
  · unfold fileNames
    split
    · simp
    · exact List.nodup_singleton n
  · intro p hp hp'
    rcases mem_fileNames hp with rfl | ⟨-, rfl⟩ <;> rcases mem_fileNames hp' with he | ⟨-, he⟩
    · exact hne he
    · exact ne_append_map (hjs _ hn) he
    · exact ne_append_map (hjs _ hn') he.symm
    · exact hne (List.append_cancel_right he)

/-! ## Paths -/

variable {σ : Type}

/-- If artifacts with different names never go to one path, all go to paths of their own. -/
theorem nodup_of_goesTo {h : Host (StateM σ)} {c : Configuration} {as : List Artifact}
    {ps : List Path} (hgoes : List.Forall₂ (GoesTo h c) as ps)
    (hnames : (as.map Artifact.name).Nodup)
    (happart : ∀ a ∈ as, ∀ b ∈ as, ∀ p, GoesTo h c a p → GoesTo h c b p → a.name = b.name) :
    ps.Nodup := by
  induction hgoes with
  | nil => exact List.nodup_nil
  | @cons a p as ps ha hrest ih =>
    obtain ⟨hnew, hnames⟩ := List.nodup_cons.1 hnames
    refine List.nodup_cons.2 ⟨fun hp => hnew ?_, ih hnames fun a ha b hb =>
      happart a (List.mem_cons_of_mem _ ha) b (List.mem_cons_of_mem _ hb)⟩
    obtain ⟨b, hb, hgoes⟩ := exists_of_mem_right hrest hp
    rw [happart a List.mem_cons_self b (List.mem_cons_of_mem _ hb) p ha hgoes]
    exact List.mem_map_of_mem hb

/-- A run with a destination directory that goes through writes each artifact to a path of its own, if
no two sources have one name for their scripts and no artifact is moved through the destination. -/
theorem run_written_nodup {h : Host (StateM σ)} (hc : isRooted h.cwd = true) {c : Configuration}
    {directory : Path} (hs : c.singleOutput = false) (ho : c.outFile = none)
    (hd : c.destination = some directory)
    (hb : ∀ b, c.basePath = some b → ∃ start, b = start ++ ['/']) (library : Path)
    (inputs : List Path) {w w' : Trace σ} {report : Report}
    (hrun : exec (run h.recorded library c inputs) w = (report, w')) (habort : report.abort = none)
    (hstems : (scriptNames h.absolute report.units).Nodup)
    (hclear : ∀ a ∈ artifacts c.settings h.absolute report.units,
      Clear h.cwd directory c.basePath a.name) :
    List.Forall₂ (GoesTo h c) (artifacts c.settings h.absolute report.units) report.written ∧
      report.written.Nodup := by
  obtain ⟨resolution, units, caches, w₁, w₂, hg, -⟩ :=
    exec_gather h c Resolver.directives library inputs w
  rcases takeResults_policy (h := h) (c := c)
      (Engine.passThrough c.settings h.absolute units) w₂ with
    ⟨ps, w₃, he, hp⟩ | ⟨before, r, rest, why, done, last, ps, qs, w₃, w₄, -, -, -, he⟩
  · rw [run, exec_runWith hg he] at hrun
    cases hrun
    have hgoes := hp.written_passThrough.goesTo
    have hnames := names_artifacts c.settings h.absolute units
    rw [show c.settings.outFile = none from ho] at hnames
    have hjs : ∀ n ∈ scriptNames h.absolute units, ".js".toList <:+ n := fun n =>
      ending_of_mem_scriptNames
    have hanchored : ∀ a ∈ artifacts c.settings h.absolute units, Anchored a.name := by
      intro a ha
      have hmem : a.name ∈ (artifacts c.settings h.absolute units).map Artifact.name :=
        List.mem_map_of_mem ha
      rw [hnames] at hmem
      obtain ⟨n, hn, hname⟩ := List.mem_flatMap.1 hmem
      obtain ⟨u, -, rfl⟩ := List.mem_map.1 hn
      exact anchored_of_mem_fileNames (anchored_resolve hc _) (hjs _ hn) hname
    refine ⟨hgoes, nodup_of_goesTo hgoes (hnames ▸ nodup_fileNames hstems hjs) ?_⟩
    rintro a ha b hb' p ⟨goal, hgoal, rfl⟩ ⟨goal', hgoal', he⟩
    obtain ⟨rest, rfl, -⟩ := exists_rest hs hd hgoal
    obtain ⟨rest', rfl, -⟩ := exists_rest hs hd hgoal'
    have hsame := resolve_eq_of_destination_eq hc hs hd hb (hclear a ha) (hclear b hb') hgoal hgoal'
    rw [Host.absolute, Host.absolute, resolve_anchored _ (anchored_resolve_all hc _),
      resolve_anchored _ (anchored_resolve_all hc _)] at he
    rw [← resolve_anchored h.cwd (hanchored a ha), ← resolve_anchored h.cwd (hanchored b hb')]
    exact hsame (congrArg stepsOf he)
  · rw [run, exec_runWith hg he] at hrun
    cases hrun
    cases habort

/-- A source below the working directory, others beside it and one on a drive. -/
def spreadSources : Memory where
  files := [("/work/src/a.ts".toList, ⟨"let a;\n".toList, .none⟩),
    ("/lib/b.ts".toList, ⟨"let b;\n".toList, .none⟩), ("/work/a.ts".toList, ⟨[], .none⟩),
    ("/work/a.tsx".toList, ⟨[], .none⟩), ("/dist/a.ts".toList, ⟨[], .none⟩),
    ("/a.ts".toList, ⟨[], .none⟩), ("C:/a.ts".toList, ⟨[], .none⟩),
    ("/work/C:/a.ts".toList, ⟨[], .none⟩)]
  directories := ["/".toList, "/work".toList, "/work/src".toList, "/lib".toList, "/dist".toList,
    "C:/".toList, "/work/C:".toList]
  unreadable := []
  unwritable := []

def spreadConfiguration (sourceMap : Bool) (directory : String) : Configuration :=
  Configuration.resolve "/work".toList
    { Options.unset with noLib := some true, sourceMap := some sourceMap } (some directory.toList)

def spreadRun (sourceMap : Bool) (directory : String) (inputs : List String) :
    Report × Trace Memory :=
  exec (run (Memory.host "/work".toList).recorded [] (spreadConfiguration sourceMap directory)
    (inputs.map String.toList)) ([], spreadSources)

/-- Scripts and maps of a source below the working directory and of one beside it do not meet. -/
theorem run_written_nodup_spread :
    let written := (spreadRun true "dist" ["src/a.ts", "../lib/b.ts"]).1.written
    written = ["/work/dist/src/a.js".toList, "/work/dist/src/a.js.map".toList,
      "/work/lib/b.js".toList, "/work/lib/b.js.map".toList] ∧ written.Nodup := by
  have hmade : ∀ o, spreadRun true "dist" ["src/a.ts", "../lib/b.ts"] = o →
      o.1.abort = none ∧ (scriptNames (Memory.host "/work".toList).absolute o.1.units).Nodup ∧
        (∀ n ∈ (artifacts (spreadConfiguration true "dist").settings
          (Memory.host "/work".toList).absolute o.1.units).map Artifact.name,
          Clear "/work".toList "dist".toList none n) ∧
        o.1.written = ["/work/dist/src/a.js".toList, "/work/dist/src/a.js.map".toList,
          "/work/lib/b.js".toList, "/work/lib/b.js.map".toList] := by
    rintro _ rfl
    decide +kernel
  have hbase : (spreadConfiguration true "dist").basePath = none := rfl
  rcases hrun : spreadRun true "dist" ["src/a.ts", "../lib/b.ts"] with ⟨report, w'⟩
  obtain ⟨habort, hstems, hclear, hwritten⟩ := hmade _ hrun
  have hdirectory : (spreadConfiguration true "dist").destination = some "dist".toList := by decide
  exact ⟨hwritten, (run_written_nodup (h := Memory.host "/work".toList) (by decide) (by decide)
    (by decide) hdirectory (by simp [hbase]) [] _ hrun habort hstems
    fun a ha => hclear _ (List.mem_map_of_mem ha)).2⟩

/-- A run goes through and writes twice to some path. -/
def Collides (report : Report) : Prop :=
  report.abort = none ∧ ¬report.written.Nodup

instance : DecidablePred Collides :=
  fun report => inferInstanceAs (Decidable (report.abort = none ∧ ¬report.written.Nodup))

/-- What collides: the scripts of sources with one stem; a way back through the destination; a way
past the top; and a way that a drive cuts short. -/
theorem artifacts_collide :
    Collides (spreadRun false "dist" ["a.ts", "a.tsx"]).1 ∧
      Collides (spreadRun false "dist" ["a.ts", "/dist/a.ts"]).1 ∧
      Collides (spreadRun false "/" ["a.ts", "/a.ts"]).1 ∧
      Collides (spreadRun false "dist" ["C:/a.ts", "/work/C:/a.ts"]).1 := by
  decide +kernel

end BatchCompile
