import BatchCompile.Proofs.Caches
import BatchCompile.Proofs.Path.Endings
import BatchCompile.Proofs.Run.Again
import BatchCompile.Proofs.Run.Sources
import Mathlib.Data.List.Dedup
import Mathlib.Data.List.Perm.Subperm

/-!
# Building again

A run that follows a run and compiles the same inputs finds other files than the first one did:
those that the first one wrote. As long as these do not end like sources, and all that the
resolution finds and misses does, they do not matter. The second run finds the same files
(`directives_sameSources`), has the same units, reports the same and writes the same, and leaves the
tree as the first one left it (`runWith_again`).
-/

namespace BatchCompile

open BatchCompile.Path

variable {σ : Type}

/-! ## Sources -/

/-- Two trees hold the same sources and refuse to read the same files. -/
structure Memory.SameSources (m m' : Memory) : Prop where
  unreadable : m'.unreadable = m.unreadable
  file? : ∀ p, ".ts".toList <:+ p → m'.file? p = m.file? p

theorem stripQuotes_source {p : Path} (hp : ".ts".toList <:+ p) : stripQuotes p = p := by
  obtain ⟨front, rfl⟩ := hp
  cases front with
  | nil => rfl
  | cons first front =>
    have hlast : (front ++ ".ts".toList).getLast? = some 's' := by simp [List.getLast?_append]
    show (if (first = '"' ∨ first = '\'') ∧ (front ++ ".ts".toList).getLast? = some first then _
      else _) = _
    rw [hlast, if_neg]
    rintro ⟨rfl | rfl, h⟩ <;> cases h

namespace Memory

variable {m m' : Memory} {cwd : Path}

theorem hasFile_iff {p : Path} : m.hasFile p = true ↔ p ∈ m.files.map (·.1) := by
  simp [hasFile, file?, List.find?_isSome]

theorem SameSources.read (hs : m.SameSources m') {p : Path} (hp : ".ts".toList <:+ p) :
    ((host cwd).frozen m').read p = ((host cwd).frozen m).read p := by
  have hplace : ".ts".toList <:+ resolve cwd [p] := ending_resolve ending_source cwd [] hp
  have hread : m'.read (resolve cwd [p]) = m.read (resolve cwd [p]) := by
    rw [Memory.read, Memory.read, hs.unreadable, hs.file? _ hplace]
  show ((host cwd).read p m').1 = ((host cwd).read p m).1
  rw [read_host, read_host, hread]

variable (hroot : isRooted cwd = true) (hs : m.SameSources m')

include hroot hs

theorem agree_of_sameSources : (Services.direct ((host cwd).frozen m)).Agree
    (.direct ((host cwd).frozen m')) Anchored (".ts".toList <:+ ·) where
  parentDirectory _ _ := rfl
  resolve _ _ _ := rfl
  means _ _ _ := anchored_resolve_all hroot _
  imports name directory _ := by
    have hends : ∀ e : Text, ".ts".toList <:+ e →
        ".ts".toList <:+ resolve cwd (directory.toList ++ [stripQuotes (name ++ e)]) := by
      intro e he
      have hname := he.trans (List.suffix_append name e)
      rw [stripQuotes_source hname]
      exact ending_resolve ending_source cwd _ hname
    exact ⟨hends _ (List.suffix_refl _), hends _ (by decide)⟩
  fileExists p _ hp := by
    have hplace : ".ts".toList <:+ resolve cwd [p] := ending_resolve ending_source cwd [] hp
    show m'.hasFile (resolve cwd [p]) = m.hasFile (resolve cwd [p])
    rw [hasFile, hasFile, hs.file? _ hplace]
  sourceText p _ hp _ := congrArg (fun r => (Source.orEmpty (Id.run r)).text) (hs.read hp)

/-- On trees with the same sources, one of which has grown to be the other, a resolution that is
made of sources is the same. -/
theorem directives_sameSources (hgrows : m.outline.Grows m'.outline) {entries : List Path}
    {caseSensitive : Bool}
    (hw : (Resolver.directives entries (.direct ((host cwd).frozen m)) caseSensitive).run.Within
      (".ts".toList <:+ ·)) :
    (Resolver.directives entries (.direct ((host cwd).frozen m')) caseSensitive).run =
      (Resolver.directives entries (.direct ((host cwd).frozen m)) caseSensitive).run := by
  let files := (m.files.map (·.1)).dedup
  have hbound : ∀ tree : Memory, files ⊆ tree.files.map (·.1) →
      files.length ≤ tree.files.length * (cwd.length + 2) := fun tree hsub => by
    have hlength := (List.Nodup.subperm (List.nodup_dedup _) hsub).length_le
    rw [List.length_map] at hlength
    exact hlength.trans (Nat.le_mul_of_pos_right _ (by omega))
  have hfiles : ∀ p, Anchored p →
      ((Services.direct ((host cwd).frozen m)).fileExists p).run = true → p ∈ files := by
    intro p hp hfile
    change m.hasFile (resolve cwd [p]) = true at hfile
    rw [resolve_anchored cwd hp] at hfile
    exact List.mem_dedup.2 (hasFile_iff.1 hfile)
  have hgrown : files ⊆ m'.files.map (·.1) := fun p hp =>
    hasFile_iff.1 (hgrows.files p (hasFile_iff.2 (List.mem_dedup.1 hp)))
  exact directives_congr_of_files (agree_of_sameSources hroot hs) hfiles
    (hbound m fun p hp => List.mem_dedup.1 hp) (hbound m' hgrown) hw

end Memory

/-! ## Before the first phase -/

section

variable {h : Host (StateM σ)}

/-- What actions on a recorded host give back, started where the world is `kept`. -/
def Outlook.traced (kept : σ → Prop) : Outlook (Traced σ) where
  gives x a := ∀ w, kept w.2 → (exec x w).1 = a ∧ kept (exec x w).2.2
  gives_pure _ _ hw := ⟨rfl, hw⟩
  gives_bind hx hf w hw := by
    obtain ⟨rfl, hw'⟩ := hx w hw
    exact hf _ hw'

theorem Host.Answers.recorded {kept : σ → Prop} {truth : Host Id} (ha : h.Answers (.of kept) truth) :
    h.recorded.Answers (.traced kept) truth where
  cwd := ha.cwd
  read p w hw := ha.read p w.2 hw
  fileExists p w hw := ha.fileExists p w.2 hw
  pathBound w hw := ha.pathBound w.2 hw

theorem asks_silent (h : Host (StateM σ)) : h.recorded.AsksKeep (Guarantee.silent σ) :=
  ⟨fun _ _ => ⟨trivial, rfl⟩, fun _ _ => ⟨trivial, rfl⟩, fun _ _ => ⟨trivial, rfl⟩,
    fun _ => ⟨trivial, rfl⟩⟩

theorem messages_forM_printLine {α : Type} (text : α → Text) (on : Channel) (as : List α)
    (w : Trace σ) :
    Journal.messages (exec (as.forM fun a => h.recorded.printLine on (text a)) w).2.1 =
      (as.map fun a => (on, h.layout (text a))).reverse ++ Journal.messages w.1 := by
  induction as generalizing w with
  | nil => rfl
  | cons a as ih =>
    rw [exec_forM_cons, ih, List.map_cons, List.reverse_cons, List.append_assoc]
    rfl

/-- The unit of a file, as a host answers. -/
def unitIn (truth : Host Id) (f : ResolvedFile) : SourceUnit :=
  let s := Source.orEmpty (truth.read f.path).run
  ⟨f.path, s.text, s.mark, f.references⟩

def resolutionIn (truth : Host Id) (c : Configuration) (inputs : List Path) : Resolution :=
  (Resolver.directives inputs (.direct truth) c.settings.caseSensitive).run

def unitsIn (truth : Host Id) (library : Path) (c : Configuration) (r : Resolution) :
    List SourceUnit :=
  (filesToCompile (combine (truth.absolute library) libraryFile) c r).map (unitIn truth)

theorem UnitFor.eq {s : σ} {f : ResolvedFile} {u : SourceUnit}
    (hu : UnitFor h (fun v => v.2 = s) f u) : u = unitIn (h.frozen s) f := by
  obtain ⟨hpath, hreferences, v, rfl, hsource⟩ := hu
  obtain ⟨path, text, mark, references⟩ := u
  change path = f.path at hpath
  change references = f.references at hreferences
  change (⟨text, mark⟩ : Source) = .orEmpty (h.read f.path v.2).1 at hsource
  subst hpath hreferences
  show _ = SourceUnit.mk f.path (Source.orEmpty (h.read f.path v.2).1).text
    (Source.orEmpty (h.read f.path v.2).1).mark f.references
  rw [← hsource]

theorem exec_gather_frozen {w : Trace σ} (hs : h.Steady (· = w.2))
    (ha : h.Answers (.of (· = w.2)) (h.frozen w.2)) (hroot : isRooted h.cwd = true)
    (library : Path) (c : Configuration) (inputs : List Path) :
    let resolution := resolutionIn (h.frozen w.2) c inputs
    ∃ caches w', exec ((gather h.recorded Resolver.directives library c inputs).run .empty) w =
        (((resolution, unitsIn (h.frozen w.2) library c resolution), caches), w') ∧
      w'.2 = w.2 ∧ Journal.messages w'.1 =
        (resolution.diagnostics.map fun d => (Channel.error, h.layout d.shown)).reverse ++
          Journal.messages w.1 := by
  intro resolution
  obtain ⟨resolution', units, caches, w₁, w₂, hg, hres⟩ :=
    exec_gather h c Resolver.directives library inputs w
  obtain ⟨-, hbegun⟩ := hres.begun (P := fun _ => True) hs (fun I hask =>
    asks_directives _ _ _ (keeps_services hask) inputs c.settings.caseSensitive) rfl
  obtain ⟨caches₁, caches₂, hr, hu⟩ := hres.answer
  obtain ⟨caches₃, hgives⟩ := gives_cached ha.recorded hroot inputs c.settings.caseSensitive
  have hanswer := (hgives w rfl).1
  rw [hr] at hanswer
  obtain rfl : resolution' = resolution := congrArg Prod.fst hanswer
  have hunits : units = unitsIn (h.frozen w.2) library c resolution := by
    have hmap := List.forall₂_map_left_iff.2 (hbegun.units.imp fun f u hu => hu.eq.symm)
    rw [List.forall₂_eq_eq_eq] at hmap
    exact hmap.symm
  have hasked := (asks_directives _ _ _ (keeps_cached (asks_silent h)) inputs
    c.settings.caseSensitive .empty w).2
  have hread := (holds_cachedUnits (asks_silent h) (filesToCompile
    (combine (h.absolute library) libraryFile) c resolution) caches₁
    (reported h resolution.diagnostics w₁)).2
  rw [hr] at hasked
  rw [hu, reported] at hread
  refine ⟨caches, w₂, hunits ▸ hg, hbegun.keeps, ?_⟩
  rw [← hasked]
  exact hread.trans (messages_forM_printLine Diagnostic.shown .error resolution.diagnostics w₁)

end

/-! ## The second run -/

section

variable {h : Host (StateM σ)} {c : Configuration}

theorem StoredAs.unique : Relator.RightUnique (StoredAs h c) := by
  rintro a ⟨p, text, mark⟩ ⟨p', text', mark'⟩ ⟨goal, hgoal, hp, htext, hm⟩
    ⟨goal', hgoal', hp', htext', hm'⟩
  obtain rfl : goal = goal' := Except.ok.inj (hgoal.symm.trans hgoal')
  obtain rfl : text = text' := Except.ok.inj (htext.symm.trans htext')
  cases hp.trans hp'.symm
  cases hm.trans hm'.symm
  rfl

/-- What was stored last stays so when all is stored once more. -/
theorem Framed.file?_again {t t' t'' : Tree} {stored : List (Path × Source)}
    {goals goals' : List Path} (hf : Framed t stored goals t') (hf' : Framed t' stored goals' t'')
    (p : Path) : t''.file? p = t'.file? p := by
  rw [hf'.files, hf.files]
  cases lastStored? stored p <;> rfl

end

theorem file?_takeResults_again {h : Host (StateM σ)} {tree : σ → Tree} (hh : h.Shows tree)
    (hroot : isRooted h.cwd = true) {c : Configuration} {rs : List PhaseResult} {progress : Progress}
    {w w' v v' : Trace σ} (he : exec (takeResults h.recorded c rs) w = (progress, w'))
    (he' : exec (takeResults h.recorded c rs) v = (progress, v')) (htree : tree v.2 = tree w'.2)
    (p : Path) : (tree v'.2).file? p = (tree w'.2).file? p := by
  obtain ⟨done, rest, stored, goals, hall, hstored, hwritten, hframe⟩ :=
    framed_takeResults hh hroot he
  obtain ⟨done', rest', stored', goals', hall', hstored', hwritten', hframe'⟩ :=
    framed_takeResults hh hroot he'
  -- as many of the same artifacts were written, so the same was stored
  have hlength : done'.length = done.length := by
    have hmap := congrArg List.length (hwritten'.symm.trans hwritten)
    rw [List.length_map, List.length_map] at hmap
    rw [hstored'.length_eq, hmap, hstored.length_eq]
  obtain ⟨rfl, -⟩ := List.append_inj (hall'.symm.trans hall) hlength
  obtain rfl := List.right_unique_forall₂' StoredAs.unique hstored hstored'
  rw [htree] at hframe'
  exact hframe.file?_again hframe' p

/-! ## Runs -/

variable {cwd : Path}

theorem world_of_summary (b : Bool) (lines : List Text) (w : Trace Memory) :
    (if b then told (Memory.host cwd) lines w else w).2 = w.2 :=
  (Memory.steady_of cwd (· = w.2)).kept_summary b lines rfl

theorem messages_of_summary {h : Host (StateM σ)} (b : Bool) (lines : List Text) {w v : Trace σ}
    (hm : Journal.messages v.1 = Journal.messages w.1) :
    Journal.messages (if b then told h lines v else v).1 =
      Journal.messages (if b then told h lines w else w).1 := by
  cases b with
  | true =>
    have htold : ∀ u : Trace σ, Journal.messages (told h lines u).1 =
        (lines.map fun t => (Channel.output, h.layout t)).reverse ++ Journal.messages u.1 :=
      fun u => messages_forM_printLine id .output lines u
    exact (htold v).trans (hm ▸ (htold w).symm)
  | false => exact hm

theorem Memory.SameSources.unitsIn {m m' : Memory} (hs : m.SameSources m') (library : Path)
    (c : Configuration) {r : Resolution} (hr : r.Within (".ts".toList <:+ ·)) :
    unitsIn ((host cwd).frozen m') library c r = unitsIn ((host cwd).frozen m) library c r := by
  have hunit : ∀ f : ResolvedFile, ".ts".toList <:+ f.path →
      unitIn ((host cwd).frozen m') f = unitIn ((host cwd).frozen m) f := by
    intro f hf
    rw [unitIn, unitIn, hs.read hf]
  refine List.map_congr_left fun f hf => hunit f ?_
  unfold filesToCompile at hf
  split at hf
  · exact hr.files f hf
  · rcases List.mem_cons.1 hf with rfl | hf
    · exact ending_source.suffix_combine _ (by decide)
    · exact hr.files f hf

/-- A run on a tree gathers what the tree holds, and then the results of the phases decide. -/
theorem exec_runWith_frozen (hroot : isRooted cwd = true) (engine : Engine) (library : Path)
    (c : Configuration) (inputs : List Path) (m : Memory) :
    let h := Memory.host cwd
    let resolution := resolutionIn (h.frozen m) c inputs
    let units := unitsIn (h.frozen m) library c resolution
    ∃ w progress w', w.2 = m ∧
      Journal.messages w.1 =
        (resolution.diagnostics.map fun d => (Channel.error, h.layout d.shown)).reverse ∧
      exec (takeResults h.recorded c (engine c.settings h.absolute units)) w = (progress, w') ∧
      exec (runWith h.recorded Resolver.directives engine library c inputs) ([], m) =
        (⟨resolution, units, progress.pulled, progress.written, progress.abort⟩,
          if progress.abort.isNone then
            told h ((Summary.of progress.written).lines c.singleOutput) w'
          else w') := by
  intro h resolution units
  obtain ⟨caches, w, hg, hkept, hmessages⟩ := exec_gather_frozen (Memory.steady_of cwd (· = m))
    (Memory.answers_host cwd m) hroot library c inputs (w := ([], m))
  rcases ht : exec (takeResults h.recorded c (engine c.settings h.absolute units)) w with
    ⟨progress, w'⟩
  exact ⟨w, progress, w', hkept, hmessages.trans (List.append_nil _), ht, exec_runWith hg ht⟩

/-- Building again changes nothing. A run after a run, on the tree that the first one left, comes to
the same report, prints the same messages and leaves the tree as it is, if all that the first one
resolved or missed ends like a source and nothing that it wrote does. -/
theorem runWith_again (hroot : isRooted cwd = true) (engine : Engine) (library : Path)
    (c : Configuration) (inputs : List Path) {m : Memory} (hm : m.tree.WellFormed)
    {first second : Report × Trace Memory}
    (hfirst : exec (runWith (Memory.host cwd).recorded Resolver.directives engine library c inputs)
      ([], m) = first)
    (hsecond : exec (runWith (Memory.host cwd).recorded Resolver.directives engine library c inputs)
      ([], first.2.2) = second)
    (hwithin : first.1.resolution.Within (".ts".toList <:+ ·))
    (hwritten : ∀ p ∈ first.1.written, ¬".ts".toList <:+ p) :
    second.1 = first.1 ∧ Journal.messages second.2.1 = Journal.messages first.2.1 ∧
      second.2.2.tree = first.2.2.tree := by
  obtain ⟨w, progress, w', hkept, hmessages, ht, he⟩ :=
    exec_runWith_frozen hroot engine library c inputs m
  obtain rfl := hfirst.symm.trans he
  rw [world_of_summary] at hsecond
  -- what the second run finds
  have hgrows : w.2.outline.Grows w'.2.outline := Memory.grows_of_holds
    (holds_takeResults (Memory.writes_growing cwd) (Memory.prints_growing cwd) _) ht
  obtain ⟨_, _, stored, goals, -, -, hstored, hframe⟩ :=
    framed_takeResults (Memory.shows_host cwd) hroot ht
  rw [hkept] at hgrows hframe
  have hsame : m.SameSources w'.2 := ⟨hgrows.unreadable, fun p hp =>
    (hframe.changed p).resolve_right fun hchanged => hwritten p (hstored ▸ hchanged) hp⟩
  have hresolution : resolutionIn ((Memory.host cwd).frozen w'.2) c inputs =
      resolutionIn ((Memory.host cwd).frozen m) c inputs :=
    Memory.directives_sameSources hroot hsame hgrows hwithin
  obtain ⟨v, progress', v', hkept', hmessages', ht', he'⟩ :=
    exec_runWith_frozen hroot engine library c inputs w'.2
  rw [hresolution] at hmessages' ht' he'
  rw [hsame.unitsIn library c hwithin] at ht' he'
  obtain rfl := hsecond.symm.trans he'
  -- what the second run does
  obtain ⟨hanswer, houtline, printed, hprinted, hprinted'⟩ := takeResults_again hroot ht
    (congrArg Memory.outline hkept') (Memory.apart_of_wellFormed (hkept' ▸ hframe.wellFormed hm))
  rw [ht'] at hanswer houtline hprinted'
  rw [ht] at hanswer hprinted
  obtain rfl : progress' = progress := hanswer
  refine ⟨rfl, messages_of_summary _ _ ?_, ?_⟩
  · rw [hprinted, hprinted', hmessages, hmessages']
  · have hfiles := file?_takeResults_again (Memory.shows_host cwd) hroot ht ht'
      (congrArg Memory.tree hkept')
    have hdirectories : v'.2.hasDirectory = w'.2.hasDirectory :=
      (congrArg Outline.isDirectory houtline).trans (congrArg Memory.hasDirectory hkept')
    rw [world_of_summary, world_of_summary]
    exact congrArg₂ Tree.mk (funext hfiles) (congrArg (fun there p => there p = true) hdirectories)

/-- Two sources; the script of the second one may not be written. -/
def halfWritable : Memory where
  files := [("/work/a.ts".toList, ⟨"let a;\n".toList, .none⟩),
    ("/work/b.ts".toList, ⟨"let b;\n".toList, .none⟩)]
  directories := ["/".toList, "/work".toList]
  unreadable := []
  unwritable := ["/work/dist/b".toList]

/-- A run that is stopped by what it may not write, and that misses a source, ends the same way when
it is done again. -/
theorem runWith_again_halfWritable :
    let c := Configuration.resolve "/work".toList { Options.unset with noLib := some true }
      (some "dist".toList)
    let compile := runWith (Memory.host "/work".toList).recorded Resolver.directives
      Engine.passThrough [] c ["a.ts".toList, "b.ts".toList, "c.ts".toList]
    let first := exec compile ([], halfWritable)
    let second := exec compile ([], first.2.2)
    first.1.abort = some .write ∧ first.1.written = ["/work/dist/a.js".toList] ∧
      second.1 = first.1 ∧ Journal.messages second.2.1 = Journal.messages first.2.1 ∧
      second.2.2.tree = first.2.2.tree := by
  intro c compile first second
  have hroot : isRooted "/work".toList = true := by decide
  have hmade : first.1.abort = some .write ∧ first.1.written = ["/work/dist/a.js".toList] ∧
      (∀ f ∈ first.1.resolution.files, ".ts".toList <:+ f.path) ∧
      first.1.resolution.diagnostics = [(none, "/work/c.ts".toList)].map fun e =>
        .ofMessage e.1 .fileNotFound [e.2] := by
    decide +kernel
  obtain ⟨habort, hwritten, hfiles, hlost⟩ := hmade
  have hfirst : exec compile ([], halfWritable) = first := rfl
  have hsecond : exec compile ([], first.2.2) = second := rfl
  clear_value second first
  have hscript : ∀ p ∈ first.1.written, ¬".ts".toList <:+ p := by
    rw [hwritten]
    decide
  exact ⟨habort, hwritten, runWith_again hroot Engine.passThrough [] c _
    (Memory.wellFormed_of_forall (by decide) (by decide)) hfirst hsecond
    (Resolution.within_of_lost hfiles hlost (by decide)) hscript⟩

/-- A working directory with the name of a script, and the source of the script beside it. -/
def scriptDirectory : Memory where
  files := [("/x/a.ts".toList, ⟨"let a;\n".toList, .none⟩)]
  directories := ["/".toList, "/x".toList, "/x/a.js".toList]
  unreadable := []
  unwritable := []

/-- The first run misses a source and writes a script to its place, where the second run finds it.
-/
theorem script_found_as_source :
    let c := Configuration.resolve "/x/a.js".toList { Options.unset with noLib := some true }
      (some "b.ts".toList)
    let compile := run (Memory.host "/x/a.js".toList).recorded [] c
      ["../a.ts".toList, "b.ts".toList]
    let first := exec compile ([], scriptDirectory)
    let second := exec compile ([], first.2.2)
    scriptDirectory.tree.WellFormed ∧ first.1.resolution.Within (".ts".toList <:+ ·) ∧
      first.1.abort = none ∧ second.1.abort = some .write ∧ second.1 ≠ first.1 := by
  intro c compile first second
  have hmade : (∀ f ∈ first.1.resolution.files, ".ts".toList <:+ f.path) ∧
      first.1.resolution.diagnostics = [(none, "/x/a.js/b.ts".toList)].map fun e =>
        .ofMessage e.1 .fileNotFound [e.2] := by
    decide +kernel
  obtain ⟨hfiles, hlost⟩ := hmade
  have haborts : first.1.abort = none ∧ second.1.abort = some .write := by decide +kernel
  refine ⟨Memory.wellFormed_of_forall (by decide) (by decide),
    Resolution.within_of_lost hfiles hlost (by decide), haborts.1, haborts.2, fun hsame => ?_⟩
  have habort := haborts.2
  rw [hsame, haborts.1] at habort
  cases habort

end BatchCompile
