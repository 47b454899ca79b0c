import BatchCompile.Proofs.Hosts.Trees
import BatchCompile.Proofs.Run.Coupled
import BatchCompile.Proofs.Text.Returns

/-!
# Styles of line ends

Sources may end their lines in line feeds, or in carriage returns and line feeds. A run does not tell
one style from the other: on a host that converts some of its files, it reports, prints and
stores the same (`run_restyled`). The resolver and the engine see the same directives, lines and
comments in either style (`couples_gather`, `passThrough_restyled`), and the phases do not read
(`takeResults_of_read`).
-/

namespace BatchCompile

/-! ## Units in another style -/

structure Source.Restyled (s s' : Source) : Prop where
  mark : s'.mark = s.mark
  text : s.text.Restyled s'.text

abbrev UnitsRestyled : List SourceUnit → List SourceUnit → Prop :=
  List.Forall₂ (SourceUnit.Alike Source.Restyled)

section

variable {u u' : SourceUnit} (h : u.Alike Source.Restyled u')

include h

theorem commentFault?_restyled : u'.commentFault? = u.commentFault? := by
  rw [SourceUnit.commentFault?, SourceUnit.commentFault?, h.source.text.unclosed?, h.path]

theorem isDeclaration_restyled : u'.isDeclaration = u.isDeclaration := by
  rw [SourceUnit.isDeclaration, SourceUnit.isDeclaration, h.path]

theorem unitArtifacts_restyled (settings : Settings) (absolute : Path → Path) :
    unitArtifacts settings absolute u' = unitArtifacts settings absolute u := by
  have hlines : Text.lines u'.text = Text.lines u.text := h.source.text.lines
  have hmark : u'.mark = u.mark := h.source.mark
  rw [unitArtifacts, unitArtifacts, hlines, hmark, h.path]

end

section

variable {units units' : List SourceUnit} (h : UnitsRestyled units units')

include h

theorem map_restyled {α : Type} {f : SourceUnit → α}
    (hf : ∀ u u', u.Alike Source.Restyled u' → f u' = f u) : units'.map f = units.map f := by
  induction h with
  | nil => rfl
  | cons hu _ ih => rw [List.map_cons, List.map_cons, hf _ _ hu, ih]

theorem filter_restyled :
    UnitsRestyled (units.filter (!·.isDeclaration)) (units'.filter (!·.isDeclaration)) := by
  induction h with
  | nil => exact .nil
  | cons hu _ ih =>
    rw [List.filter_cons, List.filter_cons, isDeclaration_restyled hu]
    split
    · exact .cons hu ih
    · exact ih

theorem artifacts_restyled (settings : Settings) (absolute : Path → Path) :
    artifacts settings absolute units' = artifacts settings absolute units := by
  have hemitted := filter_restyled h
  have hlines := map_restyled hemitted (f := fun u => Text.lines u.text)
    fun _ _ hu => hu.source.text.lines
  have hown := map_restyled hemitted fun _ _ hu => unitArtifacts_restyled hu settings absolute
  unfold artifacts
  split
  · rename_i outFile _
    have hpaths := map_restyled hemitted
      (f := fun u => Path.relative ((Path.dirName outFile).getD outFile) u.path)
      fun _ _ hu => by rw [hu.path]
    simp only [bundleArtifacts, hlines, hpaths]
  · rw [List.flatMap_def, List.flatMap_def, hown]

theorem passThrough_restyled (settings : Settings) (absolute : Path → Path) :
    Engine.passThrough settings absolute units' = Engine.passThrough settings absolute units := by
  have hfaults : units'.filterMap SourceUnit.commentFault? =
      units.filterMap SourceUnit.commentFault? := by
    have hid : ∀ us : List SourceUnit, us.filterMap SourceUnit.commentFault? =
        (us.map SourceUnit.commentFault?).filterMap id := by
      intro us
      rw [List.filterMap_map]
      rfl
    rw [hid, hid, map_restyled h fun _ _ hu => commentFault?_restyled hu]
  unfold Engine.passThrough
  refine List.map_congr_left fun phase _ => ?_
  cases phase with
  | syntaxCheck => simp only [passThroughPhase, hfaults]
  | emit => simp only [passThroughPhase, artifacts_restyled h]
  | _ => rfl

end

/-! ## Phases do not read -/

section

variable {m : Type → Type} [Monad m] (h : Host m) (read : Path → m (Except Failure Source))

theorem ensureChain_of_read (above : List Path) :
    Host.ensureChain { h with read } above = h.ensureChain above := by
  induction above with
  | nil => rfl
  | cons directory above ih => rw [Host.ensureChain, Host.ensureChain, ih]

theorem writeFile_of_read (p : Path) (t : Text) (marked : Bool) :
    Host.writeFile { h with read } p t marked = h.writeFile p t marked := by
  rw [Host.writeFile, Host.writeFile, ensureChain_of_read]

variable (c : Configuration)

theorem place_of_read (a : Artifact) : place { h with read } c a = place h c a := by
  unfold place
  simp only [writeFile_of_read]
  rfl

theorem writeArtifacts_of_read (as : List Artifact) :
    writeArtifacts { h with read } c as = writeArtifacts h c as := by
  induction as with
  | nil => rfl
  | cons a as ih =>
    rw [writeArtifacts, writeArtifacts, ih, place_of_read]
    rfl

theorem takeResults_of_read (rs : List PhaseResult) :
    takeResults { h with read } c rs = takeResults h c rs := by
  induction rs with
  | nil => rfl
  | cons r rs ih =>
    rw [takeResults, takeResults, ih, writeArtifacts_of_read]
    rfl

end

/-! ## Hosts in another style -/

def Source.withReturns (s : Source) : Source :=
  { s with text := Text.withReturns s.text }

/-- The host on which the files to convert have a carriage return in front of every line feed. -/
def Host.restyled {m : Type → Type} [Monad m] (h : Host m) (converts : Path → Bool) : Host m :=
  { h with
    read := fun p => do
      let answer ← h.read p
      pure (answer.map fun s => if converts p then s.withReturns else s) }

/-- Files that were written: their paths, texts and marks, in order. -/
abbrev Stored := List (Path × Source)

/-- The host with every file kept that it writes. -/
def Host.storing {m : Type → Type} [Monad m] (h : Host m) : Host (StateT Stored m) :=
  { h.lift with
    write := fun p t marked => do
      let done ← liftM (h.write p t marked)
      if done.isOk then modify (· ++ [(p, ⟨t, storedMark marked⟩)])
      pure done }

variable {σ : Type}

theorem Host.AsksCoupled.storing {m n : Type → Type} [Monad m] [Monad n] {h : Host m} {h' : Host n}
    {g : Coupling m n} {K : Source → Source → Prop} (hh : h.AsksCoupled h' g K) :
    h.storing.AsksCoupled h'.storing (g.state Eq) K where
  cwd := hh.cwd
  layout := hh.layout
  read p := g.couples_lift Eq (hh.read p)
  fileExists p := g.couples_lift Eq (hh.fileExists p)
  directoryExists p := g.couples_lift Eq (hh.directoryExists p)
  pathBound := g.couples_lift Eq hh.pathBound
  print channel t := g.couples_lift Eq (hh.print channel t)

/-- Actions that do the same to worlds in which something is kept, and keep it. -/
def Coupling.same (kept : σ → Prop) : Coupling (StateM σ) (StateM σ) where
  couples x y P := ∀ s, kept s → P (x s).1 (y s).1 ∧ (y s).2 = (x s).2 ∧ kept (x s).2
  couples_pure h _ hs := ⟨h, rfl, hs⟩
  couples_bind {_ _ _ _ x y f k _ Q} hx hf s hs := by
    obtain ⟨hP, hworld, hkept⟩ := hx s hs
    show Q (f (x s).1 (x s).2).1 (k (y s).1 (y s).2).1 ∧
      (k (y s).1 (y s).2).2 = (f (x s).1 (x s).2).2 ∧ kept (f (x s).1 (x s).2).2
    rw [hworld]
    exact hf _ _ hP _ hkept

/-- While no file holds a carriage return, a host and the one that converts some of its files answer
alike. -/
theorem coupled_restyled {h : Host (StateM σ)} {kept : σ → Prop} (hs : h.Steady kept)
    (hfree : ∀ p s source, kept s → (h.read p s).1 = .ok source → '\r' ∉ source.text)
    (converts : Path → Bool) :
    h.AsksCoupled (h.restyled converts) (.same kept) Source.Restyled where
  cwd := rfl
  layout := rfl
  read p s hk := by
    refine ⟨?_, rfl, hs.read p s hk⟩
    have hfree := hfree p s
    show (Source.orEmpty (h.read p s).1).Restyled (.orEmpty ((h.read p s).1.map fun source =>
      if converts p then source.withReturns else source))
    cases hread : (h.read p s).1 with
    | error f => exact ⟨rfl, .inl rfl⟩
    | ok source =>
      show source.Restyled (if converts p then source.withReturns else source)
      split
      · exact ⟨rfl, .inr ⟨hfree source hk hread, rfl⟩⟩
      · exact ⟨rfl, .inl rfl⟩
  fileExists p s hk := ⟨rfl, rfl, hs.fileExists p s hk⟩
  directoryExists p s hk := ⟨rfl, rfl, hs.directoryExists p s hk⟩
  pathBound s hk := ⟨rfl, rfl, hs.pathBound s hk⟩
  print channel t s hk := ⟨rfl, rfl, hs.print channel t s hk⟩

theorem Coupling.exec_same {kept : σ → Prop} {α β : Type} {x : StateT Stored (Traced σ) α}
    {y : StateT Stored (Traced σ) β} {P : α → β → Prop}
    (h : (((Coupling.same kept).state Eq).state Eq).couples x y P) (stored : Stored) {w : Trace σ}
    (hw : kept w.2) :
    let r := exec (x.run stored) w
    let r' := exec (y.run stored) w
    P r.1.1 r'.1.1 ∧ r'.1.2 = r.1.2 ∧ r'.2 = r.2 := by
  obtain ⟨⟨⟨hP, hstored⟩, hjournal⟩, hworld, -⟩ := h stored stored rfl w.1 w.1 rfl w.2 hw
  exact ⟨hP, hstored.symm, Prod.ext hjournal.symm hworld⟩

/-! ## Runs -/

/-- What a run does with its units. -/
def finish {m : Type → Type} [Monad m] (h : Host m) (c : Configuration) (resolution : Resolution)
    (units : List SourceUnit) : m Report := do
  let progress ← takeResults h c (Engine.passThrough c.settings h.absolute units)
  if progress.abort.isNone then
    h.printLines .output ((Summary.of progress.written).lines c.singleOutput)
  pure ⟨resolution, units, progress.pulled, progress.written, progress.abort⟩

/-- In either style a run does the same with its units. -/
theorem finish_restyled {m : Type → Type} [Monad m] [LawfulMonad m] (h : Host m)
    (read : Path → m (Except Failure Source)) (c : Configuration) (resolution : Resolution)
    {units units' : List SourceUnit} (hu : UnitsRestyled units units') :
    finish { h with read } c resolution units' =
      ({ · with units := units' }) <$> finish h c resolution units := by
  unfold finish
  rw [passThrough_restyled hu, takeResults_of_read, map_bind]
  refine bind_congr fun progress => ?_
  cases progress.abort.isNone with
  | false => simp
  | true =>
    simp
    rfl

theorem run_eq {m : Type → Type} [Monad m] (h : Host m) (library : Path) (c : Configuration)
    (inputs : List Path) : run h library c inputs =
      (gather h Resolver.directives library c inputs).run .empty >>= fun r =>
        finish h c r.1.1 r.1.2 := rfl

theorem exec_stored_bind {α β : Type} (x : StateT Stored (Traced σ) α)
    (f : α → StateT Stored (Traced σ) β) (stored : Stored) (w : Trace σ) :
    exec ((x >>= f).run stored) w =
      let r := exec (x.run stored) w
      exec ((f r.1.1).run r.1.2) r.2 := rfl

theorem exec_stored_map {α β : Type} (f : α → β) (x : StateT Stored (Traced σ) α)
    (stored : Stored) (w : Trace σ) :
    exec ((f <$> x).run stored) w =
      let r := exec (x.run stored) w
      ((f r.1.1, r.1.2), r.2) := rfl

theorem unitsRestyled_refl (units : List SourceUnit) : UnitsRestyled units units :=
  List.forall₂_same.2 fun _ _ => ⟨rfl, rfl, rfl, .inl rfl⟩

theorem units_finish (h : Host (StateT Stored (Traced σ))) (c : Configuration)
    (resolution : Resolution) (units : List SourceUnit) (stored : Stored) (w : Trace σ) :
    (exec ((finish h c resolution units).run stored) w).1.1.units = units := by
  have hself : finish h c resolution units =
      ({ · with units := units }) <$> finish h c resolution units :=
    finish_restyled h h.read c resolution (unitsRestyled_refl units)
  rw [hself, exec_stored_map]

theorem exec_run (h : Host (StateT Stored (Traced σ))) (library : Path) (c : Configuration)
    (inputs : List Path) (stored : Stored) (w : Trace σ) :
    exec ((run h library c inputs).run stored) w =
      let r := exec (((gather h Resolver.directives library c inputs).run .empty).run stored) w
      exec ((finish h c r.1.1.1.1 r.1.1.1.2).run r.1.2) r.2 := by
  rw [run_eq, exec_stored_bind]

/-- Two runs that did the same, on units of the same files in two styles. -/
structure Report.Restyled (r r' : Report) : Prop where
  resolution : r'.resolution = r.resolution
  units : UnitsRestyled r.units r'.units
  pulled : r'.pulled = r.pulled
  written : r'.written = r.written
  abort : r'.abort = r.abort

/-- Take a host on which no file holds a carriage return: none does in any world that `kept` holds of,
and asking and printing keep that. On the host that converts the line ends of some of these files a
run does the same. Its report differs in the texts of the units alone; it stores the same texts with
the same marks at the same paths; its journal is the same, with all that was printed; and it leaves
the same world. -/
theorem run_restyled (h : Host (StateM σ)) (converts : Path → Bool) (library : Path)
    (c : Configuration) (inputs : List Path) (kept : σ → Prop) (hs : h.Steady kept)
    (hfree : ∀ p s source, kept s → (h.read p s).1 = .ok source → '\r' ∉ source.text)
    (w : Trace σ) (hw : kept w.2) :
    let o := exec ((run h.recorded.storing library c inputs).run []) w
    let o' := exec ((run (h.restyled converts).recorded.storing library c inputs).run []) w
    o.1.1.Restyled o'.1.1 ∧ o'.1.2 = o.1.2 ∧ o'.2 = o.2 := by
  have hgather := couples_gather (coupled_restyled hs hfree converts).recorded.storing
    (fun _ _ hK => hK.text.scan) library c inputs .empty .empty (Caches.alike_empty _)
  obtain ⟨⟨⟨hresolution, hunits⟩, -⟩, hstored, htrace⟩ := Coupling.exec_same hgather [] hw
  rw [exec_run, exec_run]
  -- from here on only what was gathered counts
  generalize exec (((gather h.recorded.storing Resolver.directives library c inputs).run .empty).run
    []) w = r at hresolution hunits hstored htrace ⊢
  generalize exec (((gather (h.restyled converts).recorded.storing Resolver.directives library c
    inputs).run .empty).run []) w = r' at hresolution hunits hstored htrace ⊢
  have hfinish : finish (h.restyled converts).recorded.storing c r.1.1.1.1 r'.1.1.1.2 =
      ({ · with units := r'.1.1.1.2 }) <$> finish h.recorded.storing c r.1.1.1.1 r.1.1.1.2 :=
    finish_restyled h.recorded.storing _ c r.1.1.1.1 hunits
  have hown := units_finish h.recorded.storing c r.1.1.1.1 r.1.1.1.2 r.1.2 r.2
  dsimp only
  rw [hresolution, hstored, htrace, hfinish, exec_stored_map]
  exact ⟨⟨rfl, hown.symm ▸ hunits, rfl, rfl, rfl⟩, rfl, rfl⟩

theorem Memory.mem_of_read {cwd p : Path} {m : Memory} {source : Source}
    (h : ((host cwd).read p m).1 = .ok source) : ∃ q, (q, source) ∈ m.files := by
  rw [read_host, Memory.read] at h
  by_cases hrefused : m.unreadable.contains (Path.resolve cwd [p]) = true
  · rw [if_pos hrefused] at h
    cases h
  · rw [if_neg hrefused] at h
    cases hfile : m.file? (Path.resolve cwd [p]) with
    | none =>
      rw [hfile] at h
      cases h
    | some s =>
      rw [hfile] at h
      cases h
      obtain ⟨e, he, rfl⟩ := Option.map_eq_some_iff.1 hfile
      exact ⟨e.1, List.mem_of_find?_eq_some he⟩

def twoSources : Memory where
  files := [("/work/a.ts".toList, ⟨"/// <reference path='b.ts' />\nlet a;\n".toList, .none⟩),
    ("/work/b.ts".toList, ⟨"let b; /* b\n*/\n".toList, .utf8⟩)]
  directories := ["/".toList, "/work".toList]
  unreadable := []
  unwritable := []

def toDist : Configuration :=
  Configuration.resolve "/work".toList { Options.unset with noLib := some true }
    (some "dist".toList)

def runTwoSources (h : Host (StateM Memory)) : (Report × Stored) × Trace Memory :=
  exec ((run h.recorded.storing [] toDist ["a.ts".toList]).run []) ([], twoSources)

/-- With the line ends of one file converted, the same two scripts are written. -/
theorem run_restyled_reference :
    let h := Memory.host "/work".toList
    let o := runTwoSources h
    let o' := runTwoSources (h.restyled (· = "/work/a.ts".toList))
    o'.1.1.units.map SourceUnit.text ≠ o.1.1.units.map SourceUnit.text ∧
      o'.1.2 = [("/work/dist/b.js".toList, ⟨"let b; /* b\n*/".toList, .utf8⟩),
        ("/work/dist/a.js".toList, ⟨"/// <reference path='b.ts' />\nlet a;".toList, .none⟩)] ∧
      o.1.1.Restyled o'.1.1 ∧ o'.1.2 = o.1.2 ∧ o'.2 = o.2 := by
  have hfree : ∀ p s source, s = twoSources →
      ((Memory.host "/work".toList).read p s).1 = .ok source → '\r' ∉ source.text := by
    rintro p _ source rfl hread
    obtain ⟨q, hq⟩ := Memory.mem_of_read hread
    exact (show ∀ e ∈ twoSources.files, '\r' ∉ e.2.text by decide) _ hq
  have hsteady : (Memory.host "/work".toList).Steady (· = twoSources) := Memory.steady_of _ _
  have hrun := run_restyled (Memory.host "/work".toList) (· = "/work/a.ts".toList) [] toDist
    ["a.ts".toList] (· = twoSources) hsteady hfree ([], twoSources) rfl
  refine ⟨by decide +kernel, by decide +kernel, ?_⟩
  rw [runTwoSources, runTwoSources]
  exact hrun

end BatchCompile
