import BatchCompile.Hosts.Memory
import BatchCompile.Proofs.Closure.Distinct
import BatchCompile.Proofs.Closure.Visits
import BatchCompile.Proofs.Hosts.Trees
import BatchCompile.Proofs.Run.Acting
import BatchCompile.Proofs.Run.Asking

/-!
# The units of a run and what it reads

A run hands its engine one unit for each file of the resolution, after the unit of the default
library unless that is not wanted. The resolver finds no file twice, but the library is put in front
whether it was found or not, so it is the one file that can be compiled twice
(`runWith_units_nodup_iff`).

A resolver that follows directives asks for the text of each file that it finds, once
(`Tally.holds_directives`). The caches pass on to the host only what was not asked before, and the
units of a run are asked for last, the library among them. So a run reads the paths of its units,
each once, and it has read them all before it asks for the first change (`runWith_reads`).
-/

namespace BatchCompile

/-! ## Units -/

section

variable {σ : Type}

/-- The path of the default library, if a run takes it in. -/
def libraryUnit (library : Path) (c : Configuration) (r : Resolution) : List Path :=
  if c.noLib || r.sawNoDefaultLib then [] else [library]

theorem paths_filesToCompile (library : Path) (c : Configuration) (r : Resolution) :
    (filesToCompile library c r).map ResolvedFile.path = libraryUnit library c r ++ r.paths := by
  unfold filesToCompile libraryUnit
  split <;> rfl

theorem Resolution.paths_nodup {caseSensitive : Bool} {r : Resolution}
    (h : (r.marks caseSensitive).Nodup) : r.paths.Nodup := by
  rw [marks, ← Function.comp_def, ← List.map_map] at h
  exact h.of_map _

theorem libraryUnit_append_nodup_iff {library : Path} {c : Configuration} {r : Resolution}
    (h : r.paths.Nodup) :
    (libraryUnit library c r ++ r.paths).Nodup ↔ ∀ p ∈ libraryUnit library c r, p ∉ r.paths := by
  unfold libraryUnit
  split
  · simpa using h
  · simp [h]

/-- The units of a run are the library, if it is taken in, and the files of the resolution, which
differ from one another even without regard to case. So no file is compiled twice, unless the
library that is taken in is also a file of the resolution. -/
theorem runWith_units_nodup_iff (h : Host (StateM σ)) (engine : Engine) (library : Path)
    (c : Configuration) (inputs : List Path) (w : Trace σ) :
    let report := (exec (runWith h.recorded Resolver.directives engine library c inputs) w).1
    let first := libraryUnit (Path.combine (h.absolute library) libraryFile) c report.resolution
    let paths := report.units.map SourceUnit.path
    paths = first ++ report.resolution.paths ∧
      (report.resolution.paths.map Text.lowerCase).Nodup ∧
      (paths.Nodup ↔ ∀ p ∈ first, p ∉ report.resolution.paths) := by
  obtain ⟨resolution, units, caches, w₁, w₂, hg, hres⟩ :=
    exec_gather h c Resolver.directives library inputs w
  obtain ⟨hmarks, hbegun⟩ := hres.begun h.steady_trivial (fun I hask => holds_marks_nodup
    (keeps_services hask) inputs c.settings.caseSensitive) trivial
  rcases ht : exec (takeResults h.recorded c (engine c.settings h.absolute units)) w₂ with
    ⟨progress, w₃⟩
  rw [exec_runWith hg ht]
  have hpaths := (paths_of_units hbegun.units).trans (paths_filesToCompile _ c resolution)
  refine ⟨hpaths, ?_, ?_⟩
  · rw [Resolution.paths, List.map_map]
    exact hmarks
  · rw [hpaths]
    exact libraryUnit_append_nodup_iff (Resolution.paths_nodup hmarks)

end

def libraryOnly : Memory where
  files := [("/lib/lib.d.ts".toList, ⟨"\n".toList, .none⟩)]
  directories := ["/".toList, "/lib".toList]
  unreadable := []
  unwritable := []

/-- The library is an input, and is put in front of the inputs. -/
theorem library_compiled_twice :
    let report := (exec (run (Memory.host "/work".toList).recorded "/lib".toList
      Configuration.default ["/lib/lib.d.ts".toList]) ([], libraryOnly)).1
    report.abort = none ∧
      report.units.map SourceUnit.path = ["/lib/lib.d.ts".toList, "/lib/lib.d.ts".toList] ∧
      ¬(report.units.map SourceUnit.path).Nodup := by
  decide +kernel

/-! ## Tallies -/

/-- What is known of the answers of actions together with the paths whose texts they ask for. -/
structure Tally (m : Type → Type) [Monad m] where
  holds : {α : Type} → m α → (α → List Path → Prop) → Prop
  holds_pure : ∀ {α : Type} {a : α} {P : α → List Path → Prop}, P a [] → holds (pure a) P
  holds_bind : ∀ {α β : Type} {x : m α} {f : α → m β} {P : α → List Path → Prop}
    {Q : β → List Path → Prop}, holds x P →
    (∀ a ps, P a ps → holds (f a) fun b qs => Q b (ps ++ qs)) → holds (x >>= f) Q

section

variable {m : Type → Type} [Monad m]

/-- Services ask for a text where one is wanted, and nowhere else. -/
structure Services.Tallied (services : Services m) (g : Tally m) : Prop where
  fileExists : ∀ p, g.holds (services.fileExists p) fun _ ps => ps = []
  parentDirectory : ∀ p, g.holds (services.parentDirectory p) fun _ ps => ps = []
  resolve : ∀ name directory, g.holds (services.resolve name directory) fun _ ps => ps = []
  sourceText : ∀ p, g.holds (services.sourceText p) fun _ ps => ps = [p]
  pathBound : g.holds services.pathBound fun _ ps => ps = []

namespace Tally

variable {g : Tally m} {α β : Type}

theorem holds_ite (c : Bool) {x y : m α} {P : α → List Path → Prop} (hx : g.holds x P)
    (hy : g.holds y P) : g.holds (if c then x else y) P := by
  cases c with
  | true => exact hx
  | false => exact hy

/-- An action that asks for no text leaves the tally to what follows. -/
theorem holds_bind_none {x : m α} {f : α → m β} {Q : β → List Path → Prop}
    (hx : g.holds x fun _ ps => ps = []) (hf : ∀ a, g.holds (f a) Q) : g.holds (x >>= f) Q := by
  refine g.holds_bind hx fun a ps hps => ?_
  subst hps
  exact hf a

theorem holds_mono [LawfulMonad m] {x : m α} {P Q : α → List Path → Prop} (hx : g.holds x P)
    (h : ∀ a ps, P a ps → Q a ps) : g.holds x Q := by
  rw [← bind_pure x]
  exact g.holds_bind hx fun a ps ha => g.holds_pure (by simpa using h a ps ha)

theorem holds_foldlM {f : β → α → m β} {P : β → List Path → Prop}
    (hf : ∀ b a ps, P b ps → g.holds (f b a) fun b' qs => P b' (ps ++ qs)) (l : List α) {b : β}
    (ps : List Path) (hb : P b ps) : g.holds (l.foldlM f b) fun b' qs => P b' (ps ++ qs) := by
  induction l generalizing b ps with
  | nil => exact g.holds_pure (by rwa [List.append_nil])
  | cons a l ih =>
    refine g.holds_bind (hf b a ps hb) fun b' qs hb' => ?_
    simpa only [List.append_assoc] using ih _ hb'

theorem holds_forM {f : α → m Unit} (hf : ∀ a, g.holds (f a) fun _ ps => ps = []) (l : List α) :
    g.holds (l.forM f) fun _ ps => ps = [] := by
  induction l with
  | nil => exact g.holds_pure rfl
  | cons a l ih => exact holds_bind_none (hf a) fun _ => ih

theorem holds_follow {visit : Path → Walk → m Walk} {meaning : Text → m Path}
    (hv : ∀ p w, g.holds (visit p w) fun v ps => v.found.paths.Perm (w.found.paths ++ ps))
    (hm : ∀ name, g.holds (meaning name) fun _ ps => ps = []) (names : List Text) (w : Walk) :
    g.holds (Walk.follow visit meaning names w) fun r ps =>
      r.2.found.paths.Perm (w.found.paths ++ ps) := by
  refine holds_foldlM (P := fun r : List Path × Walk => fun ps =>
    r.2.found.paths.Perm (w.found.paths ++ ps)) (fun r name ps hr => ?_) names [] (by simp)
  refine holds_bind_none (hm name) fun p => g.holds_bind (hv p r.2) fun v qs hv => ?_
  refine g.holds_pure ?_
  rw [List.append_nil, ← List.append_assoc]
  exact hv.trans (hr.append_right qs)

variable {services : Services m} (h : services.Tallied g)

include h

theorem holds_importPath (directory : Option Path) (name : Text) :
    g.holds (Walk.importPath services directory name) fun _ ps => ps = [] := by
  refine holds_bind_none (h.resolve _ _) fun source => holds_bind_none (h.fileExists _) fun b => ?_
  refine holds_ite b (g.holds_pure rfl) ?_
  refine holds_bind_none (h.resolve _ _) fun declaration => ?_
  exact holds_bind_none (h.fileExists _) fun b => holds_ite b (g.holds_pure rfl) (g.holds_pure rfl)

/-- A visit asks for the texts of the files that it finds. -/
theorem holds_visit (caseSensitive : Bool) (depth : Nat) (asker : Option Path) (p : Path)
    (w : Walk) : g.holds (Walk.visit services caseSensitive depth asker p w) fun v ps =>
      v.found.paths.Perm (w.found.paths ++ ps) := by
  induction depth generalizing asker p w with
  | zero => exact g.holds_pure (by simp)
  | succ depth ih =>
    refine holds_ite _ (g.holds_pure (by simp)) ?_
    refine holds_bind_none (h.fileExists p) fun there => ?_
    refine holds_ite _ (g.holds_pure (by simp [Walk.missing, Walk.leave, Resolution.paths])) ?_
    refine g.holds_bind (h.sourceText p) fun text ps hps => ?_
    refine holds_bind_none (h.parentDirectory p) fun directory => ?_
    refine g.holds_bind (holds_follow (ih (some p)) (h.resolve · directory) _ _)
      fun references qs hq => ?_
    refine g.holds_bind (holds_follow (ih (some p)) (holds_importPath h directory) _ _)
      fun imports rs hr => g.holds_pure ?_
    -- the file itself is asked for first, and found last
    subst hps
    have hlast : (imports.2.add ⟨p, references.1, imports.1⟩).found.paths =
        imports.2.found.paths ++ [p] := List.map_append
    have hbefore : imports.2.found.paths.Perm (w.found.paths ++ (qs ++ rs)) := by
      rw [← List.append_assoc]
      exact hr.trans (hq.append_right rs)
    rw [hlast, List.append_nil]
    refine (hbefore.append_right [p]).trans ?_
    rw [List.append_assoc]
    exact List.perm_append_comm.append_left _

theorem holds_directives [LawfulMonad m] (entries : List Path) (caseSensitive : Bool) :
    g.holds (Resolver.directives entries services caseSensitive) fun r ps => r.paths.Perm ps := by
  refine holds_bind_none h.pathBound fun bound => ?_
  refine g.holds_bind (holds_foldlM (P := fun w ps => w.found.paths.Perm ps)
    (fun w entry ps hw => ?_) entries [] (.refl _)) fun w ps hw => g.holds_pure (by simpa using hw)
  refine holds_bind_none (h.resolve _ _) fun p => ?_
  exact holds_mono (holds_visit h caseSensitive _ none p w) fun v qs hv =>
    hv.trans (hw.append_right qs)

end Tally

end

/-! ## Caches -/

/-- The paths that were read, the last one first. -/
def Journal.reads (j : Journal) : List Path :=
  j.filterMap fun
    | .read p => some p
    | _ => none

def Caches.texts (caches : Caches) : List Path :=
  caches.sources.map (·.1)

variable {σ : Type}

/-- What came of asking for some texts: those not kept before were read, and nothing was changed. -/
structure Learnt (caches caches' : Caches) (w w' : Trace σ) (ps : List Path) : Prop where
  journal : ∃ part, w'.1 = part ++ w.1 ∧ Journal.changes part = [] ∧
    caches'.texts = Journal.reads part ++ caches.texts
  nodup : caches.texts.Nodup → caches'.texts.Nodup
  mem_iff : ∀ p, p ∈ caches'.texts ↔ p ∈ caches.texts ∨ p ∈ ps

namespace Learnt

variable {caches caches' caches'' : Caches} {w w' w'' : Trace σ} {ps qs : List Path}

theorem nothing (hs : caches'.sources = caches.sources) (hw : w'.1 = w.1) :
    Learnt caches caches' w w' [] where
  journal := ⟨[], hw, rfl, congrArg (List.map Prod.fst) hs⟩
  nodup := by rw [Caches.texts, Caches.texts, hs]; exact id
  mem_iff p := by simp [Caches.texts, hs]

theorem trans (h : Learnt caches caches' w w' ps) (h' : Learnt caches' caches'' w' w'' qs) :
    Learnt caches caches'' w w'' (ps ++ qs) where
  journal := by
    obtain ⟨part, hw, hchanges, htexts⟩ := h.journal
    obtain ⟨part', hw', hchanges', htexts'⟩ := h'.journal
    refine ⟨part' ++ part, ?_, ?_, ?_⟩
    · rw [hw', hw, List.append_assoc]
    · rw [Journal.changes, List.filter_append]
      exact List.append_eq_nil_iff.2 ⟨hchanges', hchanges⟩
    · rw [htexts', htexts, Journal.reads, Journal.reads, Journal.reads, List.filterMap_append,
        List.append_assoc]
  nodup hd := h'.nodup (h.nodup hd)
  mem_iff p := by rw [h'.mem_iff, h.mem_iff, List.mem_append, or_assoc]

end Learnt

def Tally.learning (σ : Type) : Tally (StateT Caches (Traced σ)) where
  holds x P := ∀ caches w, ∃ ps, P (exec (x.run caches) w).1.1 ps ∧
    Learnt caches (exec (x.run caches) w).1.2 w (exec (x.run caches) w).2 ps
  holds_pure ha _ _ := ⟨[], ha, .nothing rfl rfl⟩
  holds_bind {_ _ x _ _ _} hx hf caches w := by
    obtain ⟨ps, ha, hl⟩ := hx caches w
    obtain ⟨qs, hb, hl'⟩ := hf _ ps ha (exec (x.run caches) w).1.2 (exec (x.run caches) w).2
    exact ⟨ps ++ qs, hb, hl.trans hl'⟩

section

variable (h : Host (StateM σ))

theorem tallied_source (p : Path) :
    (Tally.learning σ).holds (Caches.source h.recorded p) fun _ ps => ps = [p] := by
  intro caches w
  refine ⟨[p], rfl, ?_⟩
  obtain ⟨s, hs, he⟩ | ⟨hnew, he⟩ := exec_source h p caches w
  · rw [he]
    have hold : p ∈ caches.texts := List.mem_map_of_mem hs
    refine ⟨⟨[], rfl, rfl, rfl⟩, id, fun q => ?_⟩
    simpa using fun hq : q = p => hq ▸ hold
  · rw [he]
    refine ⟨⟨[.read p], rfl, rfl, rfl⟩, fun hd => List.nodup_cons.2 ⟨hnew, hd⟩, fun q => ?_⟩
    show q ∈ p :: caches.texts ↔ _
    rw [List.mem_cons, List.mem_singleton, or_comm]

theorem tallied_consult {α : Type} (memo : Memo α) (p : Path) {ask : Traced σ α}
    (hask : ∀ w, (exec ask w).2.1 = w.1) (w : Trace σ) :
    (exec (memo.consult p ask) w).2.1 = w.1 := by
  obtain ⟨a, -, he⟩ | ⟨-, he⟩ := memo.exec_consult p ask w
  · rw [he]
  · rw [he]
    exact hask w

theorem tallied_services : (Caches.services h.recorded).Tallied (Tally.learning σ) where
  fileExists p caches w :=
    ⟨[], rfl, .nothing rfl (tallied_consult caches.existence p (fun _ => rfl) w)⟩
  parentDirectory _ := (Tally.learning σ).holds_pure rfl
  resolve name directory := by
    refine Tally.holds_bind_none (fun caches w => ?_) fun _ => (Tally.learning σ).holds_pure rfl
    exact ⟨[], rfl, .nothing rfl (tallied_consult caches.resolved _ (fun _ => rfl) w)⟩
  sourceText p := (Tally.learning σ).holds_bind (tallied_source h p) fun _ _ hps =>
    (Tally.learning σ).holds_pure (by simpa using hps)
  pathBound _ _ := ⟨[], rfl, .nothing rfl rfl⟩

theorem tallied_print (d : Diagnostic) :
    (Tally.learning σ).holds (liftM (n := StateT Caches (Traced σ)) (printDiagnostic h.recorded d))
      fun _ ps => ps = [] :=
  fun _ _ => ⟨[], rfl, ⟨[.print _ _], rfl, rfl, rfl⟩, id,
    fun _ => (or_iff_left List.not_mem_nil).symm⟩

theorem tallied_units (files : List ResolvedFile) :
    (Tally.learning σ).holds (files.mapM (unitOf h.recorded)) fun _ ps =>
      ps = files.map ResolvedFile.path := by
  induction files with
  | nil => exact (Tally.learning σ).holds_pure rfl
  | cons file files ih =>
    rw [List.mapM_cons]
    refine (Tally.learning σ).holds_bind (P := fun _ ps => ps = [file.path]) ?_ fun u ps hu =>
      (Tally.learning σ).holds_bind ih fun us qs hus => (Tally.learning σ).holds_pure ?_
    · exact (Tally.learning σ).holds_bind (tallied_source h file.path) fun s ps hps =>
        (Tally.learning σ).holds_pure (by simpa using hps)
    · rw [hu, hus, List.append_nil]
      rfl

/-- What a run gathers, it asks for once or twice, and for nothing else. -/
theorem tallied_gather (library : Path) (c : Configuration) (inputs : List Path) :
    (Tally.learning σ).holds (gather h.recorded Resolver.directives library c inputs) fun r ps =>
      ∀ p, p ∈ ps ↔ p ∈ (filesToCompile (Path.combine (h.absolute library) libraryFile) c r.1).map
        ResolvedFile.path := by
  let g := Tally.learning σ
  refine g.holds_bind (Tally.holds_directives (tallied_services h) inputs c.settings.caseSensitive)
    fun resolution ps hps => ?_
  refine Tally.holds_bind_none (Tally.holds_forM (tallied_print h) _) fun _ => ?_
  refine g.holds_bind (tallied_units h _) fun units qs hqs => g.holds_pure fun p => ?_
  subst hqs
  have hfound : p ∈ ps → p ∈ (filesToCompile (Path.combine (h.absolute library) libraryFile) c
      resolution).map ResolvedFile.path := by
    rw [paths_filesToCompile, ← hps.mem_iff, List.mem_append]
    exact .inr
  rw [List.append_nil, List.mem_append]
  exact ⟨fun hp => hp.elim hfound id, .inr⟩

theorem reads_gather {library : Path} {c : Configuration} {inputs : List Path}
    {resolution : Resolution} {units : List SourceUnit} {caches : Caches} {w w' : Trace σ}
    (hg : exec ((gather h.recorded Resolver.directives library c inputs).run .empty) w =
      (((resolution, units), caches), w')) :
    ∃ before, w'.1 = before ++ w.1 ∧ Journal.changes before = [] ∧ (Journal.reads before).Nodup ∧
      ∀ p, p ∈ Journal.reads before ↔
        p ∈ (filesToCompile (Path.combine (h.absolute library) libraryFile) c resolution).map
          ResolvedFile.path := by
  obtain ⟨ps, hps, hlearnt⟩ := tallied_gather h library c inputs .empty w
  rw [hg] at hps hlearnt
  obtain ⟨before, hbefore, hchanges, htexts⟩ := hlearnt.journal
  rw [show Caches.empty.texts = [] from rfl, List.append_nil] at htexts
  have hnodup := hlearnt.nodup List.nodup_nil
  refine ⟨before, hbefore, hchanges, htexts ▸ hnodup, fun p => ?_⟩
  rw [← htexts, hlearnt.mem_iff, ← hps]
  exact or_iff_right List.not_mem_nil

end

/-! ## Runs -/

def Guarantee.unread (σ : Type) : Guarantee (Traced σ) where
  holds x P := ∀ w, P (exec x w).1 ∧
    ∃ part, (exec x w).2.1 = part ++ w.1 ∧ Journal.reads part = []
  holds_pure ha _ := ⟨ha, [], rfl, rfl⟩
  holds_bind {_ _ x _ _ _} hx hf w := by
    obtain ⟨ha, part, hw, hreads⟩ := hx w
    obtain ⟨hb, part', hw', hreads'⟩ := hf _ ha (exec x w).2
    refine ⟨hb, part' ++ part, ?_, ?_⟩
    · rw [exec_bind, hw', hw, List.append_assoc]
    · rw [Journal.reads, List.filterMap_append]
      exact List.append_eq_nil_iff.2 ⟨hreads', hreads⟩

section

variable (h : Host (StateM σ))

theorem writesKeep_unread : h.recorded.WritesKeep (Guarantee.unread σ) where
  fileExists _ _ := ⟨trivial, [], rfl, rfl⟩
  directoryExists _ _ := ⟨trivial, [], rfl, rfl⟩
  createDirectory p _ := ⟨trivial, [.createDirectory p], rfl, rfl⟩
  write p _ _ _ := ⟨trivial, [.write p], rfl, rfl⟩

theorem printsKeep_unread : h.recorded.PrintsKeep (Guarantee.unread σ) :=
  fun channel t _ => ⟨trivial, [.print channel t], rfl, rfl⟩

/-- From the first phase on nothing is read, whether the run closes with a summary or not. -/
theorem unread_phases {c : Configuration} {results : List PhaseResult} {progress : Progress}
    {w w' : Trace σ} (ht : exec (takeResults h.recorded c results) w = (progress, w')) (b : Bool)
    (lines : List Text) :
    ∃ after, (if b then told h lines w' else w').1 = after ++ w.1 ∧ Journal.reads after = [] := by
  have hphases := (holds_takeResults (c := c) (writesKeep_unread h) (printsKeep_unread h)
    results w).2
  rw [ht] at hphases
  obtain ⟨part, hpart, hreads⟩ := hphases
  cases b with
  | false => exact ⟨part, hpart, hreads⟩
  | true =>
    obtain ⟨last, hlast, hnone⟩ := (holds_forM (g := Guarantee.unread σ)
      (fun _ => printsKeep_unread h _ _) lines w').2
    refine ⟨last ++ part, ?_, ?_⟩
    · rw [List.append_assoc, ← hpart]
      exact hlast
    · rw [Journal.reads, List.filterMap_append]
      exact List.append_eq_nil_iff.2 ⟨hnone, hreads⟩

variable {h} in
theorem Resolved.yields {c : Configuration} {library : Path} {inputs : List Path}
    {w w₁ w₂ : Trace σ} {resolution : Resolution} {units : List SourceUnit}
    (hres : Resolved h c Resolver.directives library inputs w resolution w₁ units w₂)
    {kept : σ → Prop} (hs : h.Steady kept) (hk : kept w.2) : ∀ u ∈ units,
      h.Yields (fun v => changes v = changes w ∧ kept v.2) u.path ⟨u.text, u.mark⟩ := by
  intro u hu
  have hask := hs.asked w fun _ => True
  obtain ⟨-, hfirst, hunits⟩ := hres.keeps (P := fun _ => True) hask
    (asks_directives _ _ _ (keeps_services hask) inputs c.settings.caseSensitive)
    ⟨trivial, rfl, hk⟩
  obtain ⟨-, hunits⟩ := hunits ⟨trivial, (changes_reported _ _).trans hfirst.2.1,
    hs.kept_reported _ hfirst.2.2⟩
  obtain ⟨f, -, hu⟩ := exists_of_mem_right hunits hu
  rw [hu.path]
  exact hu.source.imp fun v hv => ⟨hv.1.2, hv.2⟩

/-- Whatever engine it works for, a run reads the paths of its units, the library that is taken in
and the files found, each once, and no other; what it reports missing was not found. It has read
them before it asks for the first change, so that no text it compiles is one that it wrote. -/
theorem runWith_reads (engine : Engine) (library : Path) (c : Configuration) (inputs : List Path)
    (w : Trace σ) :
    let o := exec (runWith h.recorded Resolver.directives engine library c inputs) w
    let found := o.1.resolution
    let paths := o.1.units.map SourceUnit.path
    (∃ before after, o.2.1 = after ++ before ++ w.1 ∧
      Journal.changes before = [] ∧ Journal.reads after = [] ∧
      (Journal.reads before).Nodup ∧ ∀ p, p ∈ Journal.reads before ↔ p ∈ paths) ∧
    paths = libraryUnit (Path.combine (h.absolute library) libraryFile) c found ++ found.paths ∧
    (∃ lost, List.Forall₂ Diagnostic.Reports found.diagnostics lost ∧
      ∀ p ∈ lost, p ∉ found.paths) ∧
    ∀ kept, h.Steady kept → kept w.2 → ∀ u ∈ o.1.units,
      h.Yields (fun v => changes v = changes w ∧ kept v.2) u.path ⟨u.text, u.mark⟩ := by
  obtain ⟨resolution, units, caches, w₁, w₂, hg, hres⟩ :=
    exec_gather h c Resolver.directives library inputs w
  obtain ⟨hmissing, hbegun⟩ := hres.begun h.steady_trivial (fun I hask => holds_missing_apart
    (keeps_services hask) inputs c.settings.caseSensitive) trivial
  have hpaths := paths_of_units hbegun.units
  obtain ⟨before, hbefore, hchanges, hnodup, hmem⟩ := reads_gather h hg
  rcases ht : exec (takeResults h.recorded c (engine c.settings h.absolute units)) w₂ with
    ⟨progress, w₃⟩
  obtain ⟨after, hafter, hreads⟩ := unread_phases h ht progress.abort.isNone
    ((Summary.of progress.written).lines c.singleOutput)
  rw [exec_runWith hg ht]
  refine ⟨⟨before, after, ?_, hchanges, hreads, hnodup, hpaths ▸ hmem⟩,
    hpaths.trans (paths_filesToCompile _ c resolution), hmissing,
    fun kept hs hk => hres.yields hs hk⟩
  rw [List.append_assoc, ← hbefore]
  exact hafter

end

/-- A source that another one asks for twice, and for one that is missing. -/
def askedTwice : Memory where
  files := [("/work/a.ts".toList,
      ⟨"/// <reference path=\"b.ts\"/>\nimport \"./b\";\nimport \"./c\";\n".toList, .none⟩),
    ("/work/b.ts".toList, ⟨"let b;\n".toList, .none⟩)]
  directories := ["/".toList, "/work".toList]
  unreadable := []
  unwritable := []

/-- Both sources are read once, from the tree as it was at first. -/
theorem runWith_reads_askedTwice :
    let o := exec (runWith (Memory.host "/work".toList).recorded Resolver.directives
      Engine.passThrough [] { Configuration.default with noLib := true }
      ["a.ts".toList, "b.ts".toList]) ([], askedTwice)
    let paths := ["/work/b.ts".toList, "/work/a.ts".toList]
    o.1.units.map SourceUnit.path = paths ∧
      (∃ before after, o.2.1 = after ++ before ∧ Journal.changes before = [] ∧
        Journal.reads after = [] ∧ (Journal.reads before).Perm paths) ∧
      ∀ u ∈ o.1.units, (Memory.host "/work".toList).Yields (fun v => v.2.tree = askedTwice.tree)
        u.path ⟨u.text, u.mark⟩ := by
  have hunits : (exec (runWith (Memory.host "/work".toList).recorded Resolver.directives
      Engine.passThrough [] { Configuration.default with noLib := true }
      ["a.ts".toList, "b.ts".toList]) ([], askedTwice)).1.units.map SourceUnit.path =
        ["/work/b.ts".toList, "/work/a.ts".toList] := by decide +kernel
  have hreads := runWith_reads (Memory.host "/work".toList) Engine.passThrough []
    { Configuration.default with noLib := true } ["a.ts".toList, "b.ts".toList] ([], askedTwice)
  generalize exec (runWith (Memory.host "/work".toList).recorded Resolver.directives
    Engine.passThrough [] { Configuration.default with noLib := true }
    ["a.ts".toList, "b.ts".toList]) ([], askedTwice) = o at hunits hreads ⊢
  obtain ⟨⟨before, after, hjournal, hchanges, hnone, hnodup, hmem⟩, -, -, htexts⟩ := hreads
  refine ⟨hunits, ⟨before, after, hjournal.trans (List.append_nil _), hchanges, hnone, ?_⟩,
    fun u hu => ?_⟩
  · refine (List.perm_ext_iff_of_nodup hnodup (by decide)).2 fun p => ?_
    rw [hmem, hunits]
  · exact (htexts _ (Memory.steady_host "/work".toList askedTwice.tree) rfl u hu).imp
      fun v hv => ⟨hv.1.2, hv.2⟩

end BatchCompile
