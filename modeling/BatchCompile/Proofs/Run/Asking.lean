import BatchCompile.Proofs.Closure.Guarantees
import BatchCompile.Proofs.Run.Policy

/-!
# What a run asks before it writes

Until the first phase a run only asks its host: for texts, and which files exist. So when the phases
start nothing was changed, and there is one unit for each file to compile, with the text that was
read for it (`Resolved.begun`).
-/

namespace BatchCompile

variable {σ : Type}

/-- A source as it is handed on: one that cannot be read is empty. -/
def Source.orEmpty : Except Failure Source → Source
  | .ok s => s
  | .error _ => ⟨[], .none⟩

structure Host.Asked (h : Host (StateM σ)) (I : Trace σ → Prop) : Prop where
  read : ∀ p w, I w → I (exec (h.recorded.read p) w).2
  fileExists : ∀ p w, I w → I (exec (h.recorded.fileExists p) w).2
  directoryExists : ∀ p w, I w → I (exec (h.recorded.directoryExists p) w).2
  pathBound : ∀ w, I w → I (exec h.recorded.pathBound w).2

/-- Reading a path at some time when `I` holds gives this source. -/
def Host.Yields (h : Host (StateM σ)) (I : Trace σ → Prop) (p : Path) (s : Source) : Prop :=
  ∃ w, I w ∧ s = .orEmpty (exec (h.recorded.read p) w).1

/-! ## Memories -/

section

variable {α : Type} (memo : Memo α) (p : Path)

theorem Memo.answer?_cons (q : Path) (a : α) :
    Memo.answer? ((p, a) :: memo) q = if q = p then some a else memo.answer? q := by
  unfold Memo.answer?
  by_cases h : q = p
  · simp [h]
  · rw [List.find?_cons_of_neg (by simpa using Ne.symm h), if_neg h]

variable {memo p} {m : Type → Type} [Monad m] (ask : m α)

theorem Memo.consult_kept {a : α} (h : memo.answer? p = some a) :
    memo.consult p ask = pure (a, memo) := by
  rw [Memo.consult, h]

theorem Memo.consult_new (h : memo.answer? p = none) :
    memo.consult p ask = ask >>= fun a => pure (a, (p, a) :: memo) := by
  rw [Memo.consult, h]

end

theorem Memo.mem_of_answer? {α : Type} {memo : Memo α} {p : Path} {a : α}
    (h : memo.answer? p = some a) : (p, a) ∈ memo := by
  obtain ⟨e, he, rfl⟩ := Option.map_eq_some_iff.1 h
  have hp : e.1 = p := by simpa using List.find?_some he
  exact hp ▸ List.mem_of_find?_eq_some he

theorem Memo.answer?_eq_none_iff {α : Type} {memo : Memo α} {p : Path} :
    memo.answer? p = none ↔ p ∉ memo.map (·.1) := by
  rw [Memo.answer?, Option.map_eq_none_iff, List.find?_eq_none, List.mem_map]
  simp only [decide_eq_true_eq, not_exists, not_and]

theorem Memo.exec_consult {α : Type} (memo : Memo α) (p : Path) (ask : Traced σ α) (w : Trace σ) :
    (∃ a, (p, a) ∈ memo ∧ exec (memo.consult p ask) w = ((a, memo), w)) ∨
      p ∉ memo.map (·.1) ∧ exec (memo.consult p ask) w
        = (((exec ask w).1, (p, (exec ask w).1) :: memo), (exec ask w).2) := by
  unfold Memo.consult
  split
  · rename_i a ha
    exact .inl ⟨a, Memo.mem_of_answer? ha, rfl⟩
  · rename_i ha
    exact .inr ⟨Memo.answer?_eq_none_iff.1 ha, rfl⟩

/-- A source is known already, or else it is read and kept. -/
theorem exec_source (h : Host (StateM σ)) (p : Path) (caches : Caches) (w : Trace σ) :
    (∃ s, (p, s) ∈ caches.sources ∧
      exec ((Caches.source h.recorded p).run caches) w = ((s, caches), w)) ∨
    p ∉ caches.sources.map (·.1) ∧
      let s := Source.orEmpty (exec (h.recorded.read p) w).1
      exec ((Caches.source h.recorded p).run caches) w =
        ((s, { caches with sources := (p, s) :: caches.sources }),
          (exec (h.recorded.read p) w).2) := by
  let ask : Traced σ Source := do
    match ← h.recorded.read p with
    | .ok s => pure s
    | .error _ => pure ⟨[], .none⟩
  have hasked : exec ask w = (.orEmpty (exec (h.recorded.read p) w).1,
      (exec (h.recorded.read p) w).2) := by
    show exec (match (exec (h.recorded.read p) w).1 with
      | .ok s => pure s
      | .error _ => pure ⟨[], .none⟩) (exec (h.recorded.read p) w).2 = _
    cases (exec (h.recorded.read p) w).1 <;> rfl
  have hrun : exec ((Caches.source h.recorded p).run caches) w =
      (((exec (caches.sources.consult p ask) w).1.1,
        { caches with sources := (exec (caches.sources.consult p ask) w).1.2 }),
        (exec (caches.sources.consult p ask) w).2) := rfl
  rw [hrun]
  obtain ⟨s, hs, he⟩ | ⟨hnew, he⟩ := caches.sources.exec_consult p ask w
  · rw [he]
    exact .inl ⟨s, hs, rfl⟩
  · rw [he, hasked]
    exact .inr ⟨hnew, rfl⟩

/-- What was learnt is right: absolute paths are absolute, and sources were read. -/
structure Caches.Right (h : Host (StateM σ)) (I : Trace σ → Prop) (caches : Caches) : Prop where
  resolved : ∀ e ∈ caches.resolved, e.2 = h.absolute e.1
  sources : ∀ e ∈ caches.sources, h.Yields I e.1 e.2

/-- The guarantee of actions that keep `I` and learn only what is right. -/
def Guarantee.learning (h : Host (StateM σ)) (I : Trace σ → Prop) :
    Guarantee (StateT Caches (Traced σ)) where
  holds x P := ∀ caches w, caches.Right h I → I w →
    P (exec (x.run caches) w).1.1 ∧ (exec (x.run caches) w).1.2.Right h I ∧
      I (exec (x.run caches) w).2
  holds_pure ha _ _ hc hw := ⟨ha, hc, hw⟩
  holds_bind hx hf caches w hc hw := by
    obtain ⟨ha, hc', hw'⟩ := hx caches w hc hw
    exact hf _ ha _ _ hc' hw'

section

variable {h : Host (StateM σ)} {I : Trace σ → Prop}

theorem holds_source (hask : h.Asked I) (p : Path) :
    (Guarantee.learning h I).holds (Caches.source h.recorded p) (h.Yields I p) := by
  intro caches w hc hw
  obtain ⟨s, hs, he⟩ | ⟨-, he⟩ := exec_source h p caches w
  · rw [he]
    exact ⟨hc.sources _ hs, hc, hw⟩
  · rw [he]
    have hs : h.Yields I p (.orEmpty (exec (h.recorded.read p) w).1) := ⟨w, hw, rfl⟩
    exact ⟨hs, ⟨hc.resolved, List.forall_mem_cons.2 ⟨hs, hc.sources⟩⟩, hask.read p w hw⟩

theorem holds_absolute (p : Path) :
    (Guarantee.learning h I).holds (Caches.absolute h.recorded p) (· = h.absolute p) := by
  intro caches w hc hw
  let ask : Traced σ Path := pure (h.recorded.absolute p)
  have hrun : exec ((Caches.absolute h.recorded p).run caches) w =
      (((exec (caches.resolved.consult p ask) w).1.1,
        { caches with resolved := (exec (caches.resolved.consult p ask) w).1.2 }),
        (exec (caches.resolved.consult p ask) w).2) := rfl
  rw [hrun]
  rcases caches.resolved.exec_consult p ask w with ⟨q, hq, he⟩ | ⟨-, he⟩
  · rw [he]
    exact ⟨hc.resolved _ hq, hc, hw⟩
  · rw [he]
    exact ⟨rfl, ⟨List.forall_mem_cons.2 ⟨rfl, hc.resolved⟩, hc.sources⟩, hw⟩

theorem holds_fileExists (hask : h.Asked I) (p : Path) :
    (Guarantee.learning h I).holds (Caches.fileExists h.recorded p) fun _ => True := by
  intro caches w hc hw
  have hrun : exec ((Caches.fileExists h.recorded p).run caches) w =
      (((exec (caches.existence.consult p (h.recorded.fileExists p)) w).1.1,
        { caches with existence :=
          (exec (caches.existence.consult p (h.recorded.fileExists p)) w).1.2 }),
        (exec (caches.existence.consult p (h.recorded.fileExists p)) w).2) := rfl
  rw [hrun]
  refine ⟨trivial, ⟨hc.resolved, hc.sources⟩, ?_⟩
  rcases caches.existence.exec_consult p (h.recorded.fileExists p) w with ⟨b, -, he⟩ | ⟨-, he⟩
  · rw [he]
    exact hw
  · rw [he]
    exact hask.fileExists p w hw

theorem keeps_services (hask : h.Asked I) :
    (Caches.services h.recorded).Keeps (Guarantee.learning h I) fun p =>
      ∃ q, p = Path.forward (h.absolute q) where
  fileExists p := holds_fileExists hask p
  directoryExists p := fun _ w hc hw => ⟨trivial, hc, hask.directoryExists p w hw⟩
  parentDirectory _ := fun _ _ hc hw => ⟨trivial, hc, hw⟩
  resolve name directory := by
    refine (Guarantee.learning h I).holds_bind (holds_absolute _) fun q hq => ?_
    exact (Guarantee.learning h I).holds_pure ⟨_, congrArg Path.forward hq⟩
  sourceText p := (Guarantee.learning h I).holds_bind (holds_source hask p) fun _ _ =>
    (Guarantee.learning h I).holds_pure trivial
  pathBound := fun _ w hc hw => ⟨trivial, hc, hask.pathBound w hw⟩

/-! ## Units -/

/-- A unit is that of a file, with a source that reading it gives. -/
structure UnitFor (h : Host (StateM σ)) (I : Trace σ → Prop) (f : ResolvedFile) (u : SourceUnit) :
    Prop where
  path : u.path = f.path
  references : u.references = f.references
  source : h.Yields I f.path ⟨u.text, u.mark⟩

theorem holds_units (hask : h.Asked I) (files : List ResolvedFile) :
    (Guarantee.learning h I).holds (files.mapM (unitOf h.recorded))
      (List.Forall₂ (UnitFor h I) files) := by
  let g := Guarantee.learning h I
  induction files with
  | nil => exact g.holds_pure .nil
  | cons f files ih =>
    rw [List.mapM_cons]
    refine g.holds_bind (P := UnitFor h I f) ?_ fun u hu => g.holds_bind ih fun us hus =>
      g.holds_pure (.cons hu hus)
    exact g.holds_bind (holds_source hask f.path) fun s hs => g.holds_pure ⟨rfl, rfl, hs⟩

theorem paths_of_units {files : List ResolvedFile} {units : List SourceUnit}
    (hunits : List.Forall₂ (UnitFor h I) files units) :
    units.map SourceUnit.path = files.map ResolvedFile.path := by
  induction hunits with
  | nil => rfl
  | cons hu _ ih => rw [List.map_cons, List.map_cons, hu.path, ih]

/-! ## Steady hosts -/

/-- The events in which a host was asked to change its files, the last one first. -/
def Journal.changes (j : Journal) : List Event :=
  j.filter fun
    | .write _ => true
    | .createDirectory _ => true
    | _ => false

def changes (w : Trace σ) : List Event :=
  Journal.changes w.1

/-- Neither asking nor printing ends what is kept of the world of a host. -/
structure Host.Steady (h : Host (StateM σ)) (kept : σ → Prop) : Prop where
  read : ∀ p s, kept s → kept (h.read p s).2
  fileExists : ∀ p s, kept s → kept (h.fileExists p s).2
  directoryExists : ∀ p s, kept s → kept (h.directoryExists p s).2
  pathBound : ∀ s, kept s → kept (h.pathBound s).2
  print : ∀ channel t s, kept s → kept (h.print channel t s).2

theorem Host.steady_trivial (h : Host (StateM σ)) : h.Steady fun _ => True :=
  ⟨fun _ _ => id, fun _ _ => id, fun _ _ => id, fun _ => id, fun _ _ _ => id⟩

theorem Host.Steady.asked {kept : σ → Prop} (hs : h.Steady kept) (w : Trace σ)
    (T : (Channel → List Text) → Prop) :
    h.Asked fun v => T (said v) ∧ changes v = changes w ∧ kept v.2 where
  read p v hv := ⟨(quiet_read h p v).symm ▸ hv.1, hv.2.1, hs.read p v.2 hv.2.2⟩
  fileExists p v hv := ⟨hv.1, hv.2.1, hs.fileExists p v.2 hv.2.2⟩
  directoryExists p v hv := ⟨hv.1, hv.2.1, hs.directoryExists p v.2 hv.2.2⟩
  pathBound v hv := ⟨hv.1, hv.2.1, hs.pathBound v.2 hv.2.2⟩

section Printing

variable {α : Type} (text : α → Text) (on : Channel) (as : List α) (w : Trace σ)

theorem changes_forM_printLine :
    changes (exec (as.forM fun a => h.recorded.printLine on (text a)) w).2 = changes w := by
  induction as generalizing w with
  | nil => rfl
  | cons a as ih => exact ih (exec (h.recorded.printLine on (text a)) w).2

theorem Host.Steady.kept_forM_printLine {kept : σ → Prop} (hs : h.Steady kept) (hw : kept w.2) :
    kept (exec (as.forM fun a => h.recorded.printLine on (text a)) w).2.2 := by
  induction as generalizing w with
  | nil => exact hw
  | cons a as ih =>
    exact ih (exec (h.recorded.printLine on (text a)) w).2 (hs.print on (h.layout (text a)) w.2 hw)

end Printing

theorem changes_reported (ds : List Diagnostic) (w : Trace σ) :
    changes (reported h ds w) = changes w :=
  changes_forM_printLine Diagnostic.shown .error ds w

theorem Host.Steady.kept_reported {kept : σ → Prop} (hs : h.Steady kept) (ds : List Diagnostic)
    {w : Trace σ} (hw : kept w.2) : kept (reported h ds w).2 :=
  hs.kept_forM_printLine Diagnostic.shown .error ds w hw

theorem Host.Steady.kept_told {kept : σ → Prop} (hs : h.Steady kept) (lines : List Text)
    {w : Trace σ} (hw : kept w.2) : kept (told h lines w).2 :=
  hs.kept_forM_printLine id .output lines w hw

theorem Host.Steady.kept_summary {kept : σ → Prop} (hs : h.Steady kept) (closes : Bool)
    (lines : List Text) {w : Trace σ} (hw : kept w.2) :
    kept (if closes then told h lines w else w).2 := by
  cases closes with
  | true => exact hs.kept_told lines hw
  | false => exact hw

/-! ## Runs -/

section

variable {c : Configuration} {resolver : Resolver (StateT Caches (Traced σ))} {library : Path}
  {inputs : List Path} {w w₁ w₂ : Trace σ} {resolution : Resolution} {units : List SourceUnit}
  {P : Resolution → Prop}

theorem Caches.right_empty : Caches.empty.Right h I where
  resolved := by simp [Caches.empty]
  sources := by simp [Caches.empty]

/-- What asking keeps is as it was when the resolver has answered, and then, if the diagnostics
leave it alone, when the first phase starts. -/
theorem Resolved.keeps (hres : Resolved h c resolver library inputs w resolution w₁ units w₂)
    (hask : h.Asked I)
    (hP : (Guarantee.learning h I).holds
      (resolver inputs (Caches.services h.recorded) c.settings.caseSensitive) P) (hw : I w) :
    P resolution ∧ I w₁ ∧ (I (reported h resolution.diagnostics w₁) → I w₂ ∧
      List.Forall₂ (UnitFor h I)
        (filesToCompile (Path.combine (h.absolute library) libraryFile) c resolution) units) := by
  obtain ⟨caches, caches', hr, hu⟩ := hres.answer
  obtain ⟨hp, hc, hw₁⟩ := hP .empty w Caches.right_empty hw
  rw [hr] at hp hc hw₁
  refine ⟨hp, hw₁, fun hrep => ?_⟩
  obtain ⟨hunits, -, hw₂⟩ := holds_units hask _ caches _ hc hrep
  rw [hu] at hunits hw₂
  exact ⟨hw₂, hunits⟩

/-- What a run did before its first phase: it printed what its resolver reports, and has one unit
for each file to compile. -/
structure Begun (h : Host (StateM σ)) (c : Configuration) (kept : σ → Prop) (library : Path)
    (w : Trace σ) (resolution : Resolution) (units : List SourceUnit) (w₂ : Trace σ) : Prop where
  changes : changes w₂ = changes w
  keeps : kept w₂.2
  output : said w₂ .output = said w .output
  errors : said w₂ .error = said w .error ++ linesOf h resolution.diagnostics
  units : List.Forall₂ (UnitFor h fun v => kept v.2)
    (filesToCompile (Path.combine (h.absolute library) libraryFile) c resolution) units

theorem Resolved.begun {kept : σ → Prop}
    (hres : Resolved h c resolver library inputs w resolution w₁ units w₂) (hs : h.Steady kept)
    (hP : ∀ I, h.Asked I → (Guarantee.learning h I).holds
      (resolver inputs (Caches.services h.recorded) c.settings.caseSensitive) P) (hw : kept w.2) :
    P resolution ∧ Begun h c kept library w resolution units w₂ := by
  have hquiet := hs.asked w (· = said w)
  have houtput := hs.asked w (· .output = said w .output)
  obtain ⟨hp, ⟨hsaid, -, -⟩, -⟩ := hres.keeps hquiet (hP _ hquiet) ⟨rfl, rfl, hw⟩
  obtain ⟨-, ⟨hout, hchanges, hkept⟩, hunits⟩ := hres.keeps houtput (hP _ houtput) ⟨rfl, rfl, hw⟩
  obtain ⟨⟨hout, hchanges, hkept⟩, hunits⟩ := hunits ⟨(said_reported_output _ _).trans hout,
    (changes_reported _ _).trans hchanges, hs.kept_reported _ hkept⟩
  obtain ⟨lines, hshows, herrors⟩ := hres.errors
  refine ⟨hp, hchanges, hkept, hout, hsaid ▸ linesOf_of_shows hshows ▸ herrors, ?_⟩
  exact hunits.imp fun f u hu => ⟨hu.path, hu.references, hu.source.imp fun v hv =>
    ⟨hv.1.2.2, hv.2⟩⟩

end

end

end BatchCompile
