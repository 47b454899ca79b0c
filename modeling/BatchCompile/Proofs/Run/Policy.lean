import BatchCompile.Proofs.Run.Phases

/-!
# The policy of a run

A run resolves its inputs, takes the results of the phases up to the first that stops it and, if
none does, closes with a summary. `runWith_policy` says so for every host, resolver and engine:
what is returned, what is printed on either channel, and which effects the host sees.
-/

namespace BatchCompile

variable {σ : Type} (h : Host (StateM σ)) (c : Configuration)

theorem quiet_unitOf (file : ResolvedFile) (caches : Caches) :
    Quiet ((unitOf h.recorded file).run caches) := by
  simp only [unitOf, Caches.source, StateT.run_bind, StateT.run_get, StateT.run_set,
    StateT.run_pure, pure_bind, bind_assoc, StateT.run_monadLift, monadLift_self]
  refine .bind ?_ fun _ => .pure _
  unfold Memo.consult
  split
  · exact .pure _
  refine .bind (.bind (quiet_read h _) fun s => ?_) fun _ => .pure _
  split <;> exact .pure _

theorem quiet_units (files : List ResolvedFile) (caches : Caches) :
    Quiet ((files.mapM (unitOf h.recorded)).run caches) := by
  induction files generalizing caches with
  | nil => exact .pure _
  | cons file files ih =>
    simp only [List.mapM_cons, StateT.run_bind, StateT.run_pure]
    exact .bind (quiet_unitOf h file caches) fun _ => .bind (ih _) fun _ => .pure _

theorem exec_print_resolution (ds : List Diagnostic) (caches : Caches) (w : Trace σ) :
    exec ((ds.forM fun d => liftM (n := StateT Caches (Traced σ))
      (printDiagnostic h.recorded d)).run caches) w = (((), caches), reported h ds w) := by
  induction ds generalizing w with
  | nil => rfl
  | cons d ds ih => exact ih (exec (printDiagnostic h.recorded d) w).2

/-- What a run resolves to, from the trace `w`: the resolver's answer and the trace after it, and
the units and the trace before the first phase. -/
structure Resolved (resolver : Resolver (StateT Caches (Traced σ))) (library : Path)
    (inputs : List Path) (w : Trace σ) (resolution : Resolution) (w₁ : Trace σ)
    (units : List SourceUnit) (w₂ : Trace σ) : Prop where
  /-- The resolver answers, and its diagnostics and the sources of the files follow. -/
  answer : ∃ caches caches',
    exec ((resolver inputs (Caches.services h.recorded) c.settings.caseSensitive).run .empty) w
      = ((resolution, caches), w₁)
    ∧ exec (((filesToCompile (Path.combine (h.absolute library) libraryFile) c resolution).mapM
        (unitOf h.recorded)).run caches) (reported h resolution.diagnostics w₁)
      = ((units, caches'), w₂)
  errors : ∃ lines, List.Forall₂ Diagnostic.Shows resolution.diagnostics lines
    ∧ said w₂ .error = said w₁ .error ++ lines.map h.layout
  output : said w₂ .output = said w₁ .output

/-- A run that no result stops: all of them are taken, all artifacts are written where they go, and
the lines that sum up what was written close the run. -/
structure Succeeded (results : List PhaseResult) (w : Trace σ) (report : Report) (w' : Trace σ) :
    Prop where
  abort : report.abort = none
  pulled : report.pulled = results.map PhaseResult.phase
  destinations :
    List.Forall₂ (GoesTo h c) (results.flatMap PhaseResult.artifacts) report.written
  effects : ∃ w₁ lines, Passed h c results report.written w w₁
    ∧ Summary.Closes report.written c.singleOutput lines
    ∧ w' = told h lines w₁
    ∧ said w' .output = said w .output ++ lines.map h.layout
  errors : ∃ lines, List.Forall₂ Diagnostic.Shows (results.flatMap PhaseResult.diagnostics) lines
    ∧ said w' .error = said w .error ++ lines.map h.layout

/-- A run that is stopped by the result `r`: the results before it pass, none after it is taken,
and nothing happens after it stops the run. -/
structure StoppedBy (before : List PhaseResult) (r : PhaseResult) (w : Trace σ) (report : Report)
    (w' : Trace σ) : Prop where
  pulled : report.pulled = (before ++ [r]).map PhaseResult.phase
  effects : ∃ why done last ps qs w₁ lines, Passed h c before ps w w₁
    ∧ Stopped h c r why done qs last w₁ w'
    ∧ report.abort = some why
    ∧ report.written = ps ++ qs
    ∧ List.Forall₂ (GoesTo h c) (before.flatMap PhaseResult.artifacts ++ done) report.written
    ∧ List.Forall₂ Diagnostic.Shows
      ((before ++ [r]).flatMap PhaseResult.diagnostics ++ last) lines
    ∧ said w' .error = said w .error ++ lines.map h.layout
  output : said w' .output = said w .output

theorem exec_gather (resolver : Resolver (StateT Caches (Traced σ))) (library : Path)
    (inputs : List Path) (w : Trace σ) :
    ∃ resolution units caches w₁ w₂,
      exec ((gather h.recorded resolver library c inputs).run .empty) w
        = (((resolution, units), caches), w₂)
      ∧ Resolved h c resolver library inputs w resolution w₁ units w₂ := by
  rcases hr : exec ((resolver inputs (Caches.services h.recorded) c.settings.caseSensitive).run
    .empty) w with ⟨⟨resolution, caches⟩, w₁⟩
  let files := filesToCompile (Path.combine (h.absolute library) libraryFile) c resolution
  rcases hu : exec ((files.mapM (unitOf h.recorded)).run caches)
    (reported h resolution.diagnostics w₁) with ⟨⟨units, caches'⟩, w₂⟩
  have hsaid : said w₂ = said (reported h resolution.diagnostics w₁) := by
    have hq := quiet_units h files caches (reported h resolution.diagnostics w₁)
    rwa [hu] at hq
  obtain ⟨lines, hshows, hlines⟩ := exists_shows h resolution.diagnostics
  refine ⟨resolution, units, caches', w₁, w₂, ?_, ⟨caches, caches', hr, hu⟩, ⟨lines, hshows, ?_⟩, ?_⟩
  · simp only [gather, StateT.run_bind, StateT.run_pure, exec_bind, exec_pure, hr,
      exec_print_resolution]
    exact congrArg (fun o => (((resolution, o.1.1), o.1.2), o.2)) hu
  · rw [hsaid, said_reported_error, hlines]
  · rw [hsaid, said_reported_output]

/-- A run gathers its units and takes the results of the phases; if none stops it, it closes with
the summary. -/
theorem exec_runWith {h : Host (StateM σ)} {c : Configuration}
    {resolver : Resolver (StateT Caches (Traced σ))} {engine : Engine} {library : Path}
    {inputs : List Path} {w w₂ w₃ : Trace σ} {resolution : Resolution} {units : List SourceUnit}
    {caches : Caches} {progress : Progress}
    (hg : exec ((gather h.recorded resolver library c inputs).run .empty) w =
      (((resolution, units), caches), w₂))
    (ht : exec (takeResults h.recorded c (engine c.settings h.absolute units)) w₂ =
      (progress, w₃)) :
    exec (runWith h.recorded resolver engine library c inputs) w =
      (⟨resolution, units, progress.pulled, progress.written, progress.abort⟩,
        if progress.abort.isNone then
          told h ((Summary.of progress.written).lines c.singleOutput) w₃
        else w₃) := by
  rw [runWith, exec_bind, hg]
  refine (exec_bind _ _ _).trans ?_
  rw [show h.recorded.absolute = h.absolute from rfl, ht]
  cases progress.abort.isNone <;> rfl

/-- Every run resolves its inputs and then either takes all results, or is stopped by one of
them. -/
theorem runWith_policy (resolver : Resolver (StateT Caches (Traced σ))) (engine : Engine)
    (library : Path) (inputs : List Path) (w : Trace σ) :
    let (report, w') := exec (runWith h.recorded resolver engine library c inputs) w
    ∃ w₁ w₂, Resolved h c resolver library inputs w report.resolution w₁ report.units w₂
      ∧ let results := engine c.settings h.absolute report.units
        Succeeded h c results w₂ report w'
          ∨ ∃ before r rest, results = before ++ r :: rest
            ∧ StoppedBy h c before r w₂ report w' := by
  obtain ⟨resolution, units, caches, w₁, w₂, hg, hres⟩ := exec_gather h c resolver library inputs w
  rcases takeResults_policy (h := h) (c := c) (engine c.settings h.absolute units) w₂ with
    ⟨ps, w₃, he, hp⟩ | ⟨before, r, rest, why, done, last, ps, qs, w₃, w₄, hrs, hp, hs, he⟩
  · rw [exec_runWith hg he]
    obtain ⟨lines, hshows, hlines⟩ := exists_shows h
      ((engine c.settings h.absolute units).flatMap PhaseResult.diagnostics)
    refine ⟨w₁, w₂, hres, .inl ⟨rfl, rfl, hp.goesTo,
      ⟨w₃, _, hp, Summary.closes_lines ps c.singleOutput, rfl, ?_⟩, lines, hshows, ?_⟩⟩
    · exact (said_told_output _ w₃).trans (by rw [hp.said_output])
    · exact (said_told_error _ w₃).trans (hlines ▸ hp.said_error)
  · rw [exec_runWith hg he]
    obtain ⟨lines, hshows, hlines⟩ := exists_shows h
      ((before ++ [r]).flatMap PhaseResult.diagnostics ++ last)
    refine ⟨w₁, w₂, hres, .inr ⟨before, r, rest, hrs, rfl, ?_, ?_⟩⟩
    · refine ⟨why, done, last, ps, qs, w₃, lines, hp, hs, rfl, rfl,
        List.rel_append hp.goesTo hs.goesTo, hshows, ?_⟩
      rw [← hlines]
      exact hs.said_error.trans (by rw [hp.said_error]; simp [linesOf])
    · exact hs.said_output.trans hp.said_output

end BatchCompile
