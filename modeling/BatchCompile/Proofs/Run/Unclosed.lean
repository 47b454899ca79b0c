import BatchCompile.Proofs.Comments
import BatchCompile.Proofs.Hosts.Trees

/-!
# Unclosed comments

The engine that passes sources through reports nothing but block comments that are not closed, and
it reports them before it emits anything. So a run whose units hold such a comment changes nothing,
and no phase stops any other run (`run_unclosed`).
-/

namespace BatchCompile

variable {σ : Type}

/-- The line about the block comment in which a unit ends: where that starts, counted from one. -/
def FaultLine (u : SourceUnit) (line : Text) : Prop :=
  ∃ left, Comments.State.run .code u.text = .block left ∧
    let start := Comments.Position.behind (u.text.take (u.text.length - left))
    line = u.path ++ '(' :: Text.ofNat (start.line + 1) ++ ',' :: Text.ofNat (start.character + 1)
      ++ "): ".toList ++ "'*/' expected.".toList

/-- A run that stopped before it asked its host for any change: all it printed are errors, those of
the resolution and one line for each unit that ends in a comment. -/
structure Unchanged (h : Host (StateM σ)) (w : Trace σ) (report : Report) (w' : Trace σ) :
    Prop where
  written : report.written = []
  changes : changes w' = changes w
  output : said w' .output = said w .output
  errors : ∃ lines, List.Forall₂ FaultLine (report.units.filter (Comments.Open ·.text)) lines ∧
    said w' .error
      = said w .error ++ linesOf h report.resolution.diagnostics ++ lines.map h.layout

/-! ## Faults -/

theorem commentFault?_eq_some {u : SourceUnit} {d : Diagnostic} (h : u.commentFault? = some d) :
    Comments.Open u.text ∧ d.category = .error ∧ FaultLine u d.shown := by
  obtain ⟨start, hstart, rfl⟩ := Option.map_eq_some_iff.1 h
  obtain ⟨rest, hrest, rfl⟩ := Option.map_eq_some_iff.1 hstart
  have hblock := Comments.run_code_eq_block_iff.2 ⟨rest, hrest, rfl⟩
  exact ⟨⟨_, hblock⟩, rfl, rest.length, hblock, rfl⟩

theorem commentFault?_of_open {u : SourceUnit} (h : Comments.Open u.text) :
    ∃ d, u.commentFault? = some d := by
  obtain ⟨start, hstart⟩ := Comments.open_iff.1 h
  exact ⟨_, Option.map_eq_some_iff.2 ⟨start, hstart, rfl⟩⟩

theorem faultLines (units : List SourceUnit) :
    List.Forall₂ FaultLine (units.filter (Comments.Open ·.text))
      ((units.filterMap SourceUnit.commentFault?).map Diagnostic.shown) := by
  induction units with
  | nil => exact .nil
  | cons u units ih =>
    by_cases hu : Comments.Open u.text
    · obtain ⟨d, hd⟩ := commentFault?_of_open hu
      rw [List.filter_cons_of_pos (by simpa using hu), List.filterMap_cons_some hd, List.map_cons]
      exact .cons (commentFault?_eq_some hd).2.2 ih
    · have hnone : u.commentFault? = none := by
        cases hd : u.commentFault? with
        | none => rfl
        | some d => exact absurd (commentFault?_eq_some hd).1 hu
      rw [List.filter_cons_of_neg (by simpa using hu), List.filterMap_cons_none hnone]
      exact ih

/-! ## Phases -/

section

variable {c : Configuration} {settings : Settings} {absolute : Path → Path}
  {units : List SourceUnit}

theorem diagnostics_passThrough {r : PhaseResult}
    (hr : r ∈ Engine.passThrough settings absolute units) :
    r.diagnostics =
      if r.phase = .syntaxCheck then units.filterMap SourceUnit.commentFault? else [] := by
  obtain ⟨p, -, rfl⟩ := List.mem_map.1 hr
  cases p <;> rfl

theorem halted_passThrough_iff {r : PhaseResult}
    (hr : r ∈ Engine.passThrough settings absolute units) :
    Halted c r ↔ r.phase = .syntaxCheck ∧ ∃ u ∈ units, Comments.Open u.text := by
  rw [Halted, diagnostics_passThrough hr]
  constructor
  · rintro ⟨⟨d, hd, -⟩, -⟩
    split at hd
    · rename_i hp
      obtain ⟨u, hu, hf⟩ := List.mem_filterMap.1 hd
      exact ⟨hp, u, hu, (commentFault?_eq_some hf).1⟩
    · cases hd
  · rintro ⟨hp, u, hu, hopen⟩
    obtain ⟨d, hd⟩ := commentFault?_of_open hopen
    rw [if_pos hp]
    exact ⟨⟨d, List.mem_filterMap.2 ⟨u, hu, hd⟩, (commentFault?_eq_some hd).2.1⟩, .inl hp⟩

variable (h : Host (StateM σ)) (c settings absolute)

/-- With an open comment the first phase is the last, and its errors are all there is. -/
theorem takeResults_of_open (hopen : ∃ u ∈ units, Comments.Open u.text) (w : Trace σ) :
    exec (takeResults h.recorded c (Engine.passThrough settings absolute units)) w =
      (⟨[.syntaxCheck], [], some .syntaxError⟩,
        reported h (units.filterMap SourceUnit.commentFault?) w) := by
  have hhalted : Halted c (passThroughPhase settings absolute units .syntaxCheck) :=
    (halted_passThrough_iff (List.mem_map_of_mem (by decide))).2 ⟨rfl, hopen⟩
  exact takeResults_fatal (fatal?_of_halted hhalted)

/-- Without an open comment only a failed write stops a run. -/
theorem takeResults_of_closed (hclosed : ¬∃ u ∈ units, Comments.Open u.text) (w : Trace σ) :
    let abort :=
      (exec (takeResults h.recorded c (Engine.passThrough settings absolute units)) w).1.abort
    abort = none ∨ abort = some .write := by
  rcases takeResults_policy (h := h) (c := c) (Engine.passThrough settings absolute units) w with
    ⟨ps, w', he, -⟩ | ⟨before, r, rest, why, done, last, ps, qs, w₁, w₂, hrs, -, hs, he⟩
  · rw [he]
    exact .inl rfl
  · rw [he]
    have hr : r ∈ Engine.passThrough settings absolute units := by rw [hrs]; simp
    cases hs with
    | halted hh => exact absurd ((halted_passThrough_iff hr).1 hh).2 hclosed
    | refused => exact .inr rfl

end

/-! ## Runs -/

/-- What neither asking nor printing ends lasts until a run is stopped for a syntax error. -/
theorem Host.Steady.kept_of_syntaxError {h : Host (StateM σ)} {kept : σ → Prop} (hs : h.Steady kept)
    {library : Path} {c : Configuration} {inputs : List Path} {w w' : Trace σ} {report : Report}
    (he : exec (run h.recorded library c inputs) w = (report, w'))
    (ha : report.abort = some .syntaxError) (hw : kept w.2) : kept w'.2 := by
  obtain ⟨resolution, units, caches, w₁, w₂, hg, hres⟩ :=
    exec_gather h c Resolver.directives library inputs w
  obtain ⟨-, hbegun⟩ := hres.begun (P := fun _ => True) hs (fun I hask =>
    asks_directives _ _ _ (keeps_services hask) inputs c.settings.caseSensitive) hw
  by_cases hopen : ∃ u ∈ units, Comments.Open u.text
  · rw [run, exec_runWith hg (takeResults_of_open c c.settings h.absolute h hopen w₂)] at he
    cases he
    exact hs.kept_reported _ hbegun.keeps
  · rcases ht : exec (takeResults h.recorded c
      (Engine.passThrough c.settings h.absolute units)) w₂ with ⟨progress, w₃⟩
    have hclosed := takeResults_of_closed c c.settings h.absolute h hopen w₂
    rw [run, exec_runWith hg ht] at he
    cases he
    rw [ht, show progress.abort = _ from ha] at hclosed
    exact hclosed.elim nofun nofun

/-- A run stops for a syntax error exactly if one of its units ends in a block comment; then it has
changed nothing. Any other run goes through, or stops at a failed write. Whatever of the world of
the host neither asking nor printing ends, the texts of the units were read while it lasted, and it
lasts until a run is stopped so. -/
theorem run_unclosed (h : Host (StateM σ)) (library : Path) (c : Configuration)
    (inputs : List Path) (w : Trace σ) :
    let (report, w') := exec (run h.recorded library c inputs) w
    (report.abort = some .syntaxError ↔ ∃ u ∈ report.units, Comments.Open u.text) ∧
    (report.abort = some .syntaxError → Unchanged h w report w') ∧
    (report.abort ≠ some .syntaxError → report.abort = none ∨ report.abort = some .write) ∧
    ∀ kept, h.Steady kept → kept w.2 →
      List.Forall₂ (UnitFor h fun v => kept v.2)
        (filesToCompile (Path.combine (h.absolute library) libraryFile) c report.resolution)
        report.units ∧
      (report.abort = some .syntaxError → kept w'.2) := by
  obtain ⟨resolution, units, caches, w₁, w₂, hg, hres⟩ :=
    exec_gather h c Resolver.directives library inputs w
  have hbegun : ∀ kept, h.Steady kept → kept w.2 →
      Begun h c kept library w resolution units w₂ := fun kept hs hk =>
    (hres.begun (P := fun _ => True) hs (fun I hask => asks_directives _ _ _ (keeps_services hask)
      inputs c.settings.caseSensitive) hk).2
  have hbase := hbegun _ h.steady_trivial trivial
  by_cases hopen : ∃ u ∈ units, Comments.Open u.text
  · have ht := takeResults_of_open c c.settings h.absolute h hopen w₂
    rw [run, exec_runWith hg ht]
    refine ⟨iff_of_true rfl hopen, fun _ => ⟨rfl, ?_, ?_, _, faultLines units, ?_⟩,
      fun hne => absurd rfl hne, fun kept hs hk => ⟨(hbegun kept hs hk).units, fun _ => ?_⟩⟩
    · exact (changes_reported _ _).trans hbase.changes
    · exact (said_reported_output _ _).trans hbase.output
    · refine (said_reported_error _ _).trans ?_
      rw [hbase.errors, List.map_map]
      rfl
    · exact hs.kept_reported _ (hbegun kept hs hk).keeps
  · rcases ht : exec (takeResults h.recorded c
      (Engine.passThrough c.settings h.absolute units)) w₂ with ⟨progress, w₃⟩
    have hclosed := takeResults_of_closed c c.settings h.absolute h hopen w₂
    rw [ht] at hclosed
    have hne : progress.abort ≠ some .syntaxError := by
      rcases hclosed with he | he
      · rw [he]; decide
      · rw [he]; decide
    rw [run, exec_runWith hg ht]
    exact ⟨iff_of_false hne hopen, fun he => absurd he hne, fun _ => hclosed,
      fun kept hs hk => ⟨(hbegun kept hs hk).units, fun he => absurd he hne⟩⟩

def openSource : Memory where
  files := [("/work/a.ts".toList, ⟨"let a; /* a\n".toList, .none⟩)]
  directories := ["/".toList, "/work".toList]
  unreadable := []
  unwritable := []

theorem run_unclosed_openSource :
    let c := Configuration.resolve "/work".toList { Options.unset with noLib := some true }
      (some "dist".toList)
    let o := exec (run (Memory.host "/work".toList).recorded [] c ["a.ts".toList]) ([], openSource)
    o.1.abort = some .syntaxError ∧ changes o.2 = [] ∧ o.2.2.tree = openSource.tree := by
  intro c
  have habort : (exec (run (Memory.host "/work".toList).recorded [] c ["a.ts".toList])
      ([], openSource)).1.abort = some .syntaxError := by decide +kernel
  have hrun := run_unclosed (Memory.host "/work".toList) [] c ["a.ts".toList] ([], openSource)
  generalize exec (run (Memory.host "/work".toList).recorded [] c ["a.ts".toList])
    ([], openSource) = o at habort hrun ⊢
  obtain ⟨-, hunchanged, -, hkept⟩ := hrun
  have hsteady := Memory.steady_host "/work".toList openSource.tree
  exact ⟨habort, (hunchanged habort).changes, (hkept _ hsteady rfl).2 habort⟩

end BatchCompile
