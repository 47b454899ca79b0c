import BatchCompile.Proofs.Run.Trace
import Mathlib.Data.List.Forall2

/-!
# What stops a run

The rules for the results of the phases, stated on traces. A result is halted by an error of the
syntax check, or by any error unless type errors are ignored (`Halted`); otherwise its artifacts
are written in order (`Written`) up to the first that is refused. `Passed` is a list of results
none of which stops the run, and `Stopped` is what one that does leaves behind.

`takeResults_policy` says that taking results does just this.
-/

namespace BatchCompile

variable {σ : Type}

def reported (h : Host (StateM σ)) (ds : List Diagnostic) (w : Trace σ) : Trace σ :=
  (exec (ds.forM (printDiagnostic h.recorded)) w).2

def told (h : Host (StateM σ)) (lines : List Text) (w : Trace σ) : Trace σ :=
  (exec (h.recorded.printLines .output lines) w).2

/-- A result that stops a run before anything of it is written. -/
def Halted (c : Configuration) (r : PhaseResult) : Prop :=
  (∃ d ∈ r.diagnostics, d.category = .error)
    ∧ (r.phase = .syntaxCheck ∨ c.ignoreTypeCheck = false)

def haltReason (p : Phase) : Abort :=
  if p = .syntaxCheck then .syntaxError else .phase p

/-- Where an artifact goes: its destination, made absolute. -/
def GoesTo (h : Host (StateM σ)) (c : Configuration) (a : Artifact) (p : Path) : Prop :=
  ∃ goal, destination h.cwd c a.name = .ok goal ∧ p = h.absolute goal

/-- An artifact is written to a path: the path is where it goes, the directories above it are
made, and the host takes the text for that place. -/
def Placed (h : Host (StateM σ)) (c : Configuration) (a : Artifact) (p : Path)
    (w w' : Trace σ) : Prop :=
  ∃ goal text w₁, destination h.cwd c a.name = .ok goal ∧ p = h.absolute goal
    ∧ placedText h.cwd c a.name goal a.text = .ok text
    ∧ exec (h.recorded.ensureChain (Path.ancestors p)) w = (.ok (), w₁)
    ∧ exec (h.recorded.write p text a.marked) w₁ = (.ok (), w')

/-- An artifact cannot be placed or written. -/
def Refused (h : Host (StateM σ)) (c : Configuration) (a : Artifact) (f : Failure)
    (w w' : Trace σ) : Prop :=
  exec (place h.recorded c a) w = (.error f, w')

/-- Artifacts are written one after the other. -/
inductive Written (h : Host (StateM σ)) (c : Configuration) :
    List Artifact → List Path → Trace σ → Trace σ → Prop where
  | nil (w : Trace σ) : Written h c [] [] w w
  | cons {a : Artifact} {rest : List Artifact} {p : Path} {ps : List Path} {w w₁ w₂ : Trace σ} :
      Placed h c a p w w₁ → Written h c rest ps w₁ w₂ →
      Written h c (a :: rest) (p :: ps) w w₂

/-- Results are taken one after the other and none of them stops the run. -/
inductive Passed (h : Host (StateM σ)) (c : Configuration) :
    List PhaseResult → List Path → Trace σ → Trace σ → Prop where
  | nil (w : Trace σ) : Passed h c [] [] w w
  | cons {r : PhaseResult} {rest : List PhaseResult} {ps qs : List Path} {w w₁ w₂ : Trace σ} :
      ¬Halted c r → Written h c r.artifacts ps (reported h r.diagnostics w) w₁ →
      Passed h c rest qs w₁ w₂ → Passed h c (r :: rest) (ps ++ qs) w w₂

def refusal (a : Artifact) (f : Failure) : Diagnostic where
  file := some a.name
  line := none
  character := none
  category := .error
  code := 5033
  text := "Emit Error: ".toList ++ (f.message ++ ".".toList)

theorem ofMessage_notEmitted (a : Artifact) (f : Failure) :
    Diagnostic.ofMessage (some a.name) .notEmitted [f.message] = refusal a f := rfl

/-- A result stops the run: why, which of its artifacts were written, and where to, and what is
reported last. -/
inductive Stopped (h : Host (StateM σ)) (c : Configuration) (r : PhaseResult) :
    Abort → List Artifact → List Path → List Diagnostic → Trace σ → Trace σ → Prop where
  | halted {w : Trace σ} : Halted c r →
      Stopped h c r (haltReason r.phase) [] [] [] w (reported h r.diagnostics w)
  | refused {done rest : List Artifact} {a : Artifact} {f : Failure} {ps : List Path}
      {w w₁ w₂ : Trace σ} : ¬Halted c r → r.artifacts = done ++ a :: rest →
      Written h c done ps (reported h r.diagnostics w) w₁ → Refused h c a f w₁ w₂ →
      Stopped h c r .write done ps [refusal a f] w (reported h [refusal a f] w₂)

/-! ## Artifacts -/

theorem exists_of_mem_right {α β : Type} {R : α → β → Prop} {as : List α} {bs : List β}
    (h : List.Forall₂ R as bs) {b : β} (hb : b ∈ bs) : ∃ a ∈ as, R a b := by
  induction h with
  | nil => cases hb
  | cons hab _ ih =>
    rcases List.mem_cons.1 hb with rfl | hb
    · exact ⟨_, List.mem_cons_self, hab⟩
    · exact (ih hb).imp fun _ h => ⟨List.mem_cons_of_mem _ h.1, h.2⟩

section

variable {h : Host (StateM σ)} {c : Configuration}

theorem placed_of_place {a : Artifact} {p : Path} {w w' : Trace σ}
    (hp : exec (place h.recorded c a) w = (.ok p, w')) : Placed h c a p w w' := by
  unfold place at hp
  split at hp
  · cases hp
  rename_i goal hgoal
  split at hp
  · cases hp
  rename_i text htext
  rw [exec_bind] at hp
  generalize hf : exec (h.recorded.writeFile (h.recorded.absolute goal) text a.marked) w = o at hp
  obtain ⟨⟨f⟩ | ⟨⟨⟩⟩, w₂⟩ := o
  · cases hp
  cases hp
  unfold Host.writeFile at hf
  rw [exec_bind] at hf
  generalize he : exec (h.recorded.ensureChain (Path.ancestors (h.recorded.absolute goal))) w = o
    at hf
  obtain ⟨⟨f⟩ | ⟨⟨⟩⟩, w₁⟩ := o
  · cases hf
  exact ⟨goal, text, w₁, hgoal, rfl, htext, he, hf⟩

theorem Placed.goesTo {a : Artifact} {p : Path} {w w' : Trace σ} (hp : Placed h c a p w w') :
    GoesTo h c a p := by
  obtain ⟨goal, _, _, hgoal, rfl, _⟩ := hp
  exact ⟨goal, hgoal, rfl⟩

theorem Placed.said_eq {a : Artifact} {p : Path} {w w' : Trace σ} (hp : Placed h c a p w w') :
    said w' = said w := by
  obtain ⟨goal, text, w₁, _, rfl, _, he, hf⟩ := hp
  have h₁ := quiet_ensureChain h (Path.ancestors (h.absolute goal)) w
  have h₂ := quiet_write h (h.absolute goal) text a.marked w₁
  rw [he] at h₁
  rw [hf] at h₂
  exact h₂.trans h₁

theorem Refused.said_eq {a : Artifact} {f : Failure} {w w' : Trace σ} (hr : Refused h c a f w w') :
    said w' = said w := by
  have hq := quiet_place h c a w
  rwa [show exec (place h.recorded c a) w = (.error f, w') from hr] at hq

theorem Written.goesTo {as : List Artifact} {ps : List Path} {w w' : Trace σ}
    (hw : Written h c as ps w w') : List.Forall₂ (GoesTo h c) as ps := by
  induction hw with
  | nil => exact .nil
  | cons hp _ ih => exact .cons hp.goesTo ih

theorem Written.said_eq {as : List Artifact} {ps : List Path} {w w' : Trace σ}
    (hw : Written h c as ps w w') : said w' = said w := by
  induction hw with
  | nil => rfl
  | cons hp _ ih => exact ih.trans hp.said_eq

/-- Artifacts are written up to the first that is refused, and that one is reported. -/
theorem writeArtifacts_policy (as : List Artifact) (w : Trace σ) :
    (∃ ps w', exec (writeArtifacts h.recorded c as) w = ((ps, true), w') ∧ Written h c as ps w w')
      ∨ ∃ done a rest f ps w₁ w₂, as = done ++ a :: rest ∧ Written h c done ps w w₁
        ∧ Refused h c a f w₁ w₂
        ∧ exec (writeArtifacts h.recorded c as) w = ((ps, false), reported h [refusal a f] w₂) := by
  induction as generalizing w with
  | nil => exact .inl ⟨[], w, rfl, .nil w⟩
  | cons a as ih =>
    rcases hp : exec (place h.recorded c a) w with ⟨⟨f⟩ | ⟨p⟩, w₁⟩
    · refine .inr ⟨[], a, as, f, [], w, w₁, rfl, .nil w, hp, ?_⟩
      rw [← ofMessage_notEmitted, writeArtifacts, exec_bind, hp]
      rfl
    · have hplaced := placed_of_place hp
      rcases ih w₁ with ⟨ps, w₂, he, hw⟩ | ⟨done, b, rest, f, ps, w₂, w₃, rfl, hw, hr, he⟩
      · refine .inl ⟨p :: ps, w₂, ?_, .cons hplaced hw⟩
        rw [writeArtifacts, exec_bind, hp]
        simp only [exec_bind, he, exec_pure]
      · refine .inr ⟨a :: done, b, rest, f, p :: ps, w₂, w₃, rfl, .cons hplaced hw, hr, ?_⟩
        rw [writeArtifacts, exec_bind, hp]
        simp only [exec_bind, he, exec_pure]

/-! ## Results -/

theorem fatal?_of_halted {r : PhaseResult} (hr : Halted c r) :
    fatal? c r = some (haltReason r.phase) := by
  obtain ⟨⟨d, hd, he⟩, hp⟩ := hr
  have herr : r.hasError = true := List.any_eq_true.2 ⟨d, hd, by simp [Diagnostic.isError, he]⟩
  unfold fatal? haltReason
  by_cases hs : r.phase = .syntaxCheck
  · simp [herr, hs]
  · have := hp.resolve_left hs
    simp [herr, hs, this]

theorem fatal?_of_not_halted {r : PhaseResult} (hr : ¬Halted c r) : fatal? c r = none := by
  unfold fatal?
  split
  · rfl
  rename_i herr
  have herr : r.hasError = true := by simpa using herr
  obtain ⟨d, hd, he⟩ := List.any_eq_true.1 herr
  have hd : ∃ d ∈ r.diagnostics, d.category = .error :=
    ⟨d, hd, by simpa [Diagnostic.isError] using he⟩
  split
  · rename_i hs
    exact absurd ⟨hd, .inl hs⟩ hr
  split
  · rfl
  · rename_i hi
    exact absurd ⟨hd, .inr (by simpa using hi)⟩ hr

section

variable {r : PhaseResult} {rs : List PhaseResult} {w w₁ w₂ : Trace σ} {written : List Path}

theorem takeResults_fatal {why : Abort} (hr : fatal? c r = some why) :
    exec (takeResults h.recorded c (r :: rs)) w =
      (⟨[r.phase], [], some why⟩, reported h r.diagnostics w) := by
  rw [takeResults, exec_bind, hr]
  rfl

theorem takeResults_refused (hr : fatal? c r = none)
    (hw : exec (writeArtifacts h.recorded c r.artifacts) (reported h r.diagnostics w) =
      ((written, false), w₁)) :
    exec (takeResults h.recorded c (r :: rs)) w = (⟨[r.phase], written, some .write⟩, w₁) := by
  rw [takeResults, exec_bind, hr]
  refine (exec_bind _ _ _).trans ?_
  rw [← reported, hw]
  rfl

theorem takeResults_written {later : Progress} (hr : fatal? c r = none)
    (hw : exec (writeArtifacts h.recorded c r.artifacts) (reported h r.diagnostics w) =
      ((written, true), w₁))
    (hlater : exec (takeResults h.recorded c rs) w₁ = (later, w₂)) :
    exec (takeResults h.recorded c (r :: rs)) w =
      (⟨r.phase :: later.pulled, written ++ later.written, later.abort⟩, w₂) := by
  rw [takeResults, exec_bind, hr]
  refine (exec_bind _ _ _).trans ?_
  rw [← reported, hw]
  refine (exec_bind _ _ _).trans ?_
  rw [hlater]
  rfl

end

/-- Results are taken up to the first that stops the run. -/
theorem takeResults_policy (rs : List PhaseResult) (w : Trace σ) :
    (∃ ps w', exec (takeResults h.recorded c rs) w = (⟨rs.map PhaseResult.phase, ps, none⟩, w')
        ∧ Passed h c rs ps w w')
      ∨ ∃ before r rest why done last ps qs w₁ w₂, rs = before ++ r :: rest
        ∧ Passed h c before ps w w₁ ∧ Stopped h c r why done qs last w₁ w₂
        ∧ exec (takeResults h.recorded c rs) w
          = (⟨(before ++ [r]).map PhaseResult.phase, ps ++ qs, some why⟩, w₂) := by
  induction rs generalizing w with
  | nil => exact .inl ⟨[], w, rfl, .nil w⟩
  | cons r rs ih =>
    by_cases hr : Halted c r
    · exact .inr ⟨[], r, rs, haltReason r.phase, [], [], [], [], w, _, rfl, .nil w, .halted hr,
        takeResults_fatal (fatal?_of_halted hr)⟩
    have hnone := fatal?_of_not_halted hr
    rcases writeArtifacts_policy (h := h) (c := c) r.artifacts (reported h r.diagnostics w) with
      ⟨ps, w₁, he, hw⟩ | ⟨done, a, rest, f, ps, w₁, w₂, has, hw, hf, he⟩
    · rcases ih w₁ with ⟨qs, w₂, he', hp⟩ |
        ⟨before, r', rest, why, done, last, qs, qs', w₂, w₃, rfl, hp, hs, he'⟩
      · exact .inl ⟨ps ++ qs, w₂, takeResults_written hnone he he', .cons hr hw hp⟩
      · refine .inr ⟨r :: before, r', rest, why, done, last, ps ++ qs, qs', w₂, w₃, rfl,
          .cons hr hw hp, hs, ?_⟩
        rw [takeResults_written hnone he he']
        simp
    · exact .inr ⟨[], r, rs, .write, done, [refusal a f], [], ps, w, _, rfl, .nil w,
        .refused hr has hw hf, takeResults_refused hnone he⟩

/-! ## Messages -/

def linesOf (h : Host (StateM σ)) (ds : List Diagnostic) : List Text :=
  ds.map fun d => h.layout d.shown

theorem exists_shows (h : Host (StateM σ)) (ds : List Diagnostic) :
    ∃ lines, List.Forall₂ Diagnostic.Shows ds lines ∧ linesOf h ds = lines.map h.layout := by
  refine ⟨ds.map Diagnostic.shown, ?_, (List.map_map ..).symm⟩
  exact List.forall₂_map_right_iff.2 (List.forall₂_same.2 fun d _ => Diagnostic.shows_iff.2 rfl)

theorem linesOf_of_shows {ds : List Diagnostic} {lines : List Text}
    (hl : List.Forall₂ Diagnostic.Shows ds lines) : lines.map h.layout = linesOf h ds := by
  induction hl with
  | nil => rfl
  | cons hd _ ih => rw [List.map_cons, ih, Diagnostic.shows_iff.1 hd]; rfl

theorem said_reported_error (ds : List Diagnostic) (w : Trace σ) :
    said (reported h ds w) .error = said w .error ++ linesOf h ds :=
  said_forM_printLine h Diagnostic.shown .error ds w .error

theorem said_reported_output (ds : List Diagnostic) (w : Trace σ) :
    said (reported h ds w) .output = said w .output :=
  (said_forM_printLine h Diagnostic.shown .error ds w .output).trans (List.append_nil _)

theorem said_told_error (lines : List Text) (w : Trace σ) :
    said (told h lines w) .error = said w .error :=
  (said_forM_printLine h id .output lines w .error).trans (List.append_nil _)

theorem said_told_output (lines : List Text) (w : Trace σ) :
    said (told h lines w) .output = said w .output ++ lines.map h.layout :=
  said_forM_printLine h id .output lines w .output

theorem Passed.said_error {rs : List PhaseResult} {ps : List Path} {w w' : Trace σ}
    (hp : Passed h c rs ps w w') :
    said w' .error = said w .error ++ linesOf h (rs.flatMap PhaseResult.diagnostics) := by
  induction hp with
  | nil => simp [linesOf]
  | cons _ hw _ ih =>
    rw [ih, hw.said_eq, said_reported_error]
    simp [linesOf]

theorem Passed.said_output {rs : List PhaseResult} {ps : List Path} {w w' : Trace σ}
    (hp : Passed h c rs ps w w') : said w' .output = said w .output := by
  induction hp with
  | nil => rfl
  | cons _ hw _ ih => rw [ih, hw.said_eq, said_reported_output]

theorem Passed.goesTo {rs : List PhaseResult} {ps : List Path} {w w' : Trace σ}
    (hp : Passed h c rs ps w w') :
    List.Forall₂ (GoesTo h c) (rs.flatMap PhaseResult.artifacts) ps := by
  induction hp with
  | nil => exact .nil
  | cons _ hw _ ih =>
    rw [List.flatMap_cons]
    exact List.rel_append hw.goesTo ih

namespace Stopped

variable {r : PhaseResult} {why : Abort} {done : List Artifact} {ps : List Path}
  {last : List Diagnostic} {w w' : Trace σ}

theorem said_error (hs : Stopped h c r why done ps last w w') :
    said w' .error = said w .error ++ linesOf h (r.diagnostics ++ last) := by
  cases hs with
  | halted _ => rw [said_reported_error, List.append_nil]
  | refused _ _ hw hf =>
    rw [said_reported_error, hf.said_eq, hw.said_eq, said_reported_error]
    simp [linesOf]

theorem said_output (hs : Stopped h c r why done ps last w w') :
    said w' .output = said w .output := by
  cases hs with
  | halted _ => exact said_reported_output _ _
  | refused _ _ hw hf =>
    rw [said_reported_output, hf.said_eq, hw.said_eq, said_reported_output]

theorem goesTo (hs : Stopped h c r why done ps last w w') :
    List.Forall₂ (GoesTo h c) done ps := by
  cases hs with
  | halted _ => exact .nil
  | refused _ _ hw _ => exact hw.goesTo

theorem subset (hs : Stopped h c r why done ps last w w') : done ⊆ r.artifacts := by
  cases hs with
  | halted _ => exact List.nil_subset _
  | refused _ has _ _ =>
    rw [has]
    exact List.subset_append_left _ _

end Stopped

/-- Whatever stops the results, a path is written only if an artifact of theirs goes there. -/
theorem exists_goesTo_of_written {rs : List PhaseResult} {w : Trace σ} {p : Path}
    (hp : p ∈ (exec (takeResults h.recorded c rs) w).1.written) :
    ∃ a ∈ rs.flatMap PhaseResult.artifacts, GoesTo h c a p := by
  rcases takeResults_policy (h := h) (c := c) rs w with
    ⟨ps, w', he, hpassed⟩ | ⟨before, r, rest, why, done, last, ps, qs, w₁, w₂, rfl, hpassed, hs, he⟩
  · rw [he] at hp
    exact exists_of_mem_right hpassed.goesTo hp
  · rw [he] at hp
    obtain ⟨a, ha, hgoes⟩ := exists_of_mem_right (List.rel_append hpassed.goesTo hs.goesTo) hp
    refine ⟨a, ?_, hgoes⟩
    rw [List.flatMap_append, List.flatMap_cons]
    rcases List.mem_append.1 ha with ha | ha
    · exact List.mem_append_left _ ha
    · exact List.mem_append_right _ (List.mem_append_left _ (hs.subset ha))

end

end BatchCompile
