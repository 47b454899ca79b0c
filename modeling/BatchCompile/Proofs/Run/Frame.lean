import BatchCompile.Proofs.Hosts.Trees
import BatchCompile.Proofs.Path.Anchored

/-!
# The frame of a run

Whatever comes of a run, it stores the artifacts that it wrote, in order, and makes directories on
the way to them; all else stays as it was (`run_frame`). Each step of a run frames the tree, and
frames compose.
-/

namespace BatchCompile

open BatchCompile.Path (Anchored anchored_of_mem_ancestors anchored_resolve resolve_anchored)

variable {σ : Type}

def lastStored? (stored : List (Path × Source)) (p : Path) : Option Source :=
  (stored.reverse.find? (·.1 = p)).map (·.2)

/-- From one tree to another sources were stored in order, and directories made on the way to them
and to the `goals`. -/
structure Framed (t : Tree) (stored : List (Path × Source)) (goals : List Path) (t' : Tree) :
    Prop where
  files : ∀ p, t'.file? p = (lastStored? stored p).or (t.file? p)
  directories : ∀ d, t.isDirectory d → t'.isDirectory d
  made : ∀ d, t'.isDirectory d → t.isDirectory d ∨
    ∃ p ∈ stored.map (·.1) ++ goals, d ∈ Path.ancestors p
  wellFormed : t.WellFormed → t'.WellFormed

/-- An artifact is stored at its place, with its text for that place and the mark it asks for. -/
def StoredAs (h : Host (StateM σ)) (c : Configuration) (a : Artifact) (e : Path × Source) : Prop :=
  ∃ goal, destination h.cwd c a.name = .ok goal ∧ e.1 = h.absolute goal ∧
    placedText h.cwd c a.name goal a.text = .ok e.2.text ∧ e.2.mark = storedMark a.marked

/-! ## Frames -/

namespace Framed

variable {t t' t'' : Tree} {stored stored' : List (Path × Source)} {goals goals' : List Path}

theorem refl (t : Tree) (goals : List Path) : Framed t [] goals t where
  files _ := rfl
  directories _ := id
  made _ := .inl
  wellFormed := id

theorem trans (h : Framed t stored goals t') (h' : Framed t' stored' goals t'') :
    Framed t (stored ++ stored') goals t'' where
  files p := by
    have hlast : lastStored? (stored ++ stored') p =
        (lastStored? stored' p).or (lastStored? stored p) := by
      simp [lastStored?, List.find?_append, Option.map_or]
    rw [h'.files, h.files, hlast, Option.or_assoc]
  directories d hd := h'.directories d (h.directories d hd)
  made d hd := by
    rw [List.map_append]
    rcases h'.made d hd with hd | ⟨p, hp, ha⟩
    · rcases h.made d hd with hd | ⟨p, hp, ha⟩
      · exact .inl hd
      · exact .inr ⟨p, by grind, ha⟩
    · exact .inr ⟨p, by grind, ha⟩
  wellFormed hw := h'.wellFormed (h.wellFormed hw)

theorem toward (h : Framed t stored goals t')
    (hg : ∀ p ∈ goals, p ∈ stored.map (·.1) ++ goals') : Framed t stored goals' t' where
  files := h.files
  directories := h.directories
  made d hd := (h.made d hd).imp_right fun ⟨p, hp, ha⟩ =>
    ⟨p, (List.mem_append.1 hp).elim (List.mem_append_left _) (hg p), ha⟩
  wellFormed := h.wellFormed

theorem putFile {p : Path} (hp : ¬t.isDirectory p) (hr : t.HasRoom p) (s : Source)
    (goals : List Path) : Framed t [(p, s)] goals (t.putFile p s) where
  files q := by
    rw [Tree.file?_putFile]
    by_cases h : q = p
    · simp [lastStored?, h]
    · simp [lastStored?, h, Ne.symm h]
  directories _ := id
  made _ := .inl
  wellFormed hw := hw.putFile hp hr s

theorem putDirectory {d p : Path} (hd : t.file? d = none) (hr : t.HasRoom d)
    (hp : d ∈ Path.ancestors p) : Framed t [] [p] (t.putDirectory d) where
  files _ := rfl
  directories _ := .inr
  made q hq := by
    rcases hq with rfl | hq
    · exact .inr ⟨p, by simp, hp⟩
    · exact .inl hq
  wellFormed hw := hw.putDirectory hd hr

end Framed

/-! ## Steps -/

section

variable {h : Host (StateM σ)} {tree : σ → Tree} (hh : h.Shows tree) {c : Configuration}

include hh

theorem tree_directoryExists (d : Path) (w : Trace σ) :
    tree (exec (h.recorded.directoryExists d) w).2.2 = tree w.2 :=
  (hh.steady _).directoryExists d w.2 rfl

theorem tree_fileExists (d : Path) (w : Trace σ) :
    tree (exec (h.recorded.fileExists d) w).2.2 = tree w.2 :=
  (hh.steady _).fileExists d w.2 rfl

theorem framed_createDirectory {d p : Path} (hd : d ∈ Path.ancestors p) (habs : h.absolute d = d)
    (w : Trace σ) :
    Framed (tree w.2) [] [p] (tree (exec (h.recorded.createDirectory d) w).2.2) := by
  show Framed (tree w.2) [] [p] (tree (h.createDirectory d w.2).2)
  rcases hc : h.createDirectory d w.2 with ⟨⟨f⟩ | ⟨⟨⟩⟩, s⟩
  · rw [hh.createDirectory_error habs hc]
    exact .refl _ _
  · obtain ⟨hfile, hroom, he⟩ := hh.createDirectory habs hc
    rw [he]
    exact .putDirectory hfile hroom hd

theorem framed_ensureChain {p : Path} (above : List Path)
    (ha : ∀ d ∈ above, d ∈ Path.ancestors p ∧ h.absolute d = d) (w : Trace σ) :
    Framed (tree w.2) [] [p] (tree (exec (h.recorded.ensureChain above) w).2.2) := by
  induction above generalizing w with
  | nil => exact .refl _ _
  | cons directory above ih =>
    obtain ⟨hd, habs⟩ := ha directory List.mem_cons_self
    have h₁ := tree_directoryExists hh directory w
    rw [Host.ensureChain, exec_bind]
    generalize exec (h.recorded.directoryExists directory) w = o at h₁ ⊢
    obtain ⟨there, w₁⟩ := o
    simp only at h₁ ⊢
    split
    · exact h₁ ▸ .refl _ _
    have h₂ := tree_fileExists hh directory w₁
    rw [exec_bind]
    generalize exec (h.recorded.fileExists directory) w₁ = o at h₂ ⊢
    obtain ⟨isFile, w₂⟩ := o
    simp only at h₂ ⊢
    split
    · exact h₁ ▸ h₂ ▸ .refl _ _
    have h₃ := ih (fun d hm => ha d (List.mem_cons_of_mem _ hm)) w₂
    rw [h₂, h₁] at h₃
    rw [exec_bind]
    generalize exec (h.recorded.ensureChain above) w₂ = o at h₃ ⊢
    obtain ⟨⟨f⟩ | ⟨⟨⟩⟩, w₃⟩ := o
    · exact h₃
    · exact h₃.trans (framed_createDirectory hh hd habs w₃)

variable (hroot : Path.isRooted h.cwd = true)

include hroot

theorem framed_ancestors (goal : Path) (w : Trace σ) :
    Framed (tree w.2) [] [h.absolute goal]
      (tree (exec (h.recorded.ensureChain (Path.ancestors (h.absolute goal))) w).2.2) :=
  framed_ensureChain hh _
    (fun _ hd => ⟨hd, resolve_anchored _ (anchored_of_mem_ancestors (anchored_resolve hroot _) hd)⟩) w

omit hh in
theorem absolute_absolute (goal : Path) : h.absolute (h.absolute goal) = h.absolute goal :=
  resolve_anchored _ (anchored_resolve hroot goal)

/-! ## Artifacts -/

theorem Placed.framed {a : Artifact} {p : Path} {w w' : Trace σ} (hp : Placed h c a p w w') :
    ∃ s, StoredAs h c a (p, s) ∧ Framed (tree w.2) [(p, s)] [] (tree w'.2) := by
  obtain ⟨goal, text, w₁, hgoal, rfl, htext, he, hw⟩ := hp
  have h₁ := framed_ancestors hh hroot goal w
  simp only [he] at h₁
  obtain ⟨hd, hr, h₂⟩ := hh.write (absolute_absolute hroot goal)
    (show h.write (h.absolute goal) text a.marked w₁.2 = (.ok (), w'.2) from
      Prod.ext (congrArg (·.1) hw) (congrArg (·.2.2) hw))
  refine ⟨⟨text, storedMark a.marked⟩, ⟨goal, hgoal, rfl, htext, rfl⟩, ?_⟩
  rw [h₂]
  exact (h₁.trans (.putFile hd hr _ _)).toward (by simp)

theorem Written.framed {as : List Artifact} {ps : List Path} {w w' : Trace σ}
    (hw : Written h c as ps w w') :
    ∃ stored, stored.map (·.1) = ps ∧ List.Forall₂ (StoredAs h c) as stored ∧
      Framed (tree w.2) stored [] (tree w'.2) := by
  induction hw with
  | nil w => exact ⟨[], rfl, .nil, .refl _ _⟩
  | cons hp _ ih =>
    obtain ⟨s, hs, hframe⟩ := hp.framed hh hroot
    obtain ⟨stored, rfl, hall, hlater⟩ := ih
    exact ⟨_ :: stored, rfl, .cons hs hall, hframe.trans hlater⟩

theorem framed_writeFile_error {goal : Path} {text : Text} {marked : Bool} {f : Failure}
    {w w' : Trace σ}
    (he : exec (h.recorded.writeFile (h.absolute goal) text marked) w = (.error f, w')) :
    Framed (tree w.2) [] [h.absolute goal] (tree w'.2) := by
  have h₁ := framed_ancestors hh hroot goal w
  rw [Host.writeFile, exec_bind] at he
  generalize exec (h.recorded.ensureChain (Path.ancestors (h.absolute goal))) w = o at h₁ he
  obtain ⟨⟨f'⟩ | ⟨⟨⟩⟩, w₁⟩ := o
  · cases he
    exact h₁
  · have h₂ := hh.write_error (absolute_absolute hroot goal)
      (show h.write (h.absolute goal) text marked w₁.2 = (.error f, w'.2) from
        Prod.ext (congrArg (·.1) he) (congrArg (·.2.2) he))
    rwa [h₂]

/-- An artifact that cannot be placed or written may leave directories on its way. -/
theorem Refused.framed {a : Artifact} {f : Failure} {w w' : Trace σ} (hr : Refused h c a f w w') :
    ∃ goals, (∀ p ∈ goals, GoesTo h c a p) ∧ Framed (tree w.2) [] goals (tree w'.2) := by
  unfold Refused place at hr
  split at hr
  · cases hr
    exact ⟨[], by simp, .refl _ _⟩
  rename_i goal hgoal
  split at hr
  · cases hr
    exact ⟨[], by simp, .refl _ _⟩
  rename_i text htext
  rw [exec_bind] at hr
  generalize ho : exec (h.recorded.writeFile (h.recorded.absolute goal) text a.marked) w = o at hr
  obtain ⟨⟨f'⟩ | ⟨⟨⟩⟩, w₁⟩ := o
  · cases hr
    exact ⟨[h.absolute goal], by simpa using ⟨goal, hgoal, rfl⟩,
      framed_writeFile_error hh hroot ho⟩
  · cases hr

/-! ## Results -/

omit hroot in
theorem tree_reported (ds : List Diagnostic) (w : Trace σ) :
    tree (reported h ds w).2 = tree w.2 :=
  (hh.steady (tree w.2)).kept_reported ds rfl

theorem Passed.framed {rs : List PhaseResult} {ps : List Path} {w w' : Trace σ}
    (hp : Passed h c rs ps w w') :
    ∃ stored, stored.map (·.1) = ps ∧
      List.Forall₂ (StoredAs h c) (rs.flatMap PhaseResult.artifacts) stored ∧
      Framed (tree w.2) stored [] (tree w'.2) := by
  induction hp with
  | nil w => exact ⟨[], rfl, .nil, .refl _ _⟩
  | cons _ hw _ ih =>
    obtain ⟨first, rfl, hfirst, hframe⟩ := hw.framed hh hroot
    obtain ⟨later, rfl, hlater, hframe'⟩ := ih
    rw [tree_reported hh] at hframe
    exact ⟨first ++ later, List.map_append, List.rel_append hfirst hlater, hframe.trans hframe'⟩

theorem Stopped.framed {r : PhaseResult} {why : Abort} {done : List Artifact} {ps : List Path}
    {last : List Diagnostic} {w w' : Trace σ} (hs : Stopped h c r why done ps last w w') :
    ∃ stored goals rest, stored.map (·.1) = ps ∧ List.Forall₂ (StoredAs h c) done stored ∧
      r.artifacts = done ++ rest ∧
      (∀ p ∈ goals, why = .write ∧ ∃ a ∈ rest.head?, GoesTo h c a p) ∧
      Framed (tree w.2) stored goals (tree w'.2) := by
  cases hs with
  | halted _ =>
    refine ⟨[], [], r.artifacts, rfl, .nil, rfl, by simp, ?_⟩
    rw [tree_reported hh]
    exact .refl _ _
  | refused _ has hw hf =>
    obtain ⟨stored, rfl, hstored, hframe⟩ := hw.framed hh hroot
    obtain ⟨goals, hgoals, hframe'⟩ := hf.framed hh hroot
    rw [tree_reported hh] at hframe
    refine ⟨stored, goals, _, rfl, hstored, has, fun p hp => ⟨rfl, _, rfl, hgoals p hp⟩, ?_⟩
    rw [tree_reported hh]
    simpa using (hframe.toward (by simp)).trans hframe'

/-- Taking results stores the artifacts that were written. -/
theorem framed_takeResults {rs : List PhaseResult} {progress : Progress} {w w' : Trace σ}
    (he : exec (takeResults h.recorded c rs) w = (progress, w')) :
    ∃ done rest stored goals, rs.flatMap PhaseResult.artifacts = done ++ rest ∧
      List.Forall₂ (StoredAs h c) done stored ∧ progress.written = stored.map (·.1) ∧
      Framed (tree w.2) stored goals (tree w'.2) := by
  rcases takeResults_policy (h := h) (c := c) rs w with
    ⟨ps, w₁, he', hp⟩ | ⟨before, r, later, why, done, last, ps, qs, w₁, w₂, rfl, hp, hs, he'⟩
  · obtain ⟨stored, rfl, hstored, hframe⟩ := hp.framed hh hroot
    cases he.symm.trans he'
    exact ⟨_, [], stored, [], (List.append_nil _).symm, hstored, rfl, hframe⟩
  · obtain ⟨first, rfl, hfirst, hframe⟩ := hp.framed hh hroot
    obtain ⟨second, goals, rest, rfl, hsecond, has, -, hframe'⟩ := hs.framed hh hroot
    cases he.symm.trans he'
    refine ⟨_, rest ++ later.flatMap PhaseResult.artifacts, _, goals, ?_,
      List.rel_append hfirst hsecond, List.map_append.symm, (hframe.toward (by simp)).trans hframe'⟩
    rw [List.flatMap_append, List.flatMap_cons, has, List.append_assoc, List.append_assoc]

end

/-! ## Runs -/

/-- On a host that shows a well-formed tree a run stores the artifacts it wrote, in order and each
with its text and its mark, and changes nothing else but that it makes directories above them; the
tree stays well-formed. -/
theorem run_frame {h : Host (StateM σ)} {tree : σ → Tree} (hh : h.Shows tree)
    (hroot : Path.isRooted h.cwd = true) {resolver : Resolver (StateT Caches (Traced σ))}
    (hr : resolver.Asks) (engine : Engine) (library : Path) (c : Configuration)
    (inputs : List Path) (w : Trace σ) (hw : (tree w.2).WellFormed) :
    let (report, w') := exec (runWith h.recorded resolver engine library c inputs) w
    (tree w'.2).WellFormed ∧ ∃ done rest stored goals,
      (engine c.settings h.absolute report.units).flatMap PhaseResult.artifacts = done ++ rest ∧
      List.Forall₂ (StoredAs h c) done stored ∧ report.written = stored.map (·.1) ∧
      (∀ p ∈ goals, report.abort = some .write ∧ ∃ a ∈ rest.head?, GoesTo h c a p) ∧
      Framed (tree w.2) stored goals (tree w'.2) := by
  obtain ⟨resolution, units, caches, w₁, w₂, hg, hres⟩ := exec_gather h c resolver library inputs w
  have hbegun : tree w₂.2 = tree w.2 :=
    (hres.begun (P := fun _ => True) (hh.steady (tree w.2)) (fun I hask => hr _ _ _
      (keeps_services hask) inputs c.settings.caseSensitive) rfl).2.keeps
  have htold : ∀ lines w₃, tree (told h lines w₃).2 = tree w₃.2 := fun lines w₃ =>
    (hh.steady (tree w₃.2)).kept_told lines rfl
  rcases takeResults_policy (h := h) (c := c) (engine c.settings h.absolute units) w₂ with
    ⟨ps, w₃, he, hp⟩ | ⟨before, r, later, why, last, done, ps, qs, w₃, w₄, hrs, hp, hs, he⟩
  · obtain ⟨stored, rfl, hstored, hframe⟩ := hp.framed hh hroot
    rw [hbegun] at hframe
    rw [exec_runWith hg he]
    simp only [Option.isNone_none, ↓reduceIte, htold]
    exact ⟨hframe.wellFormed hw, _, [], stored, [], (List.append_nil _).symm, hstored, rfl,
      by simp, hframe⟩
  · obtain ⟨first, rfl, hfirst, hframe⟩ := hp.framed hh hroot
    obtain ⟨second, goals, rest, rfl, hsecond, has, hgoals, hframe'⟩ := hs.framed hh hroot
    have hall := (hframe.toward (by simp)).trans hframe'
    rw [hbegun] at hall
    rw [exec_runWith hg he]
    simp only [Option.isNone_some, Bool.false_eq_true, ↓reduceIte]
    refine ⟨hall.wellFormed hw, _, rest ++ later.flatMap PhaseResult.artifacts, _, goals, ?_,
      List.rel_append hfirst hsecond, by simp, fun p hp => ?_, hall⟩
    · rw [hrs]
      simp [has]
    · obtain ⟨rfl, a, ha, hgoes⟩ := hgoals p hp
      exact ⟨rfl, a, by simp_all [List.head?_append], hgoes⟩

def oneSource : Memory where
  files := [("/work/a.ts".toList, ⟨"let a;\n".toList, .none⟩)]
  directories := ["/".toList, "/work".toList]
  unreadable := []
  unwritable := []

/-- The script of a source goes to a directory of its own, and the source stays as it was. -/
theorem run_frame_dist :
    let c := Configuration.resolve "/work".toList { Options.unset with noLib := some true }
      (some "dist".toList)
    let m := (exec (runWith (Memory.host "/work".toList).recorded Resolver.directives
      Engine.passThrough [] c ["a.ts".toList]) ([], oneSource)).2.2
    m.tree.WellFormed ∧ m.file? "/work/a.ts".toList = oneSource.file? "/work/a.ts".toList ∧
      ∃ s, m.file? "/work/dist/a.js".toList = some s := by
  intro c
  have hwritten : (exec (runWith (Memory.host "/work".toList).recorded Resolver.directives
      Engine.passThrough [] c ["a.ts".toList]) ([], oneSource)).1.written =
        ["/work/dist/a.js".toList] := by decide +kernel
  have hframe := run_frame (Memory.shows_host "/work".toList) (by decide) asks_directives
    Engine.passThrough [] c ["a.ts".toList] ([], oneSource)
    (Memory.wellFormed_of_forall (by decide) (by decide))
  generalize exec (runWith (Memory.host "/work".toList).recorded Resolver.directives
    Engine.passThrough [] c ["a.ts".toList]) ([], oneSource) = o at hwritten hframe ⊢
  obtain ⟨report, w'⟩ := o
  obtain ⟨hwf, done, rest, stored, goals, -, -, hstored, -, hframe⟩ := hframe
  rw [show report.written = _ from hwritten] at hstored
  obtain ⟨⟨p, s⟩, rfl⟩ : ∃ e, stored = [e] := List.length_eq_one_iff.1 (by
    simpa using (congrArg List.length hstored).symm)
  obtain rfl : "/work/dist/a.js".toList = p := (List.cons.inj hstored).1
  exact ⟨hwf, hframe.files _, s, (hframe.files _).trans rfl⟩

end BatchCompile
