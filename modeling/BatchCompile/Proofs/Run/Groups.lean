import BatchCompile.Hosts.Disk
import BatchCompile.Proofs.Run.Acting
import BatchCompile.Proofs.Run.Unclosed
import Mathlib.Data.List.InsertIdx

/-!
# The groups of a task

A task compiles its groups one after the other, each in a run of its own, and goes on whatever comes
of them. From one run to the next nothing is handed on but the files. A run that stops for a syntax
error leaves these as they were, so the others do what they would have done without it
(`runTask_independent`).
-/

namespace BatchCompile

def Group.compile {m : Type → Type} [Monad m] (h : Host m) (library : Path) (options : Options)
    (group : Group) : m Report := do
  let c ← configure h options group.destination
  run h library c group.sources

theorem runTask_eq {m : Type → Type} [Monad m] [LawfulMonad m] (h : Host m) (library : Path)
    (options : Options) (groups : List Group) :
    runTask h library options groups =
      (·.all Report.succeeded) <$> groups.mapM (Group.compile h library options) := by
  induction groups with
  | nil => simp [runTask, runGroups]
  | cons group groups ih =>
    rw [runTask] at ih ⊢
    rw [runGroups, ih]
    simp [Group.compile]

variable {σ φ : Type}

theorem exec_mapM_cons {α β : Type} (f : α → Traced σ β) (a : α) (as : List α) (w : Trace σ) :
    exec ((a :: as).mapM f) w =
      ((exec (f a) w).1 :: (exec (as.mapM f) (exec (f a) w).2).1,
        (exec (as.mapM f) (exec (f a) w).2).2) := by
  rw [List.mapM_cons]
  rfl

theorem length_exec_mapM {α β : Type} (f : α → Traced σ β) (as : List α) (w : Trace σ) :
    (exec (as.mapM f) w).1.length = as.length := by
  induction as generalizing w with
  | nil => rfl
  | cons a as ih => rw [exec_mapM_cons, List.length_cons, ih, List.length_cons]

/-- A host that works on files: all it answers and makes of them depends on them alone, and asking
and printing leave them as they are. -/
structure Host.OfFiles (h : Host (StateM σ)) (files : σ → φ) : Prop where
  steady : ∀ t, h.Steady fun s => files s = t
  read : ∀ p, Alike files (h.read p)
  fileExists : ∀ p, Alike files (h.fileExists p)
  directoryExists : ∀ p, Alike files (h.directoryExists p)
  pathBound : Alike files h.pathBound
  write : ∀ p t marked, Alike files (h.write p t marked)
  createDirectory : ∀ p, Alike files (h.createDirectory p)

/-- If asking and printing change nothing at all, the world may count as the files. -/
theorem Host.ofFiles_id {h : Host (StateM σ)} (hs : ∀ t, h.Steady (· = t)) : h.OfFiles id where
  steady := hs
  read p := by rintro s _ rfl; exact ⟨rfl, rfl⟩
  fileExists p := by rintro s _ rfl; exact ⟨rfl, rfl⟩
  directoryExists p := by rintro s _ rfl; exact ⟨rfl, rfl⟩
  pathBound := by rintro s _ rfl; exact ⟨rfl, rfl⟩
  write p t marked := by rintro s _ rfl; exact ⟨rfl, rfl⟩
  createDirectory p := by rintro s _ rfl; exact ⟨rfl, rfl⟩

theorem Memory.ofFiles_host (cwd : Path) : (host cwd).OfFiles id :=
  Host.ofFiles_id fun _ => steady_of cwd _

theorem Disk.ofFiles_host (place : Place) (cwd : Path) (layout : Text → Text) :
    ((Disk.files place).host cwd (fun _ _ => pure ()) layout).OfFiles id :=
  Host.ofFiles_id fun _ => ⟨fun _ _ => id, fun _ _ => id, fun _ _ => id, fun _ => id,
    fun _ _ _ => id⟩

namespace Host.OfFiles

variable {h : Host (StateM σ)} {files : σ → φ} (hf : h.OfFiles files)

include hf

theorem asksKeep : h.recorded.AsksKeep (Guarantee.alike files) where
  read p := holds_alike (hf.read p) _
  fileExists p w v hl := ⟨trivial, hf.fileExists p w.2 v.2 hl⟩
  directoryExists p w v hl := ⟨trivial, hf.directoryExists p w.2 v.2 hl⟩
  pathBound w v hl := ⟨trivial, hf.pathBound w.2 v.2 hl⟩

theorem writesKeep : h.recorded.WritesKeep (Guarantee.alike files) where
  fileExists := hf.asksKeep.fileExists
  directoryExists := hf.asksKeep.directoryExists
  createDirectory p := holds_alike (hf.createDirectory p) _
  write p t marked := holds_alike (hf.write p t marked) _

theorem printsKeep : h.recorded.PrintsKeep (Guarantee.alike files) := by
  intro channel t
  refine holds_alike (x := h.print channel t) (fun s s' hl => ⟨rfl, ?_⟩) _
  rw [(hf.steady (files s)).print channel t s rfl, (hf.steady (files s)).print channel t s' hl.symm]

theorem compile_alike (library : Path) (options : Options) (group : Group) :
    (Guarantee.alike files).holds (Group.compile h.recorded library options group)
      fun _ => True := by
  refine (Guarantee.alike files).holds_bind (P := fun _ => True) ?_ fun c _ =>
    holds_runWith hf.asksKeep hf.printsKeep hf.writesKeep asks_directives _ _ _
  exact (Guarantee.alike files).holds_bind (holds_forM (fun _ => hf.printsKeep _ _) _) fun _ _ =>
    (Guarantee.alike files).holds_pure trivial

theorem compile_syntaxError (library : Path) (options : Options) (group : Group) {w w' : Trace σ}
    {report : Report}
    (he : exec (Group.compile h.recorded library options group) w = (report, w'))
    (ha : report.abort = some .syntaxError) : files w'.2 = files w.2 := by
  let c := Configuration.resolve h.cwd options group.destination
  let v := told h options.notices w
  have hv : files v.2 = files w.2 := (hf.steady (files w.2)).kept_told options.notices rfl
  have hconfigure : exec (configure h.recorded options group.destination) w = (c, v) := rfl
  rw [Group.compile, exec_bind, hconfigure] at he
  exact (hf.steady (files w.2)).kept_of_syntaxError he ha hv

theorem groups_alike (library : Path) (options : Options) (groups : List Group) {w v : Trace σ}
    (hl : files w.2 = files v.2) :
    let compiled := groups.mapM (Group.compile h.recorded library options)
    (exec compiled w).1 = (exec compiled v).1 ∧
      files (exec compiled w).2.2 = files (exec compiled v).2.2 :=
  (holds_mapM (g := Guarantee.alike files) (hf.compile_alike library options) groups w v hl).2

/-- A group that stops for a syntax error is not missed by the others. -/
theorem groups_eraseIdx (library : Path) (options : Options) (groups : List Group) (w : Trace σ)
    {i : Nat} {report : Report} :
    let compile := Group.compile h.recorded library options
    let all := exec (groups.mapM compile) w
    let others := exec ((groups.eraseIdx i).mapM compile) w
    all.1[i]? = some report → report.abort = some .syntaxError →
      others.1 = all.1.eraseIdx i ∧ files others.2.2 = files all.2.2 := by
  intro compile
  induction groups generalizing i w with
  | nil => simp
  | cons group groups ih =>
    rcases he : exec (compile group) w with ⟨first, w₁⟩
    have hcons : ∀ gs, exec ((group :: gs).mapM compile) w =
        (first :: (exec (gs.mapM compile) w₁).1, (exec (gs.mapM compile) w₁).2) := fun gs => by
      rw [exec_mapM_cons, he]
    intro all others hi ha
    rw [show all = _ from hcons groups] at hi ⊢
    cases i with
    | zero =>
      obtain rfl : first = report := by simpa using hi
      exact hf.groups_alike library options groups
        (hf.compile_syntaxError library options group he ha).symm
    | succ i =>
      obtain ⟨hothers, hfiles⟩ := ih w₁ hi ha
      rw [show others = _ from hcons (groups.eraseIdx i)]
      exact ⟨congrArg (first :: ·) hothers, hfiles⟩

end Host.OfFiles

/-- A task compiles each group once, in order, and succeeds exactly if none of the runs is stopped. On
a host that works on files, a group whose run stops for a syntax error could as well be left out: the
other groups come to the same reports, and in the end the files are the same. -/
theorem runTask_independent (h : Host (StateM σ)) (library : Path) (options : Options)
    (groups : List Group) (w : Trace σ) :
    let compile := Group.compile h.recorded library options
    let all := exec (groups.mapM compile) w
    let task := exec (runTask h.recorded library options groups) w
    all.1.length = groups.length ∧ task.2 = all.2 ∧
      (task.1 = true ↔ ∀ report ∈ all.1, report.abort = none) ∧
      ∀ (φ : Type) (files : σ → φ), h.OfFiles files → ∀ (i : Nat) (report : Report),
        all.1[i]? = some report → report.abort = some .syntaxError →
          let others := exec ((groups.eraseIdx i).mapM compile) w
          others.1 = all.1.eraseIdx i ∧ files others.2.2 = files all.2.2 := by
  intro compile all task
  have htask : task = (all.1.all Report.succeeded, all.2) :=
    congrArg (exec · w) (runTask_eq h.recorded library options groups)
  rw [htask]
  refine ⟨length_exec_mapM _ groups w, rfl, ?_, fun φ files hf i report =>
    hf.groups_eraseIdx library options groups w⟩
  simp only [List.all_eq_true, Report.succeeded_iff]

def openBetween : Memory where
  files := [("/work/a.ts".toList, ⟨"let a;\n".toList, .none⟩),
    ("/work/b.ts".toList, ⟨"let b; /* b\n".toList, .none⟩),
    ("/work/c.ts".toList, ⟨"let c;\n".toList, .none⟩)]
  directories := ["/".toList, "/work".toList]
  unreadable := []
  unwritable := []

/-- The groups before and after it come out the same without it, and then the task succeeds. -/
theorem runTask_independent_openBetween :
    let options := { Options.unset with noLib := some true }
    let compile := Group.compile (Memory.host "/work".toList).recorded [] options
    let task := runTask (Memory.host "/work".toList).recorded [] options
    let a : Group := ⟨["a.ts".toList], none⟩
    let b : Group := ⟨["b.ts".toList], none⟩
    let c : Group := ⟨["c.ts".toList], some "dist".toList⟩
    let all := exec ([a, b, c].mapM compile) ([], openBetween)
    let others := exec ([a, c].mapM compile) ([], openBetween)
    all.1.map Report.abort = [none, some .syntaxError, none] ∧
      others.1 = all.1.eraseIdx 1 ∧ others.2.2 = all.2.2 ∧
      (exec (task [a, b, c]) ([], openBetween)).1 = false ∧
      (exec (task [a, c]) ([], openBetween)).1 = true := by
  intro options compile task a b c
  have haborts : (exec ([a, b, c].mapM compile) ([], openBetween)).1.map Report.abort =
      [none, some .syntaxError, none] := by decide +kernel
  obtain ⟨-, -, hall, hothers⟩ := runTask_independent (Memory.host "/work".toList) [] options
    [a, b, c] ([], openBetween)
  obtain ⟨-, -, hrest, -⟩ := runTask_independent (Memory.host "/work".toList) [] options
    [a, c] ([], openBetween)
  replace hothers := hothers Memory id (Memory.ofFiles_host _) 1
  rw [show [a, b, c].eraseIdx 1 = [a, c] from rfl] at hothers
  generalize exec ([a, b, c].mapM compile) ([], openBetween) = all at haborts hall hothers ⊢
  generalize exec ([a, c].mapM compile) ([], openBetween) = others at hrest hothers ⊢
  have hsecond : (all.1.map Report.abort)[1]? = some (some .syntaxError) := by rw [haborts]; rfl
  rw [List.getElem?_map] at hsecond
  obtain ⟨report, hreport, habort⟩ := Option.map_eq_some_iff.1 hsecond
  obtain ⟨hreports, hfiles⟩ := hothers report hreport habort
  refine ⟨haborts, hreports, hfiles, ?_, hrest.2 fun r hr => ?_⟩
  · refine Bool.eq_false_iff.2 fun htrue => ?_
    have hnone := hall.1 htrue report (List.mem_of_getElem? hreport)
    rw [habort] at hnone
    cases hnone
  · have hrests : others.1.map Report.abort = [none, none] := by
      rw [hreports, ← List.eraseIdx_map, haborts]
      rfl
    have hmem := List.mem_map_of_mem (f := Report.abort) hr
    rw [hrests] at hmem
    simpa using hmem

end BatchCompile
