import BatchCompile.Proofs.Closure.Guarantees
import BatchCompile.Proofs.Run.Trace

/-!
# What a run does through its host

A run acts only through its host: it asks for paths, it writes, and it prints. So whatever is
guaranteed of these actions is guaranteed of the whole run (`holds_runWith`), and what is guaranteed
of writing and printing alone is so of all that the phases do (`holds_takeResults`). One such
guarantee is that worlds that look alike cannot be told apart (`Guarantee.alike`).
-/

namespace BatchCompile

variable {m : Type → Type} [Monad m] {h : Host m} {g : Guarantee m} {c : Configuration}

/-- A guarantee for actions that have caches at hand, whatever these hold. -/
def Guarantee.cached (g : Guarantee m) : Guarantee (StateT Caches m) where
  holds x P := ∀ caches, g.holds (x.run caches) fun r => P r.1
  holds_pure ha _ := g.holds_pure ha
  holds_bind hx hf caches := g.holds_bind (hx caches) fun r hr => hf r.1 hr r.2

namespace Host

/-- Asking keeps a guarantee. -/
structure AsksKeep (h : Host m) (g : Guarantee m) : Prop where
  read : ∀ p, g.holds (h.read p) fun _ => True
  fileExists : ∀ p, g.holds (h.fileExists p) fun _ => True
  directoryExists : ∀ p, g.holds (h.directoryExists p) fun _ => True
  pathBound : g.holds h.pathBound fun _ => True

/-- Writing keeps a guarantee, and so does looking what is in its way. -/
structure WritesKeep (h : Host m) (g : Guarantee m) : Prop where
  fileExists : ∀ p, g.holds (h.fileExists p) fun _ => True
  directoryExists : ∀ p, g.holds (h.directoryExists p) fun _ => True
  createDirectory : ∀ p, g.holds (h.createDirectory p) fun _ => True
  write : ∀ p t marked, g.holds (h.write p t marked) fun _ => True

/-- Printing keeps a guarantee. -/
def PrintsKeep (h : Host m) (g : Guarantee m) : Prop :=
  ∀ channel t, g.holds (h.print channel t) fun _ => True

end Host

theorem holds_forM {α : Type} {f : α → m Unit} (hf : ∀ a, g.holds (f a) fun _ => True)
    (as : List α) : g.holds (as.forM f) fun _ => True := by
  induction as with
  | nil => exact g.holds_pure trivial
  | cons a as ih => exact g.holds_bind (hf a) fun _ _ => ih

theorem holds_mapM [LawfulMonad m] {α β : Type} {f : α → m β}
    (hf : ∀ a, g.holds (f a) fun _ => True) (as : List α) : g.holds (as.mapM f) fun _ => True := by
  induction as with
  | nil => exact g.holds_pure trivial
  | cons a as ih =>
    rw [List.mapM_cons]
    exact g.holds_bind (hf a) fun _ _ => g.holds_bind ih fun _ _ => g.holds_pure trivial

/-! ## Phases -/

section

variable (hw : h.WritesKeep g)

include hw

theorem holds_ensureChain (above : List Path) :
    g.holds (h.ensureChain above) fun _ => True := by
  induction above with
  | nil => exact g.holds_pure trivial
  | cons directory above ih =>
    refine g.holds_bind (hw.directoryExists directory) fun there _ => ?_
    refine g.holds_ite there (fun _ => g.holds_pure trivial) fun _ => ?_
    refine g.holds_bind (hw.fileExists directory) fun isFile _ => ?_
    refine g.holds_ite isFile (fun _ => g.holds_pure trivial) fun _ => ?_
    refine g.holds_bind ih fun made _ => ?_
    split
    · exact g.holds_pure trivial
    · exact hw.createDirectory directory

theorem holds_writeFile (p : Path) (t : Text) (marked : Bool) :
    g.holds (h.writeFile p t marked) fun _ => True := by
  refine g.holds_bind (holds_ensureChain hw _) fun made _ => ?_
  split
  · exact g.holds_pure trivial
  · exact hw.write p t marked

theorem holds_place (a : Artifact) : g.holds (place h c a) fun _ => True := by
  unfold place
  split
  · exact g.holds_pure trivial
  split
  · exact g.holds_pure trivial
  refine g.holds_bind (holds_writeFile hw _ _ _) fun written _ => ?_
  split <;> exact g.holds_pure trivial

variable (hp : h.PrintsKeep g)

include hp

theorem holds_writeArtifacts (as : List Artifact) :
    g.holds (writeArtifacts h c as) fun _ => True := by
  induction as with
  | nil => exact g.holds_pure trivial
  | cons a as ih =>
    refine g.holds_bind (holds_place hw a) fun placed _ => ?_
    split
    · exact g.holds_bind (hp _ _) fun _ _ => g.holds_pure trivial
    · exact g.holds_bind ih fun _ _ => g.holds_pure trivial

theorem holds_takeResults (rs : List PhaseResult) :
    g.holds (takeResults h c rs) fun _ => True := by
  induction rs with
  | nil => exact g.holds_pure trivial
  | cons r rs ih =>
    refine g.holds_bind (holds_forM (fun _ => hp _ _) _) fun _ _ => ?_
    split
    · exact g.holds_pure trivial
    refine g.holds_bind (holds_writeArtifacts hw hp _) fun written _ => ?_
    split
    · exact g.holds_pure trivial
    · exact g.holds_bind ih fun _ _ => g.holds_pure trivial

end

/-! ## Asking through caches -/

section

variable (ha : h.AsksKeep g)

theorem holds_liftCached {α : Type} {x : m α} (hx : g.holds x fun _ => True) :
    g.cached.holds (liftM (n := StateT Caches m) x) fun _ => True :=
  fun _ => g.holds_bind hx fun _ _ => g.holds_pure trivial

theorem holds_lookup {α : Type} (memo : Caches → Memo α) (put : Caches → Memo α → Caches) (p : Path)
    {ask : m α} (hask : g.holds ask fun _ => True) :
    g.cached.holds (do
      let caches ← get
      let r ← liftM ((memo caches).consult p ask)
      set (put caches r.2)
      pure r.1) fun _ => True := by
  have hconsult : ∀ caches, g.holds ((memo caches).consult p ask) fun _ => True := by
    intro caches
    unfold Memo.consult
    split
    · exact g.holds_pure trivial
    · exact g.holds_bind hask fun _ _ => g.holds_pure trivial
  refine g.cached.holds_bind (P := fun _ => True) (fun _ => g.holds_pure trivial) fun caches _ => ?_
  refine g.cached.holds_bind (holds_liftCached (hconsult caches)) fun r _ => ?_
  exact g.cached.holds_bind (P := fun _ => True) (fun _ => g.holds_pure trivial) fun _ _ =>
    g.cached.holds_pure trivial

include ha

theorem holds_cachedSource (p : Path) :
    g.cached.holds (Caches.source h p) fun _ => True := by
  refine holds_lookup Caches.sources (fun caches memo => { caches with sources := memo }) p ?_
  refine g.holds_bind (ha.read p) fun answer _ => ?_
  split <;> exact g.holds_pure trivial

theorem keeps_cached : (Caches.services h).Keeps g.cached fun _ => True where
  fileExists p := holds_lookup Caches.existence
    (fun caches memo => { caches with existence := memo }) p (ha.fileExists p)
  directoryExists p := holds_liftCached (ha.directoryExists p)
  parentDirectory _ := g.cached.holds_pure trivial
  resolve name directory := by
    have habsolute : ∀ p, g.cached.holds (Caches.absolute h p) fun _ => True := fun p =>
      holds_lookup Caches.resolved (fun caches memo => { caches with resolved := memo }) p
        (g.holds_pure trivial)
    exact g.cached.holds_bind (habsolute _) fun _ _ => g.cached.holds_pure trivial
  sourceText p := g.cached.holds_bind (holds_cachedSource ha p) fun _ _ =>
    g.cached.holds_pure trivial
  pathBound := g.cached.holds_bind (holds_liftCached ha.pathBound) fun _ _ =>
    g.cached.holds_bind (P := fun _ => True) (fun _ => g.holds_pure trivial) fun _ _ =>
      g.cached.holds_pure trivial

theorem holds_cachedUnits [LawfulMonad m] (files : List ResolvedFile) :
    g.cached.holds (files.mapM (unitOf h)) fun _ => True :=
  holds_mapM (fun _ => g.cached.holds_bind (holds_cachedSource ha _) fun _ _ =>
    g.cached.holds_pure trivial) files

/-! ## Runs -/

variable (hp : h.PrintsKeep g) (hw : h.WritesKeep g)

include hp

theorem holds_gather [LawfulMonad m] {resolver : Resolver (StateT Caches m)}
    (hr : resolver.Asks) (library : Path) (inputs : List Path) :
    g.cached.holds (gather h resolver library c inputs) fun _ => True := by
  refine g.cached.holds_bind (hr _ _ _ (keeps_cached ha) inputs _) fun resolution _ => ?_
  refine g.cached.holds_bind (holds_forM (fun d => holds_liftCached (hp _ _)) _) fun _ _ => ?_
  exact g.cached.holds_bind (holds_cachedUnits ha _) fun _ _ => g.cached.holds_pure trivial

include hw

/-- What all actions of a host keep, a run keeps. -/
theorem holds_runWith [LawfulMonad m] {resolver : Resolver (StateT Caches m)}
    (hr : resolver.Asks) (engine : Engine) (library : Path) (inputs : List Path) :
    g.holds (runWith h resolver engine library c inputs) fun _ => True := by
  refine g.holds_bind (holds_gather ha hp hr library inputs .empty) fun r _ => ?_
  refine g.holds_bind (holds_takeResults hw hp _) fun progress _ => ?_
  split
  · exact g.holds_bind (holds_forM (fun _ => hp _ _) _) fun _ _ => g.holds_pure trivial
  · exact g.holds_pure trivial

end

/-! ## Worlds that look alike -/

section

variable {σ φ : Type} (look : σ → φ)

/-- From worlds that look alike an action gives the same answer, and leaves worlds that look alike.
-/
def Alike {α : Type} (x : StateM σ α) : Prop :=
  ∀ s s', look s = look s' → (x s).1 = (x s').1 ∧ look (x s).2 = look (x s').2

/-- The guarantee of actions that cannot tell worlds that look alike apart. -/
def Guarantee.alike : Guarantee (Traced σ) where
  holds x P := ∀ w v, look w.2 = look v.2 →
    P (exec x w).1 ∧ (exec x w).1 = (exec x v).1 ∧ look (exec x w).2.2 = look (exec x v).2.2
  holds_pure ha _ _ hl := ⟨ha, rfl, hl⟩
  holds_bind {_ _ x f _ _} hx hf w v hl := by
    obtain ⟨ha, he, hl'⟩ := hx w v hl
    rw [exec_bind, exec_bind, ← he]
    exact hf _ ha _ _ hl'

variable {look}

theorem holds_alike {α : Type} {x : StateM σ α} (hx : Alike look x) (e : Event) :
    (Guarantee.alike look).holds (modify (e :: ·) >>= fun _ => (liftM x : Traced σ α))
      fun _ => True :=
  fun w v hl => ⟨trivial, hx w.2 v.2 hl⟩

end

end BatchCompile
