import BatchCompile.Proofs.Closure.Couplings
import BatchCompile.Proofs.Run.Asking

/-!
# Two runs side by side

Before the first phase a run asks its host and prints what its resolver reports. If two hosts answer
alike, but for the sources that they read, and the two sources of a file have the same directives,
then two runs on them ask the same questions: they resolve the same files, and their units differ
in their sources only (`couples_gather`).
-/

namespace BatchCompile

variable {m n : Type → Type} [Monad m] [Monad n]

/-! ## Memories -/

/-- The same questions, with answers that are related. -/
def Memo.Alike {α β : Type} (K : α → β → Prop) : Memo α → Memo β → Prop :=
  List.Forall₂ fun e e' => e'.1 = e.1 ∧ K e.2 e'.2

theorem Memo.Alike.answer? {α β : Type} {K : α → β → Prop} {memo : Memo α} {memo' : Memo β}
    (h : memo.Alike K memo') (p : Path) :
    Option.Rel K (memo.answer? p) (memo'.answer? p) := by
  induction h with
  | nil => exact .none
  | @cons e e' _ _ he _ ih =>
    rw [Memo.answer?_cons _ e.1, Memo.answer?_cons _ e'.1, he.1]
    split
    · exact .some he.2
    · exact ih

theorem couples_consult {g : Coupling m n} {α β : Type} {K : α → β → Prop} {memo : Memo α}
    {memo' : Memo β} (h : memo.Alike K memo') (p : Path) {ask : m α} {ask' : n β}
    (hask : g.couples ask ask' K) :
    g.couples (memo.consult p ask) (memo'.consult p ask') fun r r' =>
      K r.1 r'.1 ∧ r.2.Alike K r'.2 := by
  have hanswer := h.answer? p
  generalize hknown : memo.answer? p = known at hanswer
  generalize hknown' : memo'.answer? p = known' at hanswer
  cases hanswer with
  | some hK =>
    rw [Memo.consult_kept ask hknown, Memo.consult_kept ask' hknown']
    exact g.couples_pure ⟨hK, h⟩
  | none =>
    rw [Memo.consult_new ask hknown, Memo.consult_new ask' hknown']
    exact g.couples_bind hask fun a b hK => g.couples_pure ⟨hK, .cons ⟨rfl, hK⟩ h⟩

/-- Two runs have learnt the same, but for the sources. -/
structure Caches.Alike (K : Source → Source → Prop) (caches caches' : Caches) : Prop where
  sources : caches.sources.Alike K caches'.sources
  resolved : caches.resolved.Alike Eq caches'.resolved
  existence : caches.existence.Alike Eq caches'.existence

theorem Caches.alike_empty (K : Source → Source → Prop) : Caches.empty.Alike K .empty :=
  ⟨.nil, .nil, .nil⟩

theorem couples_lookup {g : Coupling m n} {A : Caches → Caches → Prop} {α : Type}
    {K : α → α → Prop} (memo : Caches → Memo α) (put : Caches → Memo α → Caches)
    (hmemo : ∀ c c', A c c' → (memo c).Alike K (memo c'))
    (hput : ∀ c c' known known', A c c' → Memo.Alike K known known' →
      A (put c known) (put c' known'))
    (p : Path) {ask : m α} {ask' : n α} (hask : g.couples ask ask' K) :
    (g.state A).couples
      (do
        let caches ← get
        let r ← liftM ((memo caches).consult p ask)
        set (put caches r.2)
        pure r.1)
      (do
        let caches ← get
        let r ← liftM ((memo caches).consult p ask')
        set (put caches r.2)
        pure r.1) K := by
  refine (g.state A).couples_bind (P := A) (fun c c' hA => g.couples_pure ⟨hA, hA⟩) fun c c' hA => ?_
  refine (g.state A).couples_bind
    (g.couples_lift A (couples_consult (hmemo c c' hA) p hask)) fun r r' hr => ?_
  refine (g.state A).couples_bind (P := Eq)
    (fun _ _ _ => g.couples_pure ⟨rfl, hput c c' _ _ hA hr.2⟩) fun _ _ _ => ?_
  exact (g.state A).couples_pure hr.1

/-! ## Hosts that answer alike -/

/-- Two hosts answer alike, but for what they read, and print alike. -/
structure Host.AsksCoupled (h : Host m) (h' : Host n) (g : Coupling m n)
    (K : Source → Source → Prop) : Prop where
  cwd : h'.cwd = h.cwd
  layout : h'.layout = h.layout
  read : ∀ p, g.couples (h.read p) (h'.read p) fun r r' => K (.orEmpty r) (.orEmpty r')
  fileExists : ∀ p, g.couples (h.fileExists p) (h'.fileExists p) Eq
  directoryExists : ∀ p, g.couples (h.directoryExists p) (h'.directoryExists p) Eq
  pathBound : g.couples h.pathBound h'.pathBound Eq
  print : ∀ channel t, g.couples (h.print channel t) (h'.print channel t) Eq

theorem Host.AsksCoupled.recorded {h : Host m} {h' : Host n} {g : Coupling m n}
    {K : Source → Source → Prop} (hh : h.AsksCoupled h' g K) :
    h.recorded.AsksCoupled h'.recorded (g.state Eq) K where
  cwd := hh.cwd
  layout := hh.layout
  read p := by
    refine (g.state Eq).couples_bind_eq (α := PUnit) ?_ fun _ => g.couples_lift Eq (hh.read p)
    rintro journal _ rfl
    exact g.couples_pure ⟨rfl, rfl⟩
  fileExists p := g.couples_lift Eq (hh.fileExists p)
  directoryExists p := g.couples_lift Eq (hh.directoryExists p)
  pathBound := g.couples_lift Eq hh.pathBound
  print channel t := by
    refine (g.state Eq).couples_bind_eq (α := PUnit) ?_ fun _ =>
      g.couples_lift Eq (hh.print channel t)
    rintro journal _ rfl
    exact g.couples_pure ⟨rfl, rfl⟩

/-- A unit over another source of the same file. -/
structure SourceUnit.Alike (K : Source → Source → Prop) (u u' : SourceUnit) : Prop where
  path : u'.path = u.path
  references : u'.references = u.references
  source : K ⟨u.text, u.mark⟩ ⟨u'.text, u'.mark⟩

section

variable {h : Host m} {h' : Host n} {g : Coupling m n} {K : Source → Source → Prop}
  (hh : h.AsksCoupled h' g K)

include hh

theorem couples_source (p : Path) :
    (g.state (Caches.Alike K)).couples (Caches.source h p) (Caches.source h' p) K := by
  refine couples_lookup Caches.sources (fun caches memo => { caches with sources := memo })
    (fun _ _ hA => hA.sources) (fun _ _ _ _ hA hs => ⟨hs, hA.resolved, hA.existence⟩) p ?_
  refine g.couples_bind (hh.read p) fun r r' hK => ?_
  cases r <;> cases r' <;> exact g.couples_pure hK

theorem couples_absolute (p : Path) :
    (g.state (Caches.Alike K)).couples (Caches.absolute h p) (Caches.absolute h' p) Eq := by
  refine couples_lookup Caches.resolved (fun caches memo => { caches with resolved := memo })
    (fun _ _ hA => hA.resolved) (fun _ _ _ _ hA hr => ⟨hA.sources, hr, hA.existence⟩) p ?_
  exact g.couples_pure (congrArg (Path.resolve · [p]) hh.cwd.symm)

theorem coupled_services (hK : ∀ s s', K s s' → Directives.scan s'.text = Directives.scan s.text) :
    (Caches.services h).Coupled (Caches.services h') (g.state (Caches.Alike K)) where
  fileExists p := couples_lookup Caches.existence
    (fun caches memo => { caches with existence := memo }) (fun _ _ hA => hA.existence)
    (fun _ _ _ _ hA he => ⟨hA.sources, hA.resolved, he⟩) p (hh.fileExists p)
  directoryExists p := g.couples_lift _ (hh.directoryExists p)
  parentDirectory _ := (g.state _).couples_pure rfl
  resolve _ _ := (g.state _).couples_bind_eq (couples_absolute hh _) fun _ =>
    (g.state _).couples_pure rfl
  sourceText p := (g.state _).couples_bind (couples_source hh p) fun s s' hs =>
    (g.state _).couples_pure (hK s s' hs)
  pathBound := by
    refine (g.state (Caches.Alike K)).couples_bind_eq (g.couples_lift _ hh.pathBound)
      fun bound => ?_
    refine (g.state (Caches.Alike K)).couples_bind (P := Caches.Alike K)
      (fun _ _ hA => g.couples_pure ⟨hA, hA⟩) fun c c' hA => ?_
    exact (g.state (Caches.Alike K)).couples_pure
      (congrArg (bound + ·) (List.Forall₂.length_eq hA.existence))

theorem couples_unit (file : ResolvedFile) :
    (g.state (Caches.Alike K)).couples (unitOf h file) (unitOf h' file) (SourceUnit.Alike K) :=
  (g.state _).couples_bind (couples_source hh file.path) fun _ _ hs =>
    (g.state _).couples_pure ⟨rfl, rfl, hs⟩

/-- Two runs resolve the same files, and their units are alike. -/
theorem couples_gather [LawfulMonad m] [LawfulMonad n]
    (hK : ∀ s s', K s s' → Directives.scan s'.text = Directives.scan s.text) (library : Path)
    (c : Configuration) (inputs : List Path) :
    (g.state (Caches.Alike K)).couples (gather h Resolver.directives library c inputs)
      (gather h' Resolver.directives library c inputs) fun r r' =>
        r'.1 = r.1 ∧ List.Forall₂ (SourceUnit.Alike K) r.2 r'.2 := by
  have hlibrary : h'.absolute library = h.absolute library :=
    congrArg (Path.resolve · [library]) hh.cwd
  refine (g.state _).couples_bind_eq
    (couples_directives (coupled_services hh hK) inputs c.settings.caseSensitive) fun r => ?_
  refine (g.state _).couples_bind_eq (α := PUnit) ?_ fun _ => ?_
  · refine (g.state _).couples_forM (fun d => g.couples_lift _ ?_) r.diagnostics
    rw [printDiagnostic, printDiagnostic, Host.printLine, Host.printLine, hh.layout]
    exact hh.print _ _
  · rw [hlibrary]
    exact (g.state _).couples_bind ((g.state _).couples_mapM (couples_unit hh) _) fun us us' hus =>
      (g.state _).couples_pure ⟨rfl, hus⟩

end

end BatchCompile
