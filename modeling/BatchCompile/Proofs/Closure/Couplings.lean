import BatchCompile.Closure
import Mathlib.Data.List.Forall2

/-!
# Couplings

A coupling says of two actions, each in a monad of its own, that their answers stand in a relation,
whatever else they do; it goes through actions one after the other. So two walks that ask alike
services take the same steps, and a resolver that follows directives finds the same files
(`couples_directives`): of a source it uses the directives and nothing else. The state of either side
may be coupled as well (`Coupling.state`).
-/

namespace BatchCompile

variable {m n : Type → Type} [Monad m] [Monad n]

/-- What two actions have to do with one another. -/
structure Coupling (m n : Type → Type) [Monad m] [Monad n] where
  couples : {α β : Type} → m α → n β → (α → β → Prop) → Prop
  couples_pure : ∀ {α β : Type} {a : α} {b : β} {P : α → β → Prop}, P a b →
    couples (pure a) (pure b) P
  couples_bind : ∀ {α β γ δ : Type} {x : m α} {y : n β} {f : α → m γ} {k : β → n δ}
    {P : α → β → Prop} {Q : γ → δ → Prop}, couples x y P →
    (∀ a b, P a b → couples (f a) (k b) Q) → couples (x >>= f) (y >>= k) Q

namespace Coupling

/-- Actions with a state, from states that are related to states that are. -/
def state {S T : Type} (g : Coupling m n) (K : S → T → Prop) :
    Coupling (StateT S m) (StateT T n) where
  couples x y P := ∀ s t, K s t → g.couples (x.run s) (y.run t) fun r u => P r.1 u.1 ∧ K r.2 u.2
  couples_pure h _ _ hK := g.couples_pure ⟨h, hK⟩
  couples_bind hx hf s t hK := g.couples_bind (hx s t hK) fun r u hr => hf r.1 u.1 hr.1 r.2 u.2 hr.2

variable (g : Coupling m n)

theorem couples_bind_eq {α γ δ : Type} {x : m α} {y : n α} {f : α → m γ} {k : α → n δ}
    {Q : γ → δ → Prop} (hx : g.couples x y Eq) (hf : ∀ a, g.couples (f a) (k a) Q) :
    g.couples (x >>= f) (y >>= k) Q := by
  refine g.couples_bind hx ?_
  rintro a _ rfl
  exact hf a

theorem couples_ite {α β : Type} (c : Bool) {x x' : m α} {y y' : n β} {P : α → β → Prop}
    (h : c = true → g.couples x y P) (h' : c = false → g.couples x' y' P) :
    g.couples (if c then x else x') (if c then y else y') P := by
  cases c with
  | true => exact h rfl
  | false => exact h' rfl

theorem couples_foldlM {α β γ : Type} {f : β → α → m β} {k : γ → α → n γ} {P : β → γ → Prop}
    (hf : ∀ b c a, P b c → g.couples (f b a) (k c a) P) (l : List α) {b : β} {c : γ} (hb : P b c) :
    g.couples (l.foldlM f b) (l.foldlM k c) P := by
  induction l generalizing b c with
  | nil => exact g.couples_pure hb
  | cons a l ih => exact g.couples_bind (hf b c a hb) fun _ _ => ih

theorem couples_forM {α : Type} {f : α → m Unit} {k : α → n Unit}
    (hf : ∀ a, g.couples (f a) (k a) Eq) (l : List α) : g.couples (l.forM f) (l.forM k) Eq := by
  induction l with
  | nil => exact g.couples_pure rfl
  | cons a l ih => exact g.couples_bind_eq (hf a) fun _ => ih

theorem couples_mapM [LawfulMonad m] [LawfulMonad n] {α β γ : Type} {f : α → m β} {k : α → n γ}
    {P : β → γ → Prop} (hf : ∀ a, g.couples (f a) (k a) P) (l : List α) :
    g.couples (l.mapM f) (l.mapM k) (List.Forall₂ P) := by
  induction l with
  | nil => exact g.couples_pure .nil
  | cons a l ih =>
    rw [List.mapM_cons, List.mapM_cons]
    refine g.couples_bind (hf a) fun b c hbc => g.couples_bind ih fun bs cs hbs => ?_
    exact g.couples_pure (.cons hbc hbs)

theorem couples_lift {S T α β : Type} (K : S → T → Prop) {x : m α} {y : n β} {P : α → β → Prop}
    (h : g.couples x y P) :
    (g.state K).couples (liftM (n := StateT S m) x) (liftM (n := StateT T n) y) P :=
  fun _ _ hK => g.couples_bind h fun _ _ hP => g.couples_pure ⟨hP, hK⟩

end Coupling

/-- Services that answer alike: of a source, its directives count. -/
structure Services.Coupled (services : Services m) (services' : Services n) (g : Coupling m n) :
    Prop where
  fileExists : ∀ p, g.couples (services.fileExists p) (services'.fileExists p) Eq
  directoryExists : ∀ p, g.couples (services.directoryExists p) (services'.directoryExists p) Eq
  parentDirectory : ∀ p, g.couples (services.parentDirectory p) (services'.parentDirectory p) Eq
  resolve : ∀ name directory,
    g.couples (services.resolve name directory) (services'.resolve name directory) Eq
  sourceText : ∀ p, g.couples (services.sourceText p) (services'.sourceText p) fun t t' =>
    Directives.scan t' = Directives.scan t
  pathBound : g.couples services.pathBound services'.pathBound Eq

section

variable {g : Coupling m n} {services : Services m} {services' : Services n}

theorem couples_importPath (h : services.Coupled services' g) (directory : Option Path)
    (name : Text) : g.couples (Walk.importPath services directory name)
      (Walk.importPath services' directory name) Eq := by
  refine g.couples_bind_eq (h.resolve _ _) fun source => ?_
  refine g.couples_bind_eq (h.fileExists _) fun there => ?_
  refine g.couples_ite there (fun _ => g.couples_pure rfl) fun _ => ?_
  refine g.couples_bind_eq (h.resolve _ _) fun declaration => ?_
  refine g.couples_bind_eq (h.fileExists _) fun there => ?_
  exact g.couples_ite there (fun _ => g.couples_pure rfl) fun _ => g.couples_pure rfl

theorem couples_follow {visit : Path → Walk → m Walk} {visit' : Path → Walk → n Walk}
    {meaning : Text → m Path} {meaning' : Text → n Path}
    (hv : ∀ p w, g.couples (visit p w) (visit' p w) Eq)
    (hm : ∀ name, g.couples (meaning name) (meaning' name) Eq) (names : List Text) (w : Walk) :
    g.couples (Walk.follow visit meaning names w) (Walk.follow visit' meaning' names w) Eq := by
  refine g.couples_foldlM ?_ names rfl
  rintro r _ name rfl
  refine g.couples_bind_eq (hm name) fun p => ?_
  exact g.couples_bind_eq (hv p r.2) fun _ => g.couples_pure rfl

/-- Visits of one file go through the same files, and come to the same walk. -/
theorem couples_visit (h : services.Coupled services' g) (caseSensitive : Bool) (depth : Nat)
    (asker : Option Path) (p : Path) (w : Walk) :
    g.couples (Walk.visit services caseSensitive depth asker p w)
      (Walk.visit services' caseSensitive depth asker p w) Eq := by
  induction depth generalizing asker p w with
  | zero => exact g.couples_pure rfl
  | succ depth ih =>
    refine g.couples_ite _ (fun _ => g.couples_pure rfl) fun _ => ?_
    refine g.couples_bind_eq (h.fileExists p) fun there => ?_
    refine g.couples_ite _ (fun _ => g.couples_pure rfl) fun _ => ?_
    refine g.couples_bind (h.sourceText p) fun t t' hscan => ?_
    -- the texts are used for their directives only
    simp only [hscan]
    refine g.couples_bind_eq (h.parentDirectory p) fun directory => ?_
    refine g.couples_bind_eq (couples_follow (fun q w => ih (some p) q w)
      (fun name => h.resolve name directory) _ _) fun references => ?_
    refine g.couples_bind_eq (couples_follow (fun q w => ih (some p) q w)
      (couples_importPath h directory) _ _) fun imports => ?_
    exact g.couples_pure rfl

theorem couples_directives (h : services.Coupled services' g) (entries : List Path)
    (caseSensitive : Bool) :
    g.couples (Resolver.directives entries services caseSensitive)
      (Resolver.directives entries services' caseSensitive) Eq := by
  refine g.couples_bind_eq h.pathBound fun bound => ?_
  refine g.couples_bind_eq (g.couples_foldlM ?_ entries rfl) fun w => g.couples_pure rfl
  rintro w _ entry rfl
  exact g.couples_bind_eq (h.resolve entry none) fun p =>
    couples_visit h caseSensitive _ none p w

end

end BatchCompile
