import BatchCompile.Closure

/-!
# Consistent services

Services answer consistently if they give the same answer to one question at every time,
whatever they do besides, such as keeping what they learned. The resolver cannot tell them from
the answers themselves (`gives_directives`).
-/

namespace BatchCompile

variable {m : Type → Type} [Monad m]

/-- A view of actions: what they give back, whatever else they do. -/
structure Outlook (m : Type → Type) [Monad m] where
  gives : {α : Type} → m α → α → Prop
  gives_pure : ∀ {α : Type} (a : α), gives (pure a) a
  gives_bind : ∀ {α β : Type} {x : m α} {f : α → m β} {a : α} {b : β}, gives x a →
    gives (f a) b → gives (x >>= f) b

/-- Actions on a state, started only where the state is `kept`, which they must leave so. -/
def Outlook.of {σ : Type} (kept : σ → Prop) : Outlook (StateM σ) where
  gives x a := ∀ s, kept s → (x s).1 = a ∧ kept (x s).2
  gives_pure a s hs := ⟨rfl, hs⟩
  gives_bind hx hf s hs := by
    obtain ⟨rfl, h⟩ := hx s hs
    exact hf _ h

/-- Services whose answers to a resolver are always these. -/
structure Consistent (o : Outlook m) (services : Services m) (answers : Services Id) : Prop where
  fileExists : ∀ p, o.gives (services.fileExists p) (answers.fileExists p).run
  parentDirectory : ∀ p, o.gives (services.parentDirectory p) (answers.parentDirectory p).run
  resolve : ∀ name directory,
    o.gives (services.resolve name directory) (answers.resolve name directory).run
  sourceText : ∀ p, o.gives (services.sourceText p) (answers.sourceText p).run
  pathBound : o.gives services.pathBound answers.pathBound.run

section

variable {o : Outlook m} {services : Services m} {answers : Services Id}

theorem gives_foldlM {α β : Type} {f : β → α → m β} {g : β → α → Id β}
    (h : ∀ b a, o.gives (f b a) (g b a).run) (l : List α) (b : β) :
    o.gives (l.foldlM f b) (l.foldlM g b).run := by
  induction l generalizing b with
  | nil => exact o.gives_pure b
  | cons a l ih =>
    rw [List.foldlM_cons, List.foldlM_cons]
    exact o.gives_bind (h b a) (ih _)

theorem gives_ite {α : Type} (c : Bool) {x y : m α} {a b : Id α} (hx : o.gives x a.run)
    (hy : o.gives y b.run) : o.gives (if c then x else y) (if c then a else b : Id α).run := by
  cases c with
  | true => exact hx
  | false => exact hy

theorem gives_importPath (h : Consistent o services answers) (directory : Option Path)
    (name : Text) : o.gives (Walk.importPath services directory name)
      (Walk.importPath answers directory name).run := by
  refine o.gives_bind (h.resolve _ _) (o.gives_bind (h.fileExists _) ?_)
  refine gives_ite _ (o.gives_pure _) (o.gives_bind (h.resolve _ _) ?_)
  exact o.gives_bind (h.fileExists _) (gives_ite _ (o.gives_pure _) (o.gives_pure _))

theorem gives_follow {visit : Path → Walk → m Walk} {visit' : Path → Walk → Id Walk}
    {meaning : Text → m Path} {meaning' : Text → Id Path}
    (hv : ∀ p w, o.gives (visit p w) (visit' p w).run)
    (hm : ∀ name, o.gives (meaning name) (meaning' name).run) (names : List Text) (w : Walk) :
    o.gives (Walk.follow visit meaning names w) (Walk.follow visit' meaning' names w).run := by
  refine gives_foldlM (fun ⟨paths, w⟩ name => ?_) names _
  refine o.gives_bind (hm name) (o.gives_bind (hv _ w) ?_)
  exact o.gives_pure (paths ++ [(meaning' name).run], (visit' (meaning' name).run w).run)

theorem gives_visit (h : Consistent o services answers) (caseSensitive : Bool) (depth : Nat)
    (asker : Option Path) (p : Path) (w : Walk) :
    o.gives (Walk.visit services caseSensitive depth asker p w)
      (Walk.visit answers caseSensitive depth asker p w).run := by
  induction depth generalizing asker p w with
  | zero => exact o.gives_pure w
  | succ depth ih =>
    refine gives_ite _ (o.gives_pure w) (o.gives_bind (h.fileExists p) ?_)
    refine gives_ite _ (o.gives_pure _) (o.gives_bind (h.sourceText p) ?_)
    refine o.gives_bind (h.parentDirectory p) ?_
    refine o.gives_bind (gives_follow (ih _) (h.resolve · _) _ _) ?_
    exact o.gives_bind (gives_follow (ih _) (gives_importPath h _) _ _) (o.gives_pure _)

theorem gives_directives (h : Consistent o services answers) (entries : List Path)
    (caseSensitive : Bool) : o.gives (Resolver.directives entries services caseSensitive)
      (Resolver.directives entries answers caseSensitive).run := by
  have hwalk := gives_foldlM (o := o)
    (f := fun w entry => do
      Walk.visit services caseSensitive (answers.pathBound.run + 1) none
        (← services.resolve entry none) w)
    (g := fun w entry => do
      Walk.visit answers caseSensitive (answers.pathBound.run + 1) none
        (← answers.resolve entry none) w)
    (fun w entry => o.gives_bind (h.resolve entry none) (gives_visit h caseSensitive _ none _ w))
    entries Walk.start
  exact o.gives_bind h.pathBound (o.gives_bind hwalk (o.gives_pure _))

end

end BatchCompile
