import BatchCompile.Closure

/-!
# Guarantees

A guarantee says of actions that what they answer has a property, whatever else they do; it goes
through actions one after the other. A resolver that acts only through its services keeps every
guarantee that these keep (`Resolver.Asks`). The resolver that follows directives is of this kind.
What its visits make of a walk is a `Walk.Course`: the rules for a single visit give what holds of the
whole resolution (`Walk.Course.holds_directives`), such as that all its paths are answers of the
services (`holds_directives`).
-/

namespace BatchCompile

variable {m : Type → Type} [Monad m]

/-- What is known of the answers of actions. -/
structure Guarantee (m : Type → Type) [Monad m] where
  holds : {α : Type} → m α → (α → Prop) → Prop
  holds_pure : ∀ {α : Type} {a : α} {P : α → Prop}, P a → holds (pure a) P
  holds_bind : ∀ {α β : Type} {x : m α} {f : α → m β} {P : α → Prop} {Q : β → Prop}, holds x P →
    (∀ a, P a → holds (f a) Q) → holds (x >>= f) Q

/-- Services keep a guarantee, and name only paths of one kind. -/
structure Services.Keeps (services : Services m) (g : Guarantee m) (R : Path → Prop) : Prop where
  fileExists : ∀ p, g.holds (services.fileExists p) fun _ => True
  directoryExists : ∀ p, g.holds (services.directoryExists p) fun _ => True
  parentDirectory : ∀ p, g.holds (services.parentDirectory p) fun _ => True
  resolve : ∀ name directory, g.holds (services.resolve name directory) R
  sourceText : ∀ p, g.holds (services.sourceText p) fun _ => True
  pathBound : g.holds services.pathBound fun _ => True

/-- A resolver that does nothing but ask its services. -/
def Resolver.Asks (resolver : Resolver m) : Prop :=
  ∀ (g : Guarantee m) (services : Services m) (R : Path → Prop), services.Keeps g R →
    ∀ entries caseSensitive, g.holds (resolver entries services caseSensitive) fun _ => True

/-- All paths of these files are of one kind. -/
def FilesIn (R : Path → Prop) (files : List ResolvedFile) : Prop :=
  ∀ f ∈ files, R f.path ∧ ∀ q ∈ f.references ++ f.imports, R q

namespace Guarantee

variable (g : Guarantee m)

theorem holds_ite {α : Type} (c : Bool) {x y : m α} {P : α → Prop} (hx : c = true → g.holds x P)
    (hy : c = false → g.holds y P) : g.holds (if c then x else y) P := by
  cases c with
  | true => exact hx rfl
  | false => exact hy rfl

/-- What every step of a fold keeps, the fold keeps. -/
theorem holds_foldlM {α β : Type} {f : β → α → m β} {P : β → Prop}
    (hf : ∀ b a, P b → g.holds (f b a) P) (l : List α) {b : β} (hb : P b) :
    g.holds (l.foldlM f b) P := by
  induction l generalizing b with
  | nil => exact g.holds_pure hb
  | cons a l ih => exact g.holds_bind (hf b a hb) fun _ => ih

theorem holds_mono [LawfulMonad m] {α : Type} {x : m α} {P Q : α → Prop} (hx : g.holds x P)
    (h : ∀ a, P a → Q a) : g.holds x Q := by
  rw [← bind_pure x]
  exact g.holds_bind hx fun a ha => g.holds_pure (h a ha)

end Guarantee

/-- What visits of some paths, one after the other, make of a walk, by the relation `K`: the paths
are of kind `R`, those of them that exist are of kind `E`, and there is `room` to go so deep. -/
structure Walk.Course (caseSensitive : Bool) (R E : Path → Prop) (room : Nat → Walk → Prop)
    (K : List Path → Walk → Walk → Prop) : Prop where
  nil : ∀ w, K [] w w
  append : ∀ {ps qs w v w'}, K ps w v → K qs v w' → K (ps ++ qs) w w'
  stay : ∀ {depth ps w v}, K ps w v → room depth w → room depth v
  spent : ∀ {p w}, R p → room 0 w → K [p] w w
  marked : ∀ {p w}, R p → mark caseSensitive p ∈ w.visited → K [p] w w
  missing : ∀ {p w} asker, R p → mark caseSensitive p ∉ w.visited →
    K [p] w ((w.leave (mark caseSensitive p)).missing asker p)
  opens : ∀ {depth p w} noDefaultLib, E p → mark caseSensitive p ∉ w.visited →
    room (depth + 1) w → room depth ((w.leave (mark caseSensitive p)).note noDefaultLib)
  file : ∀ {file w v} noDefaultLib, R file.path → E file.path →
    mark caseSensitive file.path ∉ w.visited → (∀ q ∈ file.references ++ file.imports, R q) →
    K (file.references ++ file.imports)
      ((w.leave (mark caseSensitive file.path)).note noDefaultLib) v →
    K [file.path] w (v.add file)

section

variable {g : Guarantee m} {services : Services m} {R : Path → Prop}

theorem holds_importPath (h : services.Keeps g R) (directory : Option Path) (name : Text) :
    g.holds (Walk.importPath services directory name) R := by
  refine g.holds_bind (h.resolve _ _) fun source hs => g.holds_bind (h.fileExists _) fun b _ => ?_
  refine g.holds_ite b (fun _ => g.holds_pure hs) fun _ => ?_
  refine g.holds_bind (h.resolve _ _) fun declaration hd => ?_
  exact g.holds_bind (h.fileExists _) fun b _ =>
    g.holds_ite b (fun _ => g.holds_pure hd) fun _ => g.holds_pure hs

namespace Walk.Course

variable {caseSensitive : Bool} {E : Path → Prop} {room : Nat → Walk → Prop}
  {K : List Path → Walk → Walk → Prop} (hK : Course caseSensitive R E room K)

include hK

theorem holds_follow {depth : Nat} {visit : Path → Walk → m Walk} {meaning : Text → m Path}
    (hv : ∀ p w, R p → room depth w → g.holds (visit p w) (K [p] w))
    (hm : ∀ name, g.holds (meaning name) R) (names : List Text) {w : Walk} (hw : room depth w) :
    g.holds (follow visit meaning names w) fun r : List Path × Walk =>
      (∀ p ∈ r.1, R p) ∧ K r.1 w r.2 := by
  refine g.holds_foldlM (P := fun r : List Path × Walk => (∀ p ∈ r.1, R p) ∧ K r.1 w r.2)
    (fun r name hr => ?_) names ⟨by simp, hK.nil w⟩
  refine g.holds_bind (hm name) fun p hp => ?_
  refine g.holds_bind (hv p r.2 hp (hK.stay hr.2 hw)) fun v hv => ?_
  exact g.holds_pure ⟨List.forall_mem_append.2 ⟨hr.1, by simpa using hp⟩, hK.append hr.2 hv⟩

variable (h : services.Keeps g R)
  (hE : ∀ p, g.holds (services.fileExists p) fun there => there = true → E p)

include h hE

/-- A visit is of the course. -/
theorem holds_visit (depth : Nat) (asker : Option Path) {p : Path} {w : Walk} (hp : R p)
    (hw : room depth w) : g.holds (visit services caseSensitive depth asker p w) (K [p] w) := by
  induction depth generalizing asker p w with
  | zero => exact g.holds_pure (hK.spent hp hw)
  | succ depth ih =>
    refine g.holds_ite _ (fun hm => g.holds_pure (hK.marked hp (List.contains_iff_mem.1 hm)))
      fun hm => ?_
    have hnew : mark caseSensitive p ∉ w.visited := by simpa using hm
    refine g.holds_bind (hE p) fun there he => ?_
    refine g.holds_ite _ (fun _ => g.holds_pure (hK.missing asker hp hnew)) fun hthere => ?_
    have he : E p := he (by simpa using hthere)
    refine g.holds_bind (h.sourceText p) fun text _ => ?_
    refine g.holds_bind (h.parentDirectory p) fun directory _ => ?_
    let said := Directives.scan text
    have hroom := hK.opens said.noDefaultLib he hnew hw
    have hinner : ∀ q v, R q → room depth v →
        g.holds (visit services caseSensitive depth (some p) q v) (K [q] v) := fun q v hq hv =>
      ih (some p) hq hv
    refine g.holds_bind (hK.holds_follow hinner (h.resolve · directory) said.references hroom)
      fun references hr => ?_
    refine g.holds_bind (hK.holds_follow hinner (holds_importPath h directory) said.imports
      (hK.stay hr.2 hroom)) fun imports hi => ?_
    let file : ResolvedFile := ⟨p, references.1, imports.1⟩
    have hasked : ∀ q ∈ file.references ++ file.imports, R q :=
      List.forall_mem_append.2 ⟨hr.1, hi.1⟩
    exact g.holds_pure (hK.file said.noDefaultLib hp he hnew hasked (hK.append hr.2 hi.2))

theorem holds_directives [LawfulMonad m]
    (hroom : g.holds services.pathBound fun bound => room (bound + 1) start)
    (entries : List Path) :
    g.holds (Resolver.directives entries services caseSensitive) fun r =>
      ∃ ps w, K ps start w ∧ r = w.found := by
  refine g.holds_bind hroom fun bound hstart => ?_
  refine g.holds_bind (P := fun w : Walk => ∃ ps, K ps start w) ?_ fun w ⟨ps, hw⟩ =>
    g.holds_pure ⟨ps, w, hw, rfl⟩
  refine g.holds_foldlM (fun w entry ⟨ps, hw⟩ => ?_) entries ⟨[], hK.nil start⟩
  refine g.holds_bind (h.resolve _ _) fun p hp => ?_
  exact g.holds_mono (hK.holds_visit h hE _ none hp (hK.stay hw hstart)) fun v hv =>
    ⟨ps ++ [p], hK.append hw hv⟩

end Walk.Course

variable [LawfulMonad m]

theorem course_filesIn (caseSensitive : Bool) (R : Path → Prop) :
    Walk.Course caseSensitive R (fun _ => True) (fun _ _ => True) fun _ w w' =>
      FilesIn R w.found.files → FilesIn R w'.found.files where
  nil _ := id
  append h h' hw := h' (h hw)
  stay _ _ := trivial
  spent _ _ := id
  marked _ _ := id
  missing _ _ _ := id
  opens _ _ _ _ := trivial
  file _ hp _ _ hq hK hw :=
    List.forall_mem_append.2 ⟨hK hw, List.forall_mem_singleton.2 ⟨hp, hq⟩⟩

theorem holds_directives (h : services.Keeps g R) (entries : List Path) (caseSensitive : Bool) :
    g.holds (Resolver.directives entries services caseSensitive) fun r => FilesIn R r.files := by
  have hcourse := (course_filesIn caseSensitive R).holds_directives h
    (fun p => g.holds_mono (h.fileExists p) fun _ _ _ => trivial)
    (g.holds_mono h.pathBound fun _ _ => trivial) entries
  refine g.holds_mono hcourse ?_
  rintro _ ⟨_, w, hw, rfl⟩
  exact hw (by simp [FilesIn, Walk.start])

theorem asks_directives : Resolver.Asks (m := m) Resolver.directives :=
  fun g _ _ h entries caseSensitive =>
    g.holds_mono (holds_directives h entries caseSensitive) fun _ _ => trivial

end

end BatchCompile
