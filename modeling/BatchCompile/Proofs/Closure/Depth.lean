import BatchCompile.Proofs.Closure.Order

/-!
# How deep a walk goes

The resolver bounds how deep its visits are nested. `Walk.Explores` holds the rules of visits
without that bound; a derivation is the finite tree of the calls that visits make until they end.

If the paths that exist have `n` marks, visits end, are nested `n + 1` deep at most, and scan no
text twice, nor two with one mark (`directives_ends`). What gets less at each level is the number of
these marks that are not left yet (`Walk.unleft`). A bound of that size is therefore never met, and
the resolver finds what is found without one (`Resolves.bounded`).
-/

namespace BatchCompile

namespace Walk

/-! ## Names one after the other -/

section

variable {m : Type → Type} [Monad m] [LawfulMonad m] (visit : Path → Walk → m Walk)
  (meaning : Text → m Path)

theorem follow_single (name : Text) (w : Walk) : follow visit meaning [name] w =
    (do let p ← meaning name
        let v ← visit p w
        pure ([p], v)) := by
  simp [follow]

theorem foldlM_keeping (names : List Text) (ps : List Path) (w : Walk) :
    names.foldlM (fun (kept : List Path × Walk) name => do
      let p ← meaning name
      let v ← visit p kept.2
      pure (kept.1 ++ [p], v)) (ps, w) =
      (do let (qs, v) ← follow visit meaning names w
          pure (ps ++ qs, v)) := by
  induction names generalizing ps w with
  | nil => simp [follow]
  | cons name names ih =>
    simp only [follow, List.foldlM_cons, bind_assoc, pure_bind, List.nil_append]
    refine bind_congr fun p => bind_congr fun v => ?_
    rw [ih (ps ++ [p]), ih [p]]
    simp

theorem follow_append (names names' : List Text) (w : Walk) :
    follow visit meaning (names ++ names') w =
      (do let (ps, v) ← follow visit meaning names w
          let (qs, w') ← follow visit meaning names' v
          pure (ps ++ qs, w')) := by
  rw [follow, List.foldlM_append]
  exact bind_congr fun r => foldlM_keeping visit meaning names' r.1 r.2

theorem foldlM_eq_follow (names : List Text) (w : Walk) :
    names.foldlM (fun w name => do visit (← meaning name) w) w =
      (do let (_, v) ← follow visit meaning names w
          pure v) := by
  induction names generalizing w with
  | nil => simp [follow]
  | cons name names ih =>
    rw [show name :: names = [name] ++ names from rfl, follow_append, follow_single]
    simp [ih]

end

/-! ## Visits without a bound -/

/-- What the calls of visits came to: how deep they were nested, and the paths whose texts were
scanned, in order. -/
structure Calls where
  depth : Nat
  scanned : List Path
  deriving DecidableEq, Repr

namespace Calls

def none : Calls :=
  ⟨0, []⟩

def one : Calls :=
  ⟨1, []⟩

def andThen (first second : Calls) : Calls :=
  ⟨max first.depth second.depth, first.scanned ++ second.scanned⟩

/-- The visit of a file, with the calls made from there. -/
def within (p : Path) (inner : Calls) : Calls :=
  ⟨inner.depth + 1, p :: inner.scanned⟩

end Calls

section

variable {σ : Type} (services : Services (StateM σ)) (caseSensitive : Bool)

/-- Visits of what some names mean, one after the other, from a walk and a state of the services to
others. A derivation is a finite tree of calls, and so there is one just if the visits end. -/
inductive Explores : Option Path → (Text → StateM σ Path) → List Text → Walk × σ →
    List Path × Walk × σ → Calls → Prop where
  | nil {asker : Option Path} {meaning : Text → StateM σ Path} {a : Walk × σ} :
      Explores asker meaning [] a ([], a) .none
  | append {asker : Option Path} {meaning : Text → StateM σ Path} {names names' : List Text}
      {a b c : Walk × σ} {ps qs : List Path} {calls calls' : Calls} :
      Explores asker meaning names a (ps, b) calls →
      Explores asker meaning names' b (qs, c) calls' →
      Explores asker meaning (names ++ names') a (ps ++ qs, c) (calls.andThen calls')
  /-- A path with a mark that was left is not looked at. -/
  | marked {asker : Option Path} {meaning : Text → StateM σ Path} {name : Text} {w : Walk}
      {s t : σ} {p : Path} :
      meaning name s = (p, t) → mark caseSensitive p ∈ w.visited →
      Explores asker meaning [name] (w, s) ([p], w, t) .one
  /-- A path that does not exist is reported. -/
  | missing {asker : Option Path} {meaning : Text → StateM σ Path} {name : Text} {w : Walk}
      {s t t₁ : σ} {p : Path} :
      meaning name s = (p, t) → mark caseSensitive p ∉ w.visited →
      services.fileExists p t = (false, t₁) →
      Explores asker meaning [name] (w, s)
        ([p], (w.leave (mark caseSensitive p)).missing asker p, t₁) .one
  /-- A file is marked before its text is scanned, and added when all that it asks for was visited,
  each from the walk that the visits before came to. -/
  | file {asker : Option Path} {meaning : Text → StateM σ Path} {name : Text} {w v v' : Walk}
      {s t t₁ t₂ t₃ t₄ t₅ : σ} {p : Path} {text : Text} {directory : Option Path}
      {references imports : List Path} {calls calls' : Calls} :
      meaning name s = (p, t) → mark caseSensitive p ∉ w.visited →
      services.fileExists p t = (true, t₁) → services.sourceText p t₁ = (text, t₂) →
      services.parentDirectory p t₂ = (directory, t₃) →
      Explores (some p) (services.resolve · directory) (Directives.scan text).references
        ((w.leave (mark caseSensitive p)).note (Directives.scan text).noDefaultLib, t₃)
        (references, v, t₄) calls →
      Explores (some p) (importPath services directory) (Directives.scan text).imports (v, t₄)
        (imports, v', t₅) calls' →
      Explores asker meaning [name] (w, s) ([p], v'.add ⟨p, references, imports⟩, t₅)
        ((calls.andThen calls').within p)

end

variable {σ : Type} {services : Services (StateM σ)} {caseSensitive : Bool} {asker : Option Path}
  {meaning : Text → StateM σ Path} {names : List Text} {a : Walk × σ} {r : List Path × Walk × σ}
  {calls : Calls}

/-- Visits end: there is a tree of all their calls. -/
def Ends (services : Services (StateM σ)) (caseSensitive : Bool) (asker : Option Path)
    (meaning : Text → StateM σ Path) (names : List Text) (a : Walk × σ) : Prop :=
  ∃ r calls, Explores services caseSensitive asker meaning names a r calls

theorem bind_of_eq {α β : Type} {x : StateM σ α} {f : α → StateM σ β} {s t : σ} {b : α}
    {o : β × σ} (hx : x s = (b, t)) (hf : f b t = o) : (x >>= f) s = o := by
  show f (x s).1 (x s).2 = o
  rw [hx]
  exact hf

namespace Explores

theorem grows (h : Explores services caseSensitive asker meaning names a r calls) :
    ∃ added, Grows caseSensitive a.1 r.2.1 added ∧ calls.scanned.Perm (added.map (·.path)) := by
  induction h with
  | nil => exact ⟨[], .of_files rfl fun _ => id, .refl _⟩
  | append _ _ ih ih' =>
    obtain ⟨added, hgrows, hperm⟩ := ih
    obtain ⟨added', hgrows', hperm'⟩ := ih'
    exact ⟨_, hgrows.trans hgrows', List.map_append ▸ hperm.append hperm'⟩
  | marked => exact ⟨[], .of_files rfl fun _ => id, .refl _⟩
  | missing => exact ⟨[], .of_files rfl fun _ => List.mem_cons_of_mem _, .refl _⟩
  | file _ hm _ _ _ _ _ ih ih' =>
    obtain ⟨added, hgrows, hperm⟩ := ih
    obtain ⟨added', hgrows', hperm'⟩ := ih'
    refine ⟨_, (hgrows.trans hgrows').file hm, ?_⟩
    rw [List.map_append, List.map_append]
    exact ((hperm.append hperm').cons _).trans (List.perm_append_singleton _ _).symm

theorem visited_subset (h : Explores services caseSensitive asker meaning names a r calls) :
    a.1.visited ⊆ r.2.1.visited :=
  h.grows.choose_spec.1.visited

theorem nodup_scanned (h : Explores services caseSensitive asker meaning names a r calls) :
    (calls.scanned.map (mark caseSensitive)).Nodup := by
  obtain ⟨added, hgrows, hperm⟩ := h.grows
  have hmarks := hperm.map (mark caseSensitive)
  rw [List.map_map] at hmarks
  exact hmarks.nodup_iff.2 hgrows.distinct

/-! ### The bound of the resolver -/

/-- Where the bound on the depth is not met, the resolver follows names by the rules without it. -/
theorem follow_eq (h : Explores services caseSensitive asker meaning names a r calls) {depth : Nat}
    (hd : calls.depth ≤ depth) :
    follow (visit services caseSensitive depth asker) meaning names a.1 a.2 =
      ((r.1, r.2.1), r.2.2) := by
  induction h generalizing depth with
  | nil => rfl
  | append _ _ ih ih' =>
    obtain ⟨hd, hd'⟩ := Nat.max_le.1 hd
    rw [follow_append]
    exact bind_of_eq (ih hd) (bind_of_eq (ih' hd') rfl)
  | marked hp hm =>
    obtain ⟨depth, rfl⟩ := Nat.exists_eq_succ_of_ne_zero (Nat.ne_zero_of_lt hd)
    rw [follow_single]
    refine bind_of_eq hp (bind_of_eq ?_ rfl)
    unfold visit
    rw [if_pos (List.contains_iff_mem.2 hm)]
    rfl
  | missing hp hm he =>
    obtain ⟨depth, rfl⟩ := Nat.exists_eq_succ_of_ne_zero (Nat.ne_zero_of_lt hd)
    rw [follow_single]
    refine bind_of_eq hp (bind_of_eq ?_ rfl)
    unfold visit
    rw [if_neg (by simpa using hm)]
    exact bind_of_eq he rfl
  | file hp hm he ht hdir _ _ ih ih' =>
    obtain ⟨depth, rfl⟩ := Nat.exists_eq_succ_of_ne_zero (Nat.ne_zero_of_lt hd)
    obtain ⟨hd, hd'⟩ := Nat.max_le.1 (Nat.le_of_succ_le_succ hd)
    rw [follow_single]
    refine bind_of_eq hp (bind_of_eq ?_ rfl)
    unfold visit
    rw [if_neg (by simpa using hm)]
    refine bind_of_eq he (bind_of_eq ht (bind_of_eq hdir ?_))
    exact bind_of_eq (ih hd) (bind_of_eq (ih' hd') rfl)

end Explores

/-! ### Marks not yet left -/

/-- How many of some marks are not left. As a path whose case counts, a mark is its own mark. -/
def unleft (keys : List Text) (w : Walk) : Nat :=
  unmarked true keys w

theorem unleft_le (keys : List Text) {w w' : Walk} (h : w.visited ⊆ w'.visited) :
    unleft keys w' ≤ unleft keys w :=
  unmarked_le h

theorem unleft_opened {keys : List Text} {w : Walk} {p : Path} (noDefaultLib : Bool)
    (hk : mark caseSensitive p ∈ keys) (hm : mark caseSensitive p ∉ w.visited) :
    unleft keys ((w.leave (mark caseSensitive p)).note noDefaultLib) < unleft keys w :=
  unmarked_lt hk hm rfl

/-! ### Visits end -/

section

variable {kept : σ → Prop} {keys : List Text}

/-- To ask what a name means keeps the state as it should be. -/
def MeaningKeeps (kept : σ → Prop) (meaning : Text → StateM σ Path) : Prop :=
  ∀ name, (Guarantee.of kept).holds (meaning name) fun _ => True

theorem kept_of_eq {α : Type} {x : StateM σ α} {P : α → Prop}
    (hx : (Guarantee.of kept).holds x P) {s t : σ} {b : α} (he : x s = (b, t)) (hs : kept s) :
    kept t := by
  have hkept := (hx s hs).2
  rwa [he] at hkept

variable (hkeeps : services.Keeps (.of kept) fun _ => True)

include hkeeps

theorem kept_opened {p : Path} {there : Bool} {text : Text} {directory : Option Path}
    {t t₁ t₂ t₃ : σ} (he : services.fileExists p t = (there, t₁))
    (ht : services.sourceText p t₁ = (text, t₂))
    (hd : services.parentDirectory p t₂ = (directory, t₃)) (hs : kept t) : kept t₃ :=
  kept_of_eq (hkeeps.parentDirectory p) hd
    (kept_of_eq (hkeeps.sourceText p) ht (kept_of_eq (hkeeps.fileExists p) he hs))

theorem Explores.keeps (h : Explores services caseSensitive asker meaning names a r calls)
    (hmeaning : MeaningKeeps kept meaning) (ha : kept a.2) : kept r.2.2 := by
  induction h with
  | nil => exact ha
  | append _ _ ih ih' => exact ih' hmeaning (ih hmeaning ha)
  | marked hp _ => exact kept_of_eq (hmeaning _) hp ha
  | missing hp _ he => exact kept_of_eq (hkeeps.fileExists _) he (kept_of_eq (hmeaning _) hp ha)
  | file hp _ he ht hd _ _ ih ih' =>
    have hopened := kept_opened hkeeps he ht hd (kept_of_eq (hmeaning _) hp ha)
    exact ih' (holds_importPath hkeeps _) (ih (hkeeps.resolve · _) hopened)

variable (hkeys : ∀ p s, kept s → (services.fileExists p s).1 = true → mark caseSensitive p ∈ keys)

include hkeys

/-- Visits are nested one deeper, at most, than there are marks to leave. -/
theorem Explores.depth_le (h : Explores services caseSensitive asker meaning names a r calls)
    (hmeaning : MeaningKeeps kept meaning) (ha : kept a.2) : calls.depth ≤ unleft keys a.1 + 1 := by
  induction h with
  | nil => exact Nat.zero_le _
  | append h _ ih ih' =>
    have hfirst := ih hmeaning ha
    have hsecond := ih' hmeaning (h.keeps hkeeps hmeaning ha)
    have hle := unleft_le keys h.visited_subset
    exact Nat.max_le.2 ⟨hfirst, Nat.le_trans hsecond (Nat.succ_le_succ hle)⟩
  | marked => exact Nat.le_add_left _ _
  | missing => exact Nat.le_add_left _ _
  | file hp hm he ht hd h _ ih ih' =>
    have hmeant := kept_of_eq (hmeaning _) hp ha
    have hkey := hkeys _ _ hmeant (by rw [he])
    have hopened := kept_opened hkeeps he ht hd hmeant
    have hreferences := ih (hkeeps.resolve · _) hopened
    have himports := ih' (holds_importPath hkeeps _) (h.keeps hkeeps (hkeeps.resolve · _) hopened)
    have hle := unleft_le keys h.visited_subset
    have hinner := Nat.max_le.2 ⟨hreferences, Nat.le_trans himports (Nat.succ_le_succ hle)⟩
    -- the mark of the file was one of those to leave, which makes up for its own visit
    exact Nat.succ_le_succ (Nat.le_trans hinner (unleft_opened _ hkey hm))

theorem ends_single {w : Walk} {s : σ}
    (hless : ∀ asker meaning names v t, unleft keys v < unleft keys w → MeaningKeeps kept meaning →
      kept t → Ends services caseSensitive asker meaning names (v, t))
    (asker : Option Path) (hmeaning : MeaningKeeps kept meaning) (hs : kept s) (name : Text) :
    Ends services caseSensitive asker meaning [name] (w, s) := by
  rcases hp : meaning name s with ⟨p, t⟩
  have hmeant := kept_of_eq (hmeaning name) hp hs
  by_cases hm : mark caseSensitive p ∈ w.visited
  · exact ⟨_, _, .marked hp hm⟩
  rcases he : services.fileExists p t with ⟨there, t₁⟩
  cases there with
  | false => exact ⟨_, _, .missing hp hm he⟩
  | true =>
    rcases ht : services.sourceText p t₁ with ⟨text, t₂⟩
    rcases hd : services.parentDirectory p t₂ with ⟨directory, t₃⟩
    let said := Directives.scan text
    have hopened := kept_opened hkeeps he ht hd hmeant
    have hopens := unleft_opened said.noDefaultLib (hkeys p t hmeant (by rw [he])) hm
    obtain ⟨⟨references, v, t₄⟩, calls, h⟩ := hless (some p) (services.resolve · directory)
      said.references _ t₃ hopens (hkeeps.resolve · directory) hopened
    have hle := unleft_le keys h.visited_subset
    obtain ⟨⟨imports, v', t₅⟩, calls', h'⟩ := hless (some p) (importPath services directory)
      said.imports v t₄ (Nat.lt_of_le_of_lt hle hopens) (holds_importPath hkeeps directory)
      (h.keeps hkeeps (hkeeps.resolve · directory) hopened)
    exact ⟨_, _, .file hp hm he ht hd h h'⟩

/-- Visits end: each leaves a mark, or goes no further. -/
theorem ends (asker : Option Path) (hmeaning : MeaningKeeps kept meaning) (names : List Text)
    (w : Walk) {s : σ} (hs : kept s) : Ends services caseSensitive asker meaning names (w, s) := by
  -- names are followed with no more marks to leave than there were at first
  suffices hall : ∀ n asker meaning names w s, unleft keys w ≤ n → MeaningKeeps kept meaning →
      kept s → Ends services caseSensitive asker meaning names (w, s) from
    hall _ asker meaning names w s (Nat.le_refl _) hmeaning hs
  intro n
  induction n using Nat.strongRecOn with
  | ind n ih =>
    intro asker meaning names w s hn hmeaning hs
    induction names generalizing w s with
    | nil => exact ⟨_, _, .nil⟩
    | cons name names ihnames =>
      obtain ⟨⟨ps, v, t⟩, calls, h⟩ := ends_single hkeeps hkeys
        (fun asker meaning names v t hless => ih (unleft keys v) (Nat.lt_of_lt_of_le hless hn)
          asker meaning names v t (Nat.le_refl _)) asker hmeaning hs name
      have hle := unleft_le keys h.visited_subset
      obtain ⟨⟨qs, w', t'⟩, calls', h'⟩ := ihnames v t (Nat.le_trans hle hn)
        (h.keeps hkeeps hmeaning hs)
      exact ⟨_, _, h.append h'⟩

end

end Walk

/-! ## Resolutions -/

open Walk

section

variable {σ : Type} (services : Services (StateM σ)) (caseSensitive : Bool)

/-- Entries are resolved by the rules without a bound: the walk from the start finds this
resolution, and leaves the services in the state `t`. -/
def Resolves (entries : List Path) (s : σ) (r : Resolution) (t : σ) (calls : Calls) : Prop :=
  ∃ ps w, Explores services caseSensitive none (services.resolve · none) entries (start, s)
    (ps, w, t) calls ∧ w.found = r

end

variable {σ : Type} {kept : σ → Prop} {services : Services (StateM σ)} {caseSensitive : Bool}
  {entries : List Path}

theorem Resolves.unique {s t t' : σ} {r r' : Resolution} {calls calls' : Calls}
    (h : Resolves services caseSensitive entries s r t calls)
    (h' : Resolves services caseSensitive entries s r' t' calls') : (r', t') = (r, t) := by
  obtain ⟨ps, w, h, rfl⟩ := h
  obtain ⟨ps', w', h', rfl⟩ := h'
  have hfollow := h.follow_eq (Nat.le_max_left calls.depth calls'.depth)
  rw [h'.follow_eq (Nat.le_max_right calls.depth calls'.depth)] at hfollow
  obtain ⟨⟨-, rfl⟩, rfl⟩ := by simpa only [Prod.mk.injEq] using hfollow
  rfl

/-- A resolver whose bound is not met finds what is found without one. -/
theorem Resolves.bounded {s₀ s t : σ} {r : Resolution} {calls : Calls} {bound : Nat}
    (h : Resolves services caseSensitive entries s r t calls)
    (hbound : services.pathBound s₀ = (bound, s)) (hd : calls.depth ≤ bound + 1) :
    Resolver.directives entries services caseSensitive s₀ = (r, t) := by
  obtain ⟨ps, w, h, rfl⟩ := h
  refine bind_of_eq hbound ?_
  rw [foldlM_eq_follow]
  exact bind_of_eq (bind_of_eq (h.follow_eq hd) rfl) rfl

/-- If the paths that exist have finitely many marks, whatever else the services answer and whatever
the files ask for, entries resolve to one thing. The visits are nested one deeper, at most, than
there are marks; they scan the texts of the files found, and no two with one mark. Within its bound
the resolver finds the same, if it knows of no fewer paths than there are marks. -/
theorem directives_ends (hkeeps : services.Keeps (.of kept) fun _ => True) {keys : List Text}
    (hkeys : ∀ p s, kept s → (services.fileExists p s).1 = true → mark caseSensitive p ∈ keys)
    (entries : List Path) {s : σ} (hs : kept s) :
    (∃! o : Resolution × σ, ∃ calls, Resolves services caseSensitive entries s o.1 o.2 calls) ∧
      ∀ r t calls, Resolves services caseSensitive entries s r t calls →
        calls.depth ≤ keys.length + 1 ∧
        (calls.scanned.map (mark caseSensitive)).Nodup ∧ calls.scanned.Perm r.paths ∧
        ∀ s₀ bound, services.pathBound s₀ = (bound, s) → keys.length ≤ bound →
          Resolver.directives entries services caseSensitive s₀ = (r, t) := by
  have hmeaning : MeaningKeeps kept (services.resolve · none) := fun name =>
    hkeeps.resolve name none
  refine ⟨?_, fun r t calls hr => ?_⟩
  · obtain ⟨⟨ps, w, t⟩, calls, h⟩ := ends hkeeps hkeys none hmeaning entries start hs
    have hr : Resolves services caseSensitive entries s w.found t calls := ⟨ps, w, h, rfl⟩
    exact ⟨(w.found, t), ⟨calls, hr⟩, fun _ ⟨_, hr'⟩ => hr.unique hr'⟩
  obtain ⟨ps, w, h, rfl⟩ := id hr
  have hdepth : calls.depth ≤ keys.length + 1 :=
    Nat.le_trans (h.depth_le hkeeps hkeys hmeaning hs)
      (Nat.succ_le_succ (unmarked_le_length keys start))
  obtain ⟨added, hgrows, hperm⟩ := h.grows
  refine ⟨hdepth, h.nodup_scanned, ?_, fun s₀ bound hbound hle => ?_⟩
  · rw [Resolution.paths, show w.found.files = added from hgrows.files]
    exact hperm
  · exact hr.bounded hbound (by omega)

/-- In a cycle of two files the third visit goes no further, and neither text is scanned again. -/
theorem directives_ends_cycle :
    let services := (Services.ofTable cycle).counted
    ∃ calls, Resolves services false ["a.ts".toList] 0
        (Resolver.directives ["a.ts".toList] services false 0).1 2 calls ∧
      calls.depth ≤ 3 ∧ (calls.scanned.map (mark false)).Nodup ∧
      calls.scanned.Perm ["/B.ts".toList, "/a.ts".toList] := by
  intro services
  have hkeys : ∀ p s, True → (services.fileExists p s).1 = true →
      mark false p ∈ cycle.map fun file => mark false file.1 := by
    intro p _ _ hp
    have hmem := List.mem_map_of_mem (f := mark false) (mem_of_fileExists_ofTable hp)
    rwa [List.map_map] at hmem
  obtain ⟨⟨⟨r, t⟩, ⟨calls, hr⟩, -⟩, hall⟩ := directives_ends (keeps_counted (.ofTable cycle)) hkeys
    ["a.ts".toList] (s := 0) trivial
  obtain ⟨hdepth, hnodup, hperm, hbounded⟩ := hall r t calls hr
  have hfound := hbounded 0 2 rfl (Nat.le_refl 2)
  have hpaths : r.paths = ["/B.ts".toList, "/a.ts".toList] := by
    rw [show r = (Resolver.directives ["a.ts".toList] services false 0).1 by rw [hfound]]
    decide +kernel
  have hcount : t = 2 := by
    rw [show t = (Resolver.directives ["a.ts".toList] services false 0).2 by rw [hfound]]
    decide +kernel
  subst hcount
  exact ⟨calls, by rw [hfound]; exact hr, hdepth, hnodup, hpaths ▸ hperm⟩

end BatchCompile
