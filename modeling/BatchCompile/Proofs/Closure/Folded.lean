import BatchCompile.Proofs.Closure.Exact

/-!
# Spellings of one path

Without regard to case, a walk takes two spellings of a path for one and looks only at the first it
meets. A path that it met is therefore found in some spelling, or reported as missing in some
spelling (`met_accounted`). It can be reported although the file exists in the other spelling, and
then the file is lost (`missing_spelling_hides_file`).
-/

namespace BatchCompile

open Walk

/-- A path that a resolution met: that of an entry, or one that a file found asks for. -/
def Resolution.Meets (r : Resolution) (answers : Services Id) (entries : List Path) (p : Path) :
    Prop :=
  (∃ e ∈ entries, (answers.resolve e none).run = p) ∨
    ∃ f ∈ r.files, p ∈ f.references ++ f.imports

/-- Every file met is found in some spelling. -/
def Resolution.FindsAllMet (r : Resolution) (answers : Services Id) (entries : List Path)
    (caseSensitive : Bool) : Prop :=
  ∀ p, r.Meets answers entries p → (answers.fileExists p).run = true →
    ∃ f ∈ r.files, mark caseSensitive f.path = mark caseSensitive p

/-- A missing path is reported in the spelling in which it was looked for. -/
def Resolution.Misses (r : Resolution) (answers : Services Id) (q : Path) : Prop :=
  (answers.fileExists q).run = false ∧ ∃ d ∈ r.diagnostics, d.Reports q

namespace Walk

/-- Each mark is that of a file found, of one still `opened`, or of a missing path, and the files
found ask for nothing that is not marked. -/
structure Accounted (answers : Services Id) (caseSensitive : Bool) (opened : List Path) (w : Walk) :
    Prop where
  marks : ∀ m ∈ w.visited, (∃ p ∈ w.found.paths ++ opened, mark caseSensitive p = m) ∨
    ∃ q, w.found.Misses answers q ∧ mark caseSensitive q = m
  asks : ∀ f ∈ w.found.files, ∀ q ∈ f.references ++ f.imports, mark caseSensitive q ∈ w.visited

variable {answers : Services Id} {caseSensitive : Bool} {depth : Nat} {asker : Option Path}
  {p : Path} {w : Walk} {opened files : List Path}

theorem accounted_start : Accounted answers caseSensitive [] start where
  marks := by simp [start]
  asks := by simp [start]

theorem Accounted.missing (h : Accounted answers caseSensitive opened w)
    (he : (answers.fileExists p).run = false) :
    Accounted answers caseSensitive opened ((w.leave (mark caseSensitive p)).missing asker p) where
  marks m hm := by
    rcases List.mem_cons.1 hm with rfl | hm
    · exact .inr ⟨p, ⟨he, _, List.mem_append_right _ (List.mem_singleton_self _), asker, rfl⟩, rfl⟩
    · refine (h.marks m hm).imp_right ?_
      rintro ⟨q, ⟨hq, d, hd, hr⟩, rfl⟩
      exact ⟨q, ⟨hq, d, List.mem_append_left _ hd, hr⟩, rfl⟩
  asks f hf q hq := List.mem_cons_of_mem _ (h.asks f hf q hq)

theorem Accounted.opens (h : Accounted answers caseSensitive opened w) (b : Bool) :
    Accounted answers caseSensitive (p :: opened) ((w.leave (mark caseSensitive p)).note b) where
  marks m hm := by
    rcases List.mem_cons.1 hm with rfl | hm
    · exact .inl ⟨p, by simp, rfl⟩
    · refine (h.marks m hm).imp_left ?_
      rintro ⟨q, hq, rfl⟩
      refine ⟨q, ?_, rfl⟩
      rcases List.mem_append.1 hq with hq | hq
      · exact List.mem_append_left _ hq
      · exact List.mem_append_right _ (List.mem_cons_of_mem p hq)
  asks f hf q hq := List.mem_cons_of_mem _ (h.asks f hf q hq)

theorem Accounted.add {rs is : List Path} (h : Accounted answers caseSensitive (p :: opened) w)
    (hq : ∀ q ∈ rs ++ is, mark caseSensitive q ∈ w.visited) :
    Accounted answers caseSensitive opened (w.add ⟨p, rs, is⟩) where
  marks m hm := by
    refine (h.marks m hm).imp_left ?_
    rintro ⟨q, hq, rfl⟩
    refine ⟨q, ?_, rfl⟩
    rw [show (w.add ⟨p, rs, is⟩).found.paths = w.found.paths ++ [p] from List.map_append,
      List.append_assoc]
    exact hq
  asks f hf := by
    rcases List.mem_append.1 hf with hf | hf
    · exact h.asks f hf
    · rw [List.mem_singleton.1 hf]
      exact hq

/-! ## Visits keep it -/

/-- A walk goes on: it keeps its marks, leaves those of some paths and accounts for all. -/
structure Goes (answers : Services Id) (caseSensitive : Bool) (opened qs : List Path)
    (w w' : Walk) : Prop where
  accounted : Accounted answers caseSensitive opened w'
  keeps : w.visited ⊆ w'.visited
  leaves : ∀ q ∈ qs, mark caseSensitive q ∈ w'.visited

theorem goes_visits
    (hvisit : ∀ asker p opened w, Accounted answers caseSensitive opened w →
      unmarked caseSensitive files w < depth →
      Goes answers caseSensitive opened [p] w (visit answers caseSensitive depth asker p w).run)
    (asker : Option Path) (qs : List Path) (h : Accounted answers caseSensitive opened w)
    (hd : unmarked caseSensitive files w < depth) :
    Goes answers caseSensitive opened qs w (visits answers caseSensitive depth asker qs w) := by
  induction qs generalizing w with
  | nil => exact ⟨h, fun _ hm => hm, by simp⟩
  | cons q qs ih =>
    have h₁ := hvisit asker q opened w h hd
    have h₂ := ih h₁.accounted (Nat.lt_of_le_of_lt (unmarked_le h₁.keeps) hd)
    refine ⟨h₂.accounted, fun _ hm => h₂.keeps (h₁.keeps hm), fun r hr => ?_⟩
    rcases List.mem_cons.1 hr with rfl | hr
    · exact h₂.keeps (h₁.leaves r (by simp))
    · exact h₂.leaves r hr

theorem goes_visit (hfiles : ∀ p, (answers.fileExists p).run = true → p ∈ files)
    (asker : Option Path) (p : Path) (h : Accounted answers caseSensitive opened w)
    (hd : unmarked caseSensitive files w < depth) :
    Goes answers caseSensitive opened [p] w
      (visit answers caseSensitive depth asker p w).run := by
  induction depth generalizing asker p opened w with
  | zero => exact absurd hd (Nat.not_lt_zero _)
  | succ depth ih =>
    by_cases hm : mark caseSensitive p ∈ w.visited
    · rw [visit_marked hm]
      exact ⟨h, fun _ hm => hm, by simpa using hm⟩
    cases he : (answers.fileExists p).run with
    | false =>
      rw [visit_missing hm he]
      exact ⟨h.missing he, List.subset_cons_self _ _, by simp [missing, leave]⟩
    | true =>
      rw [visit_file hm he]
      have hopen := h.opens (p := p) (said answers p).noDefaultLib
      have hless : unmarked caseSensitive files
          ((w.leave (mark caseSensitive p)).note (said answers p).noDefaultLib) <
            unmarked caseSensitive files w := unmarked_lt (hfiles p he) hm rfl
      have hinner := goes_visits (fun a q _ _ hv hl => ih a q hv hl) (some p) (asked answers p)
        hopen (by omega)
      exact ⟨hinner.accounted.add hinner.leaves,
        fun _ hk => hinner.keeps (List.mem_cons_of_mem _ hk),
        fun q hq => List.mem_singleton.1 hq ▸ hinner.keeps List.mem_cons_self⟩

end Walk

/-! ## The whole walk -/

/-- Over services that answer consistently, with finitely many files, each path met is found in
some spelling, or missing in some spelling and reported so. -/
theorem met_accounted {σ : Type} {kept : σ → Prop} {services : Services (StateM σ)}
    {answers : Services Id} (hcons : Consistent (.of kept) services answers) {files : List Path}
    (hfiles : ∀ p, (answers.fileExists p).run = true → p ∈ files)
    (hbound : files.length ≤ answers.pathBound.run) (entries : List Path) (caseSensitive : Bool)
    {s : σ} (hs : kept s) :
    let r := (Resolver.directives entries services caseSensitive s).1
    ∀ p, r.Meets answers entries p →
      (∃ f ∈ r.files, mark caseSensitive f.path = mark caseSensitive p) ∨
        ∃ q, r.Misses answers q ∧ mark caseSensitive q = mark caseSensitive p := by
  intro r p hp
  have hless : unmarked caseSensitive files Walk.start < answers.pathBound.run + 1 := by
    have := List.length_filter_le
      (fun p => !Walk.start.visited.contains (mark caseSensitive p)) files
    rw [unmarked]
    omega
  have hgoes := goes_visits (fun a q _ _ hv hl => goes_visit hfiles a q hv hl) none
    (entries.map fun e => (answers.resolve e none).run) accounted_start hless
  have hr : r = (visits answers caseSensitive (answers.pathBound.run + 1) none
      (entries.map fun e => (answers.resolve e none).run) Walk.start).found :=
    ((gives_directives hcons entries caseSensitive s hs).1).trans
      (directives_eq answers entries caseSensitive)
  rw [hr] at hp ⊢
  generalize visits answers caseSensitive _ none _ Walk.start = w at hgoes hp
  have hmark : mark caseSensitive p ∈ w.visited := by
    rcases hp with ⟨e, he, rfl⟩ | ⟨f, hf, hp⟩
    · exact hgoes.leaves _ (List.mem_map_of_mem he)
    · exact hgoes.accounted.asks f hf p hp
  refine (hgoes.accounted.marks _ hmark).imp_left ?_
  rintro ⟨q, hq, hm⟩
  rw [List.append_nil] at hq
  obtain ⟨f, hf, rfl⟩ := List.mem_map.1 hq
  exact ⟨f, hf, hm⟩

/-! ## A file behind a missing spelling -/

def smallName : List (Path × Text) :=
  [("/a.ts".toList, [])]

/-- The missing spelling comes first and leaves the mark of the file, which is then passed over. -/
theorem missing_spelling_hides_file :
    let entries := ["A.ts".toList, "a.ts".toList]
    let answers := Services.ofTable smallName
    ¬Resolution.FindsAllMet (Resolver.directives entries answers false).run answers entries
      false := by
  intro entries answers h
  have hmet : (answers.resolve "a.ts".toList none).run = "/a.ts".toList := by decide +kernel
  have hnone : (Resolver.directives entries answers false).run.files = [] := by decide +kernel
  obtain ⟨f, hf, -⟩ := h "/a.ts".toList (.inl ⟨_, by simp [entries], hmet⟩) (by decide)
  rw [hnone] at hf
  cases hf

theorem met_accounted_small :
    let entries := ["A.ts".toList, "a.ts".toList]
    let r := (Resolver.directives entries (Services.ofTable smallName).counted false 0).1
    (∃ f ∈ r.files, mark false f.path = mark false "/a.ts".toList) ∨
      ∃ q, r.Misses (.ofTable smallName) q ∧ mark false q = mark false "/a.ts".toList := by
  intro entries r
  have hmet : ((Services.ofTable smallName).resolve "a.ts".toList none).run = "/a.ts".toList := by
    decide +kernel
  exact met_accounted (consistent_counted (.ofTable smallName))
    (fun _ => mem_of_fileExists_ofTable) (by decide) entries false trivial "/a.ts".toList
    (.inl ⟨_, by simp [entries], hmet⟩)

end BatchCompile
