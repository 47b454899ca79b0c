import BatchCompile.Proofs.Closure.Exact
import BatchCompile.Proofs.Closure.Guarantees

/-!
# Answers that agree

A resolution is made of the answers that it asks for and of no others. So services that agree on the
paths found and reported, and on those that imports may mean, give the same resolution
(`directives_congr`). How deep a walk may go does not matter to it, as long as there is depth for
all files (`visit_depth`).
-/

namespace BatchCompile

/-- Everything found, and everything reported as missing, is of one kind. -/
structure Resolution.Within (r : Resolution) (T : Path → Prop) : Prop where
  files : ∀ f ∈ r.files, T f.path
  missing : ∀ d ∈ r.diagnostics, ∀ p, d.Reports p → T p

theorem Resolution.within_of_lost {r : Resolution} {T : Path → Prop}
    {lost : List (Option Path × Path)} (hf : ∀ f ∈ r.files, T f.path)
    (hd : r.diagnostics = lost.map fun e => .ofMessage e.1 .fileNotFound [e.2])
    (hl : ∀ e ∈ lost, T e.2) : r.Within T := by
  refine ⟨hf, fun d hm p hp => ?_⟩
  rw [hd] at hm
  obtain ⟨e, he, rfl⟩ := List.mem_map.1 hm
  obtain rfl : p = e.2 := hp.eq ⟨e.1, rfl⟩
  exact hl e he

namespace Services

variable (answers : Services Id)

/-- Where names are looked up: nowhere in particular, or where a path of the kind lies. -/
def Place (R : Path → Prop) (directory : Option Path) : Prop :=
  directory = none ∨ ∃ p, R p ∧ (answers.parentDirectory p).run = directory

/-- Other answers are the same about the paths of kind `R`, which all names mean. Which files exist,
and what they say, need be the same only for those that are of kind `T` as well, as are all paths
that may be meant by an import. -/
structure Agree (others : Services Id) (R T : Path → Prop) : Prop where
  parentDirectory : ∀ p, R p → others.parentDirectory p = answers.parentDirectory p
  resolve : ∀ name directory, answers.Place R directory →
    others.resolve name directory = answers.resolve name directory
  means : ∀ name directory, answers.Place R directory → R (answers.resolve name directory).run
  imports : ∀ name directory, answers.Place R directory →
    T (answers.resolve (name ++ ".ts".toList) directory).run ∧
      T (answers.resolve (name ++ ".d.ts".toList) directory).run
  fileExists : ∀ p, R p → T p → others.fileExists p = answers.fileExists p
  sourceText : ∀ p, R p → T p → (answers.fileExists p).run = true →
    others.sourceText p = answers.sourceText p

end Services

namespace Walk

/-- A walk that goes on keeps its marks, the files it found and what it reported. -/
structure Extends (w w' : Walk) : Prop where
  visited : w.visited ⊆ w'.visited
  files : w.found.files ⊆ w'.found.files
  diagnostics : w.found.diagnostics ⊆ w'.found.diagnostics

namespace Extends

theorem refl (w : Walk) : Extends w w :=
  ⟨List.Subset.refl _, List.Subset.refl _, List.Subset.refl _⟩

theorem trans {w v w' : Walk} (h : Extends w v) (h' : Extends v w') : Extends w w' :=
  ⟨List.Subset.trans h.visited h'.visited, List.Subset.trans h.files h'.files,
    List.Subset.trans h.diagnostics h'.diagnostics⟩

theorem within {w w' : Walk} {T : Path → Prop} (h : Extends w w') (hw : w'.found.Within T) :
    w.found.Within T :=
  ⟨fun f hf => hw.files f (h.files hf), fun d hd => hw.missing d (h.diagnostics hd)⟩

end Extends

variable {answers others : Services Id} {caseSensitive : Bool} {R T : Path → Prop}
  {files : List Path}

theorem extends_visit (depth : Nat) (asker : Option Path) (p : Path) (w : Walk) :
    Extends w (visit answers caseSensitive depth asker p w).run := by
  let plain : Guarantee Id := ⟨fun x P => P x.run, id, fun hx hf => hf _ hx⟩
  have hkeeps : answers.Keeps plain fun _ => True :=
    ⟨fun _ => trivial, fun _ => trivial, fun _ => trivial, fun _ _ => trivial, fun _ => trivial,
      trivial⟩
  have hcourse : Course caseSensitive (fun _ => True) (fun _ => True) (fun _ _ => True)
      fun _ w w' => Extends w w' := {
    nil := .refl
    append := .trans
    stay := fun _ _ => trivial
    spent := fun _ _ => .refl _
    marked := fun _ _ => .refl _
    missing := fun _ _ _ =>
      ⟨List.subset_cons_self _ _, List.Subset.refl _, List.subset_append_left _ _⟩
    opens := fun _ _ _ _ => trivial
    file := fun _ _ _ _ _ h =>
      ⟨List.Subset.trans (List.subset_cons_self _ _) h.visited,
        List.Subset.trans h.files (List.subset_append_left _ _), h.diagnostics⟩ }
  exact hcourse.holds_visit hkeeps (fun _ _ => trivial) depth asker trivial trivial

theorem extends_visits (depth : Nat) (asker : Option Path) (qs : List Path) (w : Walk) :
    Extends w (visits answers caseSensitive depth asker qs w) := by
  induction qs generalizing w with
  | nil => exact .refl w
  | cons q qs ih => exact (extends_visit depth asker q w).trans (ih _)

/-! ## The same answers -/

section

variable (h : answers.Agree others R T)

include h

theorem importPath_congr {directory : Option Path} (hd : answers.Place R directory) (name : Text) :
    importPath others directory name = importPath answers directory name := by
  obtain ⟨hsource, hdeclaration⟩ := h.imports name directory hd
  unfold importPath
  rw [h.resolve _ _ hd, h.resolve _ _ hd]
  show (do
    if ← others.fileExists (answers.resolve (name ++ ".ts".toList) directory).run then _
    else if ← others.fileExists (answers.resolve (name ++ ".d.ts".toList) directory).run then _
      else _ : Id Path) = _
  rw [h.fileExists _ (h.means _ _ hd) hsource, h.fileExists _ (h.means _ _ hd) hdeclaration]
  rfl

theorem means_importPath {directory : Option Path} (hd : answers.Place R directory)
    (name : Text) : R (importPath answers directory name).run := by
  have hmeans := fun name => h.means name directory hd
  unfold importPath
  show R (if (answers.fileExists _).run then (answers.resolve _ _).run
    else if (answers.fileExists _).run then (answers.resolve _ _).run
      else (answers.resolve _ _).run)
  split
  · exact hmeans _
  · split <;> exact hmeans _

theorem means_asked {p : Path} (hp : R p) : ∀ q ∈ asked answers p, R q := by
  have hd : answers.Place R (answers.parentDirectory p).run := .inr ⟨p, hp, rfl⟩
  intro q hq
  rcases List.mem_append.1 hq with hq | hq
  · obtain ⟨name, -, rfl⟩ := List.mem_map.1 hq
    exact h.means _ _ hd
  · obtain ⟨name, -, rfl⟩ := List.mem_map.1 hq
    exact means_importPath h hd name

section

variable {p : Path} (hp : R p) (ht : T p) (he : (answers.fileExists p).run = true)

include hp ht he

theorem said_congr : said others p = said answers p := by
  rw [said, said, h.sourceText p hp ht he]

theorem references_congr : references others p = references answers p := by
  have hd : answers.Place R (answers.parentDirectory p).run := .inr ⟨p, hp, rfl⟩
  rw [references, references, said_congr h hp ht he, h.parentDirectory p hp]
  exact List.map_congr_left fun name _ => congrArg Id.run (h.resolve name _ hd)

theorem imports_congr : imports others p = imports answers p := by
  have hd : answers.Place R (answers.parentDirectory p).run := .inr ⟨p, hp, rfl⟩
  rw [imports, imports, said_congr h hp ht he, h.parentDirectory p hp]
  exact List.map_congr_left fun name _ => congrArg Id.run (importPath_congr h hd name)

end

omit h in
theorem visits_congr {depth : Nat} (asker : Option Path) {qs : List Path}
    (hvisit : ∀ p w, R p → (visit answers caseSensitive depth asker p w).run.found.Within T →
      (visit others caseSensitive depth asker p w).run =
        (visit answers caseSensitive depth asker p w).run)
    (hq : ∀ q ∈ qs, R q) {w : Walk}
    (hw : (visits answers caseSensitive depth asker qs w).found.Within T) :
    visits others caseSensitive depth asker qs w =
      visits answers caseSensitive depth asker qs w := by
  induction qs generalizing w with
  | nil => rfl
  | cons q qs ih =>
    obtain ⟨hq, hqs⟩ := List.forall_mem_cons.1 hq
    have hfirst := hvisit q w hq ((extends_visits depth asker qs _).within hw)
    show visits others caseSensitive depth asker qs (visit others _ _ _ _ _).run = _
    rw [hfirst]
    exact ih hqs hw

/-- Where all that a visit finds and misses is of the kind that the answers agree on, the visit is
the same. -/
theorem visit_congr (depth : Nat) (asker : Option Path) {p : Path} {w : Walk} (hp : R p)
    (hw : (visit answers caseSensitive depth asker p w).run.found.Within T) :
    (visit others caseSensitive depth asker p w).run =
      (visit answers caseSensitive depth asker p w).run := by
  induction depth generalizing asker p w with
  | zero => rfl
  | succ depth ih =>
    by_cases hm : mark caseSensitive p ∈ w.visited
    · rw [visit_marked hm, visit_marked hm]
    cases he : (answers.fileExists p).run with
    | false =>
      rw [visit_missing hm he] at hw ⊢
      have ht : T p := hw.missing _ (List.mem_append_right _ (List.mem_singleton_self _)) p
        ⟨asker, rfl⟩
      rw [visit_missing hm (h.fileExists p hp ht ▸ he)]
    | true =>
      rw [visit_file hm he] at hw ⊢
      have ht : T p := hw.files _ (List.mem_append_right _ (List.mem_singleton_self _))
      rw [visit_file hm (h.fileExists p hp ht ▸ he), asked, said_congr h hp ht he,
        references_congr h hp ht he, imports_congr h hp ht he, ← asked]
      have hinner : Extends (visits answers caseSensitive depth (some p) (asked answers p)
          ((w.leave (mark caseSensitive p)).note (said answers p).noDefaultLib))
          ((visits answers caseSensitive depth (some p) (asked answers p)
            ((w.leave (mark caseSensitive p)).note (said answers p).noDefaultLib)).add
              ⟨p, references answers p, imports answers p⟩) :=
        ⟨List.Subset.refl _, List.subset_append_left _ _, List.Subset.refl _⟩
      rw [visits_congr (some p) (fun q v hq hv => ih (some p) hq hv) (means_asked h hp)
        (hinner.within hw)]

end

/-! ## Depth -/

theorem visits_depth {depth depth' : Nat} (asker : Option Path) {qs : List Path}
    (hvisit : ∀ p w, R p → unmarked caseSensitive files w < depth →
      unmarked caseSensitive files w < depth' →
      (visit answers caseSensitive depth asker p w).run =
        (visit answers caseSensitive depth' asker p w).run)
    (hq : ∀ q ∈ qs, R q) {w : Walk} (hd : unmarked caseSensitive files w < depth)
    (hd' : unmarked caseSensitive files w < depth') :
    visits answers caseSensitive depth asker qs w =
      visits answers caseSensitive depth' asker qs w := by
  induction qs generalizing w with
  | nil => rfl
  | cons q qs ih =>
    obtain ⟨hq, hqs⟩ := List.forall_mem_cons.1 hq
    have hfirst := hvisit q w hq hd hd'
    have hle : unmarked caseSensitive files (visit answers caseSensitive depth' asker q w).run ≤
        unmarked caseSensitive files w := unmarked_le (extends_visit depth' asker q w).visited
    show visits answers caseSensitive depth asker qs (visit answers _ _ _ _ _).run = _
    rw [hfirst]
    exact ih hqs (by omega) (by omega)

/-- Two depths that both suffice for the files not yet marked are as good as each other. -/
theorem visit_depth (hfiles : ∀ p, R p → (answers.fileExists p).run = true → p ∈ files)
    (hasked : ∀ p, R p → ∀ q ∈ asked answers p, R q) {depth depth' : Nat} (asker : Option Path)
    {p : Path} {w : Walk} (hp : R p) (hd : unmarked caseSensitive files w < depth)
    (hd' : unmarked caseSensitive files w < depth') :
    (visit answers caseSensitive depth asker p w).run =
      (visit answers caseSensitive depth' asker p w).run := by
  induction depth generalizing depth' asker p w with
  | zero => exact absurd hd (Nat.not_lt_zero _)
  | succ depth ih =>
    obtain ⟨depth', rfl⟩ := Nat.exists_eq_succ_of_ne_zero (Nat.ne_zero_of_lt hd')
    by_cases hm : mark caseSensitive p ∈ w.visited
    · rw [visit_marked hm, visit_marked hm]
    cases he : (answers.fileExists p).run with
    | false => rw [visit_missing hm he, visit_missing hm he]
    | true =>
      rw [visit_file hm he, visit_file hm he]
      have hless : unmarked caseSensitive files
          ((w.leave (mark caseSensitive p)).note (said answers p).noDefaultLib) <
            unmarked caseSensitive files w := unmarked_lt (hfiles p hp he) hm rfl
      generalize (w.leave (mark caseSensitive p)).note (said answers p).noDefaultLib = v at hless ⊢
      have hinner : visits answers caseSensitive depth (some p) (asked answers p) v =
          visits answers caseSensitive depth' (some p) (asked answers p) v :=
        visits_depth (some p) (fun q v hq hv hv' => ih (some p) hq hv hv') (hasked p hp)
          (by omega) (by omega)
      rw [hinner]

end Walk

/-! ## Resolutions -/

open Walk

section

variable {answers others : Services Id} {R T : Path → Prop} (h : answers.Agree others R T)
  {entries : List Path} {caseSensitive : Bool}

include h

theorem visits_entries_congr {depth : Nat} (hw : (visits answers caseSensitive depth none
      (entries.map fun e => (answers.resolve e none).run) start).found.Within T) :
    visits others caseSensitive depth none (entries.map fun e => (others.resolve e none).run) start =
      visits answers caseSensitive depth none
        (entries.map fun e => (answers.resolve e none).run) start := by
  have hentries : (entries.map fun e => (others.resolve e none).run) =
      entries.map fun e => (answers.resolve e none).run :=
    List.map_congr_left fun e _ => congrArg Id.run (h.resolve e none (.inl rfl))
  rw [hentries]
  refine visits_congr none (fun p w hp => visit_congr h depth none hp) (fun q hq => ?_) hw
  obtain ⟨e, -, rfl⟩ := List.mem_map.1 hq
  exact h.means e none (.inl rfl)

/-- Services that agree on all that a resolution finds and misses give the same resolution. -/
theorem directives_congr (hbound : others.pathBound = answers.pathBound)
    (hw : (Resolver.directives entries answers caseSensitive).run.Within T) :
    (Resolver.directives entries others caseSensitive).run =
      (Resolver.directives entries answers caseSensitive).run := by
  rw [directives_eq] at hw ⊢
  rw [directives_eq, hbound, visits_entries_congr h hw]

theorem directives_congr_of_files {files : List Path}
    (hfiles : ∀ p, R p → (answers.fileExists p).run = true → p ∈ files)
    (hbound : files.length ≤ answers.pathBound.run) (hbound' : files.length ≤ others.pathBound.run)
    (hw : (Resolver.directives entries answers caseSensitive).run.Within T) :
    (Resolver.directives entries others caseSensitive).run =
      (Resolver.directives entries answers caseSensitive).run := by
  have hstart : unmarked caseSensitive files start ≤ files.length := unmarked_le_length files _
  have hentries : ∀ q ∈ entries.map fun e => (answers.resolve e none).run, R q := by
    intro q hq
    obtain ⟨e, -, rfl⟩ := List.mem_map.1 hq
    exact h.means e none (.inl rfl)
  have hdepth := visits_depth none (fun p w hp hd hd' =>
    visit_depth hfiles (fun p hp => means_asked h hp) none hp hd hd') hentries
    (Nat.lt_succ_of_le (Nat.le_trans hstart hbound))
    (Nat.lt_succ_of_le (Nat.le_trans hstart hbound'))
  rw [directives_eq, hdepth] at hw
  rw [directives_eq, directives_eq, hdepth, visits_entries_congr h hw]

end

end BatchCompile
