import BatchCompile.Proofs.Closure.Guarantees
import BatchCompile.Proofs.Closure.Visits
import Mathlib.Data.List.Nodup

/-!
# What visits add

Visits only add: files to the files found, and marks to those left. A file is added at most once,
since its mark is new when its visit begins and is left then (`Walk.Grows`). So no two files of a
resolution have one mark, whatever the services answer (`holds_marks_nodup`).
-/

namespace BatchCompile

def Resolution.marks (caseSensitive : Bool) (r : Resolution) : List Text :=
  r.files.map fun f => Walk.mark caseSensitive f.path

namespace Walk

/-- From one walk to the next some files were added, with marks that are new and differ from one
another. -/
structure Grows (caseSensitive : Bool) (w w' : Walk) (added : List ResolvedFile) : Prop where
  files : w'.found.files = w.found.files ++ added
  visited : w.visited ⊆ w'.visited
  fresh : ∀ f ∈ added, mark caseSensitive f.path ∉ w.visited
  marked : ∀ f ∈ added, mark caseSensitive f.path ∈ w'.visited
  distinct : (added.map fun f => mark caseSensitive f.path).Nodup

namespace Grows

variable {caseSensitive : Bool} {w w' w'' : Walk} {added added' : List ResolvedFile}

theorem of_files (hf : w'.found.files = w.found.files) (hv : w.visited ⊆ w'.visited) :
    Grows caseSensitive w w' [] where
  files := by rw [hf, List.append_nil]
  visited := hv
  fresh := by simp
  marked := by simp
  distinct := List.nodup_nil

theorem trans (h : Grows caseSensitive w w' added) (h' : Grows caseSensitive w' w'' added') :
    Grows caseSensitive w w'' (added ++ added') where
  files := by rw [h'.files, h.files, List.append_assoc]
  visited := List.Subset.trans h.visited h'.visited
  fresh := List.forall_mem_append.2 ⟨h.fresh, fun f hf hm => h'.fresh f hf (h.visited hm)⟩
  marked := List.forall_mem_append.2 ⟨fun f hf => h'.visited (h.marked f hf), h'.marked⟩
  distinct := by
    rw [List.map_append]
    refine List.nodup_append.2 ⟨h.distinct, h'.distinct, ?_⟩
    rintro _ hm _ hm' rfl
    obtain ⟨f, hf, rfl⟩ := List.mem_map.1 hm
    obtain ⟨f', hf', he⟩ := List.mem_map.1 hm'
    exact h'.fresh f' hf' (he ▸ h.marked f hf)

/-- A file is added after all that its visit adds. -/
theorem file {file : ResolvedFile} {noDefaultLib : Bool}
    (hnew : mark caseSensitive file.path ∉ w.visited)
    (h : Grows caseSensitive ((w.leave (mark caseSensitive file.path)).note noDefaultLib) w' added) :
    Grows caseSensitive w (w'.add file) (added ++ [file]) where
  files := by
    show w'.found.files ++ [file] = _
    rw [h.files, List.append_assoc]
    rfl
  visited _ hm := h.visited (List.mem_cons_of_mem _ hm)
  fresh := List.forall_mem_append.2
    ⟨fun f hf hm => h.fresh f hf (List.mem_cons_of_mem _ hm), List.forall_mem_singleton.2 hnew⟩
  marked := List.forall_mem_append.2
    ⟨h.marked, List.forall_mem_singleton.2 (h.visited List.mem_cons_self)⟩
  distinct := by
    rw [List.map_append]
    refine List.nodup_append.2 ⟨h.distinct, List.nodup_singleton _, ?_⟩
    rintro _ hm _ hm' rfl
    obtain ⟨f, hf, he⟩ := List.mem_map.1 hm
    rw [List.mem_singleton.1 hm'] at he
    exact h.fresh f hf (he ▸ List.mem_cons_self)

end Grows

theorem course_grows (caseSensitive : Bool) (R : Path → Prop) :
    Course caseSensitive R (fun _ => True) (fun _ _ => True) fun _ w w' =>
      ∃ added, Grows caseSensitive w w' added where
  nil _ := ⟨[], .of_files rfl fun _ => id⟩
  append := fun ⟨_, h⟩ ⟨_, h'⟩ => ⟨_, h.trans h'⟩
  stay _ _ := trivial
  spent _ _ := ⟨[], .of_files rfl fun _ => id⟩
  marked _ _ := ⟨[], .of_files rfl fun _ => id⟩
  missing _ _ _ := ⟨[], .of_files rfl fun _ => List.mem_cons_of_mem _⟩
  opens _ _ _ _ := trivial
  file := fun _ _ _ hnew _ ⟨_, h⟩ => ⟨_, h.file hnew⟩

/-- Some files were added, and others reported missing, with marks that are new as well and those
of no file added. -/
structure Tells (caseSensitive : Bool) (w w' : Walk) (added : List ResolvedFile) (lost : List Path) :
    Prop extends Grows caseSensitive w w' added where
  reported : ∃ told, w'.found.diagnostics = w.found.diagnostics ++ told ∧
    List.Forall₂ Diagnostic.Reports told lost
  unseen : ∀ p ∈ lost, mark caseSensitive p ∉ w.visited
  seen : ∀ p ∈ lost, mark caseSensitive p ∈ w'.visited
  apart : ∀ p ∈ lost, ∀ f ∈ added, mark caseSensitive p ≠ mark caseSensitive f.path

namespace Tells

variable {caseSensitive : Bool} {w w' w'' : Walk} {added added' : List ResolvedFile}
  {lost lost' : List Path}

theorem refl (w : Walk) : Tells caseSensitive w w [] [] where
  toGrows := .of_files rfl fun _ => id
  reported := ⟨[], (List.append_nil _).symm, .nil⟩
  unseen := by simp
  seen := by simp
  apart := by simp

theorem trans (h : Tells caseSensitive w w' added lost)
    (h' : Tells caseSensitive w' w'' added' lost') :
    Tells caseSensitive w w'' (added ++ added') (lost ++ lost') where
  toGrows := h.toGrows.trans h'.toGrows
  reported := by
    obtain ⟨told, hd, hr⟩ := h.reported
    obtain ⟨told', hd', hr'⟩ := h'.reported
    exact ⟨told ++ told', by rw [hd', hd, List.append_assoc], List.rel_append hr hr'⟩
  unseen := List.forall_mem_append.2 ⟨h.unseen, fun p hp hm => h'.unseen p hp (h.visited hm)⟩
  seen := List.forall_mem_append.2 ⟨fun p hp => h'.visited (h.seen p hp), h'.seen⟩
  apart := by
    refine List.forall_mem_append.2 ⟨fun p hp => List.forall_mem_append.2 ⟨h.apart p hp, ?_⟩,
      fun p hp => List.forall_mem_append.2 ⟨?_, h'.apart p hp⟩⟩
    · exact fun f hf he => h'.fresh f hf (he ▸ h.seen p hp)
    · exact fun f hf he => h'.unseen p hp (he ▸ h.marked f hf)

theorem missing {asker : Option Path} {p : Path} (hnew : mark caseSensitive p ∉ w.visited) :
    Tells caseSensitive w ((w.leave (mark caseSensitive p)).missing asker p) [] [p] where
  toGrows := .of_files rfl fun _ => List.mem_cons_of_mem _
  reported := ⟨_, rfl, .cons ⟨asker, rfl⟩ .nil⟩
  unseen := List.forall_mem_singleton.2 hnew
  seen := List.forall_mem_singleton.2 List.mem_cons_self
  apart := by simp

theorem file {file : ResolvedFile} {noDefaultLib : Bool}
    (hnew : mark caseSensitive file.path ∉ w.visited)
    (h : Tells caseSensitive ((w.leave (mark caseSensitive file.path)).note noDefaultLib) w' added
      lost) : Tells caseSensitive w (w'.add file) (added ++ [file]) lost where
  toGrows := h.toGrows.file hnew
  reported := h.reported
  unseen p hp hm := h.unseen p hp (List.mem_cons_of_mem _ hm)
  seen := h.seen
  apart p hp := List.forall_mem_append.2 ⟨h.apart p hp, List.forall_mem_singleton.2 fun he =>
    h.unseen p hp (he ▸ List.mem_cons_self)⟩

end Tells

theorem course_tells (caseSensitive : Bool) (R : Path → Prop) :
    Course caseSensitive R (fun _ => True) (fun _ _ => True) fun _ w w' =>
      ∃ added lost, Tells caseSensitive w w' added lost where
  nil w := ⟨[], [], .refl w⟩
  append := fun ⟨_, _, h⟩ ⟨_, _, h'⟩ => ⟨_, _, h.trans h'⟩
  stay _ _ := trivial
  spent _ _ := ⟨[], [], .refl _⟩
  marked _ _ := ⟨[], [], .refl _⟩
  missing _ _ hnew := ⟨[], _, .missing hnew⟩
  opens _ _ _ _ := trivial
  file := fun _ _ _ hnew _ ⟨_, _, h⟩ => ⟨_, _, h.file hnew⟩

end Walk

theorem holds_marks_nodup {m : Type → Type} [Monad m] [LawfulMonad m] {g : Guarantee m}
    {services : Services m} {R : Path → Prop} (h : services.Keeps g R) (entries : List Path)
    (caseSensitive : Bool) :
    g.holds (Resolver.directives entries services caseSensitive) fun r =>
      (r.marks caseSensitive).Nodup := by
  have hcourse := (Walk.course_grows caseSensitive R).holds_directives h
    (fun p => g.holds_mono (h.fileExists p) fun _ _ _ => trivial)
    (g.holds_mono h.pathBound fun _ _ => trivial) entries
  refine g.holds_mono hcourse ?_
  rintro _ ⟨_, w, ⟨added, hgrows⟩, rfl⟩
  rw [Resolution.marks, hgrows.files]
  exact hgrows.distinct

theorem holds_missing_apart {m : Type → Type} [Monad m] [LawfulMonad m] {g : Guarantee m}
    {services : Services m} {R : Path → Prop} (h : services.Keeps g R) (entries : List Path)
    (caseSensitive : Bool) :
    g.holds (Resolver.directives entries services caseSensitive) fun r =>
      ∃ lost, List.Forall₂ Diagnostic.Reports r.diagnostics lost ∧ ∀ p ∈ lost, p ∉ r.paths := by
  have hcourse := (Walk.course_tells caseSensitive R).holds_directives h
    (fun p => g.holds_mono (h.fileExists p) fun _ _ _ => trivial)
    (g.holds_mono h.pathBound fun _ _ => trivial) entries
  refine g.holds_mono hcourse ?_
  rintro _ ⟨_, w, ⟨added, lost, htells⟩, rfl⟩
  obtain ⟨told, hdiagnostics, hreports⟩ := htells.reported
  refine ⟨lost, hdiagnostics ▸ hreports, fun p hp hfound => ?_⟩
  rw [Resolution.paths, htells.files] at hfound
  obtain ⟨f, hf, rfl⟩ := List.mem_map.1 hfound
  exact htells.apart _ hp f hf rfl

end BatchCompile
