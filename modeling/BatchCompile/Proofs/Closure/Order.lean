import BatchCompile.Proofs.Closure.Distinct
import BatchCompile.Proofs.Closure.Exact
import Mathlib.Logic.Relation

/-!
# Dependencies first

A file stands after the files that it asks for, unless one of these leads back to it
(`Resolution.DependenciesFirst`). While the walk goes on, a file found asks only for what was marked
before it was found; so a file that is found later, and is asked for, was still open then, and what
is found while it is open it leads to (`Walk.Follows`).
-/

namespace BatchCompile

open Relation (TransGen)

namespace Resolution

variable (caseSensitive : Bool) (r : Resolution)

/-- A file of a resolution refers to another, or imports it, by a path with the same mark. -/
def AsksFor (u v : ResolvedFile) : Prop :=
  u ∈ r.files ∧ v ∈ r.files ∧
    ∃ q ∈ u.references ++ u.imports, Walk.mark caseSensitive q = Walk.mark caseSensitive v.path

def LeadsTo : ResolvedFile → ResolvedFile → Prop :=
  TransGen (r.AsksFor caseSensitive)

def Before (v u : ResolvedFile) : Prop :=
  r.files.idxOf v < r.files.idxOf u

/-- The files differ in their marks, and each stands after those that it asks for, except for those
that it can be reached from. Without a cycle it stands after all that it leads to. -/
structure DependenciesFirst : Prop where
  distinct : (r.marks caseSensitive).Nodup
  before : ∀ u v, r.AsksFor caseSensitive u v → v ≠ u →
    r.Before v u ∨ r.LeadsTo caseSensitive v u
  acyclic : (∀ f, ¬r.LeadsTo caseSensitive f f) →
    ∀ u v, r.LeadsTo caseSensitive u v → r.Before v u

variable {caseSensitive r} {r' : Resolution} {added : List ResolvedFile} {u v : ResolvedFile}

/-- Without a cycle the order of single steps is that of ways. -/
theorem before_of_acyclic
    (h : ∀ u v, r.AsksFor caseSensitive u v → v ≠ u →
      r.Before v u ∨ r.LeadsTo caseSensitive v u)
    (hcycle : ∀ f, ¬r.LeadsTo caseSensitive f f) (hlead : r.LeadsTo caseSensitive u v) :
    r.Before v u := by
  have hstep : ∀ {u v}, r.AsksFor caseSensitive u v → r.Before v u := by
    intro u v hask
    have hne : v ≠ u := by
      rintro rfl
      exact hcycle v (.single hask)
    exact (h u v hask hne).resolve_right fun hback => hcycle u (hback.head hask)
  induction hlead with
  | single hask => exact hstep hask
  | tail _ hask ih => exact Nat.lt_trans (hstep hask) ih

/-! ## More files -/

theorem AsksFor.mono (hf : r.files ⊆ r'.files) (h : r.AsksFor caseSensitive u v) :
    r'.AsksFor caseSensitive u v :=
  ⟨hf h.1, hf h.2.1, h.2.2⟩

theorem LeadsTo.mono (hf : r.files ⊆ r'.files) (h : r.LeadsTo caseSensitive u v) :
    r'.LeadsTo caseSensitive u v :=
  TransGen.mono (fun _ _ => AsksFor.mono hf) u v h

theorem Before.append (hf : r'.files = r.files ++ added) (hu : u ∈ r.files) (hv : v ∈ r.files)
    (h : r.Before v u) : r'.Before v u := by
  unfold Before at h ⊢
  rw [hf, List.idxOf_append_of_mem hv, List.idxOf_append_of_mem hu]
  exact h

theorem before_added (hf : r'.files = r.files ++ added) (hu : u ∉ r.files) (hv : v ∈ r.files) :
    r'.Before v u := by
  have hstands := List.idxOf_lt_length_iff.2 hv
  unfold Before
  rw [hf, List.idxOf_append_of_mem hv, List.idxOf_append_of_notMem hu]
  omega

end Resolution

namespace Walk

open Resolution

variable {caseSensitive : Bool} {w w' w'' : Walk} {ps qs : List Path}

/-- What holds between visits: the files found were marked, as was all that they ask for, and they
stand after what they ask for, except on cycles. -/
structure Ordered (caseSensitive : Bool) (w : Walk) : Prop where
  marked : ∀ f ∈ w.found.files, mark caseSensitive f.path ∈ w.visited
  closed : ∀ f ∈ w.found.files, ∀ q ∈ f.references ++ f.imports, mark caseSensitive q ∈ w.visited
  before : ∀ u v, w.found.AsksFor caseSensitive u v → v ≠ u →
    w.found.Before v u ∨ w.found.LeadsTo caseSensitive v u

/-- A file is, or can be reached from, the file of one of some paths. -/
def Descends (caseSensitive : Bool) (w : Walk) (ps : List Path) (x : ResolvedFile) : Prop :=
  ∃ f ∈ w.found.files, (∃ p ∈ ps, mark caseSensitive p = mark caseSensitive f.path) ∧
    (f = x ∨ w.found.LeadsTo caseSensitive f x)

/-- Visits of some paths leave their marks and keep the order, and the files that they add descend
from the paths. -/
structure Follows (caseSensitive : Bool) (ps : List Path) (w w' : Walk)
    (added : List ResolvedFile) : Prop where
  grows : Grows caseSensitive w w' added
  leaves : ∀ p ∈ ps, mark caseSensitive p ∈ w'.visited
  ordered : Ordered caseSensitive w'
  descend : ∀ x ∈ added, Descends caseSensitive w' ps x

theorem Grows.subset {added : List ResolvedFile} (h : Grows caseSensitive w w' added) :
    w.found.files ⊆ w'.found.files := by
  rw [h.files]
  exact List.subset_append_left _ _

theorem Descends.mono {x : ResolvedFile} (hf : w.found.files ⊆ w'.found.files) (hp : ps ⊆ qs)
    (h : Descends caseSensitive w ps x) : Descends caseSensitive w' qs x := by
  obtain ⟨f, hmem, ⟨p, hpm, he⟩, hx⟩ := h
  exact ⟨f, hf hmem, ⟨p, hp hpm, he⟩, hx.imp_right (LeadsTo.mono hf)⟩

theorem Ordered.of_files (h : Ordered caseSensitive w) (hf : w'.found.files = w.found.files)
    (hv : w.visited ⊆ w'.visited) : Ordered caseSensitive w' where
  marked := hf ▸ fun f hm => hv (h.marked f hm)
  closed := hf ▸ fun f hm q hq => hv (h.closed f hm q hq)
  before u v hask hne := by
    have hsub : w.found.files ⊆ w'.found.files := hf ▸ List.Subset.refl _
    have hask : w.found.AsksFor caseSensitive u v := hask.mono (hf ▸ List.Subset.refl _)
    refine (h.before u v hask hne).imp (fun hb => ?_) (LeadsTo.mono hsub)
    exact hb.append (by rw [hf, List.append_nil]) hask.1 hask.2.1

namespace Follows

variable {added added' : List ResolvedFile}

theorem of_files (h : Ordered caseSensitive w) (hf : w'.found.files = w.found.files)
    (hv : w.visited ⊆ w'.visited) (hp : ∀ p ∈ ps, mark caseSensitive p ∈ w'.visited) :
    Follows caseSensitive ps w w' [] where
  grows := .of_files hf hv
  leaves := hp
  ordered := h.of_files hf hv
  descend := by simp

theorem append (h : Follows caseSensitive ps w w' added)
    (h' : Follows caseSensitive qs w' w'' added') :
    Follows caseSensitive (ps ++ qs) w w'' (added ++ added') where
  grows := h.grows.trans h'.grows
  leaves := List.forall_mem_append.2 ⟨fun p hp => h'.grows.visited (h.leaves p hp), h'.leaves⟩
  ordered := h'.ordered
  descend := List.forall_mem_append.2
    ⟨fun x hx => (h.descend x hx).mono h'.grows.subset (List.subset_append_left _ _),
      fun x hx => (h'.descend x hx).mono (List.Subset.refl _) (List.subset_append_right _ _)⟩

variable {file : ResolvedFile} {noDefaultLib : Bool}

section

variable (hw : Ordered caseSensitive w) (hnew : mark caseSensitive file.path ∉ w.visited)
  (h : Follows caseSensitive (file.references ++ file.imports)
    ((w.leave (mark caseSensitive file.path)).note noDefaultLib) w' added)

include h

/-- An open file leads to all that is found while it is open. -/
theorem leadsTo_of_added {x : ResolvedFile} (hx : x ∈ added) :
    (w'.add file).found.LeadsTo caseSensitive file x := by
  obtain ⟨f, hf, ⟨q, hq, he⟩, hlead⟩ := h.descend x hx
  have hsub : w'.found.files ⊆ (w'.add file).found.files := List.subset_append_left _ _
  have hask : (w'.add file).found.AsksFor caseSensitive file f :=
    ⟨List.mem_append_right _ (List.mem_singleton_self _), hsub hf, q, hq, he⟩
  rcases hlead with rfl | hlead
  · exact .single hask
  · exact (hlead.mono hsub).head hask

include hw hnew

/-- A file found before asks for no file that is still open. -/
theorem added_of_asks {u : ResolvedFile} {q : Path} (hu : u ∈ w'.found.files)
    (hq : q ∈ u.references ++ u.imports)
    (he : mark caseSensitive q = mark caseSensitive file.path) : u ∈ added := by
  rw [h.grows.files] at hu
  refine (List.mem_append.1 hu).resolve_left fun hold => hnew ?_
  exact he ▸ hw.closed u hold q hq

theorem notMem_files : file ∉ w'.found.files := by
  intro hf
  rw [h.grows.files] at hf
  rcases List.mem_append.1 hf with hf | hf
  · exact hnew (hw.marked file hf)
  · exact h.grows.fresh file hf List.mem_cons_self

/-- When all that a file asks for was visited, it takes its place. -/
theorem ordered_add : Ordered caseSensitive (w'.add file) where
  marked := List.forall_mem_append.2 ⟨h.ordered.marked,
    List.forall_mem_singleton.2 (h.grows.visited List.mem_cons_self)⟩
  closed := List.forall_mem_append.2 ⟨h.ordered.closed, List.forall_mem_singleton.2 h.leaves⟩
  before u v hask hne := by
    obtain ⟨hasker, hasked, q, hq, he⟩ := hask
    rcases List.mem_append.1 hasker with hu | hu <;> rcases List.mem_append.1 hasked with hv | hv
    · refine (h.ordered.before u v ⟨hu, hv, q, hq, he⟩ hne).imp (fun hb => ?_) fun hl => ?_
      · exact hb.append rfl hu hv
      · exact hl.mono (List.subset_append_left _ _)
    -- the file asked for is the one that was open until now
    · obtain rfl := List.mem_singleton.1 hv
      exact .inr (h.leadsTo_of_added (h.added_of_asks hw hnew hu hq he))
    · obtain rfl := List.mem_singleton.1 hu
      exact .inl (before_added rfl (h.notMem_files hw hnew) hv)
    · exact absurd ((List.mem_singleton.1 hv).trans (List.mem_singleton.1 hu).symm) hne

theorem add : Follows caseSensitive [file.path] w (w'.add file) (added ++ [file]) where
  grows := h.grows.file hnew
  leaves := List.forall_mem_singleton.2 (h.grows.visited List.mem_cons_self)
  ordered := h.ordered_add hw hnew
  descend := by
    have hself : file ∈ (w'.add file).found.files :=
      List.mem_append_right _ (List.mem_singleton_self _)
    refine List.forall_mem_append.2 ⟨fun x hx => ?_, List.forall_mem_singleton.2 ?_⟩
    · exact ⟨file, hself, ⟨_, List.mem_singleton_self _, rfl⟩, .inr (h.leadsTo_of_added hx)⟩
    · exact ⟨file, hself, ⟨_, List.mem_singleton_self _, rfl⟩, .inl rfl⟩

end

end Follows

/-- Visits follow the order, as long as there is depth for the files that are not marked. -/
theorem course_follows (caseSensitive : Bool) (R : Path → Prop) (files : List Path) :
    Course caseSensitive R (· ∈ files)
      (fun depth w => Ordered caseSensitive w ∧ unmarked caseSensitive files w < depth)
      fun ps w w' => Ordered caseSensitive w → ∃ added, Follows caseSensitive ps w w' added where
  nil w hw := ⟨[], .of_files hw rfl (fun _ => id) (by simp)⟩
  append h h' hw := by
    obtain ⟨added, hfirst⟩ := h hw
    obtain ⟨added', hsecond⟩ := h' hfirst.ordered
    exact ⟨_, hfirst.append hsecond⟩
  stay := by
    rintro depth ps w v h ⟨hw, hroom⟩
    obtain ⟨added, hfollows⟩ := h hw
    have hless : unmarked caseSensitive files v ≤ unmarked caseSensitive files w :=
      unmarked_le hfollows.grows.visited
    exact ⟨hfollows.ordered, by omega⟩
  spent _ hroom := absurd hroom.2 (Nat.not_lt_zero _)
  marked _ hm hw := ⟨[], .of_files hw rfl (fun _ => id) (by simpa using hm)⟩
  missing asker _ _ hw :=
    ⟨[], .of_files hw rfl (fun _ => List.mem_cons_of_mem _) (by simp [missing, leave])⟩
  opens noDefaultLib hmem hnew hroom := by
    have hroom' := hroom.2
    refine ⟨hroom.1.of_files rfl fun _ => List.mem_cons_of_mem _, ?_⟩
    exact Nat.lt_of_lt_of_le (unmarked_lt hmem hnew rfl) (by omega)
  file noDefaultLib _ _ hnew _ h hw := by
    obtain ⟨added, hfollows⟩ := h (hw.of_files rfl fun _ => List.mem_cons_of_mem _)
    exact ⟨_, hfollows.add hw hnew⟩

end Walk

/-! ## Resolutions -/

theorem holds_dependenciesFirst {m : Type → Type} [Monad m] [LawfulMonad m] {g : Guarantee m}
    {services : Services m} {R : Path → Prop} (h : services.Keeps g R) {files : List Path}
    (hfiles : ∀ p, g.holds (services.fileExists p) fun there => there = true → p ∈ files)
    (hbound : g.holds services.pathBound fun bound => files.length ≤ bound)
    (entries : List Path) (caseSensitive : Bool) :
    g.holds (Resolver.directives entries services caseSensitive)
      (Resolution.DependenciesFirst caseSensitive) := by
  have hstart : Walk.Ordered caseSensitive Walk.start := by
    refine ⟨by simp [Walk.start], by simp [Walk.start], fun u v hask => ?_⟩
    exact absurd hask.1 List.not_mem_nil
  have hcourse := (Walk.course_follows caseSensitive R files).holds_directives h hfiles
    (g.holds_mono hbound fun bound hb =>
      ⟨hstart, Nat.lt_succ_of_le (Nat.le_trans (Walk.unmarked_le_length files _) hb)⟩) entries
  refine g.holds_mono hcourse ?_
  rintro _ ⟨_, w, hw, rfl⟩
  obtain ⟨added, hfollows⟩ := hw hstart
  refine ⟨?_, hfollows.ordered.before, fun hcycle u v => ?_⟩
  · rw [Resolution.marks, hfollows.grows.files]
    exact hfollows.grows.distinct
  · exact Resolution.before_of_acyclic hfollows.ordered.before hcycle

/-- The guarantee of actions on a state that are started only where the state is `kept`, and leave
it so. -/
def Guarantee.of {σ : Type} (kept : σ → Prop) : Guarantee (StateM σ) where
  holds x P := ∀ s, kept s → P (x s).1 ∧ kept (x s).2
  holds_pure ha _ hs := ⟨ha, hs⟩
  holds_bind hx hf s hs := by
    obtain ⟨ha, hs⟩ := hx s hs
    exact hf _ ha _ hs

/-- Over services with finitely many files dependencies come first, in either case mode and whatever
else the services answer: a file that is asked for stands before the one that asks, unless it leads
back to it. -/
theorem directives_dependencies_first {σ : Type} {kept : σ → Prop} {services : Services (StateM σ)}
    (hkeeps : services.Keeps (.of kept) fun _ => True) {files : List Path}
    (hfiles : ∀ p s, kept s → (services.fileExists p s).1 = true → p ∈ files)
    (hbound : ∀ s, kept s → files.length ≤ (services.pathBound s).1) (entries : List Path)
    (caseSensitive : Bool) {s : σ} (hs : kept s) :
    Resolution.DependenciesFirst caseSensitive
      (Resolver.directives entries services caseSensitive s).1 := by
  have hexists : ∀ p, (Guarantee.of kept).holds (services.fileExists p) fun there =>
      there = true → p ∈ files := fun p s hs => ⟨hfiles p s hs, (hkeeps.fileExists p s hs).2⟩
  have hdepth : (Guarantee.of kept).holds services.pathBound fun bound => files.length ≤ bound :=
    fun s hs => ⟨hbound s hs, (hkeeps.pathBound s hs).2⟩
  exact (holds_dependenciesFirst hkeeps hexists hdepth entries caseSensitive s hs).1

theorem keeps_counted (answers : Services Id) :
    answers.counted.Keeps (.of fun _ => True) fun _ => True where
  fileExists _ _ _ := ⟨trivial, trivial⟩
  directoryExists _ _ _ := ⟨trivial, trivial⟩
  parentDirectory _ _ _ := ⟨trivial, trivial⟩
  resolve _ _ _ _ := ⟨trivial, trivial⟩
  sourceText _ _ _ := ⟨trivial, trivial⟩
  pathBound _ _ := ⟨trivial, trivial⟩

/-- A cycle of two files that both sides of a fork ask for. -/
def fork : List (Path × Text) :=
  [("/a.ts".toList, "import './b'\nimport './c'".toList),
    ("/b.ts".toList, "import './D'".toList), ("/c.ts".toList, "import './d'".toList),
    ("/D.ts".toList, "/// <reference path=\"B.ts\"/>".toList)]

/-- The cycle is entered at its second file, which then stands last of the two. -/
theorem directives_dependencies_first_fork :
    let r := (Resolver.directives ["a.ts".toList] (Services.ofTable fork).counted false 0).1
    r.paths = ["/D.ts".toList, "/b.ts".toList, "/c.ts".toList, "/a.ts".toList] ∧
      r.DependenciesFirst false :=
  ⟨by decide +kernel, directives_dependencies_first (keeps_counted (.ofTable fork))
    (fun _ _ _ h => mem_of_fileExists_ofTable h) (fun _ _ => Nat.le_refl 4) ["a.ts".toList] false
    trivial⟩

end BatchCompile
