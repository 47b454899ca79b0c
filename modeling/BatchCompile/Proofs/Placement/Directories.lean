import BatchCompile.Proofs.Run.Frame

/-!
# Directories that are made

To make a directory is to make those of its ancestors that are missing, from the top down, and then
the directory itself; or else, if a file is in the way, to do nothing at all
(`ensureDirectory_whole`). The way up passes all that is missing before anything is made, and ends
at a directory, for in a well-formed tree only directories lie above one and above a file.
-/

namespace BatchCompile

open BatchCompile.Path (Anchored ancestors ancestors_of_dirName anchored_normalize dirName rank
  rank_dirName_lt resolve_anchored)

variable {σ : Type}

/-! ## Ancestors -/

namespace Path

variable {p q : Path}

theorem rank_lt_of_mem_ancestors (h : q ∈ ancestors p) : rank q < rank p := by
  fun_induction ancestors p with
  | case1 => cases h
  | case2 p d hd ih =>
    rcases List.mem_cons.1 h with rfl | h
    · exact rank_dirName_lt hd
    · exact Nat.lt_trans (ih h) (rank_dirName_lt hd)

theorem self_notMem_ancestors (p : Path) : p ∉ ancestors p :=
  fun h => Nat.lt_irrefl _ (rank_lt_of_mem_ancestors h)

/-- Of a path and its ancestors each lies in all that come after it. -/
theorem pairwise_ancestors (p : Path) :
    (p :: ancestors p).Pairwise fun inner outer => outer ∈ ancestors inner := by
  fun_induction ancestors p with
  | case1 p => exact List.pairwise_singleton _ p
  | case2 p d hd ih =>
    refine List.pairwise_cons.2 ⟨fun outer houter => ?_, ih⟩
    rwa [ancestors_of_dirName hd]

end Path

/-! ## Trees -/

namespace Tree

variable {t : Tree} {p q : Path}

def putDirectories (t : Tree) (ds : List Path) : Tree :=
  { t with isDirectory := fun q => q ∈ ds ∨ t.isDirectory q }

@[simp] theorem putDirectories_nil (t : Tree) : t.putDirectories [] = t := by
  simp [putDirectories]

theorem putDirectories_cons (t : Tree) (d : Path) (ds : List Path) :
    t.putDirectories (d :: ds) = (t.putDirectories ds).putDirectory d := by
  simp [putDirectories, putDirectory, or_assoc]

theorem putDirectories_append {ds there : List Path} (h : ∀ q ∈ there, t.isDirectory q) :
    t.putDirectories (ds ++ there) = t.putDirectories ds := by
  unfold putDirectories
  congr 1
  funext q
  simp only [List.mem_append, eq_iff_iff]
  constructor
  · rintro ((hq | hq) | hq)
    · exact .inl hq
    · exact .inr (h q hq)
    · exact .inr hq
  · exact Or.imp_left .inl

theorem isDirectory_putDirectories {ds missing there : List Path} (hds : ds = missing ++ there)
    (hthere : ∀ q ∈ there, t.isDirectory q) (hp : p ∈ ds) :
    (t.putDirectories missing).isDirectory p :=
  (List.mem_append.1 (hds ▸ hp)).imp_right (hthere p)

theorem WellFormed.isDirectory_of_mem_ancestors (h : t.WellFormed) (hp : t.isDirectory p)
    (hq : q ∈ ancestors p) : t.isDirectory q := by
  fun_induction ancestors p with
  | case1 => cases hq
  | case2 p d hd ih =>
    have hdirectory := h.directory p hp d hd
    rcases List.mem_cons.1 hq with rfl | hq
    · exact hdirectory
    · exact ih hdirectory hq

end Tree

/-! ## Hosts that make directories -/

/-- A host tells which directories there are, and elsewhere which files, and it makes a directory
that is missing where what it lies in is a directory and no file is in the way. -/
structure Host.MakesDirectories (h : Host (StateM σ)) (tree : σ → Tree) : Prop where
  directoryExists : ∀ {p there s s'}, h.absolute p = p → h.directoryExists p s = (there, s') →
    (there = true ↔ (tree s).isDirectory p) ∧ tree s' = tree s
  fileExists : ∀ {p isFile s s'}, h.absolute p = p → ¬(tree s).isDirectory p →
    h.fileExists p s = (isFile, s') →
    (isFile = true ↔ (tree s).file? p ≠ none) ∧ tree s' = tree s
  createDirectory : ∀ {p parent s}, h.absolute p = p → dirName p = some parent →
    (tree s).isDirectory parent → ¬(tree s).isDirectory p → (tree s).file? p = none →
    ∃ s', h.createDirectory p s = (.ok (), s') ∧ tree s' = (tree s).putDirectory p

theorem Memory.makesDirectories_host (cwd : Path) : (host cwd).MakesDirectories Memory.tree where
  directoryExists {p there m m'} hp he := by
    have he : (m.hasDirectory (Path.resolve cwd [p]), m) = (there, m') := he
    rw [show Path.resolve cwd [p] = p from hp] at he
    cases he
    exact ⟨Iff.rfl, rfl⟩
  fileExists {p isFile m m'} hp _ he := by
    have he : (m.hasFile (Path.resolve cwd [p]), m) = (isFile, m') := he
    rw [show Path.resolve cwd [p] = p from hp] at he
    cases he
    exact ⟨Option.isSome_iff_ne_none, rfl⟩
  createDirectory {p parent m} hp hd hparent _ hf := by
    have hroom : m.missingParent? p = none := by
      simp [missingParent?, hd, Option.filter, show m.hasDirectory parent = true from hparent]
    have hmade : m.createDirectory p = .ok (m.putDirectory p) := by
      rw [createDirectory, hasFile, show m.file? p = none from hf, hroom]
      rfl
    refine ⟨m.putDirectory p, ?_, (tree_of_createDirectory hmade).2.2⟩
    show change (·.createDirectory (Path.resolve cwd [p])) m = _
    rw [show Path.resolve cwd [p] = p from hp, change, hmade]

/-! ## Making directories -/

section

variable {h : Host (StateM σ)} {tree : σ → Tree} (hm : h.MakesDirectories tree)

include hm

/-- A directory is there, or a file is in its way, or else it is made after those above it; to find
out changes nothing. -/
theorem ensureChain_step {p : Path} (hp : Anchored p) (above : List Path) (w : Trace σ) :
    ∃ w₁ : Trace σ, w₁.1 = w.1 ∧ tree w₁.2 = tree w.2 ∧
      ((tree w.2).isDirectory p ∧ exec (h.recorded.ensureChain (p :: above)) w = (.ok (), w₁) ∨
      (tree w.2).file? p ≠ none ∧
        exec (h.recorded.ensureChain (p :: above)) w = (.error (.of (.notDirectory p)), w₁) ∨
      ¬(tree w.2).isDirectory p ∧ (tree w.2).file? p = none ∧
        exec (h.recorded.ensureChain (p :: above)) w =
          match exec (h.recorded.ensureChain above) w₁ with
          | (.error f, w₂) => (.error f, w₂)
          | (.ok (), w₂) => exec (h.recorded.createDirectory p) w₂) := by
  have habs := resolve_anchored h.cwd hp
  rw [Host.ensureChain, exec_bind]
  rcases hthere : h.directoryExists p w.2 with ⟨there, s₁⟩
  have he₁ : exec (h.recorded.directoryExists p) w = (there, w.1, s₁) :=
    congrArg (fun o => (o.1, w.1, o.2)) hthere
  obtain ⟨hthere, ht₁⟩ := hm.directoryExists habs hthere
  rw [he₁]
  by_cases hd : (tree w.2).isDirectory p
  · refine ⟨(w.1, s₁), rfl, ht₁, .inl ⟨hd, ?_⟩⟩
    rw [if_pos (hthere.2 hd), exec_pure]
  rw [if_neg (mt hthere.1 hd), exec_bind]
  rcases hfile : h.fileExists p s₁ with ⟨isFile, s₂⟩
  have he₂ : exec (h.recorded.fileExists p) (w.1, s₁) = (isFile, w.1, s₂) :=
    congrArg (fun o => (o.1, w.1, o.2)) hfile
  obtain ⟨hfile, ht₂⟩ := hm.fileExists habs (ht₁ ▸ hd) hfile
  rw [ht₁] at hfile ht₂
  rw [he₂]
  refine ⟨(w.1, s₂), rfl, ht₂, .inr ?_⟩
  by_cases hf : (tree w.2).file? p = none
  · refine .inr ⟨hd, hf, ?_⟩
    rw [if_neg (mt hfile.1 (not_not.2 hf)), exec_bind]
    rcases exec (h.recorded.ensureChain above) (w.1, s₂) with ⟨⟨f⟩ | ⟨⟨⟩⟩, w₃⟩ <;> rfl
  · refine .inl ⟨hf, ?_⟩
    rw [if_pos (hfile.2 hf), exec_pure]

theorem exec_createDirectory {p parent : Path} (hp : Anchored p) (hparent : dirName p = some parent)
    {w : Trace σ} (hr : (tree w.2).isDirectory parent) (hd : ¬(tree w.2).isDirectory p)
    (hf : (tree w.2).file? p = none) :
    ∃ w', exec (h.recorded.createDirectory p) w = (.ok (), w') ∧
      w'.1 = .createDirectory p :: w.1 ∧ tree w'.2 = (tree w.2).putDirectory p := by
  obtain ⟨s', hmade, ht⟩ := hm.createDirectory (resolve_anchored _ hp) hparent hr hd hf
  exact ⟨(.createDirectory p :: w.1, s'),
    congrArg (fun o => (o.1, .createDirectory p :: w.1, o.2)) hmade, rfl, ht⟩

/-- Either a file is in the way and nothing is done, or all that is missing is made, and the rest is
there already. -/
theorem exec_ensureDirectory {p : Path} (hp : Anchored p) {w : Trace σ}
    (hw : (tree w.2).WellFormed)
    (hroot : ∀ q ∈ p :: ancestors p, dirName q = none → (tree w.2).isDirectory q) :
    (∃ q ∈ p :: ancestors p, (tree w.2).file? q ≠ none ∧ ∃ w',
      exec (h.recorded.ensureDirectory p) w = (.error (.of (.notDirectory q)), w') ∧
        w'.1 = w.1 ∧ tree w'.2 = tree w.2) ∨
    (∀ q ∈ p :: ancestors p, (tree w.2).file? q = none) ∧ ∃ missing there w',
      p :: ancestors p = missing ++ there ∧ (∀ q ∈ missing, ¬(tree w.2).isDirectory q) ∧
        (∀ q ∈ there, (tree w.2).isDirectory q) ∧
        exec (h.recorded.ensureDirectory p) w = (.ok (), w') ∧
        w'.1 = missing.map .createDirectory ++ w.1 ∧
        tree w'.2 = (tree w.2).putDirectories missing := by
  induction hn : rank p using Nat.strongRecOn generalizing p w with
  | ind n ih =>
    subst hn
    unfold Host.ensureDirectory at ih ⊢
    obtain ⟨w₁, hj₁, ht₁, ⟨hd, he⟩ | ⟨hf, he⟩ | ⟨hd, hf, he⟩⟩ :=
      ensureChain_step hm hp (ancestors p) w
    · -- all above a directory are directories
      have hall : ∀ q ∈ p :: ancestors p, (tree w.2).isDirectory q := by
        intro q hq
        rcases List.mem_cons.1 hq with rfl | hq
        · exact hd
        · exact hw.isDirectory_of_mem_ancestors hd hq
      refine .inr ⟨fun q hq => hw.apart q (hall q hq), [], _, w₁, rfl, by simp, hall, he, hj₁, ?_⟩
      rw [ht₁, Tree.putDirectories_nil]
    · exact .inl ⟨p, List.mem_cons_self, hf, w₁, he, hj₁, ht₁⟩
    cases hparent : dirName p with
    | none => exact absurd (hroot p List.mem_cons_self hparent) hd
    | some parent =>
      rw [ancestors_of_dirName hparent] at he hroot ⊢
      rw [← ht₁] at hw hroot
      obtain ⟨q, hq, hqf, w₂, he₂, hj₂, ht₂⟩ | ⟨hfree, missing, there, w₂, hchain, hmissing, hthere,
        he₂, hj₂, ht₂⟩ := ih _ (rank_dirName_lt hparent) (hp.dirName hparent) hw
          (fun q hq => hroot q (List.mem_cons_of_mem _ hq)) rfl
      · rw [he₂] at he
        exact .inl ⟨q, List.mem_cons_of_mem _ hq, ht₁ ▸ hqf, w₂, he, hj₂.trans hj₁, ht₂.trans ht₁⟩
      rw [he₂] at he
      have hr : (tree w₂.2).isDirectory parent := by
        rw [ht₂]
        exact Tree.isDirectory_putDirectories hchain hthere List.mem_cons_self
      have hd₂ : ¬(tree w₂.2).isDirectory p := by
        rw [ht₂, ht₁]
        rintro (hmem | hmem)
        · refine Path.self_notMem_ancestors p ?_
          rw [ancestors_of_dirName hparent, hchain]
          exact List.mem_append_left _ hmem
        · exact hd hmem
      have hf₂ : (tree w₂.2).file? p = none := by
        rw [ht₂, ht₁]
        exact hf
      obtain ⟨w₃, he₃, hj₃, ht₃⟩ := exec_createDirectory hm hp hparent hr hd₂ hf₂
      rw [ht₁] at hfree hmissing hthere
      refine .inr ⟨List.forall_mem_cons.2 ⟨hf, hfree⟩, p :: missing, there, w₃, ?_,
        List.forall_mem_cons.2 ⟨hd, hmissing⟩, hthere, he.trans he₃, ?_, ?_⟩
      · rw [hchain, List.cons_append]
      · rw [hj₃, hj₂, hj₁, List.map_cons, List.cons_append]
      · rw [ht₃, ht₂, ht₁, Tree.putDirectories_cons]

/-- To make a directory is all or nothing. It fails iff a file is in the way, and has done nothing
then. Otherwise it makes each directory that is missing once, after those above it, and nothing
else; after that there is nothing left to make. -/
theorem ensureDirectory_whole {d : Path} (hrooted : Path.isRooted d = true)
    (hnormal : Path.normalize d = d) {w : Trace σ} (hw : (tree w.2).WellFormed)
    (hroot : ∀ q ∈ d :: ancestors d, dirName q = none → (tree w.2).isDirectory q) :
    let chain := d :: ancestors d
    let (result, w') := exec (h.recorded.ensureDirectory d) w
    ((∃ f, result = .error f) ↔ ∃ p ∈ chain, (tree w.2).file? p ≠ none) ∧
    (∀ f, result = .error f →
      w'.1 = w.1 ∧ tree w'.2 = tree w.2 ∧
        ∃ p ∈ chain, (tree w.2).file? p ≠ none ∧ f = .of (.notDirectory p)) ∧
    (result = .ok () →
      (∃ made : List Path, w'.1 = made.reverse.map .createDirectory ++ w.1 ∧ made.Nodup ∧
        (∀ p, p ∈ made ↔ p ∈ chain ∧ ¬(tree w.2).isDirectory p) ∧
        made.Pairwise fun outer inner => outer ∈ ancestors inner) ∧
      tree w'.2 = (tree w.2).putDirectories chain ∧
      ∃ w'', exec (h.recorded.ensureDirectory d) w' = (.ok (), w'') ∧
        w''.1 = w'.1 ∧ tree w''.2 = tree w'.2) := by
  have hd : Anchored d := hnormal ▸ anchored_normalize hrooted
  obtain ⟨p, hp, hf, w', he, hj, ht⟩ | ⟨hfree, missing, there, w', hchain, hmissing, hthere, he, hj,
    ht⟩ := exec_ensureDirectory hm hd hw hroot
  · simp only [he]
    refine ⟨iff_of_true ⟨_, rfl⟩ ⟨p, hp, hf⟩, ?_, nofun⟩
    rintro _ ⟨⟩
    exact ⟨hj, ht, p, hp, hf, rfl⟩
  simp only [he]
  refine ⟨iff_of_false nofun fun ⟨p, hp, hf⟩ => hf (hfree p hp), nofun, fun _ => ⟨?_, ?_, ?_⟩⟩
  · have hpairwise := (List.pairwise_append.1 (hchain ▸ Path.pairwise_ancestors d)).1
    have hdown := List.pairwise_reverse.2 hpairwise
    refine ⟨missing.reverse, ?_, hdown.imp ?_, fun p => ?_, hdown⟩
    · rw [List.reverse_reverse, hj]
    · rintro outer _ hmem rfl
      exact Path.self_notMem_ancestors outer hmem
    · rw [List.mem_reverse, hchain, List.mem_append]
      constructor
      · exact fun hp => ⟨.inl hp, hmissing p hp⟩
      · rintro ⟨hp | hp, hnot⟩
        · exact hp
        · exact absurd (hthere p hp) hnot
  · rw [ht, hchain, Tree.putDirectories_append hthere]
  · have hmade : (tree w'.2).isDirectory d := by
      rw [ht]
      exact Tree.isDirectory_putDirectories hchain hthere List.mem_cons_self
    obtain ⟨w'', hj'', ht'', ⟨-, he''⟩ | ⟨hf, -⟩ | ⟨hnot, -⟩⟩ :=
      ensureChain_step hm hd (ancestors d) w'
    · exact ⟨w'', he'', hj'', ht''⟩
    · rw [ht] at hf
      exact absurd (hfree d List.mem_cons_self) hf
    · exact absurd hmade hnot

end

/-- Of four directories the lower two are missing and are made. -/
theorem ensureDirectory_whole_two :
    let d := "/work/out/a".toList
    let (result, w') := exec ((Memory.host "/work".toList).recorded.ensureDirectory d)
      ([], oneSource)
    Path.isRooted d = true ∧ Path.normalize d = d ∧ oneSource.tree.WellFormed ∧
      (∀ q ∈ d :: ancestors d, dirName q = none → oneSource.tree.isDirectory q) ∧
      result = .ok () ∧
      w'.1 = [.createDirectory "/work/out/a".toList, .createDirectory "/work/out".toList] ∧
      w'.2.tree = oneSource.tree.putDirectories (d :: ancestors d) := by
  intro d
  have hwf : oneSource.tree.WellFormed := Memory.wellFormed_of_forall (by decide) (by decide)
  have hroot : ∀ q ∈ d :: ancestors d, dirName q = none → oneSource.hasDirectory q = true := by
    decide +kernel
  have hmade : (exec ((Memory.host "/work".toList).recorded.ensureDirectory d) ([], oneSource)).1 =
        .ok () ∧
      (exec ((Memory.host "/work".toList).recorded.ensureDirectory d) ([], oneSource)).2.1 =
        [.createDirectory "/work/out/a".toList, .createDirectory "/work/out".toList] := by
    decide +kernel
  have hwhole := ensureDirectory_whole (Memory.makesDirectories_host "/work".toList) (d := d)
    (by decide) (by decide) (w := ([], oneSource)) hwf hroot
  generalize exec ((Memory.host "/work".toList).recorded.ensureDirectory d) ([], oneSource) = o
    at hmade hwhole ⊢
  obtain ⟨result, w'⟩ := o
  obtain ⟨-, -, hwhole⟩ := hwhole
  exact ⟨by decide, by decide, hwf, hroot, hmade.1, hmade.2, (hwhole hmade.1).2.1⟩

end BatchCompile
