import BatchCompile.Hosts.Memory
import BatchCompile.Proofs.Run.Asking

/-!
# Trees

A tree says of each path what is there, and `Host.Shows` what the actions of a host do to the tree
that it shows: asking and printing leave it alone, and writing a file or making a directory adds
just that, or nothing. A tree of files in memory does so (`Memory.shows_host`).
-/

namespace BatchCompile

variable {σ : Type}

structure Tree where
  file? : Path → Option Source
  isDirectory : Path → Prop

namespace Tree

def putFile (t : Tree) (p : Path) (s : Source) : Tree :=
  { t with file? := fun q => if q = p then some s else t.file? q }

def putDirectory (t : Tree) (p : Path) : Tree :=
  { t with isDirectory := fun q => q = p ∨ t.isDirectory q }

def HasRoom (t : Tree) (p : Path) : Prop :=
  ∀ q, Path.dirName p = some q → t.isDirectory q

/-- Everything lies in a directory, and no directory is a file. -/
structure WellFormed (t : Tree) : Prop where
  file : ∀ p, t.file? p ≠ none → t.HasRoom p
  directory : ∀ p, t.isDirectory p → t.HasRoom p
  apart : ∀ p, t.isDirectory p → t.file? p = none

variable {t : Tree} {p : Path}

theorem file?_putFile (t : Tree) (p q : Path) (s : Source) :
    (t.putFile p s).file? q = if q = p then some s else t.file? q := rfl

theorem WellFormed.putFile (h : t.WellFormed) (hp : ¬t.isDirectory p) (hr : t.HasRoom p)
    (s : Source) : (t.putFile p s).WellFormed where
  file q hq := by
    by_cases he : q = p
    · subst he
      exact hr
    · exact h.file q (by rwa [file?_putFile, if_neg he] at hq)
  directory := h.directory
  apart q hq := by
    have hne : q ≠ p := by
      rintro rfl
      exact hp hq
    rw [file?_putFile, if_neg hne]
    exact h.apart q hq

theorem HasRoom.putDirectory {q : Path} (h : t.HasRoom p) : (t.putDirectory q).HasRoom p :=
  fun d hd => .inr (h d hd)

theorem WellFormed.putDirectory (h : t.WellFormed) (hp : t.file? p = none) (hr : t.HasRoom p) :
    (t.putDirectory p).WellFormed where
  file q hq := (h.file q hq).putDirectory
  directory q hq := by
    rcases hq with rfl | hq
    · exact hr.putDirectory
    · exact (h.directory q hq).putDirectory
  apart q hq := by
    rcases hq with rfl | hq
    · exact hp
    · exact h.apart q hq

end Tree

/-- The mark that a file is stored with. -/
def storedMark (marked : Bool) : Mark :=
  if marked then .utf8 else .none

/-- What the actions of a host do to the tree it shows. What fails changes nothing; a file is
written only where there is no directory, a directory is made only where there is no file, and both
only in a directory. -/
structure Host.Shows (h : Host (StateM σ)) (tree : σ → Tree) : Prop where
  steady : ∀ t, h.Steady fun s => tree s = t
  write : ∀ {p text marked s s'}, h.absolute p = p → h.write p text marked s = (.ok (), s') →
    ¬(tree s).isDirectory p ∧ (tree s).HasRoom p ∧
      tree s' = (tree s).putFile p ⟨text, storedMark marked⟩
  write_error : ∀ {p text marked s s' f}, h.absolute p = p →
    h.write p text marked s = (.error f, s') → tree s' = tree s
  createDirectory : ∀ {p s s'}, h.absolute p = p → h.createDirectory p s = (.ok (), s') →
    (tree s).file? p = none ∧ (tree s).HasRoom p ∧ tree s' = (tree s).putDirectory p
  createDirectory_error : ∀ {p s s' f}, h.absolute p = p →
    h.createDirectory p s = (.error f, s') → tree s' = tree s

/-! ## Trees in memory -/

namespace Memory

def tree (m : Memory) : Tree where
  file? := m.file?
  isDirectory p := m.hasDirectory p = true

variable {m m' : Memory} {p : Path} {s : Source}

theorem file?_putFile (q : Path) :
    (m.putFile p s).file? q = if q = p then some s else m.file? q := by
  unfold file? putFile
  by_cases h : q = p
  · simp [h]
  · have hfilter : ∀ files : List (Path × Source),
        (files.filter (·.1 ≠ p)).find? (·.1 = q) = files.find? (·.1 = q) := by
      intro files
      rw [List.find?_filter]
      refine congrArg (List.find? · files) (funext fun e => ?_)
      by_cases he : e.1 = q
      · simp [he, h]
      · simp [he]
    rw [if_neg h, List.find?_cons_of_neg (by simpa using Ne.symm h), hfilter]

theorem hasDirectory_putDirectory (q : Path) :
    (m.putDirectory p).hasDirectory q = true ↔ q = p ∨ m.hasDirectory q = true := by
  unfold putDirectory
  split
  · rename_i hp
    exact ⟨.inr, fun h => h.elim (fun e => e ▸ hp) id⟩
  · simp [hasDirectory]

theorem hasRoom_of_missingParent? (h : m.missingParent? p = none) : m.tree.HasRoom p := by
  intro q hq
  rw [missingParent?, hq] at h
  show m.hasDirectory q = true
  simpa [Option.filter] using h

theorem tree_of_write (h : m.write p s = .ok m') :
    ¬m.tree.isDirectory p ∧ m.tree.HasRoom p ∧ m'.tree = m.tree.putFile p s := by
  unfold write at h
  split at h
  · cases h
  split at h
  · cases h
  rename_i hd
  split at h
  · cases h
  rename_i hparent
  cases h
  refine ⟨hd, hasRoom_of_missingParent? hparent, ?_⟩
  exact congrArg (Tree.mk · _) (funext file?_putFile)

theorem tree_of_createDirectory (h : m.createDirectory p = .ok m') :
    m.tree.file? p = none ∧ m.tree.HasRoom p ∧ m'.tree = m.tree.putDirectory p := by
  unfold createDirectory at h
  split at h
  · cases h
  rename_i hf
  split at h
  · cases h
  rename_i hparent
  cases h
  have hnone : m.file? p = none := by simpa [hasFile] using hf
  refine ⟨hnone, hasRoom_of_missingParent? hparent, ?_⟩
  have hfiles : (m.putDirectory p).file? = m.file? := by
    unfold putDirectory
    split <;> rfl
  have hdirs : (fun q => (m.putDirectory p).hasDirectory q = true) =
      fun q => q = p ∨ m.hasDirectory q = true :=
    funext fun q => propext (hasDirectory_putDirectory q)
  exact congrArg₂ Tree.mk hfiles hdirs

/-- It is enough to look at the files and directories that are listed. -/
theorem wellFormed_of_forall (hf : ∀ e ∈ m.files, m.missingParent? e.1 = none)
    (hd : ∀ d ∈ m.directories, m.missingParent? d = none ∧ m.file? d = none) :
    m.tree.WellFormed := by
  have hlisted : ∀ p, m.tree.isDirectory p → p ∈ m.directories := fun p hp =>
    List.contains_iff_mem.1 hp
  refine ⟨fun p hp => ?_, fun p hp => hasRoom_of_missingParent? (hd p (hlisted p hp)).1,
    fun p hp => (hd p (hlisted p hp)).2⟩
  obtain ⟨s, hs⟩ := Option.ne_none_iff_exists'.1 hp
  obtain ⟨e, he, -⟩ := Option.map_eq_some_iff.1 hs
  have hname : e.1 = p := by simpa using List.find?_some he
  exact hasRoom_of_missingParent? (hname ▸ hf e (List.mem_of_find?_eq_some he))

theorem change_eq (f : Memory → Except Refusal Memory) (m : Memory) :
    (∃ m', f m = .ok m' ∧ change f m = (.ok (), m')) ∨
      ∃ r, f m = .error r ∧ change f m = (refused r, m) := by
  unfold change
  cases f m with
  | ok m' => exact .inl ⟨m', rfl, rfl⟩
  | error r => exact .inr ⟨r, rfl, rfl⟩

theorem read_host (cwd p : Path) (m : Memory) : (host cwd).read p m =
    (match m.read (Path.resolve cwd [p]) with
      | .ok s => .ok s
      | .error r => refused r, m) := by
  show (match m.read (Path.resolve cwd [p]) with
    | .ok s => pure (.ok s)
    | .error r => pure (refused r) : StateM Memory (Except Failure Source)) m = _
  cases m.read (Path.resolve cwd [p]) <;> rfl

theorem steady_of (cwd : Path) (kept : Memory → Prop) : (host cwd).Steady kept where
  read p m hm := by rwa [read_host]
  fileExists _ _ := id
  directoryExists _ _ := id
  pathBound _ := id
  print _ _ _ := id

theorem steady_host (cwd : Path) (t : Tree) : (host cwd).Steady fun m => m.tree = t :=
  steady_of cwd _

theorem shows_host (cwd : Path) : (host cwd).Shows Memory.tree where
  steady := steady_host cwd
  write {p text marked m m'} hp hw := by
    have hw : change (·.write (Path.resolve cwd [p]) ⟨text, storedMark marked⟩) m = (.ok (), m') := hw
    rw [show Path.resolve cwd [p] = p from hp] at hw
    obtain ⟨m₁, hm, he⟩ | ⟨r, -, he⟩ := change_eq (·.write p ⟨text, storedMark marked⟩) m
    · rw [hw] at he
      cases he
      exact tree_of_write hm
    · rw [hw] at he
      cases he
  write_error {p text marked m m' f} hp hw := by
    obtain ⟨m₁, -, he⟩ | ⟨r, -, he⟩ :=
      change_eq (·.write (Path.resolve cwd [p]) ⟨text, storedMark marked⟩) m
    · cases he.symm.trans hw
    · cases he.symm.trans hw
      rfl
  createDirectory {p m m'} hp hc := by
    have hc : change (·.createDirectory (Path.resolve cwd [p])) m = (.ok (), m') := hc
    rw [show Path.resolve cwd [p] = p from hp] at hc
    obtain ⟨m₁, hm, he⟩ | ⟨r, -, he⟩ := change_eq (·.createDirectory p) m
    · rw [hc] at he
      cases he
      exact tree_of_createDirectory hm
    · rw [hc] at he
      cases he
  createDirectory_error {p m m' f} hp hc := by
    obtain ⟨m₁, -, he⟩ | ⟨r, -, he⟩ := change_eq (·.createDirectory (Path.resolve cwd [p])) m
    · cases he.symm.trans hc
    · cases he.symm.trans hc
      rfl

end Memory

end BatchCompile
