import BatchCompile.Proofs.Hosts.Trees
import BatchCompile.Proofs.Path.Anchored
import BatchCompile.Proofs.Run.Acting

/-!
# Outlines

Whether a tree in memory refuses to be changed is decided by its `Outline`: what may not be written,
and which directories and files there are. It does not matter what the files hold. Changes only add
to an outline, and to make directories that are there, or to write a file that is there, adds
nothing.
-/

namespace BatchCompile

open BatchCompile.Path (Anchored resolve_anchored)

/-- A tree in memory, less what its files hold. -/
structure Outline where
  unreadable : List Path
  unwritable : List Path
  isDirectory : Path → Bool
  isFile : Path → Bool

namespace Outline

def putFile (s : Outline) (p : Path) : Outline :=
  { s with isFile := fun q => decide (q = p) || s.isFile q }

def putDirectory (s : Outline) (p : Path) : Outline :=
  { s with isDirectory := fun q => decide (q = p) || s.isDirectory q }

def missingParent? (s : Outline) (p : Path) : Option Path :=
  (Path.dirName p).filter fun parent => !s.isDirectory parent

def writeRefusal? (s : Outline) (p : Path) : Option Refusal :=
  if s.unwritable.any (·.isPrefixOf p) then some (.permissionDenied p)
  else if s.isDirectory p then some (.isDirectory p)
  else (s.missingParent? p).map .noSuchDirectory

def createRefusal? (s : Outline) (p : Path) : Option Refusal :=
  if s.isFile p then some (.fileExists p)
  else (s.missingParent? p).map .noSuchDirectory

/-- What a path lies in is a directory. -/
def HasRoom (s : Outline) (p : Path) : Prop :=
  ∀ q, Path.dirName p = some q → s.isDirectory q = true

def Apart (s : Outline) : Prop :=
  ∀ p, s.isFile p = true → s.isDirectory p = false

structure Grows (s s' : Outline) : Prop where
  unreadable : s'.unreadable = s.unreadable
  unwritable : s'.unwritable = s.unwritable
  directories : ∀ p, s.isDirectory p = true → s'.isDirectory p = true
  files : ∀ p, s.isFile p = true → s'.isFile p = true

variable {s s' s'' : Outline} {p : Path}

theorem Grows.refl (s : Outline) : s.Grows s :=
  ⟨rfl, rfl, fun _ => id, fun _ => id⟩

theorem Grows.trans (h : s.Grows s') (h' : s'.Grows s'') : s.Grows s'' :=
  ⟨h'.unreadable.trans h.unreadable, h'.unwritable.trans h.unwritable,
    fun p hp => h'.directories p (h.directories p hp), fun p hp => h'.files p (h.files p hp)⟩

theorem grows_putFile (s : Outline) (p : Path) : s.Grows (s.putFile p) :=
  ⟨rfl, rfl, fun _ => id, fun _ hq => Bool.or_eq_true_iff.2 (.inr hq)⟩

theorem grows_putDirectory (s : Outline) (p : Path) : s.Grows (s.putDirectory p) :=
  ⟨rfl, rfl, fun _ hq => Bool.or_eq_true_iff.2 (.inr hq), fun _ => id⟩

theorem putFile_eq (h : s.isFile p = true) : s.putFile p = s := by
  have hsame : (fun q => decide (q = p) || s.isFile q) = s.isFile := by
    funext q
    by_cases hq : q = p
    · simp [hq, h]
    · simp [hq]
  rw [putFile, hsame]

theorem missingParent?_eq_none : s.missingParent? p = none ↔ s.HasRoom p := by
  rw [missingParent?, HasRoom]
  cases Path.dirName p <;> simp [Option.filter]

/-- What could be written once can be written again, if it is there and no directory. -/
theorem writeRefusal?_grows (h : s.writeRefusal? p = none) (hg : s.Grows s')
    (hp : s'.isDirectory p = false) : s'.writeRefusal? p = none := by
  unfold writeRefusal? at h ⊢
  rw [hg.unwritable, hp]
  split at h
  · cases h
  rename_i hallowed
  split at h
  · cases h
  have hroom := missingParent?_eq_none.1 (Option.map_eq_none_iff.1 h)
  rw [if_neg hallowed, if_neg Bool.false_ne_true, Option.map_eq_none_iff, missingParent?_eq_none]
  exact fun q hq => hg.directories q (hroom q hq)

end Outline

namespace Memory

def outline (m : Memory) : Outline :=
  ⟨m.unreadable, m.unwritable, m.hasDirectory, m.hasFile⟩

variable (m : Memory) (p : Path)

theorem outline_putFile (s : Source) : (m.putFile p s).outline = m.outline.putFile p := by
  have hfiles : (m.putFile p s).hasFile = fun q => decide (q = p) || m.hasFile q := by
    funext q
    rw [hasFile, file?_putFile]
    by_cases hq : q = p
    · simp [hq]
    · simp [hq, hasFile]
  exact congrArg (Outline.mk m.unreadable m.unwritable m.hasDirectory) hfiles

theorem outline_putDirectory : (m.putDirectory p).outline = m.outline.putDirectory p := by
  have hdirectories : (m.putDirectory p).hasDirectory =
      fun q => decide (q = p) || m.hasDirectory q := by
    funext q
    rw [Bool.eq_iff_iff, hasDirectory_putDirectory]
    simp
  have hrest : (m.putDirectory p).outline =
      { m.outline with isDirectory := (m.putDirectory p).hasDirectory } := by
    unfold putDirectory
    split <;> rfl
  rw [hrest, hdirectories]
  rfl

theorem write_eq (s : Source) : m.write p s =
    (m.outline.writeRefusal? p).elim (.ok (m.putFile p s)) .error := by
  unfold write Outline.writeRefusal?
  show (if m.unwritable.any (·.isPrefixOf p) then _ else if m.hasDirectory p then _ else _) =
    (if m.unwritable.any (·.isPrefixOf p) then _ else if m.hasDirectory p then _ else _ :
      Option Refusal).elim _ _
  split
  · rfl
  split
  · rfl
  show _ = ((m.missingParent? p).map Refusal.noSuchDirectory).elim _ _
  cases m.missingParent? p <;> rfl

theorem createDirectory_eq : m.createDirectory p =
    (m.outline.createRefusal? p).elim (.ok (m.putDirectory p)) .error := by
  unfold createDirectory Outline.createRefusal?
  show (if m.hasFile p then _ else _) = (if m.hasFile p then _ else _ : Option Refusal).elim _ _
  split
  · rfl
  show _ = ((m.missingParent? p).map Refusal.noSuchDirectory).elim _ _
  cases m.missingParent? p <;> rfl

variable {m}

theorem apart_of_wellFormed (h : m.tree.WellFormed) : m.outline.Apart := by
  intro p hp
  rw [Bool.eq_false_iff]
  intro hd
  have hnone : m.file? p = none := h.apart p hd
  have hfile : (m.file? p).isSome = true := hp
  rw [hnone] at hfile
  cases hfile

end Memory

end BatchCompile
