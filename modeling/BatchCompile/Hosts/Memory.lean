import BatchCompile.Host
import BatchCompile.Path.Names

/-!
# A tree of files in memory

`Memory` holds files, directories and what is refused; `Memory.host` is the host on it. Every path
is made absolute first.
-/

namespace BatchCompile

structure Memory where
  files : List (Path × Source)
  directories : List Path
  /-- Files that may not be read. -/
  unreadable : List Path
  /-- Nothing may be written whose path starts like one of these. -/
  unwritable : List Path
  deriving DecidableEq, Repr

namespace Memory

def empty (cwd : Path) : Memory where
  files := []
  directories :=
    let place := Path.resolve cwd [cwd]
    place :: Path.ancestors place
  unreadable := []
  unwritable := []

def file? (tree : Memory) (p : Path) : Option Source :=
  (tree.files.find? (·.1 = p)).map (·.2)

def hasFile (tree : Memory) (p : Path) : Bool :=
  (tree.file? p).isSome

def hasDirectory (tree : Memory) (p : Path) : Bool :=
  tree.directories.contains p

def putFile (tree : Memory) (p : Path) (s : Source) : Memory :=
  { tree with files := (p, s) :: tree.files.filter (·.1 ≠ p) }

def dropFile (tree : Memory) (p : Path) : Memory :=
  { tree with files := tree.files.filter (·.1 ≠ p) }

def putDirectory (tree : Memory) (p : Path) : Memory :=
  if tree.hasDirectory p then tree else { tree with directories := p :: tree.directories }

def putDirectories (tree : Memory) (p : Path) : Memory :=
  (p :: Path.ancestors p).foldl putDirectory tree

def missingParent? (tree : Memory) (p : Path) : Option Path :=
  (Path.dirName p).filter fun parent => !tree.hasDirectory parent

/-- Why a file may not be read, or the file. -/
def read (tree : Memory) (p : Path) : Except Refusal Source :=
  if tree.unreadable.contains p then .error (.permissionDenied p)
  else
    match tree.file? p with
    | some s => .ok s
    | none => .error (.noSuchFile p)

def write (tree : Memory) (p : Path) (s : Source) : Except Refusal Memory :=
  if tree.unwritable.any (·.isPrefixOf p) then .error (.permissionDenied p)
  else if tree.hasDirectory p then .error (.isDirectory p)
  else
    match tree.missingParent? p with
    | some parent => .error (.noSuchDirectory parent)
    | none => .ok (tree.putFile p s)

def delete (tree : Memory) (p : Path) : Except Refusal Memory :=
  if tree.hasFile p then .ok (tree.dropFile p) else .error (.noSuchFile p)

def createDirectory (tree : Memory) (p : Path) : Except Refusal Memory :=
  if tree.hasFile p then .error (.fileExists p)
  else
    match tree.missingParent? p with
    | some parent => .error (.noSuchDirectory parent)
    | none => .ok (tree.putDirectory p)

def refused {α : Type} (r : Refusal) : Except Failure α :=
  .error (.of (.refused r))

/-- Goes on with the changed tree, if nothing is refused. -/
def change (f : Memory → Except Refusal Memory) : StateM Memory (Except Failure Unit) :=
  fun tree =>
    match f tree with
    | .ok changed => (.ok (), changed)
    | .error r => (refused r, tree)

/-- The host on a tree of files. A file is reached by as many absolute paths as the working
directory has characters, at most: one, if the directory is rooted. -/
def host (cwd : Path) : Host (StateM Memory) :=
  let absolute (p : Path) : Path := Path.resolve cwd [p]
  { cwd := cwd
    read := fun p => do
      match (← get).read (absolute p) with
      | .ok s => pure (.ok s)
      | .error r => pure (refused r)
    write := fun p t marked =>
      change (·.write (absolute p) ⟨t, if marked then .utf8 else .none⟩)
    delete := fun p => change (·.delete (absolute p))
    fileExists := fun p => do pure ((← get).hasFile (absolute p))
    directoryExists := fun p => do pure ((← get).hasDirectory (absolute p))
    createDirectory := fun p => change (·.createDirectory (absolute p))
    print := fun _ _ => pure ()
    layout := plainLayout
    pathBound := do pure ((← get).files.length * (cwd.length + 2)) }

end Memory

end BatchCompile
