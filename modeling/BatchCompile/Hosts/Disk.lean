import BatchCompile.Host

/-!
# Disks

A `Disk` is a tree of named files and directories. `Disk.walk` follows a path from segment to
segment and fails at the first that leads nowhere; `Disk.files` is the file system on a disk for
a program that works in one of its directories.
-/

namespace BatchCompile

/-- A place on a disk: the names that lead to it from the root. -/
abbrev Place := List Text

/-- A file, or a directory and what is in it. -/
inductive Node where
  | file (bytes : List UInt8)
  | directory (entries : List (Text × Node))
  deriving Repr

/-- What a place holds, seen from outside. -/
inductive Entry where
  | file (bytes : List UInt8)
  | directory
  deriving DecidableEq, Repr

namespace Node

def named? (name : Text) (entries : List (Text × Node)) : Option Node :=
  (entries.find? (·.1 = name)).map (·.2)

/-- Gives a name among some entries to a node. -/
def setNamed (name : Text) (node : Node) (entries : List (Text × Node)) : List (Text × Node) :=
  (name, node) :: entries.filter (·.1 ≠ name)

def isDirectory : Node → Bool
  | directory _ => true
  | file _ => false

/-- Changes what is at a place; directories grow on the way to it. -/
def grow (change : Option Node → Node) : Place → Option Node → Node
  | [], node => change node
  | name :: rest, node =>
    let entries := match node with
      | some (directory entries) => entries
      | _ => []
    directory (setNamed name (grow change rest (named? name entries)) entries)

def prune : Place → Node → Node
  | [name], directory entries => directory (entries.filter (·.1 ≠ name))
  | name :: rest, directory entries =>
    match named? name entries with
    | some node => directory (setNamed name (node.prune rest) entries)
    | none => directory entries
  | _, node => node

mutual

/-- The entry at a place that is given last name first, and all below it. -/
def listed (back : Place) : Node → List (Place × Entry)
  | file bytes => [(back.reverse, .file bytes)]
  | directory entries => (back.reverse, .directory) :: listedAll back entries

def listedAll (back : Place) : List (Text × Node) → List (Place × Entry)
  | [] => []
  | (name, node) :: rest => node.listed (name :: back) ++ listedAll back rest

end

end Node

structure Disk where
  root : Node
  deriving Repr

/-- The nodes that a path has passed, the last one first, each with its name. -/
abbrev Trail := List (Text × Node)

namespace Disk

def blank : Disk :=
  ⟨.directory []⟩

def entries (disk : Disk) : List (Place × Entry) :=
  disk.root.listed []

def grow (disk : Disk) (place : Place) (change : Option Node → Node) : Disk :=
  ⟨Node.grow change place (some disk.root)⟩

def putDirectories (disk : Disk) (place : Place) : Disk :=
  disk.grow place fun node => node.getD (.directory [])

def putFile (disk : Disk) (place : Place) (bytes : List UInt8) : Disk :=
  disk.grow place fun _ => .file bytes

def drop (disk : Disk) (place : Place) : Disk :=
  ⟨disk.root.prune place⟩

/-- The most bytes that a name may take. -/
def longestName : Nat := 255

def longestPath : Nat := 4095

def pathFault? (p : Path) : Option SystemError :=
  if p.contains '\x00' then some .nameEnded
  else if p = [] then some .notFound
  else if Text.byteLength p > longestPath then some .nameTooLong
  else none

/-- Whether a segment is a name, and no step within the tree. -/
def isName (segment : Text) : Bool :=
  segment ≠ Path.self && segment ≠ Path.up

def atEnd (disk : Disk) (trail : Trail) : Node :=
  (trail.head?.map (·.2)).getD disk.root

def placeOf (trail : Trail) : Place :=
  (trail.map (·.1)).reverse

/-- What a name leads to in a node. A name that is too long is found out in a directory only. -/
def lookUp (node : Node) (name : Text) : Except SystemError (Option Node) :=
  match node with
  | .file _ => .error .notDirectory
  | .directory entries =>
    if Text.byteLength name > longestName then .error .nameTooLong
    else .ok (Node.named? name entries)

def step (disk : Disk) (trail : Trail) (segment : Text) : Except SystemError Trail := do
  let here := disk.atEnd trail
  if isName segment then
    match ← lookUp here segment with
    | some node => .ok ((segment, node) :: trail)
    | none => .error .notFound
  else if !here.isDirectory then .error .notDirectory
  else .ok (if segment = Path.up then trail.tail else trail)

def walk (disk : Disk) (segments : List Text) : Except SystemError Trail :=
  segments.foldlM disk.step []

structure Way where
  /-- The segments from the root on. -/
  segments : List Text
  /-- The path ends in a slash. -/
  slashed : Bool
  deriving DecidableEq, Repr

/-- The way along a path, for a program that works in a directory. -/
def Way.of (cwd : Place) (p : Path) : Way where
  segments :=
    let own := (Text.split '/' p).filter (· ≠ [])
    if p.head? = some '/' then own else cwd ++ own
  slashed := p.getLast? = some '/'

def find (disk : Disk) (cwd : Place) (p : Path) : Except SystemError Node :=
  match pathFault? p with
  | some e => .error e
  | none => do
    let way := Way.of cwd p
    let node := disk.atEnd (← disk.walk way.segments)
    if way.slashed && !node.isDirectory then .error .notDirectory else .ok node

/-- The directory that the last segment of a path stands in, and that segment if it is a name. -/
def approach (disk : Disk) (cwd : Place) (p : Path) :
    Except SystemError (Trail × Option Text) :=
  match pathFault? p with
  | some e => .error e
  | none => do
    let segments := (Way.of cwd p).segments
    let trail ← disk.walk segments.dropLast
    if (disk.atEnd trail).isDirectory then .ok (trail, segments.getLast?.filter isName)
    else .error .notDirectory

def read (disk : Disk) (cwd : Place) (p : Path) : Except SystemError (List UInt8) := do
  match ← disk.find cwd p with
  | .file bytes => .ok bytes
  | .directory _ => .error .isDirectory

/-- The disk with a file written. A slash at the end of a path is a claim to a directory. -/
def write (disk : Disk) (cwd : Place) (p : Path) (bytes : List UInt8) :
    Except SystemError Disk := do
  match ← disk.approach cwd p with
  | (_, none) => .error .isDirectory
  | (trail, some name) =>
    if (Way.of cwd p).slashed then .error .isDirectory
    else
      match ← lookUp (disk.atEnd trail) name with
      | some (.directory _) => .error .isDirectory
      | _ => .ok (disk.putFile (placeOf trail ++ [name]) bytes)

def delete (disk : Disk) (cwd : Place) (p : Path) : Except SystemError Disk := do
  match ← disk.approach cwd p with
  | (_, none) => .error .isDirectory
  | (trail, some name) =>
    match ← lookUp (disk.atEnd trail) name with
    | none => .error .notFound
    | some (.directory _) => .error .isDirectory
    | some (.file _) =>
      if (Way.of cwd p).slashed then .error .notDirectory
      else .ok (disk.drop (placeOf trail ++ [name]))

def createDirectory (disk : Disk) (cwd : Place) (p : Path) : Except SystemError Disk := do
  match ← disk.approach cwd p with
  | (_, none) => .error .fileExists
  | (trail, some name) =>
    match ← lookUp (disk.atEnd trail) name with
    | some _ => .error .fileExists
    | none => .ok (disk.putDirectories (placeOf trail ++ [name]))

/-- Goes on with the changed disk, if there is no error. -/
def change (f : Disk → Except SystemError Disk) : StateM Disk (Except SystemError Unit) :=
  fun disk =>
    match f disk with
    | .ok changed => (.ok (), changed)
    | .error e => (.error e, disk)

/-- The file system on a disk, for a program that works in one of its directories. An entry is
reached by two shortest paths at most: one from the root and one from that directory. -/
def files (cwd : Place) : FileSystem (StateM Disk) where
  read p := do pure ((← get).read cwd p)
  write p bytes := change (·.write cwd p bytes)
  delete p := change (·.delete cwd p)
  present p := do pure ((← get).find cwd p).isOk
  isDirectory p := do pure ((((← get).find cwd p).toOption).any Node.isDirectory)
  createDirectory p := change (·.createDirectory cwd p)
  pathBound := do pure (2 * (← get).entries.length)

end Disk

end BatchCompile
