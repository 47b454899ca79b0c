import BatchCompile.Options

/-!
# Where artifacts go

Below a destination directory an artifact keeps the place that it had below the working directory,
less the base path. A map that moves away from its source must name it from its new place:
`relocate` puts the name of the first source below a given directory and drops the others; all
else stays as it was.
-/

namespace BatchCompile

/-- The map with its first source below `directory`. A map that lists no source stays as it is
written. -/
def relocate (map : Text) (directory : Path) : Except Failure Text :=
  match Json.Value.read map with
  | .error report => failing .parseMap (.badDocument report)
  | .ok (.object members) =>
    match Json.member? "sources" members with
    | some (.array []) => .ok map
    | some (.array (.string first :: _)) =>
      let source := Path.combine directory (Path.baseName first)
      .ok (Json.Value.object (Json.setMember "sources" (.array [.string source]) members)).text
    | some (.array _) => .error (.of .sourceNotString)
    | _ => .error (.of .noSources)
  | .ok _ => .error (.of .noSources)

/-- Where an artifact of that name goes, seen from the working directory. -/
def destination (cwd : Path) (c : Configuration) (name : Path) : Except Failure Path :=
  match c.singleOutput, c.destination with
  | false, some directory =>
    let way := Path.relative (Path.resolve cwd [cwd]) (Path.resolve cwd [name])
    match c.basePath with
    | none => .ok (Path.resolve cwd [cwd, directory, way])
    | some base =>
      match base.isPrefixOf? way with
      | some rest => .ok (Path.resolve cwd [cwd, directory, rest])
      | none => .error (.of (.outsideBasePath name base))
  | _, _ => .ok name

/-- Whether an artifact is a map that a destination directory moves. -/
def movesMap (c : Configuration) (name place : Path) : Bool :=
  !c.singleOutput && name != place && c.destination.isSome && ".js.map".toList.isSuffixOf name

def placedText (cwd : Path) (c : Configuration) (name place : Path) (text : Text) :
    Except Failure Text :=
  if movesMap c name place then
    let directory := (Path.dirName place).getD place
    let way := Path.relative (Path.resolve cwd [directory]) (Path.resolve cwd [name])
    relocate text ((Path.dirName way).getD Path.self)
  else .ok text

end BatchCompile
