import BatchCompile.Program

/-!
# Command line

The program on the machine that runs it.
-/

namespace BatchCompile.Machine

/-- The number of an error; some calls give it with its sign turned. -/
def errorNumber (code : UInt32) : Nat :=
  min code.toNat (-code).toNat

def systemError : IO.Error → SystemError
  | .alreadyExists _ number description
  | .otherError number description
  | .resourceBusy number description
  | .resourceVanished number description
  | .unsupportedOperation number description
  | .hardwareFault number description
  | .unsatisfiedConstraints number description
  | .illegalOperation number description
  | .protocolError number description
  | .timeExpired number description
  | .interrupted _ number description
  | .noFileOrDirectory _ number description
  | .invalidArgument _ number description
  | .permissionDenied _ number description
  | .resourceExhausted _ number description
  | .inappropriateType _ number description
  | .noSuchThing _ number description => .ofNumber (errorNumber number) description
  | .unexpectedEof => .other 0 "end of file"
  | .userError description => .other 0 description

def onFile {α : Type} (p : Path) (action : String → IO α) : IO (Except SystemError α) := do
  if p.contains '\x00' then return .error .nameEnded
  try
    return .ok (← action (String.ofList p))
  catch e =>
    return .error (systemError e)

/-- Opens what has that name, for a look. -/
def tryOpen (p : Path) : IO (Except SystemError Unit) :=
  onFile p fun name => do
    let _ ← IO.FS.Handle.mk name .read

/-- The file system of the machine. A name that may not be opened is there all the same. -/
def files : FileSystem IO where
  read p := onFile p fun name => do return (← IO.FS.readBinFile name).toList
  write p bytes := onFile p fun name => IO.FS.writeBinFile name ⟨bytes.toArray⟩
  delete p := onFile p fun name => IO.FS.removeFile name
  present p := do
    match ← tryOpen p with
    | .ok () => return true
    | .error (.other _ _) => return true
    | .error _ => return false
  isDirectory p := do
    if p = [] then return false
    return (← tryOpen (p ++ ['/'])).isOk
  createDirectory p := onFile p fun name => IO.FS.createDir name
  pathBound := return Nat.pow 2 62

def print (channel : Channel) (t : Text) : IO Unit := do
  let stream ← match channel with
    | .output => IO.getStdout
    | .error => IO.getStderr
  stream.putStr (String.ofList t)
  stream.flush

def surroundings : IO (Surroundings IO) := do
  let cwd := (← IO.currentDir).toString.toList
  let program := (← IO.appPath).toString.toList
  return ⟨files, cwd, (Path.dirName program).getD Path.self, print⟩

def explain (e : UsageError) : IO Nat := do
  print (if e.isRequest then .output else .error) e.text
  return e.status

end BatchCompile.Machine

def main (commandLine : List String) : IO UInt32 := do
  let surroundings ← BatchCompile.Machine.surroundings
  let status ← match ← BatchCompile.program surroundings (commandLine.map String.toList) with
    | .ok status => pure status
    | .error e => BatchCompile.Machine.explain e
  return UInt32.ofNat status
