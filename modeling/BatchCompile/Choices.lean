import BatchCompile.Text.Basic

/-!
# Named choices

Language level, module style and line end of the emitted code, each with the names users write.
Names are read without blanks around them and without regard to ASCII case.
-/

namespace BatchCompile

def choiceName (t : Text) : Text :=
  Text.asciiLower (Text.trim t)

/-- The language level of emitted code. -/
inductive Target where
  | es3
  | es5
  deriving DecidableEq, Repr, Inhabited

def Target.ofName? (name : Text) : Option Target :=
  let name := choiceName name
  if name = "es3" then some .es3
  else if name = "es5" then some .es5
  else none

/-- How emitted modules are loaded: by calls, or by definitions. -/
inductive ModuleKind where
  | commonJs
  | amd
  deriving DecidableEq, Repr, Inhabited

def ModuleKind.ofName? (name : Text) : Option ModuleKind :=
  let name := choiceName name
  if name = "commonjs" ∨ name = "node" then some .commonJs
  else if name = "amd" then some .amd
  else none

inductive NewLine where
  | lf
  | crlf
  deriving DecidableEq, Repr, Inhabited

namespace NewLine

def ofName? (name : Text) : Option NewLine :=
  let name := choiceName name
  if name = "crlf" then some .crlf
  else if name = "lf" then some .lf
  else none

def text : NewLine → Text
  | lf => ['\n']
  | crlf => ['\r', '\n']

end NewLine

end BatchCompile
