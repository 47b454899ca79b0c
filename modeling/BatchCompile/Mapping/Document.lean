import BatchCompile.Json.Value

/-!
# Map documents

The document that tells a debugger which sources a script came from.
-/

namespace BatchCompile

/-- A map of version 3 and its fields in the order in which they are written. -/
structure MapDocument where
  version : Nat
  file : Text
  sourceRoot : Text
  sources : List Text
  names : List Text
  mappings : Text
  deriving DecidableEq, Repr

namespace MapDocument

def of (file : Text) (sources : List Text) (mappings : Text) : MapDocument :=
  ⟨3, file, [], sources, [], mappings⟩

def value (m : MapDocument) : Json.Value :=
  .object [
    ("version", .number (.integer m.version)),
    ("file", .string m.file),
    ("sourceRoot", .string m.sourceRoot),
    ("sources", .array (m.sources.map .string)),
    ("names", .array (m.names.map .string)),
    ("mappings", .string m.mappings)]

def text (m : MapDocument) : Text :=
  m.value.text

end MapDocument

end BatchCompile
