/-
  WireSchema/File.lean
  ====================
  **Schema files.**  A file holds a path, a package, a dialect, its imports and
  its declarations.  Every part has a default, so an empty file is a value.
-/
import WireSchema.TypeDecl
import WireSchema.Service

namespace WireSchema

/-- The dialect a file is written in. -/
inductive Dialect
  | proto2
  | proto3
  deriving DecidableEq, Repr

/-- The name of a dialect, as a file declares it. -/
def Dialect.text : Dialect → String
  | .proto2 => "proto2"
  | .proto3 => "proto3"

/-- Everything that one schema file declares. -/
structure SchemaFile where
  path : String := ""
  packageName : Option Name := none
  dialect : Option Dialect := none
  imports : List String := []
  publicImports : List String := []
  types : List TypeDecl := []
  services : List Service := []
  extendBlocks : List ExtendBlock := []
  settings : List Setting := []
  deriving DecidableEq, Repr

namespace SchemaFile

def empty : SchemaFile := {}

/-- The file with another package; the empty string clears it. -/
def withPackage (file : SchemaFile) (name : String) : SchemaFile :=
  { file with packageName := (Name.make name).toOption }

/-- Every type of the file, nested ones included, parents before children. -/
def allTypes (file : SchemaFile) : List TypeDecl := TypeDecl.flattenAll file.types

end SchemaFile

end WireSchema
