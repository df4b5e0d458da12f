/-
  WireSchema/Codec/File.lean
  ==========================
  **Services and files as JSON.**  The package and the dialect of a file may be
  `null`, which is the same as leaving them out; an empty package is refused.
-/
import WireSchema.Codec.TypeDecl
import WireSchema.File
import WireSchema.Json.Printer
import WireSchema.Json.Reader

namespace WireSchema

open Json (Record Members readMember readText readFlag readItems readNullable readString require
  textMember listMember optionMember)

/-! ### Services -/

namespace Rpc

def record : Record where
  title := "Rpc"
  keys := ["name", "documentation", "request_type", "response_type", "client_streaming",
    "server_streaming", "options"]

/-- An rpc as JSON.  Its two flags are written also if they are off. -/
def encode (rpc : Rpc) : Json :=
  .obj ([("name", rpc.name.encode)] ++ textMember "documentation" rpc.documentation ++
    [("request_type", rpc.requestType.encode), ("response_type", rpc.responseType.encode),
      ("client_streaming", .bool rpc.clientStreaming),
      ("server_streaming", .bool rpc.serverStreaming)] ++
    Setting.listMember rpc.settings)

def decodeMembers (members : Members) : Except DecodeError Rpc := do
  let clientStreaming ← readFlag members "client_streaming"
  let documentation ← readText members "documentation"
  let name ← readMember members "name" Name.decode
  let settings ← Setting.decodeList .outside members
  let requestType ← readMember members "request_type" TypeRef.decode
  let responseType ← readMember members "response_type" TypeRef.decode
  let serverStreaming ← readFlag members "server_streaming"
  let name ← require "name" name
  let requestType ← require "request_type" requestType
  let responseType ← require "response_type" responseType
  return {
    name, documentation, requestType, responseType, clientStreaming, serverStreaming, settings }

def decodeElements (members : Members) : Except DecodeError Rpc := do
  let name ← readMember members "name" Name.decode
  let name ← record.require "name" name
  let documentation ← readText members "documentation"
  let requestType ← readMember members "request_type" TypeRef.decode
  let requestType ← record.require "request_type" requestType
  let responseType ← readMember members "response_type" TypeRef.decode
  let responseType ← record.require "response_type" responseType
  let clientStreaming ← readFlag members "client_streaming"
  let serverStreaming ← readFlag members "server_streaming"
  let settings ← Setting.decodeList .outside members
  return {
    name, documentation, requestType, responseType, clientStreaming, serverStreaming, settings }

/-- Reads an rpc. -/
def decode : Json → Except DecodeError Rpc := record.read .outside decodeMembers decodeElements

end Rpc

namespace Service

def record : Record where
  title := "Service"
  keys := ["name", "qualified_name", "documentation", "options", "rpcs"]

/-- A service as JSON, with its rpcs inside. -/
def encode (service : Service) : Json :=
  .obj ([("name", service.name.encode)] ++ textMember "qualified_name" service.qualifiedName ++
    textMember "documentation" service.documentation ++ Setting.listMember service.settings ++
    listMember "rpcs" (service.rpcs.map Rpc.encode))

def decodeMembers (members : Members) : Except DecodeError Service := do
  let documentation ← readText members "documentation"
  let name ← readMember members "name" Name.decode
  let settings ← Setting.decodeList .outside members
  let qualifiedName ← readText members "qualified_name"
  let rpcs ← readItems members "rpcs" Rpc.decode
  let name ← require "name" name
  return { name, qualifiedName, documentation, settings, rpcs }

def decodeElements (members : Members) : Except DecodeError Service := do
  let name ← readMember members "name" Name.decode
  let name ← record.require "name" name
  let qualifiedName ← readText members "qualified_name"
  let documentation ← readText members "documentation"
  let settings ← Setting.decodeList .outside members
  let rpcs ← readItems members "rpcs" Rpc.decode
  return { name, qualifiedName, documentation, settings, rpcs }

/-- Reads a service and the rpcs inside. -/
def decode : Json → Except DecodeError Service :=
  record.read .outside decodeMembers decodeElements

end Service

/-! ### Files -/

namespace Dialect

/-- The two dialects, under the words by which they are rendered too. -/
def choices : List (String × Dialect) :=
  [.proto2, .proto3].map fun dialect : Dialect => (dialect.text, dialect)

def encode (dialect : Dialect) : Json := .str dialect.text

/-- Reads a dialect, which never stands inside a type. -/
def decode : Json → Except DecodeError Dialect := Json.readChoice .outside choices

@[simp] theorem decode_encode (dialect : Dialect) : decode dialect.encode = .ok dialect := by
  cases dialect <;> rfl

end Dialect

namespace SchemaFile

def record : Record where
  title := "ProtoFile"
  keys := ["file_name", "package_name", "syntax", "dependencies", "public_dependencies", "types",
    "services", "extend_declarations", "options"]

/-- A file as JSON.  Each of its members may be left out. -/
def encode (file : SchemaFile) : Json :=
  .obj (textMember "file_name" file.path ++
    optionMember "package_name" (file.packageName.map Name.encode) ++
    optionMember "syntax" (file.dialect.map Dialect.encode) ++
    listMember "dependencies" (file.imports.map Json.str) ++
    listMember "public_dependencies" (file.publicImports.map Json.str) ++
    listMember "types" (file.types.map TypeDecl.encode) ++
    listMember "services" (file.services.map Service.encode) ++
    listMember "extend_declarations" (file.extendBlocks.map ExtendBlock.encode) ++
    Setting.listMember file.settings)

def decodeMembers (members : Members) : Except DecodeError SchemaFile := do
  let imports ← readItems members "dependencies" readString
  let extendBlocks ← readItems members "extend_declarations" ExtendBlock.decode
  let path ← readText members "file_name"
  let settings ← Setting.decodeList .outside members
  let packageName ← readNullable members "package_name" Name.decode
  let publicImports ← readItems members "public_dependencies" readString
  let services ← readItems members "services" Service.decode
  let dialect ← readNullable members "syntax" Dialect.decode
  let types ← readItems members "types" (TypeDecl.decode .outside)
  return {
    path, packageName, dialect, imports, publicImports, types, services, extendBlocks,
    settings }

def decodeElements (members : Members) : Except DecodeError SchemaFile := do
  let path ← readText members "file_name"
  let packageName ← readNullable members "package_name" Name.decode
  let dialect ← readNullable members "syntax" Dialect.decode
  let imports ← readItems members "dependencies" readString
  let publicImports ← readItems members "public_dependencies" readString
  let types ← readItems members "types" (TypeDecl.decode .outside)
  let services ← readItems members "services" Service.decode
  let extendBlocks ← readItems members "extend_declarations" ExtendBlock.decode
  let settings ← Setting.decodeList .outside members
  return {
    path, packageName, dialect, imports, publicImports, types, services, extendBlocks,
    settings }

/-- Reads a file. -/
def decode : Json → Except DecodeError SchemaFile :=
  record.read .outside decodeMembers decodeElements

end SchemaFile

end WireSchema
