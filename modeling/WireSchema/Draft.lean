/-
  WireSchema/Draft.lean
  =====================
  **A file being written.**  A draft is a file together with the message and the
  rpc that are being worked on, if there are any.  A step that needs one that is
  not there is refused and changes nothing.
-/
import WireSchema.Tags
import WireSchema.Codec.File

namespace WireSchema

/-- A file in progress, with the message and the rpc being worked on. -/
structure Draft where
  file : SchemaFile := {}
  message : Option Message := none
  rpc : Option Rpc := none
  deriving DecidableEq, Repr

/-- Why a written file could not be read back: its text is not read as JSON, or its JSON tree is
    no file. -/
inductive ReloadError
  | unreadable (cause : Json.ReadError)
  | refused (cause : DecodeError)
  deriving DecidableEq, Repr

def ReloadError.message : ReloadError → String
  | .unreadable cause => cause.message
  | .refused cause => cause.message

namespace Draft

def empty : Draft := {}

def mapFile (draft : Draft) (change : SchemaFile → SchemaFile) : Draft :=
  { draft with file := change draft.file }

def pushType (draft : Draft) (t : TypeDecl) : Draft :=
  draft.mapFile fun file => { file with types := file.types ++ [t] }

def pushService (draft : Draft) (service : Service) : Draft :=
  draft.mapFile fun file => { file with services := file.services ++ [service] }

def pushExtend (draft : Draft) (extend : ExtendBlock) : Draft :=
  draft.mapFile fun file => { file with extendBlocks := file.extendBlocks ++ [extend] }

def pushSetting (draft : Draft) (setting : Setting) : Draft :=
  draft.mapFile fun file => { file with settings := file.settings ++ [setting] }

/-- Appends the current message to the types of the file. -/
def pushMessage (draft : Draft) : Option Draft :=
  draft.message.map fun message => draft.pushType message.toType

/-- Appends the current rpc to the last service of the file. -/
def pushRpc (draft : Draft) : Option Draft := do
  let rpc ← draft.rpc
  let service ← draft.file.services.getLast?
  return draft.mapFile fun file =>
    { file with services := file.services.dropLast ++ [service.addRpc rpc] }

/-- Checks the tags of the current message, together with the file's extend
    blocks. -/
def checkMessage (draft : Draft) : Option Report :=
  draft.message.map fun message => checkFieldTags message.toMessageCore draft.file.extendBlocks

/-- Writes the file as JSON text and reads it back. -/
def reload (draft : Draft) : Except ReloadError Draft :=
  match Json.read draft.file.encode.compact with
  | .error cause => .error (.unreadable cause)
  | .ok json =>
    match SchemaFile.decode json with
    | .error cause => .error (.refused cause)
    | .ok file => .ok { draft with file }

end Draft

end WireSchema
