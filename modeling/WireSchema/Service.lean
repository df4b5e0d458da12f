/-
  WireSchema/Service.lean
  =======================
  **Services.**  A service is a named collection of rpcs; an rpc takes a request
  and gives a response, either of which may be a stream.
-/
import WireSchema.Setting

namespace WireSchema

/-! ### Rpcs -/

structure Rpc where
  name : Name
  documentation : String
  requestType : TypeRef
  responseType : TypeRef
  clientStreaming : Bool
  serverStreaming : Bool
  settings : List Setting
  deriving DecidableEq, Repr

namespace Rpc

/-- Builds an rpc without streams; the name is checked first, then the request
    type, then the response type. -/
def make (name documentation requestType responseType : String) (settings : List Setting) :
    Except SchemaError Rpc := do
  let name ← Name.make name
  let requestType ← TypeRef.make .requestType requestType
  let responseType ← TypeRef.make .responseType responseType
  return {
    name, documentation, requestType, responseType
    clientStreaming := false
    serverStreaming := false
    settings }

def withStreaming (rpc : Rpc) (clientStreaming serverStreaming : Bool) : Rpc :=
  { rpc with clientStreaming, serverStreaming }

end Rpc

/-! ### Services -/

structure Service where
  name : Name
  qualifiedName : String
  documentation : String
  settings : List Setting
  rpcs : List Rpc
  deriving DecidableEq, Repr

namespace Service

def make (name qualifiedName documentation : String) (settings : List Setting)
    (rpcs : List Rpc) : Except SchemaError Service := do
  let name ← Name.make name
  return { name, qualifiedName, documentation, settings, rpcs }

def rpc? (service : Service) (name : String) : Option Rpc :=
  service.rpcs.find? fun rpc => rpc.name.text == name

def addRpc (service : Service) (rpc : Rpc) : Service :=
  { service with rpcs := service.rpcs ++ [rpc] }

end Service

end WireSchema
