import ArcRelay.Access.Store
import ArcRelay.Lib.Json

/-!
# JSON-RPC messages

The messages of the protocol (`internal/mcp/protocol.go`), how the relay decodes them, and
the two ways to read off the endpoint a message names.  The relay decodes the parameters
into a record (`extractEndpointName` in `internal/server/http.go`), so a key counts up to
letter case and the last one wins; a server that follows the standard looks up the member
with exactly the key `name` or `uri` (`Message.endpoint`).
-/

namespace ArcRelay.Mcp

open Access Json Option

structure Request where
  jsonrpc : String
  id : Option Bytes
  method : String
  params : Option Bytes
  deriving DecidableEq

/-- A request without an id. -/
structure Notification where
  jsonrpc : String
  method : String
  params : Option Bytes

structure Message where
  method : String
  params : Option Bytes
  deriving DecidableEq

def Request.message (r : Request) : Message := ⟨r.method, r.params⟩

def Notification.message (n : Notification) : Message := ⟨n.method, n.params⟩

def decodeRequest (ms : List (String × Bytes)) : Option Request :=
  let (jsonrpc, okJsonrpc) := stringField "jsonrpc" ms
  let (method, okMethod) := stringField "method" ms
  if okJsonrpc && okMethod then
    some ⟨jsonrpc, rawField "id" ms, method, rawField "params" ms⟩
  else none

/-- Decodes a notification.  The caller ignores the error, so a field of the wrong kind
keeps what was decoded before it. -/
def decodeNotification (ms : List (String × Bytes)) : Notification :=
  ⟨(stringField "jsonrpc" ms).1, (stringField "method" ms).1, rawField "params" ms⟩

/-- The methods that name an endpoint, the type of the endpoint, and the parameter that
names it. -/
def endpointKey (method : String) : Option (EndpointType × String) :=
  if method = "tools/call" then some (.tool, "name")
  else if method = "resources/read" then some (.resource, "uri")
  else if method = "prompts/get" then some (.prompt, "name")
  else none

def decodeName (key : String) (params : Option Bytes) : String :=
  match params.bind members with
  | some ms => if (stringField key ms).2 then (stringField key ms).1 else ""
  | none => ""

/-- The endpoint the relay sees in a message; its name is empty when there is none to be
seen. -/
def extractEndpointName (m : Message) : Option Endpoint :=
  (endpointKey m.method).map fun (type, key) => ⟨type, decodeName key m.params⟩

def Message.endpoint (m : Message) : Option Endpoint := do
  let (type, key) ← endpointKey m.method
  let params ← m.params
  let ms ← members params
  let value ← exactField key ms
  let name ← stringOf value
  pure ⟨type, name⟩

end ArcRelay.Mcp
