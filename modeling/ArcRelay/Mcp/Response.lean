import ArcRelay.Mcp.Enumerate

/-!
# JSON-RPC responses

A response as the relay keeps it (`mcp.Response` in `internal/mcp/protocol.go`), with the id it
answers, and how `encoding/json` decodes it.  Every field is optional for the decoder: a
notification or a request decodes into a response too.
-/

namespace ArcRelay.Mcp

open Json

/-- A response; an absent result is an empty text. -/
structure FullResponse extends Response where
  jsonrpc : String := "2.0"
  id : Option Bytes := none
  errorData : Option Bytes := none
  deriving DecidableEq

/-- What one member does to the pointer to an error: `null` takes it away, and an object is
decoded into the error that is there. -/
def errorMember (acc : Option (RPCError × Option Bytes) × Bool) (m : String × Bytes) :
    Option (RPCError × Option Bytes) × Bool :=
  if matchesField "error" m.1 then
    match parse m.2 with
    | some (.object ms) =>
      let (old, data) := acc.1.getD (⟨0, ""⟩, none)
      let code := ms.foldl (intMember "code") (old.code, true)
      let message := ms.foldl (stringMember "message") (old.message, true)
      (some (⟨code.1, message.1⟩, (rawField "data" ms).or data), acc.2 && code.2 && message.2)
    | some .null => (none, acc.2)
    | _ => (acc.1, false)
  else acc

def decodeResponse (text : Bytes) : Option FullResponse :=
  match members text with
  | none => none
  | some ms =>
    let (jsonrpc, okJsonrpc) := stringField "jsonrpc" ms
    let (error, okError) := ms.foldl errorMember (none, true)
    if okJsonrpc && okError then
      some
        { jsonrpc
          id := rawField "id" ms
          result := (rawField "result" ms).getD []
          error := error.map Prod.fst
          errorData := error.bind Prod.snd }
    else none

def errCodeInternal : ℤ := -32603

def newErrorResponse (id : Option Bytes) (code : ℤ) (message : String) : FullResponse :=
  { id, error := some ⟨code, message⟩ }

end ArcRelay.Mcp
