import KeyedStore.Store
import KeyedStore.Wire.Command
import KeyedStore.Wire.Response

/-!
# Answering commands

What a store answers to one command. A failure becomes an answer with its text, so every command
has an answer, and every buffer that a command takes is given back before it is answered.
-/

namespace KeyedStore

/-- The payload that answers a PING: `PONG`. -/
def Response.pong : Bytes := [80, 79, 78, 71]

namespace Store

variable {β : Type} [Backend β]

def answerGet (key : Bytes) : EStateM Error (Store β) Response := do
  match ← get key with
  | none => return { status := .notFound }
  | some item =>
    release item
    let flags ← liftResult item.flags
    let value ← liftResult item.value
    return .ofValue flags value

/-- The answer to a command, or the failure of what it asks for. -/
def answer? : Command → EStateM Error (Store β) Response
  | .get key => answerGet key
  | .set key flags value => do
    set key flags value
    return { status := .ok }
  | .delete key => do
    match ← delete key with
    | .deleted => return { status := .ok }
    | .notFound => return { status := .notFound }
  | .contains key => fun s =>
    let (present, s) := contains key s
    .ok { status := if present then .ok else .notFound } s
  | .ping => return { status := .ok, payload := some Response.pong }

def answer (command : Command) : StateM (Store β) Response := fun s =>
  match answer? command s with
  | .ok response s => (response, s)
  | .error e s => (.ofMessage e.message, s)

end Store

end KeyedStore
