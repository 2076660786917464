import KeyedStore.Wire.Frame
import KeyedStore.Text.Utf8

/-!
# Responses

What a client is answered: a status and a payload. A GET that finds its key carries the flags in
four bytes, most significant first, and the value; an error carries its text. An absent payload
and an empty one have the same frame, which reads back as absent.
-/

namespace KeyedStore

/-- How a request went. -/
inductive Status where
  | ok
  | notFound
  | error
deriving DecidableEq, Repr

namespace Status

def code : Status → UInt8
  | ok => 0
  | notFound => 1
  | error => 2

def ofCode? (tag : UInt8) : Option Status :=
  if tag = 0 then some .ok
  else if tag = 1 then some .notFound
  else if tag = 2 then some .error
  else none

end Status

/-- An answer to a client. -/
structure Response where
  status : Status
  payload : Option Bytes := none
deriving DecidableEq, Repr

namespace Response

def ofValue (flags : UInt32) (value : Bytes) : Response :=
  { status := .ok, payload := some (Bytes.be 4 flags.toNat ++ value) }

def ofMessage (message : String) : Response :=
  { status := .error, payload := some (Utf8.encode message) }

/-- The flags and the value that a successful answer carries. -/
def value? (r : Response) : Option (UInt32 × Bytes) :=
  match r.status, r.payload with
  | .ok, some payload => (Bytes.readBE? 4 payload).map fun (flags, value) => (.ofNat flags, value)
  | _, _ => none

def encode (r : Response) : Except Error Bytes := Frame.encode r.status.code (r.payload.getD [])

def decode (bs : Bytes) : Except Error Response := do
  let (tag, payload) ← Frame.decode bs
  match Status.ofCode? tag with
  | some status => return { status, payload := if payload.isEmpty then none else some payload }
  | none => throw (.wire (.unknownStatus tag))

/-- Takes one response from the front of a stream. -/
def take (stream : Bytes) : Except Error Response × Bytes := Frame.takeAs decode stream

end Response

end KeyedStore
