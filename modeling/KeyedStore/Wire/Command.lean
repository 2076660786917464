import KeyedStore.Wire.Frame

/-!
# Commands

What a client asks for, and its form as a frame: the tag says what is asked, the payload is the
key, for a SET the flags, the length of the key, the key and the value, and for a PING nothing.
-/

namespace KeyedStore

namespace CommandKind

def code : CommandKind → UInt8
  | get => 1
  | set => 2
  | delete => 3
  | contains => 4
  | ping => 5

def ofCode? (tag : UInt8) : Option CommandKind :=
  if tag = 1 then some .get
  else if tag = 2 then some .set
  else if tag = 3 then some .delete
  else if tag = 4 then some .contains
  else if tag = 5 then some .ping
  else none

end CommandKind

/-- A request of a client. -/
inductive Command where
  | get (key : Bytes)
  | set (key : Bytes) (flags : UInt32) (value : Bytes)
  | delete (key : Bytes)
  | contains (key : Bytes)
  | ping
deriving DecidableEq, Repr

namespace Command

def kind : Command → CommandKind
  | get _ => .get
  | set _ _ _ => .set
  | delete _ => .delete
  | contains _ => .contains
  | ping => .ping

def key? : Command → Option Bytes
  | get key | set key _ _ | delete key | contains key => some key
  | ping => none

def payload : Command → Except Error Bytes
  | get key | delete key | contains key => .ok key
  | set key flags value =>
    if key.length < Bytes.bound 4 then
      .ok (Bytes.be 4 flags.toNat ++ (Bytes.be 4 key.length ++ (key ++ value)))
    else .error (.wire (.setKeyTooLong key.length))
  | ping => .ok []

def encode (c : Command) : Except Error Bytes := do Frame.encode c.kind.code (← c.payload)

/-- A payload that is a key, which may not be empty. -/
def decodeKey (kind : CommandKind) (payload : Bytes) : Except Error Bytes :=
  if payload.isEmpty then .error (.wire (.emptyKey kind)) else .ok payload

def decodeSet (payload : Bytes) : Except Error Command :=
  match (Bytes.readBE? 4 payload).bind fun (flags, rest) =>
      (Bytes.readBE? 4 rest).map fun (length, rest) => (flags, length, rest) with
  | none => .error (.wire .setHeaderCut)
  | some (flags, length, rest) =>
    match Bytes.split? length rest with
    | some (key, value) =>
      if key.isEmpty then .error (.wire (.setKeyLength length rest.length))
      else .ok (.set key (.ofNat flags) value)
    | none => .error (.wire (.setKeyLength length rest.length))

def ofPayload (kind : CommandKind) (payload : Bytes) : Except Error Command :=
  match kind with
  | .get => return .get (← decodeKey kind payload)
  | .delete => return .delete (← decodeKey kind payload)
  | .contains => return .contains (← decodeKey kind payload)
  | .set => decodeSet payload
  | .ping =>
    if payload.isEmpty then .ok .ping else .error (.wire (.pingPayload payload.length))

def decode (bs : Bytes) : Except Error Command := do
  let (tag, payload) ← Frame.decode bs
  match CommandKind.ofCode? tag with
  | some kind => ofPayload kind payload
  | none => throw (.wire (.unknownCommand tag))

/-- Takes one command from the front of a stream. -/
def take (stream : Bytes) : Except Error Command × Bytes := Frame.takeAs decode stream

end Command

end KeyedStore
