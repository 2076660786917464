import KeyedStore.Focus
import KeyedStore.Service.Answer

/-!
# Connections

One client's connection. It is served in turns: a turn answers commands until its budget is used
up, the client pauses, or the connection ends. What has arrived but was not answered yet is kept
for the next turn, so neither turns nor pauses lose anything. Times are in milliseconds.
-/

namespace KeyedStore

/-- What a client does from now on, each after a time of waiting. -/
inductive Incoming where
  /-- It stays and sends nothing more. -/
  | silence
  /-- It ends its side of the connection. -/
  | ends (wait : Nat)
  /-- It sends a piece, which is never empty. -/
  | sends (wait : Nat) (first : UInt8) (rest : Bytes) (later : Incoming)
deriving Repr

/-- A connection: what has arrived and was not answered yet, what is still to come, and what was
sent back. -/
structure Connection where
  arrived : Bytes := []
  incoming : Incoming := .silence
  sent : Bytes := []
  /-- The longest time that a client may pause; zero stands for no limit. -/
  readTimeout : Nat := 0
  /-- The time since the last answer. -/
  idle : Nat := 0

/-- Why a turn ended. -/
inductive Pause where
  /-- The client is gone, or has paused for too long. -/
  | closed
  /-- Nothing arrived for a while. -/
  | idle
  /-- The budget was used up. -/
  | yield
deriving DecidableEq, Repr

namespace Incoming

/-- What has arrived once a frame can be taken from the front or refused, and what is still to
come; nothing if the client ends the stream or pauses too long inside the frame. -/
def awaitFrame (limit : Option Nat) (arrived : Bytes) (incoming : Incoming) :
    Option (Bytes × Incoming) :=
  if Frame.ready arrived then some (arrived, incoming)
  else
    match incoming with
    | silence => none
    | ends _ => none
    | sends wait first rest later =>
      if limit.any (· ≤ wait) then none else awaitFrame limit (arrived ++ first :: rest) later

end Incoming

namespace Connection

/-- How long a turn waits for the next command. -/
def pollInterval : Nat := 20

def deliver (bs : Bytes) (c : Connection) : Connection := { c with arrived := c.arrived ++ bs }

/-- The connection after a wait in which nothing arrived: it ends when the client has paused for too
long. -/
def pause (later : Incoming) (c : Connection) : Option Pause × Connection :=
  let idle := c.idle + pollInterval
  (some (if c.readTimeout ≠ 0 ∧ c.readTimeout ≤ idle then .closed else .idle),
    { c with incoming := later, idle })

/-- Waits for the first byte of the next command; if none comes, says why. -/
def await (c : Connection) : Option Pause × Connection :=
  if !c.arrived.isEmpty then (none, c)
  else
    match c.incoming with
    | .silence => c.pause .silence
    | .ends wait =>
      if wait < pollInterval then (some .closed, c) else c.pause (.ends (wait - pollInterval))
    | .sends wait first rest later =>
      if wait < pollInterval then (none, { c with arrived := first :: rest, incoming := later })
      else c.pause (.sends (wait - pollInterval) first rest later)

/-- Takes the next command, or the cause of its refusal; nothing if the connection ends inside its
frame. -/
def takeCommand (c : Connection) : Option (Except Error Command) × Connection :=
  let limit := if c.readTimeout = 0 then none else some c.readTimeout
  match c.incoming.awaitFrame limit c.arrived with
  | none => (none, c)
  | some (arrived, incoming) =>
    let (command, rest) := Command.take arrived
    (some command, { c with arrived := rest, incoming })

def reply (frame : Bytes) (c : Connection) : Connection :=
  { c with sent := c.sent ++ frame, idle := 0 }

end Connection

/-- Steps on a connection and the store behind it. -/
abbrev SessionM (β : Type) := EStateM Error (Connection × Store β)

namespace Connection

variable {α β : Type} [Backend β]

def onConnection (m : Connection → α × Connection) : SessionM β α := fun (c, s) =>
  let (a, c) := m c
  .ok a (c, s)

def execute (command : Command) : SessionM β Response := fun (c, s) =>
  let (response, s) := s.answer command
  .ok response (c, s)

/-- Sends a response back. -/
def respond (response : Response) : SessionM β Unit := do
  let frame ← liftResult response.encode
  onConnection fun c => ((), c.reply frame)

/-- One turn: answers at most `budget` commands. A refused frame is answered with its cause, and
ends the connection. -/
def serve : Nat → SessionM β Pause
  | 0 => return .yield
  | budget + 1 => do
    match ← onConnection await with
    | some pause => return pause
    | none =>
      match ← onConnection takeCommand with
      | none => return .closed
      | some (.error e) =>
        let _ ← outcome (respond (.ofMessage e.message))
        throw e
      | some (.ok command) =>
        respond (← execute command)
        serve budget

end Connection

end KeyedStore
