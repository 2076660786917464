import KeyedStore.CommandLine.Options
import KeyedStore.Text.Decimal
import KeyedStore.Wire.Command
import KeyedStore.Wire.Response

/-!
# The client

Reads one command from the arguments, sends it to a server, and shows the answer.
-/

namespace KeyedStore.CommandLine

/-- What a program shows and the code that it ends with. -/
structure Outcome where
  code : Nat
  out : String := ""
  err : String := ""
deriving DecidableEq, Repr

/-- The outcome of a program that does not go on. -/
def Interruption.outcome : Interruption → Outcome
  | usage => { code := 2 }
  | information => { code := 0 }
  | overflow => { code := 101 }

namespace Client

/-- What the arguments ask for. -/
structure Request where
  server : String
  command : Command
deriving DecidableEq, Repr

def defaultServer : String := "127.0.0.1:21201"

/-- The flags that a text stands for. A text may have a sign, but only zero can be negative. -/
def flags? (text : String) : Option UInt32 :=
  let digits := match Utf8.encode text with
    | 45 :: 48 :: bs => if bs.all (· = 48) then [48] else []
    | bs => bs
  (Decimal.decode? (Bytes.bound 4) digits).map .ofNat

def outer : Grammar where
  options := [{ name := "server", letter := some 's', action := .take fun _ => true }, helpOption]
  leaves := true

def simple (words : Nat) : Grammar where
  options := [helpOption]
  words

def setting : Grammar where
  options := [helpOption,
    { name := "flags", letter := some 'f', action := .take fun text => (flags? text).isSome }]
  words := 2

/-- A command with a key as its only argument. -/
def keyed (make : Bytes → Command) (arguments : List String) : Except Interruption Command := do
  match (← (simple 1).parse arguments).words with
  | [key] => return make (Utf8.encode key)
  | _ => throw .usage

def readSet (arguments : List String) : Except Interruption Command := do
  let parsed ← setting.parse arguments
  match parsed.words with
  | [value, key] =>
    let flags := ((parsed.value? "flags").bind flags?).getD 0
    return .set (Utf8.encode key) flags (Utf8.encode value)
  | _ => throw .usage

def names : List String := ["get", "set", "del", "exists", "ping", "help"]

def readCommand : List String → Except Interruption Command
  | "get" :: arguments => keyed .get arguments
  | "set" :: arguments => readSet arguments
  | "del" :: arguments => keyed .delete arguments
  | "exists" :: arguments => keyed .contains arguments
  | "ping" :: arguments => do
    let _ ← (simple 0).parse arguments
    return .ping
  | ["help"] => throw .information
  | ["help", name] => throw (if name ∈ names then .information else .usage)
  | _ => throw .usage

def readArguments (arguments : List String) : Except Interruption Request := do
  let parsed ← outer.parse arguments
  return { server := (parsed.value? "server").getD defaultServer
           command := ← readCommand parsed.rest }

def success (command : Command) (response : Response) : String :=
  match command with
  | .get _ =>
    match response.value? with
    | none => ""
    | some (flags, value) =>
      Utf8.lossy value ++ "\n" ++ if flags = 0 then "" else s!"(flags {flags})\n"
  | .contains _ => "(true)\n"
  | .ping => "PONG\n"
  | .set _ _ _ | .delete _ => "OK\n"

/-- What an answer that a key is missing shows. -/
def absent : Command → String
  | .contains _ => "(false)\n"
  | _ => "(nil)\n"

def failure (message : String) : Outcome := { code := 1, err := s!"(error) {message}\n" }

/-- The outcome of a command that a server answered, or could not answer. -/
def finish (command : Command) : Except Error Response → Outcome
  | .error e => failure e.message
  | .ok response =>
    match response.status with
    | .ok => { code := 0, out := success command response }
    | .notFound => { code := 0, out := absent command }
    | .error => failure (Utf8.lossy (response.payload.getD []))

/-- What a client meets at an address: a server that sends back a stream of bytes, or nothing that
it can connect to. -/
abbrev Peer := Except FileFault Bytes

/-- Sends a request and shows the answer: the bytes that were sent, if it came to that, and the
outcome. -/
def exchange (request : Request) (peer : Peer) : Option Bytes × Outcome :=
  match peer with
  | .error fault => (none, finish request.command (.error (.file fault)))
  | .ok stream =>
    match request.command.encode with
    | .error e => (none, finish request.command (.error e))
    | .ok frame => (some frame, finish request.command (Response.take stream).1)

end Client

end KeyedStore.CommandLine
