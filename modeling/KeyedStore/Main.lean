import KeyedStore.CommandLine.Server

/-!
# The programs

The server answers the client on its standard streams. It keeps its values for as long as it runs.
The client has no network and reports that.
-/

namespace KeyedStore.CommandLine

def Outcome.show (o : Outcome) : IO UInt32 := do
  (← IO.getStdout).putStr o.out
  (← IO.getStderr).putStr o.err
  return .ofNat o.code

def runClient (arguments : List String) : IO UInt32 := do
  match Client.readArguments arguments with
  | .error why => why.outcome.show
  | .ok request => (Client.exchange request (.error .networkUnreachable)).2.show

/-- Answers the commands on the standard input, each as soon as it has arrived. -/
partial def converse {β : Type} [Backend β] (c : Connection) (s : Store β) : IO (Store β) := do
  let (pause, c, s) := match Connection.serve 1 (c, s) with
    | .ok pause (c, s) => (pause, c, s)
    | .error _ (c, s) => (Pause.closed, c, s)
  let output ← IO.getStdout
  output.write ⟨c.sent.toArray⟩
  output.flush
  if pause = .closed then return s
  let c := { c with sent := [] }
  if Frame.ready c.arrived then return ← converse c s
  gather c s
where
  /-- Reads on until a frame has arrived. -/
  gather (c : Connection) (s : Store β) : IO (Store β) := do
    let piece ← (← IO.getStdin).read 8192
    if piece.isEmpty then converse { c with incoming := .ends 0 } s
    else
      let c := c.deliver piece.toList
      if Frame.ready c.arrived then converse c s else gather c s

def runServer (arguments : List String) : IO UInt32 := do
  match Server.start arguments {} with
  | (.ended code, _) => return .ofNat code
  | (.listening config (.memory m), _) =>
    let _ ← converse.gather {} (Server.storeOver config m)
    return 0
  | (.listening config (.engine e), d) =>
    let s ← converse.gather {} (Server.storeOver config (e, d))
    return .ofNat (Server.finish s.backend).1

end KeyedStore.CommandLine

/-- Runs the client or the server. -/
def main (arguments : List String) : IO UInt32 :=
  match arguments with
  | "client" :: rest => KeyedStore.CommandLine.runClient rest
  | "server" :: rest => KeyedStore.CommandLine.runServer rest
  | _ => KeyedStore.CommandLine.Interruption.usage.outcome.show
