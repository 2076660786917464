import KeyedStore.Backend.Memory
import KeyedStore.CommandLine.Client
import KeyedStore.Engine
import KeyedStore.Service.Address
import KeyedStore.Service.Connection

/-!
# The server

Reads the settings from the arguments, checks them, opens what the values are kept in, and listens.
-/

namespace KeyedStore.CommandLine.Server

/-- What the arguments ask for: settings, and whether the values are kept in memory only. -/
structure Request where
  config : Config
  inMemory : Bool
deriving DecidableEq, Repr

/-- The number of 64 bits that a text stands for. -/
def size? (text : String) : Option Nat := Decimal.decode? (Bytes.bound 8) (Utf8.encode text)

def textOption (name : String) (letter : Char) : Opt :=
  { name, letter := some letter, action := .take fun _ => true }

def sizeOption (name : String) (letter : Char) : Opt :=
  { name, letter := some letter, action := .take fun text => (size? text).isSome }

def grammar : Grammar where
  options := [textOption "data-dir" 'd', textOption "listen" 'l', sizeOption "max-connections" 'm',
    sizeOption "threads" 't', sizeOption "item-buf-size" 'b', sizeOption "memtable-mb" 'M',
    { name := "in-memory", action := .switch },
    { name := "verbose", letter := some 'v', action := .count }, helpOption,
    { name := "version", letter := some 'V', action := .inform }]

/-- Mebibytes as bytes, whose number must fit 64 bits. -/
def mebibytes (n : Nat) : Except Interruption Nat :=
  if n * 1024 * 1024 < Bytes.bound 8 then .ok (n * 1024 * 1024) else .error .overflow

def readArguments (arguments : List String) : Except Interruption Request := do
  let parsed ← grammar.parse arguments
  let defaults : Config := {}
  let number (name : String) (default : Nat) : Nat :=
    ((parsed.value? name).bind size?).getD default
  return {
    config :=
      { defaults with
        dataDir := (parsed.value? "data-dir").getD defaults.dataDir
        listenAddress := (parsed.value? "listen").getD defaults.listenAddress
        maxConnections := number "max-connections" defaults.maxConnections
        workers := number "threads" defaults.workers
        itemBufferSize := number "item-buf-size" defaults.itemBufferSize
        memtableLimit := ← mebibytes (number "memtable-mb" 64)
        verbosity := .ofNat (min (parsed.times "verbose") 255) }
    inMemory := (parsed.times "in-memory") ≠ 0 }

/-- What the values of a service are kept in. -/
inductive Kept where
  | memory (m : Memory)
  | engine (e : Engine)

/-- Opens what the values are to be kept in. -/
def openKept (request : Request) : DiskM Kept := do
  if request.inMemory then return .memory {}
  return .engine (← Engine.openAt (Path.ofText request.config.dataDir) request.config)

/-- Checks the settings and opens what they ask for, ready to listen. -/
def prepare (request : Request) : DiskM Kept := do
  liftResult request.config.validate
  let kept ← openKept request
  liftResult (Address.check request.config.listenAddress)
  return kept

/-- What became of a start: the server listens with what it keeps, or it ended. -/
inductive Start where
  | listening (config : Config) (kept : Kept)
  | ended (code : Nat)

/-- The store in front of what a server keeps its values in. -/
def storeOver {β : Type} (config : Config) (backend : β) : Store β :=
  { pool := .empty config.itemBufferSize, backend }

/-- Puts everything that an engine still holds in memory on its disk; gives the code that the server
ends with. -/
def finish (s : Engine × Disk) : Nat × Disk :=
  match Engine.close s with
  | .ok _ (_, d) => (0, d)
  | .error _ (_, d) => (1, d)

def start (arguments : List String) : StateM Disk Start := fun d =>
  match readArguments arguments with
  | .error why => (.ended why.outcome.code, d)
  | .ok request =>
    match prepare request d with
    | .ok kept d => (.listening request.config kept, d)
    | .error _ d => (.ended 1, d)

end KeyedStore.CommandLine.Server
