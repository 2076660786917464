import KeyedStore.Item.Suffix

/-!
# Settings

Everything that can be set about a store and the service in front of it, with the defaults, and
the check that refuses settings no service can run with.
-/

namespace KeyedStore

def version : String := "0.1.0"

/-- When the journal is forced to the disk. -/
inductive SyncPolicy where
  | everyWrite
  | everyEntries (count : Nat)
deriving DecidableEq, Repr

/-- The settings of a store and of the service in front of it; the timeouts are in milliseconds,
and zero stands for none. -/
structure Config where
  itemBufferSize : Nat := 256
  verbosity : UInt8 := 0
  dataDir : String := "./stashkv_data"
  sync : SyncPolicy := .everyEntries 100
  memtableLimit : Nat := 64 * 1024 * 1024
  listenAddress : String := "127.0.0.1:21201"
  maxConnections : Nat := 1024
  workers : Nat := 4
  readTimeout : Nat := 60000
  writeTimeout : Nat := 5000
deriving DecidableEq, Repr

namespace Config

/-- Refuses settings that no service can run with, naming the first cause. -/
def validate (c : Config) : Except Error Unit :=
  if c.itemBufferSize < Header.smallestItem then
    .error (.config (.itemBufferTooSmall c.itemBufferSize Header.smallestItem))
  else if c.workers = 0 then .error (.config .noWorkers)
  else if c.maxConnections = 0 then .error (.config .noConnections)
  else if c.sync = .everyEntries 0 then .error (.config .noSyncInterval)
  else .ok ()

end Config

end KeyedStore
