import KeyedStore.Path
import KeyedStore.Text.Quoted
import KeyedStore.Text.Utf8

/-!
# Errors

Why an operation failed, by cause, and the text that a user is shown. Expected outcomes such as a
missing key are answers and do not occur here. `Error.message` is the only place that words an
error; `Error.kind` names its family.
-/

namespace KeyedStore

/-- Why the bytes of an item were refused. -/
inductive ItemFault where
  | headerCut (held : Nat)
  | badMagic (byte : UInt8)
  | valueTooShort (length : Nat)
  | keyLength (length : Nat)
  | suffixLength (length : Nat)
  | overrun (declared held : Nat)
  | lengthMismatch (declared returned : Nat)
  | badSuffix (suffix : Bytes)
  | suffixTooLong (flags : UInt32) (length : Nat)
deriving DecidableEq, Repr

/-- Why a backend's answer was refused, or the failure that it reported. -/
inductive BackendFault where
  | stillTooSmall (offered required : Nat)
  | notLarger (required offered : Nat)
  | reported (text : String)
deriving DecidableEq, Repr

/-- Why a file or a stream could not be used. -/
inductive FileFault where
  | endOfData
  | notFound
  | alreadyExists
  | notDirectory
  | isDirectory
  | nameTooLong
  | nulInName
  | offsetOutOfRange
  | connectionRefused
  | networkUnreachable
deriving DecidableEq, Repr

/-- Why a journal payload with a matching checksum does not stand for an operation. -/
inductive PayloadFault where
  | cutShort
  | unknownTag (tag : Nat)
deriving DecidableEq, Repr

/-- Why a journal frame was refused. -/
inductive JournalFault where
  | headerCut (held : Nat)
  | payloadCut (declared available : Nat)
  | oversized (offset declared : Nat)
  | checksum (lsn : UInt64) (stored computed : UInt32)
  | undecodable (cause : PayloadFault)
deriving DecidableEq, Repr

/-- Why a table file was refused. -/
inductive TableFault where
  | tooSmall (size : Nat)
  | badMagic (bytes : Bytes)
  | unsupportedVersion (version : Nat)
  | indexOffset (offset : Nat)
  | checksum (stored computed : UInt32)
  | recordCut
  | keyCut
  | countMismatch (counted held : Nat)
deriving DecidableEq, Repr

/-- The two parts of a table entry that have a length. -/
inductive EntryPart where
  | key
  | value
deriving DecidableEq, Repr

/-- Why a table could not be opened or written. -/
inductive StorageFault where
  | table (path : Path) (cause : TableFault)
  | keysOutOfOrder
  | tooLarge (part : EntryPart) (length : Nat)
  | nothingToFlush
deriving DecidableEq, Repr

/-- What a client can ask for. -/
inductive CommandKind where
  | get
  | set
  | delete
  | contains
  | ping
deriving DecidableEq, Repr

/-- Why a frame, or what it carries, was refused. -/
inductive WireFault where
  | payloadTooLarge (length limit : Nat)
  | headerCut (held : Nat)
  | payloadCut (expected held : Nat)
  | unknownCommand (tag : UInt8)
  | unknownStatus (tag : UInt8)
  | emptyKey (command : CommandKind)
  | setHeaderCut
  | setKeyLength (length remaining : Nat)
  | setKeyTooLong (length : Nat)
  | pingPayload (length : Nat)
deriving DecidableEq, Repr

/-- Why an address cannot be listened on. -/
inductive AddressFault where
  | noColon
  | badNumber
  | nulInHost
  | unknownHost
  | noNameServer
  | notAssigned
  | needsInterface
  | noInterface
deriving DecidableEq, Repr

/-- Why settings are refused. -/
inductive ConfigFault where
  | itemBufferTooSmall (size smallest : Nat)
  | noWorkers
  | noConnections
  | noSyncInterval
deriving DecidableEq, Repr

/-- Everything that can go wrong. -/
inductive Error where
  | allocation (size : Nat)
  | malformedItem (cause : ItemFault)
  | valueLength (length : Nat)
  | keyTooLong (length : Nat)
  | backend (cause : BackendFault)
  | file (cause : FileFault)
  | journal (cause : JournalFault)
  | storage (cause : StorageFault)
  | entryTooLarge (length limit : Nat)
  | address (listen : String) (cause : AddressFault)
  | wire (cause : WireFault)
  | config (cause : ConfigFault)
deriving DecidableEq, Repr

def ItemFault.message : ItemFault → String
  | headerCut held => s!"buffer of {held} bytes cannot hold a 8 byte header"
  | badMagic byte => "bad header magic 0x" ++ Hex.padded 2 byte.toNat
  | valueTooShort length => s!"value length {length} is shorter than its terminator"
  | keyLength length => s!"key length {length} out of range"
  | suffixLength length => s!"suffix length {length} out of range"
  | overrun declared held => s!"header declares {declared} bytes but buffer holds {held}"
  | lengthMismatch declared returned =>
    s!"header declares {declared} bytes but backend returned {returned}"
  | badSuffix suffix => "unparseable suffix " ++ Quoted.encode (Utf8.lossy suffix)
  | suffixTooLong flags length => s!"suffix for flags={flags} nbytes={length} exceeds 40 bytes"

def BackendFault.message : BackendFault → String
  | stillTooSmall offered required =>
    s!"value still does not fit after resize ({offered} bytes offered, {required} required)"
  | notLarger required offered => s!"backend asked for {required} bytes but {offered} were offered"
  | reported text => text

def FileFault.message : FileFault → String
  | endOfData => "failed to fill whole buffer"
  | notFound => "No such file or directory (os error 2)"
  | alreadyExists => "File exists (os error 17)"
  | notDirectory => "Not a directory (os error 20)"
  | isDirectory => "Is a directory (os error 21)"
  | nameTooLong => "File name too long (os error 36)"
  | nulInName => "file name contained an unexpected NUL byte"
  | offsetOutOfRange => "Invalid argument (os error 22)"
  | networkUnreachable => "Network is unreachable (os error 101)"
  | connectionRefused => "Connection refused (os error 111)"

/-- A fault in a few words: its sort, without a number. -/
def FileFault.summary : FileFault → String
  | endOfData => "unexpected end of file"
  | notFound => "entity not found"
  | alreadyExists => "entity already exists"
  | notDirectory => "not a directory"
  | isDirectory => "is a directory"
  | nameTooLong => "invalid filename"
  | nulInName | offsetOutOfRange => "invalid input parameter"
  | networkUnreachable => "network unreachable"
  | connectionRefused => "connection refused"

def PayloadFault.message : PayloadFault → String
  | cutShort => "io error: unexpected end of file"
  | unknownTag tag => s!"invalid value: integer `{tag}`, expected variant index 0 <= i < 2"

def JournalFault.message : JournalFault → String
  | headerCut held => s!"frame header truncated: {held} of 16 bytes"
  | payloadCut declared available =>
    s!"frame payload truncated: declared {declared} bytes, {available} available"
  | oversized offset declared => s!"frame at offset {offset} declares {declared} bytes"
  | checksum lsn stored computed =>
    s!"CRC mismatch at lsn {lsn}: stored " ++ Hex.padded 8 stored.toNat ++ ", computed "
      ++ Hex.padded 8 computed.toNat
  | undecodable cause => "undecodable entry: " ++ cause.message

def TableFault.message : TableFault → String
  | tooSmall size => s!"file too small ({size} bytes)"
  | badMagic bytes => "bad magic [" ++ ", ".intercalate (bytes.map fun b => s!"{b}") ++ "]"
  | unsupportedVersion version => s!"unsupported version {version}"
  | indexOffset offset => s!"index offset {offset} out of range"
  | checksum stored computed =>
    "data CRC mismatch: stored " ++ Hex.padded 8 stored.toNat ++ ", computed "
      ++ Hex.padded 8 computed.toNat
  | recordCut => "truncated index record"
  | keyCut => "truncated index key"
  | countMismatch counted held => s!"header counts {counted} entries, index holds {held}"

def EntryPart.name : EntryPart → String
  | key => "key"
  | value => "value"

def StorageFault.message : StorageFault → String
  | table path cause => s!"SSTable {path.text}: {cause.message}"
  | keysOutOfOrder => "SSTable keys must be added in ascending order"
  | tooLarge part length => s!"{part.name} of {length} bytes is too large for an SSTable entry"
  | nothingToFlush => "Cannot flush empty MemTable"

def CommandKind.name : CommandKind → String
  | get => "GET"
  | set => "SET"
  | delete => "DELETE"
  | contains => "EXISTS"
  | ping => "PING"

def WireFault.message : WireFault → String
  | payloadTooLarge length limit => s!"Payload too large: {length} bytes (max {limit})"
  | headerCut held => s!"Incomplete header: expected 5 bytes, got {held}"
  | payloadCut expected held => s!"Incomplete payload: expected {expected} bytes, got {held}"
  | unknownCommand tag => "Unknown command type: 0x" ++ Hex.padded 2 tag.toNat
  | unknownStatus tag => "Unknown response status: 0x" ++ Hex.padded 2 tag.toNat
  | emptyKey command => s!"{command.name} command: empty key"
  | setHeaderCut => "SET command: missing flags or key length"
  | setKeyLength length remaining =>
    s!"SET command: bad key length {length} ({remaining} bytes remain)"
  | setKeyTooLong length => s!"SET command: key of {length} bytes"
  | pingPayload length => s!"PING command: unexpected payload of {length} bytes"

def AddressFault.message : AddressFault → String
  | noColon => "invalid socket address"
  | badNumber => "invalid port value"
  | nulInHost => FileFault.message .nulInName
  | unknownHost => "failed to lookup address information: Name or service not known"
  | noNameServer => "failed to lookup address information: Temporary failure in name resolution"
  | notAssigned => "Cannot assign requested address (os error 99)"
  | needsInterface => "Invalid argument (os error 22)"
  | noInterface => "No such device (os error 19)"

def ConfigFault.message : ConfigFault → String
  | itemBufferTooSmall size smallest =>
    s!"item_buf_size {size} is below the smallest possible item ({smallest} bytes)"
  | noWorkers => "worker_threads must be at least 1"
  | noConnections => "max_connections must be at least 1"
  | noSyncInterval => "WAL sync interval must be at least 1"

namespace Error

/-- The family of an error, as clients name it. -/
def kind : Error → String
  | allocation _ => "Allocation"
  | malformedItem _ => "MalformedItem"
  | valueLength _ => "InvalidValueLength"
  | keyTooLong _ => "KeyTooLong"
  | backend _ => "Engine"
  | file _ => "Io"
  | journal _ => "WalCorruption"
  | storage _ => "Storage"
  | entryTooLarge _ _ => "Serialization"
  | address _ _ => "Network"
  | wire _ => "Protocol"
  | config _ => "Config"

def message : Error → String
  | allocation size => s!"Allocation of {size} bytes failed"
  | malformedItem cause => s!"Malformed item: {cause.message}"
  | valueLength length => s!"Invalid value length {length}: must include the 2-byte terminator"
  | keyTooLong length => s!"Key too long: {length} bytes"
  | backend cause => s!"Engine error: {cause.message}"
  | file cause => s!"IO error: {cause.message}"
  | journal cause => s!"WAL corruption detected: {cause.message}"
  | storage cause => s!"Storage error: {cause.message}"
  | entryTooLarge length limit =>
    s!"Serialization error: WAL entry of {length} bytes exceeds the {limit} byte limit"
  | address listen cause => s!"Network error: failed to bind {listen}: {cause.message}"
  | wire cause => s!"Protocol error: {cause.message}"
  | config cause => s!"Configuration error: {cause.message}"

end Error

end KeyedStore
