import KeyedStore.Checksum
import KeyedStore.Error
import KeyedStore.MemTable

/-!
# Journal entries

A journal records the operations on a store in the order in which they were accepted. Each entry
is framed: a sequence number in eight bytes, a checksum and a length in four each, all least
significant first, and the payload. The checksum covers number, length and payload. The payload
holds the operation and the time, and bytes after the time are ignored.
-/

namespace KeyedStore

/-- A logged operation. -/
inductive Operation where
  | put (key value : Bytes)
  | delete (key : Bytes)
deriving DecidableEq, Repr

def MemTable.apply (m : MemTable) : Operation → MemTable
  | .put key value => m.put key value
  | .delete key => m.delete key

namespace Journal

def headerSize : Nat := 16

def maxPayload : Nat := 64 * 1024 * 1024

/-- One logged operation, with its place in the sequence and its time. -/
structure Entry where
  lsn : UInt64
  operation : Operation
  time : UInt64
deriving DecidableEq, Repr

/-! ### Payloads -/

def encodeBlob (bs : Bytes) : Bytes := Bytes.le 8 bs.length ++ bs

/-- Reads a byte string with its length in front. -/
def readBlob? (bs : Bytes) : Option (Bytes × Bytes) :=
  (Bytes.readLE? 8 bs).bind fun (length, rest) => Bytes.split? length rest

def encodePayload (operation : Operation) (time : UInt64) : Bytes :=
  match operation with
  | .put key value =>
    Bytes.le 4 0 ++ (encodeBlob key ++ (encodeBlob value ++ Bytes.le 8 time.toNat))
  | .delete key => Bytes.le 4 1 ++ (encodeBlob key ++ Bytes.le 8 time.toNat)

/-- What follows the tag of a put. -/
def readPut? (bs : Bytes) : Option (Operation × UInt64) := do
  let (key, rest) ← readBlob? bs
  let (value, rest) ← readBlob? rest
  let (time, _) ← Bytes.readLE? 8 rest
  return (.put key value, .ofNat time)

/-- What follows the tag of a deletion. -/
def readDelete? (bs : Bytes) : Option (Operation × UInt64) := do
  let (key, rest) ← readBlob? bs
  let (time, _) ← Bytes.readLE? 8 rest
  return (.delete key, .ofNat time)

/-- The operation and the time that a payload stands for. -/
def decodePayload (payload : Bytes) : Except PayloadFault (Operation × UInt64) :=
  match Bytes.readLE? 4 payload with
  | none => .error .cutShort
  | some (tag, rest) =>
    if tag = 0 then (readPut? rest).elim (.error .cutShort) .ok
    else if tag = 1 then (readDelete? rest).elim (.error .cutShort) .ok
    else .error (.unknownTag tag)

/-! ### Frames -/

def frameChecksum (lsn : UInt64) (payload : Bytes) : UInt32 :=
  Checksum.crc32 (Bytes.le 8 lsn.toNat ++ (Bytes.le 4 payload.length ++ payload))

def encodeFrame (lsn : UInt64) (payload : Bytes) : Bytes :=
  Bytes.le 8 lsn.toNat ++ (Bytes.le 4 (frameChecksum lsn payload).toNat ++
    (Bytes.le 4 payload.length ++ payload))

/-- A frame's header and what follows it. -/
structure Opened where
  lsn : UInt64
  stored : UInt32
  length : Nat
  rest : Bytes

/-- Reads the header at the front of a string. -/
def opened? (bs : Bytes) : Option Opened := do
  let (lsn, rest) ← Bytes.readLE? 8 bs
  let (stored, rest) ← Bytes.readLE? 4 rest
  let (length, rest) ← Bytes.readLE? 4 rest
  return { lsn := .ofNat lsn, stored := .ofNat stored, length, rest }

/-- Checks a payload against the header in front of it and decodes it. -/
def Opened.entry (header : Opened) (payload : Bytes) : Except JournalFault Entry :=
  let computed := frameChecksum header.lsn payload
  if computed ≠ header.stored then .error (.checksum header.lsn header.stored computed)
  else
    match decodePayload payload with
    | .ok (operation, time) => .ok { lsn := header.lsn, operation, time }
    | .error cause => .error (.undecodable cause)

namespace Entry

def payload (e : Entry) : Bytes := encodePayload e.operation e.time

def size (e : Entry) : Nat := headerSize + e.payload.length

def checksum (e : Entry) : UInt32 := frameChecksum e.lsn e.payload

/-- The frame without regard to the limit on its payload. -/
def frame (e : Entry) : Bytes := encodeFrame e.lsn e.payload

def encode (e : Entry) : Except Error Bytes :=
  let payload := e.payload
  if payload.length > maxPayload then .error (.entryTooLarge payload.length maxPayload)
  else .ok (encodeFrame e.lsn payload)

def decode (bs : Bytes) : Except Error Entry :=
  match opened? bs with
  | none => .error (.journal (.headerCut bs.length))
  | some header =>
    let cut : Error := .journal (.payloadCut header.length (bs.length - headerSize))
    if header.length > maxPayload then .error cut
    else
      match Bytes.split? header.length header.rest with
      | none => .error cut
      | some (payload, _) => (header.entry payload).mapError .journal

end Entry

end Journal

end KeyedStore
