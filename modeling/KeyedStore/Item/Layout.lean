import KeyedStore.Item.Suffix

/-!
# Item layouts

Where the parts of an item lie in its buffer. A layout exists only for a buffer that holds the
whole item which its header describes, so the spans below never reach past the buffer.
-/

namespace KeyedStore

/-- A run of positions: `start` included, `stop` not. -/
structure Span where
  start : Nat
  stop : Nat
deriving DecidableEq, Repr

namespace Span

def slice (s : Span) (bs : Bytes) : Bytes := (bs.drop s.start).take (s.stop - s.start)

/-- Puts `new` in the place of the bytes inside the span. -/
def replace (s : Span) (new bs : Bytes) : Bytes := bs.take s.start ++ new ++ bs.drop s.stop

def length (s : Span) : Nat := s.stop - s.start

end Span

/-- A header known to describe an item that its buffer holds in full. -/
structure Layout where
  header : Header
deriving DecidableEq, Repr

namespace Layout

def total (l : Layout) : Nat := l.header.total

def key (l : Layout) : Span :=
  { start := Header.size, stop := Header.size + l.header.keyLength.toNat }

/-- Where the suffix lies, one separator byte after the key. -/
def suffix (l : Layout) : Span :=
  { start := l.key.stop + 1, stop := l.key.stop + 1 + l.header.suffixLength.toNat }

def data (l : Layout) : Span :=
  { start := l.suffix.stop, stop := l.suffix.stop + l.header.dataLength.toNat }

/-- The layout of the item at the front of a buffer. -/
def parse (buffer : Bytes) : Except Error Layout := do
  let header ← Header.decode buffer
  if header.total > buffer.length then
    throw (.malformedItem (.overrun header.total buffer.length))
  return { header }

end Layout

end KeyedStore
