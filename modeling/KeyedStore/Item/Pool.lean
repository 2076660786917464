import KeyedStore.Error
import KeyedStore.Focus

/-!
# Buffer pools

A pool is a bounded stack of buffers of one size. Taking a buffer gives the one that was returned
last, with its old contents, or a new one full of zeros. The number of slots doubles on demand up
to a ceiling, as far as there is memory for them, and never shrinks.
-/

namespace KeyedStore

/-- The largest buffer that there is memory for by default: eight gibibytes, twice what the largest
item needs. -/
def maxAllocation : Nat := 8 * 1024 * 1024 * 1024

/-- The most bytes that an array has. -/
def maxArraySize : Nat := 9223372036854775807

/-- The bytes of an array that a slot for a buffer takes. -/
def slotSize : Nat := 24

/-- What there is memory for: the sizes of which a buffer can be allocated, and the numbers of slots to
which the array of a pool can grow. -/
structure Heap where
  allocates : Nat → Bool := fun size => size ≤ maxAllocation
  reserves : Nat → Bool := fun slots => slots * slotSize ≤ maxArraySize

/-- A new buffer full of zeros. -/
def Heap.allocate (heap : Heap) (size : Nat) : Except Error Bytes :=
  if heap.allocates size then .ok (List.replicate size 0) else .error (.allocation size)

/-- A bounded stack of recycled buffers, the latest first, with their number, and the memory that it
takes new ones from. -/
structure Pool where
  bufferSize : Nat
  buffers : List Bytes := []
  size : Nat := 0
  size_eq : size = buffers.length := by rfl
  capacity : Nat
  ceiling : Nat
  heap : Heap := {}

namespace Pool

/-- The number of slots a pool starts with by default. -/
def defaultSlots : Nat := 500

/-- The number of slots a pool has at most by default. -/
def defaultCeiling : Nat := 4000

/-- An empty pool; it has at least one slot, and never more slots than its ceiling. -/
def empty (bufferSize : Nat) (slots : Nat := defaultSlots) (ceiling : Nat := defaultCeiling)
    (heap : Heap := {}) : Pool where
  bufferSize
  capacity := min (max slots 1) (max ceiling 1)
  ceiling := max ceiling 1
  heap

/-- Takes the buffer on top, or a new one when there is none. -/
def acquire : EStateM Error Pool Bytes := fun p =>
  match h : p.buffers with
  | top :: below =>
    .ok top { p with buffers := below, size := p.size - 1, size_eq := by simp [p.size_eq, h] }
  | [] => liftResult (p.heap.allocate p.bufferSize) p

def push (p : Pool) (buffer : Bytes) : Pool :=
  { p with
    buffers := buffer :: p.buffers
    size := p.size + 1
    size_eq := by simp [p.size_eq] }

/-- Puts a buffer on top, or refuses it: it must have the size of the pool, and there must be a
slot for it, or room and memory for more slots. -/
def release? (p : Pool) (buffer : Bytes) : Option Pool :=
  if buffer.length ≠ p.bufferSize then none
  else if p.size < p.capacity then some (p.push buffer)
  else if p.capacity ≥ p.ceiling then none
  else
    let grown := min (p.capacity * 2) p.ceiling
    if p.heap.reserves grown then some { p.push buffer with capacity := grown } else none

end Pool

end KeyedStore
