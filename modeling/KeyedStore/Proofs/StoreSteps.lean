import KeyedStore.Proofs.PoolBuffers
import KeyedStore.Store

/-!
# Steps of a store

What a store does with a backend that answers a read with the value it holds. A look-up gets the value
in the front of its buffer after at most two reads, whatever the buffers of the pool held before, and a
stored item is the image of its key, flags and value.
-/

namespace KeyedStore.Store

variable {β : Type} {s : Store β} {flags : UInt32} {key value : Bytes} {item : Item}

/-! ### Checking an item -/

theorem accept_of_total {layout : Layout} (hlayout : item.layout = .ok layout) (s : Store β) :
    accept item layout.total s = .ok item s := by
  rw [accept, hlayout]
  dsimp only
  rw [if_pos rfl]
  rfl

theorem accept_of_ne {layout : Layout} {length : Nat} (hlayout : item.layout = .ok layout)
    (hlength : layout.total ≠ length) (s : Store β) :
    accept item length s = .error (.malformedItem (.lengthMismatch layout.total length))
      { s with pool := s.pool.reclaim item } := by
  rw [accept, hlayout]
  dsimp only
  rw [if_neg hlength]
  rfl

theorem accept_of_error {e : Error} (hlayout : item.layout = .error e) (length : Nat) (s : Store β) :
    accept item length s = .error e { s with pool := s.pool.reclaim item } := by
  rw [accept, hlayout]
  rfl

theorem accept_image (hf : Item.Fits key value.length) (flags : UInt32) (rest : Bytes) (s : Store β) :
    accept { buffer := Item.image key flags value ++ rest } (Item.image key flags value).length s =
      .ok { buffer := Item.image key flags value ++ rest } s := by
  rw [← hf.total_image flags]
  exact accept_of_total (hf.layout_image flags rest) s

variable [Backend β]

theorem fill_eq {reading : Reading} {b : β}
    (h : Backend.read key item.buffer s.backend = (reading, b)) :
    fill key item s =
      .ok ({ buffer := Bytes.overlay reading.written item.buffer }, reading.outcome)
        { s with backend := b } := by
  rw [fill, h]

/-! ### Reading -/

/-- The backend answers every read of the key with this value and stays as it is. -/
def Reads (s : Store β) (key : Bytes) (value? : Option Bytes) : Prop :=
  ∀ buffer, Backend.read key buffer s.backend = (.ofValue? value? buffer, s.backend)

theorem readInto_of_none (h : s.Reads key none) (retries : Nat) (item : Item) :
    readInto key retries item s = .ok none { s with pool := s.pool.reclaim item } := by
  have hfill := fill_eq (h item.buffer)
  rw [Reading.ofValue?, Bytes.overlay_nil] at hfill
  cases retries <;>
  · rw [readInto, bind_of_ok hfill]
    rfl

theorem readInto_of_fits (h : s.Reads key (some value)) (hfits : value.length ≤ item.buffer.length)
    (retries : Nat) :
    readInto key retries item s =
      (do return some (← accept
        { buffer := value ++ item.buffer.drop value.length } value.length)) s := by
  have hreading : Reading.ofValue? (some value) item.buffer =
      { outcome := .ok (.found value.length), written := value } := by
    rw [Reading.ofValue?, Reading.ofValue, if_neg (Nat.not_lt.2 hfits)]
  have hfill := fill_eq (h item.buffer)
  rw [hreading, Bytes.overlay_of_le hfits] at hfill
  cases retries <;> rw [readInto, bind_of_ok hfill]

theorem readInto_of_small (h : s.Reads key (some value)) (hsmall : item.buffer.length < value.length)
    {pool : Pool} {larger : Item}
    (halloc : Pool.allocRaw value.length (s.pool.reclaim item) = .ok larger pool) (retries : Nat) :
    readInto key (retries + 1) item s = readInto key retries larger { s with pool } := by
  have hreading : Reading.ofValue? (some value) item.buffer =
      { outcome := .ok (.tooSmall value.length) } := by
    rw [Reading.ofValue?, Reading.ofValue, if_pos hsmall]
  have hfill := fill_eq (h item.buffer)
  rw [hreading, Bytes.overlay_nil] at hfill
  have hrelease : release item s = .ok () { s with pool := s.pool.reclaim item } := rfl
  have hpool : onPool (Pool.allocRaw value.length) { s with pool := s.pool.reclaim item } =
      .ok larger { s with pool } := focus_of_ok halloc
  have hlarger : ¬ value.length ≤ item.capacity := Nat.not_le.2 hsmall
  rw [readInto, bind_of_ok hfill]
  dsimp only
  rw [bind_of_ok hrelease, if_neg hlarger, bind_of_ok hpool]

theorem allocRaw_eq {p : Pool} (hp : p.Ready) {total : Nat} (h : p.heap.allocates total) :
    ∃ item p', Pool.allocRaw total p = .ok item p' ∧ total ≤ item.buffer.length ∧ p.Becomes p' := by
  obtain ⟨buffer, p', hobtain, hlength, hp'⟩ := hp.obtain_eq h
  refine ⟨{ buffer }, p', ?_, ?_, hp'⟩
  · rw [Pool.allocRaw, bind_of_ok hobtain]
    rfl
  · rw [hlength]
    exact Nat.le_max_left _ _

/-- A value is looked up with at most two buffers, and is then in the front of the last one. -/
theorem get_of_some (h : s.Reads key (some value)) (hp : s.pool.Ready)
    (hvalue : s.pool.heap.allocates value.length) :
    ∃ rest pool, s.pool.Becomes pool ∧ get key s =
      (do return some (← accept { buffer := value ++ rest } value.length)) { s with pool } := by
  obtain ⟨item, pool, halloc, -, hpool⟩ := allocRaw_eq hp hp.fits
  have hpooled : onPool (Pool.allocRaw s.pool.bufferSize) s = .ok item { s with pool } :=
    focus_of_ok halloc
  rw [get, bind_of_ok (show EStateM.get s = .ok s s from rfl), bind_of_ok hpooled]
  by_cases hfits : value.length ≤ item.buffer.length
  · exact ⟨_, pool, hpool, readInto_of_fits (s := { s with pool }) h hfits _⟩
  · have hreturned := hpool.trans ((hpool.ready hp).reclaim item)
    rw [← hreturned.heap_eq] at hvalue
    obtain ⟨larger, pool', halloc', hlength, hpool'⟩ := allocRaw_eq (hreturned.ready hp) hvalue
    refine ⟨larger.buffer.drop value.length, pool', hreturned.trans hpool', ?_⟩
    rw [maxReads, readInto_of_small (s := { s with pool }) h (Nat.lt_of_not_le hfits) halloc']
    exact readInto_of_fits (s := { s with pool := pool' }) h hlength _

theorem get_of_none (h : s.Reads key none) (hp : s.pool.Uniform) :
    ∃ pool, pool.Uniform ∧ get key s = .ok none { s with pool } := by
  obtain ⟨item, pool, halloc, -, hpool⟩ := allocRaw_eq hp.toReady hp.fits
  have hpooled : onPool (Pool.allocRaw s.pool.bufferSize) s = .ok item { s with pool } :=
    focus_of_ok halloc
  refine ⟨_, (hpool.uniform hp).reclaim item, ?_⟩
  rw [get, bind_of_ok (show EStateM.get s = .ok s s from rfl), bind_of_ok hpooled,
    readInto_of_none (s := { s with pool }) h]

/-- The item under a key is the stored image, with anything behind it. -/
theorem get_of_image (h : s.Reads key (some (Item.image key flags value))) (hp : s.pool.Uniform)
    (hf : Item.Fits key value.length) :
    ∃ rest pool, pool.Uniform ∧ get key s =
      .ok (some { buffer := Item.image key flags value ++ rest }) { s with pool } := by
  have hsize := hp.items (Item.headerOf key flags value.length)
  rw [hf.total_image flags] at hsize
  obtain ⟨rest, pool, hpool, hget⟩ := get_of_some h hp.toReady hsize
  refine ⟨rest, pool, hpool.uniform hp, ?_⟩
  rw [hget, bind_of_ok (accept_image hf flags rest _)]
  rfl

/-! ### Writing -/

/-- What is written is the image of the item, and the buffer that held it is released. -/
theorem set_of_fits (hp : s.pool.Uniform) (hf : Item.Fits key value.length) {b : β}
    (hwrite : Backend.write key (Item.image key flags value) s.backend = .ok () b) :
    ∃ pool, pool.Uniform ∧ set key flags value s = .ok () { pool, backend := b } := by
  obtain ⟨rest, pool, halloc, -, hroom, hpool⟩ := hp.allocFresh hf flags
  have hpooled : onPool (Pool.allocFresh key flags (value.length + Header.terminator.length)) s =
      .ok { buffer := Item.front key flags value.length ++ rest } { s with pool } := focus_of_ok halloc
  have hstore : onBackend (Backend.write key (Item.image key flags value)) { s with pool } =
      .ok () { pool, backend := b } := focus_of_ok hwrite
  have hset := hf.setValue_front flags rest hroom
  generalize rest.drop (value.length + Header.terminator.length) = unused at hset
  have hput : outcome (put key { buffer := Item.image key flags value ++ unused }) { s with pool } =
      .ok (.ok ()) { pool, backend := b } := by
    rw [outcome, put, bind_of_ok (liftResult_of_ok (hf.bytes_image flags unused) _), hstore]
  refine ⟨_, hpool.reclaim { buffer := Item.image key flags value ++ unused }, ?_⟩
  rw [set, bind_of_ok hpooled, hset]
  dsimp only
  rw [bind_of_ok hput]
  rfl

/-- A key that is too long is refused, and nothing changes. -/
theorem set_of_key (h : Header.maxKeyLength < key.length) (flags : UInt32) (value : Bytes)
    (s : Store β) : set key flags value s = .error (.keyTooLong key.length) s := by
  have hpooled : onPool (Pool.allocFresh key flags (value.length + Header.terminator.length)) s =
      .error (.keyTooLong key.length) s := focus_of_error (Pool.allocFresh_of_key h flags _ _)
  rw [set, bind_of_error hpooled]

theorem delete_of_ok {present : Bool} {b : β} (h : Backend.remove key s.backend =
    .ok (if present then .removed else .notFound) b) :
    delete key s = .ok (if present then .deleted else .notFound) { s with backend := b } := by
  have hback : onBackend (Backend.remove key) s =
      .ok (if present then .removed else .notFound) { s with backend := b } := focus_of_ok h
  rw [delete, bind_of_ok hback]
  cases present <;> rfl

end KeyedStore.Store
