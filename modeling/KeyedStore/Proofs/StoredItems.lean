import Mathlib
import KeyedStore.Backend.Memory
import KeyedStore.Engine
import KeyedStore.Proofs.PoolReturns
import KeyedStore.Proofs.StoreSteps

/-!
# Stored items

A look-up in a store whose backend holds some bytes under a key gives these bytes or nothing. The buffer
that it reads into may hold an earlier item, of which a shorter value leaves the end in place and an empty
value leaves all: but an item is longer than its header, so one that is as long as the value has its
header in the value.
-/

namespace KeyedStore

namespace Header

variable {bs : Bytes} {header : Header}

/-- Only the front of a buffer is read. -/
theorem decode_append (h : size ≤ bs.length) (rest : Bytes) : decode (bs ++ rest) = decode bs := by
  match bs, h with
  | _ :: _ :: _ :: _ :: _ :: _ :: _ :: _ :: _, _ => rfl

theorem size_lt_total (header : Header) : size < header.total := by
  rw [total]
  omega

theorem size_le_of_decode (h : decode bs = .ok header) : size ≤ bs.length := by
  rw [decode.eq_def] at h
  split at h
  · simp only [List.length_cons, size]
    omega
  · contradiction

end Header

namespace Item

variable {value : Bytes}

/-- A value is an item from its first byte to its last. -/
def Whole (value : Bytes) : Prop :=
  ∃ header, Header.decode value = .ok header ∧ header.total = value.length

/-- What stands behind a value in its buffer has no say in whether the value is an item. -/
theorem whole_iff (value rest : Bytes) :
    Whole value ↔ ∃ layout, Layout.parse (value ++ rest) = .ok layout ∧ layout.total = value.length := by
  constructor
  · rintro ⟨header, hdecode, htotal⟩
    have hdecode' : Header.decode (value ++ rest) = .ok header := by
      rw [Header.decode_append (Header.size_le_of_decode hdecode), hdecode]
    refine ⟨{ header }, Layout.parse_eq_ok.2 ⟨hdecode', ?_⟩, htotal⟩
    rw [List.length_append]
    exact Nat.le_trans (Nat.le_of_eq htotal) (Nat.le_add_right _ _)
  · rintro ⟨layout, hparse, htotal⟩
    have hdecode := (Layout.parse_eq_ok.1 hparse).1
    -- The value is as long as the item, so the whole header is in it.
    have hsize : Header.size ≤ value.length := htotal ▸ Nat.le_of_lt layout.header.size_lt_total
    rw [Header.decode_append hsize] at hdecode
    exact ⟨layout.header, hdecode, htotal⟩

end Item

namespace Store

variable {β : Type} {s : Store β} {key value : Bytes}

/-- A look-up gives back a value that is an item, and complains about any other value. -/
inductive Restores (value : Bytes) : EStateM.Result Error (Store β) (Option Item) → Prop where
  | item {item : Item} {s' : Store β} (hwhole : Item.Whole value) (hbytes : item.bytes = .ok value) :
      Restores value (.ok (some item) s')
  | malformed {fault : ItemFault} {s' : Store β} (hpart : ¬ Item.Whole value) :
      Restores value (.error (.malformedItem fault) s')

theorem restores_accept (value rest : Bytes) (s : Store β) :
    Restores value ((do return some (← accept { buffer := value ++ rest } value.length)) s) := by
  have hwhole := Item.whole_iff value rest
  cases hlayout : (Item.layout { buffer := value ++ rest }) with
  | error e =>
    obtain ⟨fault, rfl⟩ := Layout.malformed_of_parse hlayout
    rw [bind_of_error (accept_of_error hlayout _ s)]
    refine .malformed ?_
    rw [hwhole]
    rintro ⟨layout, hparse, -⟩
    have hok : Item.layout { buffer := value ++ rest } = .ok layout := hparse
    rw [hlayout] at hok
    contradiction
  | ok layout =>
    by_cases htotal : layout.total = value.length
    · have hbytes := Item.bytes_of_layout hlayout
      rw [htotal, List.take_left] at hbytes
      rw [← htotal, bind_of_ok (accept_of_total hlayout s)]
      exact .item (hwhole.2 ⟨layout, hlayout, htotal⟩) hbytes
    · rw [bind_of_error (accept_of_ne hlayout htotal s)]
      refine .malformed ?_
      rw [hwhole]
      rintro ⟨layout', hparse, htotal'⟩
      have hok : Item.layout { buffer := value ++ rest } = .ok layout' := hparse
      rw [hlayout] at hok
      cases hok
      exact htotal htotal'

variable [Backend β]

theorem restores_of_reads (h : s.Reads key (some value)) (hp : s.pool.Reachable)
    (hsize : s.pool.heap.allocates s.pool.bufferSize) (hvalue : s.pool.heap.allocates value.length) :
    Restores value (get key s) := by
  obtain ⟨rest, pool, -, hget⟩ := get_of_some h (hp.sound.ready hsize) hvalue
  rw [hget]
  exact restores_accept value rest _

theorem reads_of_memory {s : Store Memory} (h : s.backend.values[key]? = some value) :
    s.Reads key (some value) := by
  intro buffer
  rw [← h]
  rfl

theorem reads_of_engine {s : Store (Engine × Disk)}
    (h : s.backend.1.get? s.backend.2 key = .ok (some value)) : s.Reads key (some value) := by
  intro buffer
  simp only [Backend.read, h]

/-- A look-up never mixes the old contents of a buffer into a value: it gives the value alone if that is
an item, and complains otherwise. -/
theorem get_restores_value (key value : Bytes) :
    (∀ s : Store Memory, s.pool.Reachable → s.pool.heap.allocates s.pool.bufferSize →
      s.pool.heap.allocates value.length → s.backend.values[key]? = some value →
      Restores value (get key s)) ∧
    (∀ s : Store (Engine × Disk), s.pool.Reachable → s.pool.heap.allocates s.pool.bufferSize →
      s.pool.heap.allocates value.length → s.backend.1.get? s.backend.2 key = .ok (some value) →
      Restores value (get key s)) := by
  constructor
  · intro s hp hsize hvalue hstored
    exact restores_of_reads (reads_of_memory hstored) hp hsize hvalue
  · intro s hp hsize hvalue hstored
    exact restores_of_reads (reads_of_engine hstored) hp hsize hvalue

/-- An empty value and an item, each read into a buffer that holds an item already. -/
theorem get_restores_value_of_recycled :
    let image : Bytes :=
      [3, 0, 0, 0, 1, 0, 6, Header.magic, 97, 0, 32, 48, 32, 49, 13, 10, 118, 13, 10]
    let pool := ((Pool.empty image.length 1 1).serve (.release image)).2
    let memory : Memory := { values := (∅ : Std.TreeMap Bytes Bytes).insert [97] [] }
    let engine : Engine :=
      { dir := [], memtableLimit := 1, shelf := { dir := [] }, memtable := MemTable.put {} [97] image,
        journal := { file := 0, position := 0, nextLsn := 1, policy := .everyWrite } }
    pool.buffers = [image] ∧
      memory.values[([97] : Bytes)]? = some [] ∧ Restores [] (get [97] { pool, backend := memory }) ∧
      engine.get? {} [97] = .ok (some image) ∧
      Restores image (get [97] { pool, backend := (engine, ({} : Disk)) }) := by
  intro image pool memory engine
  have hp : pool.Reachable := .serve (.empty _ 1 1) _
  have hmemory : memory.values[([97] : Bytes)]? = some [] := by cbv
  have hengine : engine.get? {} [97] = .ok (some image) := by cbv
  exact ⟨rfl,
    hmemory, (get_restores_value [97] []).1 _ hp rfl rfl hmemory,
    hengine, (get_restores_value [97] image).2 _ hp rfl rfl hengine⟩

end Store

end KeyedStore
