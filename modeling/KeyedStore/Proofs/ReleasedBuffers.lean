import KeyedStore.Proofs.PoolReturns

/-!
# Released buffers

A released buffer goes into the pool exactly if it has the size of the pool and the pool has room: it is
below its ceiling, and a slot is free or there is memory for more of them. Any other leaves the pool as it
was. Neither depends on what the buffer holds. A buffer in which an item was made has the size of the pool
exactly if the pool handed it out, so that it goes back there, if anywhere, whatever was written to it.
-/

namespace KeyedStore.Pool

variable {p p' source : Pool} {item : Item} {buffer : Bytes} {total : Nat}

/-- The pool with one more buffer on top, and with a slot for it. -/
def holding (p : Pool) (buffer : Bytes) : Pool :=
  { p.stocked (buffer :: p.buffers) with capacity := p.nextCapacity }

/-- A released buffer goes into the pool under some condition and leaves the pool as it was otherwise. -/
structure Released (p : Pool) (item : Item) (condition : Prop) : Prop where
  pooled_iff : (p.reclaim item).buffers = item.buffer :: p.buffers ↔ condition
  pooled : condition → p.reclaim item = p.holding item.buffer
  dropped : ¬ condition → p.reclaim item = p

theorem Sound.released (hp : p.Sound) (item : Item) :
    p.Released item (item.capacity = p.bufferSize ∧ p.HasRoom) := by
  have hpooled : item.capacity = p.bufferSize ∧ p.HasRoom → p.reclaim item = p.holding item.buffer := by
    rintro ⟨hlength, hroom⟩
    rw [reclaim_eq, hp.release?_eq_some hlength hroom]
    rfl
  have hdropped : ¬ (item.capacity = p.bufferSize ∧ p.HasRoom) → p.reclaim item = p := by
    intro hnot
    rw [reclaim_eq, hp.release?_of_refused (Decidable.not_and_iff_or_not.1 hnot)]
    rfl
  refine ⟨⟨fun h => ?_, fun h => ?_⟩, hpooled, hdropped⟩
  · refine Decidable.byContradiction fun hnot => ?_
    rw [hdropped hnot] at h
    exact List.cons_ne_self _ _ h.symm
  · rw [hpooled h]
    rfl

/-- The header of a released buffer decides what its length alone would decide. -/
theorem reclaim_eq_ite (p : Pool) (item : Item) : p.reclaim item =
    if item.capacity = p.bufferSize then (p.release? item.buffer).getD p else p := by
  split
  · exact p.reclaim_eq item
  · next hlength => exact reclaim_of_ne hlength

/-! ### Where buffers come from -/

/-- An item is made in a buffer, of this pool or beside it. -/
def Makes (p : Pool) (item : Item) (p' : Pool) : Prop :=
  (∃ total, allocRaw total p = .ok item p') ∨
    ∃ key flags dataLength, allocFresh key flags dataLength p = .ok item p'

/-- The buffer of an item is the one that the pool hands out, with something written to its front. -/
def Supplies (p : Pool) (item : Item) (p' : Pool) : Prop :=
  ∃ buffer written, acquire p = .ok buffer p' ∧ item.buffer = Bytes.overlay written buffer

theorem Makes.obtain_eq (h : p.Makes item p') : ∃ total buffer written,
    obtain total p = .ok buffer p' ∧ item.buffer = Bytes.overlay written buffer := by
  rcases h with ⟨total, h⟩ | ⟨key, flags, dataLength, h⟩
  · rw [allocRaw, bind_eq_ok] at h
    obtain ⟨buffer, p₁, hobtain, h⟩ := h
    obtain ⟨rfl, rfl⟩ := pure_eq_ok.1 h
    exact ⟨total, buffer, [], hobtain, (Bytes.overlay_nil buffer).symm⟩
  · rw [allocFresh, bind_eq_ok] at h
    obtain ⟨⟨header, suffix⟩, p₁, hcompute, h⟩ := h
    obtain ⟨-, rfl⟩ := liftResult_eq_ok.1 hcompute
    rw [bind_eq_ok] at h
    obtain ⟨buffer, p₂, hobtain, h⟩ := h
    obtain ⟨rfl, rfl⟩ := pure_eq_ok.1 h
    exact ⟨header.total, buffer, _, hobtain, rfl⟩

theorem obtain_of_le (h : total ≤ p.bufferSize) : obtain total p = acquire p := by
  rw [obtain, get_bind, if_neg (Nat.not_lt.2 h)]

theorem Sound.length_of_acquire (hp : p.Sound) (h : acquire p = .ok buffer p') :
    buffer.length = p.bufferSize := by
  have hstep := hp.step .acquire
  simp only [serve, h] at hstep
  exact hstep.length_given hp

/-- The size of a buffer tells where it comes from. -/
theorem Sound.supplies_iff (hp : p.Sound) (h : p.Makes item p') :
    p.Supplies item p' ↔ item.capacity = p.bufferSize := by
  constructor
  · rintro ⟨buffer, written, hacquire, hbuffer⟩
    rw [Item.capacity, hbuffer, Bytes.length_overlay, hp.length_of_acquire hacquire]
  · intro hlength
    obtain ⟨total, buffer, written, hobtain, hbuffer⟩ := h.obtain_eq
    rw [Item.capacity, hbuffer, Bytes.length_overlay] at hlength
    have hobtains := hp.obtains total
    rw [hobtain] at hobtains
    cases hobtains with
    | standard hsmall => exact ⟨buffer, written, (obtain_of_le hsmall).symm.trans hobtain, hbuffer⟩
    | own hlarge htotal => exact absurd (htotal.symm.trans hlength) (Nat.ne_of_gt hlarge)

/-- Where a released buffer goes depends on its length alone, though it is decided by what the buffer
holds. So a buffer in which an item was made, whatever was written to it since, goes into a pool with
buffers of the size of its source exactly if it was supplied by the source and there is room. -/
theorem Reachable.releases_by_length (hp : p.Reachable) :
    (∀ item, p.Released item (item.capacity = p.bufferSize ∧ p.HasRoom)) ∧
    (∀ item, p.reclaim item =
      if item.capacity = p.bufferSize then (p.release? item.buffer).getD p else p) ∧
    ∀ (source : Pool) (made : Item) (source' : Pool), source.Reachable → source.bufferSize = p.bufferSize →
      source.Makes made source' → ∀ item : Item, item.capacity = made.capacity →
        p.Released item (source.Supplies made source' ∧ p.HasRoom) := by
  refine ⟨hp.sound.released, p.reclaim_eq_ite, ?_⟩
  intro source made source' hsource hsize hmakes item hcapacity
  rw [hsource.sound.supplies_iff hmakes, hsize, ← hcapacity]
  exact hp.sound.released item

/-- A header that states a small item in a large buffer does not bring the buffer into the pool, and a
standard buffer that is full of nonsense goes back. -/
theorem Reachable.releases_by_length_of_false_header :
    let p := Pool.empty 12 1 1
    let large : Item := { buffer := [2, 0, 0, 0, 0, 0, 0, 0xA7, 0, 0, 0, 0, 0, 0, 0, 0] }
    let nonsense : Item := { buffer := List.replicate 12 255 }
    p.Reachable ∧ p.poolSized large = true ∧
      p.Makes { buffer := List.replicate 16 0 } p ∧
      p.Released large (p.Supplies { buffer := List.replicate 16 0 } p ∧ p.HasRoom) ∧
      p.reclaim large = p ∧ (p.reclaim nonsense).buffers = [nonsense.buffer] := by
  intro p large nonsense
  have hp : p.Reachable := .empty 12 1 1
  obtain ⟨hlength, -, htaken⟩ := hp.releases_by_length
  have hmakes : p.Makes { buffer := List.replicate 16 0 } p := .inl ⟨16, rfl⟩
  exact ⟨hp, rfl, hmakes, htaken p _ p hp rfl hmakes large rfl, (hlength large).dropped (by decide),
    (hlength nonsense).pooled_iff.2 (by decide)⟩

/-- A pool whose only slot is taken, without the memory for a second one that its ceiling allows. -/
def cramped : Pool :=
  { ((empty 2 1 2).serve (.release [1, 2])).2 with heap := { reserves := fun slots => slots ≤ 1 } }

/-- A buffer of the right size is dropped though the pool is below its ceiling. -/
theorem cramped_drops_below_ceiling :
    let item : Item := { buffer := [3, 4] }
    let condition := item.capacity = cramped.bufferSize ∧ cramped.size < cramped.ceiling
    cramped.Reachable ∧ condition ∧ cramped.reclaim item = cramped ∧ ¬ cramped.Released item condition := by
  intro item condition
  have hp : cramped.Reachable := .supply (.serve (.empty 2 1 2) (.release [1, 2])) _
  have hcondition : condition := ⟨rfl, by decide⟩
  have hdropped : cramped.reclaim item = cramped := (hp.sound.released item).dropped (by decide)
  refine ⟨hp, hcondition, hdropped, fun hreleased => ?_⟩
  have hpooled := hreleased.pooled_iff.2 hcondition
  rw [hdropped] at hpooled
  exact List.cons_ne_self _ _ hpooled.symm

end KeyedStore.Pool
