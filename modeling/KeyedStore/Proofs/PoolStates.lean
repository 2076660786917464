import KeyedStore.Proofs.PoolBuffers

/-!
# States of a pool

A pool that was reached by taking and returning buffers is sound: its buffers have one size, they have
slots, and the slots are within the ceiling. What a call does to a sound pool is told by the stack of
buffers that it leaves, and by the number of slots when it needs more of them. What memory there is
decides whether it has a new buffer to hand out, and whether its slots can become more.
-/

namespace KeyedStore

namespace Pool

variable {p : Pool} {buffer top : Bytes} {below buffers : List Bytes}

/-! ### The stack of buffers -/

/-- The pool with other buffers in its stack. -/
def stocked (p : Pool) (buffers : List Bytes) : Pool :=
  { p with buffers, size := buffers.length, size_eq := rfl }

@[simp] theorem buffers_stocked (p : Pool) (buffers : List Bytes) :
    (p.stocked buffers).buffers = buffers := rfl

@[simp] theorem size_stocked (p : Pool) (buffers : List Bytes) :
    (p.stocked buffers).size = buffers.length := rfl

@[simp] theorem bufferSize_stocked (p : Pool) (buffers : List Bytes) :
    (p.stocked buffers).bufferSize = p.bufferSize := rfl

@[simp] theorem capacity_stocked (p : Pool) (buffers : List Bytes) :
    (p.stocked buffers).capacity = p.capacity := rfl

@[simp] theorem ceiling_stocked (p : Pool) (buffers : List Bytes) :
    (p.stocked buffers).ceiling = p.ceiling := rfl

@[simp] theorem heap_stocked (p : Pool) (buffers : List Bytes) :
    (p.stocked buffers).heap = p.heap := rfl

/-- The number that a pool keeps is that of its buffers. -/
theorem eq_stocked {p : Pool} {n capacity : Nat} (hsize : n = buffers.length) :
    ({ p with buffers, size := n, size_eq := hsize, capacity } : Pool) =
      { p.stocked buffers with capacity } := by
  subst hsize
  rfl

theorem stocked_self (p : Pool) : p.stocked p.buffers = p := (eq_stocked p.size_eq).symm

theorem acquire_of_cons (h : p.buffers = top :: below) : acquire p = .ok top (p.stocked below) := by
  rw [acquire]
  split
  · next top' below' h' =>
    obtain ⟨rfl, rfl⟩ := List.cons.inj (h.symm.trans h')
    rw [eq_stocked]
    rfl
  · next h' =>
    rw [h'] at h
    contradiction

theorem acquire_of_nil (h : p.buffers = []) : acquire p = liftResult (p.heap.allocate p.bufferSize) p := by
  rw [acquire]
  split
  · next h' =>
    rw [h'] at h
    contradiction
  · rfl

theorem push_eq (p : Pool) (buffer : Bytes) : p.push buffer = p.stocked (buffer :: p.buffers) := by
  rw [push, eq_stocked]
  rfl

/-! ### Sound pools -/

/-- The buffers of a pool have its size and have slots, and the slots are within its ceiling. -/
structure Sound (p : Pool) : Prop where
  sizes : ∀ b ∈ p.buffers, b.length = p.bufferSize
  slots : p.size ≤ p.capacity
  pos : 0 < p.capacity
  ceiling : p.capacity ≤ p.ceiling

theorem sound_empty (bufferSize slots ceiling : Nat) (heap : Heap) :
    (empty bufferSize slots ceiling heap).Sound where
  sizes := by simp [empty]
  slots := Nat.zero_le _
  pos := by
    simp only [empty]
    omega
  ceiling := Nat.min_le_right _ _

/-- The slots of a pool once it has one for a further buffer, if its ceiling allows it. -/
def nextCapacity (p : Pool) : Nat :=
  if p.size < p.capacity then p.capacity else min (p.capacity * 2) p.ceiling

/-- The pool is below its ceiling, and a slot is free or there is memory for more of them. -/
def HasRoom (p : Pool) : Prop :=
  p.size < p.ceiling ∧ (p.size < p.capacity ∨ p.heap.reserves (min (p.capacity * 2) p.ceiling))

instance (p : Pool) : Decidable p.HasRoom := inferInstanceAs (Decidable (_ ∧ _))

theorem HasRoom.ne (h : p.HasRoom) : p.size ≠ p.ceiling := Nat.ne_of_lt h.1

namespace Sound

variable (hp : p.Sound)

include hp

theorem ready (h : p.heap.allocates p.bufferSize) : p.Ready := ⟨hp.sizes, h⟩

theorem stocked (hsizes : ∀ b ∈ buffers, b.length = p.bufferSize)
    (hslots : buffers.length ≤ p.capacity) : (p.stocked buffers).Sound :=
  ⟨hsizes, hslots, hp.pos, hp.ceiling⟩

theorem size_le_ceiling : p.size ≤ p.ceiling := Nat.le_trans hp.slots hp.ceiling

/-- With memory for as many slots as the ceiling allows, only a full pool has no room. -/
theorem hasRoom_iff (hgrows : ∀ slots ≤ p.ceiling, p.heap.reserves slots) :
    p.HasRoom ↔ p.size ≠ p.ceiling := by
  constructor
  · exact HasRoom.ne
  · intro hne
    exact ⟨Nat.lt_of_le_of_ne hp.size_le_ceiling hne, .inr (hgrows _ (Nat.min_le_right _ _))⟩

/-- A buffer of another size is refused, and so is every buffer when the pool has no room. -/
theorem release?_of_refused (h : buffer.length ≠ p.bufferSize ∨ ¬ p.HasRoom) :
    p.release? buffer = none := by
  have hceiling := hp.ceiling
  rw [release?]
  by_cases hlength : buffer.length = p.bufferSize
  · have hroom := h.resolve_left (Decidable.not_not.2 hlength)
    rw [if_neg (Decidable.not_not.2 hlength)]
    by_cases hslot : p.size < p.capacity
    · exact absurd ⟨by omega, .inl hslot⟩ hroom
    · rw [if_neg hslot]
      by_cases hfull : p.capacity ≥ p.ceiling
      · rw [if_pos hfull]
      · rw [if_neg hfull]
        -- Below the ceiling and without a free slot, only memory can be short.
        exact if_neg fun hgrows => hroom ⟨by have hslots := hp.slots; omega, .inr hgrows⟩
  · rw [if_pos hlength]

/-- A buffer that is taken lies on top, with one more slot if there was none for it. -/
theorem release?_eq_some (hlength : buffer.length = p.bufferSize) (hroom : p.HasRoom) :
    p.release? buffer =
      some { p.stocked (buffer :: p.buffers) with capacity := p.nextCapacity } := by
  have hslots := hp.slots
  obtain ⟨hbelow, hroom⟩ := hroom
  rw [release?, if_neg (Decidable.not_not.2 hlength), push_eq, nextCapacity]
  by_cases hslot : p.size < p.capacity
  · rw [if_pos hslot, if_pos hslot]
    rfl
  · rw [if_neg hslot, if_neg hslot, if_neg (by omega)]
    exact if_pos (hroom.resolve_left hslot)

theorem lt_nextCapacity (hroom : p.size ≠ p.ceiling) : p.size < p.nextCapacity := by
  have hslots := hp.slots
  have hpos := hp.pos
  have hceiling := hp.ceiling
  rw [nextCapacity]
  split <;> omega

theorem capacity_le_nextCapacity : p.capacity ≤ p.nextCapacity := by
  have hceiling := hp.ceiling
  rw [nextCapacity]
  split <;> omega

theorem nextCapacity_le : p.nextCapacity ≤ p.ceiling := by
  have hceiling := hp.ceiling
  rw [nextCapacity]
  split <;> omega

theorem push_released (hlength : buffer.length = p.bufferSize) (hroom : p.HasRoom) :
    ({ p.stocked (buffer :: p.buffers) with capacity := p.nextCapacity } : Pool).Sound where
  sizes := List.forall_mem_cons.2 ⟨hlength, hp.sizes⟩
  slots := by
    have hnext := hp.lt_nextCapacity hroom.ne
    rw [p.size_eq] at hnext
    exact hnext
  pos := Nat.lt_of_lt_of_le hp.pos hp.capacity_le_nextCapacity
  ceiling := hp.nextCapacity_le

end Sound

/-! ### Calls -/

/-- What a pool can be asked for. -/
inductive Call where
  | acquire
  | release (buffer : Bytes)
deriving DecidableEq, Repr

/-- What a pool answers. -/
inductive Reply where
  /-- It hands out a buffer. -/
  | given (buffer : Bytes)
  /-- It has no buffer, and can allocate none. -/
  | failed (cause : Error)
  /-- It keeps the buffer that was returned. -/
  | kept
  /-- It hands the returned buffer back. -/
  | refused (buffer : Bytes)
deriving DecidableEq, Repr

/-- Answers one call. -/
def serve : Call → StateM Pool Reply
  | .acquire => fun p =>
    match acquire p with
    | .ok buffer p => (.given buffer, p)
    | .error e p => (.failed e, p)
  | .release buffer => fun p =>
    match p.release? buffer with
    | some p => (.kept, p)
    | none => (.refused buffer, p)

/-- What a pool answers to a call, and the pool that this leaves. -/
inductive Step (p : Pool) : Call → Reply → Pool → Prop where
  | recycled {top : Bytes} {below : List Bytes} (hbuffers : p.buffers = top :: below) :
      Step p .acquire (.given top) (p.stocked below)
  | allocated (hbuffers : p.buffers = []) (ha : p.heap.allocates p.bufferSize) :
      Step p .acquire (.given (List.replicate p.bufferSize 0)) p
  | failed (hbuffers : p.buffers = []) (ha : ¬ p.heap.allocates p.bufferSize) :
      Step p .acquire (.failed (.allocation p.bufferSize)) p
  | kept {buffer : Bytes} (hlength : buffer.length = p.bufferSize) (hroom : p.HasRoom) :
      Step p (.release buffer) .kept
        { p.stocked (buffer :: p.buffers) with capacity := p.nextCapacity }
  | refused {buffer : Bytes} (h : buffer.length ≠ p.bufferSize ∨ ¬ p.HasRoom) :
      Step p (.release buffer) (.refused buffer) p

/-- A sound pool does nothing else. -/
theorem Sound.step (hp : p.Sound) (call : Call) : Step p call (p.serve call).1 (p.serve call).2 := by
  cases call with
  | acquire =>
    cases hbuffers : p.buffers with
    | cons top below =>
      simp only [serve, acquire_of_cons hbuffers]
      exact .recycled hbuffers
    | nil =>
      simp only [serve, acquire_of_nil hbuffers]
      by_cases ha : p.heap.allocates p.bufferSize
      · simp only [liftResult_of_ok (Heap.allocate_of_allocates ha)]
        exact .allocated hbuffers ha
      · simp only [liftResult_of_error (Heap.allocate_of_not ha)]
        exact .failed hbuffers ha
  | release buffer =>
    by_cases hrefused : buffer.length ≠ p.bufferSize ∨ ¬ p.HasRoom
    · simp only [serve, hp.release?_of_refused hrefused]
      exact .refused hrefused
    · obtain ⟨hlength, hroom⟩ := not_or.1 hrefused
      rw [Decidable.not_not] at hlength hroom
      simp only [serve, hp.release?_eq_some hlength hroom]
      exact .kept hlength hroom

theorem Sound.serve_eq_refused_iff (hp : p.Sound) :
    p.serve (.release buffer) = (.refused buffer, p) ↔
      buffer.length ≠ p.bufferSize ∨ ¬ p.HasRoom := by
  constructor
  · intro hreply
    have hstep := hp.step (.release buffer)
    rw [hreply] at hstep
    cases hstep with
    | refused hrefused => exact hrefused
  · intro hrefused
    simp only [serve, hp.release?_of_refused hrefused]

namespace Step

variable {call : Call} {reply : Reply} {p' : Pool} (h : Step p call reply p')

include h

theorem bufferSize_eq : p'.bufferSize = p.bufferSize := by
  cases h <;> rfl

theorem ceiling_eq : p'.ceiling = p.ceiling := by
  cases h <;> rfl

theorem heap_eq : p'.heap = p.heap := by
  cases h <;> rfl

theorem sound (hp : p.Sound) : p'.Sound := by
  cases h with
  | recycled hbuffers =>
    have hslots := hp.slots
    have hsizes := hp.sizes
    rw [p.size_eq, hbuffers, List.length_cons] at hslots
    rw [hbuffers] at hsizes
    exact hp.stocked (List.forall_mem_cons.1 hsizes).2 (Nat.le_of_succ_le hslots)
  | kept hlength hroom => exact hp.push_released hlength hroom
  | allocated hbuffers ha => exact hp
  | failed hbuffers ha => exact hp
  | refused hrefused => exact hp

theorem capacity_le (hp : p.Sound) : p.capacity ≤ p'.capacity := by
  cases h with
  | kept hlength hroom => exact hp.capacity_le_nextCapacity
  | recycled hbuffers => exact Nat.le_refl _
  | allocated hbuffers ha => exact Nat.le_refl _
  | failed hbuffers ha => exact Nat.le_refl _
  | refused hrefused => exact Nat.le_refl _

end Step

/-- A buffer that is handed out has the size of the pool. -/
theorem Step.length_given {call : Call} {buffer : Bytes} {p' : Pool}
    (h : Step p call (.given buffer) p') (hp : p.Sound) : buffer.length = p.bufferSize := by
  cases h with
  | recycled hbuffers => exact hp.sizes buffer (hbuffers ▸ List.mem_cons_self)
  | allocated hbuffers ha => exact List.length_replicate

/-- The pools that calls lead to, with any memory; how much there is may change between calls. -/
inductive Reachable : Pool → Prop where
  | empty (bufferSize slots ceiling : Nat) : Reachable (Pool.empty bufferSize slots ceiling)
  | serve {p : Pool} (hp : Reachable p) (call : Call) : Reachable (p.serve call).2
  | supply {p : Pool} (hp : Reachable p) (heap : Heap) : Reachable { p with heap }

theorem Sound.supply (hp : p.Sound) (heap : Heap) : ({ p with heap } : Pool).Sound :=
  ⟨hp.sizes, hp.slots, hp.pos, hp.ceiling⟩

theorem Reachable.sound (hp : p.Reachable) : p.Sound := by
  induction hp with
  | empty bufferSize slots ceiling => exact sound_empty bufferSize slots ceiling {}
  | serve hp call ih => exact (ih.step call).sound ih
  | supply hp heap ih => exact ih.supply heap

end Pool

end KeyedStore
