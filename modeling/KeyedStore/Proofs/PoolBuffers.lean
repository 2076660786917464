import KeyedStore.Item.Allocation
import KeyedStore.Proofs.ItemImages
import KeyedStore.Proofs.Steps

/-!
# Buffers of a pool

In a uniform pool every buffer has the size of the pool, so that a buffer taken from it holds what it
was asked for, and a released buffer keeps it uniform. A fresh item then has the same front whatever
its buffer held before. All this needs memory for new buffers, and only for those: a pool whose slots
cannot become more drops what is released.
-/

namespace KeyedStore

open Bytes

/-- Writing less than a buffer holds leaves the end of the buffer. -/
theorem Bytes.overlay_of_le {new bs : Bytes} (h : new.length ≤ bs.length) :
    overlay new bs = new ++ bs.drop new.length := by
  rw [overlay, List.take_of_length_le h]

@[simp] theorem Bytes.overlay_nil (bs : Bytes) : overlay [] bs = bs := by
  rw [overlay_of_le (Nat.zero_le _)]
  rfl

theorem Heap.allocate_of_allocates {heap : Heap} {n : Nat} (h : heap.allocates n) :
    heap.allocate n = .ok (List.replicate n 0) := by
  rw [Heap.allocate, if_pos h]

theorem Heap.allocate_of_not {heap : Heap} {n : Nat} (h : ¬ heap.allocates n) :
    heap.allocate n = .error (.allocation n) := by
  rw [Heap.allocate, if_neg h]

/-- Every item that a header describes is well within the default memory. -/
theorem Header.total_le_maxAllocation (header : Header) : header.total ≤ maxAllocation := by
  have hkey := header.keyLength.toNat_lt
  have hsuffix := header.suffixLength.toNat_lt
  have hdata := header.dataLength.toNat_lt
  rw [total, size, maxAllocation]
  omega

namespace Pool

variable {p p' p'' : Pool} {flags : UInt32} {n total : Nat} {key buffer : Bytes}

/-- Every buffer of the pool has its size, and further ones can be allocated. -/
structure Ready (p : Pool) : Prop where
  sizes : ∀ b ∈ p.buffers, b.length = p.bufferSize
  fits : p.heap.allocates p.bufferSize

/-- A pool that is ready and has memory for every item. -/
structure Uniform (p : Pool) : Prop extends p.Ready where
  items : ∀ header : Header, p.heap.allocates header.total

theorem uniform_of_default (hheap : p.heap = {}) (hsizes : ∀ b ∈ p.buffers, b.length = p.bufferSize)
    (hfits : p.bufferSize ≤ maxAllocation) : p.Uniform where
  sizes := hsizes
  fits := by
    rw [hheap]
    exact decide_eq_true hfits
  items header := by
    rw [hheap]
    exact decide_eq_true header.total_le_maxAllocation

/-- What a pool becomes when it is used: its buffers have the size that they had, and there is memory for
the same. -/
structure Becomes (p p' : Pool) : Prop where
  sizes : ∀ b ∈ p'.buffers, b.length = p.bufferSize
  bufferSize_eq : p'.bufferSize = p.bufferSize
  heap_eq : p'.heap = p.heap

namespace Becomes

theorem trans (h : p.Becomes p') (h' : p'.Becomes p'') : p.Becomes p'' where
  sizes b hb := (h'.sizes b hb).trans h.bufferSize_eq
  bufferSize_eq := h'.bufferSize_eq.trans h.bufferSize_eq
  heap_eq := h'.heap_eq.trans h.heap_eq

theorem ready (h : p.Becomes p') (hp : p.Ready) : p'.Ready where
  sizes b hb := (h.sizes b hb).trans h.bufferSize_eq.symm
  fits := by
    rw [h.heap_eq, h.bufferSize_eq]
    exact hp.fits

theorem uniform (h : p.Becomes p') (hp : p.Uniform) : p'.Uniform where
  toReady := h.ready hp.toReady
  items header := by
    rw [h.heap_eq]
    exact hp.items header

end Becomes

namespace Ready

variable (hp : p.Ready)

include hp

theorem becomes_self : p.Becomes p := ⟨hp.sizes, rfl, rfl⟩

theorem acquire : ∃ buffer p', Pool.acquire p = .ok buffer p' ∧ buffer.length = p.bufferSize ∧
    p.Becomes p' := by
  rw [Pool.acquire]
  split
  · next top below hbuffers =>
    refine ⟨top, _, rfl, hp.sizes top (by simp [hbuffers]), ⟨?_, rfl, rfl⟩⟩
    intro b hb
    exact hp.sizes b (by simp [hbuffers, hb])
  · rw [Heap.allocate_of_allocates hp.fits]
    exact ⟨_, p, rfl, List.length_replicate, hp.becomes_self⟩

/-- A buffer is as large as it was asked for, and at least as large as those of the pool. -/
theorem obtain_eq (h : p.heap.allocates total) :
    ∃ buffer p', Pool.obtain total p = .ok buffer p' ∧ buffer.length = max total p.bufferSize ∧
      p.Becomes p' := by
  by_cases hlarge : total > p.bufferSize
  · refine ⟨List.replicate total 0, p, ?_, ?_, hp.becomes_self⟩
    · rw [Pool.obtain, get_bind, if_pos hlarge, liftResult_of_ok (Heap.allocate_of_allocates h)]
    · rw [List.length_replicate, Nat.max_eq_left (Nat.le_of_lt hlarge)]
  · obtain ⟨buffer, p', hacquire, hlength, hp'⟩ := hp.acquire
    refine ⟨buffer, p', ?_, ?_, hp'⟩
    · rw [Pool.obtain, get_bind, if_neg hlarge, hacquire]
    · rw [hlength, Nat.max_eq_right (Nat.le_of_not_lt hlarge)]

theorem reclaim (item : Item) : p.Becomes (p.reclaim item) := by
  rw [Pool.reclaim]
  split
  · rw [release?]
    split
    · exact hp.becomes_self
    · next hlength =>
      have hsizes : ∀ b ∈ (p.push item.buffer).buffers, b.length = p.bufferSize :=
        List.forall_mem_cons.2 ⟨Decidable.not_not.1 hlength, hp.sizes⟩
      split
      · exact ⟨hsizes, rfl, rfl⟩
      · split
        · exact hp.becomes_self
        · dsimp only
          split
          · exact ⟨hsizes, rfl, rfl⟩
          · exact hp.becomes_self
  · exact hp.becomes_self

end Ready

namespace Uniform

variable (hp : p.Uniform)

include hp

theorem reclaim (item : Item) : (p.reclaim item).Uniform := (hp.toReady.reclaim item).uniform hp

/-- A fresh item has its front in place and room for its value. -/
theorem allocFresh (hf : Item.Fits key n) (flags : UInt32) :
    ∃ rest p', Pool.allocFresh key flags (n + Header.terminator.length) p =
        .ok { buffer := Item.front key flags n ++ rest } p' ∧
      (Item.front key flags n).length + rest.length =
        max (Item.headerOf key flags n).total p.bufferSize ∧
      n + Header.terminator.length ≤ rest.length ∧ p'.Uniform := by
  have htotal := hf.total_eq flags
  obtain ⟨buffer, p', hobtain, hlength, hp'⟩ :=
    hp.toReady.obtain_eq (hp.items (Item.headerOf key flags n))
  have hroom : (Item.front key flags n).length + (n + Header.terminator.length) ≤ buffer.length := by
    rw [hlength, ← htotal]
    exact Nat.le_max_left _ _
  refine ⟨buffer.drop (Item.front key flags n).length, p', ?_, ?_, ?_, hp'.uniform hp⟩
  · rw [Pool.allocFresh, bind_of_ok (liftResult_of_ok (hf.compute_eq flags) p)]
    dsimp only
    rw [bind_of_ok hobtain, ← overlay_of_le (by omega)]
    rfl
  · rw [← hlength, List.length_drop]
    omega
  · rw [List.length_drop]
    omega

end Uniform

/-- Where there is no header for an item, the pool is left as it was. -/
theorem allocFresh_of_error {e : Error} (h : Header.compute key.length flags n = .error e) (p : Pool) :
    Pool.allocFresh key flags n p = .error e p := by
  rw [Pool.allocFresh, bind_of_error (liftResult_of_error h p)]

theorem allocFresh_of_key (h : Header.maxKeyLength < key.length) (flags : UInt32) (n : Nat) (p : Pool) :
    Pool.allocFresh key flags n p = .error (.keyTooLong key.length) p := by
  apply allocFresh_of_error
  rw [Header.compute, if_pos h]

end Pool

end KeyedStore
