import KeyedStore.Proofs.PoolStates

/-!
# Returning buffers to a pool

Where a released buffer goes is decided by the header that it holds, whatever wrote it, and still comes
down to its length: a buffer of the size of the pool goes back and any other is dropped. So a buffer
that was taken from a sound pool and is released again lies on top of what was below it.
-/

namespace KeyedStore

namespace Pool

variable {p p' p'' : Pool} {item : Item} {buffer : Bytes} {total : Nat}

/-- What the header of a released buffer says makes no difference to where it goes. -/
theorem reclaim_eq (p : Pool) (item : Item) : p.reclaim item = (p.release? item.buffer).getD p := by
  rw [reclaim]
  by_cases hsized : p.poolSized item = true
  · exact if_pos hsized
  · rw [if_neg hsized]
    have hlength : item.buffer.length ≠ p.bufferSize := by
      intro heq
      rw [poolSized] at hsized
      cases hl : item.layout with
      | error e =>
        rw [hl] at hsized
        exact hsized (decide_eq_true heq)
      | ok layout =>
        rw [hl] at hsized
        have htotal := (Layout.parse_eq_ok.1 hl).2
        rw [heq] at htotal
        exact hsized (decide_eq_true htotal)
    rw [release?, if_pos hlength]
    rfl

theorem reclaim_of_ne (h : item.capacity ≠ p.bufferSize) : p.reclaim item = p := by
  have hlength : item.buffer.length ≠ p.bufferSize := h
  rw [reclaim_eq, release?, if_pos hlength]
  rfl

/-- The pool without the buffer on top still has a slot for it. -/
theorem Sound.reclaim_tail (hp : p.Sound) (h : item.capacity = p.bufferSize) :
    (p.stocked p.buffers.tail).reclaim item = p.stocked (item.buffer :: p.buffers.tail) := by
  have hslots := hp.slots
  have hpos := hp.pos
  have hslot : (p.stocked p.buffers.tail).size < (p.stocked p.buffers.tail).capacity := by
    rw [size_stocked, capacity_stocked, List.length_tail, ← p.size_eq]
    omega
  have hlength : ¬ item.buffer.length ≠ (p.stocked p.buffers.tail).bufferSize :=
    Decidable.not_not.2 h
  rw [reclaim_eq, release?, if_neg hlength, if_pos hslot, push_eq]
  rfl

/-! ### Taking a buffer -/

/-- What comes of asking a pool for a buffer of some size: the one on top or a new one like it, a buffer
of that very size beside the pool, or nothing. -/
inductive Obtains (p : Pool) (total : Nat) : EStateM.Result Error Pool Bytes → Prop where
  | standard {buffer : Bytes} (hsmall : total ≤ p.bufferSize) (hlength : buffer.length = p.bufferSize) :
      Obtains p total (.ok buffer (p.stocked p.buffers.tail))
  | own {buffer : Bytes} (hlarge : p.bufferSize < total) (hlength : buffer.length = total) :
      Obtains p total (.ok buffer p)
  | failed (cause : Error) (ha : ¬ p.heap.allocates (max total p.bufferSize)) :
      Obtains p total (.error cause p)

theorem Sound.obtains (hp : p.Sound) (total : Nat) : Obtains p total (obtain total p) := by
  rw [obtain, get_bind]
  by_cases hlarge : total > p.bufferSize
  · rw [if_pos hlarge]
    by_cases ha : p.heap.allocates total
    · rw [liftResult_of_ok (Heap.allocate_of_allocates ha)]
      exact .own hlarge List.length_replicate
    · rw [liftResult_of_error (Heap.allocate_of_not ha)]
      refine .failed _ ?_
      rwa [Nat.max_eq_left (Nat.le_of_lt hlarge)]
  · have hsmall := Nat.le_of_not_lt hlarge
    rw [if_neg hlarge]
    cases hbuffers : p.buffers with
    | cons top below =>
      have hobtains := Obtains.standard hsmall (hp.sizes top (hbuffers ▸ List.mem_cons_self))
      rw [hbuffers] at hobtains
      rw [acquire_of_cons hbuffers]
      exact hobtains
    | nil =>
      rw [acquire_of_nil hbuffers]
      by_cases ha : p.heap.allocates p.bufferSize
      · have hlength : (List.replicate p.bufferSize (0 : UInt8)).length = p.bufferSize :=
          List.length_replicate
        have hobtains := Obtains.standard hsmall hlength
        rw [hbuffers, List.tail_nil, ← hbuffers, stocked_self] at hobtains
        rw [liftResult_of_ok (Heap.allocate_of_allocates ha)]
        exact hobtains
      · rw [liftResult_of_error (Heap.allocate_of_not ha)]
        refine .failed _ ?_
        rwa [Nat.max_eq_right hsmall]

theorem allocRaw_of_ok (h : obtain total p = .ok buffer p') :
    allocRaw total p = .ok { buffer } p' := by
  rw [allocRaw, bind_of_ok h]
  rfl

theorem allocRaw_of_error {e : Error} (h : obtain total p = .error e p') :
    allocRaw total p = .error e p' := by
  rw [allocRaw, bind_of_error h]

/-! ### Pools that got their buffers back -/

theorem size_stocked_cons_tail (p : Pool) (buffer : Bytes) :
    (p.stocked (buffer :: p.buffers.tail)).size = max p.size 1 := by
  rw [size_stocked, List.length_cons, List.length_tail, ← p.size_eq]
  omega

theorem size_stocked_tail (p : Pool) : (p.stocked p.buffers.tail).size = max p.size 1 - 1 := by
  rw [size_stocked, List.length_tail, ← p.size_eq]
  omega

/-- A pool as it was, or with another buffer in the place of the one on top. -/
inductive Returned (p : Pool) : Pool → Prop where
  | same : Returned p p
  | top {buffer : Bytes} (hlength : buffer.length = p.bufferSize) :
      Returned p (p.stocked (buffer :: p.buffers.tail))

namespace Returned

theorem sound (h : Returned p p') (hp : p.Sound) : p'.Sound := by
  cases h with
  | same => exact hp
  | top hlength =>
    have hslots := hp.slots
    have hpos := hp.pos
    refine hp.stocked ?_ ?_
    · intro b hb
      rcases List.mem_cons.1 hb with rfl | hb
      · exact hlength
      · exact hp.sizes b (List.mem_of_mem_tail hb)
    · rw [List.length_cons, List.length_tail, ← p.size_eq]
      omega

theorem tail_eq (h : Returned p p') : p'.buffers.tail = p.buffers.tail := by
  cases h <;> rfl

/-- There are as many buffers as before, or one more if there was none. -/
theorem size_eq (h : Returned p p') : p'.size = p.size ∨ p.size = 0 ∧ p'.size = 1 := by
  cases h with
  | same => exact .inl rfl
  | top hlength =>
    rw [size_stocked_cons_tail]
    omega

theorem trans (h : Returned p p') (h' : Returned p' p'') : Returned p p'' := by
  cases h with
  | same => exact h'
  | top hlength =>
    cases h' with
    | same => exact .top hlength
    | top hlength' => exact .top hlength'

end Returned

/-- A buffer that was taken can be released with any contents. -/
theorem Obtains.returned (hp : p.Sound) (h : Obtains p total (.ok buffer p'))
    (hcapacity : item.capacity = buffer.length) : p.Returned (p'.reclaim item) := by
  cases h with
  | standard hsmall hlength =>
    rw [hp.reclaim_tail (hcapacity.trans hlength)]
    exact .top (hcapacity.trans hlength)
  | own hlarge hlength =>
    have hbeside : item.capacity ≠ p.bufferSize := by
      rw [hcapacity, hlength]
      exact Nat.ne_of_gt hlarge
    rw [reclaim_of_ne hbeside]
    exact .same

/-- A fresh item, if there is one, can be released after it was written to. -/
theorem Sound.allocFresh (hp : p.Sound) (key : Bytes) (flags : UInt32) (dataLength : Nat) :
    (∃ e, Pool.allocFresh key flags dataLength p = .error e p) ∨
      ∃ fresh p', Pool.allocFresh key flags dataLength p = .ok fresh p' ∧
        ∀ item : Item, item.capacity = fresh.capacity → p.Returned (p'.reclaim item) := by
  cases hcompute : Header.compute key.length flags dataLength with
  | error e =>
    left
    exact ⟨e, allocFresh_of_error hcompute p⟩
  | ok pair =>
    obtain ⟨header, suffix⟩ := pair
    have hobtains := hp.obtains header.total
    generalize hobtain : obtain header.total p = obtained at hobtains
    cases obtained with
    | error e p' =>
      left
      refine ⟨e, ?_⟩
      rw [Pool.allocFresh, bind_of_ok (liftResult_of_ok hcompute p)]
      dsimp only
      rw [bind_of_error hobtain]
      cases hobtains
      rfl
    | ok buffer p' =>
      right
      refine ⟨{ buffer := Bytes.overlay (header.encode ++ key ++ 0 :: suffix) buffer }, p', ?_, ?_⟩
      · rw [Pool.allocFresh, bind_of_ok (liftResult_of_ok hcompute p)]
        dsimp only
        rw [bind_of_ok hobtain]
        rfl
      · intro item hcapacity
        exact hobtains.returned hp (hcapacity.trans (Bytes.length_overlay _ _))

end Pool

end KeyedStore
