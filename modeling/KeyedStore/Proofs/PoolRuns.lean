import Mathlib
import KeyedStore.Proofs.PoolStates

/-!
# Runs of a pool

Over every run of calls a pool is a bounded stack: it hands out the buffer that was kept last and not
taken since, or a new one, and it keeps a buffer of its size as long as it is not full. The number of
its slots follows from the largest number of buffers that it ever held: it is the number it began with,
doubled no more often than that takes and cut at the ceiling.
-/

namespace KeyedStore.Pool

variable {p : Pool} {heap : Heap} {n first limit peak : Nat} {calls : List Call} {call : Call}

/-- What a stack of at most `limit` buffers answers, with the latest on top. It keeps only buffers of
`n` bytes, and when it is empty it hands out a new one full of zeros. -/
def onStack (n limit : Nat) : Call → StateM (List Bytes) Reply
  | .acquire => fun
    | top :: below => (.given top, below)
    | [] => (.given (List.replicate n 0), [])
  | .release buffer => fun held =>
    if buffer.length ≠ n ∨ held.length = limit then (.refused buffer, held) else (.kept, buffer :: held)

/-- The number of slots after some doublings, none of which goes past the limit. -/
def slotsAfter (first limit doublings : Nat) : Nat := min (first * 2 ^ doublings) limit

/-- The numbers of buffers that a pool held in the course of a run of calls. -/
def sizesDuring (calls : List Call) (p : Pool) : Set Nat :=
  {k | ∃ front, front <+: calls ∧ (front.mapM serve p).2.size = k}

/-- There is memory for all that a pool of buffers of `n` bytes with at most `limit` slots asks for. -/
structure Supports (heap : Heap) (n limit : Nat) : Prop where
  allocates : heap.allocates n
  reserves : ∀ slots ≤ limit, heap.reserves slots

/-- A step of a pool is one of the stack of its buffers. -/
theorem Step.onStack_eq {reply : Reply} {p' : Pool} (h : Step p call reply p') (hp : p.Sound)
    (hmemory : Supports p.heap p.bufferSize p.ceiling) :
    onStack p.bufferSize p.ceiling call p.buffers = (reply, p'.buffers) := by
  have hroom_iff := hp.hasRoom_iff hmemory.reserves
  cases h with
  | recycled hbuffers => rw [onStack, hbuffers, buffers_stocked]
  | allocated hbuffers _ => rw [onStack, hbuffers]
  | failed hbuffers hnot => exact absurd hmemory.allocates hnot
  | kept hlength hroom =>
    rw [hroom_iff, p.size_eq] at hroom
    exact if_neg (not_or.2 ⟨not_not.2 hlength, hroom⟩)
  | refused hrefused =>
    rw [hroom_iff, not_not, p.size_eq] at hrefused
    exact if_pos hrefused

/-! ### The slots -/

theorem slotsAfter_zero (h : first ≤ limit) : slotsAfter first limit 0 = first := by
  rw [slotsAfter, pow_zero, Nat.mul_one, Nat.min_eq_left h]

theorem slotsAfter_mono (first limit : Nat) {i j : Nat} (h : i ≤ j) :
    slotsAfter first limit i ≤ slotsAfter first limit j := by
  have hpow : 2 ^ i ≤ 2 ^ j := Nat.pow_le_pow_right (by omega) h
  exact min_le_min_right limit (Nat.mul_le_mul_left first hpow)

/-- Doubling the slots that are there is doubling once more. -/
theorem slotsAfter_succ (first limit j : Nat) :
    slotsAfter first limit (j + 1) = min (slotsAfter first limit j * 2) limit := by
  rw [slotsAfter, slotsAfter, pow_succ, ← Nat.mul_assoc]
  omega

/-- The slots of a pool are no more than it takes to hold `peak` buffers. -/
def FewestSlots (first limit peak : Nat) (p : Pool) : Prop :=
  ∃ j, IsLeast {j | peak ≤ slotsAfter first limit j} j ∧ p.capacity = slotsAfter first limit j

theorem FewestSlots.mono {p' : Pool} {peak' : Nat} (h : FewestSlots first limit peak p)
    (hpeak : peak ≤ peak') (hfits : peak' ≤ p.capacity) (hcapacity : p'.capacity = p.capacity) :
    FewestSlots first limit peak' p' := by
  obtain ⟨j, ⟨-, hleast⟩, hj⟩ := h
  refine ⟨j, ⟨?_, ?_⟩, hcapacity.trans hj⟩
  · rw [Set.mem_ofPred_eq, ← hj]
    exact hfits
  · intro i hi
    exact hleast (hpeak.trans hi)

theorem FewestSlots.peak_le (h : FewestSlots first limit peak p) : peak ≤ p.capacity := by
  obtain ⟨j, ⟨hfits, -⟩, hj⟩ := h
  rw [hj]
  exact hfits

/-- When all slots are taken and there may be more of them, one more doubling is what it takes. -/
theorem FewestSlots.double {p' : Pool} (h : FewestSlots first limit peak p) (hpos : 0 < p.capacity)
    (hlimit : p.capacity < limit) (hcapacity : p'.capacity = min (p.capacity * 2) limit) :
    FewestSlots first limit (p.capacity + 1) p' := by
  obtain ⟨j, -, hj⟩ := h
  refine ⟨j + 1, ⟨?_, ?_⟩, ?_⟩
  · rw [Set.mem_ofPred_eq, slotsAfter_succ, ← hj]
    omega
  · intro i hi
    by_contra hij
    have hmono := slotsAfter_mono first limit (show i ≤ j by omega)
    rw [Set.mem_ofPred_eq] at hi
    omega
  · rw [hcapacity, slotsAfter_succ, hj]

/-- A step keeps the slots as few as the largest number of buffers allows. -/
theorem FewestSlots.step {reply : Reply} {p' : Pool} (h : FewestSlots first p.ceiling peak p)
    (hp : p.Sound) (hsize : p.size ≤ peak) (hstep : Step p call reply p') :
    FewestSlots first p.ceiling (max peak p'.size) p' := by
  have hpeak := h.peak_le
  cases hstep with
  | @recycled top below hbuffers =>
    have hbelow : below.length ≤ peak := by
      rw [p.size_eq, hbuffers, List.length_cons] at hsize
      omega
    rw [size_stocked, max_eq_left hbelow]
    exact h.mono le_rfl hpeak rfl
  | kept hlength hroom =>
    rw [size_stocked, List.length_cons, ← p.size_eq]
    by_cases hslot : p.size < p.capacity
    · exact h.mono (le_max_left _ _) (max_le hpeak hslot) (if_pos hslot)
    · have hfull : p.size = p.capacity := le_antisymm hp.slots (not_lt.1 hslot)
      have hlimit : p.capacity < p.ceiling := hfull ▸ hroom.1
      rw [hfull, max_eq_right (by omega)]
      exact h.double hp.pos hlimit (if_neg hslot)
  | allocated hbuffers ha =>
    rw [max_eq_left hsize]
    exact h
  | failed hbuffers ha =>
    rw [max_eq_left hsize]
    exact h
  | refused hrefused =>
    rw [max_eq_left hsize]
    exact h

/-! ### Runs -/

theorem sizesDuring_concat (calls : List Call) (call : Call) (p : Pool) :
    sizesDuring (calls ++ [call]) p =
      insert ((calls ++ [call]).mapM Pool.serve p).2.size (sizesDuring calls p) := by
  ext k
  simp only [sizesDuring, Set.mem_ofPred_eq, Set.mem_insert_iff, List.prefix_concat_iff]
  constructor
  · rintro ⟨front, rfl | hfront, rfl⟩
    · exact .inl rfl
    · exact .inr ⟨front, hfront, rfl⟩
  · rintro (rfl | ⟨front, hfront, rfl⟩)
    · exact ⟨_, .inl rfl, rfl⟩
    · exact ⟨front, .inr hfront, rfl⟩

/-- A pool after a run of calls to an empty one: what it answered, what it holds and what slots it
has. -/
structure Tracks (heap : Heap) (n first limit : Nat) (start : Pool) (calls : List Call)
    (replies : List Reply) (p : Pool) : Prop where
  sound : p.Sound
  heap : p.heap = heap
  bufferSize : p.bufferSize = n
  ceiling : p.ceiling = limit
  stack : calls.mapM (onStack n limit) [] = (replies, p.buffers)
  given : ∀ buffer, .given buffer ∈ replies → buffer.length = n
  slots : ∃ peak, IsGreatest (sizesDuring calls start) peak ∧ FewestSlots first limit peak p

theorem tracks_nil (n slots ceiling : Nat) (heap : Heap) :
    Tracks heap n (min (max slots 1) (max ceiling 1)) (max ceiling 1) (empty n slots ceiling heap) [] []
      (empty n slots ceiling heap) where
  sound := sound_empty n slots ceiling heap
  heap := rfl
  bufferSize := rfl
  ceiling := rfl
  stack := rfl
  given := by simp
  slots := by
    have hfirst := slotsAfter_zero (Nat.min_le_right (max slots 1) (max ceiling 1))
    refine ⟨0, ⟨⟨[], List.prefix_rfl, rfl⟩, ?_⟩, 0, ⟨Nat.zero_le _, fun _ _ => Nat.zero_le _⟩, hfirst.symm⟩
    rintro _ ⟨front, hfront, rfl⟩
    rw [List.prefix_nil.1 hfront]
    rfl

/-- What is tracked before a call is tracked after it. -/
theorem Tracks.concat {start : Pool} {replies : List Reply} (hmemory : Supports heap n limit)
    (h : Tracks heap n first limit start calls replies p) (hrun : calls.mapM serve start = (replies, p))
    (call : Call) :
    Tracks heap n first limit start (calls ++ [call]) (replies ++ [(p.serve call).1])
      (p.serve call).2 := by
  have hrun' : ((calls ++ [call]).mapM serve start).2 = (p.serve call).2 := by
    rw [mapM_concat_apply, hrun]
  obtain ⟨hp, rfl, rfl, rfl, hstack, hgiven, peak, hpeak, hslots⟩ := h
  have hstep := hp.step call
  refine ⟨hstep.sound hp, hstep.heap_eq, hstep.bufferSize_eq, hstep.ceiling_eq, ?_, ?_,
    max peak (p.serve call).2.size, ?_, ?_⟩
  · rw [mapM_concat_apply, hstack, hstep.onStack_eq hp hmemory]
  · intro buffer hmem
    rcases List.mem_append.1 hmem with hmem | hmem
    · exact hgiven buffer hmem
    · rw [← List.mem_singleton.1 hmem] at hstep
      exact hstep.length_given hp
  · rw [sizesDuring_concat, hrun', max_comm]
    exact hpeak.insert _
  · refine hslots.step hp (hpeak.2 ⟨calls, List.prefix_rfl, ?_⟩) hstep
    rw [hrun]

theorem tracks_run (slots ceiling : Nat) (hmemory : Supports heap n (max ceiling 1)) (calls : List Call) :
    let start := empty n slots ceiling heap
    Tracks heap n (min (max slots 1) (max ceiling 1)) (max ceiling 1) start calls
      (calls.mapM serve start).1 (calls.mapM serve start).2 := by
  intro start
  induction calls using List.reverseRecOn with
  | nil => exact tracks_nil n slots ceiling heap
  | append_singleton calls call ih =>
    rw [mapM_concat_apply]
    exact ih.concat hmemory rfl call

theorem capacity_le_run (hp : p.Sound) (calls : List Call) :
    p.capacity ≤ (calls.mapM serve p).2.capacity := by
  induction calls generalizing p with
  | nil => exact le_rfl
  | cons call rest ih =>
    rw [mapM_cons_apply]
    have hstep := hp.step call
    exact (hstep.capacity_le hp).trans (ih (hstep.sound hp))

/-- Where there is memory for it, a new pool answers every run of calls as a stack of at most
`max ceiling 1` buffers of its size does. It refuses a buffer, and is left as it was, exactly if that is of
another size or the pool is full; and its slots are as few doublings of their first number as its largest
number of buffers takes, so that they never become fewer. -/
theorem serves_as_stack (n slots ceiling : Nat) (heap : Heap) (hmemory : Supports heap n (max ceiling 1))
    (calls : List Call) :
    let limit := max ceiling 1
    let first := min (max slots 1) limit
    let start := Pool.empty n slots ceiling heap
    let replies := (calls.mapM serve start).1
    let p := (calls.mapM serve start).2
    calls.mapM (onStack n limit) [] = (replies, p.buffers) ∧
      (∀ buffer, p.serve (.release buffer) = (.refused buffer, p) ↔
        buffer.length ≠ n ∨ p.size = limit) ∧
      (∀ buffer, .given buffer ∈ replies → buffer.length = n) ∧
      (∃ peak j, IsGreatest (sizesDuring calls start) peak ∧
        IsLeast {j | peak ≤ slotsAfter first limit j} j ∧ p.capacity = slotsAfter first limit j) ∧
      ∀ later, p.capacity ≤ ((calls ++ later).mapM serve start).2.capacity := by
  intro limit first start replies p
  have h : Tracks heap n first limit start calls replies p := tracks_run slots ceiling hmemory calls
  obtain ⟨peak, hpeak, j, hj, hcapacity⟩ := h.slots
  refine ⟨h.stack, ?_, h.given, ⟨peak, j, hpeak, hj, hcapacity⟩, ?_⟩
  · intro buffer
    have hgrows : ∀ slots ≤ p.ceiling, p.heap.reserves slots := by
      rw [h.ceiling, h.heap]
      exact hmemory.reserves
    rw [h.sound.serve_eq_refused_iff, h.sound.hasRoom_iff hgrows, not_not, h.bufferSize, h.ceiling]
  · intro later
    rw [mapM_append_apply]
    exact capacity_le_run h.sound later

/-- A pool that grows from one slot to its ceiling of three, refuses a fourth buffer and a short one,
and hands out what it kept in reverse before it allocates. -/
theorem serves_as_stack_of_full_pool :
    let calls : List Call := [.release [1, 2], .release [3, 4], .release [5, 6], .release [7, 8],
      .acquire, .release [9], .acquire, .acquire, .acquire]
    Supports {} 2 3 ∧ (calls.mapM serve (empty 2 1 3)).1 = [.kept, .kept, .kept, .refused [7, 8],
      .given [5, 6], .refused [9], .given [3, 4], .given [1, 2], .given [0, 0]] ∧
      (calls.mapM serve (empty 2 1 3)).2.buffers = [] := by
  intro calls
  have hmemory : Supports {} 2 3 := ⟨rfl, by decide⟩
  obtain ⟨hstack, -⟩ := serves_as_stack 2 1 3 {} hmemory calls
  obtain ⟨hreplies, hbuffers⟩ := Prod.mk.inj hstack.symm
  exact ⟨hmemory, hreplies, hbuffers⟩

end KeyedStore.Pool
