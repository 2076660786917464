import KeyedStore.Engine
import KeyedStore.Proofs.JournalFrames
import KeyedStore.Proofs.TableFiles
import Mathlib.Data.List.Induction

/-!
# Replaying a journal

Replaying the entries of a journal leaves, in memory, for each key the last operation on it. The
rows of that table come from operations that fit a frame, so a table file can hold them, and they
take no more space there than the frames took in the journal.
-/

namespace KeyedStore

open Std (TreeMap)

namespace Operation

def key : Operation → Bytes
  | put key _ => key
  | delete key => key

/-- What an operation says about its key. -/
def version : Operation → Version
  | put _ value => .value value
  | delete _ => .tombstone

/-- The live value of a key after an operation, given the one before it. -/
def revise (op : Operation) (key : Bytes) (value? : Option Bytes) : Option Bytes :=
  if op.key = key then op.version.live? else value?

/-- The live value of a key after operations, done one after the other, given the one before them. -/
def reviseAll (ops : List Operation) (key : Bytes) (value? : Option Bytes) : Option Bytes :=
  ops.foldl (fun value? op => op.revise key value?) value?

theorem length_eq (op : Operation) : op.length = op.key.length + op.version.length := by
  cases op <;> rfl

theorem Loggable.delete_key {op : Operation} (h : op.Loggable) : (delete op.key).Loggable := by
  cases op with
  | delete key => exact h
  | put key value =>
    rw [Loggable] at h ⊢
    simp only [Operation.key, Journal.encodePayload, Journal.encodeBlob, List.length_append,
      Bytes.length_le] at h ⊢
    omega

/-- A key and a value that fit a frame have lengths that a table file can state. -/
theorem Loggable.lengths_lt {op : Operation} (h : op.Loggable) :
    op.key.length < Table.tombstoneMark ∧ op.version.length < Table.tombstoneMark := by
  have hsize := op.length_add_le_frameSize
  have hmark : Table.tombstoneMark = 4294967295 := rfl
  rw [Loggable, length_encodePayload, Journal.maxPayload, Journal.headerSize] at h
  rw [length_eq] at hsize
  rw [hmark]
  constructor <;> omega

end Operation

namespace MemTable

variable {m : MemTable} {op : Operation} {key : Bytes}

theorem apply_eq (m : MemTable) (op : Operation) : m.apply op = m.insert op.key op.version := by
  cases op <;> rfl

theorem entries_apply (m : MemTable) (op : Operation) :
    (m.apply op).entries = m.entries.insert op.key op.version := by
  rw [apply_eq, insert]

theorem get?_apply (m : MemTable) (op : Operation) (key : Bytes) :
    (m.apply op).get? key = if op.key = key then some op.version else m.get? key := by
  rw [get?, entries_apply, TreeMap.getElem?_insert, get?]
  by_cases hk : op.key = key
  · simp [hk]
  · simp [hk]

theorem isEmpty_apply (m : MemTable) (op : Operation) : (m.apply op).isEmpty = false := by
  rw [isEmpty, entries_apply, TreeMap.isEmpty_insert]

theorem lookup_toList (m : MemTable) (key : Bytes) : m.toList.lookup key = m.get? key :=
  Table.lookup_toList m.entries key

theorem toList_apply_perm (m : MemTable) (op : Operation) :
    (m.apply op).toList.Perm ((op.key, op.version) :: m.toList.filter (¬ op.key == ·.1)) := by
  rw [toList, entries_apply]
  exact TreeMap.toList_insert_perm

/-- The rows after an operation are its own and some of those before it. -/
theorem mem_toList_apply {row : Table.Row} (h : row ∈ (m.apply op).toList) :
    row = (op.key, op.version) ∨ row ∈ m.toList := by
  rcases List.mem_cons.1 ((toList_apply_perm m op).mem_iff.1 h) with rfl | h
  · exact Or.inl rfl
  · exact Or.inr (List.mem_filter.1 h).1

theorem storable_empty : Table.Storable ({} : MemTable).toList :=
  ⟨.nil, fun _ hrow => absurd hrow List.not_mem_nil⟩

theorem storable_apply (hm : Table.Storable m.toList) (hop : op.Loggable) :
    Table.Storable (m.apply op).toList where
  ascending := Table.ascending_toList _
  lengths row hrow := by
    rcases mem_toList_apply hrow with rfl | hrow
    · exact hop.lengths_lt
    · exact hm.lengths row hrow

theorem sum_map_toList_apply_le (f : Table.Row → Nat) (m : MemTable) (op : Operation) :
    ((m.apply op).toList.map f).sum ≤ f (op.key, op.version) + (m.toList.map f).sum := by
  rw [((toList_apply_perm m op).map f).sum_nat, List.map_cons, List.sum_cons]
  exact Nat.add_le_add_left (Table.sum_map_filter_le f _ _) _

end MemTable

namespace Engine

open Journal (Entry frames)

variable {log log' : List Entry} {e : Entry} {key : Bytes}

theorem replay_concat (log : List Entry) (e : Entry) :
    replay (log ++ [e]) = (replay log).apply e.operation := by
  simp [replay]

theorem isEmpty_replay : (replay log).isEmpty = log.isEmpty := by
  cases log using List.reverseRecOn with
  | nil => rfl
  | append_singleton log e =>
    rw [replay_concat, MemTable.isEmpty_apply]
    simp

theorem exists_of_mem_replay {row : Table.Row} (h : row ∈ (replay log).toList) :
    ∃ e ∈ log, row = (e.operation.key, e.operation.version) := by
  induction log using List.reverseRecOn with
  | nil => contradiction
  | append_singleton log e ih =>
    rw [replay_concat] at h
    rcases MemTable.mem_toList_apply h with rfl | h
    · exact ⟨e, by simp, rfl⟩
    · obtain ⟨e', he', hrow⟩ := ih h
      exact ⟨e', by simp [he'], hrow⟩

theorem storable_replay (h : ∀ e ∈ log, e.Fits) : Table.Storable (replay log).toList := by
  induction log using List.reverseRecOn with
  | nil => exact MemTable.storable_empty
  | append_singleton log e ih =>
    rw [replay_concat]
    have hlog := ih fun e' he' => h e' (List.mem_append_left _ he')
    exact MemTable.storable_apply hlog (Entry.fits_iff.1 (h e (by simp)))

/-- The rows left by a replay take no more than the frames in the journal, if that holds for the row
of each operation. -/
theorem sum_map_replay_le {f : Table.Row → Nat} {c : Nat}
    (hf : ∀ op : Operation, f (op.key, op.version) ≤ c * op.frameSize) (log : List Entry) :
    ((replay log).toList.map f).sum ≤ c * (frames log).length := by
  induction log using List.reverseRecOn with
  | nil => exact Nat.zero_le _
  | append_singleton log e ih =>
    have hstep := MemTable.sum_map_toList_apply_le f (replay log) e.operation
    have hrow := hf e.operation
    rw [replay_concat, Journal.frames_concat, List.length_append, e.length_frame, e.size_eq, Nat.mul_add]
    omega

/-- The rows left by a replay end in a table file where the frames end in the journal, or earlier. -/
theorem dataEnd_replay_le (log : List Entry) :
    Table.dataEnd (replay log).toList ≤ Table.headerSize + (frames log).length := by
  have hsum : ((replay log).toList.map Table.rowSize).sum ≤ 1 * (frames log).length := by
    refine sum_map_replay_le ?_ log
    intro op
    have hsize := op.length_add_le_frameSize
    rw [Operation.length_eq] at hsize
    change 8 + op.key.length + op.version.length ≤ _
    omega
  rw [Table.dataEnd_eq]
  omega

/-- The table file of a replay takes at most twice what the frames take, but for its two ends. -/
theorem fileSize_replay_le (log : List Entry) :
    Table.fileSize (replay log).toList ≤
      Table.headerSize + Table.footerSize + 2 * (frames log).length := by
  have hsum : ((replay log).toList.map Table.spaceOf).sum ≤ 2 * (frames log).length := by
    refine sum_map_replay_le ?_ log
    intro op
    have hsize := op.length_add_le_frameSize
    rw [Operation.length_eq] at hsize
    change 8 + op.key.length + op.version.length + (12 + op.key.length) ≤ _
    omega
  rw [Table.fileSize_eq]
  omega

/-- What a replay says about a key on top of an older value: the operations one after the other. -/
theorem elim_get?_replay (log : List Entry) (key : Bytes) (value? : Option Bytes) :
    ((replay log).get? key).elim value? Version.live? =
      Operation.reviseAll (log.map Entry.operation) key value? := by
  induction log using List.reverseRecOn with
  | nil => rfl
  | append_singleton log e ih =>
    rw [Operation.reviseAll] at ih ⊢
    rw [replay_concat, MemTable.get?_apply, List.map_append, List.foldl_append, ← ih]
    by_cases hk : e.operation.key = key
    · simp [hk, Operation.revise]
    · simp [hk, Operation.revise]

end Engine

end KeyedStore
