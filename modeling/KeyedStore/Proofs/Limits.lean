import KeyedStore.Proofs.EngineStates

/-!
# Limits of data directories

Table numbers and file offsets have 64 bits. A data directory is within its limits as long as some
numbers are left and its files take less than a sixteenth of all offsets; then the next table can
be numbered, written and read. The weight of what a directory holds bounds the files that it leads to:
a logged operation adds to the weight, and neither flushing nor compaction does.
-/

namespace KeyedStore

open Journal (Entry frames)
open KeyedStore.Shelf (Layer nextNumber mergedRows)
open Table Bytes

namespace Holding

variable {h : Holding} {n w : Nat}

def tableSpace (h : Holding) : Nat := (h.layers.map fun l => fileSize l.2).sum

/-- A bound on what the files take, now and after the entries became a table. -/
def weight (h : Holding) : Nat :=
  h.tableSpace + (2 * (frames h.log).length + if h.log.isEmpty then 0 else headerSize + footerSize)

/-- What one more operation adds to the weight at most; one that cannot be logged adds nothing. -/
def weightOf (op : Operation) : Nat :=
  if op.Loggable then 2 * op.frameSize + (headerSize + footerSize) else 0

theorem weightOf_le (op : Operation) : weightOf op ≤ bound 4 := by
  rw [weightOf]
  split
  · next hop =>
    rw [Operation.Loggable, Journal.maxPayload] at hop
    rw [Operation.frameSize, Journal.headerSize, headerSize, footerSize, bound_four]
    omega
  · exact Nat.zero_le _

/-- Some table numbers are left, and the weight is bounded. -/
structure Within (h : Holding) (n w : Nat) : Prop where
  numbers : nextNumber h.layers + n < bound 8
  weight : h.weight ≤ w

theorem Within.mono {fewer more : Nat} (hw : h.Within n w) (hn : fewer ≤ n) (hm : w ≤ more) :
    h.Within fewer more :=
  ⟨Nat.lt_of_le_of_lt (Nat.add_le_add_left hn _) hw.numbers, Nat.le_trans hw.weight hm⟩

theorem nextNumber_shelved_le (hn : nextNumber h.layers + 1 < bound 8) :
    nextNumber h.shelved ≤ nextNumber h.layers + 1 := by
  rw [shelved]
  split
  · exact Nat.le_succ _
  · exact Nat.le_of_eq (Shelf.idAfter_eq hn)

theorem tableSpace_flushedAs_le (h : Holding) (id : Nat) : (h.flushedAs id).tableSpace ≤ h.weight := by
  rw [flushedAs, tableSpace, shelvedAs, weight]
  split
  · exact Nat.le_add_right _ _
  · have hfile := Engine.fileSize_replay_le h.log
    rw [List.map_cons, List.sum_cons, tableSpace]
    dsimp only
    omega

theorem tableSpace_flushed_le (h : Holding) : h.flushed.tableSpace ≤ h.weight :=
  h.tableSpace_flushedAs_le _

theorem weight_of_log_eq_nil (hlog : h.log = []) : h.weight = h.tableSpace := by
  rw [weight, hlog]
  rfl

theorem weight_flushedAs_le (h : Holding) (id : Nat) : (h.flushedAs id).weight ≤ h.weight := by
  rw [weight_of_log_eq_nil rfl]
  exact h.tableSpace_flushedAs_le id

theorem weight_accept_le (h : Holding) {e : Entry} (he : e.operation.Loggable) :
    Holding.weight { h with log := h.log ++ [e] } ≤ h.weight + weightOf e.operation := by
  have hempty : (h.log ++ [e]).isEmpty = false := by simp
  rw [Holding.weight, Holding.weight, weightOf, if_pos he, hempty, if_neg Bool.false_ne_true,
    Journal.frames_concat, List.length_append, e.length_frame, e.size_eq]
  change h.tableSpace + _ ≤ _
  omega

namespace Within

theorem accept (hw : h.Within n w) {e : Entry} (he : e.operation.Loggable) :
    Within { h with log := h.log ++ [e] } n (w + weightOf e.operation) :=
  ⟨hw.numbers, Nat.le_trans (h.weight_accept_le he) (Nat.add_le_add_right hw.weight _)⟩

theorem flushed (hw : h.Within (n + 1) w) : h.flushed.Within n w := by
  have hnumbers := hw.numbers
  have hnext := nextNumber_shelved_le (h := h) (by omega)
  refine ⟨?_, ?_⟩
  · change nextNumber h.shelved + n < bound 8
    omega
  · rw [weight_of_log_eq_nil rfl]
    exact Nat.le_trans h.tableSpace_flushed_le hw.weight

theorem compacted (hw : h.Within (n + 2) w) : h.compacted.Within n w := by
  have hflushed : h.flushed.Within (n + 1) w := Within.flushed hw
  have hnumbers := hflushed.numbers
  have hweight := hflushed.weight
  rw [weight_of_log_eq_nil rfl] at hweight
  change nextNumber h.shelved + _ < _ at hnumbers
  by_cases hlen : h.shelved.length < 2
  · have hsame : h.compacted = h.flushed := by
      rw [Holding.compacted, Shelf.compacted, if_pos hlen, Holding.flushed]
    rw [hsame]
    exact hflushed.mono (Nat.le_succ _) (Nat.le_refl _)
  · have hone : h.compacted.layers = [(nextNumber h.shelved, mergedRows h.shelved)] := by
      rw [Holding.compacted, Shelf.compacted, if_neg hlen]
    have hne : h.shelved ≠ [] := by
      intro he
      rw [he] at hlen
      exact hlen (by decide)
    refine ⟨?_, ?_⟩
    · rw [hone, Shelf.nextNumber_cons, Shelf.idAfter_eq (by omega)]
      change nextNumber h.shelved + 1 + n < bound 8
      omega
    · rw [weight_of_log_eq_nil rfl, tableSpace, hone]
      exact Nat.le_trans (Shelf.fileSize_mergedRows_le hne) hweight

theorem room (hw : h.Within (n + 1) w) (hsmall : w ≤ bound 8 / 3) : h.Room := by
  have hnumbers := hw.numbers
  have hweight := hw.weight
  rw [Holding.weight] at hweight
  refine ⟨by omega, ?_⟩
  rw [Index.offsetLimit, Index.blockSize, headerSize]
  rw [bound_eight] at hsmall ⊢
  omega

theorem sound_mergedRows (hw : h.Within (n + 2) w) (hs : ∀ l ∈ h.shelved, Storable l.2)
    (hsmall : w ≤ bound 8 / 3) : Shelf.Sound (nextNumber h.shelved, mergedRows h.shelved) := by
  have hflushed : h.flushed.Within (n + 1) w := Within.flushed hw
  have hnumbers := hflushed.numbers
  have hweight := hflushed.weight
  rw [weight_of_log_eq_nil rfl] at hweight
  change nextNumber h.shelved + _ < _ at hnumbers
  refine ⟨by dsimp only; omega, Shelf.storable_mergedRows hs, ?_⟩
  have hmerge := Shelf.sum_map_mergedRows_le spaceOf h.shelved
  have hrows : ((h.shelved.flatMap Prod.snd).map spaceOf).sum ≤ h.flushed.tableSpace :=
    Shelf.sum_spaceOf_le h.shelved
  have hend := dataEnd_le_fileSize (mergedRows h.shelved)
  rw [fileSize_eq, headerSize, footerSize] at hend
  rw [Index.offsetLimit, Index.blockSize]
  rw [bound_eight] at hsmall ⊢
  dsimp only
  omega

end Within

end Holding

namespace Engine

variable {d : Disk} {dir : Path} {root : Place} {h : Holding} {tail : Bytes} {e : Engine}

/-- The number of bytes in the tables and the journal of a data directory. -/
def footprint (d : Disk) (dir : Path) : Nat :=
  ((Shelf.tableIds d (tableDir dir)).map fun id =>
    (d.size? (Shelf.tablePath (tableDir dir) id)).getD 0).sum + (d.size? (journalPath dir)).getD 0

/-- A data directory in which some table numbers are left, and whose files are far from the largest
offset, past which no file can be read or written. -/
structure WithinLimits (d : Disk) (dir : Path) : Prop where
  numbers : ∀ id ∈ Shelf.tableIds d (tableDir dir), id + 3 < bound 8
  space : footprint d dir ≤ bound 8 / 16

theorem Stored.footprint_eq (hs : Stored d dir root h tail) :
    footprint d dir = h.tableSpace + ((frames h.log).length + tail.length) := by
  have htables : (Shelf.tableIds d (tableDir dir)).map (fun id =>
      (d.size? (Shelf.tablePath (tableDir dir) id)).getD 0) = h.layers.map fun l => fileSize l.2 := by
    rw [hs.tables.tableIds, List.map_map]
    refine List.map_congr_left ?_
    intro l hl
    have hid := (hs.tables.sound l hl).lt
    have hfind := hs.tables.reaches.find (Shelf.plainName_tableName hid)
      (Shelf.utf8ByteSize_tableName_lt hid)
    obtain ⟨hfile, -, hcontent⟩ := hs.tables.file hl
    rw [hfile] at hfind
    simp only [Function.comp_apply, Disk.size?, Shelf.tablePath, hfind, Option.getD_some]
    rw [← Disk.length_content, hcontent, length_encode]
  have hjournal : d.size? (journalPath dir) = some ((frames h.log).length + tail.length) := by
    have hfind := hs.logs.reaches.find plainName_journal (by decide)
    rw [← journalPlace, hs.logs.node] at hfind
    simp only [Disk.size?, journalPath, hfind, hs.logs.length_eq]
  rw [footprint, htables, hjournal]
  rfl

theorem Stored.weight_le (hs : Stored d dir root h tail) (hw : WithinLimits d dir) :
    h.weight ≤ bound 8 / 4 := by
  have hspace := hw.space
  rw [hs.footprint_eq] at hspace
  have hends : (if h.log.isEmpty then 0 else headerSize + footerSize) ≤ 30 := by
    split <;> decide
  rw [Holding.weight]
  rw [bound_eight] at hspace ⊢
  omega

theorem Stored.within (hs : Stored d dir root h tail) (hw : WithinLimits d dir) :
    h.Within 2 (bound 8 / 4) := by
  refine ⟨?_, hs.weight_le hw⟩
  have hnumbers := hw.numbers
  rw [hs.tables.tableIds] at hnumbers
  cases hlayers : h.layers with
  | nil => decide
  | cons l layers =>
    have hl := hnumbers l.1 (by simp [hlayers])
    rw [Shelf.nextNumber_cons, Shelf.idAfter_eq (by omega)]
    omega

theorem Stored.withinLimits (hs : Stored d dir root h []) (hw : h.Within 2 (bound 8 / 16)) :
    WithinLimits d dir := by
  have hweight := hw.weight
  refine ⟨?_, ?_⟩
  · intro id hid
    rw [hs.tables.tableIds] at hid
    obtain ⟨l, hl, rfl⟩ := List.mem_map.1 hid
    have hlt := hs.tables.lt_nextNumber hl
    have hnumbers := hw.numbers
    omega
  · rw [hs.footprint_eq, List.length_nil]
    rw [Holding.weight] at hweight
    omega

namespace Kept

theorem within (hk : Kept d dir root h tail) (hw : WithinLimits d dir) :
    h.Within 2 (bound 8 / 4) :=
  hk.stored.within hw

theorem withinLimits (hk : Kept d dir root h []) (hw : h.Within 2 (bound 8 / 16)) :
    WithinLimits d dir :=
  hk.stored.withinLimits hw

end Kept

end Engine

end KeyedStore
