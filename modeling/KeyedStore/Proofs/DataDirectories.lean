import KeyedStore.Proofs.JournalFiles
import KeyedStore.Proofs.Replay
import KeyedStore.Proofs.ShelfChanges

/-!
# Data directories

A data directory holds layers of rows, as tables on its shelf, and entries, as frames in its journal.
It stands for the values that the layers give, revised by the entries one after the other. Recovery
makes the entries one more layer on top, which stands for the same values, whether or not the journal
still holds them afterwards.
-/

namespace KeyedStore

open Journal (Entry frames Stops)
open KeyedStore.Shelf (Layer Stores Keeps ofLayers valueIn nextNumber tableName)

/-- What a data directory holds: the layers of its shelf and the entries of its journal. -/
structure Holding where
  layers : List Layer
  log : List Entry

namespace Holding

variable {h : Holding} {key : Bytes}

def operations (h : Holding) : List Operation := h.log.map Entry.operation

/-- The live value that a key has. -/
def value (h : Holding) (key : Bytes) : Option Bytes :=
  Operation.reviseAll h.operations key (valueIn h.layers key)

/-- The layers after the entries were put on top of them under a given number. -/
def shelvedAs (h : Holding) (id : Nat) : List Layer :=
  if h.log.isEmpty then h.layers else (id, (Engine.replay h.log).toList) :: h.layers

def flushedAs (h : Holding) (id : Nat) : Holding := { layers := h.shelvedAs id, log := [] }

/-- The layers after the entries were put on top of them under the next number. -/
def shelved (h : Holding) : List Layer :=
  if h.log.isEmpty then h.layers
  else (nextNumber h.layers, (Engine.replay h.log).toList) :: h.layers

def flushed (h : Holding) : Holding := { layers := h.shelved, log := [] }

/-- What is held after recovery was interrupted: the entries became a layer and are still there. -/
def replayed (h : Holding) : Holding := { h with layers := h.shelved }

def compacted (h : Holding) : Holding := { layers := Shelf.compacted h.shelved, log := [] }

/-- All entries fit a frame, and so does a deletion of any key in the layers. -/
structure Fits (h : Holding) : Prop where
  entries : ∀ e ∈ h.log, e.Fits
  keys : ∀ l ∈ h.layers, ∀ row ∈ l.2, (Operation.delete row.1).Loggable

/-- The next table has a number of its own and rows that can be read. -/
structure Room (h : Holding) : Prop where
  numbers : nextNumber h.layers + 1 < Bytes.bound 8
  space : Table.headerSize + (frames h.log).length ≤ Table.Index.offsetLimit

theorem shelved_eq (h : Holding) : h.shelved = h.shelvedAs (nextNumber h.layers) := rfl

theorem length_shelved (h : Holding) :
    h.shelved.length = h.layers.length + if h.log.isEmpty then 0 else 1 := by
  rw [shelved]
  split <;> rfl

theorem valueIn_shelvedAs (h : Holding) (id : Nat) (key : Bytes) :
    valueIn (h.shelvedAs id) key = h.value key := by
  rw [value, operations, ← Engine.elim_get?_replay, shelvedAs]
  cases hlog : h.log with
  | nil => rfl
  | cons e log =>
    rw [List.isEmpty_cons, if_neg Bool.false_ne_true, valueIn, List.flatMap_cons, List.lookup_append,
      MemTable.lookup_toList, ← hlog]
    cases (Engine.replay h.log).get? key with
    | none => rfl
    | some v => rfl

theorem valueIn_shelved (h : Holding) (key : Bytes) : valueIn h.shelved key = h.value key :=
  h.valueIn_shelvedAs _ key

theorem value_flushedAs (h : Holding) (id : Nat) (key : Bytes) :
    (h.flushedAs id).value key = h.value key :=
  h.valueIn_shelvedAs id key

theorem value_flushed (h : Holding) (key : Bytes) : h.flushed.value key = h.value key :=
  h.valueIn_shelved key

theorem value_replayed (h : Holding) (key : Bytes) : h.replayed.value key = h.value key := by
  have hvalue := h.valueIn_shelved key
  rw [value, operations, ← Engine.elim_get?_replay] at hvalue ⊢
  change ((Engine.replay h.log).get? key).elim (valueIn h.shelved key) Version.live? = _
  rw [hvalue, value, operations, ← Engine.elim_get?_replay]
  cases (Engine.replay h.log).get? key with
  | none => rfl
  | some v => rfl

theorem value_compacted (h : Holding) (key : Bytes) : h.compacted.value key = h.value key := by
  rw [← valueIn_shelved h, ← Shelf.valueIn_compacted]
  rfl

theorem Fits.shelvedAs (hf : h.Fits) (id : Nat) :
    ∀ l ∈ h.shelvedAs id, ∀ row ∈ l.2, (Operation.delete row.1).Loggable := by
  intro l hl row hrow
  rw [Holding.shelvedAs] at hl
  split at hl
  · exact hf.keys l hl row hrow
  · rcases List.mem_cons.1 hl with rfl | hl
    · obtain ⟨e, he, rfl⟩ := Engine.exists_of_mem_replay hrow
      exact (Entry.fits_iff.1 (hf.entries e he)).delete_key
    · exact hf.keys l hl row hrow

theorem Fits.shelved (hf : h.Fits) :
    ∀ l ∈ h.shelved, ∀ row ∈ l.2, (Operation.delete row.1).Loggable :=
  hf.shelvedAs _

theorem Fits.delete (hf : h.Fits) (hv : (h.value key).isSome) : (Operation.delete key).Loggable := by
  rw [← valueIn_shelved, valueIn] at hv
  obtain ⟨v, hlookup, -⟩ := Option.bind_eq_some_iff.1 (Option.eq_some_of_isSome hv)
  obtain ⟨l, hl, hrow⟩ := List.mem_flatMap.1 (Table.mem_of_lookup hlookup)
  exact hf.shelved l hl (key, v) hrow

theorem fits_compacted (hf : h.Fits) : h.compacted.Fits := by
  refine ⟨by simp [compacted], ?_⟩
  intro l hl row hrow
  rw [compacted, Shelf.compacted] at hl
  split at hl
  · exact hf.shelved l hl row hrow
  · rw [List.mem_singleton.1 hl] at hrow
    obtain ⟨l', hl', hrow'⟩ := Shelf.mem_of_mem_mergedRows hrow
    exact hf.shelved l' hl' row hrow'

theorem sound_replayAs (hf : h.Fits) {id : Nat} (hn : id + 1 < Bytes.bound 8)
    (hspace : Table.headerSize + (frames h.log).length ≤ Table.Index.offsetLimit) :
    Shelf.Sound (id, (Engine.replay h.log).toList) where
  numbered := hn
  storable := Engine.storable_replay hf.entries
  inReach := Nat.le_trans (Engine.dataEnd_replay_le h.log) hspace

theorem sound_replay (hf : h.Fits) (hr : h.Room) :
    Shelf.Sound (nextNumber h.layers, (Engine.replay h.log).toList) :=
  sound_replayAs hf hr.numbers hr.space

end Holding

namespace Engine

variable {d d' : Disk} {dir : Path} {root : Place} {h : Holding} {tail : Bytes} {layers : List Layer}

def tablePlace (root : Place) : Place := root ++ ["sstables"]

def shelfOf (d : Disk) (dir : Path) (root : Place) (layers : List Layer) : Shelf :=
  ofLayers d (tableDir dir) (tablePlace root) layers

/-- A data directory that holds layers and entries, and behind the entries a torn piece. Beside the
tables there may be directories. -/
structure Stored (d : Disk) (dir : Path) (root : Place) (h : Holding) (tail : Bytes) : Prop where
  logs : Logs d dir root h.log tail
  tables : Stores d (tableDir dir) (tablePlace root) h.layers
  apart : ∀ name, d.nodes[tablePlace root ++ [name]]? ≠ some (.file (journalFile d root))
  keys : ∀ l ∈ h.layers, ∀ row ∈ l.2, (Operation.delete row.1).Loggable

/-- A data directory that holds layers and entries, and behind the entries a torn piece. -/
structure Kept (d : Disk) (dir : Path) (root : Place) (h : Holding) (tail : Bytes) : Prop where
  logs : Logs d dir root h.log tail
  tables : Keeps d (tableDir dir) (tablePlace root) h.layers
  apart : ∀ name, d.nodes[tablePlace root ++ [name]]? ≠ some (.file (journalFile d root))
  keys : ∀ l ∈ h.layers, ∀ row ∈ l.2, (Operation.delete row.1).Loggable

theorem plainName_tables : PlainName "sstables" :=
  .of_not_mem (by decide) (by decide) (by decide)

theorem journalPlace_ne (root : Place) (name : String) :
    journalPlace root ≠ tablePlace root ++ [name] := by
  rw [journalPlace, tablePlace, List.append_assoc]
  intro he
  simpa using congrArg List.length (List.append_cancel_left he)

theorem Kept.stored (hk : Kept d dir root h tail) : Stored d dir root h tail :=
  ⟨hk.logs, hk.tables.toStores, hk.apart, hk.keys⟩

theorem Stored.kept (hs : Stored d dir root h tail)
    (hclear : ∀ name, d.nodes[tablePlace root ++ [name]]? ≠ some .directory) :
    Kept d dir root h tail :=
  ⟨hs.logs, ⟨hs.tables, hclear⟩, hs.apart, hs.keys⟩

namespace Stored

theorem fits (hs : Stored d dir root h tail) : h.Fits := ⟨hs.logs.fits, hs.keys⟩

theorem rewrite {log : List Entry} {tail' : Bytes} (hs : Stored d dir root h tail)
    (hr : d.Rewrites d' (journalFile d root)) (hlogs : Logs d' dir root log tail') :
    Stored d' dir root { h with log } tail' := by
  have hfile : journalFile d' root = journalFile d root := hr.fileAt_eq _
  refine ⟨hlogs, ?_, ?_, hs.keys⟩
  · refine hs.tables.frame hr.here (fun p hp => by rw [hr.nodes, hp]) (fun name => by rw [hr.nodes])
      (Nat.le_of_eq hr.size.symm) ?_
    intro l hl
    refine hr.content _ ?_
    intro he
    obtain ⟨id, hnode, -⟩ := hs.tables.files l hl
    rw [Disk.fileAt_eq hnode] at he
    rw [he] at hnode
    exact hs.apart _ hnode
  · intro name
    rw [hr.nodes, hfile]
    exact hs.apart name

theorem change_tables (hs : Stored d dir root h tail) (hspares : d.Spares d' (tablePlace root))
    (ht : Stores d' (tableDir dir) (tablePlace root) layers)
    (hkeys : ∀ l ∈ layers, ∀ row ∈ l.2, (Operation.delete row.1).Loggable) :
    Stored d' dir root { h with layers } tail ∧ journalFile d' root = journalFile d root := by
  obtain ⟨hlogs, hfile⟩ := hs.logs.spare hspares (journalPlace_ne root)
  refine ⟨⟨hlogs, ht, ?_, hkeys⟩, hfile⟩
  intro name hn
  rw [hfile] at hn
  rcases hspares.named name _ hn with hn | hle
  · exact hs.apart name hn
  · exact Nat.not_lt.2 hle hs.logs.inside

end Stored

namespace Kept

theorem fits (hk : Kept d dir root h tail) : h.Fits := hk.stored.fits

theorem rewrite {log : List Entry} {tail' : Bytes} (hk : Kept d dir root h tail)
    (hr : d.Rewrites d' (journalFile d root)) (hlogs : Logs d' dir root log tail') :
    Kept d' dir root { h with log } tail' ∧
      shelfOf d' dir root h.layers = shelfOf d dir root h.layers := by
  refine ⟨(hk.stored.rewrite hr hlogs).kept ?_, Shelf.ofLayers_congr fun l _ => by rw [hr.nodes]⟩
  intro name
  rw [hr.nodes]
  exact hk.tables.clear name

theorem change_tables (hk : Kept d dir root h tail) (hs : d.Spares d' (tablePlace root))
    (ht : Keeps d' (tableDir dir) (tablePlace root) layers)
    (hkeys : ∀ l ∈ layers, ∀ row ∈ l.2, (Operation.delete row.1).Loggable) :
    Kept d' dir root { h with layers } tail ∧ journalFile d' root = journalFile d root := by
  obtain ⟨hstored, hfile⟩ := hk.stored.change_tables hs ht.toStores hkeys
  exact ⟨hstored.kept ht.clear, hfile⟩

end Kept

/-! ### Recovery -/

/-- Recovery puts the entries of the journal on top of the shelf that it opened, if there are any. -/
theorem Logs.recoverTables {log : List Entry} {s : Shelf} (hlogs : Logs d dir root log tail)
    (hopen : Shelf.openAt (tableDir dir) d = .ok s d) :
    ∃ d' tail', Engine.recoverTables dir d =
        (if log.isEmpty then .ok s d' else withTable s (replay log) d') ∧
      Logs d' dir root log tail' ∧ d.Rewrites d' (journalFile d root) := by
  obtain ⟨report, d', tail', hrecover, hlogs', hrewrites⟩ := hlogs.recover
  refine ⟨d', tail', ?_, hlogs', hrewrites⟩
  simp only [Engine.recoverTables, bind, EStateM.bind, hlogs.reaches.makeDirectories (by omega), hopen,
    get, getThe, MonadStateOf.get, EStateM.get, hlogs.has_eq, Bool.not_true, Bool.false_eq_true,
    if_false, hrecover, isEmpty_replay, pure]
  split <;> rfl

/-- Recovery makes the entries one more layer; the journal keeps them. -/
theorem Stored.recoverTables (hs : Stored d dir root h tail) (hr : h.Room)
    (hfree : h.log.isEmpty = false →
      d.nodes[tablePlace root ++ [tableName (nextNumber h.layers)]]? = none) :
    ∃ d' tail', Engine.recoverTables dir d = .ok (shelfOf d' dir root h.shelved) d' ∧
      Stored d' dir root h.replayed tail' ∧ d.AddsNoDirectory d' (tablePlace root) := by
  obtain ⟨d₁, tail₁, hrecover, hlogs₁, hrewrites⟩ := hs.logs.recoverTables hs.tables.openAt
  have hs₁ := hs.rewrite hrewrites hlogs₁
  have hshelf : shelfOf d₁ dir root h.layers = shelfOf d dir root h.layers :=
    Shelf.ofLayers_congr fun l _ => by rw [hrewrites.nodes]
  rw [shelfOf, shelfOf] at hshelf
  rw [← hshelf] at hrecover
  rw [hrecover, Holding.replayed]
  have hkeys := hs.fits.shelved
  rw [Holding.shelved] at hkeys ⊢
  cases hlog : h.log.isEmpty with
  | true =>
    simp only [if_true]
    refine ⟨d₁, tail₁, rfl, hs₁, ?_⟩
    intro name hname
    rwa [hrewrites.nodes] at hname
  | false =>
    rw [hlog] at hkeys
    simp only [Bool.false_eq_true, if_false] at hkeys ⊢
    have hne : (replay h.log).isEmpty = false := by rw [isEmpty_replay, hlog]
    have hfree₁ := hfree hlog
    rw [← hrewrites.nodes] at hfree₁
    obtain ⟨d', hflush, hstores, hspares⟩ := hs₁.tables.flush hne (h.sound_replay hs.fits hr)
      (fun _ hl => hs.tables.lt_nextNumber hl) hfree₁
    refine ⟨d', tail₁, ?_, (hs₁.change_tables hspares hstores hkeys).1, ?_⟩
    · change Shelf.flush _ (ofLayers d₁ (tableDir dir) (tablePlace root) h.layers, d₁) = _ at hflush
      simp only [withTable, hflush]
      rfl
    · intro name hname
      have hname₁ := hspares.clear name hname
      rwa [hrewrites.nodes] at hname₁

theorem Kept.recoverTables (hk : Kept d dir root h tail) (hr : h.Room) :
    ∃ d' tail', Engine.recoverTables dir d = .ok (shelfOf d' dir root h.shelved) d' ∧
      Kept d' dir root h.replayed tail' := by
  obtain ⟨d', tail', hrecover, hs', hclear⟩ := hk.stored.recoverTables hr fun _ => hk.tables.free
  exact ⟨d', tail', hrecover, hs'.kept fun name hname => hk.tables.clear name (hclear name hname)⟩

end Engine

end KeyedStore
