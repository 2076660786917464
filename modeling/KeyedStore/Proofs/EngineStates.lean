import KeyedStore.Proofs.DataDirectories

/-!
# States of an engine

An engine is steady if its parts agree with the data directory that it works on: the loaded shelf with
the layers there, the table in memory with the entries of the journal. It then gives for every key the
value that the directory holds. It is sound if moreover no table number was used up in vain and nothing
but tables stands in the directory of the tables; each step leaves a sound engine sound.
-/

namespace KeyedStore.Engine

open Journal (Entry frames Stops)
open KeyedStore.Shelf (Layer Keeps idAfter nextNumber numbered mergedRows tableName)
open Bytes

variable {d : Disk} {dir : Path} {root : Place} {h : Holding} {tail : Bytes} {e : Engine}
  {op : Operation}

/-- An engine whose parts agree with what its data directory holds. Some table numbers may be used
up, and directories may stand beside the tables. -/
structure Steady (e : Engine) (d : Disk) (root : Place) (h : Holding) : Prop where
  stored : Stored d e.dir root h []
  shelf : e.shelf = numbered d (tableDir e.dir) (tablePlace root) e.shelf.nextId h.layers
  below : ∀ l ∈ h.layers, l.1 < e.shelf.nextId
  memtable : e.memtable = replay h.log
  file : e.journal.file = journalFile d root
  position : e.journal.position = (frames h.log).length

/-- An engine whose parts agree with a data directory that holds nothing else. -/
structure Sound (e : Engine) (d : Disk) (root : Place) (h : Holding) : Prop where
  kept : Kept d e.dir root h []
  shelf : e.shelf = shelfOf d e.dir root h.layers
  memtable : e.memtable = replay h.log
  file : e.journal.file = journalFile d root
  position : e.journal.position = (frames h.log).length

theorem Sound.nextId_eq (hs : e.Sound d root h) : e.shelf.nextId = nextNumber h.layers := by
  rw [hs.shelf]
  rfl

theorem Sound.steady (hs : e.Sound d root h) : e.Steady d root h where
  stored := hs.kept.stored
  shelf := by
    rw [hs.nextId_eq, hs.shelf]
    rfl
  below l hl := by
    rw [hs.nextId_eq]
    exact hs.kept.tables.lt_nextNumber hl
  memtable := hs.memtable
  file := hs.file
  position := hs.position

theorem Steady.sound (hs : e.Steady d root h) (hn : e.shelf.nextId = nextNumber h.layers)
    (hclear : ∀ name, d.nodes[tablePlace root ++ [name]]? ≠ some .directory) : e.Sound d root h where
  kept := hs.stored.kept hclear
  shelf := by
    rw [hs.shelf, hn]
    rfl
  memtable := hs.memtable
  file := hs.file
  position := hs.position

/-! ### Opening -/

theorem openAt_eq_ok {d₁ d₂ : Disk} {shelf : Shelf} {journal : Journal.Writer} {config : Config}
    (hrecover : Engine.recoverTables dir d = .ok shelf d₁)
    (hjournal : (do (← Journal.Writer.openAt (journalPath dir) config.sync).reset :
      DiskM Journal.Writer) d₁ = .ok journal d₂) :
    Engine.openAt dir config d =
      .ok { dir, memtableLimit := config.memtableLimit, shelf, journal } d₂ := by
  simp only [bind, EStateM.bind] at hjournal
  simp only [Engine.openAt, bind, EStateM.bind, hrecover]
  split at hjournal
  · next =>
    simp only [hjournal]
    rfl
  · contradiction

theorem Stored.openAt (hs : Stored d dir root h tail) (hr : h.Room)
    (hfree : h.log.isEmpty = false →
      d.nodes[tablePlace root ++ [tableName (nextNumber h.layers)]]? = none) (config : Config) :
    ∃ e d', Engine.openAt dir config d = .ok e d' ∧ e.Steady d' root h.flushed ∧ e.dir = dir ∧
      e.shelf.nextId = nextNumber h.shelved ∧ d.AddsNoDirectory d' (tablePlace root) := by
  obtain ⟨d₁, tail₁, hrecover, hs₁, hclear⟩ := hs.recoverTables hr hfree
  obtain ⟨d₂, hjournal, hlogs, hrewrites⟩ := hs₁.logs.openReset config.sync
  have hs₂ := hs₁.rewrite hrewrites hlogs
  refine ⟨_, d₂, openAt_eq_ok hrecover hjournal,
    ⟨hs₂, ?_, fun _ hl => hs₂.tables.lt_nextNumber hl, rfl, (hrewrites.fileAt_eq _).symm, rfl⟩, rfl,
    rfl, ?_⟩
  · refine Shelf.numbered_congr fun l _ => ?_
    rw [hrewrites.nodes]
  · intro name hname
    rw [hrewrites.nodes] at hname
    exact hclear name hname

theorem Kept.openAt (hk : Kept d dir root h tail) (hr : h.Room) (config : Config) :
    ∃ e d', Engine.openAt dir config d = .ok e d' ∧ e.Sound d' root h.flushed ∧ e.dir = dir := by
  obtain ⟨e, d', hopen, hs, hdir, hnext, hclear⟩ := hk.stored.openAt hr (fun _ => hk.tables.free) config
  exact ⟨e, d', hopen, hs.sound hnext fun name hname => hk.tables.clear name (hclear name hname), hdir⟩

/-! ### Reading -/

theorem Steady.shelf_get? (hs : e.Steady d root h) (key : Bytes) :
    e.shelf.get? d key = .ok (Shelf.valueIn h.layers key) := by
  rw [hs.shelf]
  exact hs.stored.tables.get? key

theorem Steady.get? (hs : e.Steady d root h) (key : Bytes) : e.get? d key = .ok (h.value key) := by
  rw [Engine.get?, hs.memtable, Holding.value, Holding.operations, ← elim_get?_replay]
  cases (replay h.log).get? key with
  | none => exact hs.shelf_get? key
  | some v => rfl

theorem Steady.contains (hs : e.Steady d root h) (key : Bytes) :
    e.contains d key = .ok (h.value key).isSome := by
  simp only [Engine.contains, hs.get?, bind, Except.bind]
  rfl

theorem Sound.shelf_get? (hs : e.Sound d root h) (key : Bytes) :
    e.shelf.get? d key = .ok (Shelf.valueIn h.layers key) :=
  hs.steady.shelf_get? key

theorem Sound.get? (hs : e.Sound d root h) (key : Bytes) : e.get? d key = .ok (h.value key) :=
  hs.steady.get? key

theorem Sound.contains (hs : e.Sound d root h) (key : Bytes) :
    e.contains d key = .ok (h.value key).isSome :=
  hs.steady.contains key

/-! ### Writing -/

def entryOf (e : Engine) (op : Operation) : Entry :=
  { lsn := e.journal.nextLsn, operation := op, time := e.clock }

theorem Steady.accept (hs : e.Steady d root h) (hop : op.Loggable) :
    ∃ journal d', Engine.accept op (e, d) =
        .ok () ({ e with journal, memtable := e.memtable.apply op }, d') ∧
      Steady { e with journal, memtable := e.memtable.apply op } d' root
        { h with log := h.log ++ [e.entryOf op] } ∧ d'.nodes = d.nodes := by
  obtain ⟨w, d', happend, hfile, hposition, hlogs, hrewrites⟩ :=
    hs.stored.logs.append hs.file hs.position hop e.clock
  refine ⟨w, d', ?_, ⟨hs.stored.rewrite hrewrites hlogs, ?_, hs.below, ?_, ?_, ?_⟩, hrewrites.nodes⟩
  · simp only [Engine.accept, onJournal, bind, EStateM.bind, get, getThe, MonadStateOf.get,
      EStateM.get, focus, happend, modify, modifyGet, MonadStateOf.modifyGet, EStateM.modifyGet,
      pure, EStateM.pure]
  · refine hs.shelf.trans (Shelf.numbered_congr fun l _ => ?_)
    rw [hrewrites.nodes]
  · change e.memtable.apply op = _
    rw [replay_concat, hs.memtable]
    rfl
  · exact hfile.trans (hs.file.trans (hrewrites.fileAt_eq _).symm)
  · exact hposition

theorem Sound.accept (hs : e.Sound d root h) (hop : op.Loggable) :
    ∃ e' d', Engine.accept op (e, d) = .ok () (e', d') ∧
      e'.Sound d' root { h with log := h.log ++ [e.entryOf op] } ∧ e'.dir = e.dir := by
  obtain ⟨journal, d', haccept, hs', hnodes⟩ := hs.steady.accept hop
  refine ⟨_, d', haccept, hs'.sound hs.nextId_eq ?_, rfl⟩
  rw [hnodes]
  exact hs.kept.tables.clear

/-! ### Flushing -/

theorem Steady.shelvedAs_eq (hs : e.Steady d root h) (hm : e.memtable.isEmpty = false) (id : Nat) :
    h.shelvedAs id = (id, (replay h.log).toList) :: h.layers := by
  rw [Holding.shelvedAs, if_neg]
  rw [← isEmpty_replay, ← hs.memtable, hm]
  exact Bool.false_ne_true

/-- The first part of flushing: the entries become a layer and are still in the journal. -/
theorem Steady.shelve (hs : e.Steady d root h) (hm : e.memtable.isEmpty = false)
    (hn : e.shelf.nextId + 1 < bound 8)
    (hspace : Table.headerSize + (frames h.log).length ≤ Table.Index.offsetLimit)
    (hfree : d.nodes[tablePlace root ++ [tableName e.shelf.nextId]]? = none) :
    ∃ info d', Shelf.flush e.memtable (e.shelf, d) = .ok info
        (numbered d' (tableDir e.dir) (tablePlace root) (idAfter e.shelf.nextId)
          (h.shelvedAs e.shelf.nextId), d') ∧
      Stored d' e.dir root { h with layers := h.shelvedAs e.shelf.nextId } [] ∧
      journalFile d' root = journalFile d root ∧ d.AddsNoDirectory d' (tablePlace root) := by
  have hkeys := hs.stored.fits.shelvedAs e.shelf.nextId
  have hshelved := hs.shelvedAs_eq hm e.shelf.nextId
  rw [hs.memtable] at hm
  obtain ⟨d', hflush, hstores, hspares⟩ := hs.stored.tables.flush hm
    (Holding.sound_replayAs hs.stored.fits hn hspace) hs.below hfree
  rw [← hs.shelf, ← hshelved] at hflush
  rw [← hshelved] at hstores
  rw [hs.memtable]
  obtain ⟨hstored, hfile⟩ := hs.stored.change_tables hspares hstores hkeys
  exact ⟨_, d', hflush, hstored, hfile, hspares.clear⟩

theorem flush_of_isEmpty (hm : e.memtable.isEmpty = true) : Engine.flush (e, d) = .ok () (e, d) := by
  simp only [Engine.flush, bind, EStateM.bind, get, getThe, MonadStateOf.get, EStateM.get, hm, if_true,
    pure, EStateM.pure]

theorem Steady.flush (hs : e.Steady d root h) (hm : e.memtable.isEmpty = false)
    (hn : e.shelf.nextId + 1 < bound 8)
    (hspace : Table.headerSize + (frames h.log).length ≤ Table.Index.offsetLimit)
    (hfree : d.nodes[tablePlace root ++ [tableName e.shelf.nextId]]? = none) :
    ∃ e' d', Engine.flush (e, d) = .ok () (e', d') ∧
      e'.Steady d' root (h.flushedAs e.shelf.nextId) ∧ e'.dir = e.dir ∧
      e'.shelf.nextId = idAfter e.shelf.nextId ∧ d.AddsNoDirectory d' (tablePlace root) := by
  obtain ⟨info, d₁, hflush, hstored, hfile, hclear⟩ := hs.shelve hm hn hspace hfree
  obtain ⟨d₂, hreset, hlogs, hrewrites⟩ := hstored.logs.reset (hs.file.trans hfile.symm)
  refine ⟨{ e with
    shelf := numbered d₁ (tableDir e.dir) (tablePlace root) (idAfter e.shelf.nextId)
      (h.shelvedAs e.shelf.nextId)
    memtable := {}
    journal := { e.journal with position := 0, nextLsn := 1, unsynced := 0 } }, d₂, ?_,
    ⟨hstored.rewrite hrewrites hlogs, ?_, ?_, rfl, ?_, rfl⟩, rfl, rfl, ?_⟩
  · simp only [Engine.flush, onShelf, onJournal, bind, EStateM.bind, get, getThe, MonadStateOf.get,
      EStateM.get, hm, Bool.false_eq_true, if_false, focus, hflush, modify, modifyGet,
      MonadStateOf.modifyGet, EStateM.modifyGet, hreset]
  · refine Shelf.numbered_congr fun l _ => ?_
    rw [hrewrites.nodes]
  · intro l hl
    change l.1 < idAfter e.shelf.nextId
    change l ∈ h.shelvedAs e.shelf.nextId at hl
    rw [Shelf.idAfter_eq hn]
    rw [Holding.shelvedAs] at hl
    split at hl
    · exact Nat.lt_succ_of_lt (hs.below l hl)
    · rcases List.mem_cons.1 hl with rfl | hl
      · exact Nat.lt_succ_self _
      · exact Nat.lt_succ_of_lt (hs.below l hl)
  · exact hs.file.trans (hfile.symm.trans (hrewrites.fileAt_eq _).symm)
  · intro name hname
    rw [hrewrites.nodes] at hname
    exact hclear name hname

theorem Sound.free (hs : e.Sound d root h) :
    d.nodes[tablePlace root ++ [tableName e.shelf.nextId]]? = none := by
  rw [hs.nextId_eq]
  exact hs.kept.tables.free

theorem Sound.shelve (hs : e.Sound d root h) (hr : h.Room) (hm : e.memtable.isEmpty = false) :
    ∃ info d', Shelf.flush e.memtable (e.shelf, d) = .ok info (shelfOf d' e.dir root h.shelved, d') ∧
      Kept d' e.dir root h.replayed [] ∧ journalFile d' root = journalFile d root := by
  have hnumbers := hr.numbers
  rw [← hs.nextId_eq] at hnumbers
  obtain ⟨info, d', hflush, hstored, hfile, hclear⟩ := hs.steady.shelve hm hnumbers hr.space hs.free
  have hshelved := hs.steady.shelvedAs_eq hm (nextNumber h.layers)
  rw [hs.nextId_eq] at hflush hstored
  refine ⟨info, d', ?_, hstored.kept fun name hname => hs.kept.tables.clear name (hclear name hname), hfile⟩
  rw [hflush, Holding.shelved_eq, hshelved]
  rfl

theorem Sound.flush (hs : e.Sound d root h) (hr : h.Room) :
    ∃ e' d', Engine.flush (e, d) = .ok () (e', d') ∧ e'.Sound d' root h.flushed ∧ e'.dir = e.dir := by
  cases hm : e.memtable.isEmpty with
  | true =>
    have hlog : h.log.isEmpty = true := by rw [← isEmpty_replay, ← hs.memtable, hm]
    have hflushed : h.flushed = h := by
      rw [Holding.flushed, Holding.shelved, if_pos hlog, ← List.isEmpty_iff.1 hlog]
    exact ⟨e, d, flush_of_isEmpty hm, hflushed.symm ▸ hs, rfl⟩
  | false =>
    have hnumbers := hr.numbers
    rw [← hs.nextId_eq] at hnumbers
    obtain ⟨e', d', hflush, hs', hdir, hnext, hclear⟩ := hs.steady.flush hm hnumbers hr.space hs.free
    have hshelved := hs.steady.shelvedAs_eq hm (nextNumber h.layers)
    rw [hs.nextId_eq] at hs' hnext
    refine ⟨e', d', hflush, hs'.sound ?_ fun name hname => hs.kept.tables.clear name (hclear name hname),
      hdir⟩
    rw [hnext, Holding.flushedAs, hshelved]
    rfl

theorem flushIfFull_of_full (d : Disk) (hfull : e.memtable.isFull e.memtableLimit = true) :
    Engine.flushIfFull (e, d) = Engine.flush (e, d) := by
  simp only [Engine.flushIfFull, bind, EStateM.bind, get, getThe, MonadStateOf.get, EStateM.get, hfull,
    if_true]

theorem flushIfFull_of_not_full (d : Disk) (hfull : e.memtable.isFull e.memtableLimit = false) :
    Engine.flushIfFull (e, d) = .ok () (e, d) := by
  simp only [Engine.flushIfFull, bind, EStateM.bind, get, getThe, MonadStateOf.get, EStateM.get, hfull,
    Bool.false_eq_true, if_false, pure, EStateM.pure]

theorem Sound.flushIfFull (hs : e.Sound d root h) (hr : h.Room) :
    ∃ e' d', Engine.flushIfFull (e, d) = .ok () (e', d') ∧
      (e'.Sound d' root h ∨ e'.Sound d' root h.flushed) ∧ e'.dir = e.dir := by
  cases hfull : e.memtable.isFull e.memtableLimit with
  | true =>
    obtain ⟨e', d', hflush, hs', hdir⟩ := hs.flush hr
    exact ⟨e', d', (flushIfFull_of_full d hfull).trans hflush, Or.inr hs', hdir⟩
  | false => exact ⟨e, d, flushIfFull_of_not_full d hfull, Or.inl hs, rfl⟩

theorem Sound.compact (hs : e.Sound d root h) (hr : h.Room)
    (hm : Shelf.Sound (nextNumber h.shelved, mergedRows h.shelved)) :
    ∃ e' d', Engine.compact (e, d) = .ok () (e', d') ∧ e'.Sound d' root h.compacted ∧
      e'.dir = e.dir := by
  obtain ⟨e₁, d₁, hflush, hs₁, hdir⟩ := hs.flush hr
  have hk₁ := hs₁.kept
  obtain ⟨info, d₂, hcompact, hkeeps, hspares⟩ := hk₁.tables.compact hm
  obtain ⟨hk₂, hfile⟩ := hk₁.change_tables hspares hkeeps (h.fits_compacted hs.kept.fits).keys
  refine ⟨{ e₁ with shelf := shelfOf d₂ e₁.dir root h.compacted.layers }, d₂, ?_,
    ⟨hk₂, rfl, hs₁.memtable, hs₁.file.trans hfile.symm, hs₁.position⟩, hdir⟩
  have hcompact' : Shelf.compact (e₁.shelf, d₁) =
      .ok info (shelfOf d₂ e₁.dir root h.compacted.layers, d₂) := by
    rw [hs₁.shelf]
    exact hcompact
  simp only [Engine.compact, onShelf, bind, EStateM.bind, hflush, focus, hcompact']
  rfl

theorem Sound.close (hs : e.Sound d root h) (hr : h.Room) :
    ∃ e' d', Engine.close (e, d) = .ok () (e', d') ∧ e'.Sound d' root h.flushed ∧ e'.dir = e.dir := by
  obtain ⟨e₁, d₁, hflush, hs₁, hdir⟩ := hs.flush hr
  refine ⟨{ e₁ with journal := e₁.journal.sync }, d₁, ?_,
    ⟨hs₁.kept, hs₁.shelf, hs₁.memtable, hs₁.file, hs₁.position⟩, hdir⟩
  simp only [Engine.close, onJournal, bind, EStateM.bind, hflush, focus, get, getThe,
    MonadStateOf.get, EStateM.get, modify, modifyGet, MonadStateOf.modifyGet, EStateM.modifyGet,
    pure, EStateM.pure]

end KeyedStore.Engine
