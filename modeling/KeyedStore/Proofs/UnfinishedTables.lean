import KeyedStore.Proofs.AcceptedTables
import KeyedStore.Proofs.ReachableStates

/-!
# Unfinished tables

A table file is written front to back under its final name, and the number of its rows is put into the
header last. A crash in between leaves a prefix of the bytes, which states that there are no rows. It
is opened only if its end happens to look like the footer of a file whose rows reach up to there; then
its rows are ignored, and the journal still gives them. Otherwise the whole engine fails to open.
-/

namespace KeyedStore

namespace Table

open Bytes

variable {bs : Bytes} {rows : List Row}

/-- A string whose end is the footer of a file with nothing between the rows and the footer. -/
structure EndsInFooter (bs : Bytes) : Prop where
  long : headerSize + footerSize ≤ bs.length
  place : (Footer.ofBytes (bs.drop (bs.length - footerSize))).indexOffset = bs.length - footerSize
  checksum : (Footer.ofBytes (bs.drop (bs.length - footerSize))).checksum =
    Checksum.crc32 ((bs.drop headerSize).take (bs.length - footerSize - headerSize))

theorem size_offsetMap_ne_zero {records : List (Bytes × Nat)} (hne : bs ≠ [])
    (hrecords : readRecords bs = .ok records) : (offsetMap records).size ≠ 0 := by
  intro hzero
  rw [← beq_iff_eq, ← Std.TreeMap.isEmpty_eq_size_eq_zero, Std.TreeMap.isEmpty_iff_forall_not_mem] at hzero
  cases records with
  | nil => exact hne (readRecords_eq_ok_iff.1 hrecords).2
  | cons record records => exact hzero record.1 (mem_offsetMap.2 (by simp))

namespace Index

/-- The index of a file that is taken for one without rows. -/
def ofVoid (bs : Bytes) : Index := { offsets := ∅, dataEnd := bs.length - footerSize }

theorem ofBytes_of_length_lt (hlen : bs.length < headerSize + footerSize) :
    ofBytes bs = .error (.tooSmall bs.length) := by
  rw [ofBytes_eq_ite, if_pos hlen]

theorem ofBytes_of_endsInFooter (hheader : bs.take headerSize = encodeHeader 0)
    (hends : EndsInFooter bs) : ofBytes bs = .ok (ofVoid bs) := by
  have hlen := hends.long
  have hplace := hends.place
  have hchecksum := hends.checksum
  rw [ofBytes_of_header hlen (by decide) hheader rfl, hplace, if_neg (by omega), ← hchecksum,
    Nat.sub_self, List.take_zero, readRecords_nil, if_neg (not_not_intro rfl)]
  rfl

theorem ofBytes_of_not_endsInFooter (hheader : headerSize ≤ bs.length →
    bs.take headerSize = encodeHeader 0) (hends : ¬ EndsInFooter bs) :
    ∃ cause, ofBytes bs = .error cause := by
  by_cases hlen : bs.length < headerSize + footerSize
  · exact ⟨_, ofBytes_of_length_lt hlen⟩
  · rw [Nat.not_lt] at hlen
    generalize hfooter : Footer.ofBytes (bs.drop (bs.length - footerSize)) = footer
    rw [ofBytes_of_header hlen (by decide) (hheader (Nat.le_trans (Nat.le_add_right _ _) hlen)) hfooter]
    by_cases hrange : footer.indexOffset < headerSize ∨ footer.indexOffset > bs.length - footerSize
    · rw [if_pos hrange]
      exact ⟨_, rfl⟩
    · rw [if_neg hrange]
      by_cases hchecksum : Checksum.crc32 ((bs.drop headerSize).take
          (footer.indexOffset - headerSize)) ≠ footer.checksum
      · rw [if_pos hchecksum]
        exact ⟨_, rfl⟩
      · rw [if_neg hchecksum]
        -- The checks leave bytes between the rows and the footer, and there is no empty index in them.
        have hne : (bs.drop footer.indexOffset).take (bs.length - footerSize - footer.indexOffset) ≠
            [] := by
          intro he
          have hlength := congrArg List.length he
          rw [List.length_take, List.length_drop, List.length_nil] at hlength
          have hplace : footer.indexOffset = bs.length - footerSize := by
            rw [footerSize] at hlength hrange hlen ⊢
            omega
          rw [ne_eq, not_not] at hchecksum
          refine hends ⟨hlen, ?_, ?_⟩
          · rw [hfooter, hplace]
          · rw [hfooter, ← hplace, hchecksum]
        cases hrecords : readRecords ((bs.drop footer.indexOffset).take
            (bs.length - footerSize - footer.indexOffset)) with
        | error cause => exact ⟨cause, rfl⟩
        | ok records =>
          rw [Except.bind, if_pos (size_offsetMap_ne_zero hne hrecords)]
          exact ⟨_, rfl⟩

end Index

theorem take_header (rows : List Row) {k : Nat}
    (hlen : headerSize ≤ ((encodeAs 0 rows).take k).length) :
    ((encodeAs 0 rows).take k).take headerSize = encodeHeader 0 := by
  rw [List.length_take] at hlen
  rw [List.take_take, Nat.min_eq_left (Nat.le_trans hlen (Nat.min_le_left _ _)),
    Index.take_headerSize_encodeAs]

/-- The complete file of some rows does not pass for one without rows. -/
theorem not_endsInFooter_encodeAs (hs : Storable rows) (hend : dataEnd rows < bound 8)
    (hne : rows ≠ []) : ¬ EndsInFooter (encodeAs 0 rows) := by
  intro hends
  have hopen := Index.ofBytes_of_endsInFooter (Index.take_headerSize_encodeAs 0 rows) hends
  rw [Index.ofBytes_encodeAs hs hend (by decide), if_neg] at hopen
  · cases hopen
  · intro hzero
    exact hne (List.length_eq_zero_iff.1 hzero)

end Table

namespace Shelf

open Table Bytes

variable {d d' : Disk} {dir : Path} {place : Place} {layers : List Layer} {key : Bytes}

theorem lookup_void {t : Table} {bs : Bytes} (hindex : t.index = Index.ofVoid bs) (older : List Table) :
    lookup d key (t :: older) = lookup d key older := by
  have hmight : t.index.mightContain key = false := by
    rw [hindex]
    simp [Index.ofVoid, Index.mightContain, Index.minKey?]
  rw [lookup, hmight, if_neg Bool.false_ne_true]

def strayTable (d : Disk) (dir : Path) (layers : List Layer) (index : Index) : Table where
  path := tablePath dir (nextNumber layers)
  file := d.contents.size
  index

/-- The shelf that is opened when a file under the next number is. -/
def strayShelf (d : Disk) (dir : Path) (place : Place) (layers : List Layer) (index : Index) :
    Shelf where
  dir
  tables := strayTable d dir layers index :: layers.map (layerTable d dir place)
  nextId := idAfter (nextNumber layers)

namespace Keeps

theorem tableIds_withFile (h : Keeps d dir place layers) (bs : Bytes) :
    Shelf.tableIds (d.withFile (place ++ [tableName (nextNumber layers)]) bs) dir =
      nextNumber layers :: layers.map Prod.fst := by
  have hspares := Disk.spares_withFile bs h.free
  have hd := h.reaches.mono hspares.directories hspares.here
  refine tableIds_eq (hd.find_self (by omega) h.named) ?_ ?_ ?_ ?_
  · intro id hid
    rcases List.mem_cons.1 hid with rfl | hid
    · exact ⟨_, Disk.getElem?_nodes_withFile_self⟩
    · obtain ⟨l, hl, rfl⟩ := List.mem_map.1 hid
      exact ⟨_, (Disk.getElem?_nodes_withFile_ne (h.next_ne hl)).trans (h.file hl).1⟩
  · intro name file hname
    by_cases he : name = tableName (nextNumber layers)
    · exact ⟨_, List.mem_cons_self, he⟩
    · rw [Disk.getElem?_nodes_withFile_ne (Disk.concat_ne place he)] at hname
      obtain ⟨l, hl, rfl⟩ := h.only name file hname
      exact ⟨l.1, List.mem_cons_of_mem _ (List.mem_map_of_mem hl), rfl⟩
  · refine List.pairwise_cons.2 ⟨?_, List.pairwise_map.2 h.descending⟩
    intro id hid
    obtain ⟨l, hl, rfl⟩ := List.mem_map.1 hid
    exact h.lt_nextNumber hl
  · intro id hid
    rcases List.mem_cons.1 hid with rfl | hid
    · exact nextNumber_lt layers
    · obtain ⟨l, hl, rfl⟩ := List.mem_map.1 hid
      exact (h.sound l hl).lt

/-- A shelf with a stray file under the next number is opened exactly if that file is. -/
theorem openAt_withFile (h : Keeps d dir place layers) (bs : Bytes) :
    Shelf.openAt dir (d.withFile (place ++ [tableName (nextNumber layers)]) bs) =
      match Index.ofBytes bs with
      | .ok index => .ok (strayShelf d dir place layers index)
          (d.withFile (place ++ [tableName (nextNumber layers)]) bs)
      | .error cause => .error (.storage (.table (tablePath dir (nextNumber layers)) cause))
          (d.withFile (place ++ [tableName (nextNumber layers)]) bs) := by
  have hspares := Disk.spares_withFile bs h.free
  have hd := h.reaches.mono hspares.directories hspares.here
  have hnext := nextNumber_lt layers
  have hids := h.tableIds_withFile bs
  have htables := h.openTables hd (fun l hl => Disk.getElem?_nodes_withFile_ne (h.next_ne hl))
    fun l hl => (hspares.content _ (h.file hl).2.1).trans (h.file hl).2.2
  have hfile := hd.file_of_file (plainName_tableName hnext) (utf8ByteSize_tableName_lt hnext)
    Disk.getElem?_nodes_withFile_self
  rw [← tablePath] at hfile
  have hcontent : (d.withFile (place ++ [tableName (nextNumber layers)]) bs).content d.contents.size =
      bs := Disk.content_withFile_self
  generalize d.withFile (place ++ [tableName (nextNumber layers)]) bs = d₁ at *
  have hopen : Table.openAt d₁ (tablePath dir (nextNumber layers)) =
      match Index.ofBytes bs with
      | .ok index => .ok (strayTable d dir layers index)
      | .error cause => .error (.storage (.table (tablePath dir (nextNumber layers)) cause)) := by
    simp only [Table.openAt, hfile, hcontent, bind, Except.bind]
    rfl
  simp only [Shelf.openAt, bind, EStateM.bind, hd.makeDirectories (by omega), get, getThe,
    MonadStateOf.get, EStateM.get, hids, List.mapM_cons, hopen, htables]
  cases Index.ofBytes bs with
  | error cause => rfl
  | ok index => rfl

end Keeps

theorem exists_flush {m : MemTable} {s : Shelf} (hd : d.Reaches s.dir place 33)
    (hid : s.nextId < bound 8) (hnone : d.nodes[place ++ [tableName s.nextId]]? = none)
    (hm : m.isEmpty = false) (hs : Storable m.toList) (hend : dataEnd m.toList < bound 8) :
    ∃ info t d', Shelf.flush m (s, d) =
        .ok info ({ s with tables := t :: s.tables, nextId := idAfter s.nextId }, d') ∧
      d.Spares d' place ∧ t.index = Index.ofRows m.toList ∧ d.contents.size ≤ t.file ∧
      t.file < d'.contents.size ∧ d'.content t.file = encode m.toList := by
  refine ⟨_, _, _, flush_eq hd hid hnone hm hs hend, Disk.spares_withFile _ hnone, rfl, ?_⟩
  rw [layerTable, Disk.fileAt_eq Disk.getElem?_nodes_withFile_self, Disk.size_withFile]
  exact ⟨Nat.le_refl _, Nat.lt_succ_self _, Disk.content_withFile_self⟩

end Shelf

namespace Engine

open Journal (Entry)
open KeyedStore.Shelf (layerTable nextNumber strayShelf tableName)
open Table Bytes

variable {d d' : Disk} {dir : Path} {root : Place} {h : Holding} {tail bs : Bytes} {e : Engine}
  {ops : List Operation}

def nextPlace (root : Place) (h : Holding) : Place :=
  tablePlace root ++ [tableName (nextNumber h.layers)]

namespace Kept

theorem lookup_of_retains (hk : Kept d dir root h tail) (hr : d.Retains d' (journalFile d root))
    (key : Bytes) :
    Shelf.lookup d' key (h.layers.map (layerTable d (tableDir dir) (tablePlace root))) =
      .ok ((h.layers.flatMap Prod.snd).lookup key) := by
  refine Shelf.lookup_layers key (fun _ _ => rfl) ?_ ?_
  · intro l hl
    obtain ⟨hnode, hlt, hcontent⟩ := hk.tables.file hl
    rw [hr.content _ hlt, hcontent]
    intro he
    rw [he] at hnode
    exact hk.apart _ hnode
  · intro l hl
    exact ⟨(hk.tables.sound l hl).storable, (hk.tables.sound l hl).inReach⟩

theorem free_withFile (hk : Kept d dir root h tail) (hr : h.Room) (bs : Bytes) :
    (d.withFile (nextPlace root h) bs).nodes[tablePlace root ++
      [tableName (Shelf.idAfter (nextNumber h.layers))]]? = none := by
  have hafter := Shelf.idAfter_eq hr.numbers
  rw [hafter]
  have hne : tableName (nextNumber h.layers + 1) ≠ tableName (nextNumber h.layers) := by
    intro hname
    have he := Shelf.tableName_inj hr.numbers (Shelf.nextNumber_lt _) hname
    omega
  rw [nextPlace, Disk.getElem?_nodes_withFile_ne (Disk.concat_ne _ hne)]
  refine hk.tables.free_of_lt hr.numbers ?_
  intro l hl
  exact Nat.lt_succ_of_lt (hk.tables.lt_nextNumber hl)

/-- The entries go on top of a stray file, which says nothing about any key. -/
theorem withTable_stray (hk : Kept d dir root h tail) (hr : h.Room) (hlog : h.log.isEmpty = false)
    {d₂ : Disk} {tail₂ : Bytes} (hlogs₂ : Logs d₂ dir root h.log tail₂)
    (hfile₂ : journalFile d₂ root = journalFile d root) (hretains : d.Retains d₂ (journalFile d root))
    (hreaches₂ : d₂.Reaches (tableDir dir) (tablePlace root) 33)
    (hfree : d₂.nodes[tablePlace root ++ [tableName (Shelf.idAfter (nextNumber h.layers))]]? = none) :
    ∃ s d₃, withTable (strayShelf d (tableDir dir) (tablePlace root) h.layers (Index.ofVoid bs))
        (replay h.log) d₂ = .ok s d₃ ∧ Logs d₃ dir root h.log tail₂ ∧
      ∀ d', d₃.Rewrites d' (journalFile d₃ root) → ∀ key, s.get? d' key = .ok (h.value key) := by
  have hne : (replay h.log).isEmpty = false := by rw [isEmpty_replay, hlog]
  have hsound := h.sound_replay hk.fits hr
  obtain ⟨info, t, d₃, hflush, hspares₃, hindex₃, hnew, hlt, hcontent⟩ :=
    Shelf.exists_flush (s := strayShelf d (tableDir dir) (tablePlace root) h.layers (Index.ofVoid bs))
      hreaches₂ (Nat.mod_lt _ (by decide)) hfree hne hsound.storable hsound.dataEnd_lt
  obtain ⟨hlogs₃, hfile₃⟩ := hlogs₂.spare hspares₃ (journalPlace_ne root)
  simp only [withTable, hflush]
  refine ⟨_, d₃, rfl, hlogs₃, ?_⟩
  intro d' hrewrites' key
  have hkept : d'.content t.file = encode (replay h.log).toList := by
    rw [hrewrites'.content, hcontent]
    intro he
    have hinside := hlogs₂.inside
    omega
  rw [hfile₃, hfile₂] at hrewrites'
  have hlookup := hk.lookup_of_retains
    ((hretains.trans (hspares₃.retains _)).trans hrewrites'.retains) key
  rw [Shelf.get?, Shelf.lookup_cons hindex₃ hkept hsound.storable hsound.inReach, strayShelf,
    Shelf.lookup_void rfl, hlookup, ← h.valueIn_shelved, Holding.shelved, hlog,
    if_neg Bool.false_ne_true, Shelf.valueIn, List.flatMap_cons, List.lookup_append]
  cases (replay h.log).toList.lookup key with
  | none => rfl
  | some v => rfl

theorem recoverTables_stray (hk : Kept d dir root h tail) (hr : h.Room)
    (hindex : Index.ofBytes bs = .ok (Index.ofVoid bs)) :
    ∃ s d₁ tail₁, Engine.recoverTables dir (d.withFile (nextPlace root h) bs) = .ok s d₁ ∧
      Logs d₁ dir root h.log tail₁ ∧
      ∀ d', d₁.Rewrites d' (journalFile d₁ root) → ∀ key, s.get? d' key = .ok (h.value key) := by
  have hspares : d.Spares (d.withFile (nextPlace root h) bs) (tablePlace root) :=
    Disk.spares_withFile bs hk.tables.free
  obtain ⟨hlogs, hfile⟩ := hk.logs.spare hspares (journalPlace_ne root)
  have hopen := hk.tables.openAt_withFile bs
  rw [hindex] at hopen
  have hfree := hk.free_withFile hr bs
  have hreaches := hk.tables.reaches.mono hspares.directories hspares.here
  rw [nextPlace] at *
  generalize d.withFile _ bs = d₁ at *
  obtain ⟨d₂, tail₂, hrecover, hlogs₂, hrewrites⟩ := hlogs.recoverTables hopen
  have hfile₂ : journalFile d₂ root = journalFile d root := (hrewrites.fileAt_eq _).trans hfile
  have hretains : d.Retains d₂ (journalFile d root) :=
    (hspares.retains _).trans (hfile ▸ hrewrites.retains)
  cases hlog : h.log.isEmpty with
  | true =>
    rw [hlog, if_pos rfl] at hrecover
    refine ⟨_, d₂, tail₂, hrecover, hlogs₂, ?_⟩
    intro d' hrewrites' key
    rw [hfile₂] at hrewrites'
    have hlookup := hk.lookup_of_retains (hretains.trans hrewrites'.retains) key
    rw [Shelf.get?, strayShelf, Shelf.lookup_void rfl, hlookup, ← h.valueIn_shelved, Holding.shelved,
      if_pos hlog]
    rfl
  | false =>
    rw [hlog, if_neg Bool.false_ne_true] at hrecover
    rw [← hrewrites.nodes] at hfree
    have hreaches₂ : d₂.Reaches (tableDir dir) (tablePlace root) 33 :=
      hreaches.mono (fun p hp => by rw [hrewrites.nodes, hp]) hrewrites.here
    obtain ⟨s, d₃, hflush, hlogs₃, hget⟩ :=
      hk.withTable_stray hr hlog hlogs₂ hfile₂ hretains hreaches₂ hfree
    exact ⟨s, d₃, tail₂, hrecover.trans hflush, hlogs₃, hget⟩

theorem openAt_stray (hk : Kept d dir root h tail) (hr : h.Room)
    (hindex : Index.ofBytes bs = .ok (Index.ofVoid bs)) (config : Config) :
    ∃ e d', Engine.openAt dir config (d.withFile (nextPlace root h) bs) = .ok e d' ∧
      ∀ key, e.get? d' key = .ok (h.value key) := by
  obtain ⟨s, d₁, tail₁, hrecover, hlogs, hget⟩ := hk.recoverTables_stray hr hindex
  obtain ⟨d', hjournal, -, hrewrites⟩ := hlogs.openReset config.sync
  exact ⟨_, d', openAt_eq_ok hrecover hjournal, hget d' hrewrites⟩

/-- An engine is not opened beside a stray file that is not, and the disk stays as it is. -/
theorem openAt_eq_error (hk : Kept d dir root h tail) {cause : TableFault}
    (hindex : Index.ofBytes bs = .error cause) (config : Config) :
    Engine.openAt dir config (d.withFile (nextPlace root h) bs) =
      .error (.storage (.table (Shelf.tablePath (tableDir dir) (nextNumber h.layers)) cause))
        (d.withFile (nextPlace root h) bs) := by
  have hopen := hk.tables.openAt_withFile bs
  rw [hindex] at hopen
  have hspares : d.Spares (d.withFile (nextPlace root h) bs) (tablePlace root) :=
    Disk.spares_withFile bs hk.tables.free
  have hmake := (hk.logs.spare hspares (journalPlace_ne root)).1.reaches.makeDirectories (by omega)
  rw [nextPlace] at *
  simp only [Engine.openAt, Engine.recoverTables, bind, EStateM.bind, hmake, hopen]

end Kept

/-- A crash while the next table is written leaves a prefix of its bytes. Where the prefix passes for a
file without rows, the engine is opened and gives every value; otherwise opening fails for good. -/
theorem openAt_of_unfinished_table (hr : Reachable e d ops) (hl : WithinLimits d e.dir)
    (config : Config) (rows : List Row) (k : Nat) :
    ∃ d₁, Disk.write (Shelf.tablePath (tableDir e.dir) e.shelf.nextId) ((encodeAs 0 rows).take k) d =
        .ok () d₁ ∧
      (EndsInFooter ((encodeAs 0 rows).take k) →
        ∃ e' d', openAt e.dir config d₁ = .ok e' d' ∧
          ∀ key, ∃ value?, e.get? d key = .ok value? ∧ e'.get? d' key = .ok value?) ∧
      (¬ EndsInFooter ((encodeAs 0 rows).take k) →
        ∃ cause, openAt e.dir config d₁ =
          .error (.storage (.table (Shelf.tablePath (tableDir e.dir) e.shelf.nextId) cause)) d₁) := by
  obtain ⟨root, h, hs, -⟩ := hr.sound
  have hk := hs.kept
  have hid : nextNumber h.layers < bound 8 := Shelf.nextNumber_lt _
  have hwrite := hk.tables.reaches.write_of_none (Shelf.plainName_tableName hid)
    (Shelf.utf8ByteSize_tableName_lt hid) hk.tables.free ((encodeAs 0 rows).take k)
  rw [hs.nextId_eq]
  refine ⟨_, hwrite, ?_, ?_⟩
  · intro hends
    have hheader := take_header rows (Nat.le_trans (Nat.le_add_right _ _) hends.long)
    obtain ⟨e', d', hopen, hget⟩ :=
      hk.openAt_stray (hk.room hl) (Index.ofBytes_of_endsInFooter hheader hends) config
    exact ⟨e', d', hopen, fun key => ⟨h.value key, hs.get? key, hget key⟩⟩
  · intro hends
    obtain ⟨cause, hindex⟩ := Index.ofBytes_of_not_endsInFooter (take_header rows) hends
    exact ⟨cause, hk.openAt_eq_error hindex config⟩

/-- The complete table of an accepted write whose count is not yet stated keeps the engine from being
opened. -/
theorem openAt_of_uncounted_table :
    ∃ e d, Reachable e d [.put [1] [2]] ∧ WithinLimits d e.dir ∧ e.get? d [1] = .ok (some [2]) ∧
      ∃ d₁ cause, Disk.write (Shelf.tablePath (tableDir e.dir) e.shelf.nextId)
          (encodeAs 0 [([1], .value [2])]) d = .ok () d₁ ∧
        openAt e.dir {} d₁ =
          .error (.storage (.table (Shelf.tablePath (tableDir e.dir) e.shelf.nextId) cause)) d₁ := by
  obtain ⟨e, d, -, -, hr, -, -, hl⟩ :=
    exists_reachable fresh_db {} [.put [1] [2]] (by decide) (by decide)
  obtain ⟨root, h, hs, hops⟩ := hr.sound
  have hget : e.get? d [1] = .ok (some [2]) := by
    rw [hs.get?, Holding.value, hops]
    rfl
  have hstorable : Storable [([1], .value [2])] := ⟨List.pairwise_singleton _ _, by decide⟩
  have hends := not_endsInFooter_encodeAs hstorable (by decide) (List.cons_ne_nil _ _)
  obtain ⟨d₁, hwrite, -, hfail⟩ := openAt_of_unfinished_table hr hl {} [([1], .value [2])]
    (encodeAs 0 [([1], .value [2])]).length
  rw [List.take_length] at hwrite hfail
  obtain ⟨cause, hopen⟩ := hfail hends
  exact ⟨e, d, hr, hl, hget, d₁, cause, hwrite, hopen⟩

end Engine

end KeyedStore
