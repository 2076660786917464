import KeyedStore.Proofs.Compactions
import KeyedStore.Proofs.RawNames
import Mathlib.Data.List.Forall2

/-!
# Finding table files

The numbers of the tables in a directory are read from the names of its files, and the path of each table is made
from its number again. Many names are read as one number, with more or fewer zeros in front or a plus sign, and
only one of them is made from it. So the opening loads every table once, if each file whose name is read as a
number has the name that is made from it; a file with another spelling makes it load the table with that number
once more, or fail if there is no such table.
-/

namespace KeyedStore

open Bytes

/-- The directory at a place has a file with a name. -/
def Disk.HasFile (d : Disk) (place : Place) (name : String) : Prop :=
  ∃ file, d.nodes[place ++ [name]]? = some (.file file)

/-! ### Opening -/

namespace Shelf

variable {d : Disk} {dir : Path} {place : Place} {id : Nat} {name : String} {found : List (String × Nat)}
  {t : Table}

/-- A path behind which there is no table of the directory leads to no file. -/
theorem openAt_of_not_hasFile (hfind : d.find dir = .ok (place, .directory)) (hid : id < bound 8)
    (h : ¬ d.HasFile place (tableName id)) :
    ∃ fault, Table.openAt d (tablePath dir id) = .error (.file fault) := by
  cases hfile : d.file (tablePath dir id) with
  | ok file => exact absurd ⟨file, Disk.nodes_of_file_join hfind (plainName_tableName hid) hfile⟩ h
  | error e =>
    obtain ⟨fault, rfl⟩ := Disk.exists_fault_of_file hfile
    exact ⟨fault, by rw [Table.openAt, hfile]; rfl⟩

theorem mapM_eq_ok_iff {ε α β : Type} {f : α → Except ε β} {as : List α} {bs : List β} :
    as.mapM f = .ok bs ↔ List.Forall₂ (fun a b => f a = .ok b) as bs := by
  induction as generalizing bs with
  | nil =>
    rw [List.forall₂_nil_left_iff]
    exact ⟨fun h => (Except.ok.inj h).symm, fun h => h ▸ rfl⟩
  | cons a as ih =>
    rw [List.mapM_cons, List.forall₂_cons_left_iff]
    cases ha : f a with
    | error e => simp [bind, Except.bind]
    | ok b =>
      cases has : as.mapM f with
      | error e =>
        simp only [has, reduceCtorEq, false_iff] at ih
        simp [bind, Except.bind, ih]
      | ok rest =>
        simp only [has, Except.ok.injEq] at ih
        simp [bind, Except.bind, pure, Except.pure, ← ih, eq_comm]

theorem exists_mapM {ε α β : Type} {f : α → Except ε β} {as : List α} (h : ∀ a ∈ as, ∃ b, f a = .ok b) :
    ∃ bs, as.mapM f = .ok bs := by
  induction as with
  | nil => exact ⟨[], rfl⟩
  | cons a as ih =>
    obtain ⟨b, hb⟩ := h a List.mem_cons_self
    obtain ⟨bs, hbs⟩ := ih fun a' ha' => h a' (List.mem_cons_of_mem _ ha')
    exact ⟨b :: bs, by rw [List.mapM_cons, hb, hbs]; rfl⟩

theorem openAt_of_find (hfind : d.find dir = .ok (place, .directory)) : openAt dir d =
    match (tableIds d dir).mapM fun id => Table.openAt d (tablePath dir id) with
    | .ok tables => .ok { dir, tables, nextId := ((tableIds d dir).head?.map idAfter).getD 1 } d
    | .error e => .error e d := by
  simp only [openAt, bind, EStateM.bind, Disk.makeDirectories_of_find hfind, get, getThe, MonadStateOf.get,
    EStateM.get]
  cases (tableIds d dir).mapM fun id => Table.openAt d (tablePath dir id) with
  | ok tables => rfl
  | error e => rfl

/-- A table is what the file holds whose name is made from a number. -/
def Loads (d : Disk) (dir : Path) (id : Nat) (t : Table) : Prop :=
  id < bound 8 ∧ Table.openAt d (tablePath dir id) = .ok t

/-- A table is loaded by one number only: its path has the number in it. -/
theorem leftUnique_loads : Relator.LeftUnique (Loads d dir) := by
  rintro id other t ⟨hid, hopen⟩ ⟨hother, hopen'⟩
  have hpath : tablePath dir id = tablePath dir other :=
    (path_of_openAt hopen).symm.trans (path_of_openAt hopen')
  rw [tablePath, tablePath, Path.join_name, Path.join_name] at hpath
  exact tableName_inj hid hother (List.singleton_inj.1 (List.append_cancel_left hpath))

/-! ### Files whose names are read as numbers -/

/-- The files among some entries whose names are read as numbers, with the numbers. -/
def withIds (entries : List (String × Node)) : List (String × Nat) :=
  entries.filterMap fun
    | (name, .file _) => (tableId? name).map (name, ·)
    | (_, .directory) => none

theorem mem_withIds {entries : List (String × Node)} :
    (name, id) ∈ withIds entries ↔ (∃ file, (name, .file file) ∈ entries) ∧ tableId? name = some id := by
  rw [withIds, List.mem_filterMap]
  constructor
  · rintro ⟨⟨name', node⟩, hmem, he⟩
    cases node with
    | directory => contradiction
    | file file =>
      obtain ⟨id', hid, he⟩ := Option.map_eq_some_iff.1 he
      cases he
      exact ⟨⟨file, hmem⟩, hid⟩
  · rintro ⟨⟨file, hmem⟩, hid⟩
    exact ⟨_, hmem, Option.map_eq_some_iff.2 ⟨id, hid, rfl⟩⟩

theorem fst_of_withIds {entries : List (String × Node)} (h : entries.Pairwise fun a b => a.1 ≠ b.1) :
    ((withIds entries).map Prod.fst).Nodup := by
  rw [List.Nodup, List.pairwise_map, withIds, List.pairwise_filterMap]
  refine h.imp ?_
  rintro ⟨name, node⟩ ⟨name', node'⟩ hne entry hentry entry' hentry'
  cases node with
  | directory => contradiction
  | file file =>
    cases node' with
    | directory => contradiction
    | file file' =>
      obtain ⟨-, -, rfl⟩ := Option.map_eq_some_iff.1 hentry
      obtain ⟨-, -, rfl⟩ := Option.map_eq_some_iff.1 hentry'
      exact hne

theorem tableIds_eq_map (d : Disk) (dir : Path) :
    tableIds d dir = ((withIds (d.entries dir)).map Prod.snd).mergeSort fun a b => b ≤ a := by
  rw [tableIds, withIds, List.map_filterMap]
  congr 2
  funext entry
  obtain ⟨name, node⟩ := entry
  cases node with
  | directory => rfl
  | file file =>
    change tableId? name = ((tableId? name).map (name, ·)).map Prod.snd
    rw [Option.map_map]
    exact Option.map_id'.symm

/-- The files of a directory whose names are read as numbers, with the numbers, the largest first. -/
structure Found (d : Disk) (place : Place) (found : List (String × Nat)) : Prop where
  mem : ∀ name id, (name, id) ∈ found ↔ d.HasFile place name ∧ tableId? name = some id
  nodup : (found.map Prod.fst).Nodup
  descending : found.Pairwise fun a b => b.2 ≤ a.2

theorem exists_found (hfind : d.find dir = .ok (place, .directory)) :
    ∃ found, Found d place found ∧ tableIds d dir = found.map Prod.snd := by
  have hentries : d.entries dir = d.entriesAt place := by simp only [Disk.entries, hfind]
  let found := (withIds (d.entriesAt place)).mergeSort fun a b => b.2 ≤ a.2
  have hperm : found.Perm (withIds (d.entriesAt place)) := List.mergeSort_perm _ _
  refine ⟨found, ⟨fun name id => ?_, ?_, ?_⟩, ?_⟩
  · rw [hperm.mem_iff, mem_withIds]
    simp only [Disk.mem_entriesAt, Disk.HasFile]
  · exact (hperm.map Prod.fst).nodup_iff.2 (fst_of_withIds (d.pairwise_entriesAt place))
  · have hsorted : found.Pairwise fun a b => decide (b.2 ≤ a.2) = true :=
      List.pairwise_mergeSort (by simp only [decide_eq_true_eq]; omega) (by simp; omega) _
    exact hsorted.imp fun hle => of_decide_eq_true hle
  · have hmap := List.map_mergeSort (r := fun a b : String × Nat => decide (b.2 ≤ a.2))
      (s := fun a b : Nat => decide (b ≤ a)) (f := Prod.snd) (l := withIds (d.entriesAt place))
      fun _ _ _ _ => rfl
    rw [tableIds_eq_map, hentries, ← hmap]

/-- Opening loads every table whose file has the name that is made from its number, each once and the newest
first, and nothing else. -/
def LoadsEachOnce (d : Disk) (dir : Path) (place : Place) : Prop :=
  ∃ ids : List Nat, ids.Pairwise (fun a b => b < a) ∧
    (∀ id, id ∈ ids ↔ id < bound 8 ∧ d.HasFile place (tableName id)) ∧
    ∃ s, openAt dir d = .ok s d ∧ List.Forall₂ (Loads d dir) ids s.tables

namespace Found

theorem lt (h : Found d place found) (hmem : (name, id) ∈ found) : id < bound 8 :=
  (tableId?_eq_some_iff.1 ((h.mem name id).1 hmem).2).1

theorem mem_of_hasFile (h : Found d place found) (hid : id < bound 8) (hfile : d.HasFile place (tableName id)) :
    (tableName id, id) ∈ found :=
  (h.mem _ id).2 ⟨hfile, tableId?_tableName hid⟩

/-- All tables are loaded, if no number is without a file of the name that is made from it. -/
theorem openAt (h : Found d place found) (hfind : d.find dir = .ok (place, .directory))
    (hids : tableIds d dir = found.map Prod.snd)
    (hloads : ∀ entry ∈ found, ∃ t, Loads d dir entry.2 t) : ∃ tables,
      Shelf.openAt dir d = .ok { dir, tables, nextId := (found.head?.map fun entry => idAfter entry.2).getD 1 } d ∧
        List.Forall₂ (fun entry t => Loads d dir entry.2 t) found tables := by
  have hall : ∀ id ∈ found.map Prod.snd, ∃ t, Table.openAt d (tablePath dir id) = .ok t := by
    intro id hid
    obtain ⟨entry, hentry, rfl⟩ := List.mem_map.1 hid
    obtain ⟨t, -, ht⟩ := hloads entry hentry
    exact ⟨t, ht⟩
  obtain ⟨tables, htables⟩ := exists_mapM hall
  refine ⟨tables, ?_, ?_⟩
  · rw [openAt_of_find hfind, hids, htables, List.head?_map, Option.map_map]
    rfl
  · rw [mapM_eq_ok_iff, List.forall₂_map_left_iff] at htables
    exact (List.forall₂_and_left found tables).2 ⟨fun entry hentry => h.lt hentry, htables⟩

theorem openAt_of_missing (h : Found d place found) (hfind : d.find dir = .ok (place, .directory))
    (hids : tableIds d dir = found.map Prod.snd)
    (hvalid : ∀ id < bound 8, d.HasFile place (tableName id) → ∃ t, Loads d dir id t)
    (hmissing : ∃ entry ∈ found, ¬ d.HasFile place (tableName entry.2)) :
    ∃ fault, Shelf.openAt dir d = .error (.file fault) d := by
  obtain ⟨⟨name, id⟩, hentry, hnone⟩ := hmissing
  obtain ⟨fault, hopen⟩ := openAt_of_not_hasFile hfind (h.lt hentry) hnone
  obtain ⟨front, other, back, e, hsplit, -, he, hmap⟩ :=
    mapM_eq_error (f := fun id => Table.openAt d (tablePath dir id))
      ⟨id, List.mem_map_of_mem (f := Prod.snd) hentry, _, hopen⟩
  have hother : other ∈ found.map Prod.snd := by
    rw [hsplit]
    simp
  obtain ⟨⟨name', id'⟩, hentry', rfl⟩ := List.mem_map.1 hother
  -- The first table that does not open is one that has no file: every file is that of a table.
  have hnone' : ¬ d.HasFile place (tableName id') := by
    intro hfile
    obtain ⟨t, -, ht⟩ := hvalid id' (h.lt hentry') hfile
    rw [ht] at he
    contradiction
  obtain ⟨fault', hopen'⟩ := openAt_of_not_hasFile hfind (h.lt hentry') hnone'
  have hfault : e = .file fault' := Except.error.inj (he.symm.trans hopen')
  rw [openAt_of_find hfind, hids, hmap, hfault]
  exact ⟨fault', rfl⟩

/-- Opening loads each table once exactly if every name that is read as a number is made from it. -/
theorem loadsEachOnce_iff (h : Found d place found) (hfind : d.find dir = .ok (place, .directory))
    (hids : tableIds d dir = found.map Prod.snd)
    (hvalid : ∀ id < bound 8, d.HasFile place (tableName id) → ∃ t, Loads d dir id t) :
    LoadsEachOnce d dir place ↔ ∀ entry ∈ found, entry.1 = tableName entry.2 := by
  constructor
  · rintro ⟨ids, hdesc, hmem, s, hopen, htables⟩ ⟨name, id⟩ hentry
    have hall : ∀ entry ∈ found, d.HasFile place (tableName entry.2) := by
      by_contra hmissing
      simp only [not_forall, exists_prop] at hmissing
      obtain ⟨fault, hfail⟩ := h.openAt_of_missing hfind hids hvalid hmissing
      rw [hfail] at hopen
      contradiction
    obtain ⟨tables, hopen', htables'⟩ := h.openAt hfind hids fun entry hentry =>
      hvalid entry.2 (h.lt hentry) (hall entry hentry)
    rw [hopen'] at hopen
    cases hopen
    -- A table tells by which number it was loaded, so what was found has these numbers and none twice.
    have hsame : found.map Prod.snd = ids :=
      List.left_unique_forall₂' leftUnique_loads (List.forall₂_map_left_iff.2 htables') htables
    have hnodup : (found.map Prod.snd).Nodup := by
      rw [hsame]
      exact hdesc.imp Nat.ne_of_gt
    have hown : (tableName id, id) ∈ found := h.mem_of_hasFile (h.lt hentry) (hall (name, id) hentry)
    have he : (name, id) = (tableName id, id) := List.inj_on_of_nodup_map hnodup hentry hown rfl
    exact (Prod.mk.inj he).1
  · intro hspelled
    have hfiles : ∀ entry ∈ found, d.HasFile place (tableName entry.2) := by
      intro entry hentry
      rw [← hspelled entry hentry]
      exact ((h.mem _ _).1 hentry).1
    obtain ⟨tables, hopen, htables⟩ := h.openAt hfind hids fun entry hentry =>
      hvalid entry.2 (h.lt hentry) (hfiles entry hentry)
    refine ⟨found.map Prod.snd, ?_, fun id => ?_, _, hopen, List.forall₂_map_left_iff.2 htables⟩
    · rw [List.pairwise_map]
      refine (h.descending.and (List.pairwise_map.1 h.nodup)).imp_of_mem ?_
      rintro ⟨name, id⟩ ⟨name', id'⟩ hentry hentry' ⟨hle, hne⟩
      refine Nat.lt_of_le_of_ne hle fun he => hne ?_
      rw [hspelled _ hentry, hspelled _ hentry', he]
    · rw [List.mem_map]
      constructor
      · rintro ⟨entry, hentry, rfl⟩
        exact ⟨h.lt hentry, hfiles entry hentry⟩
      · rintro ⟨hid, hfile⟩
        exact ⟨_, h.mem_of_hasFile hid hfile, rfl⟩

end Found

/-- A file name, which may be any bytes, is read as a number exactly if the number is spelled in it between the
fixed parts, so that the name which is made from a number is read back and others are read as the same number.
In a directory where each file with a name that is made from a number is a table, opening loads for every file
whose name is read as a number the table with the name that is made from it, the largest number first, or fails
if one of these is missing. It loads each table once exactly if every name that is read as a number is the one
that is made from it. -/
theorem openAt_finds_by_number (d : Disk) (dir : Path) (place : Place) :
    (∀ (raw : Bytes) (id : Nat), rawTableId? raw = some id ↔ Names id raw) ∧
    (∀ name : String, tableId? name = rawTableId? (Utf8.encode name)) ∧
    (∀ id < bound 8, tableId? (tableName id) = some id) ∧
    (d.find dir = .ok (place, .directory) →
      (∀ id < bound 8, d.HasFile place (tableName id) → ∃ t, Loads d dir id t) →
      ∃ found, Found d place found ∧
        ((∀ entry ∈ found, d.HasFile place (tableName entry.2)) → ∃ tables,
          openAt dir d =
              .ok { dir, tables, nextId := (found.head?.map fun entry => idAfter entry.2).getD 1 } d ∧
            List.Forall₂ (fun entry t => Loads d dir entry.2 t) found tables) ∧
        ((∃ entry ∈ found, ¬ d.HasFile place (tableName entry.2)) →
          ∃ fault, openAt dir d = .error (.file fault) d) ∧
        (LoadsEachOnce d dir place ↔ ∀ entry ∈ found, entry.1 = tableName entry.2)) := by
  refine ⟨fun raw id => rawTableId?_eq_some_iff, fun name => (rawTableId?_encode name).symm,
    fun id hid => tableId?_tableName hid, fun hfind hvalid => ?_⟩
  obtain ⟨found, hfound, hids⟩ := exists_found hfind
  refine ⟨found, hfound, fun hfiles => ?_, hfound.openAt_of_missing hfind hids hvalid,
    hfound.loadsEachOnce_iff hfind hids hvalid⟩
  exact hfound.openAt hfind hids fun entry hentry => hvalid entry.2 (hfound.lt hentry) (hfiles entry hentry)

/-! ### Other spellings -/

theorem eighteen_le_tableName (id : Nat) : 18 ≤ (tableName id).utf8ByteSize := by
  rw [utf8ByteSize_tableName, length_nameBytes, Decimal.padded, List.length_append, List.length_replicate]
  omega

/-- A name that is too short to be made from a number. -/
theorem ne_tableName (h : name.utf8ByteSize < 18) (id : Nat) : name ≠ tableName id := by
  have := eighteen_le_tableName id
  rintro rfl
  omega

section Stray

variable {layers : List Layer} (hk : Keeps d dir place layers) (hshort : name.utf8ByteSize < 18)

include hk hshort

theorem Keeps.spares_stray : d.Spares (d.withFile (place ++ [name]) []) place := by
  refine Disk.spares_withFile [] ?_
  cases hnode : d.nodes[place ++ [name]]? with
  | none => rfl
  | some node =>
    obtain ⟨l, -, he⟩ := hk.exists_layer hnode
    exact absurd he (ne_tableName hshort l.1)

theorem Keeps.reaches_stray : (d.withFile (place ++ [name]) []).Reaches dir place 33 :=
  hk.reaches.mono (hk.spares_stray hshort).directories rfl

theorem Keeps.hasFile_stray (other : String) : (d.withFile (place ++ [name]) []).HasFile place other ↔
    other = name ∨ ∃ l ∈ layers, other = tableName l.1 := by
  by_cases he : other = name
  · subst he
    exact iff_of_true ⟨_, Disk.getElem?_nodes_withFile_self⟩ (Or.inl rfl)
  · rw [Disk.HasFile, Disk.getElem?_nodes_withFile_ne (Disk.concat_ne place he)]
    constructor
    · rintro ⟨file, hfile⟩
      exact Or.inr (hk.only other file hfile)
    · rintro (hother | ⟨l, hl, rfl⟩)
      · exact absurd hother he
      · exact ⟨_, (hk.file hl).1⟩

/-- A file that is no table keeps none from being opened. -/
theorem Keeps.loads_stray : ∀ id < bound 8, (d.withFile (place ++ [name]) []).HasFile place (tableName id) →
    ∃ t, Loads (d.withFile (place ++ [name]) []) dir id t := by
  intro id hid hfile
  rcases (hk.hasFile_stray hshort _).1 hfile with hname | ⟨l, hl, hname⟩
  · exact absurd hname.symm (ne_tableName hshort id)
  · obtain rfl := tableName_inj hid (hk.sound l hl).lt hname
    refine ⟨_, hid, hk.openTable hl (hk.reaches_stray hshort) ?_ ?_⟩
    · exact Disk.getElem?_nodes_withFile_ne (Disk.concat_ne place (ne_tableName hshort l.1).symm)
    · rw [Disk.content_withFile_of_lt (hk.file hl).2.1]
      exact (hk.file hl).2.2

/-- The tables and the other file are what is found. -/
theorem Keeps.found_stray (hid : tableId? name = some id)
    (hfound : Found (d.withFile (place ++ [name]) []) place found) :
    found.Perm ((name, id) :: layers.map fun l => (tableName l.1, l.1)) := by
  refine (List.perm_ext_iff_of_nodup hfound.nodup.of_map ?_).2 fun ⟨other, n⟩ => ?_
  · rw [List.nodup_cons]
    constructor
    · rw [List.mem_map]
      rintro ⟨l, -, he⟩
      exact ne_tableName hshort l.1 (Prod.mk.inj he).1.symm
    · rw [List.Nodup, List.pairwise_map]
      refine hk.descending.imp ?_
      intro l older hlt he
      exact Nat.ne_of_gt hlt (Prod.mk.inj he).2
  · rw [hfound.mem, hk.hasFile_stray hshort, List.mem_cons, List.mem_map]
    constructor
    · rintro ⟨rfl | ⟨l, hl, rfl⟩, hn⟩
      · exact Or.inl (by rw [Option.some.inj (hid.symm.trans hn)])
      · rw [tableId?_tableName (hk.sound l hl).lt, Option.some.injEq] at hn
        exact Or.inr ⟨l, hl, by rw [hn]⟩
    · rintro (he | ⟨l, hl, he⟩)
      · cases he
        exact ⟨Or.inl rfl, hid⟩
      · obtain ⟨rfl, rfl⟩ := Prod.mk.inj he
        exact ⟨Or.inr ⟨l, hl, rfl⟩, tableId?_tableName (hk.sound l hl).lt⟩

end Stray

/-- A second spelling of a number makes the opening load its table twice, and a spelling of a number without a
table makes it fail. -/
theorem openAt_finds_by_number_of_other_spellings :
    (∃ d place s t, d.find ["db"] = .ok (place, .directory) ∧
      (∀ name, d.HasFile place name ↔ name = "sstable_1.sst" ∨ name = tableName 1) ∧
      (∀ id < bound 8, d.HasFile place (tableName id) → ∃ t, Loads d ["db"] id t) ∧
      openAt ["db"] d = .ok s d ∧ s.tables = [t, t] ∧ ¬ LoadsEachOnce d ["db"] place) ∧
    ∃ d place fault, d.find ["db"] = .ok (place, .directory) ∧
      (∀ name, d.HasFile place name ↔ name = "sstable_+7.sst") ∧
      (∀ id < bound 8, d.HasFile place (tableName id) → ∃ t, Loads d ["db"] id t) ∧
      openAt ["db"] d = .error (.file fault) d := by
  have hfresh : Fresh {} ["db"] := fresh_of_engine Engine.fresh_db (by decide)
  constructor
  · have hstorable : ∀ m ∈ [MemTable.put {} [1] [2]], Table.Storable m.toList := by
      intro m hm
      rw [List.mem_singleton.1 hm]
      exact ⟨Table.ascending_toList _, by decide⟩
    obtain ⟨d, place, hkeeps, -⟩ := exists_reachable hfresh [MemTable.put {} [1] [2]] (by decide) hstorable
      (by decide) (by decide)
    have hstacked : stacked [MemTable.put {} [1] [2]] = [(1, [([1], .value [2])])] := by decide
    rw [hstacked] at hkeeps
    have hshort : "sstable_1.sst".utf8ByteSize < 18 := by decide
    have hfind := (hkeeps.reaches_stray hshort).find_self (by decide) (by decide)
    have hnames : ∀ name, (d.withFile (place ++ ["sstable_1.sst"]) []).HasFile place name ↔
        name = "sstable_1.sst" ∨ name = tableName 1 := by
      intro name
      rw [hkeeps.hasFile_stray hshort]
      simp
    have hloads := hkeeps.loads_stray hshort
    obtain ⟨found, hfound, hopen, -, honce⟩ := (openAt_finds_by_number _ _ _).2.2.2 hfind hloads
    have hperm : found.Perm [("sstable_1.sst", 1), (tableName 1, 1)] :=
      hkeeps.found_stray hshort (by decide) hfound
    have hids : found.map Prod.snd = List.replicate 2 1 := List.perm_replicate.1 (hperm.map Prod.snd)
    obtain ⟨tables, hopen, htables⟩ := hopen fun entry hentry => by
      have hid : entry.2 ∈ found.map Prod.snd := List.mem_map_of_mem hentry
      rw [hids] at hid
      rw [List.eq_of_mem_replicate hid]
      exact (hnames _).2 (Or.inr rfl)
    have htables : List.Forall₂ (Loads _ ["db"]) (found.map Prod.snd) tables :=
      List.forall₂_map_left_iff.2 htables
    rw [hids] at htables
    obtain ⟨t, rest, ⟨-, ht⟩, hrest, rfl⟩ := List.forall₂_cons_left_iff.1 htables
    obtain ⟨t', last, ⟨-, ht'⟩, hlast, rfl⟩ := List.forall₂_cons_left_iff.1 hrest
    obtain rfl := List.forall₂_nil_left_iff.1 hlast
    obtain rfl : t = t' := Except.ok.inj (ht.symm.trans ht')
    refine ⟨_, place, _, t, hfind, hnames, hloads, hopen, rfl, fun hloads => ?_⟩
    exact ne_tableName hshort 1 (honce.1 hloads _ (hperm.mem_iff.2 List.mem_cons_self))
  · obtain ⟨d, place, -, hkeeps⟩ := openAt_of_fresh hfresh
    have hshort : "sstable_+7.sst".utf8ByteSize < 18 := by decide
    have hfind := (hkeeps.reaches_stray hshort).find_self (by decide) (by decide)
    have hnames : ∀ name, (d.withFile (place ++ ["sstable_+7.sst"]) []).HasFile place name ↔
        name = "sstable_+7.sst" := by
      intro name
      rw [hkeeps.hasFile_stray hshort]
      simp
    have hloads := hkeeps.loads_stray hshort
    obtain ⟨found, hfound, -, hfails, -⟩ := (openAt_finds_by_number _ _ _).2.2.2 hfind hloads
    have hmem : ("sstable_+7.sst", 7) ∈ found := (hfound.mem _ _).2 ⟨(hnames _).2 rfl, by decide⟩
    obtain ⟨fault, hopen⟩ := hfails ⟨_, hmem, fun hfile =>
      ne_tableName hshort 7 ((hnames _).1 hfile).symm⟩
    exact ⟨_, place, fault, hfind, hnames, hloads, hopen⟩

end Shelf

end KeyedStore
