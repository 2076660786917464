import KeyedStore.Proofs.AcceptedTables
import KeyedStore.Proofs.TableNames

/-!
# Shelves as layers of rows

A layer is the number of a table with its rows. A directory stores some layers if it holds their
files and no other file, and it keeps them if it holds nothing else at all. Opening a shelf on such a
directory loads the tables of all layers, the newest first, and a key has the value that the newest
layer with a row for it gives.
-/

namespace KeyedStore

open Std (TreeMap)

namespace Disk

variable {d d' : Disk} {place p : Place} {name : String} {node : Node} {id : Nat}

theorem mem_entriesAt : (name, node) ∈ d.entriesAt place ↔ d.nodes[place ++ [name]]? = some node := by
  rw [entriesAt, List.mem_filterMap]
  constructor
  · rintro ⟨⟨p, found⟩, hmem, hname⟩
    dsimp only at hname
    split at hname
    · next hdir =>
      obtain ⟨last, hlast, he⟩ := Option.map_eq_some_iff.1 hname
      cases he
      obtain ⟨front, rfl⟩ := List.getLast?_eq_some_iff.1 hlast
      rw [List.dropLast_concat] at hdir
      subst hdir
      exact TreeMap.mem_toList_iff_getElem?_eq_some.1 hmem
    · contradiction
  · intro h
    refine ⟨(place ++ [name], node), TreeMap.mem_toList_iff_getElem?_eq_some.2 h, ?_⟩
    simp only [List.dropLast_concat, if_true, List.getLast?_concat, Option.map_some]

theorem pairwise_entriesAt (d : Disk) (place : Place) :
    (d.entriesAt place).Pairwise fun a b => a.1 ≠ b.1 := by
  rw [entriesAt, List.pairwise_filterMap]
  refine List.Pairwise.imp ?_ (TreeMap.distinct_keys_toList (t := d.nodes))
  rintro ⟨p, a⟩ ⟨p', a'⟩ hne entry hentry entry' hentry' he
  apply hne
  dsimp only at hentry hentry'
  split at hentry
  · next hdir =>
    split at hentry'
    · next hdir' =>
      obtain ⟨last, hlast, rfl⟩ := Option.map_eq_some_iff.1 hentry
      obtain ⟨last', hlast', rfl⟩ := Option.map_eq_some_iff.1 hentry'
      obtain ⟨front, rfl⟩ := List.getLast?_eq_some_iff.1 hlast
      obtain ⟨front', rfl⟩ := List.getLast?_eq_some_iff.1 hlast'
      rw [List.dropLast_concat] at hdir hdir'
      rw [hdir, hdir', show last = last' from he]
      exact Std.ReflOrd.compare_self
    · contradiction
  · contradiction

end Disk

namespace Shelf

open Table Bytes

/-- The number of a table and its rows. -/
abbrev Layer := Nat × List Row

variable {d d' : Disk} {dir : Path} {place : Place} {layers : List Layer} {l : Layer} {key : Bytes}

def layerTable (d : Disk) (dir : Path) (place : Place) (l : Layer) : Table where
  path := tablePath dir l.1
  file := d.fileAt (place ++ [tableName l.1])
  index := Index.ofRows l.2

/-- The number that the table above some layers gets. -/
def nextNumber (layers : List Layer) : Nat := (layers.head?.map fun l => idAfter l.1).getD 1

def ofLayers (d : Disk) (dir : Path) (place : Place) (layers : List Layer) : Shelf where
  dir
  tables := layers.map (layerTable d dir place)
  nextId := nextNumber layers

/-- A shelf of some layers whose next table gets a given number: some numbers may be used up. -/
def numbered (d : Disk) (dir : Path) (place : Place) (id : Nat) (layers : List Layer) : Shelf :=
  { ofLayers d dir place layers with nextId := id }

/-- The live value that the newest row of a key in some layers gives. -/
def valueIn (layers : List Layer) (key : Bytes) : Option Bytes :=
  ((layers.flatMap Prod.snd).lookup key).bind Version.live?

/-- The numbers found in a directory that holds table files and no other file. -/
theorem tableIds_eq {ids : List Nat} (hfind : d.find dir = .ok (place, .directory))
    (hfiles : ∀ id ∈ ids, ∃ file, d.nodes[place ++ [tableName id]]? = some (.file file))
    (honly : ∀ name file, d.nodes[place ++ [name]]? = some (.file file) →
      ∃ id ∈ ids, name = tableName id)
    (hdesc : ids.Pairwise fun a b => b < a) (hlt : ∀ id ∈ ids, id < bound 8) :
    tableIds d dir = ids := by
  have hentries : d.entries dir = d.entriesAt place := by simp only [Disk.entries, hfind]
  rw [tableIds, hentries]
  generalize hfound : (d.entriesAt place).filterMap _ = found
  have hnames : ∀ name file id, (name, Node.file file) ∈ d.entriesAt place →
      tableId? name = some id → id ∈ ids ∧ name = tableName id := by
    intro name file id hmem hid
    rw [Disk.mem_entriesAt] at hmem
    obtain ⟨id', hid', rfl⟩ := honly name file hmem
    rw [tableId?_tableName (hlt id' hid'), Option.some.injEq] at hid
    subst hid
    exact ⟨hid', rfl⟩
  have hmem : ∀ id, id ∈ found ↔ id ∈ ids := by
    intro id
    rw [← hfound, List.mem_filterMap]
    constructor
    · rintro ⟨⟨name, node⟩, hmem, hid⟩
      cases node with
      | directory => contradiction
      | file file => exact (hnames name file id hmem hid).1
    · intro hid
      obtain ⟨file, hfile⟩ := hfiles id hid
      exact ⟨(tableName id, .file file), Disk.mem_entriesAt.2 hfile, tableId?_tableName (hlt id hid)⟩
  have hnodup : found.Nodup := by
    rw [← hfound, List.Nodup, List.pairwise_filterMap]
    refine List.Pairwise.imp_of_mem ?_ (d.pairwise_entriesAt place)
    rintro ⟨name, node⟩ ⟨name', node'⟩ hm hm' hne id hid id' hid' rfl
    cases node with
    | directory => contradiction
    | file file =>
      cases node' with
      | directory => contradiction
      | file file' =>
        exact hne ((hnames name file id hm hid).2.trans (hnames name' file' id hm' hid').2.symm)
  have hids : ids.Nodup := List.Pairwise.imp Nat.ne_of_gt hdesc
  have hperm : (found.mergeSort fun a b => b ≤ a).Perm ids :=
    (List.mergeSort_perm _ _).trans ((List.perm_ext_iff_of_nodup hnodup hids).2 hmem)
  have hsorted : (found.mergeSort fun a b => b ≤ a).Pairwise fun a b => decide (b ≤ a) = true :=
    List.pairwise_mergeSort (by simp only [decide_eq_true_eq]; omega) (by simp; omega) found
  refine hperm.eq_of_pairwise ?_ hsorted (hdesc.imp ?_)
  · intro a b _ _ hab hba
    simp only [decide_eq_true_eq] at hab hba
    omega
  · intro a b hab
    simp only [decide_eq_true_eq]
    omega

/-- A layer whose number is not the last one, and whose rows a table file can hold and be read
from. -/
structure Sound (l : Layer) : Prop where
  numbered : l.1 + 1 < bound 8
  storable : Storable l.2
  inReach : dataEnd l.2 ≤ Index.offsetLimit

/-- A directory that holds the files of some layers, the newest first, and no other file. -/
structure Stores (d : Disk) (dir : Path) (place : Place) (layers : List Layer) : Prop where
  reaches : d.Reaches dir place 33
  named : 1 < dir.size
  files : ∀ l ∈ layers, ∃ id, d.nodes[place ++ [tableName l.1]]? = some (.file id) ∧
    id < d.contents.size ∧ d.content id = encode l.2
  only : ∀ name id, d.nodes[place ++ [name]]? = some (.file id) → ∃ l ∈ layers, name = tableName l.1
  descending : layers.Pairwise fun a b => b.1 < a.1
  sound : ∀ l ∈ layers, Sound l

/-- A directory that holds the files of some layers and nothing else. -/
structure Keeps (d : Disk) (dir : Path) (place : Place) (layers : List Layer) : Prop
    extends Stores d dir place layers where
  clear : ∀ name, d.nodes[place ++ [name]]? ≠ some .directory

/-- Whatever stands in the directory is one of the files. -/
theorem Keeps.exists_layer {name : String} {node : Node} (h : Keeps d dir place layers)
    (hname : d.nodes[place ++ [name]]? = some node) : ∃ l ∈ layers, name = tableName l.1 := by
  cases node with
  | directory => exact absurd hname (h.clear name)
  | file id => exact h.only name id hname

theorem keeps_nil (hr : d.Reaches dir place 33) (hnamed : 1 < dir.size)
    (hnone : ∀ name, d.nodes[place ++ [name]]? = none) : Keeps d dir place [] where
  reaches := hr
  named := hnamed
  files l hl := by contradiction
  only name id hname := by rw [hnone] at hname; contradiction
  descending := List.Pairwise.nil
  sound l hl := by contradiction
  clear name := by rw [hnone]; simp

theorem Sound.lt (h : Sound l) : l.1 < bound 8 := Nat.lt_of_succ_lt h.numbered

theorem Sound.dataEnd_lt (h : Sound l) : dataEnd l.2 < bound 8 :=
  Nat.lt_of_le_of_lt h.inReach (by decide)

theorem openAt_tablePath {id : Nat} (hd : d.Reaches dir place 33) (hid : l.1 < bound 8)
    (hfile : d.nodes[place ++ [tableName l.1]]? = some (.file id)) (hcontent : d.content id = encode l.2)
    (hs : Storable l.2) (hend : dataEnd l.2 < bound 8) :
    Table.openAt d (tablePath dir l.1) = .ok (layerTable d dir place l) := by
  have hf : d.file (tablePath dir l.1) = .ok id :=
    hd.file_of_file (plainName_tableName hid) (utf8ByteSize_tableName_lt hid) hfile
  rw [layerTable, Disk.fileAt_eq hfile]
  simp only [Table.openAt, hf, bind, Except.bind, hcontent, Index.ofBytes_encode hs hend]
  rfl

theorem path_of_openAt {path : Path} {t : Table} (h : Table.openAt d path = .ok t) : t.path = path := by
  simp only [Table.openAt, bind, Except.bind] at h
  split at h
  · contradiction
  · split at h
    · cases h
      rfl
    · contradiction

theorem mapM_eq_ok {ε α β : Type} {f : α → Except ε β} {g : α → β} {as : List α}
    (h : ∀ a ∈ as, f a = .ok (g a)) : as.mapM f = .ok (as.map g) := by
  induction as with
  | nil => rfl
  | cons a as ih =>
    rw [List.mapM_cons, h a List.mem_cons_self, ih fun b hb => h b (List.mem_cons_of_mem _ hb)]
    rfl

/-- The table of some rows decides before older tables, if it has a row for the key. -/
theorem lookup_cons {t : Table} {rows : List Row} (hindex : t.index = Index.ofRows rows)
    (hcontent : d.content t.file = encode rows) (hs : Storable rows)
    (hend : dataEnd rows ≤ Index.offsetLimit) (key : Bytes) (older : List Table) :
    lookup d key (t :: older) = (rows.lookup key).elim (lookup d key older) fun v => .ok (some v) := by
  have hget := get?_eq hs hend hindex hcontent key
  rw [lookup]
  cases hv : rows.lookup key with
  | none =>
    simp only [hget, hv, bind, Except.bind, ite_self, Option.elim_none]
  | some v =>
    have hmem : key ∈ (Index.ofRows rows).offsets :=
      Index.mem_ofRows.2 (List.mem_map_of_mem (mem_of_lookup hv))
    rw [hindex, Index.mightContain_of_mem hmem, if_pos rfl]
    simp only [hget, hv, bind, Except.bind]
    rfl

/-- What the first of some files that says anything about a key says. -/
theorem lookup_layers {file : Layer → Table} (key : Bytes)
    (hindex : ∀ l ∈ layers, (file l).index = Index.ofRows l.2)
    (hcontent : ∀ l ∈ layers, d.content (file l).file = encode l.2)
    (hsound : ∀ l ∈ layers, Storable l.2 ∧ dataEnd l.2 ≤ Index.offsetLimit) :
    lookup d key (layers.map file) = .ok ((layers.flatMap Prod.snd).lookup key) := by
  induction layers with
  | nil => rfl
  | cons l layers ih =>
    have hrest := ih (fun l hl => hindex l (List.mem_cons_of_mem _ hl))
      (fun l hl => hcontent l (List.mem_cons_of_mem _ hl))
      (fun l hl => hsound l (List.mem_cons_of_mem _ hl))
    obtain ⟨hs, hend⟩ := hsound l List.mem_cons_self
    rw [List.map_cons, lookup_cons (hindex l List.mem_cons_self) (hcontent l List.mem_cons_self) hs hend,
      hrest, List.flatMap_cons, List.lookup_append]
    cases l.2.lookup key with
    | none => rfl
    | some v => rfl

namespace Stores

theorem find_dir (h : Stores d dir place layers) : d.find dir = .ok (place, .directory) :=
  h.reaches.find_self (by omega) h.named

theorem tableIds (h : Stores d dir place layers) : tableIds d dir = layers.map Prod.fst := by
  refine tableIds_eq h.find_dir ?_ ?_ (List.pairwise_map.2 h.descending) ?_
  · intro id hid
    obtain ⟨l, hl, rfl⟩ := List.mem_map.1 hid
    obtain ⟨file, hfile, -⟩ := h.files l hl
    exact ⟨file, hfile⟩
  · intro name file hfile
    obtain ⟨l, hl, rfl⟩ := h.only name file hfile
    exact ⟨l.1, List.mem_map_of_mem hl, rfl⟩
  · intro id hid
    obtain ⟨l, hl, rfl⟩ := List.mem_map.1 hid
    exact (h.sound l hl).lt

theorem file (h : Stores d dir place layers) (hl : l ∈ layers) :
    d.nodes[place ++ [tableName l.1]]? = some (.file (layerTable d dir place l).file) ∧
      (layerTable d dir place l).file < d.contents.size ∧
      d.content (layerTable d dir place l).file = encode l.2 := by
  obtain ⟨file, hfile, hrest⟩ := h.files l hl
  rw [layerTable, Disk.fileAt_eq hfile]
  exact ⟨hfile, hrest⟩

theorem openTable (h : Stores d dir place layers) (hl : l ∈ layers) (hd : d'.Reaches dir place 33)
    (hnode : d'.nodes[place ++ [tableName l.1]]? = d.nodes[place ++ [tableName l.1]]?)
    (hcontent : d'.content (layerTable d dir place l).file = encode l.2) :
    Table.openAt d' (tablePath dir l.1) = .ok (layerTable d dir place l) := by
  have hs := h.sound l hl
  have hopen := openAt_tablePath hd hs.lt (hnode.trans (h.file hl).1) hcontent hs.storable hs.dataEnd_lt
  rw [hopen, layerTable, layerTable, Disk.fileAt, Disk.fileAt, hnode]

theorem openTables (h : Stores d dir place layers) (hd : d'.Reaches dir place 33)
    (hnodes : ∀ l ∈ layers, d'.nodes[place ++ [tableName l.1]]? = d.nodes[place ++ [tableName l.1]]?)
    (hcontent : ∀ l ∈ layers, d'.content (layerTable d dir place l).file = encode l.2) :
    ((layers.map Prod.fst).mapM fun id => Table.openAt d' (tablePath dir id)) =
      .ok (layers.map (layerTable d dir place)) := by
  rw [List.mapM_map]
  exact mapM_eq_ok fun l hl => h.openTable hl hd (hnodes l hl) (hcontent l hl)

theorem openAt (h : Stores d dir place layers) :
    Shelf.openAt dir d = .ok (ofLayers d dir place layers) d := by
  have htables := h.openTables h.reaches (fun _ _ => rfl) fun l hl => (h.file hl).2.2
  simp only [Shelf.openAt, bind, EStateM.bind, h.reaches.makeDirectories (by omega), get, getThe,
    MonadStateOf.get, EStateM.get, h.tableIds, htables, liftResult, pure, EStateM.pure]
  rw [ofLayers, nextNumber, List.head?_map, Option.map_map]
  rfl

theorem lookup (h : Stores d dir place layers) (key : Bytes) :
    Shelf.lookup d key (layers.map (layerTable d dir place)) =
      .ok ((layers.flatMap Prod.snd).lookup key) :=
  lookup_layers key (fun _ _ => rfl) (fun _ hl => (h.file hl).2.2)
    (fun l hl => ⟨(h.sound l hl).storable, (h.sound l hl).inReach⟩)

/-- A key has the live value that the newest row for it gives. -/
theorem get? (h : Stores d dir place layers) (key : Bytes) :
    (ofLayers d dir place layers).get? d key = .ok (valueIn layers key) := by
  rw [Shelf.get?, ofLayers, h.lookup]
  rfl

end Stores

end Shelf

end KeyedStore
