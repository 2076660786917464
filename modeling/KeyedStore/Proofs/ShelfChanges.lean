import KeyedStore.Proofs.ShelfLayers
import KeyedStore.Proofs.Steps

/-!
# Changing the layers of a shelf

Putting a table in memory on a shelf adds a layer on top of the others. Merging the layers leaves
one layer, with the live rows of the merge, and no key changes its value. Neither touches anything
but the directory of the shelf, and its older files keep their contents.
-/

namespace KeyedStore

open Std (TreeMap)

namespace Shelf

open Table Bytes

variable {d d' : Disk} {dir : Path} {place : Place} {layers front back : List Layer} {l : Layer}
  {rows : List Row} {m : MemTable} {s s' : Shelf} {info : TableInfo} {t : Table} {e : Error}

/-! ### Adding a table -/

theorem write_of_error {path : Path} (h : Disk.provide path d = .error e d') (rows : List Row) :
    Table.write path rows d = .error e d' := by
  have hwrite (bs : Bytes) : Disk.write path bs d = .error e d' := bind_of_error h
  unfold Table.write
  cases Builder.addAll rows {} with
  | ok _ b => exact bind_of_error (hwrite b.image)
  | error _ b => exact bind_of_error (hwrite b.unfinished)

/-- A table that was written and opened is built, and its number is used up. -/
theorem build_of_write (hwrite : Table.write (tablePath s.dir s.nextId) rows d = .ok info d')
    (hopen : Table.openAt d' (tablePath s.dir s.nextId) = .ok t) :
    build rows (s, d) = .ok (info, t) ({ s with nextId := idAfter s.nextId }, d') := by
  have hdisk : onDisk (Table.write (tablePath s.dir s.nextId) rows)
      ({ s with nextId := idAfter s.nextId }, d) = .ok info ({ s with nextId := idAfter s.nextId }, d') :=
    focus_of_ok hwrite
  rw [build, get_bind]
  exact (bind_of_ok rfl).trans ((bind_of_ok hdisk).trans (bind_of_ok (liftResult_of_ok hopen _)))

/-- Where the file of a table cannot be made, its number is used up all the same. -/
theorem build_of_error (h : Disk.provide (tablePath s.dir s.nextId) d = .error e d') (rows : List Row) :
    build rows (s, d) = .error e ({ s with nextId := idAfter s.nextId }, d') := by
  have hdisk : onDisk (Table.write (tablePath s.dir s.nextId) rows)
      ({ s with nextId := idAfter s.nextId }, d) = .error e ({ s with nextId := idAfter s.nextId }, d') :=
    focus_of_error (write_of_error h rows)
  rw [build, get_bind]
  exact (bind_of_ok rfl).trans (bind_of_error hdisk)

theorem flush_of_build (hm : m.isEmpty = false) (h : build m.toList (s, d) = .ok (info, t) (s', d')) :
    flush m (s, d) = .ok info ({ s' with tables := t :: s'.tables }, d') := by
  rw [flush, hm, if_neg Bool.false_ne_true]
  exact bind_of_ok h

theorem flush_of_error (hm : m.isEmpty = false)
    (h : Disk.provide (tablePath s.dir s.nextId) d = .error e d') :
    flush m (s, d) = .error e ({ s with nextId := idAfter s.nextId }, d') := by
  rw [flush, hm, if_neg Bool.false_ne_true]
  exact bind_of_error (build_of_error h m.toList)

def infoOf (path : Path) (rows : List Row) : TableInfo := Builder.info { taken := rows.reverse } path

theorem write_eq (hd : d.Reaches dir place 33) (hid : l.1 < bound 8)
    (hnone : d.nodes[place ++ [tableName l.1]]? = none) (hs : Storable l.2) :
    Table.write (tablePath dir l.1) l.2 d =
      .ok (infoOf (tablePath dir l.1) l.2) (d.withFile (place ++ [tableName l.1]) (encode l.2)) := by
  have hadd : Builder.addAll l.2 {} = .ok () { taken := l.2.reverse } := by
    rw [Builder.addAll_eq_ok hs (by simp)]
    simp
  have himage : Builder.image { taken := l.2.reverse } = encode l.2 := by
    rw [Builder.image, Builder.rows, List.reverse_reverse]
  have hwrite := hd.write_of_none (plainName_tableName hid) (utf8ByteSize_tableName_lt hid) hnone
    (encode l.2)
  simp only [Table.write, Builder.finish, hadd, himage, bind, EStateM.bind]
  rw [tablePath, hwrite]
  rfl

theorem build_eq {s : Shelf} (hd : d.Reaches s.dir place 33) (hid : s.nextId < bound 8)
    (hnone : d.nodes[place ++ [tableName s.nextId]]? = none) (hs : Storable rows)
    (hend : dataEnd rows < bound 8) :
    build rows (s, d) =
      .ok (infoOf (tablePath s.dir s.nextId) rows,
          layerTable (d.withFile (place ++ [tableName s.nextId]) (encode rows)) s.dir place
            (s.nextId, rows))
        ({ s with nextId := idAfter s.nextId },
          d.withFile (place ++ [tableName s.nextId]) (encode rows)) := by
  have hspares := Disk.spares_withFile (encode rows) hnone
  have hopen := openAt_tablePath (l := (s.nextId, rows))
    (hd.mono hspares.directories hspares.here) hid Disk.getElem?_nodes_withFile_self
    Disk.content_withFile_self hs hend
  exact build_of_write (write_eq (l := (s.nextId, rows)) hd hid hnone hs) hopen

theorem flush_eq {s : Shelf} (hd : d.Reaches s.dir place 33) (hid : s.nextId < bound 8)
    (hnone : d.nodes[place ++ [tableName s.nextId]]? = none) (hm : m.isEmpty = false)
    (hs : Storable m.toList) (hend : dataEnd m.toList < bound 8) :
    flush m (s, d) =
      .ok (infoOf (tablePath s.dir s.nextId) m.toList)
        ({ s with
            tables := layerTable (d.withFile (place ++ [tableName s.nextId]) (encode m.toList)) s.dir
              place (s.nextId, m.toList) :: s.tables
            nextId := idAfter s.nextId },
          d.withFile (place ++ [tableName s.nextId]) (encode m.toList)) :=
  flush_of_build hm (build_eq hd hid hnone hs hend)

/-! ### Numbers -/

theorem nextNumber_cons (l : Layer) (layers : List Layer) :
    nextNumber (l :: layers) = idAfter l.1 := rfl

theorem nextNumber_lt (layers : List Layer) : nextNumber layers < bound 8 := by
  cases layers with
  | nil => decide
  | cons l layers =>
    rw [nextNumber_cons, idAfter]
    exact Nat.mod_lt _ (by decide)

theorem idAfter_eq {id : Nat} (h : id + 1 < bound 8) : idAfter id = id + 1 := Nat.mod_eq_of_lt h

namespace Stores

theorem lt_nextNumber (h : Stores d dir place layers) (hl : l ∈ layers) :
    l.1 < nextNumber layers := by
  cases layers with
  | nil => contradiction
  | cons top layers =>
    have htop := (h.sound top List.mem_cons_self).numbered
    rw [nextNumber_cons, idAfter_eq htop]
    rcases List.mem_cons.1 hl with rfl | hl
    · exact Nat.lt_succ_self _
    · exact Nat.lt_succ_of_lt (List.rel_of_pairwise_cons h.descending hl)

theorem place_ne (h : Stores d dir place layers) (hl : l ∈ layers) {id : Nat} (hid : id < bound 8)
    (hlt : l.1 < id) : place ++ [tableName l.1] ≠ place ++ [tableName id] := by
  refine Disk.concat_ne place ?_
  intro hname
  have he := tableName_inj (h.sound l hl).lt hid hname
  omega

theorem next_ne (h : Stores d dir place layers) (hl : l ∈ layers) :
    place ++ [tableName l.1] ≠ place ++ [tableName (nextNumber layers)] :=
  h.place_ne hl (nextNumber_lt layers) (h.lt_nextNumber hl)

end Stores

theorem Keeps.free_of_lt (h : Keeps d dir place layers) {id : Nat} (hid : id < bound 8)
    (hlt : ∀ l ∈ layers, l.1 < id) : d.nodes[place ++ [tableName id]]? = none := by
  cases hn : d.nodes[place ++ [tableName id]]? with
  | none => rfl
  | some node =>
    obtain ⟨l, hl, hname⟩ := h.exists_layer hn
    have he := tableName_inj hid (h.sound l hl).lt hname
    have := hlt l hl
    omega

theorem Keeps.free (h : Keeps d dir place layers) :
    d.nodes[place ++ [tableName (nextNumber layers)]]? = none :=
  h.free_of_lt (nextNumber_lt layers) fun _ hl => h.lt_nextNumber hl

/-! ### Disks that store layers -/

/-- What a directory stores depends on nothing but its names and the contents of its files. -/
theorem Stores.frame (h : Stores d dir place layers) (hhere : d'.here = d.here)
    (hdir : ∀ p : Place, d.nodes[p]? = some .directory → d'.nodes[p]? = some .directory)
    (hnames : ∀ name, d'.nodes[place ++ [name]]? = d.nodes[place ++ [name]]?)
    (hsize : d.contents.size ≤ d'.contents.size)
    (hcontent : ∀ l ∈ layers, d'.content (d.fileAt (place ++ [tableName l.1])) =
      d.content (d.fileAt (place ++ [tableName l.1]))) :
    Stores d' dir place layers where
  reaches := h.reaches.mono hdir hhere
  named := h.named
  files l hl := by
    obtain ⟨id, hfile, hlt, hc⟩ := h.files l hl
    have hsame := hcontent l hl
    rw [Disk.fileAt_eq hfile] at hsame
    exact ⟨id, by rw [hnames, hfile], Nat.lt_of_lt_of_le hlt hsize, by rw [hsame, hc]⟩
  only name id hname := h.only name id (by rwa [hnames] at hname)
  descending := h.descending
  sound := h.sound

theorem Keeps.frame (h : Keeps d dir place layers) (hhere : d'.here = d.here)
    (hdir : ∀ p : Place, d.nodes[p]? = some .directory → d'.nodes[p]? = some .directory)
    (hnames : ∀ name, d'.nodes[place ++ [name]]? = d.nodes[place ++ [name]]?)
    (hsize : d.contents.size ≤ d'.contents.size)
    (hcontent : ∀ l ∈ layers, d'.content (d.fileAt (place ++ [tableName l.1])) =
      d.content (d.fileAt (place ++ [tableName l.1]))) :
    Keeps d' dir place layers where
  toStores := h.toStores.frame hhere hdir hnames hsize hcontent
  clear name := by
    rw [hnames]
    exact h.clear name

/-- A new file under a number above all others is one more layer. -/
theorem Stores.add {id : Nat} (h : Stores d dir place layers) (hs : Sound (id, rows))
    (hlt : ∀ l ∈ layers, l.1 < id) (hfree : d.nodes[place ++ [tableName id]]? = none) :
    Stores (d.withFile (place ++ [tableName id]) (encode rows)) dir place ((id, rows) :: layers) where
  reaches := by
    have hspares := Disk.spares_withFile (encode rows) hfree
    exact h.reaches.mono hspares.directories hspares.here
  named := h.named
  files l hl := by
    rcases List.mem_cons.1 hl with rfl | hl
    · exact ⟨d.contents.size, Disk.getElem?_nodes_withFile_self, by rw [Disk.size_withFile]; omega,
        Disk.content_withFile_self⟩
    · obtain ⟨file, hfile, hsize, hc⟩ := h.files l hl
      refine ⟨file, ?_, by rw [Disk.size_withFile]; omega, ?_⟩
      · rw [Disk.getElem?_nodes_withFile_ne (h.place_ne hl hs.lt (hlt l hl)), hfile]
      · rw [Disk.content_withFile_of_lt hsize, hc]
  only name file hname := by
    by_cases he : name = tableName id
    · exact ⟨_, List.mem_cons_self, he⟩
    · rw [Disk.getElem?_nodes_withFile_ne (Disk.concat_ne place he)] at hname
      obtain ⟨l, hl, hl'⟩ := h.only name file hname
      exact ⟨l, List.mem_cons_of_mem _ hl, hl'⟩
  descending := List.pairwise_cons.2 ⟨hlt, h.descending⟩
  sound l hl := by
    rcases List.mem_cons.1 hl with rfl | hl
    · exact hs
    · exact h.sound l hl

/-- A directory with nothing but files stays one where no directory is made. -/
theorem Keeps.of_spares {layers' : List Layer} (h : Keeps d dir place layers) (hs : d.Spares d' place)
    (ht : Stores d' dir place layers') : Keeps d' dir place layers' :=
  ⟨ht, fun name hname => h.clear name (hs.clear name hname)⟩

theorem map_layerTable (h : ∀ l ∈ layers, d'.nodes[place ++ [tableName l.1]]? =
      d.nodes[place ++ [tableName l.1]]?) :
    layers.map (layerTable d' dir place) = layers.map (layerTable d dir place) := by
  refine List.map_congr_left ?_
  intro l hl
  rw [layerTable, layerTable, Disk.fileAt, Disk.fileAt, h l hl]

theorem ofLayers_congr (h : ∀ l ∈ layers, d'.nodes[place ++ [tableName l.1]]? =
      d.nodes[place ++ [tableName l.1]]?) :
    ofLayers d' dir place layers = ofLayers d dir place layers := by
  rw [ofLayers, ofLayers, map_layerTable h]

theorem numbered_congr {id : Nat} (h : ∀ l ∈ layers, d'.nodes[place ++ [tableName l.1]]? =
      d.nodes[place ++ [tableName l.1]]?) :
    numbered d dir place id layers = numbered d' dir place id layers := by
  rw [numbered, numbered, ofLayers_congr h]

/-- A table in memory becomes the top layer, if the next number is above all others and free. -/
theorem Stores.flush {id : Nat} (h : Stores d dir place layers) (hm : m.isEmpty = false)
    (hs : Sound (id, m.toList)) (hlt : ∀ l ∈ layers, l.1 < id)
    (hfree : d.nodes[place ++ [tableName id]]? = none) :
    ∃ d', Shelf.flush m (numbered d dir place id layers, d) =
        .ok (infoOf (tablePath dir id) m.toList)
          (numbered d' dir place (idAfter id) ((id, m.toList) :: layers), d') ∧
      Stores d' dir place ((id, m.toList) :: layers) ∧ d.Spares d' place := by
  refine ⟨d.withFile (place ++ [tableName id]) (encode m.toList), ?_, h.add hs hlt hfree,
    Disk.spares_withFile _ hfree⟩
  have hflush := flush_eq (s := numbered d dir place id layers) h.reaches hs.lt hfree hm hs.storable
    hs.dataEnd_lt
  have hsame : ∀ l ∈ layers,
      (d.withFile (place ++ [tableName id]) (encode m.toList)).nodes[place ++ [tableName l.1]]? =
        d.nodes[place ++ [tableName l.1]]? :=
    fun l hl => Disk.getElem?_nodes_withFile_ne (h.place_ne hl hs.lt (hlt l hl))
  rw [hflush, numbered, numbered, ofLayers, ofLayers, List.map_cons, map_layerTable hsame]

theorem Keeps.flush (h : Keeps d dir place layers) (hm : m.isEmpty = false)
    (hs : Sound (nextNumber layers, m.toList)) :
    ∃ d', Shelf.flush m (ofLayers d dir place layers, d) =
        .ok (infoOf (tablePath dir (nextNumber layers)) m.toList)
          (ofLayers d' dir place ((nextNumber layers, m.toList) :: layers), d') ∧
      Keeps d' dir place ((nextNumber layers, m.toList) :: layers) ∧ d.Spares d' place := by
  obtain ⟨d', hflush, hstores, hspares⟩ :=
    h.toStores.flush hm hs (fun _ hl => h.lt_nextNumber hl) h.free
  exact ⟨d', hflush, h.of_spares hspares hstores, hspares⟩

/-! ### Removing tables -/

namespace Stores

theorem discard_eq (h : Stores d dir place layers) (hl : l ∈ layers) :
    d.discard (tablePath dir l.1) = d.without (place ++ [tableName l.1]) := by
  have hid := (h.sound l hl).lt
  have hfind := h.reaches.find (plainName_tableName hid) (utf8ByteSize_tableName_lt hid)
  rw [(h.file hl).1] at hfind
  simp only [Disk.discard, Disk.remove, tablePath, hfind, Disk.without]

theorem ne_of_mem_append (h : Stores d dir place (front ++ l :: back)) {other : Layer}
    (ho : other ∈ front ++ back) : place ++ [tableName other.1] ≠ place ++ [tableName l.1] := by
  have hl : l ∈ front ++ l :: back := by simp
  have hother : other ∈ front ++ l :: back :=
    ((List.sublist_cons_self l back).append_left front).subset ho
  refine Disk.concat_ne place ?_
  intro hname
  have he := tableName_inj (h.sound other hother).lt (h.sound l hl).lt hname
  have hdesc := h.descending
  rw [List.pairwise_append] at hdesc
  rcases List.mem_append.1 ho with hfront | hback
  · have := hdesc.2.2 other hfront l List.mem_cons_self
    omega
  · have := List.rel_of_pairwise_cons hdesc.2.1 hback
    omega

theorem without (h : Stores d dir place (front ++ l :: back)) :
    Stores (d.without (place ++ [tableName l.1])) dir place (front ++ back) := by
  have hl : l ∈ front ++ l :: back := by simp
  have hsub : (front ++ back).Sublist (front ++ l :: back) :=
    (List.sublist_cons_self l back).append_left front
  have hspares := Disk.spares_without (h.file hl).1
  refine ⟨h.reaches.mono hspares.directories hspares.here, h.named, ?_, ?_,
    h.descending.sublist hsub, fun l' hl' => h.sound l' (hsub.subset hl')⟩
  · intro l' hl'
    obtain ⟨id, hnode, hrest⟩ := h.files l' (hsub.subset hl')
    exact ⟨id, by rw [Disk.getElem?_nodes_without_ne (h.ne_of_mem_append hl'), hnode], hrest⟩
  · intro name id hname
    by_cases he : name = tableName l.1
    · rw [he, Disk.getElem?_nodes_without_self] at hname
      contradiction
    · rw [Disk.getElem?_nodes_without_ne (Disk.concat_ne place he)] at hname
      obtain ⟨l', hl', hn⟩ := h.only name id hname
      refine ⟨l', ?_, hn⟩
      rw [List.mem_append, List.mem_cons] at hl'
      rcases hl' with hfront | rfl | hback
      · exact List.mem_append_left _ hfront
      · exact absurd hn he
      · exact List.mem_append_right _ hback

theorem discard (h : Stores d dir place (front ++ l :: back)) :
    Stores (d.discard (tablePath dir l.1)) dir place (front ++ back) ∧
      d.Spares (d.discard (tablePath dir l.1)) place ∧
      ∀ l' ∈ front ++ back, (d.discard (tablePath dir l.1)).nodes[place ++ [tableName l'.1]]? =
        d.nodes[place ++ [tableName l'.1]]? := by
  have hl : l ∈ front ++ l :: back := by simp
  rw [h.discard_eq hl]
  exact ⟨h.without, Disk.spares_without (h.file hl).1,
    fun l' hl' => Disk.getElem?_nodes_without_ne (h.ne_of_mem_append hl')⟩

theorem discardAll {gone : List Layer} (h : Stores d dir place (front ++ (gone ++ back))) :
    ∃ d', (gone.foldl (fun d l => d.discard (tablePath dir l.1)) d) = d' ∧
      Stores d' dir place (front ++ back) ∧ d.Spares d' place ∧
      ∀ l ∈ front, d'.nodes[place ++ [tableName l.1]]? = d.nodes[place ++ [tableName l.1]]? := by
  induction gone generalizing d with
  | nil => exact ⟨d, rfl, h, Disk.Spares.refl d place, fun _ _ => rfl⟩
  | cons l gone ih =>
    obtain ⟨hstores, hspares, hsame⟩ := h.discard
    obtain ⟨d', hfold, hstores', hspares', hsame'⟩ := ih hstores
    refine ⟨d', hfold, hstores', hspares.trans hspares', ?_⟩
    intro l' hl'
    rw [hsame' l' hl', hsame l' (List.mem_append_left _ hl')]

end Stores

theorem Keeps.discardAll {gone : List Layer} (h : Keeps d dir place (front ++ (gone ++ back))) :
    ∃ d', (gone.foldl (fun d l => d.discard (tablePath dir l.1)) d) = d' ∧
      Keeps d' dir place (front ++ back) ∧ d.Spares d' place ∧
      ∀ l ∈ front, d'.nodes[place ++ [tableName l.1]]? = d.nodes[place ++ [tableName l.1]]? := by
  obtain ⟨d', hfold, hstores, hspares, hsame⟩ := h.toStores.discardAll
  exact ⟨d', hfold, h.of_spares hspares hstores, hspares, hsame⟩

/-! ### Merging tables -/

def mergedRows (layers : List Layer) : List Row := live (merge (layers.map Prod.snd)).toList

/-- What a merge leaves of some layers. -/
def compacted (layers : List Layer) : List Layer :=
  if layers.length < 2 then layers else [(nextNumber layers, mergedRows layers)]

theorem ne_nil_of_not_lt (h : ¬ layers.length < 2) : layers ≠ [] := by
  rintro rfl
  exact h Nat.two_pos

theorem mem_of_mem_mergedRows {row : Row} (h : row ∈ mergedRows layers) :
    ∃ l ∈ layers, row ∈ l.2 := by
  have hmem := TreeMap.mem_toList_iff_getElem?_eq_some.1 (List.mem_filter.1 h).1
  rw [getElem?_merge] at hmem
  obtain ⟨rows, hrows, hrow⟩ := List.mem_flatten.1 (mem_of_lookup hmem)
  obtain ⟨l, hl, rfl⟩ := List.mem_map.1 hrows
  exact ⟨l, hl, hrow⟩

theorem ascending_mergedRows (layers : List Layer) : Ascending (mergedRows layers) :=
  ascending_live (ascending_toList _)

theorem storable_mergedRows (h : ∀ l ∈ layers, Storable l.2) : Storable (mergedRows layers) where
  ascending := ascending_mergedRows layers
  lengths row hrow := by
    obtain ⟨l, hl, hmem⟩ := mem_of_mem_mergedRows hrow
    exact (h l hl).lengths row hmem

theorem sum_map_mergedRows_le (f : Row → Nat) (layers : List Layer) :
    ((mergedRows layers).map f).sum ≤ ((layers.flatMap Prod.snd).map f).sum := by
  refine sum_map_le_of_subset ?_ ?_
  · have hkeys := (ascending_mergedRows layers).nodup_keys
    exact List.Pairwise.imp (fun hne he => hne (congrArg Prod.fst he)) (List.pairwise_map.1 hkeys)
  · intro row hrow
    exact List.mem_flatMap.2 (mem_of_mem_mergedRows hrow)

theorem sum_spaceOf_le (layers : List Layer) :
    ((layers.flatMap Prod.snd).map spaceOf).sum ≤ (layers.map fun l => fileSize l.2).sum := by
  induction layers with
  | nil => exact Nat.le_refl _
  | cons l layers ih =>
    rw [List.flatMap_cons, List.map_append, List.sum_append, List.map_cons, List.sum_cons, fileSize_eq]
    omega

theorem fileSize_mergedRows_le {layers : List Layer} (hne : layers ≠ []) :
    fileSize (mergedRows layers) ≤ (layers.map fun l => fileSize l.2).sum := by
  cases layers with
  | nil => contradiction
  | cons l layers =>
    have hsum := sum_map_mergedRows_le spaceOf (l :: layers)
    have hrest := sum_spaceOf_le layers
    rw [List.flatMap_cons, List.map_append, List.sum_append] at hsum
    rw [List.map_cons, List.sum_cons, fileSize_eq, fileSize_eq]
    omega

theorem lookup_mergedRows (layers : List Layer) (key : Bytes) :
    ((mergedRows layers).lookup key).bind Version.live? = valueIn layers key := by
  rw [mergedRows, lookup_live_bind (ascending_toList _), lookup_toList, getElem?_merge, valueIn,
    List.flatMap_def]

/-- Merging the layers changes the value of no key. -/
theorem valueIn_compacted (layers : List Layer) (key : Bytes) :
    valueIn (compacted layers) key = valueIn layers key := by
  rw [compacted]
  split
  · rfl
  · rw [valueIn, List.flatMap_singleton, lookup_mergedRows]

theorem Stores.scanTables (h : Stores d dir place layers) :
    ((layers.map (layerTable d dir place)).mapM fun t => t.scan d) = .ok (layers.map Prod.snd) := by
  rw [List.mapM_map]
  exact mapM_eq_ok fun l hl => scan_eq (h.sound l hl).storable rfl (h.file hl).2.2

/-- The layers that are on the disk after the merge was written and before the old tables are gone. -/
def merging (layers : List Layer) : List Layer := (nextNumber layers, mergedRows layers) :: layers

/-- The merge is written as one more layer, which takes the place of all others on the shelf. -/
theorem Stores.replaceTables {id : Nat} (h : Stores d dir place layers) (hlen : ¬ layers.length < 2)
    (hs : Sound (id, mergedRows layers)) (hlt : ∀ l ∈ layers, l.1 < id)
    (hfree : d.nodes[place ++ [tableName id]]? = none) :
    ∃ info d', Shelf.replaceTables (numbered d dir place id layers, d) =
        .ok (some (info, (ofLayers d dir place layers).tables))
          (numbered d' dir place (idAfter id) [(id, mergedRows layers)], d') ∧
      Stores d' dir place ((id, mergedRows layers) :: layers) ∧ d.Spares d' place := by
  refine ⟨infoOf (tablePath dir id) (mergedRows layers), _, ?_, h.add hs hlt hfree,
    Disk.spares_withFile (encode (mergedRows layers)) hfree⟩
  have hbuild := build_eq (s := numbered d dir place id layers) h.reaches hs.lt hfree hs.storable
    hs.dataEnd_lt
  have hlen' : ¬ (numbered d dir place id layers).tables.length < 2 := by
    rwa [numbered, ofLayers, List.length_map]
  have hscan : (numbered d dir place id layers).tables.mapM (fun t => t.scan d) =
      .ok (layers.map Prod.snd) := h.scanTables
  simp only [Shelf.replaceTables, bind, EStateM.bind, get, getThe, MonadStateOf.get, EStateM.get,
    if_neg hlen', hscan, liftResult, pure, EStateM.pure]
  rw [← mergedRows, hbuild]
  rfl

theorem Keeps.replaceTables (h : Keeps d dir place layers) (hlen : ¬ layers.length < 2)
    (hs : Sound (nextNumber layers, mergedRows layers)) :
    ∃ info d', Shelf.replaceTables (ofLayers d dir place layers, d) =
        .ok (some (info, (ofLayers d dir place layers).tables))
          (ofLayers d' dir place (compacted layers), d') ∧
      Keeps d' dir place (merging layers) ∧ d.Spares d' place := by
  obtain ⟨info, d', hreplace, hstores, hspares⟩ :=
    h.toStores.replaceTables hlen hs (fun _ hl => h.lt_nextNumber hl) h.free
  rw [compacted, if_neg hlen]
  exact ⟨info, d', hreplace, h.of_spares hspares hstores, hspares⟩

theorem compact_of_lt {s : Shelf} (hlen : s.tables.length < 2) :
    compact (s, d) = .ok none (s, d) := by
  simp only [compact, replaceTables, hlen, if_true, bind, EStateM.bind, get, getThe,
    MonadStateOf.get, EStateM.get, pure, EStateM.pure]

theorem Stores.compact {id : Nat} (h : Stores d dir place layers) (hlen : ¬ layers.length < 2)
    (hs : Sound (id, mergedRows layers)) (hlt : ∀ l ∈ layers, l.1 < id)
    (hfree : d.nodes[place ++ [tableName id]]? = none) :
    ∃ info d', Shelf.compact (numbered d dir place id layers, d) =
        .ok (some info) (numbered d' dir place (idAfter id) [(id, mergedRows layers)], d') ∧
      Stores d' dir place [(id, mergedRows layers)] ∧ d.Spares d' place := by
  obtain ⟨info, d₁, hreplace, hmerging, hspares⟩ := h.replaceTables hlen hs hlt hfree
  have hsplit : Stores d₁ dir place ([(id, mergedRows layers)] ++ (layers ++ [])) := by
    rwa [List.append_nil]
  obtain ⟨d', hfold, hstores, hspares', hsame⟩ := hsplit.discardAll
  refine ⟨info, d', ?_, hstores, hspares.trans hspares'⟩
  have hold : (ofLayers d dir place layers).tables.foldl (fun d t => d.discard t.path) d₁ = d' := by
    rw [ofLayers, List.foldl_map, ← hfold]
    rfl
  simp only [Shelf.compact, bind, EStateM.bind, hreplace, modify, modifyGet, MonadStateOf.modifyGet,
    EStateM.modifyGet, hold, pure, EStateM.pure]
  rw [numbered, numbered, ofLayers, ofLayers, map_layerTable hsame]

theorem Keeps.compact (h : Keeps d dir place layers)
    (hs : Sound (nextNumber layers, mergedRows layers)) :
    ∃ info d', Shelf.compact (ofLayers d dir place layers, d) =
        .ok info (ofLayers d' dir place (compacted layers), d') ∧
      Keeps d' dir place (compacted layers) ∧ d.Spares d' place := by
  by_cases hlen : layers.length < 2
  · refine ⟨none, d, ?_, ?_, Disk.Spares.refl d place⟩
    · rw [compacted, if_pos hlen]
      exact compact_of_lt (by rwa [ofLayers, List.length_map])
    · rw [compacted, if_pos hlen]
      exact h
  · obtain ⟨info, d', hcompact, hstores, hspares⟩ :=
      h.toStores.compact hlen hs (fun _ hl => h.lt_nextNumber hl) h.free
    rw [compacted, if_neg hlen]
    exact ⟨some info, d', hcompact, h.of_spares hspares hstores, hspares⟩

end Shelf

end KeyedStore
