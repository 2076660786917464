import KeyedStore.Proofs.ShelfChanges
import KeyedStore.Proofs.Steps

/-!
# States of a shelf

The states that a shelf reaches from a directory with nothing in it: tables in memory are put on it,
its tables are merged, and it is opened again, also after a merge of which some old tables are left. In
each of these states the directory holds exactly the tables of the shelf.
-/

namespace KeyedStore

namespace Table.Builder

theorem checkLength_eq_ok {part : EntryPart} {length : Nat} (h : checkLength part length = .ok ()) :
    length < tombstoneMark := by
  by_contra hlt
  rw [checkLength, if_neg hlt] at h
  contradiction

/-- Rows that were all taken have the lengths that a file can state. -/
theorem lengths_of_addAll {rows : List Row} {b b' : Builder} (h : addAll rows b = .ok () b') :
    ∀ row ∈ rows, row.1.length < tombstoneMark ∧ row.2.length < tombstoneMark := by
  induction rows generalizing b with
  | nil => exact fun _ hrow => absurd hrow List.not_mem_nil
  | cons row rows ih =>
    have hcons : addAll (row :: rows) b = (do add row; addAll rows : EStateM Error Builder Unit) b := rfl
    rw [hcons] at h
    simp only [bind, EStateM.bind, add, get, getThe, MonadStateOf.get, EStateM.get] at h
    cases hcheck : b.check row with
    | error cause =>
      simp only [hcheck, liftResult, throw, throwThe, MonadExceptOf.throw, EStateM.throw] at h
      contradiction
    | ok _ =>
      simp only [hcheck, liftResult, pure, EStateM.pure, modify, modifyGet, MonadStateOf.modifyGet,
        EStateM.modifyGet] at h
      have hlengths : row.1.length < tombstoneMark ∧ row.2.length < tombstoneMark := by
        simp only [check, bind, Except.bind] at hcheck
        split at hcheck
        · contradiction
        · cases hkey : checkLength .key row.1.length with
          | error cause =>
            simp only [hkey] at hcheck
            contradiction
          | ok _ =>
            simp only [hkey] at hcheck
            exact ⟨checkLength_eq_ok hkey, checkLength_eq_ok hcheck⟩
      intro other hother
      rcases List.mem_cons.1 hother with rfl | hother
      · exact hlengths
      · exact ih h other hother

end Table.Builder

namespace Shelf

open Table Bytes

/-- Merges the tables into one and removes the files of the old ones but for some: the process stops
before they are removed, or removing them fails. -/
def compactLeaving (survives : Table → Bool) : ShelfM (Option TableInfo) := do
  match ← replaceTables with
  | none => return none
  | some (info, old) =>
    let gone := old.filter fun t => !survives t
    modify fun (s, d) => (s, gone.foldl (fun d t => d.discard t.path) d)
    return some info

theorem compactLeaving_nothing : compactLeaving (fun _ => false) = compact := by
  refine congrArg (replaceTables >>= ·) (funext fun replaced? => ?_)
  cases replaced? with
  | none => rfl
  | some replaced => simp only [Bool.not_false, List.filter_true]

/-- A directory that exists or can be made, with nothing in it. -/
def Fresh (d : Disk) (dir : Path) : Prop :=
  1 < dir.size ∧ ∃ d₁ place, Disk.makeDirectories dir d = .ok () d₁ ∧ d₁.Reaches dir place 33 ∧
    ∀ name, d₁.nodes[place ++ [name]]? = none

/-- A number is left after the next one, and the files together do not reach past the largest
offset. -/
structure WithinLimits (s : Shelf) (d : Disk) : Prop where
  numbers : s.nextId + 1 < bound 8
  space : (s.tables.map fun t => d.length t.file).sum ≤ Index.offsetLimit

/-- A shelf on its disk, after any steps that succeed and stay within the limits. -/
inductive Reachable : Shelf → Disk → Prop
  | opened {d d' : Disk} {dir : Path} {s : Shelf} (hf : Fresh d dir) (ho : openAt dir d = .ok s d') :
      Reachable s d'
  | flushed {s s' : Shelf} {d d' : Disk} {m : MemTable} {info : TableInfo} (h : Reachable s d)
      (hf : flush m (s, d) = .ok info (s', d')) (hl : WithinLimits s' d') : Reachable s' d'
  | compacted {s s' : Shelf} {d d' : Disk} {info? : Option TableInfo} (h : Reachable s d)
      (hc : compact (s, d) = .ok info? (s', d')) (hl : WithinLimits s' d') : Reachable s' d'
  | reopened {s s' : Shelf} {d d' : Disk} (h : Reachable s d) (ho : openAt s.dir d = .ok s' d') :
      Reachable s' d'
  /-- A merge left some of the old tables, and the shelf was opened again. -/
  | interrupted {s s₁ s' : Shelf} {d d₁ d' : Disk} {info? : Option TableInfo}
      {survives : Table → Bool} (h : Reachable s d)
      (hc : compactLeaving survives (s, d) = .ok info? (s₁, d₁)) (ho : openAt s.dir d₁ = .ok s' d')
      (hl : WithinLimits s' d') : Reachable s' d'

variable {d d' : Disk} {dir : Path} {place : Place} {layers front old : List Layer} {s s' : Shelf}
  {m : MemTable}

/-! ### Opening -/

/-- A shelf is opened in a directory with nothing in it, and has no tables. -/
theorem openAt_of_fresh (hf : Fresh d dir) :
    ∃ d' place, openAt dir d = .ok (ofLayers d' dir place []) d' ∧ Keeps d' dir place [] := by
  obtain ⟨hnamed, d', place, hmake, hreaches, hnone⟩ := hf
  have hkeeps := keeps_nil hreaches hnamed hnone
  refine ⟨d', place, ?_, hkeeps⟩
  have hopen := hkeeps.openAt
  simp only [openAt, bind, EStateM.bind, hreaches.makeDirectories (by omega)] at hopen
  simp only [openAt, bind, EStateM.bind, hmake]
  exact hopen

/-! ### Sizes -/

theorem Stores.sum_length (h : Stores d dir place layers) :
    ((ofLayers d dir place layers).tables.map fun t => d.length t.file).sum =
      (layers.map fun l => fileSize l.2).sum := by
  rw [ofLayers, List.map_map]
  congr 1
  refine List.map_congr_left ?_
  intro l hl
  rw [Function.comp_apply, ← Disk.length_content, (h.file hl).2.2, length_encode]

theorem Stores.sound_mergedRows {id : Nat} (h : Stores d dir place layers) (hne : layers ≠ [])
    (hl : WithinLimits (numbered d dir place id layers) d) : Sound (id, mergedRows layers) where
  numbered := hl.numbers
  storable := storable_mergedRows fun l hmem => (h.sound l hmem).storable
  inReach := by
    have hspace : (layers.map fun l => fileSize l.2).sum ≤ Index.offsetLimit := h.sum_length ▸ hl.space
    exact Nat.le_trans (dataEnd_le_fileSize _) (Nat.le_trans (fileSize_mergedRows_le hne) hspace)

/-! ### Putting a table in memory on a shelf -/

theorem write_eq_ok {path : Path} {rows : List Row} {info : TableInfo}
    (h : Table.write path rows d = .ok info d') : ∃ b, Builder.addAll rows {} = .ok () b := by
  cases hadd : Builder.addAll rows {} with
  | ok _ b => exact ⟨b, rfl⟩
  | error cause b =>
    simp only [Table.write, hadd] at h
    obtain ⟨_, _, -, hthrow⟩ := bind_eq_ok.1 h
    exact absurd hthrow throw_ne_ok

theorem build_eq_ok {rows : List Row} {info : TableInfo} {t : Table}
    (h : build rows (s, d) = .ok (info, t) (s', d')) :
    Table.write (tablePath s.dir s.nextId) rows d = .ok info d' ∧
      Table.openAt d' (tablePath s.dir s.nextId) = .ok t ∧ s' = { s with nextId := idAfter s.nextId } := by
  obtain ⟨_, _, hget, h⟩ := bind_eq_ok.1 h
  cases hget
  obtain ⟨_, _, hmodify, h⟩ := bind_eq_ok.1 h
  cases hmodify
  obtain ⟨info₁, _, hdisk, h⟩ := bind_eq_ok.1 h
  obtain ⟨d₁, hwrite, rfl⟩ := focus_eq_ok.1 hdisk
  obtain ⟨_, _, hget, h⟩ := bind_eq_ok.1 h
  cases hget
  obtain ⟨t₁, _, hlift, h⟩ := bind_eq_ok.1 h
  obtain ⟨hopen, rfl⟩ := liftResult_eq_ok.1 hlift
  obtain ⟨hresult, hstate⟩ := pure_eq_ok.1 h
  cases hresult
  cases hstate
  exact ⟨hwrite, hopen, rfl⟩

/-- A table in memory that was put on a shelf had rows, which were written and opened. -/
theorem flush_eq_ok {info : TableInfo} (hf : flush m (s, d) = .ok info (s', d')) :
    m.isEmpty = false ∧ ∃ t, Table.write (tablePath s.dir s.nextId) m.toList d = .ok info d' ∧
      Table.openAt d' (tablePath s.dir s.nextId) = .ok t ∧
      s' = { s with tables := t :: s.tables, nextId := idAfter s.nextId } := by
  rw [flush] at hf
  cases hm : m.isEmpty with
  | true =>
    rw [hm, if_pos rfl] at hf
    obtain ⟨_, _, hthrow, -⟩ := bind_eq_ok.1 hf
    exact absurd hthrow throw_ne_ok
  | false =>
    rw [hm, if_neg Bool.false_ne_true] at hf
    obtain ⟨⟨info₁, t⟩, ⟨s₁, d₁⟩, hbuild, hf⟩ := bind_eq_ok.1 hf
    obtain ⟨hwrite, hopen, rfl⟩ := build_eq_ok hbuild
    obtain ⟨_, _, hmodify, hf⟩ := bind_eq_ok.1 hf
    cases hmodify
    obtain ⟨rfl, hstate⟩ := pure_eq_ok.1 hf
    cases hstate
    exact ⟨rfl, t, hwrite, hopen, rfl⟩

theorem file_of_openAt {path : Path} {t : Table} (h : Table.openAt d path = .ok t) :
    d.file path = .ok t.file := by
  simp only [Table.openAt, bind, Except.bind] at h
  split at h
  · contradiction
  · next file hfile =>
    split at h
    · cases h
      exact hfile
    · contradiction

/-- A table in memory that was put on a shelf is its top layer, if that stays within the limits. -/
theorem Keeps.of_flush {info : TableInfo} (h : Keeps d dir place layers)
    (hn : nextNumber layers + 1 < bound 8)
    (hf : Shelf.flush m (ofLayers d dir place layers, d) = .ok info (s', d'))
    (hl : WithinLimits s' d') :
    Keeps d' dir place ((nextNumber layers, m.toList) :: layers) ∧
      s' = ofLayers d' dir place ((nextNumber layers, m.toList) :: layers) := by
  obtain ⟨hm, t, hwrite, hopen, hs'⟩ := flush_eq_ok hf
  obtain ⟨b, hadd⟩ := write_eq_ok hwrite
  have hs : Storable m.toList := ⟨ascending_toList _, Builder.lengths_of_addAll hadd⟩
  have hwritten := write_eq (l := (nextNumber layers, m.toList)) h.reaches (nextNumber_lt layers) h.free hs
  change Table.write (tablePath dir (nextNumber layers)) m.toList d = _ at hwrite
  rw [hwritten] at hwrite
  cases hwrite
  have hspares := Disk.spares_withFile (encode m.toList) h.free
  have hfile := (h.reaches.mono hspares.directories hspares.here).file_of_file
    (plainName_tableName (nextNumber_lt layers)) (utf8ByteSize_tableName_lt (nextNumber_lt layers))
    Disk.getElem?_nodes_withFile_self
  have hsize : fileSize m.toList ≤ Index.offsetLimit := by
    have hspace := hl.space
    have hsame : t.file = d.contents.size := Except.ok.inj ((file_of_openAt hopen).symm.trans hfile)
    rw [hs', List.map_cons, List.sum_cons, hsame, ← Disk.length_content, Disk.content_withFile_self,
      length_encode] at hspace
    exact Nat.le_trans (Nat.le_add_right _ _) hspace
  have hsound : Sound (nextNumber layers, m.toList) :=
    ⟨hn, hs, Nat.le_trans (dataEnd_le_fileSize _) hsize⟩
  obtain ⟨d₁, hflush, hkeeps, -⟩ := h.flush hm hsound
  rw [hf] at hflush
  cases hflush
  exact ⟨hkeeps, rfl⟩

/-! ### Merging tables -/

/-- Some tables that a merge replaced are gone, and the others are still there. -/
theorem Stores.discardSome (h : Stores d dir place (front ++ old)) (survives : Layer → Bool) :
    ∃ d', (old.filter fun l => !survives l).foldl (fun d l => d.discard (tablePath dir l.1)) d = d' ∧
      Stores d' dir place (front ++ old.filter survives) ∧ d.Spares d' place ∧
      ∀ l ∈ front, d'.nodes[place ++ [tableName l.1]]? = d.nodes[place ++ [tableName l.1]]? := by
  -- A table that survives joins those in front.
  induction old generalizing d front with
  | nil => exact ⟨d, rfl, h, Disk.Spares.refl d place, fun _ _ => rfl⟩
  | cons l old ih =>
    cases hl : survives l with
    | true =>
      rw [List.append_cons] at h
      obtain ⟨d', hfold, hstores, hspares, hsame⟩ := ih h
      refine ⟨d', ?_, ?_, hspares, fun l' hl' => hsame l' (List.mem_append_left _ hl')⟩
      · rw [List.filter_cons_of_neg (by rw [hl]; exact Bool.false_ne_true), hfold]
      · rw [List.filter_cons_of_pos hl, List.append_cons]
        exact hstores
    | false =>
      obtain ⟨hstores, hspares, hnames⟩ := h.discard
      obtain ⟨d', hfold, hstores', hspares', hsame⟩ := ih hstores
      refine ⟨d', ?_, ?_, hspares.trans hspares', ?_⟩
      · rw [List.filter_cons_of_pos (by rw [hl]; rfl), List.foldl_cons, hfold]
      · rw [List.filter_cons_of_neg (by rw [hl]; exact Bool.false_ne_true)]
        exact hstores'
      · intro l' hl'
        rw [hsame l' hl', hnames l' (List.mem_append_left _ hl')]

theorem compactLeaving_of_lt (survives : Table → Bool) (hlen : s.tables.length < 2) :
    compactLeaving survives (s, d) = .ok none (s, d) := by
  have hreplace : replaceTables (s, d) = .ok none (s, d) := by
    simp only [replaceTables, bind, EStateM.bind, get, getThe, MonadStateOf.get, EStateM.get, hlen,
      if_true, pure, EStateM.pure]
  rw [compactLeaving, bind_of_ok hreplace]
  rfl

/-- The layers whose tables survive. -/
def surviving (d : Disk) (dir : Path) (place : Place) (survives : Table → Bool) (layers : List Layer) :
    List Layer :=
  layers.filter fun l => survives (layerTable d dir place l)

/-- The layers that a merge leaves behind, if there is anything to merge. -/
def leftBehind (d : Disk) (dir : Path) (place : Place) (survives : Table → Bool) (layers : List Layer) :
    List Layer :=
  if layers.length < 2 then [] else surviving d dir place survives layers

theorem leftBehind_nothing : leftBehind d dir place (fun _ => false) layers = [] := by
  simp [leftBehind, surviving]

theorem Keeps.compactLeaving (h : Keeps d dir place layers)
    (hl : WithinLimits (ofLayers d dir place layers) d) (survives : Table → Bool) :
    ∃ info? d', Shelf.compactLeaving survives (ofLayers d dir place layers, d) =
        .ok info? (ofLayers d' dir place (compacted layers), d') ∧
      Keeps d' dir place (compacted layers ++ leftBehind d dir place survives layers) := by
  by_cases hlen : layers.length < 2
  · have hnone := compactLeaving_of_lt (s := ofLayers d dir place layers) (d := d) survives
      (by rwa [ofLayers, List.length_map])
    rw [compacted, if_pos hlen, leftBehind, if_pos hlen, List.append_nil]
    exact ⟨none, d, hnone, h⟩
  · have hsound := h.sound_mergedRows (ne_nil_of_not_lt hlen) hl
    obtain ⟨info, d₁, hreplace, hmerging, -⟩ := h.replaceTables hlen hsound
    have hone : compacted layers = [(nextNumber layers, mergedRows layers)] := if_neg hlen
    have hsplit : Keeps d₁ dir place (compacted layers ++ layers) := by
      rw [hone]
      exact hmerging
    obtain ⟨d', hfold, hstores, hspares, hsame⟩ :=
      hsplit.toStores.discardSome fun l => survives (layerTable d dir place l)
    have hgone : ((ofLayers d dir place layers).tables.filter fun t => !survives t).foldl
        (fun d t => d.discard t.path) d₁ = d' := by
      rw [ofLayers, List.filter_map, List.foldl_map, ← hfold]
      rfl
    rw [leftBehind, if_neg hlen]
    refine ⟨some info, d', ?_, hsplit.of_spares hspares hstores⟩
    rw [Shelf.compactLeaving, bind_of_ok hreplace]
    change EStateM.Result.ok (some info) (_, _) = _
    rw [hgone, ofLayers_congr hsame]

/-! ### Reachable states -/

/-- A reachable shelf has the layers that its directory holds, and is within the limits. -/
theorem Reachable.keeps (hr : Reachable s d) :
    ∃ place layers, Keeps d s.dir place layers ∧ s = ofLayers d s.dir place layers ∧
      WithinLimits s d := by
  -- Each step is deterministic, so the state it leads to is the one that its lemma gives.
  induction hr with
  | opened hf ho =>
    obtain ⟨d', place, hopen, hkeeps⟩ := openAt_of_fresh hf
    rw [ho] at hopen
    cases hopen
    exact ⟨place, [], hkeeps, rfl, ⟨(by decide : 1 + 1 < bound 8), Nat.zero_le _⟩⟩
  | flushed _ hf hl ih =>
    obtain ⟨place, layers, hkeeps, hs, hwithin⟩ := ih
    rw [hs] at hf hwithin
    obtain ⟨hkeeps', rfl⟩ := hkeeps.of_flush hwithin.numbers hf hl
    exact ⟨place, _, hkeeps', rfl, hl⟩
  | @compacted s s' d d' info? _ hc hl ih =>
    obtain ⟨place, layers, hkeeps, hs, hwithin⟩ := ih
    rw [hs] at hc hwithin
    obtain ⟨info₁?, d₁, hcompact, hkeeps₁⟩ := hkeeps.compactLeaving hwithin fun _ => false
    rw [leftBehind_nothing, List.append_nil] at hkeeps₁
    rw [compactLeaving_nothing, hc] at hcompact
    cases hcompact
    exact ⟨place, _, hkeeps₁, rfl, hl⟩
  | @reopened s s' d d' _ ho ih =>
    obtain ⟨place, layers, hkeeps, hs, hwithin⟩ := ih
    rw [hkeeps.openAt] at ho
    cases ho
    exact ⟨place, layers, hkeeps, rfl, hs ▸ hwithin⟩
  | @interrupted s s₁ s' d d₁ d' info? survives _ hc ho hl ih =>
    obtain ⟨place, layers, hkeeps, hs, hwithin⟩ := ih
    rw [hs] at hc hwithin
    obtain ⟨info₁?, d₂, hcompact, hkeeps₁⟩ := hkeeps.compactLeaving hwithin survives
    rw [hc] at hcompact
    cases hcompact
    rw [hkeeps₁.openAt] at ho
    cases ho
    exact ⟨place, _, hkeeps₁, rfl, hl⟩

/-- The layers of a shelf on which some tables in memory were put one after the other. -/
def stacked (tables : List MemTable) : List Layer :=
  tables.foldl (fun layers m => (nextNumber layers, m.toList) :: layers) []

theorem stacked_concat (tables : List MemTable) (m : MemTable) :
    stacked (tables ++ [m]) = (nextNumber (stacked tables), m.toList) :: stacked tables := by
  rw [stacked, List.foldl_append]
  rfl

theorem nextNumber_stacked {tables : List MemTable} (h : tables.length + 1 < bound 8) :
    nextNumber (stacked tables) = tables.length + 1 := by
  induction tables using List.reverseRecOn with
  | nil => rfl
  | append_singleton tables m ih =>
    rw [List.length_append, List.length_singleton] at h ⊢
    rw [stacked_concat, nextNumber_cons, ih (by omega), idAfter_eq (by omega)]

theorem sum_fileSize_stacked (tables : List MemTable) :
    ((stacked tables).map fun l => fileSize l.2).sum = (tables.map fun m => fileSize m.toList).sum := by
  induction tables using List.reverseRecOn with
  | nil => rfl
  | append_singleton tables m ih =>
    rw [stacked_concat, List.map_cons, List.sum_cons, ih, List.map_append, List.sum_append,
      List.map_singleton, List.sum_singleton, Nat.add_comm]

/-- From a directory with nothing in it, a state is reachable in which given tables in memory were put on
the shelf. -/
theorem exists_reachable (hf : Fresh d dir) (tables : List MemTable)
    (hne : ∀ m ∈ tables, m.isEmpty = false) (hs : ∀ m ∈ tables, Storable m.toList)
    (hn : tables.length + 2 < bound 8)
    (hspace : (tables.map fun m => fileSize m.toList).sum ≤ Index.offsetLimit) :
    ∃ d' place, Keeps d' dir place (stacked tables) ∧
      Reachable (ofLayers d' dir place (stacked tables)) d' := by
  induction tables using List.reverseRecOn with
  | nil =>
    obtain ⟨d', place, hopen, hkeeps⟩ := openAt_of_fresh hf
    exact ⟨d', place, hkeeps, .opened hf hopen⟩
  | append_singleton tables m ih =>
    have hm : m ∈ tables ++ [m] := by simp
    have hsum := sum_fileSize_stacked (tables ++ [m])
    rw [List.length_append, List.length_singleton] at hn
    rw [← hsum, stacked_concat, List.map_cons, List.sum_cons] at hspace
    have hnext : nextNumber (stacked tables) = tables.length + 1 := nextNumber_stacked (by omega)
    obtain ⟨d₁, place, hkeeps, hr⟩ := ih (fun m hm => hne m (List.mem_append_left _ hm))
      (fun m hm => hs m (List.mem_append_left _ hm)) (by omega)
      (by rw [← sum_fileSize_stacked]; exact Nat.le_trans (Nat.le_add_left _ _) hspace)
    have hsound : Sound (nextNumber (stacked tables), m.toList) :=
      ⟨by rw [hnext]; omega, hs m hm,
        Nat.le_trans (dataEnd_le_fileSize _) (Nat.le_trans (Nat.le_add_right _ _) hspace)⟩
    obtain ⟨d', hflush, hkeeps', -⟩ := hkeeps.flush (hne m hm) hsound
    rw [stacked_concat]
    refine ⟨d', place, hkeeps', hr.flushed hflush ⟨?_, ?_⟩⟩
    · change nextNumber (_ :: stacked tables) + 1 < bound 8
      rw [nextNumber_cons, hnext, idAfter_eq (by omega)]
      omega
    · rw [hkeeps'.sum_length, List.map_cons, List.sum_cons]
      exact hspace

end Shelf

end KeyedStore
