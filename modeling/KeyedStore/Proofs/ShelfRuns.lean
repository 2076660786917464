import KeyedStore.Proofs.CompactionLeftovers

/-!
# Runs of a shelf

The order of the tables is kept twice: in memory by their positions, and in the directory by the
numbers in the names of their files. Whatever is done with a shelf after it was opened in a directory
with nothing in it, the two agree, so that opening the directory again gives the same shelf.
-/

namespace KeyedStore.Shelf

open Table Bytes

/-! ### Actions -/

/-- What is done with an open shelf. -/
inductive Action where
  | flush (m : MemTable)
  | compact
  | reopen

/-- Opens a shelf on the directory of another, in its place. -/
def reopen : ShelfM Unit := do
  let (s, _) ← get
  let s' ← onDisk (openAt s.dir)
  modify fun (_, d) => (s', d)

def Action.run : Action → ShelfM Unit
  | flush m => do let _ ← Shelf.flush m
  | compact => do let _ ← Shelf.compact
  | reopen => Shelf.reopen

def runAll (actions : List Action) : ShelfM Unit := actions.forM Action.run

/-- The next number is not the last one, and a file of the rows does not reach past the largest
offset. -/
def HasRoom (s : Shelf) (rows : List Row) : Prop :=
  s.nextId + 1 < bound 8 ∧ dataEnd rows ≤ Index.offsetLimit

/-- What an action needs: a table in memory has rows, with lengths that a file can state, and there is
room for the table that is written, if one is written. -/
def Action.Allowed (s : Shelf) (d : Disk) : Action → Prop
  | flush m => m.isEmpty = false ∧
      (∀ row ∈ m.toList, row.1.length < tombstoneMark ∧ row.2.length < tombstoneMark) ∧
      s.HasRoom m.toList
  | compact => s.tables.length < 2 ∨
      ∀ tables, s.tables.mapM (·.scan d) = .ok tables → s.HasRoom (live (merge tables).toList)
  | reopen => True

/-- Each action is allowed in the state that those before it lead to. -/
def StaysWithin : List Action → Shelf → Disk → Prop
  | [], _, _ => True
  | a :: actions, s, d =>
    a.Allowed s d ∧ ∀ s' d', a.run (s, d) = .ok () (s', d') → StaysWithin actions s' d'

/-- The layers that an action makes of others. -/
def Action.after (layers : List Layer) : Action → List Layer
  | flush m => (nextNumber layers, m.toList) :: layers
  | compact => compacted layers
  | reopen => layers

variable {d d' : Disk} {dir : Path} {place : Place} {layers : List Layer} {s : Shelf} {a : Action}
  {actions : List Action}

theorem reopen_of_openAt {s' : Shelf} (h : openAt s.dir d = .ok s' d') :
    reopen (s, d) = .ok () (s', d') := by
  have hopen : onDisk (openAt s.dir) (s, d) = .ok s' (s, d') := focus_of_ok h
  rw [reopen, get_bind]
  exact (bind_of_ok hopen).trans rfl

/-! ### Steps and runs -/

/-- An allowed action succeeds, and the directory keeps the layers that it makes. -/
theorem Keeps.run (h : Keeps d dir place layers) (ha : a.Allowed (ofLayers d dir place layers) d) :
    ∃ d', a.run (ofLayers d dir place layers, d) = .ok () (ofLayers d' dir place (a.after layers), d') ∧
      Keeps d' dir place (a.after layers) := by
  cases a with
  | flush m =>
    obtain ⟨hm, hlengths, hnumber, hend⟩ := ha
    obtain ⟨d', hflush, hkeeps, -⟩ := h.flush hm ⟨hnumber, ⟨ascending_toList _, hlengths⟩, hend⟩
    refine ⟨d', ?_, hkeeps⟩
    rw [Action.run, bind_of_ok hflush]
    rfl
  | compact =>
    by_cases hlen : layers.length < 2
    · have hcompact := compact_of_lt (s := ofLayers d dir place layers) (d := d)
        (by rwa [ofLayers, List.length_map])
      rw [Action.after, compacted, if_pos hlen]
      refine ⟨d, ?_, h⟩
      rw [Action.run, bind_of_ok hcompact]
      rfl
    · have hroom : (ofLayers d dir place layers).HasRoom (mergedRows layers) := by
        rcases ha with hfew | hroom
        · rw [ofLayers, List.length_map] at hfew
          exact absurd hfew hlen
        · exact hroom _ h.scanTables
      obtain ⟨info, d', hcompact, hkeeps, -⟩ := h.compact
        ⟨hroom.1, storable_mergedRows fun l hl => (h.sound l hl).storable, hroom.2⟩
      refine ⟨d', ?_, hkeeps⟩
      rw [Action.run, bind_of_ok hcompact]
      rfl
  | reopen => exact ⟨d, reopen_of_openAt h.openAt, h⟩

/-- A run whose actions are all allowed succeeds. -/
theorem Keeps.runAll (h : Keeps d dir place layers)
    (hw : StaysWithin actions (ofLayers d dir place layers) d) :
    ∃ d', Shelf.runAll actions (ofLayers d dir place layers, d) =
        .ok () (ofLayers d' dir place (actions.foldl Action.after layers), d') ∧
      Keeps d' dir place (actions.foldl Action.after layers) := by
  induction actions generalizing d layers with
  | nil => exact ⟨d, rfl, h⟩
  | cons a actions ih =>
    obtain ⟨ha, hrest⟩ := hw
    obtain ⟨d₁, hrun, hkeeps⟩ := h.run ha
    obtain ⟨d', hrunAll, hkeeps'⟩ := ih hkeeps (hrest _ _ hrun)
    exact ⟨d', (bind_of_ok hrun).trans hrunAll, hkeeps'⟩

/-! ### Limits -/

/-- The number of bytes that an action adds to the files at most. -/
def Action.space : Action → Nat
  | flush m => fileSize m.toList
  | compact | reopen => 0

theorem Action.nextNumber_after_le (a : Action) (h : nextNumber layers + 1 < bound 8) :
    nextNumber (a.after layers) ≤ nextNumber layers + 1 := by
  cases a with
  | flush m => exact Nat.le_of_eq (idAfter_eq h)
  | compact =>
    rw [after, compacted]
    split
    · exact Nat.le_succ _
    · exact Nat.le_of_eq (idAfter_eq h)
  | reopen => exact Nat.le_succ _

theorem Action.sum_fileSize_after_le (a : Action) (layers : List Layer) :
    ((a.after layers).map fun l => fileSize l.2).sum ≤
      (layers.map fun l => fileSize l.2).sum + a.space := by
  cases a with
  | flush m => exact Nat.le_of_eq (Nat.add_comm _ _)
  | compact =>
    rw [after, compacted]
    split
    · exact Nat.le_refl _
    · next hlen =>
      rw [List.map_singleton, List.sum_singleton]
      exact fileSize_mergedRows_le (ne_nil_of_not_lt hlen)
  | reopen => exact Nat.le_refl _

/-- A run stays within the limits if there are numbers for all its actions and all the rows that are
there or are put on the shelf find room in one file. -/
theorem Keeps.staysWithin (h : Keeps d dir place layers)
    (hflush : ∀ m, .flush m ∈ actions → m.isEmpty = false ∧
      ∀ row ∈ m.toList, row.1.length < tombstoneMark ∧ row.2.length < tombstoneMark)
    (hnumbers : nextNumber layers + actions.length < bound 8)
    (hspace : (layers.map fun l => fileSize l.2).sum + (actions.map Action.space).sum ≤
      Index.offsetLimit) :
    StaysWithin actions (ofLayers d dir place layers) d := by
  -- What the first action leaves of the numbers and of the space is enough for the others.
  induction actions generalizing d layers with
  | nil => exact trivial
  | cons a actions ih =>
    rw [List.length_cons] at hnumbers
    rw [List.map_cons, List.sum_cons] at hspace
    have hnext : nextNumber layers + 1 < bound 8 := by omega
    have ha : a.Allowed (ofLayers d dir place layers) d := by
      cases a with
      | flush m =>
        obtain ⟨hm, hlengths⟩ := hflush m List.mem_cons_self
        have hsize : dataEnd m.toList ≤ fileSize m.toList := dataEnd_le_fileSize _
        rw [Action.space] at hspace
        exact ⟨hm, hlengths, hnext, by omega⟩
      | compact =>
        by_cases hlen : layers.length < 2
        · exact Or.inl (by rwa [ofLayers, List.length_map])
        · refine Or.inr fun tables htables => ?_
          have hscan : (ofLayers d dir place layers).tables.mapM (·.scan d) = .ok (layers.map Prod.snd) :=
            h.scanTables
          rw [hscan] at htables
          cases htables
          have hend := Nat.le_trans (dataEnd_le_fileSize (mergedRows layers))
            (fileSize_mergedRows_le (ne_nil_of_not_lt hlen))
          exact ⟨hnext, Nat.le_trans hend (by omega)⟩
      | reopen => exact trivial
    refine ⟨ha, fun s' d' hrun => ?_⟩
    obtain ⟨d₁, hrun₁, hkeeps⟩ := h.run ha
    rw [hrun] at hrun₁
    cases hrun₁
    have hafter := a.nextNumber_after_le hnext
    have hsum := a.sum_fileSize_after_le layers
    exact ih hkeeps (fun m hm => hflush m (List.mem_cons_of_mem _ hm)) (by omega) (by omega)

/-! ### What a directory says -/

/-- A shelf and its directory say the same: the tables are those with the given numbers, the newest
first, the directory holds their files and nothing else, and opening it gives the shelf. -/
structure Mirrors (s : Shelf) (d : Disk) (ids : List Nat) : Prop where
  paths : s.tables.map Table.path = ids.map (tablePath s.dir)
  descending : ids.Pairwise fun newer older => older < newer
  next : s.nextId = (ids.max?.map (· + 1)).getD 1
  entries : ∀ name node, (name, node) ∈ d.entries s.dir ↔
    ∃ t ∈ s.tables, t.path = s.dir.join [name] ∧ node = .file t.file
  reopens : openAt s.dir d = .ok s d
  answers : ∀ key, ∃ value?, s.get? d key = .ok value?

theorem max?_eq_head? {ids : List Nat} (h : ids.Pairwise fun newer older => older < newer) :
    ids.max? = ids.head? := by
  cases ids with
  | nil => rfl
  | cons id ids =>
    rw [List.head?_cons, List.max?_eq_some_iff]
    refine ⟨List.mem_cons_self, fun other ho => ?_⟩
    rcases List.mem_cons.1 ho with rfl | ho
    · exact Nat.le_refl _
    · exact Nat.le_of_lt (List.rel_of_pairwise_cons h ho)

theorem Stores.nextNumber_eq (h : Stores d dir place layers) :
    nextNumber layers = ((layers.map Prod.fst).max?.map (· + 1)).getD 1 := by
  rw [max?_eq_head? (List.pairwise_map.2 h.descending)]
  cases layers with
  | nil => rfl
  | cons l layers => exact idAfter_eq (h.sound l List.mem_cons_self).numbered

theorem Keeps.mem_entries (h : Keeps d dir place layers) (name : String) (node : Node) :
    (name, node) ∈ d.entries dir ↔
      ∃ t ∈ (ofLayers d dir place layers).tables, t.path = dir.join [name] ∧ node = .file t.file := by
  have hentries : d.entries dir = d.entriesAt place := by simp only [Disk.entries, h.find_dir]
  rw [hentries, Disk.mem_entriesAt, ofLayers]
  constructor
  · intro hnode
    obtain ⟨l, hl, rfl⟩ := h.exists_layer hnode
    rw [(h.file hl).1] at hnode
    cases hnode
    exact ⟨_, List.mem_map_of_mem hl, rfl, rfl⟩
  · rintro ⟨t, ht, hpath, rfl⟩
    obtain ⟨l, hl, rfl⟩ := List.mem_map.1 ht
    have hname : tableName l.1 = name := by
      simp only [layerTable, tablePath, Path.join_name] at hpath
      exact List.singleton_inj.1 (List.append_cancel_left hpath)
    rw [← hname]
    exact (h.file hl).1

theorem Keeps.mirrors (h : Keeps d dir place layers) :
    Mirrors (ofLayers d dir place layers) d (layers.map Prod.fst) where
  paths := by
    rw [ofLayers, List.map_map, List.map_map]
    rfl
  descending := List.pairwise_map.2 h.descending
  next := h.nextNumber_eq
  entries := h.mem_entries
  reopens := h.openAt
  answers key := ⟨_, h.get? key⟩

/-- From a directory with nothing in it, whatever is done with the shelf as long as numbers and offsets
are left succeeds, and after every step the shelf and the directory say the same. -/
theorem mirrors_of_runAll (hf : Fresh d dir) :
    ∃ s₀ d₀, openAt dir d = .ok s₀ d₀ ∧ ∀ actions, StaysWithin actions s₀ d₀ →
      ∃ s' d' ids, runAll actions (s₀, d₀) = .ok () (s', d') ∧ s'.dir = dir ∧ Mirrors s' d' ids := by
  obtain ⟨d₀, place, hopen, hkeeps⟩ := openAt_of_fresh hf
  refine ⟨_, d₀, hopen, fun actions hw => ?_⟩
  obtain ⟨d', hrun, hkeeps'⟩ := hkeeps.runAll hw
  exact ⟨_, d', _, hrun, rfl, hkeeps'.mirrors⟩

/-- A run in which a merge, an opening and another table follow each other. -/
theorem mirrors_of_runAll_of_merge :
    ∃ (s₀ s' : Shelf) (d₀ d' : Disk) (ids : List Nat), openAt ["db"] {} = .ok s₀ d₀ ∧
      runAll [.flush (MemTable.put {} [1] [2]), .flush (MemTable.delete {} [1]), .compact, .reopen,
        .flush (MemTable.put {} [3] [4])] (s₀, d₀) = .ok () (s', d') ∧ Mirrors s' d' ids := by
  have hf : Fresh {} ["db"] := fresh_of_engine Engine.fresh_db (by decide)
  obtain ⟨s₀, d₀, hopen, hruns⟩ := mirrors_of_runAll hf
  obtain ⟨d₁, place, hopen₁, hkeeps⟩ := openAt_of_fresh hf
  rw [hopen] at hopen₁
  cases hopen₁
  have hlengths : ∀ m : MemTable, m ∈ [MemTable.put {} [1] [2], MemTable.delete {} [1],
      MemTable.put {} [3] [4]] → m.isEmpty = false ∧
        ∀ row ∈ m.toList, row.1.length < tombstoneMark ∧ row.2.length < tombstoneMark := by
    decide
  have hw : StaysWithin [.flush (MemTable.put {} [1] [2]), .flush (MemTable.delete {} [1]), .compact,
      .reopen, .flush (MemTable.put {} [3] [4])] (ofLayers d₀ ["db"] place []) d₀ :=
    hkeeps.staysWithin (fun m hm => hlengths m (by simpa using hm)) (by decide) (by decide)
  obtain ⟨s', d', ids, hrun, -, hmirrors⟩ := hruns _ hw
  exact ⟨_, s', d₀, d', ids, hopen, hrun, hmirrors⟩

end KeyedStore.Shelf
