import KeyedStore.Proofs.ShelfRuns

/-!
# Merging the tables of a shelf

A merge of two or more tables leaves one table in their place, whose file is alone in the directory. Its
rows are the live values, in the order of their keys, so that every key keeps its value. A table that
cannot be read stops the merge before anything is changed.
-/

namespace KeyedStore

theorem Version.live?_eq_some {v : Version} {value : Bytes} : v.live? = some value ↔ v = .value value := by
  cases v <;> simp [live?]

namespace Shelf

open Table Bytes

variable {d d' : Disk} {dir : Path} {place : Place} {layers : List Layer} {l : Layer} {s : Shelf}
  {m : MemTable} {key : Bytes} {v : Version} {e : Error}

/-! ### Tables that cannot be read -/

/-- The first of some results that is an error is the error of all of them. -/
theorem mapM_eq_error {ε α β : Type} {f : α → Except ε β} {as : List α}
    (h : ∃ a ∈ as, ∃ e, f a = .error e) :
    ∃ front a back e, as = front ++ a :: back ∧ (∀ b ∈ front, ∃ c, f b = .ok c) ∧ f a = .error e ∧
      as.mapM f = .error e := by
  induction as with
  | nil =>
    obtain ⟨a, ha, -⟩ := h
    contradiction
  | cons a as ih =>
    cases ha : f a with
    | error e =>
      refine ⟨[], a, as, e, rfl, fun b hb => absurd hb List.not_mem_nil, ha, ?_⟩
      rw [List.mapM_cons, ha]
      rfl
    | ok c =>
      obtain ⟨b, hb, e, hbe⟩ := h
      rcases List.mem_cons.1 hb with rfl | hb
      · rw [ha] at hbe
        contradiction
      · obtain ⟨front, a', back, e', rfl, hfront, ha', hmap⟩ := ih ⟨b, hb, e, hbe⟩
        refine ⟨a :: front, a', back, e', rfl, ?_, ha', ?_⟩
        · intro b hb
          rcases List.mem_cons.1 hb with rfl | hb
          · exact ⟨c, ha⟩
          · exact hfront b hb
        · rw [List.mapM_cons, ha, hmap]
          rfl

theorem compact_of_error (hlen : ¬ s.tables.length < 2) (hscan : s.tables.mapM (·.scan d) = .error e) :
    compact (s, d) = .error e (s, d) := by
  have hreplace : replaceTables (s, d) = .error e (s, d) := by
    rw [replaceTables, get_bind]
    dsimp only
    rw [if_neg hlen]
    exact bind_of_error (liftResult_of_error hscan (s, d))
  rw [compact, bind_of_error hreplace]

/-! ### The merged table -/

/-- The merged rows are the live values. -/
theorem mem_mergedRows : (key, v) ∈ mergedRows layers ↔
    ∃ value, v = .value value ∧ valueIn layers key = some value := by
  constructor
  · intro hmem
    have hlookup := (ascending_mergedRows layers).lookup_of_mem hmem
    obtain ⟨value, hvalue⟩ := Option.isSome_iff_exists.1 (live_of_lookup_mergedRows hlookup)
    refine ⟨value, Version.live?_eq_some.1 hvalue, ?_⟩
    rw [← lookup_mergedRows, hlookup, Option.bind_some, hvalue]
  · rintro ⟨value, rfl, hvalue⟩
    rw [← lookup_mergedRows] at hvalue
    obtain ⟨v, hlookup, hlive⟩ := Option.bind_eq_some_iff.1 hvalue
    rw [Version.live?_eq_some.1 hlive] at hlookup
    exact mem_of_lookup hlookup

theorem Keeps.entries_of_one (h : Keeps d dir place [l]) :
    d.entries dir = [(tableName l.1, .file (layerTable d dir place l).file)] := by
  have hentries : d.entries dir = d.entriesAt place := by simp only [Disk.entries, h.find_dir]
  have hfile := (h.file List.mem_cons_self).1
  have hmem : ∀ entry, entry ∈ d.entriesAt place ↔
      entry ∈ [(tableName l.1, Node.file (layerTable d dir place l).file)] := by
    rintro ⟨name, node⟩
    rw [Disk.mem_entriesAt, List.mem_singleton]
    constructor
    · intro hnode
      obtain ⟨l', hl', rfl⟩ := h.exists_layer hnode
      obtain rfl := List.mem_singleton.1 hl'
      rw [hfile] at hnode
      cases hnode
      rfl
    · rintro ⟨⟩
      exact hfile
  have hnodup : (d.entriesAt place).Nodup :=
    (d.pairwise_entriesAt place).imp fun hne he => hne (congrArg Prod.fst he)
  rw [hentries]
  exact List.perm_singleton.1 ((List.perm_ext_iff_of_nodup hnodup (List.nodup_singleton _)).2 hmem)

/-! ### Shelves with a directory of their own -/

/-- A shelf whose directory holds the files of its tables, each as it was built, and nothing else. The
next number is above those of all tables. -/
structure Owns (s : Shelf) (d : Disk) (place : Place) (layers : List Layer) : Prop where
  keeps : Keeps d s.dir place layers
  tables : s.tables = layers.map (layerTable d s.dir place)
  below : ∀ l ∈ layers, l.1 < s.nextId

namespace Owns

theorem eq_numbered (h : Owns s d place layers) : s = numbered d s.dir place s.nextId layers := by
  rw [numbered, ofLayers, ← h.tables]

theorem get? (h : Owns s d place layers) (key : Bytes) : s.get? d key = .ok (valueIn layers key) := by
  rw [h.eq_numbered]
  exact h.keeps.get? key

/-- A shelf that has its directory to itself has it still when a table in memory was put on it. -/
theorem flush (h : Owns s d place layers) (hm : m.isEmpty = false) (hs : Sound (s.nextId, m.toList)) :
    ∃ info s' d', Shelf.flush m (s, d) = .ok info (s', d') ∧ s'.nextId = s.nextId + 1 ∧
      Owns s' d' place ((s.nextId, m.toList) :: layers) := by
  have hfree := h.keeps.free_of_lt hs.lt h.below
  obtain ⟨d', hflush, hstores, hspares⟩ := h.keeps.toStores.flush hm hs h.below hfree
  rw [← h.eq_numbered, idAfter_eq hs.numbered] at hflush
  refine ⟨_, _, d', hflush, rfl, h.keeps.of_spares hspares hstores, rfl, ?_⟩
  intro l hl
  rcases List.mem_cons.1 hl with rfl | hl
  · exact Nat.lt_succ_self _
  · exact Nat.lt_succ_of_lt (h.below l hl)

theorem compact (h : Owns s d place layers) (hlen : ¬ layers.length < 2) (hl : WithinLimits s d) :
    ∃ info d', Shelf.compact (s, d) =
        .ok (some info) (numbered d' s.dir place (idAfter s.nextId) [(s.nextId, mergedRows layers)], d') ∧
      Keeps d' s.dir place [(s.nextId, mergedRows layers)] := by
  rw [h.eq_numbered] at hl
  have hsound := h.keeps.sound_mergedRows (ne_nil_of_not_lt hlen) hl
  have hfree := h.keeps.free_of_lt hsound.lt h.below
  obtain ⟨info, d', hcompact, hstores, hspares⟩ := h.keeps.toStores.compact hlen hsound h.below hfree
  rw [← h.eq_numbered] at hcompact
  exact ⟨info, d', hcompact, h.keeps.of_spares hspares hstores⟩

/-- A merge keeps the value of every key and leaves the live values in one table, which has the
directory to itself; there is nothing to merge then. Where a table cannot be read, nothing is
changed. -/
theorem compact_keeps_values (h : Owns s d place layers) (hlen : 2 ≤ s.tables.length)
    (hl : WithinLimits s d) :
    (∃ info s' d' t rows, Shelf.compact (s, d) = .ok (some info) (s', d') ∧
      (∀ key, ∃ value?, s.get? d key = .ok value? ∧ s'.get? d' key = .ok value?) ∧
      s' = { s with tables := [t], nextId := s.nextId + 1 } ∧ t.path = tablePath s.dir s.nextId ∧
      t.scan d' = .ok rows ∧ Ascending rows ∧
      (∀ key v, (key, v) ∈ rows ↔ ∃ value, v = .value value ∧ s.get? d key = .ok (some value)) ∧
      d'.entries s.dir = [(tableName s.nextId, .file t.file)] ∧
      Shelf.compact (s', d') = .ok none (s', d')) ∧
    ∀ damaged : Disk, (∃ t ∈ s.tables, ∃ e, t.scan damaged = .error e) →
      ∃ front t older e, s.tables = front ++ t :: older ∧
        (∀ newer ∈ front, ∃ rows, newer.scan damaged = .ok rows) ∧ t.scan damaged = .error e ∧
        Shelf.compact (s, damaged) = .error e (s, damaged) := by
  constructor
  · have hlen' : ¬ layers.length < 2 := by
      rw [h.tables, List.length_map] at hlen
      exact Nat.not_lt.2 hlen
    obtain ⟨info, d', hcompact, hkeeps⟩ := h.compact hlen' hl
    have hmem : (s.nextId, mergedRows layers) ∈ [(s.nextId, mergedRows layers)] := List.mem_cons_self
    refine ⟨info, _, d', layerTable d' s.dir place (s.nextId, mergedRows layers), mergedRows layers,
      hcompact, ?_, ?_, rfl, ?_, ascending_mergedRows layers, ?_, hkeeps.entries_of_one,
      compact_of_lt Nat.one_lt_two⟩
    · intro key
      have hget := hkeeps.get? key
      rw [valueIn, List.flatMap_singleton, lookup_mergedRows] at hget
      exact ⟨_, h.get? key, hget⟩
    · rw [numbered, idAfter_eq hl.numbers]
      rfl
    · exact scan_eq (hkeeps.sound _ hmem).storable rfl (hkeeps.file hmem).2.2
    · intro key v
      simp only [mem_mergedRows, h.get?, Except.ok.injEq]
  · intro damaged hdamaged
    obtain ⟨front, t, older, e, htables, hfront, hscan, hmap⟩ := mapM_eq_error hdamaged
    exact ⟨front, t, older, e, htables, hfront, hscan, compact_of_error (Nat.not_lt.2 hlen) hmap⟩

end Owns

theorem Keeps.owns (h : Keeps d dir place layers) : (ofLayers d dir place layers).Owns d place layers :=
  ⟨h, rfl, fun _ hl => h.lt_nextNumber hl⟩

theorem Reachable.owns (hr : Reachable s d) : ∃ place layers, Owns s d place layers := by
  obtain ⟨place, layers, hkeeps, hs, -⟩ := hr.keeps
  rw [hs]
  exact ⟨place, layers, hkeeps.owns⟩

/-- Of two keys the newer table deletes one, and then no file can be read. -/
theorem Owns.compact_keeps_values_of_delete :
    ∃ s d info s' d' t rows place layers, Owns s d place layers ∧ 2 ≤ s.tables.length ∧ WithinLimits s d ∧
      Shelf.compact (s, d) = .ok (some info) (s', d') ∧ s'.tables = [t] ∧ t.scan d' = .ok rows ∧
      ([3], .value [4]) ∈ rows ∧ (∀ v, ([1], v) ∉ rows) ∧
      (∃ t ∈ s.tables, ∃ e, t.scan {} = .error e) ∧ ∃ e, Shelf.compact (s, {}) = .error e (s, {}) := by
  let tables : List MemTable :=
    [MemTable.put (MemTable.put {} [1] [2]) [3] [4], MemTable.delete {} [1]]
  have hs : ∀ m ∈ tables, Storable m.toList := by
    intro m hm
    refine ⟨ascending_toList _, ?_⟩
    revert m
    decide
  obtain ⟨d, place, hkeeps, hr⟩ := exists_reachable
    (fresh_of_engine Engine.fresh_db (by decide)) tables (by decide) hs (by decide) (by decide)
  have hstacked : stacked tables =
      [(2, [([1], .tombstone)]), (1, [([1], .value [2]), ([3], .value [4])])] := by decide
  rw [hstacked] at hkeeps hr
  obtain ⟨place', layers, howns⟩ := hr.owns
  obtain ⟨-, -, -, -, hl⟩ := hr.keeps
  have hlen := Nat.le_refl 2
  obtain ⟨⟨info, s', d', t, rows, hcompact, hget, rfl, -, hscan, -, hrows, -, -⟩, hdamaged⟩ :=
    howns.compact_keeps_values hlen hl
  have hfirst : ∃ t ∈ (ofLayers d ["db"] place
      [(2, [([1], .tombstone)]), (1, [([1], .value [2]), ([3], .value [4])])]).tables,
        ∃ e, t.scan {} = .error e := by
    refine ⟨_, List.mem_cons_self, .file .endOfData, ?_⟩
    have hempty (id : Nat) : ({} : Disk).content id = [] := by simp [Disk.content]
    have hcut : (Index.ofRows [([1], .tombstone)]).scan [] = .error .endOfData := by cbv
    rw [scan, hempty, layerTable, hcut]
    rfl
  obtain ⟨-, -, -, e, -, -, -, hfail⟩ := hdamaged {} hfirst
  refine ⟨_, d, info, _, d', t, rows, place', layers, howns, hlen, hl, hcompact, rfl, hscan, ?_, ?_,
    hfirst, e, hfail⟩
  · exact (hrows _ _).2 ⟨[4], rfl, hkeeps.get? [3]⟩
  · intro v hv
    obtain ⟨value, -, hvalue⟩ := (hrows _ _).1 hv
    have hnone : some value = none := Except.ok.inj (hvalue.symm.trans (hkeeps.get? [1]))
    contradiction

end Shelf

end KeyedStore
