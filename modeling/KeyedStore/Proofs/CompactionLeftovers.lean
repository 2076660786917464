import KeyedStore.Proofs.FreshDirectories
import KeyedStore.Proofs.ShelfStates

/-!
# Tables left behind by a merge

A merge keeps no tombstones, so the tables that it replaces must be gone before the next opening. If
some of them are left, they lie under the merged table then: a key with a value keeps it, and a key
without one gets the value that the tables left behind give it. The newest tables, which hold the
tombstones, are removed first.
-/

namespace KeyedStore

namespace Shelf

open Table Bytes

variable {d d' : Disk} {dir : Path} {place : Place} {layers : List Layer} {l : Layer} {s : Shelf}
  {key : Bytes} {id : Nat}

/-! ### Values -/

theorem live_of_lookup_mergedRows {v : Version} (h : (mergedRows layers).lookup key = some v) :
    v.live?.isSome :=
  (List.mem_filter.1 (mem_of_lookup h)).2

/-- Below a merged table, older ones only count for the keys that have no value in it. -/
theorem valueIn_merged (id : Nat) (layers below : List Layer) (key : Bytes) :
    valueIn ((id, mergedRows layers) :: below) key = (valueIn layers key).or (valueIn below key) := by
  rw [valueIn, List.flatMap_cons, List.lookup_append, ← lookup_mergedRows]
  cases hv : (mergedRows layers).lookup key with
  | none => rfl
  | some v =>
    obtain ⟨value, hvalue⟩ := Option.isSome_iff_exists.1 (live_of_lookup_mergedRows hv)
    rw [Option.some_or, Option.bind_some, hvalue, Option.some_or]

/-- The shelf with some of its tables only. -/
def restrict (s : Shelf) (survives : Table → Bool) : Shelf :=
  { s with tables := s.tables.filter survives }

theorem Stores.get?_restrict (h : Stores d dir place layers) (survives : Table → Bool) (key : Bytes) :
    ((ofLayers d dir place layers).restrict survives).get? d key =
      .ok (valueIn (surviving d dir place survives layers) key) := by
  have hmem : ∀ l ∈ surviving d dir place survives layers, l ∈ layers :=
    fun l hl => (List.mem_filter.1 hl).1
  have htables : ((ofLayers d dir place layers).restrict survives).tables =
      (surviving d dir place survives layers).map (layerTable d dir place) := List.filter_map
  rw [Shelf.get?, htables, lookup_layers key (fun _ _ => rfl) (fun l hl => (h.file (hmem l hl)).2.2)
    fun l hl => ⟨(h.sound l (hmem l hl)).storable, (h.sound l (hmem l hl)).inReach⟩]
  rfl

/-- After a merge that leaves some of the old tables, a key without a value has the one that these give
it, and every other key the value that it had. So no value changes exactly if the tables that are left
give none to a key that had none. -/
theorem get?_of_leftover_tables (hr : Reachable s d) (hlen : 2 ≤ s.tables.length)
    (survives : Table → Bool) :
    ∃ info? s₁ d₁ s', compactLeaving survives (s, d) = .ok info? (s₁, d₁) ∧
      openAt s.dir d₁ = .ok s' d₁ ∧
      (∀ key, ∃ before? left?, s.get? d key = .ok before? ∧
        (s.restrict survives).get? d key = .ok left? ∧ s'.get? d₁ key = .ok (before?.or left?)) ∧
      ((∀ key, s'.get? d₁ key = s.get? d key) ↔
        ∀ key, s.get? d key = .ok none → (s.restrict survives).get? d key = .ok none) := by
  obtain ⟨place, layers, hkeeps, hs, hl⟩ := hr.keeps
  generalize s.dir = dir at hkeeps hs
  subst hs
  rw [ofLayers, List.length_map] at hlen
  have hlen' : ¬ layers.length < 2 := Nat.not_lt.2 hlen
  obtain ⟨info?, d₁, hcompact, hkeeps₁⟩ := hkeeps.compactLeaving hl survives
  rw [compacted, if_neg hlen', leftBehind, if_neg hlen', List.singleton_append] at hkeeps₁
  have hbefore := hkeeps.get?
  have hleft := hkeeps.get?_restrict survives
  have hafter := hkeeps₁.get?
  simp only [valueIn_merged] at hafter
  refine ⟨info?, _, d₁, _, hcompact, hkeeps₁.openAt, ?_, ?_⟩
  · intro key
    exact ⟨_, _, hbefore key, hleft key, hafter key⟩
  · constructor
    · intro hsame key hnone
      have hsame := hsame key
      rw [hbefore, Except.ok.injEq] at hnone
      rw [hafter, hbefore, hnone, Option.none_or] at hsame
      rw [hleft, hsame]
    · intro hnone key
      rw [hafter, hbefore]
      cases hv : valueIn layers key with
      | some value => rfl
      | none =>
        have hgone := hnone key (by rw [hbefore, hv])
        rwa [hleft] at hgone

theorem fresh_of_engine (hf : Engine.Fresh d dir) (hnamed : 1 < dir.size) : Fresh d dir := by
  obtain ⟨d₁, root, hmake, hreaches, hbelow⟩ := hf
  refine ⟨hnamed, d₁, root, hmake, ⟨hreaches.leads, hreaches.clean, ?_⟩, fun name => hbelow name []⟩
  have hshort := hreaches.short
  omega

/-- A deleted key has its value again when a merge leaves the older of two tables. -/
theorem get?_of_leftover_table_of_deleted :
    ∃ s d info? s₁ d₁ s', Reachable s d ∧ 2 ≤ s.tables.length ∧ s.get? d [1] = .ok none ∧
      compactLeaving (fun t => t.path ≠ tablePath ["db"] 2) (s, d) = .ok info? (s₁, d₁) ∧
      openAt s.dir d₁ = .ok s' d₁ ∧ s'.get? d₁ [1] = .ok (some [2]) := by
  let tables : List MemTable := [MemTable.put {} [1] [2], MemTable.delete {} [1]]
  have hs : ∀ m ∈ tables, Storable m.toList := by
    intro m hm
    refine ⟨ascending_toList _, ?_⟩
    revert m
    decide
  obtain ⟨d, place, hkeeps, hr⟩ := exists_reachable
    (fresh_of_engine Engine.fresh_db (by decide)) tables (by decide) hs (by decide) (by decide)
  have hstacked : stacked tables = [(2, [([1], .tombstone)]), (1, [([1], .value [2])])] := by decide
  rw [hstacked] at hkeeps hr
  obtain ⟨info?, s₁, d₁, s', hcompact, hopen, hget, -⟩ :=
    get?_of_leftover_tables hr (Nat.le_refl 2) fun t => t.path ≠ tablePath ["db"] 2
  obtain ⟨before?, left?, hbefore, hleft, hafter⟩ := hget [1]
  have hnone : before? = none := Except.ok.inj (hbefore.symm.trans (hkeeps.get? [1]))
  have hsome : left? = some [2] := by
    refine Except.ok.inj (hleft.symm.trans ((hkeeps.get?_restrict _ [1]).trans ?_))
    have hleft : surviving d ["db"] place (fun t => t.path ≠ tablePath ["db"] 2)
        [(2, [([1], .tombstone)]), (1, [([1], .value [2])])] = [(1, [([1], .value [2])])] := by
      have hpath : tablePath ["db"] 1 ≠ tablePath ["db"] 2 := by
        rw [tablePath, tablePath, Path.join_name, Path.join_name]
        intro he
        have hname := List.singleton_inj.1 (List.append_cancel_left he)
        exact absurd (tableName_inj (by decide) (by decide) hname) (by decide)
      simp [surviving, layerTable, hpath]
    rw [hleft]
    rfl
  rw [hnone, hsome] at hafter
  rw [hnone] at hbefore
  exact ⟨_, d, info?, s₁, d₁, s', hr, Nat.le_refl 2, hbefore, hcompact, hopen, hafter⟩

end Shelf

end KeyedStore
