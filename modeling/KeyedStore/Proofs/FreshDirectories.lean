import KeyedStore.Proofs.EngineStates

/-!
# Fresh directories

Opening an engine in a directory with nothing in it, which is made if it does not exist, makes an
empty shelf and an empty journal there.
-/

namespace KeyedStore.Engine

open KeyedStore.Shelf (Keeps)

variable {d d₁ : Disk} {dir : Path} {root : Place}

/-- A directory that exists or can be made, with nothing in it. -/
def Fresh (d : Disk) (dir : Path) : Prop :=
  ∃ d₁ root, Disk.makeDirectories dir d = .ok () d₁ ∧ d₁.Reaches dir root 42 ∧
    ∀ name rest, d₁.nodes[root ++ name :: rest]? = none

/-- A directory that does not exist is fresh, if the one in front of it does and its path is not too
long. -/
theorem fresh_of_reaches {path : Path} {place : Place} {name : String} {room : Nat}
    (hr : d.Reaches path place room) (hn : PlainName name) (hs : name.utf8ByteSize + 43 ≤ room)
    (hnone : ∀ rest, d.nodes[place ++ name :: rest]? = none) : Fresh d (path.join [name]) := by
  have hmake := hr.makeDirectories_of_none hn (by omega) (hnone [])
  have hreaches : (d.withDirectory (place ++ [name])).Reaches path place room :=
    hr.mono (d.directory_insert _ (hnone [])) rfl
  refine ⟨_, place ++ [name], hmake, hreaches.child hn hs Disk.getElem?_nodes_withDirectory_self, ?_⟩
  intro below rest
  rw [Disk.getElem?_nodes_withDirectory_ne, List.append_assoc]
  · exact hnone (below :: rest)
  · intro he
    simpa using congrArg List.length he

theorem fresh_empty {name : String} (hn : PlainName name) (hs : name.utf8ByteSize ≤ 100) :
    Fresh {} [name] := by
  have hreaches : ({} : Disk).Reaches [] [] 200 := ⟨rfl, rfl, by decide⟩
  have hfresh := fresh_of_reaches hreaches hn (by omega) (by simp)
  rw [Path.join_name] at hfresh
  exact hfresh

theorem fresh_db : Fresh {} ["db"] :=
  fresh_empty (.of_not_mem (by decide) (by decide) (by decide)) (by decide)

theorem keeps_withDirectory (hr : d.Reaches dir root 42)
    (hbelow : ∀ name rest, d.nodes[root ++ name :: rest]? = none) :
    Keeps (d.withDirectory (tablePlace root)) (tableDir dir) (tablePlace root) [] := by
  have hnone : d.nodes[tablePlace root]? = none := hbelow "sstables" []
  have hreaches : (d.withDirectory (tablePlace root)).Reaches dir root 42 :=
    hr.mono (d.directory_insert _ hnone) rfl
  refine Shelf.keeps_nil
    (hreaches.child plainName_tables (by decide) Disk.getElem?_nodes_withDirectory_self) ?_ ?_
  · rw [tableDir, Path.join_name, Path.size_concat]
    exact Nat.lt_of_lt_of_le (by decide) (Nat.le_add_left _ _)
  · intro name
    rw [Disk.getElem?_nodes_withDirectory_ne, tablePlace, List.append_assoc]
    · exact hbelow "sstables" [name]
    · intro he
      simpa using congrArg List.length he

theorem journal_free (hbelow : ∀ name rest, d.nodes[root ++ name :: rest]? = none) :
    (d.withDirectory (tablePlace root)).nodes[journalPlace root]? = none := by
  rw [Disk.getElem?_nodes_withDirectory_ne]
  · exact hbelow "wal.log" []
  · exact Disk.concat_ne root (by decide)

theorem recoverTables_of_fresh (hmake : Disk.makeDirectories dir d = .ok () d₁)
    (hr : d₁.Reaches dir root 42) (hbelow : ∀ name rest, d₁.nodes[root ++ name :: rest]? = none) :
    recoverTables dir d = .ok (shelfOf (d₁.withDirectory (tablePlace root)) dir root [])
      (d₁.withDirectory (tablePlace root)) := by
  have hkeeps := keeps_withDirectory hr hbelow
  have hmake₁ := hr.makeDirectories_of_none plainName_tables (by decide) (hbelow "sstables" [])
  have hmake₂ := hkeeps.reaches.makeDirectories (by omega)
  have hopen : Shelf.openAt (tableDir dir) d₁ = .ok (shelfOf (d₁.withDirectory (tablePlace root)) dir
      root []) (d₁.withDirectory (tablePlace root)) := by
    have hopen₂ := hkeeps.openAt
    simp only [Shelf.openAt, bind, EStateM.bind, hmake₂] at hopen₂
    simp only [Shelf.openAt, bind, EStateM.bind]
    rw [tableDir, hmake₁]
    exact hopen₂
  have hreaches : (d₁.withDirectory (tablePlace root)).Reaches dir root 42 :=
    hr.mono (d₁.directory_insert _ (hbelow "sstables" [])) rfl
  have hnone := journal_free hbelow
  have hhas : (d₁.withDirectory (tablePlace root)).has (journalPath dir) = false := by
    have hfind := hreaches.find plainName_journal (by decide)
    rw [← journalPlace, hnone] at hfind
    rw [Disk.has, journalPath, hfind]
    rfl
  simp only [recoverTables, bind, EStateM.bind, hmake, hopen, get, getThe, MonadStateOf.get,
    EStateM.get, hhas, Bool.not_false, if_true, pure, EStateM.pure]

theorem kept_insertFile (hr : d.Reaches dir root 42)
    (hkeeps : Keeps d (tableDir dir) (tablePlace root) [])
    (hnone : d.nodes[journalPlace root]? = none) :
    Kept (d.insertFile (journalPlace root)) dir root { layers := [], log := [] } [] := by
  have hnames : ∀ name, (d.insertFile (journalPlace root)).nodes[tablePlace root ++ [name]]? =
      d.nodes[tablePlace root ++ [name]]? :=
    fun name => d.getElem?_insert_ne _ (journalPlace_ne root name).symm
  refine ⟨Logs.insertFile hr hnone, ?_, ?_, by simp⟩
  · exact hkeeps.frame rfl (d.directory_insert _ hnone) hnames (by simp [Disk.insertFile]) (by simp)
  · intro name hname
    rw [hnames] at hname
    obtain ⟨l, hl, -⟩ := hkeeps.only name _ hname
    contradiction

/-- An engine is opened in a fresh directory, and holds nothing. -/
theorem openAt_of_fresh (hf : Fresh d dir) (config : Config) :
    ∃ e d' root, openAt dir config d = .ok e d' ∧ e.Sound d' root { layers := [], log := [] } ∧
      e.dir = dir := by
  obtain ⟨d₁, root, hmake, hr, hbelow⟩ := hf
  have hrecover := recoverTables_of_fresh hmake hr hbelow
  have hkeeps := keeps_withDirectory hr hbelow
  have hr₂ : (d₁.withDirectory (tablePlace root)).Reaches dir root 42 :=
    hr.mono (d₁.directory_insert _ (hbelow "sstables" [])) rfl
  have hnone := journal_free hbelow
  generalize d₁.withDirectory (tablePlace root) = d₂ at hrecover hkeeps hr₂ hnone
  obtain ⟨d₃, hjournal, hlogs, hrewrites⟩ := Logs.openReset_of_none hr₂ hnone config.sync
  obtain ⟨hk₃, hshelf⟩ := (kept_insertFile hr₂ hkeeps hnone).rewrite hrewrites hlogs
  exact ⟨_, d₃, root, openAt_eq_ok hrecover hjournal, ⟨hk₃, hshelf.symm, rfl, rfl, rfl⟩, rfl⟩

end KeyedStore.Engine
