import KeyedStore.Proofs.Obstructions

/-!
# Attained states

The states that an engine attains when somebody else may make directories where tables belong: from
any reachable state it goes on by steps that succeed or fail, and by being opened again. Whatever
happens, its parts go on agreeing with the data directory.
-/

namespace KeyedStore.Engine

open KeyedStore.Shelf (idAfter nextNumber numbered tableName)
open Bytes

/-- Some table numbers are left, and the files are far from the largest offset. -/
structure HasRoom (e : Engine) (d : Disk) : Prop where
  numbers : e.shelf.nextId + 3 < bound 8
  limits : WithinLimits d e.dir

/-- An engine on its disk, after steps that succeed or fail. -/
inductive Attained : Engine → Disk → Prop
  | reached {e : Engine} {d : Disk} {ops : List Operation} (h : Reachable e d ops) : Attained e d
  /-- Somebody makes a directory where a table belongs. -/
  | obstructed {e : Engine} {d d' : Disk} {id : Nat} (h : Attained e d) (hid : id < bound 8)
      (hm : Disk.makeDirectory (Shelf.tablePath (tableDir e.dir) id) d = .ok () d') : Attained e d'
  | ticked {e : Engine} {d : Disk} (h : Attained e d) (time : UInt64) : Attained { e with clock := time } d
  | requested {e e' : Engine} {d d' : Disk} {r : Request} (h : Attained e d) (hr : HasRoom e d)
      (hs : stateAfter (Backend.serve r) (e, d) = (e', d')) : Attained e' d'
  | flushed {e e' : Engine} {d d' : Disk} (h : Attained e d) (hr : HasRoom e d)
      (hs : stateAfter flush (e, d) = (e', d')) : Attained e' d'
  | compacted {e e' : Engine} {d d' : Disk} (h : Attained e d) (hr : HasRoom e d)
      (hs : stateAfter compact (e, d) = (e', d')) : Attained e' d'
  | reopened {e e' : Engine} {d d' : Disk} {config : Config} (h : Attained e d) (hr : HasRoom e d)
      (ho : openAt e.dir config d = .ok e' d') : Attained e' d'

variable {d d' : Disk} {dir : Path} {root : Place} {h : Holding} {tail : Bytes} {e e' : Engine} {id : Nat}

/-! ### Obstructions -/

theorem Stored.makeDirectory_eq (hs : Stored d dir root h tail) (hid : id < bound 8) :
    Disk.makeDirectory (Shelf.tablePath (tableDir dir) id) d =
      match d.nodes[tablePlace root ++ [tableName id]]? with
      | some _ => .error (.file .alreadyExists) d
      | none => .ok () (d.withDirectory (tablePlace root ++ [tableName id])) := by
  have hspot := hs.tables.reaches.spot (Shelf.plainName_tableName hid)
    (Shelf.utf8ByteSize_tableName_lt hid) .alreadyExists
  simp only [Disk.makeDirectory, Shelf.tablePath, hspot,
    Disk.lookup_plain (Shelf.plainName_tableName hid)]
  cases d.nodes[tablePlace root ++ [tableName id]]? with
  | none => rfl
  | some node => rfl

theorem journalFile_withDirectory (d : Disk) (root : Place) (name : String) :
    journalFile (d.withDirectory (tablePlace root ++ [name])) root = journalFile d root := by
  rw [journalFile, journalFile, Disk.fileAt, Disk.fileAt,
    Disk.getElem?_nodes_withDirectory_ne (journalPlace_ne root name)]

theorem Stored.withDirectory {name : String} (hs : Stored d dir root h tail)
    (hnone : d.nodes[tablePlace root ++ [name]]? = none) :
    Stored (d.withDirectory (tablePlace root ++ [name])) dir root h tail := by
  have hfiles : ∀ other file, (d.withDirectory (tablePlace root ++ [name])).nodes[tablePlace root ++
      [other]]? = some (.file file) → d.nodes[tablePlace root ++ [other]]? = some (.file file) := by
    intro other file hother
    by_cases he : other = name
    · rw [he, Disk.getElem?_nodes_withDirectory_self] at hother
      cases hother
    · rwa [Disk.getElem?_nodes_withDirectory_ne (Disk.concat_ne _ he)] at hother
  have hhere : (d.withDirectory (tablePlace root ++ [name])).here = d.here := rfl
  have hdirs : ∀ p : Place, d.nodes[p]? = some .directory →
      (d.withDirectory (tablePlace root ++ [name])).nodes[p]? = some .directory :=
    d.directory_insert .directory hnone
  refine ⟨?_, ⟨hs.tables.reaches.mono hdirs rfl, hs.tables.named, ?_, ?_, hs.tables.descending,
    hs.tables.sound⟩, ?_, hs.keys⟩
  · exact (hs.logs.frame hhere hdirs (Disk.getElem?_nodes_withDirectory_ne (journalPlace_ne root name))
      (Nat.le_refl _) rfl).1
  · intro l hl
    obtain ⟨file, hfile, hrest⟩ := hs.tables.files l hl
    have hne : tableName l.1 ≠ name := by
      rintro rfl
      rw [hnone] at hfile
      contradiction
    exact ⟨file, by rw [Disk.getElem?_nodes_withDirectory_ne (Disk.concat_ne _ hne), hfile], hrest⟩
  · exact fun other file hother => hs.tables.only other file (hfiles other file hother)
  · intro other hother
    rw [journalFile_withDirectory] at hother
    exact hs.apart other (hfiles other _ hother)

theorem Steady.obstruct (hs : e.Steady d root h) (hid : id < bound 8)
    (hm : Disk.makeDirectory (Shelf.tablePath (tableDir e.dir) id) d = .ok () d') :
    e.Steady d' root h := by
  have hnone : d.nodes[tablePlace root ++ [tableName id]]? = none := by
    cases hnode : d.nodes[tablePlace root ++ [tableName id]]? with
    | none => rfl
    | some node =>
      rw [hs.stored.makeDirectory_eq hid, hnode] at hm
      contradiction
  rw [hs.stored.makeDirectory_eq hid, hnone] at hm
  cases hm
  refine ⟨hs.stored.withDirectory hnone, ?_, hs.below, hs.memtable, ?_, hs.position⟩
  · refine hs.shelf.trans (Shelf.numbered_congr fun l hl => ?_)
    have hfile := (hs.stored.tables.file hl).1
    rw [Disk.getElem?_nodes_withDirectory_ne]
    intro he
    rw [he, hnone] at hfile
    contradiction
  · rw [journalFile_withDirectory]
    exact hs.file

/-! ### Opening again -/

theorem Stored.openAt_ne_ok (hs : Stored d dir root h tail) (hlog : h.log.isEmpty = false)
    (hdir : d.nodes[tablePlace root ++ [tableName (nextNumber h.layers)]]? = some .directory)
    (config : Config) : Engine.openAt dir config d ≠ .ok e d' := by
  intro ho
  obtain ⟨d₁, tail₁, hrecover, hlogs₁, hrewrites⟩ := hs.logs.recoverTables hs.tables.openAt
  have hs₁ := hs.rewrite hrewrites hlogs₁
  rw [← hrewrites.nodes] at hdir
  have hm : (replay h.log).isEmpty = false := by rw [isEmpty_replay, hlog]
  have hflush := Shelf.flush_of_directory
    (s := Shelf.ofLayers d (tableDir dir) (tablePlace root) h.layers) hs₁.tables.reaches
    (Shelf.nextNumber_lt _) hdir hm
  rw [hlog, if_neg Bool.false_ne_true, withTable, hflush] at hrecover
  obtain ⟨s, d₂, hrecover', -⟩ := bind_eq_ok.1 ho
  rw [hrecover] at hrecover'
  cases hrecover'

theorem Steady.reopen (hs : e.Steady d root h) (hl : WithinLimits d e.dir) {config : Config}
    (ho : openAt e.dir config d = .ok e' d') : e'.Steady d' root h.flushed := by
  have hroom := (hs.stored.within hl).room (by decide)
  have hnext := Shelf.nextNumber_lt h.layers
  have hfree : h.log.isEmpty = false →
      d.nodes[tablePlace root ++ [tableName (nextNumber h.layers)]]? = none := by
    intro hlog
    rcases hs.stored.tables.free_or_directory hnext fun _ hl => hs.stored.tables.lt_nextNumber hl with
      hfree | hdir
    · exact hfree
    · exact absurd ho (hs.stored.openAt_ne_ok hlog hdir config)
  obtain ⟨e₁, d₁, hopen, hs₁, -⟩ := hs.stored.openAt hroom hfree config
  rw [ho] at hopen
  cases hopen
  exact hs₁

/-! ### Attained states are steady -/

theorem HasRoom.weight_le (hr : HasRoom e d) (hs : e.Steady d root h) : h.weight ≤ bound 8 / 4 :=
  hs.stored.weight_le hr.limits

/-- Whatever an engine attains, its parts agree with the data directory. -/
theorem Attained.steady (ha : Attained e d) : ∃ root h, e.Steady d root h := by
  -- A step leads to one state, whether it succeeds or fails, so that state is the steady one.
  induction ha with
  | reached hr =>
    obtain ⟨root, h, hs, -⟩ := hr.sound
    exact ⟨root, h, hs.steady⟩
  | obstructed _ hid hm ih =>
    obtain ⟨root, h, hs⟩ := ih
    exact ⟨root, h, hs.obstruct hid hm⟩
  | ticked _ time ih =>
    obtain ⟨root, h, hs⟩ := ih
    exact ⟨root, h, hs.stored, hs.shelf, hs.below, hs.memtable, hs.file, hs.position⟩
  | @requested e e' d d' r _ hr hstep ih =>
    obtain ⟨root, h, hs⟩ := ih
    by_cases hlog : r.Loggable
    · have hsmall : bound 8 / 4 + r.weight ≤ bound 8 / 3 :=
        Nat.le_trans (Nat.add_le_add_left (Step.weight_le (.request r)) _) (by decide)
      obtain ⟨e₁, d₁, h₁, hleads, hf, -⟩ :=
        hs.serve_leads hlog (by have := hr.numbers; omega) (hr.weight_le hs) hsmall
      rw [hleads.stateAfter] at hstep
      cases hstep
      exact ⟨root, h₁, hf.steady⟩
    · obtain ⟨length, hserve⟩ := serve_of_not_loggable hlog e d
      rw [stateAfter_of_error hserve] at hstep
      cases hstep
      exact ⟨root, h, hs⟩
  | flushed _ hr hstep ih =>
    obtain ⟨root, h, hs⟩ := ih
    obtain ⟨e₁, d₁, h₁, hleads, hf, -⟩ :=
      hs.flush_leads (by have := hr.numbers; omega) (hr.weight_le hs) (by decide)
    rw [hleads.stateAfter] at hstep
    cases hstep
    exact ⟨root, h₁, hf.steady⟩
  | compacted _ hr hstep ih =>
    obtain ⟨root, h, hs⟩ := ih
    obtain ⟨e₁, d₁, h₁, hleads, hf, -⟩ :=
      hs.compact_leads (by have := hr.numbers; omega) (hr.weight_le hs) (by decide)
    rw [hleads.stateAfter] at hstep
    cases hstep
    exact ⟨root, h₁, hf.steady⟩
  | reopened _ hr ho ih =>
    obtain ⟨root, h, hs⟩ := ih
    exact ⟨root, _, hs.reopen hr.limits ho⟩

end KeyedStore.Engine
