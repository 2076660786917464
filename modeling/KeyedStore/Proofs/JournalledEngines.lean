import KeyedStore.Proofs.FailedWrites
import KeyedStore.Proofs.JournalRuns
import KeyedStore.Proofs.OrderlyDisks

/-!
# The journal and the table in memory

Whatever is asked of an engine, and whether it succeeds or fails, its journal holds the operations that
make up the table in memory and nothing else. A write puts its operation in both, and a flush that fails
leaves both as they were, because the files of tables have other names than the journal.
-/

namespace KeyedStore

open Journal (AtEnd Entry frames scan)

variable {d d' : Disk} {dir : Path} {path : Path} {w : Journal.Writer} {log : List Entry} {id : Nat}

/-! ### Tables beside a journal -/

namespace Shelf

variable {I : Disk → Prop} {s : Shelf} {m : MemTable}

theorem tablePath_eq (dir : Path) (id : Nat) : tablePath dir id = dir.base ++ [tableName id] :=
  Path.join_name dir (tableName id)

theorem journalPath_eq (dir : Path) : Engine.journalPath dir = dir.base ++ ["wal.log"] :=
  Path.join_name dir "wal.log"

theorem tableName_ne_journal (id : Nat) : tableName id ≠ "wal.log" := by
  intro h
  have hsize := utf8ByteSize_tableName id
  rw [h, length_nameBytes] at hsize
  have hjournal : "wal.log".utf8ByteSize = 7 := by decide
  omega

/-- A property of disks that holds on whatever is done to the files of tables. -/
structure Undisturbed (I : Disk → Prop) : Prop where
  write : ∀ dir id bs, Preserves I (Disk.write (tablePath dir id) bs) fun _ => True
  discard : ∀ dir id d, I d → I (d.discard (tablePath dir id))

theorem undisturbed_orderly : Undisturbed Disk.Orderly where
  write _ _ bs := Disk.preserves_write _ bs
  discard _ _ _ hd := hd.discard _

/-- A writer stands at the end of the journal in a data directory, and the disk is orderly. -/
def Beside (dir : Path) (w : Journal.Writer) (log : List Entry) (d : Disk) : Prop :=
  d.Orderly ∧ AtEnd d (Engine.journalPath dir) w log

theorem undisturbed_beside (dir : Path) (w : Journal.Writer) (log : List Entry) :
    Undisturbed (Beside dir w log) where
  write dir' id bs := by
    rintro d ⟨hd, hend⟩
    refine ⟨?_, fun _ _ _ => trivial⟩
    have hd₁ := (Disk.preserves_write (tablePath dir' id) bs d hd).1
    refine ⟨hd₁, ?_⟩
    rw [tablePath_eq] at hd₁ ⊢
    rw [journalPath_eq] at hend ⊢
    obtain ⟨hfile₁, hcontent₁⟩ := hd.write_ne (tableName_ne_journal id) hend.file dir'.base bs
    exact hend.frame hfile₁ (hd₁.inside hfile₁) hcontent₁
  discard dir' id d := by
    rintro ⟨hd, hend⟩
    have hd₁ := hd.discard (tablePath dir' id)
    refine ⟨hd₁, ?_⟩
    rw [tablePath_eq] at hd₁ ⊢
    rw [journalPath_eq] at hend ⊢
    obtain ⟨hfile₁, hcontent₁⟩ :=
      Disk.Orderly.discard_ne (tableName_ne_journal id) hend.file dir'.base
    exact hend.frame hfile₁ (hd₁.inside hfile₁) hcontent₁

/-- The tables of a shelf are in files with the names of tables. -/
def Named (s : Shelf) : Prop := ∀ t ∈ s.tables, ∃ dir id, t.path = tablePath dir id

/-- A shelf on a disk with a property. -/
def On (I : Disk → Prop) (s : Shelf × Disk) : Prop := I s.2 ∧ s.1.Named

theorem preserves_onDisk {α : Type} {m : DiskM α} {Q : α → Prop} (hm : Preserves I m Q) :
    Preserves (On I) (onDisk m) Q := by
  apply Preserves.focus fun _ => rfl
  rintro ⟨s, _⟩ d ⟨hd, hs⟩
  obtain ⟨hstate, hvalue⟩ := hm d hd
  exact ⟨⟨hstate, hs⟩, hvalue⟩

theorem preserves_tableWrite (hI : Undisturbed I) (dir : Path) (id : Nat) (rows : List Table.Row) :
    Preserves I (Table.write (tablePath dir id) rows) fun _ => True := by
  unfold Table.write
  cases Table.Builder.addAll rows {} with
  | ok _ b => exact (hI.write dir id b.image).bind fun _ _ => .pure trivial
  | error e b => exact (hI.write dir id b.unfinished).bind fun _ _ => .throw e

theorem preserves_build (hI : Undisturbed I) (rows : List Table.Row) :
    Preserves (On I) (build rows) fun built => ∃ dir id, built.2.path = tablePath dir id := by
  unfold build
  refine Preserves.get.bind ?_
  rintro ⟨s, d⟩ -
  refine Preserves.bind (.modify fun _ h => h) fun _ _ => ?_
  refine (preserves_onDisk (preserves_tableWrite hI s.dir s.nextId rows)).bind fun info _ => ?_
  refine Preserves.get.bind fun s' _ => ?_
  refine Preserves.bind (Q := fun t => t.path = tablePath s.dir s.nextId)
    (.liftResult fun _ h => path_of_openAt h) fun t ht => ?_
  exact .pure ⟨s.dir, s.nextId, ht⟩

theorem preserves_flush (hI : Undisturbed I) (m : MemTable) : Preserves (On I) (flush m) fun _ => True := by
  unfold flush
  split
  · exact Preserves.bind (Q := fun _ => False) (.throw _) fun _ h => h.elim
  · refine (preserves_build hI m.toList).bind ?_
    rintro ⟨info, t⟩ ht
    refine Preserves.bind (.modify ?_) fun _ _ => .pure trivial
    rintro ⟨s, d⟩ ⟨hd, hs⟩
    exact ⟨hd, List.forall_mem_cons.2 ⟨ht, hs⟩⟩

/-- What merging gives besides the description are the tables that it replaces. -/
theorem preserves_replaceTables (hI : Undisturbed I) : Preserves (On I) replaceTables fun merged =>
    ∀ info old, merged = some (info, old) → ∀ t ∈ old, ∃ dir id, t.path = tablePath dir id := by
  unfold replaceTables
  refine Preserves.get.bind ?_
  rintro ⟨s, d⟩ ⟨-, hs⟩
  dsimp only
  split
  · exact .pure fun _ _ h => nomatch h
  · refine Preserves.bind (Q := fun _ => True) (.liftResult fun _ _ => trivial) fun scanned _ => ?_
    refine (preserves_build hI _).bind ?_
    rintro ⟨info, t⟩ ht
    refine Preserves.bind (.modify ?_) fun _ _ => .pure ?_
    · rintro ⟨s', d'⟩ ⟨hd, -⟩
      exact ⟨hd, List.forall_mem_singleton.2 ht⟩
    · rintro _ _ h
      cases h
      exact hs

theorem discardAll (hI : Undisturbed I) (old : List Table)
    (hold : ∀ t ∈ old, ∃ dir id, t.path = tablePath dir id) (hd : I d) :
    I (old.foldl (fun d t => d.discard t.path) d) := by
  induction old generalizing d with
  | nil => exact hd
  | cons t old ih =>
    obtain ⟨⟨dir, id, ht⟩, hrest⟩ := List.forall_mem_cons.1 hold
    rw [List.foldl_cons, ht]
    exact ih hrest (hI.discard dir id d hd)

theorem preserves_compact (hI : Undisturbed I) : Preserves (On I) compact fun _ => True := by
  unfold compact
  refine (preserves_replaceTables hI).bind ?_
  rintro (_ | ⟨info, old⟩) hold
  · exact .pure trivial
  · refine Preserves.bind (.modify ?_) fun _ _ => .pure trivial
    rintro ⟨s, d⟩ ⟨hd, hs⟩
    exact ⟨discardAll hI old (hold info old rfl) hd, hs⟩

theorem preserves_openAt (dir : Path) : Preserves Disk.Orderly (openAt dir) Named := by
  unfold openAt
  refine (Disk.preserves_makeDirectories dir).bind fun _ _ => ?_
  refine Preserves.get.bind fun d _ => ?_
  refine Preserves.bind (Q := fun tables : List Table => ∀ t ∈ tables, ∃ dir id, t.path = tablePath dir id)
    (.liftResult ?_) fun tables htables => .pure htables
  intro tables htables
  generalize tableIds d dir = ids at htables
  induction ids generalizing tables with
  | nil =>
    cases htables
    simp
  | cons id ids ih =>
    rw [List.mapM_cons] at htables
    simp only [bind, Except.bind] at htables
    split at htables
    · contradiction
    · next t ht =>
      split at htables
      · contradiction
      · next rest hrest =>
        cases htables
        exact List.forall_mem_cons.2 ⟨⟨dir, id, path_of_openAt ht⟩, ih rest hrest⟩

end Shelf

/-! ### Engines -/

namespace Engine

open KeyedStore.Shelf (tableName)
open Bytes

variable {e e' : Engine} {op : Operation} {config : Config}

/-- The journal of an engine holds the operations that make up its table in memory. -/
structure Journalled (e : Engine) (d : Disk) (log : List Entry) : Prop where
  orderly : d.Orderly
  atEnd : AtEnd d (journalPath e.dir) e.journal log
  named : e.shelf.Named
  memtable : e.memtable = replay log

/-- The journal of an engine holds the operations that make up its table in memory, whatever they are. -/
def Agrees (s : Engine × Disk) : Prop := ∃ log, Journalled s.1 s.2 log

theorem preserves_onShelf {α : Type} {m : ShelfM α} {Q : α → Prop}
    (hm : ∀ I, Shelf.Undisturbed I → Preserves (Shelf.On I) m Q) : Preserves Agrees (onShelf m) Q := by
  apply Preserves.focus fun _ => rfl
  rintro ⟨e, _⟩ ⟨shelf, d⟩ ⟨log, h⟩
  obtain ⟨⟨⟨hd, hend⟩, hs⟩, hvalue⟩ :=
    hm _ (Shelf.undisturbed_beside e.dir e.journal log) (shelf, d) ⟨⟨h.orderly, h.atEnd⟩, h.named⟩
  exact ⟨⟨log, hd, hend, hs, h.memtable⟩, hvalue⟩

/-- The table in memory is discarded together with the journal. -/
theorem preserves_clear : Preserves Agrees
    (do
      modify fun (e, d) => ({ e with memtable := {} }, d)
      onJournal Journal.Writer.reset : EngineM Unit) fun _ => True := by
  rintro ⟨e, d⟩ ⟨log, h⟩
  refine ⟨?_, fun _ _ _ => trivial⟩
  have hreset : e.journal.reset d = .ok { e.journal with position := 0, nextLsn := 1, unsynced := 0 }
      (d.change e.journal.file (·.resize 0)) := rfl
  exact ⟨[], h.orderly.change _ _, h.atEnd.reset hreset, h.named, rfl⟩

theorem preserves_flush : Preserves Agrees flush fun _ => True := by
  unfold flush
  refine Preserves.get.bind ?_
  rintro ⟨e, d⟩ -
  dsimp only
  split
  · exact .pure trivial
  · exact (preserves_onShelf fun I hI => Shelf.preserves_flush hI e.memtable).bind fun _ _ => preserves_clear

/-- An accepted operation is put in the journal and in the table in memory, a refused one in neither. -/
theorem preserves_accept (op : Operation) : Preserves Agrees (accept op) fun _ => True := by
  rintro ⟨e, d⟩ ⟨log, h⟩
  refine ⟨?_, fun _ _ _ => trivial⟩
  by_cases hop : op.Loggable
  · obtain ⟨journal, d', happend, -, hrewrites, hend⟩ := h.atEnd.append_eq hop e.clock
    have haccept : accept op (e, d) =
        .ok () ({ e with journal, memtable := e.memtable.apply op }, d') := by
      simp only [accept, onJournal, bind, EStateM.bind, get, getThe, MonadStateOf.get, EStateM.get, focus,
        happend]
      rfl
    rw [stateAfter_of_ok haccept]
    refine ⟨_, ?_, hend, h.named, ?_⟩
    · exact h.orderly.mono (Nat.le_of_eq hrewrites.size.symm) fun p id hp => hrewrites.nodes ▸ hp
    · rw [replay_concat, ← h.memtable]
  · rw [stateAfter_of_error (accept_of_not_loggable hop e d)]
    exact ⟨log, h⟩

theorem preserves_perform (op : Operation) : Preserves Agrees (perform op) fun _ => True := by
  unfold perform
  refine (preserves_accept op).bind fun _ _ => ?_
  unfold flushIfFull
  refine Preserves.get.bind ?_
  rintro ⟨e, d⟩ -
  dsimp only
  split
  · exact preserves_flush
  · exact .pure trivial

theorem preserves_delete (key : Bytes) : Preserves Agrees (delete key) fun _ => True := by
  unfold delete
  refine Preserves.get.bind ?_
  rintro ⟨e, d⟩ -
  refine Preserves.bind (Q := fun _ => True) (.liftResult fun _ _ => trivial) fun found _ => ?_
  split
  · exact .pure trivial
  · exact (preserves_perform (.delete key)).bind fun _ _ => .pure trivial

theorem preserves_compact : Preserves Agrees compact fun _ => True := by
  unfold compact
  refine preserves_flush.bind fun _ _ => ?_
  exact (preserves_onShelf fun I hI => Shelf.preserves_compact hI).bind fun _ _ => .pure trivial

theorem preserves_serve (r : Request) : Preserves Agrees (Backend.serve r) fun _ => True := by
  cases r with
  | read key buffer =>
    intro s hs
    refine ⟨?_, fun _ _ _ => trivial⟩
    simp only [Backend.serve, Backend.read, stateAfter]
    split
    · exact hs
    · exact hs
  | write key value => exact (preserves_perform (.put key value)).bind fun _ _ => .pure trivial
  | remove key => exact (preserves_delete key).bind fun _ _ => .pure trivial
  | contains key =>
    refine Preserves.bind (Q := fun _ => True) ?_ fun _ _ => .pure trivial
    exact Preserves.get.bind fun _ _ => .liftResult fun _ _ => trivial

/-! ### Opening -/

theorem preserves_recover (path : Path) : Preserves Disk.Orderly (Journal.recover path) fun _ => True := by
  unfold Journal.recover
  refine Preserves.get.bind fun d _ => ?_
  refine Preserves.bind (Q := fun _ => True) (.liftResult fun _ _ => trivial) fun file _ => ?_
  refine Preserves.get.bind fun d' _ => ?_
  dsimp only
  split
  · exact (Disk.preserves_setLength file _).bind fun _ _ => .pure trivial
  · exact .pure trivial

theorem preserves_withTable {shelf : Shelf} (hs : shelf.Named) (m : MemTable) :
    Preserves Disk.Orderly (withTable shelf m) Shelf.Named := by
  intro d hd
  have hflush := Shelf.preserves_flush Shelf.undisturbed_orderly m
  have hon : Shelf.On Disk.Orderly (shelf, d) := ⟨hd, hs⟩
  cases h : Shelf.flush m (shelf, d) with
  | ok info s =>
    obtain ⟨shelf', d'⟩ := s
    obtain ⟨⟨hd', hs'⟩, -⟩ := hflush.ok hon h
    have hwith : withTable shelf m d = .ok shelf' d' := by
      rw [withTable, h]
    rw [stateAfter, hwith]
    refine ⟨hd', ?_⟩
    rintro _ _ ⟨⟩
    exact hs'
  | error err s =>
    obtain ⟨shelf', d'⟩ := s
    have hwith : withTable shelf m d = .error err d' := by
      rw [withTable, h]
    rw [stateAfter, hwith]
    refine ⟨(hflush.error hon h).1, ?_⟩
    intro _ _ h
    contradiction

theorem preserves_recoverTables (dir : Path) : Preserves Disk.Orderly (recoverTables dir) Shelf.Named := by
  unfold recoverTables
  refine (Disk.preserves_makeDirectories dir).bind fun _ _ => ?_
  refine (Shelf.preserves_openAt (tableDir dir)).bind fun shelf hs => ?_
  refine Preserves.get.bind fun d _ => ?_
  split
  · exact .pure hs
  · refine (preserves_recover (journalPath dir)).bind ?_
    rintro ⟨entries, report⟩ -
    dsimp only
    split
    · exact .pure hs
    · exact preserves_withTable hs (replay entries)

/-- An engine that was opened has an empty journal and an empty table in memory. -/
theorem journalled_openAt (hd : d.Orderly) (ho : openAt dir config d = .ok e d') : Journalled e d' [] := by
  obtain ⟨shelf, d₁, hrecover, ho⟩ := bind_eq_ok.1 ho
  obtain ⟨w, d₂, hopen, ho⟩ := bind_eq_ok.1 ho
  obtain ⟨journal, d₃, hreset, ho⟩ := bind_eq_ok.1 ho
  obtain ⟨rfl, rfl⟩ := pure_eq_ok.1 ho
  obtain ⟨hd₁, hs⟩ := (preserves_recoverTables dir).ok hd hrecover
  obtain ⟨hfile, hinside⟩ := Journal.Writer.file_of_openAt hd₁.intact hopen
  have hwriter : Preserves Disk.Orderly (Journal.Writer.openAt (journalPath dir) config.sync) fun _ => True := by
    unfold Journal.Writer.openAt
    refine (Disk.preserves_provide (journalPath dir)).bind fun file _ => ?_
    refine Preserves.get.bind fun d _ => ?_
    exact (Disk.preserves_setLength file _).bind fun _ _ => .pure trivial
  have hd₂ := (hwriter.ok hd₁ hopen).1
  obtain ⟨-, hrewrites, hend⟩ := AtEnd.of_reset hfile hinside hreset
  refine ⟨?_, hend, hs, rfl⟩
  exact hd₂.mono (Nat.le_of_eq hrewrites.size.symm) fun p id hp => hrewrites.nodes ▸ hp

/-! ### Running engines -/

/-- An engine on its disk in any state that it can come to: it was opened on some orderly disk, time went
on, requests were served, tables were flushed and merged, and each of these steps succeeded or failed for
whatever reason. Between them others may have changed the disk, as long as they left the journal as it
was. An engine that is opened again on what another one left is an engine that was opened. -/
inductive Running : Engine → Disk → Prop
  | opened {d d' : Disk} {dir : Path} {config : Config} {e : Engine} (hd : d.Orderly)
      (ho : openAt dir config d = .ok e d') : Running e d'
  | ticked {e : Engine} {d : Disk} (h : Running e d) (time : UInt64) : Running { e with clock := time } d
  | served {e e' : Engine} {d d' : Disk} {r : Request} (h : Running e d)
      (hs : stateAfter (Backend.serve r) (e, d) = (e', d')) : Running e' d'
  | flushed {e e' : Engine} {d d' : Disk} (h : Running e d) (hs : stateAfter flush (e, d) = (e', d')) :
      Running e' d'
  | compacted {e e' : Engine} {d d' : Disk} (h : Running e d)
      (hs : stateAfter compact (e, d) = (e', d')) : Running e' d'
  | disturbed {e : Engine} {d d' : Disk} (h : Running e d) (hd : d'.Orderly)
      (hfile : d'.file (journalPath e.dir) = d.file (journalPath e.dir))
      (hread : d'.read (journalPath e.dir) = d.read (journalPath e.dir)) : Running e d'

theorem Journalled.disturb (h : Journalled e d log) (hd : d'.Orderly)
    (hfile : d'.file (journalPath e.dir) = d.file (journalPath e.dir))
    (hread : d'.read (journalPath e.dir) = d.read (journalPath e.dir)) : Journalled e d' log := by
  have hfile' : d'.file (journalPath e.dir) = .ok e.journal.file := hfile.trans h.atEnd.file
  have hcontent : d'.content e.journal.file = d.content e.journal.file := by
    simpa only [Disk.read, hfile', h.atEnd.file, bind, Except.bind, pure, Except.pure, Except.ok.injEq]
      using hread
  exact ⟨hd, h.atEnd.frame hfile' (hd.inside hfile') hcontent, h.named, h.memtable⟩

theorem Running.agrees (h : Running e d) : Agrees (e, d) := by
  induction h with
  | opened hd ho => exact ⟨[], journalled_openAt hd ho⟩
  | ticked _ time ih =>
    obtain ⟨log, h⟩ := ih
    exact ⟨log, h.orderly, h.atEnd, h.named, h.memtable⟩
  | served _ hs ih => exact hs ▸ (preserves_serve _ _ ih).1
  | flushed _ hs ih => exact hs ▸ (preserves_flush _ ih).1
  | compacted _ hs ih => exact hs ▸ (preserves_compact _ ih).1
  | disturbed _ hd hfile hread ih =>
    obtain ⟨log, h⟩ := ih
    exact ⟨log, h.disturb hd hfile hread⟩

theorem Running.orderly (h : Running e d) : d.Orderly := by
  obtain ⟨log, hjournalled⟩ := h.agrees
  exact hjournalled.orderly

/-- In every state the journal of an engine is a sequence of frames with nothing behind it, numbered from
one on, the writer goes on with the next number, and replaying the entries gives the table in memory. -/
theorem Running.exists_journal (h : Running e d) :
    ∃ log, d.read (journalPath e.dir) = .ok (frames log) ∧
      scan (frames log) = { entries := log, length := (frames log).length, ending := .clean } ∧
      (∀ i (hi : i < log.length), log[i].lsn = UInt64.ofNat (i + 1)) ∧
      e.journal.nextLsn = UInt64.ofNat (log.length + 1) ∧ e.memtable = replay log := by
  obtain ⟨log, h⟩ := h.agrees
  have hscan := h.atEnd.scan_content
  rw [h.atEnd.content] at hscan
  exact ⟨log, h.atEnd.read, hscan, h.atEnd.numbered, h.atEnd.nextLsn, h.memtable⟩

/-- A write that does not fill the table in memory only adds to it. -/
theorem Steady.write_of_not_full {root : Place} {h : Holding} {key value : Bytes} (hs : e.Steady d root h)
    (hop : (Operation.put key value).Loggable)
    (hfull : (e.memtable.put key value).isFull e.memtableLimit = false) :
    ∃ journal d' h', Backend.serve (.write key value) (e, d) =
        .ok .written ({ e with journal, memtable := e.memtable.put key value }, d') ∧
      Steady { e with journal, memtable := e.memtable.put key value } d' root h' ∧ d'.nodes = d.nodes := by
  obtain ⟨journal, d', haccept, hs', hnodes⟩ := hs.accept hop
  have hflush := flushIfFull_of_not_full (e := { e with journal, memtable := e.memtable.put key value }) d' hfull
  have hperform : perform (.put key value) (e, d) = _ := (bind_of_ok haccept).trans hflush
  exact ⟨journal, d', _, bind_of_ok hperform, hs', hnodes⟩

/-- After a flush that failed and another write the journal holds both writes. -/
theorem journal_of_failed_flush :
    ∃ e d e₁ e₂ d₂ log, Running e d ∧ flush (e, d) = .error (.file .isDirectory) (e₁, d) ∧
      Backend.serve (.write [3] [4]) (e₁, d) = .ok .written (e₂, d₂) ∧
      d₂.read (journalPath e₂.dir) = .ok (frames log) ∧ e₂.memtable = replay log ∧
      e₂.memtable.get? [1] = some (.value [2]) ∧ e₂.memtable.get? [3] = some (.value [4]) := by
  obtain ⟨e, d, root, hopen, hsound, -⟩ := openAt_of_fresh fresh_db {}
  have hs := hsound.steady
  have hnext : e.shelf.nextId = 1 := hsound.nextId_eq
  have hlimit := (start_of_openAt hopen).2
  have hmemtable : e.memtable = {} := hs.memtable
  have hfirst : (Operation.put [1] [2]).Loggable := by decide
  have hsecond : (Operation.put [3] [4]).Loggable := by decide
  obtain ⟨journal, d₁, h₁, hwrite, hs₁, hnodes⟩ :=
    hs.write_of_not_full hfirst (by rw [hmemtable, hlimit]; decide)
  have hr₁ := (Running.opened Disk.Orderly.empty hopen).served (stateAfter_of_ok hwrite)
  have hfree := hsound.free
  have hmake := hs₁.stored.makeDirectory_eq (by decide : 1 < bound 8)
  rw [hnext, ← hnodes] at hfree
  rw [hfree] at hmake
  have hs₂ := hs₁.obstruct (by decide) hmake
  have hfile := hs₂.stored.logs.file_eq
  rw [journalFile_withDirectory, ← hs₁.stored.logs.file_eq] at hfile
  have hr₂ := hr₁.disturbed (hr₁.orderly.withDirectory _) hfile (by rw [Disk.read, Disk.read, hfile]; rfl)
  have hdir : (d₁.withDirectory (tablePlace root ++ [tableName 1])).nodes[tablePlace root ++
      [tableName 1]]? = some .directory := Disk.getElem?_nodes_withDirectory_self
  generalize d₁.withDirectory (tablePlace root ++ [tableName 1]) = d₂ at *
  rw [← hnext] at hdir
  have hflush := hs₂.flush_of_directory (MemTable.isEmpty_apply _ (.put [1] [2])) (by rw [hnext]; decide) hdir
  have hs₃ := hs₂.skipNumber (by rw [hnext]; decide)
  obtain ⟨journal', d₃, h₃, hwrite', -⟩ := hs₃.write_of_not_full hsecond (by
    change ((e.memtable.put [1] [2]).put [3] [4]).isFull e.memtableLimit = false
    rw [hmemtable, hlimit]
    decide +kernel)
  have hr₄ := (hr₂.flushed (stateAfter_of_error hflush)).served (stateAfter_of_ok hwrite')
  obtain ⟨log, hread, -, -, -, hreplay⟩ := Running.exists_journal hr₄
  refine ⟨_, d₂, _, _, d₃, log, hr₂, hflush, hwrite', hread, hreplay, ?_, ?_⟩
  · change ((e.memtable.put [1] [2]).put [3] [4]).get? [1] = _
    rw [hmemtable]
    decide +kernel
  · change ((e.memtable.put [1] [2]).put [3] [4]).get? [3] = _
    rw [hmemtable]
    decide +kernel

end Engine

end KeyedStore
