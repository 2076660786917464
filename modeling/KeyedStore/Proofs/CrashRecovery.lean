import KeyedStore.Proofs.ReachableStates

/-!
# Recovery after a crash

An engine that dies while it appends to its journal leaves a journal that is cut somewhere; it is
opened with exactly the operations whose frames lie in front of the cut. An engine that dies between
the writing of a table and the emptying of its journal leaves both; opening replays the journal into one
more table, as often as that happens again, and no key changes its value.
-/

namespace KeyedStore.Engine

open Journal (Entry frames framesWithin)
open KeyedStore.Shelf (nextNumber)
open Bytes

variable {d : Disk} {dir : Path} {root : Place} {h : Holding} {tail : Bytes} {e : Engine}
  {ops : List Operation}

/-! ### Cut journals -/

/-- Cuts the journal in a data directory to its first `n` bytes. -/
def cutJournal (dir : Path) (n : Nat) : DiskM Unit := do
  let file ← liftResult ((← get).file (journalPath dir))
  Disk.setLength file n

theorem Kept.cutJournal_eq (hk : Kept d dir root h tail) (n : Nat) :
    cutJournal dir n d = .ok () (d.change (journalFile d root) (·.resize n)) := by
  simp only [cutJournal, bind, EStateM.bind, get, getThe, MonadStateOf.get, EStateM.get,
    hk.logs.file_eq, liftResult, pure, EStateM.pure]
  rfl

/-- A journal that is cut anywhere is opened with the operations whose frames lie wholly in front of
the cut, done in their order to what the tables say. -/
theorem get?_of_cut_journal (hr : Reachable e d ops) (hl : WithinLimits d e.dir) (config : Config) :
    ∃ log, d.read (journalPath e.dir) = .ok (frames log) ∧ log.map Entry.operation = ops ∧
      ∀ n ≤ (frames log).length, ∃ j ≤ log.length,
        (frames (log.take j)).length ≤ n ∧
        (j < log.length → n < (frames (log.take (j + 1))).length) ∧
        ∃ d₁ e' d', cutJournal e.dir n d = .ok () d₁ ∧ openAt e.dir config d₁ = .ok e' d' ∧
          ∀ key, ∃ below?, e.shelf.get? d key = .ok below? ∧
            e'.get? d' key = .ok (Operation.reviseAll (ops.take j) key below?) := by
  obtain ⟨root, h, hs, rfl⟩ := hr.sound
  have hk := hs.kept
  have hroom := hk.room hl
  refine ⟨h.log, hk.logs.read_eq, rfl, ?_⟩
  intro n hn
  have hj : framesWithin n h.operations ≤ h.log.length := by
    have hle := Journal.framesWithin_le n h.operations
    rwa [Holding.operations, List.length_map] at hle
  refine ⟨framesWithin n h.operations, hj, Journal.length_frames_take_le n h.log,
    Journal.lt_length_frames_take_succ, ?_⟩
  obtain ⟨tail, hcut⟩ := hk.cut hn
  have hroom' : Holding.Room { h with log := h.log.take (framesWithin n h.operations) } := by
    refine ⟨hroom.numbers, Nat.le_trans ?_ hroom.space⟩
    exact Nat.add_le_add_left (Nat.le_trans (Journal.length_frames_take_le n h.log) hn) _
  obtain ⟨e', d', hopen, hs', -⟩ := hcut.openAt hroom' config
  refine ⟨_, e', d', hk.cutJournal_eq n, hopen, ?_⟩
  intro key
  refine ⟨_, hs.shelf_get? key, ?_⟩
  rw [hs'.get?, Holding.value_flushed, Holding.value, Holding.operations, List.map_take]
  rfl

/-- A journal that is cut inside its only frame is opened with what the tables say. -/
theorem get?_of_cut_journal_of_put : ∃ e d, Reachable e d [.put [1] [2]] ∧ WithinLimits d e.dir ∧
    ∃ d₁ e' d', cutJournal e.dir 20 d = .ok () d₁ ∧ openAt e.dir {} d₁ = .ok e' d' ∧
      ∀ key, e'.get? d' key = e.shelf.get? d key := by
  obtain ⟨e, d, root, h, hr, -, -, hl⟩ :=
    exists_reachable fresh_db {} [.put [1] [2]] (by decide) (by decide)
  refine ⟨e, d, hr, hl, ?_⟩
  obtain ⟨log, -, hlog, hcut⟩ := get?_of_cut_journal hr hl {}
  obtain ⟨entry, rfl, hop⟩ := List.map_eq_singleton_iff.1 hlog
  have hlength : (frames [entry]).length = 46 := by
    rw [frames, List.flatMap_singleton, entry.length_frame, entry.size_eq, hop]
    decide
  obtain ⟨j, hj, hwithin, -, d₁, e', d', hdie, hopen, hget⟩ := hcut 20 (by omega)
  have hnone : j = 0 := by
    by_contra hne
    rw [List.take_of_length_le (by rw [List.length_singleton]; omega), hlength] at hwithin
    omega
  refine ⟨d₁, e', d', hdie, hopen, ?_⟩
  intro key
  obtain ⟨below?, hshelf, hget'⟩ := hget key
  rw [hshelf, hget', hnone]
  rfl

/-! ### Interrupted flushes -/

/-- Opens the tables again and again, and dies each time before the journal is emptied. -/
def recoverTimes (dir : Path) : Nat → DiskM Unit
  | 0 => pure ()
  | n + 1 => do
    let _ ← recoverTables dir
    recoverTimes dir n

theorem Kept.recoverTimes (hk : Kept d dir root h tail) {n : Nat}
    (hn : nextNumber h.layers + n + 1 < bound 8)
    (hspace : Table.headerSize + (frames h.log).length ≤ Table.Index.offsetLimit) :
    ∃ d' h' tail', Engine.recoverTimes dir n d = .ok () d' ∧ Kept d' dir root h' tail' ∧ h'.Room ∧
      (∀ key, h'.value key = h.value key) ∧ h'.log = h.log ∧
      h'.layers.length = h.layers.length + if h.log.isEmpty then 0 else n := by
  -- The journal holds the same entries each time, so the values are those of the first replay.
  induction n generalizing d h tail with
  | zero => exact ⟨d, h, tail, rfl, hk, ⟨hn, hspace⟩, fun _ => rfl, rfl, by simp⟩
  | succ n ih =>
    obtain ⟨d₁, tail₁, hrecover, hk₁⟩ := hk.recoverTables ⟨by omega, hspace⟩
    have hnext : nextNumber h.replayed.layers ≤ nextNumber h.layers + 1 :=
      Holding.nextNumber_shelved_le (by omega)
    obtain ⟨d', h', tail', htimes, hk', hr', hvalue, hlog, hlength⟩ := ih hk₁ (by omega) hspace
    refine ⟨d', h', tail', ?_, hk', hr', ?_, hlog, ?_⟩
    · simp only [Engine.recoverTimes, bind, EStateM.bind, hrecover, htimes]
    · intro key
      rw [hvalue, h.value_replayed]
    · have hshelved : h.replayed.layers.length = _ := h.length_shelved
      rw [hlength, hshelved]
      change _ + (if h.log.isEmpty then 0 else n) = _
      split <;> omega

/-- Dies during a flush, if there is anything to flush, when the table is written and the journal is
not yet emptied. -/
def dieInFlush (e : Engine) : DiskM Unit := do
  if !e.memtable.isEmpty then
    let _ ← withTable e.shelf e.memtable

/-- Dies during a flush or not, and then during the flushes of `n` recoveries, each time before the
journal is emptied. -/
def dieBeforeReset (e : Engine) (flushing : Bool) (n : Nat) : DiskM Unit := do
  if flushing then dieInFlush e
  recoverTimes e.dir n

theorem Sound.dieInFlush (hs : e.Sound d root h) (hr : h.Room) :
    ∃ d', Engine.dieInFlush e d = .ok () d' ∧ Kept d' e.dir root h.replayed [] := by
  cases hm : e.memtable.isEmpty with
  | true =>
    have hsame : h.replayed = h := by
      rw [Holding.replayed, Holding.shelved, if_pos]
      rw [hs.log_eq_nil hm]
      rfl
    refine ⟨d, ?_, hsame.symm ▸ hs.kept⟩
    simp only [Engine.dieInFlush, hm, Bool.not_true, Bool.false_eq_true, if_false, pure, EStateM.pure]
  | false =>
    obtain ⟨info, d', hflush, hk, -⟩ := hs.shelve hr hm
    refine ⟨d', ?_, hk⟩
    simp only [Engine.dieInFlush, hm, Bool.not_false, if_true, bind, EStateM.bind, withTable, hflush,
      pure, EStateM.pure]

theorem Sound.dieBeforeReset (hs : e.Sound d root h) (hl : WithinLimits d e.dir) (flushing : Bool)
    {n : Nat} (hn : nextNumber h.layers + n + 2 < bound 8) :
    ∃ d' h' tail, Engine.dieBeforeReset e flushing n d = .ok () d' ∧ Kept d' e.dir root h' tail ∧
      h'.Room ∧ (∀ key, h'.value key = h.value key) ∧ h'.log = h.log ∧
      h'.layers.length = h.layers.length + if h.log.isEmpty then 0 else flushing.toNat + n := by
  have hroom := hs.kept.room hl
  cases flushing with
  | false =>
    obtain ⟨d', h', tail, htimes, hk', hr', hvalue, hlog, hlength⟩ :=
      hs.kept.recoverTimes (n := n) (by omega) hroom.space
    refine ⟨d', h', tail, htimes, hk', hr', hvalue, hlog, ?_⟩
    rw [hlength, Bool.toNat_false, Nat.zero_add]
  | true =>
    obtain ⟨d₁, hdie, hk₁⟩ := hs.dieInFlush hroom
    have hnext : nextNumber h.replayed.layers ≤ nextNumber h.layers + 1 :=
      Holding.nextNumber_shelved_le hroom.numbers
    obtain ⟨d', h', tail, htimes, hk', hr', hvalue, hlog, hlength⟩ :=
      hk₁.recoverTimes (n := n) (by omega) hroom.space
    refine ⟨d', h', tail, ?_, hk', hr', ?_, hlog, ?_⟩
    · simp only [Engine.dieBeforeReset, if_true, bind, EStateM.bind, hdie, htimes]
    · intro key
      rw [hvalue, h.value_replayed]
    · have hshelved : h.replayed.layers.length = _ := h.length_shelved
      rw [hlength, hshelved, Bool.toNat_true]
      change _ + (if h.log.isEmpty then 0 else n) = _
      split <;> omega

/-- Dying any number of times before the journal is emptied changes no value; each time adds a
table. -/
theorem get?_of_interrupted_flushes (hr : Reachable e d ops) (hl : WithinLimits d e.dir)
    (config : Config) (flushing : Bool) {n : Nat} (hn : e.shelf.nextId + n + 2 < bound 8) :
    ∃ d₁ e' d', dieBeforeReset e flushing n d = .ok () d₁ ∧ openAt e.dir config d₁ = .ok e' d' ∧
      (∀ key, ∃ value?, e.get? d key = .ok value? ∧ e'.get? d' key = .ok value?) ∧
      e'.shelf.tables.length =
        e.shelf.tables.length + if ops.isEmpty then 0 else flushing.toNat + n + 1 := by
  obtain ⟨root, h, hs, rfl⟩ := hr.sound
  rw [hs.nextId_eq] at hn
  obtain ⟨d₁, h', tail, hdie, hk', hroom', hvalue, hlog, hlength⟩ := hs.dieBeforeReset hl flushing hn
  obtain ⟨e', d', hopen, hs', -⟩ := hk'.openAt hroom' config
  refine ⟨d₁, e', d', hdie, hopen, ?_, ?_⟩
  · intro key
    refine ⟨h.value key, hs.get? key, ?_⟩
    rw [hs'.get?, Holding.value_flushed, hvalue]
  · have hbefore : e.shelf.tables.length = h.layers.length := by
      rw [hs.shelf, shelfOf, Shelf.ofLayers, List.length_map]
    have hafter : e'.shelf.tables.length = h'.shelved.length := by
      rw [hs'.shelf, shelfOf, Shelf.ofLayers, List.length_map]
      rfl
    have hops : h.operations.isEmpty = h.log.isEmpty := by
      rw [Holding.operations, List.isEmpty_map]
    rw [hafter, hbefore, h'.length_shelved, hlength, hlog, hops]
    split <;> omega

/-- Dying in a flush and in two recoveries leaves three tables of the same value, and the fourth
recovery one more. -/
theorem get?_of_interrupted_flushes_of_put :
    ∃ e d, Reachable e d [.put [1] [2]] ∧ WithinLimits d e.dir ∧ e.shelf.nextId + 2 + 2 < bound 8 ∧
      ∃ d₁ e' d', dieBeforeReset e true 2 d = .ok () d₁ ∧ openAt e.dir {} d₁ = .ok e' d' ∧
        (∀ key, ∃ value?, e.get? d key = .ok value? ∧ e'.get? d' key = .ok value?) ∧
        e'.shelf.tables.length = 4 := by
  obtain ⟨e, d, root, h, hr, hs, hlayers, hl⟩ :=
    exists_reachable fresh_db {} [.put [1] [2]] (by decide) (by decide)
  have hnext : e.shelf.nextId + 2 + 2 < bound 8 := by
    rw [hs.nextId_eq, hlayers]
    decide
  have htables : e.shelf.tables.length = 0 := by
    rw [hs.shelf, hlayers]
    rfl
  obtain ⟨d₁, e', d', hdie, hopen, hget, hlength⟩ := get?_of_interrupted_flushes hr hl {} true hnext
  refine ⟨e, d, hr, hl, hnext, d₁, e', d', hdie, hopen, hget, ?_⟩
  rw [hlength, htables]
  rfl

end KeyedStore.Engine
