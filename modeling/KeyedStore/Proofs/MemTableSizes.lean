import KeyedStore.Proofs.LoggedFlushes

/-!
# The size of a table in memory

The running size of a table in memory is adjusted at each change by the row that comes and the row that
it replaces. Whatever is put, deleted and cleared, it is the number of bytes in the keys and values of
the rows, which are the last writes to their keys. An engine flushes its table when this size reaches the
limit; as long as no such flush fails, the table is below the limit after every step.
-/

namespace KeyedStore

/-! ### Bytes in rows -/

namespace Table

variable {rows : List Row}

/-- The bytes in the keys and values of some rows; a tombstone has those of its key only. -/
def bytesIn (rows : List Row) : Nat := (rows.map fun row => row.1.length + row.2.length).sum

@[simp] theorem bytesIn_nil : bytesIn [] = 0 := rfl

@[simp] theorem bytesIn_cons (row : Row) (rows : List Row) :
    bytesIn (row :: rows) = row.1.length + row.2.length + bytesIn rows := by
  rw [bytesIn, List.map_cons, List.sum_cons, bytesIn]

/-- The rows of other keys and the row of a key have the bytes of all rows. -/
theorem Ascending.bytesIn_filter_add (h : Ascending rows) (key : Bytes) :
    bytesIn (rows.filter (¬ key == ·.1)) + ((rows.lookup key).map (MemTable.entrySize key)).getD 0 =
      bytesIn rows := by
  induction rows with
  | nil => rfl
  | cons row rows ih =>
    obtain ⟨other, v⟩ := row
    by_cases hk : key = other
    · subst hk
      have hrest : rows.filter (¬ key == ·.1) = rows := by
        rw [List.filter_eq_self]
        intro row hrow
        simpa using h.ne_head hrow
      simp only [List.filter_cons, beq_self_eq_true, not_true_eq_false, decide_false, Bool.false_eq_true,
        if_false, hrest, List.lookup_cons_self, Option.map_some, Option.getD_some, MemTable.entrySize,
        bytesIn_cons]
      omega
    · have hb : (key == other) = false := beq_eq_false_iff_ne.2 hk
      have hrest := ih h.tail
      simp only [List.filter_cons, List.lookup_cons, hb, Bool.false_eq_true, not_false_eq_true,
        decide_true, if_true, bytesIn_cons]
      omega

end Table

/-! ### Changes -/

namespace MemTable

open Table (Ascending bytesIn)

variable {m : MemTable} {op : Operation} {c : Change} {changes : List Change} {key : Bytes} {v : Version}

/-- The running size is the number of bytes in the rows. -/
def Sized (m : MemTable) : Prop := m.size = bytesIn m.toList

theorem sized_empty : ({} : MemTable).Sized := rfl

theorem bytesIn_filter_add (m : MemTable) (key : Bytes) :
    bytesIn (m.toList.filter (¬ key == ·.1)) + (m.entries[key]?.map (entrySize key)).getD 0 =
      bytesIn m.toList := by
  have hsum := (Table.ascending_toList m.entries).bytesIn_filter_add key
  rwa [Table.lookup_toList] at hsum

/-- The row that a change replaces is counted, so that it can be taken off the running size. -/
theorem Sized.replaced_le (h : m.Sized) (key : Bytes) :
    (m.entries[key]?.map (entrySize key)).getD 0 ≤ m.size := by
  have hsum := m.bytesIn_filter_add key
  rw [h]
  omega

theorem Sized.apply (h : m.Sized) (op : Operation) : (m.apply op).Sized := by
  have hle := h.replaced_le op.key
  have hsum := m.bytesIn_filter_add op.key
  have hrows : bytesIn (m.apply op).toList =
      entrySize op.key op.version + bytesIn (m.toList.filter (¬ op.key == ·.1)) := by
    rw [bytesIn, ((toList_apply_perm m op).map _).sum_nat, List.map_cons, List.sum_cons]
    rfl
  rw [Sized] at h ⊢
  rw [hrows, apply_eq, insert]
  dsimp only
  omega

theorem Sized.change (h : m.Sized) (c : Change) : (m.change c).Sized := by
  cases c with
  | apply op => exact h.apply op
  | clear => exact sized_empty

theorem after_concat (changes : List Change) (c : Change) :
    after (changes ++ [c]) = (after changes).change c := by
  unfold after
  rw [List.foldl_append]
  rfl

theorem sized_after (changes : List Change) : (after changes).Sized := by
  induction changes using List.reverseRecOn with
  | nil => exact sized_empty
  | append_singleton changes c ih =>
    rw [after_concat]
    exact ih.change c

/-! ### Last writes -/

/-- A change that is about another key. -/
def Change.Leaves (key : Bytes) : Change → Prop
  | apply op => op.key ≠ key
  | clear => False

/-- The last of some changes that is about a key wrote a version of it. -/
def LastWrite (changes : List Change) (key : Bytes) (v : Version) : Prop :=
  ∃ before op later, changes = before ++ .apply op :: later ∧ op.key = key ∧ op.version = v ∧
    ∀ c ∈ later, c.Leaves key

theorem not_lastWrite_nil : ¬ LastWrite [] key v := by
  rintro ⟨before, op, later, hchanges, -⟩
  simp at hchanges

theorem lastWrite_concat_iff : LastWrite (changes ++ [c]) key v ↔
    (∃ op, c = .apply op ∧ op.key = key ∧ op.version = v) ∨ c.Leaves key ∧ LastWrite changes key v := by
  constructor
  · rintro ⟨before, op, later, hchanges, hkey, hversion, hlater⟩
    cases later using List.reverseRecOn with
    | nil =>
      obtain ⟨-, hlast⟩ := List.append_inj' hchanges rfl
      exact Or.inl ⟨op, List.singleton_inj.1 hlast, hkey, hversion⟩
    | append_singleton later last =>
      rw [← List.cons_append, ← List.append_assoc] at hchanges
      obtain ⟨rfl, hlast⟩ := List.append_inj' hchanges rfl
      obtain rfl := List.singleton_inj.1 hlast
      refine Or.inr ⟨hlater c (by simp), before, op, later, rfl, hkey, hversion, ?_⟩
      exact fun c' hc' => hlater c' (List.mem_append_left _ hc')
  · rintro (⟨op, rfl, hkey, hversion⟩ | ⟨hleaves, before, op, later, rfl, hkey, hversion, hlater⟩)
    · exact ⟨changes, op, [], rfl, hkey, hversion, by simp⟩
    · refine ⟨before, op, later ++ [c], by simp, hkey, hversion, ?_⟩
      exact List.forall_mem_append.2 ⟨hlater, List.forall_mem_singleton.2 hleaves⟩

/-- After changes a key has the version that the last of them wrote. -/
theorem get?_after : (after changes).get? key = some v ↔ LastWrite changes key v := by
  induction changes using List.reverseRecOn with
  | nil =>
    refine iff_of_false ?_ not_lastWrite_nil
    simp [after, get?]
  | append_singleton changes c ih =>
    rw [after_concat, lastWrite_concat_iff]
    cases c with
    | apply op =>
      rw [change, get?_apply]
      by_cases hk : op.key = key
      · simp [hk, Change.Leaves]
      · simp [hk, Change.Leaves, ih]
    | clear => simp [change, get?, Change.Leaves]

/-- What a table in memory says of itself after changes: its size is the number of bytes in its rows, no
row that a change replaces takes more than that, and its rows are the last writes to their keys, each
once and in the order of the keys. -/
structure AccountsFor (m : MemTable) (changes : List Change) : Prop where
  size : m.size = (m.toList.map fun row => row.1.length + row.2.length).sum
  replaced : ∀ key, (m.entries[key]?.map (entrySize key)).getD 0 ≤ m.size
  get? : ∀ key v, m.get? key = some v ↔ LastWrite changes key v
  ascending : Ascending m.toList
  rows : ∀ key v, (key, v) ∈ m.toList ↔ m.get? key = some v

theorem accountsFor_after (changes : List Change) : (after changes).AccountsFor changes where
  size := sized_after changes
  replaced := (sized_after changes).replaced_le
  get? _ _ := get?_after
  ascending := Table.ascending_toList _
  rows _ _ := Std.TreeMap.mem_toList_iff_getElem?_eq_some

end MemTable

/-! ### Engines -/

namespace Engine

variable {e e' : Engine} {d d' : Disk} {op : Operation} {r : Request} {s s' : Engine × Disk} {limit : Nat}

/-- The operation that an engine performs to serve a request: that of a write, and that of a removal if
the key has a value. -/
def Performs (s : Engine × Disk) : Request → Operation → Prop
  | .write key value, op => op = .put key value
  | .remove key, op => op = .delete key ∧ s.1.contains s.2 key = .ok true
  | _, _ => False

/-- An operation makes the table in memory full, and the flush that is due then fails. -/
def FailsToFlush (op : Operation) (s : Engine × Disk) : Prop :=
  ∃ s₁ cause s₂, accept op s = .ok () s₁ ∧ s₁.1.memtable.isFull s₁.1.memtableLimit = true ∧
    flush s₁ = .error cause s₂

/-- An engine with a limit for its table in memory, on its disk, in any state that it can come to as long
as every full table could be flushed. All other steps may have failed, and others may have changed the
disk in any way. -/
inductive Flushing (limit : Nat) : Engine → Disk → Prop
  | opened {d d' : Disk} {dir : Path} {config : Config} {e : Engine} (hl : config.memtableLimit = limit)
      (ho : openAt dir config d = .ok e d') : Flushing limit e d'
  | ticked {e : Engine} {d : Disk} (h : Flushing limit e d) (time : UInt64) :
      Flushing limit { e with clock := time } d
  | served {e e' : Engine} {d d' : Disk} {r : Request} (h : Flushing limit e d)
      (hf : ∀ op, Performs (e, d) r op → ¬ FailsToFlush op (e, d))
      (hs : stateAfter (Backend.serve r) (e, d) = (e', d')) : Flushing limit e' d'
  | flushed {e e' : Engine} {d d' : Disk} (h : Flushing limit e d)
      (hs : stateAfter flush (e, d) = (e', d')) : Flushing limit e' d'
  | compacted {e e' : Engine} {d d' : Disk} (h : Flushing limit e d)
      (hs : stateAfter compact (e, d) = (e', d')) : Flushing limit e' d'
  | disturbed {e : Engine} {d d' : Disk} (h : Flushing limit e d) : Flushing limit e d'

/-- The table in memory of an engine counts its bytes, and they do not reach the limit. -/
structure Below (limit : Nat) (s : Engine × Disk) : Prop where
  limit_eq : s.1.memtableLimit = limit
  sized : s.1.memtable.Sized
  lt : s.1.memtable.size < max limit 1

theorem below_of_empty (hl : s.1.memtableLimit = limit) (h : s.1.memtable = {}) : Below limit s where
  limit_eq := hl
  sized := h ▸ MemTable.sized_empty
  lt := by
    rw [h]
    exact Nat.lt_of_lt_of_le Nat.zero_lt_one (Nat.le_max_right _ _)

/-! ### Steps beside the table in memory -/

theorem preserves_onShelf_below {α : Type} (m : ShelfM α) :
    Preserves (Below limit) (onShelf m) fun _ => True := by
  apply Preserves.focus fun _ => rfl
  exact fun _ _ h => ⟨⟨h.limit_eq, h.sized, h.lt⟩, fun _ _ _ => trivial⟩

theorem preserves_onJournal_below (m : Journal.Writer → DiskM Journal.Writer) :
    Preserves (Below limit) (onJournal m) fun _ => True := by
  unfold onJournal
  refine Preserves.get.bind fun s _ => ?_
  refine Preserves.bind (Q := fun _ => True) ?_ fun journal _ =>
    .modify fun _ h => ⟨h.limit_eq, h.sized, h.lt⟩
  apply Preserves.focus fun _ => rfl
  exact fun _ _ h => ⟨⟨h.limit_eq, h.sized, h.lt⟩, fun _ _ _ => trivial⟩

theorem preserves_flush_below : Preserves (Below limit) flush fun _ => True := by
  unfold flush
  refine Preserves.get.bind ?_
  rintro ⟨e, d⟩ -
  dsimp only
  split
  · exact .pure trivial
  · refine (preserves_onShelf_below _).bind fun _ _ => ?_
    exact Preserves.bind (.modify fun _ h => below_of_empty h.limit_eq rfl) fun _ _ =>
      preserves_onJournal_below _

theorem preserves_compact_below : Preserves (Below limit) compact fun _ => True := by
  unfold compact
  refine preserves_flush_below.bind fun _ _ => ?_
  exact (preserves_onShelf_below _).bind fun _ _ => .pure trivial

/-! ### Requests -/

/-- A step of the journal changes nothing of an engine but its journal. -/
theorem onJournal_cases (m : Journal.Writer → DiskM Journal.Writer) (e : Engine) (d : Disk) :
    (∃ cause d', onJournal m (e, d) = .error cause (e, d')) ∨
    ∃ journal d', onJournal m (e, d) = .ok () ({ e with journal }, d') := by
  unfold onJournal
  rw [get_bind]
  cases hm : m e.journal d with
  | ok journal d' => exact Or.inr ⟨journal, d', bind_of_ok (focus_of_ok hm)⟩
  | error cause d' => exact Or.inl ⟨cause, d', bind_of_error (focus_of_error hm)⟩

/-- An operation is refused, or it is done to the table in memory. -/
theorem accept_cases (op : Operation) (e : Engine) (d : Disk) :
    (∃ cause d', accept op (e, d) = .error cause (e, d')) ∨
    ∃ journal d', accept op (e, d) = .ok () ({ e with journal, memtable := e.memtable.apply op }, d') := by
  unfold accept
  rw [get_bind]
  dsimp only
  rcases onJournal_cases (fun w => return (← w.append op e.clock).2) e d with
    ⟨cause, d', hjournal⟩ | ⟨journal, d', hjournal⟩
  · exact Or.inl ⟨cause, d', bind_of_error hjournal⟩
  · exact Or.inr ⟨journal, d', bind_of_ok hjournal⟩

/-- A flush that succeeds leaves nothing in memory. -/
theorem below_of_flush (hl : s.1.memtableLimit = limit) (hm : s.1.memtable.isEmpty = false)
    (h : flush s = .ok () s') : Below limit s' := by
  obtain ⟨e, d⟩ := s
  unfold flush at h
  rw [get_bind] at h
  dsimp only at h
  rw [hm, if_neg Bool.false_ne_true] at h
  obtain ⟨info, s₁, hshelf, h⟩ := bind_eq_ok.1 h
  obtain ⟨⟨shelf, d₁⟩, -, rfl⟩ := focus_eq_ok.1 hshelf
  obtain ⟨_, s₂, hmodify, h⟩ := bind_eq_ok.1 h
  cases hmodify
  have hempty : Below limit ({ e with shelf, memtable := {} }, d₁) := below_of_empty hl rfl
  exact ((preserves_onJournal_below _).ok hempty h).1

namespace Below

theorem perform (h : Below limit s) (hf : ¬ FailsToFlush op s) :
    Below limit (stateAfter (Engine.perform op) s) := by
  obtain ⟨e, d⟩ := s
  unfold Engine.perform
  rcases accept_cases op e d with ⟨cause, d', haccept⟩ | ⟨journal, d', haccept⟩
  · rw [stateAfter_bind_of_error haccept]
    exact ⟨h.limit_eq, h.sized, h.lt⟩
  · rw [stateAfter_bind_of_ok haccept]
    cases hfull : (e.memtable.apply op).isFull e.memtableLimit with
    | false =>
      have hsize : (e.memtable.apply op).size < e.memtableLimit :=
        Nat.lt_of_not_le (of_decide_eq_false hfull)
      rw [stateAfter_of_ok (flushIfFull_of_not_full d' hfull)]
      refine ⟨h.limit_eq, h.sized.apply op, ?_⟩
      exact Nat.lt_of_lt_of_le (h.limit_eq ▸ hsize) (Nat.le_max_left _ _)
    | true =>
      cases hflush : flush ({ e with journal, memtable := e.memtable.apply op }, d') with
      | error cause s₂ => exact absurd ⟨_, cause, s₂, haccept, hfull, hflush⟩ hf
      | ok _ s₂ =>
        rw [stateAfter_of_ok ((flushIfFull_of_full d' hfull).trans hflush)]
        apply below_of_flush _ _ hflush
        · exact h.limit_eq
        · exact MemTable.isEmpty_apply e.memtable op

/-- A key without a value is not removed, and a look-up that fails changes nothing. -/
theorem delete {key : Bytes} (h : Below limit s)
    (hf : s.1.contains s.2 key = .ok true → ¬ FailsToFlush (.delete key) s) :
    Below limit (stateAfter (Engine.delete key) s) := by
  obtain ⟨e, d⟩ := s
  unfold Engine.delete
  rw [stateAfter_bind_of_ok (m := MonadState.get) rfl]
  dsimp only
  cases hfound : e.contains d key with
  | error cause =>
    rw [stateAfter_bind_of_error (liftResult_of_error rfl _)]
    exact h
  | ok present =>
    rw [stateAfter_bind_of_ok (liftResult_of_ok rfl _)]
    cases present with
    | false => exact h
    | true =>
      rw [if_neg (by decide), stateAfter_bind_pure (Engine.perform (.delete key)) fun _ => Removal.removed]
      exact h.perform (hf hfound)

theorem serve (h : Below limit s) (hf : ∀ op, Performs s r op → ¬ FailsToFlush op s) :
    Below limit (stateAfter (Backend.serve r) s) := by
  cases r with
  | read key buffer =>
    have hserve : stateAfter (Backend.serve (.read key buffer)) s = s := by
      simp only [Backend.serve, Backend.read, stateAfter]
      split <;> rfl
    rwa [hserve]
  | write key value =>
    have hserve : stateAfter (Backend.serve (.write key value)) s =
        stateAfter (Engine.perform (.put key value)) s := stateAfter_bind_pure _ _ _
    rw [hserve]
    exact h.perform (hf _ rfl)
  | remove key =>
    have hserve : stateAfter (Backend.serve (.remove key)) s = stateAfter (Engine.delete key) s :=
      stateAfter_bind_pure _ _ _
    rw [hserve]
    exact h.delete fun hcontains => hf _ ⟨rfl, hcontains⟩
  | contains key =>
    have hserve : stateAfter (Backend.serve (.contains key)) s =
        stateAfter (liftResult (s.1.contains s.2 key) : EngineM Bool) s := stateAfter_bind_pure _ _ _
    rw [hserve]
    cases s.1.contains s.2 key with
    | ok present => exact h
    | error cause => exact h

end Below

theorem Flushing.stays_below (h : Flushing limit e d) : Below limit (e, d) := by
  induction h with
  | opened hl ho =>
    obtain ⟨hm, hlimit⟩ := start_of_openAt ho
    exact below_of_empty (hlimit.trans hl) hm
  | ticked _ _ ih => exact ⟨ih.limit_eq, ih.sized, ih.lt⟩
  | served _ hf hs ih => exact hs ▸ ih.serve hf
  | flushed _ hs ih => exact hs ▸ (preserves_flush_below _ ih).1
  | compacted _ hs ih => exact hs ▸ (preserves_compact_below _ ih).1
  | disturbed _ ih => exact ⟨ih.limit_eq, ih.sized, ih.lt⟩

/-- Whatever is put, deleted and cleared, a table in memory keeps account of its rows. As long as an
engine could flush every full table, the bytes in its table in memory are below the limit, or there are
none if the limit is zero. -/
theorem memtable_accounts_and_below_limit :
    (∀ changes : List MemTable.Change, (MemTable.after changes).AccountsFor changes) ∧
    ∀ limit e d, Flushing limit e d →
      e.memtable.size = Table.bytesIn e.memtable.toList ∧ e.memtable.size < max limit 1 := by
  refine ⟨MemTable.accountsFor_after, ?_⟩
  intro limit e d h
  exact ⟨h.stays_below.sized, h.stays_below.lt⟩

/-- A write of three bytes makes a table with this limit full, and it is flushed at once. -/
theorem memtable_below_limit_of_full_table :
    ∃ e d e' d', Flushing 3 e d ∧ (e.memtable.put [1] [2, 3]).size = 3 ∧
      Backend.serve (.write [1] [2, 3]) (e, d) = .ok .written (e', d') ∧ Flushing 3 e' d' ∧
      e'.shelf.tables.length = 1 ∧ e'.memtable.size = Table.bytesIn e'.memtable.toList ∧
      e'.memtable.size < max 3 1 := by
  obtain ⟨e, d, root, hopen, hs, -⟩ := openAt_of_fresh fresh_db { memtableLimit := 3 }
  have hrun : Flushing 3 e d := .opened rfl hopen
  obtain ⟨hm, hlimit⟩ := start_of_openAt hopen
  have hsize : (e.memtable.put [1] [2, 3]).size = 3 := by
    rw [hm]
    decide
  have hwithin : Holding.Within { layers := [], log := [] } 1 0 := ⟨by decide, Nat.le_refl _⟩
  have hop : (Operation.put [1] [2, 3]).Loggable := by decide
  obtain ⟨e₁, d₁, haccept, hs₁, -⟩ := hs.accept hop
  have hwithin₁ : Holding.Within _ 1 (0 + Holding.weightOf (.put [1] [2, 3])) :=
    hwithin.accept (e := e.entryOf (.put [1] [2, 3])) hop
  obtain ⟨e', d', hflush, hs', -⟩ := hs₁.flush (hwithin₁.room (by decide))
  have hfull : e₁.memtable.isFull e₁.memtableLimit = true := by
    rcases accept_cases (.put [1] [2, 3]) e d with ⟨cause, d₂, h⟩ | ⟨journal, d₂, h⟩
    · rw [haccept] at h
      contradiction
    · rw [haccept] at h
      cases h
      change decide (e.memtableLimit ≤ (e.memtable.put [1] [2, 3]).size) = true
      rw [hsize, hlimit]
      rfl
  have hperform : perform (.put [1] [2, 3]) (e, d) = .ok () (e', d') :=
    (bind_of_ok haccept).trans ((flushIfFull_of_full d₁ hfull).trans hflush)
  have hserve : Backend.serve (.write [1] [2, 3]) (e, d) = .ok .written (e', d') := bind_of_ok hperform
  have hrun' : Flushing 3 e' d' := by
    refine hrun.served ?_ (stateAfter_of_ok hserve)
    rintro op rfl ⟨s₁, cause, s₂, haccept', -, hflush'⟩
    rw [haccept] at haccept'
    cases haccept'
    rw [hflush] at hflush'
    contradiction
  have htables : e'.shelf.tables.length = 1 := by
    rw [hs'.shelf]
    rfl
  obtain ⟨hbytes, hbelow⟩ := memtable_accounts_and_below_limit.2 3 e' d' hrun'
  exact ⟨e, d, e', d', hrun, hsize, hserve, hrun', htables, hbytes, hbelow⟩

end Engine

end KeyedStore
