import KeyedStore.Proofs.MemoryEquivalence
import KeyedStore.Proofs.ReachableStates
import KeyedStore.Proofs.Steps

/-!
# Directories in the way of tables

Where the next table belongs there may be a directory, which somebody else made. Then the table cannot
be written: its number is used up, the disk stays as it is, and the step fails. An engine that is
steady before is steady after, so that the states it attains are those of an engine whose steps may
fail as well as succeed.
-/

namespace KeyedStore

namespace Shelf

open Table Bytes

variable {d : Disk} {dir : Path} {place : Place} {layers : List Layer} {rows : List Row} {s : Shelf}
  {m : MemTable} {id : Nat}

theorem build_of_directory (hd : d.Reaches s.dir place 33) (hid : s.nextId < bound 8)
    (hdir : d.nodes[place ++ [tableName s.nextId]]? = some .directory) :
    build rows (s, d) = .error (.file .isDirectory) ({ s with nextId := idAfter s.nextId }, d) := by
  apply build_of_error
  exact hd.provide_of_directory (plainName_tableName hid) (utf8ByteSize_tableName_lt hid) hdir

theorem flush_of_directory (hd : d.Reaches s.dir place 33) (hid : s.nextId < bound 8)
    (hdir : d.nodes[place ++ [tableName s.nextId]]? = some .directory) (hm : m.isEmpty = false) :
    flush m (s, d) = .error (.file .isDirectory) ({ s with nextId := idAfter s.nextId }, d) := by
  apply flush_of_error hm
  exact hd.provide_of_directory (plainName_tableName hid) (utf8ByteSize_tableName_lt hid) hdir

theorem Stores.compact_of_directory (h : Stores d dir place layers) (hlen : ¬ layers.length < 2)
    (hid : id < bound 8) (hdir : d.nodes[place ++ [tableName id]]? = some .directory) :
    Shelf.compact (numbered d dir place id layers, d) =
      .error (.file .isDirectory) (numbered d dir place (idAfter id) layers, d) := by
  have hlen' : ¬ (numbered d dir place id layers).tables.length < 2 := by
    rwa [numbered, ofLayers, List.length_map]
  have hscan : (numbered d dir place id layers).tables.mapM (fun t => t.scan d) =
      .ok (layers.map Prod.snd) := h.scanTables
  have hbuild : build (live (merge (layers.map Prod.snd)).toList) (numbered d dir place id layers, d) =
      _ := build_of_directory h.reaches hid hdir
  simp only [Shelf.compact, Shelf.replaceTables, bind, EStateM.bind, get, getThe, MonadStateOf.get,
    EStateM.get, if_neg hlen', hscan, liftResult, pure, EStateM.pure, hbuild]
  rfl

/-- Under a number above those of all tables there is nothing or a directory. -/
theorem Stores.free_or_directory (h : Stores d dir place layers) (hid : id < bound 8)
    (hlt : ∀ l ∈ layers, l.1 < id) :
    d.nodes[place ++ [tableName id]]? = none ∨ d.nodes[place ++ [tableName id]]? = some .directory := by
  cases hn : d.nodes[place ++ [tableName id]]? with
  | none => exact Or.inl rfl
  | some node =>
    cases node with
    | directory => exact Or.inr rfl
    | file file =>
      obtain ⟨l, hl, hname⟩ := h.only _ file hn
      have he := tableName_inj hid (h.sound l hl).lt hname
      have := hlt l hl
      omega

end Shelf

namespace Engine

open Journal (Entry frames)
open KeyedStore.Shelf (idAfter nextNumber numbered mergedRows tableName)
open Table Bytes

variable {d d' : Disk} {dir : Path} {root : Place} {h : Holding} {tail : Bytes} {e e' : Engine}
  {op : Operation} {ops : List Operation} {n w : Nat}

/-- The engine whose next table number is used up. -/
def skipNumber (e : Engine) : Engine := { e with shelf := { e.shelf with nextId := idAfter e.shelf.nextId } }

theorem Steady.skipNumber (hs : e.Steady d root h) (hn : e.shelf.nextId + 1 < bound 8) :
    e.skipNumber.Steady d root h where
  stored := hs.stored
  shelf := by
    have hshelf := hs.shelf
    rw [numbered] at hshelf
    rw [Engine.skipNumber, hshelf]
    rfl
  below l hl := by
    change l.1 < idAfter e.shelf.nextId
    rw [Shelf.idAfter_eq hn]
    exact Nat.lt_succ_of_lt (hs.below l hl)
  memtable := hs.memtable
  file := hs.file
  position := hs.position

/-- A step leads to a state by succeeding, or by failing for a directory in its way. -/
def Leads {α : Type} (m : EngineM α) (s s' : Engine × Disk) : Prop :=
  (∃ a, m s = .ok a s') ∨ m s = .error (.file .isDirectory) s'

namespace Leads

variable {α β : Type} {m : EngineM α} {f : α → EngineM β} {s s₁ s' : Engine × Disk} {a : α}

theorem of_ok (hm : m s = .ok a s') : Leads m s s' := Or.inl ⟨a, hm⟩

theorem bind_of_ok (hm : m s = .ok a s₁) (hf : Leads (f a) s₁ s') : Leads (m >>= f) s s' := by
  rw [Leads, KeyedStore.bind_of_ok hm]
  exact hf

theorem bind_pure (hm : Leads m s s') (g : α → β) : Leads (do return g (← m)) s s' := by
  rcases hm with ⟨a, hm⟩ | hm
  · exact bind_of_ok hm (of_ok rfl)
  · exact Or.inr (bind_of_error hm)

theorem stateAfter (h : Leads m s s') : KeyedStore.stateAfter m s = s' := by
  rcases h with ⟨a, h⟩ | h
  · exact stateAfter_of_ok h
  · exact stateAfter_of_error h

end Leads

/-- An engine that followed on another by a step: it is steady, and only so many table numbers and so
much weight were added. -/
structure Follows (e e' : Engine) (d' : Disk) (root : Place) (h' : Holding) (n w : Nat) : Prop where
  steady : e'.Steady d' root h'
  dir : e'.dir = e.dir
  numbers : e'.shelf.nextId ≤ e.shelf.nextId + n
  weight : h'.weight ≤ w

theorem Steady.follows (hs : e.Steady d root h) (n : Nat) (hw : h.weight ≤ w) :
    Follows e e d root h n w :=
  ⟨hs, rfl, Nat.le_add_right _ _, hw⟩

theorem Follows.trans {e₁ : Engine} {d₁ : Disk} {h₁ h' : Holding} {n' w' : Nat}
    (hf : Follows e e₁ d₁ root h₁ n w) (hf' : Follows e₁ e' d' root h' n' w') :
    Follows e e' d' root h' (n + n') w' := by
  have hnumbers := hf.numbers
  have hnumbers' := hf'.numbers
  exact ⟨hf'.steady, hf'.dir.trans hf.dir, by omega, hf'.weight⟩

theorem headerSize_add_le (hw : h.weight ≤ w) (hsmall : w ≤ bound 8 / 3) :
    headerSize + (frames h.log).length ≤ Index.offsetLimit := by
  rw [Holding.weight] at hw
  rw [Index.offsetLimit, Index.blockSize, headerSize]
  rw [bound_eight] at hsmall ⊢
  omega

theorem Steady.flush_of_directory (hs : e.Steady d root h) (hm : e.memtable.isEmpty = false)
    (hid : e.shelf.nextId < bound 8)
    (hdir : d.nodes[tablePlace root ++ [tableName e.shelf.nextId]]? = some .directory) :
    Engine.flush (e, d) = .error (.file .isDirectory) (e.skipNumber, d) := by
  have hreaches : d.Reaches e.shelf.dir (tablePlace root) 33 := by
    rw [hs.shelf]
    exact hs.stored.tables.reaches
  have hflush := Shelf.flush_of_directory hreaches hid hdir hm
  simp only [Engine.flush, onShelf, bind, EStateM.bind, get, getThe, MonadStateOf.get, EStateM.get, hm,
    Bool.false_eq_true, if_false, focus, hflush]
  rfl

theorem Steady.flush_leads (hs : e.Steady d root h) (hn : e.shelf.nextId + 1 < bound 8)
    (hw : h.weight ≤ w) (hsmall : w ≤ bound 8 / 3) :
    ∃ e' d' h', Leads Engine.flush (e, d) (e', d') ∧ Follows e e' d' root h' 1 w ∧
      ∀ key, h'.value key = h.value key := by
  cases hm : e.memtable.isEmpty with
  | true => exact ⟨e, d, h, .of_ok (flush_of_isEmpty hm), hs.follows 1 hw, fun _ => rfl⟩
  | false =>
    have hid : e.shelf.nextId < bound 8 := Nat.lt_of_succ_lt hn
    rcases hs.stored.tables.free_or_directory hid hs.below with hfree | hdir
    · obtain ⟨e', d', hflush, hs', hdir, hnext, -⟩ :=
        hs.flush hm hn (headerSize_add_le hw hsmall) hfree
      refine ⟨e', d', _, .of_ok hflush, ⟨hs', hdir, ?_, ?_⟩, h.value_flushedAs _⟩
      · rw [hnext, Shelf.idAfter_eq hn]
      · exact Nat.le_trans (h.weight_flushedAs_le _) hw
    · exact ⟨e.skipNumber, d, h, Or.inr (hs.flush_of_directory hm hid hdir),
        ⟨hs.skipNumber hn, rfl, Nat.le_of_eq (Shelf.idAfter_eq hn), hw⟩, fun _ => rfl⟩

theorem Steady.accept_follows (hs : e.Steady d root h) (hop : op.Loggable) (hw : h.weight ≤ w) :
    ∃ e' d' h', Engine.accept op (e, d) = .ok () (e', d') ∧
      Follows e e' d' root h' 0 (w + Holding.weightOf op) ∧
      ∀ key, h'.value key = op.revise key (h.value key) := by
  obtain ⟨journal, d', haccept, hs', -⟩ := hs.accept hop
  have hweight := h.weight_accept_le (show (e.entryOf op).operation.Loggable from hop)
  exact ⟨_, d', _, haccept, ⟨hs', rfl, Nat.le_refl _, Nat.le_trans hweight (Nat.add_le_add_right hw _)⟩,
    h.value_accept (e.entryOf op)⟩

/-- Performing an operation takes effect, also if it fails. -/
theorem Steady.perform_leads (hs : e.Steady d root h) (hop : op.Loggable)
    (hn : e.shelf.nextId + 1 < bound 8) (hw : h.weight ≤ w)
    (hsmall : w + Holding.weightOf op ≤ bound 8 / 3) :
    ∃ e' d' h', Leads (Engine.perform op) (e, d) (e', d') ∧
      Follows e e' d' root h' 1 (w + Holding.weightOf op) ∧
      ∀ key, h'.value key = op.revise key (h.value key) := by
  obtain ⟨e₁, d₁, h₁, haccept, hf₁, hvalue₁⟩ := hs.accept_follows hop hw
  have hn₁ : e₁.shelf.nextId + 1 < bound 8 := Nat.lt_of_le_of_lt (Nat.succ_le_succ hf₁.numbers) hn
  cases hfull : e₁.memtable.isFull e₁.memtableLimit with
  | true =>
    obtain ⟨e₂, d₂, h₂, hflush, hf₂, hvalue₂⟩ := hf₁.steady.flush_leads hn₁ hf₁.weight hsmall
    have hflush' : Leads Engine.flushIfFull (e₁, d₁) (e₂, d₂) := by
      rwa [Leads, flushIfFull_of_full d₁ hfull]
    refine ⟨e₂, d₂, h₂, .bind_of_ok haccept hflush', Nat.zero_add 1 ▸ hf₁.trans hf₂, ?_⟩
    intro key
    rw [hvalue₂, hvalue₁]
  | false =>
    exact ⟨e₁, d₁, h₁, .bind_of_ok haccept (.of_ok (flushIfFull_of_not_full d₁ hfull)),
      hf₁.trans (hf₁.steady.follows 1 hf₁.weight), hvalue₁⟩

/-- Performing an operation fails where it fills the table in memory and a directory is in the way of the
next one. -/
theorem Steady.perform_of_directory (hs : e.Steady d root h) (hop : op.Loggable)
    (hid : e.shelf.nextId < bound 8)
    (hdir : d.nodes[tablePlace root ++ [tableName e.shelf.nextId]]? = some .directory)
    (hfull : (e.memtable.apply op).isFull e.memtableLimit = true) :
    ∃ s', Engine.perform op (e, d) = .error (.file .isDirectory) s' := by
  obtain ⟨journal, d₁, haccept, hs₁, hnodes⟩ := hs.accept hop
  rw [← hnodes] at hdir
  have hflush := hs₁.flush_of_directory (e.memtable.isEmpty_apply op) hid hdir
  rw [← flushIfFull_of_full d₁ hfull] at hflush
  exact ⟨_, (bind_of_ok haccept).trans hflush⟩

theorem Steady.delete_leads {key : Bytes} (hs : e.Steady d root h) (hn : e.shelf.nextId + 1 < bound 8)
    (hw : h.weight ≤ w) (hsmall : w + Holding.weightOf (.delete key) ≤ bound 8 / 3) :
    ∃ e' d' h', Leads (Engine.delete key) (e, d) (e', d') ∧
      Follows e e' d' root h' 1 (w + Holding.weightOf (.delete key)) ∧
      ∀ other, h'.value other = (Operation.delete key).revise other (h.value other) := by
  have hcontains : (liftResult (e.contains d key) : EngineM Bool) (e, d) =
      .ok (h.value key).isSome (e, d) := by
    rw [hs.contains]
    rfl
  cases hv : (h.value key).isSome with
  | true =>
    rw [hv] at hcontains
    obtain ⟨e', d', h', hperform, hf, hvalue⟩ :=
      hs.perform_leads (hs.stored.fits.delete hv) hn hw hsmall
    refine ⟨e', d', h', ?_, hf, hvalue⟩
    exact .bind_of_ok (m := get) rfl (.bind_of_ok hcontains (hperform.bind_pure fun _ => Removal.removed))
  | false =>
    rw [hv] at hcontains
    have hnone : h.value key = none := by simpa using hv
    refine ⟨e, d, h, ?_, hs.follows 1 (Nat.le_trans hw (Nat.le_add_right _ _)),
      fun other => (Operation.revise_delete_of_none hnone other).symm⟩
    exact .bind_of_ok (m := get) rfl (.bind_of_ok hcontains (.of_ok rfl))

/-! ### Merging -/

theorem sound_mergedRows (hs : Stored d dir root h tail) (hne : h.layers ≠ []) {id : Nat}
    (hn : id + 1 < bound 8) (hw : h.weight ≤ w) (hsmall : w ≤ bound 8 / 3) :
    Shelf.Sound (id, mergedRows h.layers) where
  numbered := hn
  storable := Shelf.storable_mergedRows fun l hl => (hs.tables.sound l hl).storable
  inReach := by
    have hend := Nat.le_trans (dataEnd_le_fileSize _) (Shelf.fileSize_mergedRows_le hne)
    rw [Holding.weight, Holding.tableSpace] at hw
    rw [Index.offsetLimit, Index.blockSize]
    rw [bound_eight] at hsmall ⊢
    dsimp only
    omega

theorem Steady.mergeTables_leads (hs : e.Steady d root h) (hn : e.shelf.nextId + 1 < bound 8)
    (hw : h.weight ≤ w) (hsmall : w ≤ bound 8 / 3) :
    ∃ e' d' h', Leads (onShelf Shelf.compact) (e, d) (e', d') ∧ Follows e e' d' root h' 1 w ∧
      ∀ key, h'.value key = h.value key := by
  have hid : e.shelf.nextId < bound 8 := Nat.lt_of_succ_lt hn
  by_cases hlen : h.layers.length < 2
  · have hnone : Shelf.compact (e.shelf, d) = .ok none (e.shelf, d) := by
      refine Shelf.compact_of_lt ?_
      rw [hs.shelf]
      rwa [numbered, Shelf.ofLayers, List.length_map]
    refine ⟨e, d, h, .of_ok (a := none) ?_, hs.follows 1 hw, fun _ => rfl⟩
    simp only [onShelf, focus, hnone]
  · have hne : h.layers ≠ [] := by
      intro he
      rw [he] at hlen
      exact hlen (by decide)
    rcases hs.stored.tables.free_or_directory hid hs.below with hfree | hdir
    · obtain ⟨info, d', hcompact, hstores, hspares⟩ := hs.stored.tables.compact hlen
        (sound_mergedRows hs.stored hne hn hw hsmall) hs.below hfree
      obtain ⟨hstored, hfile⟩ := hs.stored.change_tables hspares hstores (by
        intro l hl row hrow
        rw [List.mem_singleton.1 hl] at hrow
        obtain ⟨l', hl', hrow'⟩ := Shelf.mem_of_mem_mergedRows hrow
        exact hs.stored.keys l' hl' row hrow')
      rw [← hs.shelf] at hcompact
      refine ⟨{ e with
        shelf := numbered d' (tableDir e.dir) (tablePlace root) (idAfter e.shelf.nextId)
          [(e.shelf.nextId, mergedRows h.layers)] }, d', _, .of_ok (a := some info) ?_,
        ⟨⟨hstored, rfl, ?_, hs.memtable, hs.file.trans hfile.symm, hs.position⟩, rfl, ?_, ?_⟩, ?_⟩
      · simp only [onShelf, focus, hcompact]
      · intro l hl
        change l.1 < idAfter e.shelf.nextId
        rw [List.mem_singleton.1 hl, Shelf.idAfter_eq hn]
        exact Nat.lt_succ_self _
      · exact Nat.le_of_eq (Shelf.idAfter_eq hn)
      · have hmerged := Shelf.fileSize_mergedRows_le hne
        rw [Holding.weight, Holding.tableSpace] at hw ⊢
        rw [List.map_singleton, List.sum_singleton]
        dsimp only
        omega
      · intro key
        have hvalue := Shelf.valueIn_compacted h.layers key
        rw [Shelf.compacted, if_neg hlen, Shelf.valueIn, List.flatMap_singleton] at hvalue
        rw [Holding.value, Holding.value, Shelf.valueIn, List.flatMap_singleton]
        exact congrArg (Operation.reviseAll h.operations key) hvalue
    · have hcompact := hs.stored.tables.compact_of_directory hlen hid hdir
      rw [← hs.shelf] at hcompact
      refine ⟨e.skipNumber, d, h, Or.inr ?_, ⟨hs.skipNumber hn, rfl, ?_, hw⟩, fun _ => rfl⟩
      · simp only [onShelf, focus, hcompact]
        exact congrArg (fun shelf => EStateM.Result.error _ ({ e with shelf }, d))
          (hs.skipNumber hn).shelf.symm
      · exact Nat.le_of_eq (Shelf.idAfter_eq hn)

theorem Steady.compact_leads (hs : e.Steady d root h) (hn : e.shelf.nextId + 2 < bound 8)
    (hw : h.weight ≤ w) (hsmall : w ≤ bound 8 / 3) :
    ∃ e' d' h', Leads Engine.compact (e, d) (e', d') ∧ Follows e e' d' root h' 2 w ∧
      ∀ key, h'.value key = h.value key := by
  obtain ⟨e₁, d₁, h₁, hflush, hf₁, hvalue₁⟩ := hs.flush_leads (Nat.lt_of_succ_lt hn) hw hsmall
  rcases hflush with ⟨_, hflush⟩ | hflush
  · have hn₁ : e₁.shelf.nextId + 1 < bound 8 := Nat.lt_of_le_of_lt (Nat.succ_le_succ hf₁.numbers) hn
    obtain ⟨e₂, d₂, h₂, hmerge, hf₂, hvalue₂⟩ := hf₁.steady.mergeTables_leads hn₁ hf₁.weight hsmall
    refine ⟨e₂, d₂, h₂, .bind_of_ok hflush (hmerge.bind_pure fun _ => ()), hf₁.trans hf₂, ?_⟩
    intro key
    rw [hvalue₂, hvalue₁]
  · exact ⟨e₁, d₁, h₁, Or.inr (bind_of_error hflush), hf₁.trans (hf₁.steady.follows 1 hf₁.weight),
      hvalue₁⟩

end Engine

/-! ### Requests -/

namespace Request

/-- The operation that a request asks for, if it is to change anything. -/
def operation? : Request → Option Operation
  | write key value => some (.put key value)
  | remove key => some (.delete key)
  | _ => none

/-- The live value of a key after a request, given the one before it. -/
def revise (r : Request) (key : Bytes) (value? : Option Bytes) : Option Bytes :=
  r.operation?.elim value? fun op => op.revise key value?

end Request

namespace Engine

open Bytes

variable {d d' : Disk} {root : Place} {h : Holding} {e e' : Engine} {r : Request} {w : Nat}

/-- A request takes effect, also if it fails for a directory in its way; one that cannot be logged fails
and changes nothing. -/
theorem Steady.serve_leads (hs : e.Steady d root h) (hr : r.Loggable)
    (hn : e.shelf.nextId + 1 < bound 8) (hw : h.weight ≤ w) (hsmall : w + r.weight ≤ bound 8 / 3) :
    ∃ e' d' h', Leads (Backend.serve r) (e, d) (e', d') ∧ Follows e e' d' root h' 1 (w + r.weight) ∧
      ∀ key, h'.value key = r.revise key (h.value key) := by
  cases r with
  | read key buffer =>
    refine ⟨e, d, h, .of_ok (a := .read (.ofValue? (h.value key) buffer)) ?_, hs.follows 1 hw,
      fun _ => rfl⟩
    simp only [Backend.serve, Backend.read, hs.get?]
  | write key value =>
    obtain ⟨e', d', h', hperform, hf, hvalue⟩ := hs.perform_leads hr hn hw hsmall
    exact ⟨e', d', h', hperform.bind_pure fun _ => Answer.written, hf, hvalue⟩
  | remove key =>
    obtain ⟨e', d', h', hdelete, hf, hvalue⟩ :=
      hs.delete_leads hn hw (show w + Holding.weightOf (.delete key) ≤ bound 8 / 3 from hsmall)
    exact ⟨e', d', h', hdelete.bind_pure Answer.removal, hf, hvalue⟩
  | contains key =>
    refine ⟨e, d, h, .of_ok (a := .present (h.value key).isSome) ?_, hs.follows 1 hw, fun _ => rfl⟩
    simp only [Backend.serve, Backend.contains, bind, EStateM.bind, get, getThe, MonadStateOf.get,
      EStateM.get, hs.contains, liftResult, pure, EStateM.pure]

theorem serve_of_not_loggable (hr : ¬ r.Loggable) (e : Engine) (d : Disk) :
    ∃ length, Backend.serve r (e, d) = .error (.entryTooLarge length Journal.maxPayload) (e, d) := by
  cases r with
  | write key value =>
    have haccept := accept_of_not_loggable (show ¬ (Operation.put key value).Loggable from hr) e d
    exact ⟨_, bind_of_error (bind_of_error haccept)⟩
  | read key buffer => exact absurd trivial hr
  | remove key => exact absurd trivial hr
  | contains key => exact absurd trivial hr

end Engine

end KeyedStore
