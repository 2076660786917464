import KeyedStore.Proofs.EngineSteps
import KeyedStore.Proofs.FreshDirectories

/-!
# Reachable states

The states that an engine reaches from a fresh directory by its own steps, and by being opened again
on whatever a crash may leave: the journal cut anywhere, a table written whose operations are still in
the journal, a merge whose old tables are not all gone. Every reachable engine is sound, and its journal
holds the operations that were accepted since the last flush.
-/

namespace KeyedStore.Engine

open Journal (Entry frames)
open KeyedStore.Shelf (Layer Keeps)
open Bytes

/-- What may be left on the disk when the process of an engine dies. -/
inductive Leftover (e : Engine) (d : Disk) : Disk → Prop
  /-- It died between two steps. -/
  | calm : Leftover e d d
  /-- It died while it wrote to the journal. -/
  | torn {n : Nat} (hn : n ≤ d.length e.journal.file) :
      Leftover e d (d.change e.journal.file (·.resize n))
  /-- It died between the writing of a table and the emptying of the journal. -/
  | shelved {info : TableInfo} {s : Shelf} {d' : Disk} (hl : WithinLimits d e.dir)
      (hf : Shelf.flush e.memtable (e.shelf, d) = .ok info (s, d')) : Leftover e d d'
  /-- It died while it removed the tables that a merge replaces. -/
  | merged {info : TableInfo} {s : Shelf} {gone kept : List Table} {d' : Disk}
      (hl : WithinLimits d e.dir) (hm : e.memtable.isEmpty = true)
      (hr : Shelf.replaceTables (e.shelf, d) = .ok (some (info, gone ++ kept)) (s, d')) :
      Leftover e d (gone.foldl (fun d t => d.discard t.path) d')
  /-- It was opened again, and died before the journal was emptied. -/
  | recovered {s : Shelf} {d' d'' : Disk} (h : Leftover e d d') (hl : WithinLimits d' e.dir)
      (hr : recoverTables e.dir d' = .ok s d'') : Leftover e d d''

/-- An engine on its disk, and the operations accepted since the last flush. -/
inductive Reachable : Engine → Disk → List Operation → Prop
  | opened {d d' : Disk} {dir : Path} {config : Config} {e : Engine} (hf : Fresh d dir)
      (ho : openAt dir config d = .ok e d') : Reachable e d' []
  | ticked {e : Engine} {d : Disk} {ops : List Operation} (h : Reachable e d ops) (time : UInt64) :
      Reachable { e with clock := time } d ops
  | accepted {e e' : Engine} {d d' : Disk} {ops : List Operation} {op : Operation}
      (h : Reachable e d ops) (ha : accept op (e, d) = .ok () (e', d')) : Reachable e' d' (ops ++ [op])
  | flushed {e e' : Engine} {d d' : Disk} {ops : List Operation} (h : Reachable e d ops)
      (hl : WithinLimits d e.dir) (hf : flush (e, d) = .ok () (e', d')) : Reachable e' d' []
  | compacted {e e' : Engine} {d d' : Disk} {ops : List Operation} (h : Reachable e d ops)
      (hl : WithinLimits d e.dir) (hc : compact (e, d) = .ok () (e', d')) : Reachable e' d' []
  | reopened {e e' : Engine} {d d' d'' : Disk} {ops : List Operation} {config : Config}
      (h : Reachable e d ops) (hleft : Leftover e d d') (hl : WithinLimits d' e.dir)
      (ho : openAt e.dir config d' = .ok e' d'') : Reachable e' d'' []

variable {d d' : Disk} {dir : Path} {root : Place} {h : Holding} {tail : Bytes} {e e' : Engine}
  {op : Operation} {ops : List Operation} {n : Nat}

/-! ### What a crash leaves -/

/-- A journal that is cut holds the entries whose frames lie in front of the cut. -/
theorem Kept.cut (hk : Kept d dir root h []) (hn : n ≤ (frames h.log).length) :
    ∃ tail, Kept (d.change (journalFile d root) (·.resize n)) dir root
      { h with log := h.log.take (Journal.framesWithin n h.operations) } tail := by
  obtain ⟨tail, hlogs⟩ := hk.logs.cut hn
  exact ⟨tail, (hk.rewrite (d.rewrites_change _ _) hlogs).1⟩

theorem Kept.room (hk : Kept d dir root h tail) (hl : WithinLimits d dir) : h.Room :=
  (hk.within hl).room (by decide)

theorem Sound.log_eq_nil (hs : e.Sound d root h) (hm : e.memtable.isEmpty = true) : h.log = [] := by
  rw [hs.memtable, isEmpty_replay] at hm
  exact List.isEmpty_iff.1 hm

/-- A merge that was written, with some of the tables that it replaces already gone. -/
theorem Sound.merge (hs : e.Sound d root h) (hl : WithinLimits d e.dir)
    (hm : e.memtable.isEmpty = true) {info : TableInfo} {s : Shelf} {gone kept : List Table}
    (hr : Shelf.replaceTables (e.shelf, d) = .ok (some (info, gone ++ kept)) (s, d')) :
    ∃ layers, Kept (gone.foldl (fun d t => d.discard t.path) d') e.dir root
      { layers, log := [] } [] := by
  have hk := hs.kept
  have hlog := hs.log_eq_nil hm
  have hshelved : h.shelved = h.layers := by rw [Holding.shelved, hlog]; rfl
  have hsound := (hk.within hl).sound_mergedRows hk.storable_shelved (by decide)
  rw [hshelved] at hsound
  rw [hs.shelf] at hr
  by_cases hlen : h.layers.length < 2
  · simp only [Shelf.replaceTables, shelfOf, Shelf.ofLayers, List.length_map, hlen, if_true, bind,
      EStateM.bind, get, getThe, MonadStateOf.get, EStateM.get, pure, EStateM.pure] at hr
    cases hr
  · obtain ⟨info', d₁, hreplace, hkeeps, hspares⟩ := hk.tables.replaceTables hlen hsound
    rw [shelfOf, hreplace] at hr
    simp only [EStateM.Result.ok.injEq, Option.some.injEq, Prod.mk.injEq] at hr
    obtain ⟨⟨-, htables⟩, -, rfl⟩ := hr
    obtain ⟨lgone, lkept, hlayers, rfl, -⟩ := List.map_eq_append_iff.1 htables
    have hsplit : Keeps d₁ (tableDir e.dir) (tablePlace root)
        ([(Shelf.nextNumber h.layers, Shelf.mergedRows h.layers)] ++ (lgone ++ lkept)) := by
      rw [← hlayers]
      exact hkeeps
    obtain ⟨d₂, hfold, hkeeps₂, hspares₂, -⟩ := hsplit.discardAll
    have hgone : (lgone.map (Shelf.layerTable d (tableDir e.dir) (tablePlace root))).foldl
        (fun d t => d.discard t.path) d₁ = d₂ := by
      rw [List.foldl_map, ← hfold]
      rfl
    rw [hgone, ← hlog]
    refine ⟨_, (hk.change_tables (hspares.trans hspares₂) hkeeps₂ ?_).1⟩
    intro l hl row hrow
    rcases List.mem_append.1 hl with hl | hl
    · rw [List.mem_singleton.1 hl] at hrow
      obtain ⟨l', hl', hrow'⟩ := Shelf.mem_of_mem_mergedRows hrow
      exact hk.fits.keys l' hl' row hrow'
    · exact hk.fits.keys l (by rw [hlayers]; exact List.mem_append_right _ hl) row hrow

/-- What a crash leaves of a sound engine is a data directory. -/
theorem Sound.kept_of_leftover (hs : e.Sound d root h) (hleft : Leftover e d d') :
    ∃ h' tail, Kept d' e.dir root h' tail := by
  induction hleft with
  | calm => exact ⟨h, [], hs.kept⟩
  | torn hn =>
    rw [hs.file, hs.kept.logs.length_eq] at hn
    rw [hs.file]
    obtain ⟨tail, hk⟩ := hs.kept.cut hn
    exact ⟨_, tail, hk⟩
  | shelved hl hf =>
    cases hm : e.memtable.isEmpty with
    | true =>
      simp only [Shelf.flush, hm, if_true, bind, EStateM.bind, throw, throwThe,
        MonadExceptOf.throw, EStateM.throw] at hf
      contradiction
    | false =>
      obtain ⟨info', d₁, hflush, hk, -⟩ := hs.shelve (hs.kept.room hl) hm
      rw [hf] at hflush
      cases hflush
      exact ⟨_, _, hk⟩
  | merged hl hm hr =>
    obtain ⟨layers, hk⟩ := hs.merge hl hm hr
    exact ⟨_, _, hk⟩
  | recovered _ hl hr ih =>
    obtain ⟨h', tail, hk⟩ := ih
    obtain ⟨d₁, tail', hrecover, hk'⟩ := hk.recoverTables (hk.room hl)
    rw [hr] at hrecover
    cases hrecover
    exact ⟨_, _, hk'⟩

theorem accept_ne_ok (hop : ¬ op.Loggable) {s : Engine × Disk} : accept op (e, d) ≠ .ok () s := by
  rw [accept_of_not_loggable hop]
  exact fun he => by cases he

/-- Every reachable engine is sound, and its journal holds the operations accepted since the last
flush. -/
theorem Reachable.sound (hr : Reachable e d ops) :
    ∃ root h, e.Sound d root h ∧ h.operations = ops := by
  -- Each step is deterministic, so the state it leads to is the sound one that its lemma gives.
  induction hr with
  | opened hf ho =>
    obtain ⟨e', d', root, hopen, hs, -⟩ := openAt_of_fresh hf _
    rw [ho] at hopen
    cases hopen
    exact ⟨root, _, hs, rfl⟩
  | ticked _ time ih =>
    obtain ⟨root, h, hs, hops⟩ := ih
    exact ⟨root, h, ⟨hs.kept, hs.shelf, hs.memtable, hs.file, hs.position⟩, hops⟩
  | @accepted e e' d d' ops op _ ha ih =>
    obtain ⟨root, h, hs, hops⟩ := ih
    by_cases hop : op.Loggable
    · obtain ⟨e₁, d₁, haccept, hs₁, -⟩ := hs.accept hop
      rw [ha] at haccept
      cases haccept
      refine ⟨root, _, hs₁, ?_⟩
      rw [Holding.operations, List.map_append, ← hops]
      rfl
    · exact absurd ha (accept_ne_ok hop)
  | flushed _ hl hf ih =>
    obtain ⟨root, h, hs, -⟩ := ih
    obtain ⟨e₁, d₁, hflush, hs₁, -⟩ := hs.flush (hs.kept.room hl)
    rw [hf] at hflush
    cases hflush
    exact ⟨root, _, hs₁, rfl⟩
  | compacted _ hl hc ih =>
    obtain ⟨root, h, hs, -⟩ := ih
    obtain ⟨e₁, d₁, hcompact, hs₁, -⟩ := hs.compact_within (hs.kept.within hl) (by decide)
    rw [hc] at hcompact
    cases hcompact
    exact ⟨root, _, hs₁, rfl⟩
  | reopened _ hleft hl ho ih =>
    obtain ⟨root, h, hs, -⟩ := ih
    obtain ⟨h', tail, hk⟩ := hs.kept_of_leftover hleft
    obtain ⟨e₁, d₁, hopen, hs₁, -⟩ := hk.openAt (hk.room hl) _
    rw [ho] at hopen
    cases hopen
    exact ⟨root, _, hs₁, rfl⟩

/-! ### The operations of an engine lead to reachable states -/

theorem Reachable.perform (hr : Reachable e d ops)
    (hl : ∀ e₁ d₁, accept op (e, d) = .ok () (e₁, d₁) → WithinLimits d₁ e₁.dir)
    (hp : perform op (e, d) = .ok () (e', d')) :
    Reachable e' d' (ops ++ [op]) ∨ Reachable e' d' [] := by
  simp only [Engine.perform, bind, EStateM.bind] at hp
  cases ha : accept op (e, d) with
  | error cause s =>
    simp only [ha] at hp
    contradiction
  | ok _ s =>
    obtain ⟨e₁, d₁⟩ := s
    have hr₁ := hr.accepted ha
    simp only [ha, flushIfFull, bind, EStateM.bind, get, getThe, MonadStateOf.get, EStateM.get] at hp
    split at hp
    · exact Or.inr (hr₁.flushed (hl e₁ d₁ ha) hp)
    · cases hp
      exact Or.inl hr₁

theorem Reachable.delete {key : Bytes} {removal : Removal} (hr : Reachable e d ops)
    (hl : ∀ e₁ d₁, accept (.delete key) (e, d) = .ok () (e₁, d₁) → WithinLimits d₁ e₁.dir)
    (hd : delete key (e, d) = .ok removal (e', d')) :
    Reachable e' d' ops ∨ Reachable e' d' (ops ++ [.delete key]) ∨ Reachable e' d' [] := by
  obtain ⟨root, h, hs, -⟩ := hr.sound
  simp only [Engine.delete, bind, EStateM.bind, get, getThe, MonadStateOf.get, EStateM.get,
    hs.contains, liftResult, pure, EStateM.pure] at hd
  split at hd
  · cases hd
    exact Or.inl hr
  · rw [EStateM.bind] at hd
    split at hd
    · next hp =>
      cases hd
      exact Or.inr (hr.perform hl hp)
    · contradiction

theorem Reachable.close (hr : Reachable e d ops) (hl : WithinLimits d e.dir)
    (hc : close (e, d) = .ok () (e', d')) :
    ∃ e₁, Reachable e₁ d' [] ∧ e' = { e₁ with journal := e₁.journal.sync } := by
  simp only [Engine.close, bind, EStateM.bind] at hc
  cases hf : flush (e, d) with
  | error cause s =>
    simp only [hf] at hc
    contradiction
  | ok _ s =>
    simp only [hf] at hc
    cases hc
    exact ⟨s.1, hr.flushed hl hf, rfl⟩

/-- From a fresh directory a state is reachable in which any given operations of little weight are in
the journal and no table is on the shelf. -/
theorem exists_reachable (hf : Fresh d dir) (config : Config) (ops : List Operation)
    (hops : ∀ op ∈ ops, op.Loggable) (hsmall : (ops.map Holding.weightOf).sum ≤ bound 8 / 16) :
    ∃ e d' root h, Reachable e d' ops ∧ e.Sound d' root h ∧ h.layers = [] ∧ WithinLimits d' e.dir := by
  have hlog : ∃ e d' root h, Reachable e d' ops ∧ e.Sound d' root h ∧ h.layers = [] ∧
      h.Within 2 (ops.map Holding.weightOf).sum := by
    clear hsmall
    induction ops using List.reverseRecOn with
    | nil =>
      obtain ⟨e, d', root, hopen, hs, -⟩ := openAt_of_fresh hf config
      exact ⟨e, d', root, _, .opened hf hopen, hs, rfl, ⟨by decide, Nat.le_refl _⟩⟩
    | append_singleton ops op ih =>
      obtain ⟨e, d', root, h, hr, hs, hlayers, hw⟩ :=
        ih fun op' hop' => hops op' (List.mem_append_left _ hop')
      have hop : op.Loggable := hops op (by simp)
      obtain ⟨e₁, d₁, haccept, hs₁, -⟩ := hs.accept hop
      have hw₁ := hw.accept (show (e.entryOf op).operation.Loggable from hop)
      refine ⟨e₁, d₁, root, _, hr.accepted haccept, hs₁, hlayers, ?_⟩
      rw [List.map_append, List.sum_append, List.map_singleton, List.sum_singleton]
      exact hw₁
  obtain ⟨e, d', root, h, hr, hs, hlayers, hw⟩ := hlog
  exact ⟨e, d', root, h, hr, hs, hlayers, hs.kept.withinLimits (hw.mono (Nat.le_refl _) hsmall)⟩

end KeyedStore.Engine
