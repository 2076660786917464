import KeyedStore.Proofs.AttainedStates

/-!
# Failed writes

A write goes to the journal and to the table in memory before that table may have to be flushed. If the
flush fails, so does the write, but it has taken effect already and is not taken back. Only a write that
the journal refuses changes nothing.
-/

namespace KeyedStore.Engine

open KeyedStore.Shelf (tableName)
open Bytes

variable {d d' : Disk} {dir : Path} {root : Place} {h : Holding} {e e' : Engine} {r : Request}
  {config : Config} {cause : Error}

/-- An engine starts with nothing in memory, under the limit that is asked for. -/
theorem start_of_openAt (ho : openAt dir config d = .ok e d') :
    e.memtable = {} ∧ e.memtableLimit = config.memtableLimit := by
  obtain ⟨shelf, d₁, -, ho⟩ := bind_eq_ok.1 ho
  obtain ⟨writer, d₂, -, ho⟩ := bind_eq_ok.1 ho
  obtain ⟨journal, d₃, -, ho⟩ := bind_eq_ok.1 ho
  obtain ⟨rfl, -⟩ := pure_eq_ok.1 ho
  exact ⟨rfl, rfl⟩

/-- A write or a removal that fails has changed nothing if it does not fit the journal. Otherwise a
directory was in the way of the next table, and every key has the value that it would have had if the
request had succeeded. -/
theorem get?_of_failed_request (ha : Attained e d) (hr : HasRoom e d)
    (hf : Backend.serve r (e, d) = .error cause (e', d')) :
    (¬ r.Loggable ∧ (∃ length, cause = .entryTooLarge length Journal.maxPayload) ∧
      (e', d') = (e, d)) ∨
    (r.Loggable ∧ cause = .file .isDirectory ∧
      ∀ key, ∃ before?, e.get? d key = .ok before? ∧ e'.get? d' key = .ok (r.revise key before?)) := by
  obtain ⟨root, h, hs⟩ := ha.steady
  by_cases hlog : r.Loggable
  · have hsmall : bound 8 / 4 + r.weight ≤ bound 8 / 3 :=
      Nat.le_trans (Nat.add_le_add_left (Step.weight_le (.request r)) _) (by decide)
    obtain ⟨e₁, d₁, h₁, hleads, hf₁, hvalue⟩ :=
      hs.serve_leads hlog (by have := hr.numbers; omega) (hr.weight_le hs) hsmall
    rcases hleads with ⟨answer, hok⟩ | herror
    · rw [hf] at hok
      contradiction
    · rw [hf] at herror
      cases herror
      refine Or.inr ⟨hlog, rfl, ?_⟩
      intro key
      refine ⟨h.value key, hs.get? key, ?_⟩
      rw [hf₁.steady.get?, hvalue]
  · obtain ⟨length, hserve⟩ := serve_of_not_loggable hlog e d
    rw [hf] at hserve
    cases hserve
    exact Or.inl ⟨hlog, ⟨length, rfl⟩, rfl⟩

/-- A write that fails for a directory in the way of the first table can be read afterwards. -/
theorem get?_of_failed_write_of_put :
    ∃ e d e' d', Attained e d ∧ HasRoom e d ∧
      Backend.serve (.write [1] [2]) (e, d) = .error (.file .isDirectory) (e', d') ∧
      e.get? d [1] = .ok none ∧ e'.get? d' [1] = .ok (some [2]) := by
  obtain ⟨e, d, root, hopen, hsound, -⟩ := openAt_of_fresh fresh_db { memtableLimit := 1 }
  have hs := hsound.steady
  have hnext : e.shelf.nextId = 1 := hsound.nextId_eq
  have hmake := hs.stored.makeDirectory_eq (by decide : 1 < bound 8)
  have hfree := hsound.free
  rw [hnext] at hfree
  rw [hfree] at hmake
  have ha : Attained e (d.withDirectory (tablePlace root ++ [tableName 1])) :=
    (Attained.reached (.opened fresh_db hopen)).obstructed (by decide) hmake
  have hs' := hs.obstruct (by decide) hmake
  have hdir : (d.withDirectory (tablePlace root ++ [tableName 1])).nodes[tablePlace root ++
      [tableName 1]]? = some .directory := Disk.getElem?_nodes_withDirectory_self
  generalize d.withDirectory (tablePlace root ++ [tableName 1]) = d₁ at *
  have hroom : HasRoom e d₁ :=
    ⟨by rw [hnext]; decide, hs'.stored.withinLimits ⟨by decide, by decide⟩⟩
  have hfull : (e.memtable.apply (.put [1] [2])).isFull e.memtableLimit = true := by
    rw [hs.memtable, (start_of_openAt hopen).2]
    decide
  rw [← hnext] at hdir
  obtain ⟨⟨e', d'⟩, hperform⟩ :=
    hs'.perform_of_directory (by decide) (by rw [hnext]; decide) hdir hfull
  have hserve : Backend.serve (.write [1] [2]) (e, d₁) = .error (.file .isDirectory) (e', d') :=
    bind_of_error hperform
  refine ⟨e, d₁, e', d', ha, hroom, hserve, hs'.get? [1], ?_⟩
  rcases get?_of_failed_request ha hroom hserve with ⟨hlog, -⟩ | ⟨-, -, hget⟩
  · exact absurd (by decide : (Operation.put [1] [2]).Loggable) hlog
  · obtain ⟨before?, -, hafter⟩ := hget [1]
    rw [hafter]
    rfl

end KeyedStore.Engine
