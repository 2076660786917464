import KeyedStore.Proofs.Compactions
import KeyedStore.Proofs.JournalledEngines
import KeyedStore.Proofs.TableBuilding

/-!
# Flushing what the journal took

An operation that fits the journal has a key and a value that fit a table file, and the table in memory
keeps the keys in order. So whatever was put, deleted and cleared, no row is refused when the table is
flushed: nothing but its file can be in the way. The new table then says about every key what the table
in memory said, and the older tables stay as they are below it.
-/

namespace KeyedStore

/-! ### Changes to a table in memory -/

namespace MemTable

/-- What is done with a table in memory. -/
inductive Change where
  | apply (op : Operation)
  | clear

def change (m : MemTable) : Change → MemTable
  | .apply op => m.apply op
  | .clear => {}

/-- The table in memory after changes, one after the other. -/
def after (changes : List Change) : MemTable := changes.foldl change {}

/-- All operations fit the journal. -/
def Logged (changes : List Change) : Prop := ∀ op, .apply op ∈ changes → op.Loggable

variable {m : MemTable} {c : Change} {changes : List Change}

theorem storable_change (hm : Table.Storable m.toList) (hc : ∀ op, c = .apply op → op.Loggable) :
    Table.Storable (m.change c).toList := by
  cases c with
  | apply op => exact storable_apply hm (hc op rfl)
  | clear => exact storable_empty

theorem storable_foldl (hm : Table.Storable m.toList) (h : Logged changes) :
    Table.Storable (changes.foldl change m).toList := by
  induction changes generalizing m with
  | nil => exact hm
  | cons c changes ih =>
    apply ih _ fun op hop => h op (List.mem_cons_of_mem _ hop)
    apply storable_change hm
    rintro op rfl
    exact h op List.mem_cons_self

theorem storable_after (h : Logged changes) : Table.Storable (after changes).toList :=
  storable_foldl storable_empty h

theorem length_toList (m : MemTable) : m.toList.length = m.count := Std.TreeMap.length_toList

end MemTable

/-! ### Tables of storable rows -/

namespace Table

variable {d d₀ : Disk} {path : Path} {file : Nat} {rows : List Row}

/-- Rows that a table file can hold are written if the file can be made. -/
theorem write_of_provide (hs : Storable rows) (hend : dataEnd rows < Bytes.bound 8) (hd : d.Intact)
    (hnew : Disk.provide path d = .ok file d₀) :
    ∃ info t d', Table.write path rows d = .ok info d' ∧ Disk.write path (encode rows) d = .ok () d' ∧
      openAt d' path = .ok t ∧ t.index = Index.ofRows rows ∧ d'.content t.file = encode rows ∧
      info.count = rows.length ∧ Describes info t d' := by
  have hadd : Builder.addAll rows {} = .ok () { taken := rows.reverse } := by
    rw [Builder.addAll_eq_ok hs (by simp), List.append_nil]
  have hrows : Builder.rows { taken := rows.reverse } = rows := List.reverse_reverse rows
  have hs' : Storable (Builder.rows { taken := rows.reverse }) := hrows.symm ▸ hs
  obtain ⟨t, _, hfinish, -, hopen, hpath, hindex, hcontent⟩ :=
    Builder.openAt_of_finish hs' (hrows.symm ▸ hend) hd hnew
  obtain ⟨_, d', hwrite, hpure⟩ := bind_eq_ok.1 hfinish
  obtain ⟨-, rfl⟩ := pure_eq_ok.1 hpure
  have hdescribes := Builder.describes_info hs' hpath hindex hcontent
  rw [Builder.image, hrows] at hwrite
  rw [hrows] at hindex hcontent
  refine ⟨_, t, d', ?_, hwrite, hopen, hindex, hcontent, List.length_reverse, hdescribes⟩
  rw [Table.write, hadd]
  exact hfinish

end Table

namespace Shelf

open Table Bytes MemTable

variable {s : Shelf} {d d' : Disk} {place : Place} {layers : List Layer} {t : Table} {m : MemTable}
  {changes : List Change}

/-! ### Tables in their places -/

/-- Every table of a shelf has its file under a number below the next one, on an orderly disk. -/
structure Placed (s : Shelf) (d : Disk) : Prop where
  orderly : d.Orderly
  tables : ∀ t ∈ s.tables, ∃ id < s.nextId, t.path = tablePath s.dir id ∧ d.file t.path = .ok t.file

theorem Owns.placed (h : s.Owns d place layers) (hd : d.Orderly) : s.Placed d where
  orderly := hd
  tables t ht := by
    rw [h.tables] at ht
    obtain ⟨l, hl, rfl⟩ := List.mem_map.1 ht
    have hid := (h.keeps.sound l hl).lt
    exact ⟨l.1, h.below l hl, rfl, h.keeps.reaches.file_of_file (plainName_tableName hid)
      (utf8ByteSize_tableName_lt hid) (h.keeps.file hl).1⟩

namespace Placed

/-- Writing the next table leaves the older ones as they are. -/
theorem write_next (h : s.Placed d) (hid : s.nextId < bound 8) (ht : t ∈ s.tables) {bs : Bytes}
    (hwrite : Disk.write (tablePath s.dir s.nextId) bs d = .ok () d') :
    d'.file t.path = .ok t.file ∧ d'.content t.file = d.content t.file := by
  obtain ⟨id, hlt, hpath, hfile⟩ := h.tables t ht
  have hne : tableName s.nextId ≠ tableName id := by
    intro hname
    have he := tableName_inj hid (Nat.lt_trans hlt hid) hname
    exact absurd he (Nat.ne_of_gt hlt)
  rw [hpath, tablePath_eq] at hfile ⊢
  rw [tablePath_eq] at hwrite
  rw [← stateAfter_of_ok hwrite]
  exact h.orderly.write_ne hne hfile s.dir.base bs

theorem add (h : s.Placed d) (hid : s.nextId + 1 < bound 8) {bs : Bytes}
    (hwrite : Disk.write (tablePath s.dir s.nextId) bs d = .ok () d')
    (hopen : Table.openAt d' (tablePath s.dir s.nextId) = .ok t) :
    Placed { s with tables := t :: s.tables, nextId := s.nextId + 1 } d' where
  orderly := ((Disk.preserves_write _ bs).ok h.orderly hwrite).1
  tables t' ht' := by
    rcases List.mem_cons.1 ht' with rfl | ht'
    · have hpath := path_of_openAt hopen
      refine ⟨s.nextId, Nat.lt_succ_self _, hpath, ?_⟩
      rw [hpath]
      exact file_of_openAt hopen
    · obtain ⟨id, hlt, hpath, -⟩ := h.tables t' ht'
      exact ⟨id, Nat.lt_succ_of_lt hlt, hpath, (h.write_next (Nat.lt_of_succ_lt hid) ht' hwrite).1⟩

/-- No row is refused of a table in memory whose operations fit the journal. Its flush fails only if its
file cannot be made; otherwise the new table is on top of the older ones, which are as they were, and
says about every key what the table in memory says. -/
theorem flush_of_logged (h : s.Placed d) (hid : s.nextId + 1 < bound 8) (hlog : Logged changes)
    (hne : (after changes).isEmpty = false) :
    (∃ b, Builder.addAll (after changes).toList {} = .ok () b) ∧
    (∀ e d₀, Disk.provide (tablePath s.dir s.nextId) d = .error e d₀ → (∃ fault, e = .file fault) ∧
      flush (after changes) (s, d) = .error e ({ s with nextId := s.nextId + 1 }, d)) ∧
    ∀ file d₀, Disk.provide (tablePath s.dir s.nextId) d = .ok file d₀ →
      dataEnd (after changes).toList ≤ Index.offsetLimit →
      ∃ info t d', flush (after changes) (s, d) =
          .ok info ({ s with tables := t :: s.tables, nextId := s.nextId + 1 }, d') ∧
        (∀ key, t.get? d' key = .ok ((after changes).get? key)) ∧
        info.count = (after changes).count ∧ Describes info t d' ∧
        (∀ older ∈ s.tables, d'.file older.path = .ok older.file ∧
          d'.content older.file = d.content older.file) ∧
        Placed { s with tables := t :: s.tables, nextId := s.nextId + 1 } d' := by
  have hs := storable_after hlog
  refine ⟨⟨_, Builder.addAll_eq_ok hs (by simp)⟩, ?_, ?_⟩
  · intro e d₀ hprovide
    refine ⟨Disk.exists_fault_of_provide hprovide, ?_⟩
    rw [flush_of_error hne hprovide, Disk.provide_eq_error hprovide, idAfter_eq hid]
  · intro file d₀ hprovide hend
    have hend' : dataEnd (after changes).toList < bound 8 := Nat.lt_of_le_of_lt hend (by decide)
    obtain ⟨info, t, d', htable, hwrite, hopen, hindex, hcontent, hcount, hdescribes⟩ :=
      write_of_provide hs hend' h.orderly.intact hprovide
    have hflush := flush_of_build hne (build_of_write htable hopen)
    rw [idAfter_eq hid] at hflush
    refine ⟨info, t, d', hflush, ?_, ?_, hdescribes, ?_, h.add hid hwrite hopen⟩
    · intro key
      rw [get?_eq hs hend hindex hcontent, MemTable.lookup_toList]
    · rw [hcount, MemTable.length_toList]
    · exact fun older ho => h.write_next (Nat.lt_of_succ_lt hid) ho hwrite

/-- After another table was flushed, a key is written, all is cleared, and two other keys are written. -/
theorem flush_of_logged_of_clear :
    let changes : List Change :=
      [.apply (.put [5] [6]), .clear, .apply (.delete [1]), .apply (.put [3] [4])]
    ∃ s d file d₀ info t d', s.tables.length = 1 ∧ s.Placed d ∧ s.nextId + 1 < bound 8 ∧ Logged changes ∧
      (after changes).isEmpty = false ∧ Disk.provide (tablePath s.dir s.nextId) d = .ok file d₀ ∧
      dataEnd (after changes).toList ≤ Index.offsetLimit ∧
      flush (after changes) (s, d) =
        .ok info ({ s with tables := t :: s.tables, nextId := s.nextId + 1 }, d') ∧
      info.count = 2 ∧ t.get? d' [1] = .ok (some .tombstone) ∧ t.get? d' [3] = .ok (some (.value [4])) ∧
      t.get? d' [5] = .ok none := by
  intro changes
  have hlog₀ : Logged [.apply (.put [7] [8])] := by simp [Logged]; decide
  have hlog : Logged changes := by simp [changes, Logged]; decide
  obtain ⟨d₀, place, hopen, hkeeps₀⟩ := openAt_of_fresh (fresh_of_engine Engine.fresh_db (by decide))
  have hd₀ : On Disk.Orderly (_, d₀) := (preserves_openAt ["db"]).ok Disk.Orderly.empty hopen
  obtain ⟨d₁, hflush₁, hkeeps₁, -⟩ := hkeeps₀.flush (m := after [.apply (.put [7] [8])]) rfl
    ⟨by decide, storable_after hlog₀, by decide⟩
  have hd₁ := ((preserves_flush undisturbed_orderly _).ok hd₀ hflush₁).1.1
  have hplaced := hkeeps₁.owns.placed hd₁
  have hid : 2 + 1 < bound 8 := by decide
  have hprovide := hkeeps₁.reaches.provide_of_none (plainName_tableName (nextNumber_lt _))
    (utf8ByteSize_tableName_lt (nextNumber_lt _)) hkeeps₁.free
  have hend : dataEnd (after changes).toList ≤ Index.offsetLimit := by decide
  obtain ⟨info, t, d', hflush, hget, hcount, -⟩ :=
    (hplaced.flush_of_logged hid hlog rfl).2.2 _ _ hprovide hend
  exact ⟨_, d₁, _, _, info, t, d', rfl, hplaced, hid, hlog, rfl, hprovide, hend, hflush, hcount,
    hget [1], hget [3], hget [5]⟩

end Placed

end Shelf

end KeyedStore
