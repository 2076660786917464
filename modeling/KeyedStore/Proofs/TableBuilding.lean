import KeyedStore.Proofs.AcceptedTables
import KeyedStore.Proofs.FilesAtPaths
import KeyedStore.Proofs.Steps

/-!
# Building and reading a table

Rows can be offered to a builder in any order. It takes those whose key is greater than every key that
it took before, and the others leave no trace. The file that it writes in the end is opened again, and
everything that is read from it, or was said about it, is about the rows that were taken.
-/

namespace KeyedStore

namespace Table

open Bytes

variable {rows : List Row} {row : Row} {key : Bytes}

theorem Storable.concat (h : Storable rows) (hlast : ∀ earlier ∈ rows, compare earlier.1 row.1 = .lt)
    (hk : row.1.length < tombstoneMark) (hv : row.2.length < tombstoneMark) :
    Storable (rows ++ [row]) where
  ascending := List.pairwise_append.2 ⟨h.ascending, List.pairwise_singleton _ _,
    fun earlier he _ ho => List.mem_singleton.1 ho ▸ hlast earlier he⟩
  lengths := List.forall_mem_append.2 ⟨h.lengths, List.forall_mem_singleton.2 ⟨hk, hv⟩⟩

/-! ### Offering rows -/

namespace Builder

variable {b : Builder}

/-- Offers rows one after another and goes on whatever the answers are; gives each row with the answer
to it. -/
def offerAll (rows : List Row) : EStateM Error Builder (List (Row × Except Error Unit)) :=
  rows.mapM fun row => return (row, ← outcome (add row))

/-- The rows among those offered that were not refused. -/
def accepted (calls : List (Row × Except Error Unit)) : List Row :=
  (calls.filter fun call => call.2.isOk).map Prod.fst

theorem accepted_append (calls calls' : List (Row × Except Error Unit)) :
    accepted (calls ++ calls') = accepted calls ++ accepted calls' := by
  rw [accepted, List.filter_append, List.map_append]
  rfl

/-- The row taken last has the greatest key. -/
theorem head_taken_lt_iff (h : Ascending b.rows) :
    (∀ last ∈ b.taken.head?, compare last.1 key = .lt) ↔
      ∀ earlier ∈ b.rows, compare earlier.1 key = .lt := by
  rw [rows] at h ⊢
  cases htaken : b.taken with
  | nil => simp
  | cons last taken =>
    rw [htaken, List.reverse_cons] at h
    obtain ⟨-, -, hbefore⟩ := List.pairwise_append.1 h
    constructor
    · intro hlast earlier he
      have hlast := hlast last rfl
      rw [List.reverse_cons] at he
      rcases List.mem_append.1 he with he | he
      · exact Std.TransCmp.lt_trans (hbefore earlier he last List.mem_cons_self) hlast
      · exact List.mem_singleton.1 he ▸ hlast
    · rintro hall last ⟨⟩
      exact hall last (by simp)

theorem check_eq_error (h : ¬ ∀ last ∈ b.taken.head?, compare last.1 row.1 = .lt) :
    b.check row = .error (.storage .keysOutOfOrder) := by
  have hany : (b.taken.head?.any fun last => (compare row.1 last.1).isLE) = true := by
    cases hhead : b.taken.head? with
    | none => simp [hhead] at h
    | some last =>
      have hle : ¬ compare last.1 row.1 = .lt := by simpa [hhead] using h
      exact not_not.1 fun hnot => hle (Std.OrientedCmp.lt_of_not_isLE hnot)
  rw [check, hany]
  rfl

/-- A row is taken exactly if its key is greater than all before; otherwise nothing changes. -/
theorem outcome_add (h : Storable b.rows) (hk : row.1.length < tombstoneMark)
    (hv : row.2.length < tombstoneMark) :
    ∃ answer b', outcome (add row) b = .ok answer b' ∧
      (answer = if ∀ earlier ∈ b.rows, compare earlier.1 row.1 = .lt then .ok ()
        else .error (.storage .keysOutOfOrder)) ∧
      b'.rows = b.rows ++ accepted [(row, answer)] ∧ Storable b'.rows := by
  have hadd : add row b = (do liftResult (b.check row); modify fun b => { taken := row :: b.taken } :
      EStateM Error Builder Unit) b := rfl
  by_cases hlast : ∀ earlier ∈ b.rows, compare earlier.1 row.1 = .lt
  · have hcheck := check_eq_ok ((head_taken_lt_iff h.ascending).2 hlast) hk hv
    have hrows : ({ taken := row :: b.taken } : Builder).rows = b.rows ++ [row] := List.reverse_cons
    refine ⟨.ok (), { taken := row :: b.taken }, ?_, (if_pos hlast).symm, hrows,
      hrows ▸ h.concat hlast hk hv⟩
    rw [outcome_eq_ok, hadd, bind_of_ok (liftResult_of_ok hcheck b)]
    rfl
  · have hcheck := check_eq_error (mt (head_taken_lt_iff h.ascending).1 hlast)
    refine ⟨.error (.storage .keysOutOfOrder), b, ?_, (if_neg hlast).symm, (List.append_nil _).symm, h⟩
    rw [outcome_eq_error, hadd, bind_of_error (liftResult_of_error hcheck b)]

theorem offerAll_cons {answer : Except Error Unit} {calls : List (Row × Except Error Unit)}
    {b₁ b₂ : Builder} (hadd : outcome (add row) b = .ok answer b₁)
    (hrest : offerAll rows b₁ = .ok calls b₂) :
    offerAll (row :: rows) b = .ok ((row, answer) :: calls) b₂ := by
  have hcall : (do return (row, ← outcome (add row)) : EStateM Error Builder _) b =
      .ok (row, answer) b₁ := by
    rw [bind_of_ok hadd]
    rfl
  rw [offerAll] at hrest ⊢
  rw [List.mapM_cons, bind_of_ok hcall, bind_of_ok hrest]
  rfl

/-- Every row that was offered after some others were taken had the right answer. -/
def Answers (taken : List Row) (calls : List (Row × Except Error Unit)) : Prop :=
  ∀ front row answer back, calls = front ++ (row, answer) :: back →
    answer = if ∀ earlier ∈ taken ++ accepted front, compare earlier.1 row.1 = .lt then .ok ()
      else .error (.storage .keysOutOfOrder)

theorem answers_nil (taken : List Row) : Answers taken [] := by
  intro front row answer back h
  simp at h

theorem Answers.cons {taken : List Row} {calls : List (Row × Except Error Unit)}
    {answer : Except Error Unit} (h : Answers (taken ++ accepted [(row, answer)]) calls)
    (hanswer : answer = if ∀ earlier ∈ taken, compare earlier.1 row.1 = .lt then .ok ()
      else .error (.storage .keysOutOfOrder)) : Answers taken ((row, answer) :: calls) := by
  intro front other other' back he
  cases front with
  | nil =>
    cases he
    rw [accepted, List.filter_nil, List.map_nil, List.append_nil]
    exact hanswer
  | cons call front =>
    cases he
    rw [← List.singleton_append, accepted_append, ← List.append_assoc]
    exact h front other other' back rfl

/-- A run over all rows takes the right ones and answers each of them. -/
theorem offerAll_eq (h : Storable b.rows)
    (hl : ∀ row ∈ rows, row.1.length < tombstoneMark ∧ row.2.length < tombstoneMark) :
    ∃ calls b', offerAll rows b = .ok calls b' ∧ calls.map Prod.fst = rows ∧
      Answers b.rows calls ∧ b'.rows = b.rows ++ accepted calls ∧ Storable b'.rows := by
  -- The answers to the later rows depend on the builder only through the rows that it has.
  induction rows generalizing b with
  | nil => exact ⟨[], b, rfl, rfl, answers_nil _, (List.append_nil _).symm, h⟩
  | cons row rows ih =>
    obtain ⟨⟨hk, hv⟩, hrest⟩ := List.forall_mem_cons.1 hl
    obtain ⟨answer, b₁, hadd, hanswer, hb₁, hs₁⟩ := outcome_add h hk hv
    obtain ⟨calls, b₂, hcalls, hmap, hanswers, hb₂, hs₂⟩ := ih hs₁ hrest
    rw [hb₁] at hanswers hb₂
    refine ⟨(row, answer) :: calls, b₂, offerAll_cons hadd hcalls, by rw [List.map_cons, hmap],
      hanswers.cons hanswer, ?_, hs₂⟩
    rw [hb₂, List.append_assoc, ← accepted_append, List.singleton_append]

end Builder

/-! ### Reading what was written -/

theorem Index.minKey?_ofRows (h : Ascending rows) :
    (Index.ofRows rows).minKey? = rows.head?.map Prod.fst := by
  cases rows with
  | nil => simp [ofRows, records, offsetMap, minKey?]
  | cons row rows =>
    refine Std.TreeMap.minKey?_eq_some_iff_mem_and_forall.2 ⟨mem_ofRows.2 (by simp), fun key hkey => ?_⟩
    obtain ⟨other, ho, rfl⟩ := List.mem_map.1 (mem_ofRows.1 hkey)
    rcases List.mem_cons.1 ho with rfl | ho
    · exact Std.ReflCmp.isLE_rfl
    · exact Ordering.isLE_of_eq_lt (List.rel_of_pairwise_cons h ho)

theorem Index.maxKey?_ofRows (h : Ascending rows) :
    (Index.ofRows rows).maxKey? = rows.getLast?.map Prod.fst := by
  rcases List.eq_nil_or_concat rows with rfl | ⟨rows, last, rfl⟩
  · simp [ofRows, records, offsetMap, maxKey?]
  · rw [List.concat_eq_append] at h ⊢
    rw [List.getLast?_append_cons]
    refine Std.TreeMap.maxKey?_eq_some_iff_mem_and_forall.2 ⟨mem_ofRows.2 (by simp), fun key hkey => ?_⟩
    obtain ⟨other, ho, rfl⟩ := List.mem_map.1 (mem_ofRows.1 hkey)
    rcases List.mem_append.1 ho with ho | ho
    · exact Ordering.isLE_of_eq_lt ((List.pairwise_append.1 h).2.2 other ho last List.mem_cons_self)
    · rw [List.mem_singleton.1 ho]
      exact Std.ReflCmp.isLE_rfl

/-- What a builder says of a table is true of the opened table and of its file. -/
structure Describes (info : TableInfo) (t : Table) (d : Disk) : Prop where
  path : info.path = t.path
  count : info.count = t.index.count
  minKey : info.minKey = t.index.minKey?.getD []
  maxKey : info.maxKey = t.index.maxKey?.getD []
  fileSize : info.fileSize = d.length t.file

variable {d d₀ : Disk} {path : Path} {file : Nat} {b : Builder} {t : Table}

/-- A builder that could make its file finishes it, and the file is opened. -/
theorem Builder.openAt_of_finish (hs : Storable b.rows) (hend : dataEnd b.rows < bound 8)
    (hd : d.Intact) (hnew : Disk.provide path d = .ok file d₀) :
    ∃ t d', b.finish path d = .ok (b.info path) d' ∧ d'.Intact ∧ openAt d' path = .ok t ∧
      t.path = path ∧ t.index = Index.ofRows b.rows ∧ d'.content t.file = encode b.rows := by
  obtain ⟨d', hwrite, hintact, hfile, hcontent⟩ := Disk.write_of_provide hd hnew b.image
  refine ⟨{ path, file, index := Index.ofRows b.rows }, d', ?_, hintact, ?_, rfl, rfl, hcontent⟩
  · rw [finish, bind_of_ok hwrite]
    rfl
  · have hopen := Index.ofBytes_encode hs hend
    rw [← image, ← hcontent] at hopen
    simp only [openAt, hfile, bind, Except.bind, hopen]
    rfl

theorem Builder.describes_info (hs : Storable b.rows) (hpath : t.path = path)
    (hindex : t.index = Index.ofRows b.rows) (hcontent : d.content t.file = encode b.rows) :
    Describes (b.info path) t d where
  path := hpath.symm
  count := by
    rw [info, hindex, Index.count, Index.ofRows, size_offsetMap hs.ascending, rows, List.length_reverse]
  minKey := by
    rw [info, hindex, Index.minKey?_ofRows hs.ascending]
  maxKey := by
    rw [info, hindex, Index.maxKey?_ofRows hs.ascending, rows, List.getLast?_reverse]
  fileSize := by
    rw [info, ← Disk.length_content, hcontent, length_encode]

open Builder in
/-- Of any rows offered in any order, exactly those are taken whose key is greater than every key taken
before. The others leave no trace: the builder is as if only these had been offered. The file that it
finishes is opened again, a scan gives the rows that were taken, a lookup what they say about the key,
and the description agrees with the table and its file. -/
theorem openAt_of_offerAll
    (hl : ∀ row ∈ rows, row.1.length < tombstoneMark ∧ row.2.length < tombstoneMark) :
    ∃ calls b, offerAll rows {} = .ok calls b ∧ calls.map Prod.fst = rows ∧ Answers [] calls ∧
      addAll (accepted calls) {} = .ok () b ∧
      ∀ d path file d₀, d.Intact → Disk.provide path d = .ok file d₀ →
        dataEnd (accepted calls) < bound 8 →
        ∃ info t d', b.finish path d = .ok info d' ∧ d'.Intact ∧ openAt d' path = .ok t ∧
          d'.content t.file = encode (accepted calls) ∧ t.scan d' = .ok (accepted calls) ∧
          (dataEnd (accepted calls) ≤ Index.offsetLimit →
            ∀ key, t.get? d' key = .ok ((accepted calls).lookup key)) ∧
          info.count = (accepted calls).length ∧ Describes info t d' := by
  have hempty : Storable ({} : Builder).rows := ⟨.nil, fun _ hm => absurd hm List.not_mem_nil⟩
  obtain ⟨calls, b, hcalls, hmap, hanswers, hb, hs⟩ := offerAll_eq hempty hl
  have hrows : b.rows = accepted calls := hb
  have hadd : addAll b.rows {} = .ok () b := by
    rw [addAll_eq_ok hs (by simp), Builder.rows, List.reverse_reverse, List.append_nil]
  refine ⟨calls, b, hcalls, hmap, hanswers, hrows ▸ hadd, ?_⟩
  rw [← hrows]
  intro d path file d₀ hd hnew hend
  obtain ⟨t, d', hfinish, hintact, hopen, hpath, hindex, hcontent⟩ := openAt_of_finish hs hend hd hnew
  refine ⟨b.info path, t, d', hfinish, hintact, hopen, hcontent, scan_eq hs hindex hcontent,
    fun hlimit => get?_eq hs hlimit hindex hcontent, ?_, describes_info hs hpath hindex hcontent⟩
  rw [info, Builder.rows, List.length_reverse]

open Builder in
/-- Of five rows, two come too late; the table holds the other three. -/
theorem openAt_of_offerAll_of_late_rows :
    ∃ (b : Builder) (info : TableInfo) (t : Table) (d : Disk),
      offerAll [([], .value []), ([98], .value [50]), ([97], .value [49]), ([99], .tombstone),
        ([99], .value [51])] {} =
        .ok [(([], .value []), .ok ()), (([98], .value [50]), .ok ()),
          (([97], .value [49]), .error (.storage .keysOutOfOrder)), (([99], .tombstone), .ok ()),
          (([99], .value [51]), .error (.storage .keysOutOfOrder))] b ∧
      b.finish ["t.sst"] {} = .ok info d ∧ openAt d ["t.sst"] = .ok t ∧
      t.scan d = .ok [([], .value []), ([98], .value [50]), ([99], .tombstone)] ∧
      t.get? d [97] = .ok none ∧ t.get? d [99] = .ok (some .tombstone) ∧ info.count = 3 := by
  have hnew : Disk.provide ["t.sst"] {} = .ok 0 (({} : Disk).insertFile ["t.sst"]) := by
    have hreaches : ({} : Disk).Reaches [] [] 200 := ⟨rfl, rfl, by decide⟩
    have hplain : PlainName "t.sst" := .of_not_mem (by decide) (by decide) (by decide)
    exact hreaches.provide_of_none hplain (by decide) (by simp)
  have hl : ∀ row ∈ ([([], .value []), ([98], .value [50]), ([97], .value [49]), ([99], .tombstone),
      ([99], .value [51])] : List Row),
      row.1.length < tombstoneMark ∧ row.2.length < tombstoneMark := by decide
  obtain ⟨calls, b, hcalls, -, -, -, hfinish⟩ := openAt_of_offerAll hl
  cases hcalls
  obtain ⟨info, t, d, hfinish, -, hopen, -, hscan, hget, hcount, -⟩ :=
    hfinish {} ["t.sst"] 0 _ Disk.intact_empty hnew (by decide)
  exact ⟨_, info, t, d, rfl, hfinish, hopen, hscan, hget (by decide) [97], hget (by decide) [99], hcount⟩

end Table

end KeyedStore
