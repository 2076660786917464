import Mathlib
import KeyedStore.Journal.Recovery
import KeyedStore.Journal.Writer
import KeyedStore.Proofs.FilesAtPaths
import KeyedStore.Proofs.JournalFrames
import KeyedStore.Proofs.Steps

/-!
# Recovering any journal

Whatever the bytes of a journal are, they begin with a longest sequence of frames. Recovery gives the
entries of these frames and cuts off what follows them, after which there is nothing left to cut;
verification reports the same and changes nothing, and a writer goes on behind the last of them.
-/

namespace KeyedStore.Journal

open Bytes

variable {bs good good' rest : Bytes} {log log' : List Entry} {d : Disk} {path : Path} {file : Nat}

/-- The longest sequence of frames at the front of a string, and their entries. -/
structure GoodPart (bs good : Bytes) (log : List Entry) : Prop where
  front : good <+: bs
  holds : Holds good log
  longest : ∀ good' log', good' <+: bs → Holds good' log' → good' <+: good ∧ log' <+: log

/-! ### Scanning -/

theorem exists_holds_append (bs : Bytes) :
    ∃ good rest log, bs = good ++ rest ∧ Holds good log ∧ Stops rest := by
  induction hn : bs.length using Nat.strongRecOn generalizing bs with
  | ind n ih =>
    by_cases hstops : Stops bs
    · exact ⟨[], bs, [], rfl, .nil, hstops⟩
    · simp only [Stops, ne_eq, Classical.not_forall, Classical.not_not] at hstops
      obtain ⟨offset, e, size, rest, hhead⟩ := hstops
      have hsize := headerSize_le_of_head_eq_entry hhead
      have hlen := length_of_head_eq_entry hhead
      obtain ⟨frame, hframe, -, rfl⟩ := isFrame_of_head hhead
      rw [headerSize] at hsize
      obtain ⟨good, rest', log, rfl, hholds, hstops⟩ := ih rest.length (by omega) rest rfl
      exact ⟨frame ++ good, rest', e :: log, by rw [List.append_assoc], .cons hframe hholds, hstops⟩

theorem eq_nil_of_head {offset : Nat} (h : head offset bs = .done) : bs = [] := by
  rw [head] at h
  split at h
  · split at h
    · next hempty => exact List.isEmpty_iff.1 hempty
    · contradiction
  · split at h
    · contradiction
    · split at h
      · contradiction
      · split at h <;> contradiction

theorem Stops.ending_scan (h : Stops rest) (offset : Nat) :
    (scan rest offset).ending = .clean ↔ rest = [] := by
  have hnil : rest = [] → head offset rest = .done := by
    rintro rfl
    rfl
  rw [scan]
  split
  · next hdone => simp [eq_nil_of_head hdone]
  · next htorn =>
    rw [htorn] at hnil
    simpa using hnil
  · next hrefused =>
    rw [hrefused] at hnil
    simpa using hnil
  · next hentry => exact absurd hentry (h _ _ _ _)

theorem Holds.ending_scan (h : Holds good log) (hr : Stops rest) :
    (scan (good ++ rest)).ending = .clean ↔ rest = [] := by
  rw [h.scan_append]
  exact hr.ending_scan _

theorem le_length_scan (bs : Bytes) (offset : Nat) : offset ≤ (scan bs offset).length := by
  obtain ⟨good, rest, log, rfl, hholds, hstops⟩ := exists_holds_append bs
  rw [hholds.scan_append]
  change _ ≤ (scan rest (offset + good.length)).length
  rw [hstops.length_scan]
  omega

/-- No sequence of frames at the front of a string reaches further than those that are scanned. -/
theorem Holds.isPrefix_scan (h : Holds good log) (hp : good <+: bs) :
    good.length ≤ (scan bs).length ∧ log <+: (scan bs).entries := by
  obtain ⟨rest, rfl⟩ := hp
  rw [h.scan_append]
  refine ⟨?_, List.prefix_append _ _⟩
  have hlength := le_length_scan rest (0 + good.length)
  rwa [Nat.zero_add] at hlength ⊢

theorem goodPart_append (h : Holds good log) (hr : Stops rest) : GoodPart (good ++ rest) good log where
  front := List.prefix_append _ _
  holds := h
  longest good' log' hp' h' := by
    obtain ⟨hlength, hlog⟩ := h'.isPrefix_scan hp'
    rw [h.length_scan hr] at hlength
    rw [h.entries_scan hr] at hlog
    exact ⟨List.prefix_of_prefix_length_le hp' (List.prefix_append _ _) hlength, hlog⟩

/-- A string has one good part. -/
theorem GoodPart.unique (h : GoodPart bs good log) (h' : GoodPart bs good' log') :
    good = good' ∧ log = log' := by
  obtain ⟨hgood, hlog⟩ := h'.longest good log h.front h.holds
  obtain ⟨hgood', hlog'⟩ := h.longest good' log' h'.front h'.holds
  exact ⟨hgood.eq_of_length_le hgood'.length_le, hlog.eq_of_length_le hlog'.length_le⟩

/-! ### Recovering -/

/-- The number of the last of some entries, zero if there is none. -/
def lastNumber (log : List Entry) : UInt64 := (log.getLast?.map Entry.lsn).getD 0

/-- What is reported on a journal whose good part holds some entries. -/
def reportOf (log : List Entry) (corrupted : Nat) (truncated : Bool) : Report where
  recovered := log.length
  corrupted
  lastLsn := lastNumber log
  truncated

theorem Holds.report_scan (h : Holds good log) (hr : Stops rest) :
    ∃ corrupted, (scan (good ++ rest)).report = reportOf log corrupted (decide (rest ≠ [])) := by
  refine ⟨if (scan (good ++ rest)).corrupted then 1 else 0, ?_⟩
  have hcut : (scan (good ++ rest)).cut = decide (rest ≠ []) := by
    rw [Scan.cut, decide_eq_decide, ne_eq, ne_eq, h.ending_scan hr]
  rw [Scan.report, hcut, Scan.lastLsn, h.entries_scan hr]
  rfl

theorem Holds.report_scan_self (h : Holds good log) : (scan good).report = reportOf log 0 false := by
  have hentries := h.entries_scan stops_nil
  have hending := (h.ending_scan stops_nil).2 rfl
  rw [List.append_nil] at hentries hending
  rw [Scan.report, Scan.corrupted, Scan.cut, Scan.lastLsn, hentries, hending]
  rfl

theorem verify_eq (hfile : d.file path = .ok file) :
    verify path d = .ok (scan (d.content file)).report d := by
  simp only [verify, bind, EStateM.bind, get, getThe, MonadStateOf.get, EStateM.get, Disk.read,
    hfile, Except.bind]
  rfl

theorem recover_of_clean (hfile : d.file path = .ok file)
    (hclean : (scan (d.content file)).ending = .clean) :
    recover path d = .ok ((scan (d.content file)).entries, (scan (d.content file)).report) d := by
  have hcut : (scan (d.content file)).cut = false := by
    rw [Scan.cut, hclean]
    rfl
  simp only [recover, bind, EStateM.bind, get, getThe, MonadStateOf.get, EStateM.get, hfile,
    liftResult, pure, EStateM.pure, hcut, Bool.false_eq_true, if_false]

theorem recover_of_not_clean (hfile : d.file path = .ok file)
    (hunclean : (scan (d.content file)).ending ≠ .clean) :
    recover path d = .ok ((scan (d.content file)).entries, (scan (d.content file)).report)
      (d.change file (·.resize (scan (d.content file)).length)) := by
  have hcut : (scan (d.content file)).cut = true := by
    rw [Scan.cut, decide_eq_true hunclean]
  simp only [recover, bind, EStateM.bind, get, getThe, MonadStateOf.get, EStateM.get, hfile,
    liftResult, pure, EStateM.pure, hcut, if_true, Disk.setLength, modify, modifyGet,
    MonadStateOf.modifyGet, EStateM.modifyGet]

theorem Writer.openAt_eq (hfile : d.file path = .ok file) (policy : SyncPolicy) :
    Writer.openAt path policy d =
      .ok { file, position := (scan (d.content file)).length,
            nextLsn := (scan (d.content file)).lastLsn + 1, policy }
        (d.change file (·.resize (scan (d.content file)).length)) := by
  simp only [Writer.openAt, bind, EStateM.bind, Disk.provide_of_file hfile, get, getThe,
    MonadStateOf.get, EStateM.get, Disk.setLength, modify, modifyGet, MonadStateOf.modifyGet,
    EStateM.modifyGet, pure, EStateM.pure]

/-- What follows the frames of a journal is gone after the file was cut behind them. -/
theorem Holds.content_cut (h : Holds good log) (hr : Stops rest) (hbs : d.content file = good ++ rest) :
    (d.change file (·.resize (scan (d.content file)).length)).content file = good := by
  have hlength : (scan (d.content file)).length = good.length := by
    rw [hbs, h.length_scan hr]
  rw [hlength, Disk.content_cut, hbs, List.take_left]
  rw [hbs, List.length_append]
  exact Nat.le_add_right _ _

theorem Holds.recover (h : Holds good log) (hr : Stops rest) (hbs : d.content file = good ++ rest)
    (hfile : d.file path = .ok file) :
    ∃ d₁, Journal.recover path d = .ok (log, (scan (d.content file)).report) d₁ ∧
      d.Rewrites d₁ file ∧ d₁.content file = good := by
  have hentries : (scan (d.content file)).entries = log := by
    rw [hbs, h.entries_scan hr]
  have hending : (scan (d.content file)).ending = .clean ↔ rest = [] := by
    rw [hbs, h.ending_scan hr]
  by_cases hrest : rest = []
  · have hrecover := recover_of_clean hfile (hending.2 hrest)
    rw [hentries] at hrecover
    rw [hrest, List.append_nil] at hbs
    exact ⟨d, hrecover, Disk.Rewrites.refl d file, hbs⟩
  · have hrecover := recover_of_not_clean hfile fun hclean => hrest (hending.1 hclean)
    rw [hentries] at hrecover
    exact ⟨_, hrecover, d.rewrites_change file _, h.content_cut hr hbs⟩

theorem Holds.recover_again (h : Holds good log) (hfile : d.file path = .ok file)
    (hcontent : d.content file = good) :
    Journal.recover path d = .ok (log, reportOf log 0 false) d := by
  have hentries := h.entries_scan stops_nil
  have hending := (h.ending_scan stops_nil).2 rfl
  have hreport := h.report_scan_self
  rw [List.append_nil] at hentries hending
  rw [← hcontent] at hentries hending hreport
  rw [recover_of_clean hfile hending, hentries, hreport]

/-! ### Writing -/

/-- What a writer does with an operation that a frame can hold, and whether it then forces the file to the
disk. -/
theorem Writer.log_of_loggable {w : Writer} {op : Operation} (hop : op.Loggable) (time : UInt64) (d : Disk) :
    let e : Entry := { lsn := w.nextLsn, operation := op, time }
    let written : Writer :=
      { w with
        position := w.position + e.frame.length, nextLsn := w.nextLsn + 1, unsynced := w.unsynced + 1 }
    w.log op time d = .ok ({ lsn := w.nextLsn, forced := written.due },
      if written.due then written.sync else written) (d.change w.file (·.writeAt w.position e.frame)) := by
  intro e written
  have hencode : e.encode = .ok e.frame := Entry.encode_of_fits (Entry.fits_iff.2 hop)
  rw [log, bind_of_ok (liftResult_of_ok hencode d)]
  rfl

theorem Writer.append_of_log {w w' : Writer} {op : Operation} {time : UInt64} {logged : Logged}
    (h : w.log op time d = .ok (logged, w') d') : w.append op time d = .ok (logged.lsn, w') d' := by
  rw [append, bind_of_ok h]
  rfl

/-- A writer that stands at the end of its file puts the frame of an operation there. -/
theorem Writer.append_of_loggable {w : Writer} {op : Operation} (hinside : w.file < d.contents.size)
    (hposition : w.position = (d.content w.file).length) (hop : op.Loggable) (time : UInt64) :
    ∃ w' d', w.append op time d = .ok (w.nextLsn, w') d' ∧ w'.file = w.file ∧
      w'.nextLsn = w.nextLsn + 1 ∧
      w'.position = (d.content w.file ++ ({ lsn := w.nextLsn, operation := op, time } : Entry).frame).length ∧
      d.Rewrites d' w.file ∧
      d'.content w.file = d.content w.file ++ ({ lsn := w.nextLsn, operation := op, time } : Entry).frame := by
  have happend := append_of_log (w.log_of_loggable hop time d)
  generalize ({ lsn := w.nextLsn, operation := op, time } : Entry) = e at happend ⊢
  refine ⟨_, _, happend, ?_, ?_, ?_, d.rewrites_change w.file _, ?_⟩
  · split <;> rfl
  · split <;> rfl
  · rw [List.length_append, ← hposition]
    split <;> rfl
  · rw [hposition, Disk.length_content, Disk.content_writeAt hinside]

theorem Writer.reset_eq (w : Writer) (d : Disk) : w.reset d =
    .ok { w with position := 0, nextLsn := 1, unsynced := 0 } (d.change w.file (·.resize 0)) := rfl

/-! ### Good parts -/

/-- Whatever the bytes of a journal are, recovery gives the entries of the longest sequence of frames at
its front and cuts off what follows them, and reports that something followed exactly if it did.
Recovering again gives the same entries and changes nothing, verification reports what recovery does, and
a writer cuts the file at the same place and goes on there with the number after the last one. -/
theorem recover_goodPart (hfile : d.file path = .ok file) (policy : SyncPolicy) :
    ∃ good log corrupted truncated d₁ d₂ w,
      GoodPart (d.content file) good log ∧
      (truncated = true ↔ good.length < (d.content file).length) ∧
      recover path d = .ok (log, reportOf log corrupted truncated) d₁ ∧
      d.Rewrites d₁ file ∧ d₁.content file = good ∧
      recover path d₁ = .ok (log, reportOf log 0 false) d₁ ∧
      verify path d = .ok (reportOf log corrupted truncated) d ∧
      Writer.openAt path policy d = .ok w d₂ ∧ d.Rewrites d₂ file ∧ d₂.content file = good ∧
      w.file = file ∧ w.position = good.length ∧
      ((lastNumber log).toNat + 1 < bound 8 → w.nextLsn.toNat = (lastNumber log).toNat + 1) := by
  obtain ⟨good, rest, log, hbs, hholds, hstops⟩ := exists_holds_append (d.content file)
  obtain ⟨d₁, hrecover, hrewrites, hcontent⟩ := hholds.recover hstops hbs hfile
  obtain ⟨corrupted, hreport⟩ := hholds.report_scan hstops
  have hgood := goodPart_append hholds hstops
  have hlength := hholds.length_scan hstops
  have hlast : (scan (good ++ rest)).lastLsn = lastNumber log := by
    rw [Scan.lastLsn, hholds.entries_scan hstops, lastNumber]
  rw [← hbs] at hreport hgood hlength hlast
  have hfile₁ : d₁.file path = .ok file := (hrewrites.file_eq path).trans hfile
  refine ⟨good, log, corrupted, decide (rest ≠ []), d₁, _, _, hgood, ?_, ?_, hrewrites, hcontent,
    hholds.recover_again hfile₁ hcontent, ?_, Writer.openAt_eq hfile policy, d.rewrites_change file _,
    hholds.content_cut hstops hbs, rfl, hlength, ?_⟩
  · rw [decide_eq_true_iff, hbs, List.length_append, ← List.length_pos_iff]
    omega
  · rw [hrecover, hreport]
  · rw [verify_eq hfile, hreport]
  · intro hbound
    rw [bound_eight] at hbound
    simp only [hlast, UInt64.toNat_add, UInt64.reduceToNat]
    omega

theorem stops_of_length_lt (hlen : rest.length < headerSize) : Stops rest := by
  intro offset e size rest' hhead
  have hsize := headerSize_le_of_head_eq_entry hhead
  have hlength := length_of_head_eq_entry hhead
  omega

/-- Of one frame and a piece of another, recovery keeps the one. -/
theorem recover_goodPart_of_torn_journal :
    ∃ (d d₁ : Disk) (e : Entry) (corrupted : Nat),
      d.file ["wal.log"] = .ok 0 ∧ d.content 0 = e.frame ++ [1, 2, 3] ∧
      recover ["wal.log"] d = .ok ([e], reportOf [e] corrupted true) d₁ ∧ d₁.content 0 = e.frame := by
  let e : Entry := { lsn := 7, operation := .put [1] [2], time := 0 }
  let d : Disk := ({} : Disk).withFile ["wal.log"] (e.frame ++ [1, 2, 3])
  have hfile : d.file ["wal.log"] = .ok 0 :=
    Disk.file_alone (.of_not_mem (by decide) (by decide) (by decide)) (by decide) _
  have hcontent : d.content 0 = e.frame ++ [1, 2, 3] := Disk.content_withFile_self
  have hholds : Holds e.frame [e] := by
    have hfits : e.Fits := Entry.fits_iff.2 (by decide)
    have hframe : Holds (e.frame ++ []) [e] := .cons hfits.isFrame .nil
    rwa [List.append_nil] at hframe
  obtain ⟨good, log, corrupted, truncated, d₁, -, -, hgood, htruncated, hrecover, -, hcontent₁, -⟩ :=
    recover_goodPart hfile .everyWrite
  rw [hcontent] at hgood htruncated
  obtain ⟨rfl, rfl⟩ := hgood.unique (goodPart_append hholds (stops_of_length_lt (by decide)))
  have htrue : truncated = true := htruncated.2 (by simp)
  rw [htrue] at hrecover
  exact ⟨d, d₁, e, corrupted, hfile, hcontent, hrecover, hcontent₁⟩

end KeyedStore.Journal
