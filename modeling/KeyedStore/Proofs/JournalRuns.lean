import KeyedStore.Journal.Writer
import KeyedStore.Proofs.JournalRecovery

/-!
# Runs of a writer

A writer makes its journal from nothing. Whatever it is asked for, and also when it is opened again
after a torn frame was left behind, it stands at the end of the frames of the entries that were
accepted since the journal was last discarded, and the entries are numbered from one on.
-/

namespace KeyedStore.Journal

open Bytes

variable {d d' : Disk} {path : Path} {w w' : Writer} {log : List Entry} {e : Entry} {op : Operation}
  {time lsn : UInt64} {policy : SyncPolicy} {file : Nat} {tail : Bytes} {err : Error}

/-! ### Numbers -/

/-- Entries that are numbered from one on. The numbers have 64 bits. -/
def Numbered (log : List Entry) : Prop :=
  ∀ i (h : i < log.length), log[i].lsn = UInt64.ofNat (i + 1)

theorem numbered_nil : Numbered [] := by
  intro i h
  contradiction

theorem Numbered.concat (h : Numbered log) (he : e.lsn = UInt64.ofNat (log.length + 1)) :
    Numbered (log ++ [e]) := by
  intro i hi
  by_cases hlast : i < log.length
  · rw [List.getElem_append_left hlast]
    exact h i hlast
  · have heq : i = log.length := by
      rw [List.length_append, List.length_singleton] at hi
      omega
    subst heq
    rw [List.getElem_concat_length rfl]
    exact he

theorem Numbered.lastNumber_eq (h : Numbered log) : lastNumber log = UInt64.ofNat log.length := by
  cases log using List.reverseRecOn with
  | nil => rfl
  | append_singleton log e =>
    have hlast := h log.length (by simp)
    rw [List.getElem_concat_length rfl] at hlast
    rw [lastNumber, List.getLast?_concat, List.length_append, List.length_singleton, ← hlast]
    rfl

/-! ### Standing at the end -/

/-- A writer that stands at the end of its journal, which holds some entries and nothing else. -/
structure AtEnd (d : Disk) (path : Path) (w : Writer) (log : List Entry) : Prop where
  file : d.file path = .ok w.file
  inside : w.file < d.contents.size
  content : d.content w.file = frames log
  fits : ∀ e ∈ log, e.Fits
  numbered : Numbered log
  position : w.position = (frames log).length
  nextLsn : w.nextLsn = UInt64.ofNat (log.length + 1)

namespace AtEnd

theorem read (h : AtEnd d path w log) : d.read path = .ok (frames log) := by
  simp only [Disk.read, h.file, bind, Except.bind, h.content]
  rfl

theorem scan_content (h : AtEnd d path w log) :
    scan (d.content w.file) = { entries := log, length := (frames log).length, ending := .clean } := by
  have hholds := holds_frames h.fits
  have hscan := hholds.scan_append 0 []
  rw [List.append_nil, Nat.zero_add] at hscan
  rw [h.content, hscan, scan]
  simp

/-- Nothing but the file at the path and what it holds matters to a writer. -/
theorem frame (h : AtEnd d path w log) (hfile : d'.file path = .ok w.file)
    (hinside : w.file < d'.contents.size) (hcontent : d'.content w.file = d.content w.file) :
    AtEnd d' path w log :=
  ⟨hfile, hinside, hcontent.trans h.content, h.fits, h.numbered, h.position, h.nextLsn⟩

theorem sync (h : AtEnd d path w log) : AtEnd d path w.sync log :=
  ⟨h.file, h.inside, h.content, h.fits, h.numbered, h.position, h.nextLsn⟩

/-- Opening a journal gives a writer at the end of its frames, behind which a torn one is cut off. -/
theorem openAt (hfile : d.file path = .ok file) (hinside : file < d.contents.size)
    (hcontent : d.content file = frames log ++ tail) (hstops : Stops tail) (hfits : ∀ e ∈ log, e.Fits)
    (hnumbered : Numbered log) (h : Writer.openAt path policy d = .ok w d') :
    AtEnd d' path w log ∧ w.file = file := by
  have hholds := holds_frames hfits
  have hlength := length_scan hfits hstops
  have hentries := entries_scan hfits hstops
  rw [← hcontent] at hlength hentries
  rw [Writer.openAt_eq hfile] at h
  cases h
  refine ⟨⟨?_, ?_, ?_, hfits, hnumbered, hlength, ?_⟩, rfl⟩
  · exact ((d.rewrites_change file _).file_eq path).trans hfile
  · rw [Disk.size_change]
    exact hinside
  · exact hholds.content_cut hstops hcontent
  · have hlast := hnumbered.lastNumber_eq
    rw [lastNumber, ← hentries] at hlast
    change (scan (d.content file)).lastLsn + 1 = _
    rw [Scan.lastLsn, hlast, hentries, UInt64.ofNat_add]
    rfl

theorem append_eq (h : AtEnd d path w log) (hop : op.Loggable) (time : UInt64) :
    ∃ w' d', w.append op time d = .ok (w.nextLsn, w') d' ∧ w'.file = w.file ∧ d.Rewrites d' w.file ∧
      AtEnd d' path w' (log ++ [{ lsn := w.nextLsn, operation := op, time }]) := by
  have hposition : w.position = (d.content w.file).length := by
    rw [h.position, h.content]
  obtain ⟨w', d', happend, hfile, hlsn, hposition', hrewrites, hcontent⟩ :=
    Writer.append_of_loggable h.inside hposition hop time
  generalize he : ({ lsn := w.nextLsn, operation := op, time } : Entry) = e at *
  have hfits : e.Fits := by
    rw [← he]
    exact Entry.fits_iff.2 hop
  refine ⟨w', d', happend, hfile, hrewrites, ?_, ?_, ?_, ?_, ?_, ?_, ?_⟩
  · rw [hrewrites.file_eq, hfile, h.file]
  · rw [hfile, hrewrites.size]
    exact h.inside
  · rw [hfile, hcontent, h.content, frames_concat]
  · exact List.forall_mem_append.2 ⟨h.fits, List.forall_mem_singleton.2 hfits⟩
  · apply h.numbered.concat
    rw [← he]
    exact h.nextLsn
  · rw [hposition', h.content, frames_concat]
  · rw [hlsn, h.nextLsn, List.length_append, List.length_singleton, UInt64.ofNat_add (log.length + 1) 1]
    rfl

/-- An operation that no frame can hold is refused, and nothing changes. -/
theorem log_of_not_loggable (hop : ¬ op.Loggable) (w : Writer) (time : UInt64) (d : Disk) :
    ∃ err, w.log op time d = .error err d := by
  have hlarge : ¬ ({ lsn := w.nextLsn, operation := op, time } : Entry).Fits :=
    fun hfits => hop (Entry.fits_iff.1 hfits)
  have hencode : ({ lsn := w.nextLsn, operation := op, time } : Entry).encode = _ :=
    if_pos (Nat.lt_of_not_le hlarge)
  exact ⟨_, bind_of_error (liftResult_of_error hencode d)⟩

theorem append_of_not_loggable (hop : ¬ op.Loggable) (w : Writer) (time : UInt64) (d : Disk) :
    ∃ err, w.append op time d = .error err d := by
  obtain ⟨err, herror⟩ := log_of_not_loggable hop w time d
  exact ⟨err, bind_of_error herror⟩

theorem append (h : AtEnd d path w log) (happend : w.append op time d = .ok (lsn, w') d') :
    lsn = w.nextLsn ∧ w'.file = w.file ∧ d.Rewrites d' w.file ∧
      AtEnd d' path w' (log ++ [{ lsn, operation := op, time }]) := by
  by_cases hop : op.Loggable
  · obtain ⟨w₁, d₁, happend₁, hfile, hrewrites, hend⟩ := h.append_eq hop time
    rw [happend] at happend₁
    cases happend₁
    exact ⟨rfl, hfile, hrewrites, hend⟩
  · obtain ⟨err, herror⟩ := append_of_not_loggable hop w time d
    rw [happend] at herror
    contradiction

/-- Discarding what is in the file of a writer leaves the writer at its end. -/
theorem of_reset (hfile : d.file path = .ok w.file) (hinside : w.file < d.contents.size)
    (hreset : w.reset d = .ok w' d') : w'.file = w.file ∧ d.Rewrites d' w.file ∧ AtEnd d' path w' [] := by
  have hrewrites := d.rewrites_change w.file (·.resize 0)
  rw [Writer.reset_eq] at hreset
  cases hreset
  refine ⟨rfl, hrewrites, (hrewrites.file_eq path).trans hfile, ?_, ?_, by simp, numbered_nil, rfl, rfl⟩
  · rw [Disk.size_change]
    exact hinside
  · rw [Disk.content_resize hinside, Bytes.resize_of_le (Nat.zero_le _)]
    rfl

theorem reset (h : AtEnd d path w log) (hreset : w.reset d = .ok w' d') : AtEnd d' path w' [] :=
  (of_reset h.file h.inside hreset).2.2

end AtEnd

/-! ### Runs -/

/-- What runs of a writer lead to: the disk, the writer and the entries that it wrote since its journal
was last discarded. A run begins where there is no journal, or an empty one. Between two openings of
the journal something may have been left behind its frames that is no entry, as a torn write does. -/
inductive Written (path : Path) : Disk → Writer → List Entry → Prop
  | opened {d d' : Disk} {policy : SyncPolicy} {w : Writer} (hd : d.Intact)
      (hempty : ∀ file, d.file path = .ok file → d.content file = [])
      (h : Writer.openAt path policy d = .ok w d') : Written path d' w []
  | appended {d d' : Disk} {w w' : Writer} {log : List Entry} {op : Operation} {time lsn : UInt64}
      (hw : Written path d w log) (h : w.append op time d = .ok (lsn, w') d') :
      Written path d' w' (log ++ [{ lsn, operation := op, time }])
  | refused {d d' : Disk} {w : Writer} {log : List Entry} {op : Operation} {time : UInt64} {err : Error}
      (hw : Written path d w log) (h : w.append op time d = .error err d') : Written path d' w log
  | synced {d : Disk} {w : Writer} {log : List Entry} (hw : Written path d w log) :
      Written path d w.sync log
  | reset {d d' : Disk} {w w' : Writer} {log : List Entry} (hw : Written path d w log)
      (h : w.reset d = .ok w' d') : Written path d' w' []
  | reopened {d d₁ d' : Disk} {policy : SyncPolicy} {w w' : Writer} {log : List Entry} {tail : Bytes}
      (hw : Written path d w log) (hd : d.Rewrites d₁ w.file)
      (htail : d₁.content w.file = d.content w.file ++ tail) (hstops : Stops tail)
      (h : Writer.openAt path policy d₁ = .ok w' d') : Written path d' w' log

/-- Where a file is made, opening goes on as if it had been there. -/
theorem Writer.openAt_of_provide (hd : d.Intact) (h : Disk.provide path d = .ok file d') :
    Writer.openAt path policy d = Writer.openAt path policy d' := by
  have hagain := Disk.provide_of_file (Disk.file_of_provide hd h).1
  rw [Writer.openAt, bind_of_ok h, bind_of_ok hagain]

theorem Writer.file_of_openAt (hd : d.Intact) (h : Writer.openAt path policy d = .ok w d') :
    d'.file path = .ok w.file ∧ w.file < d'.contents.size := by
  obtain ⟨file, d₁, hprovide, -⟩ := bind_eq_ok.1 h
  obtain ⟨hfile, hinside⟩ := Disk.file_of_provide hd hprovide
  rw [Writer.openAt_of_provide hd hprovide, Writer.openAt_eq hfile] at h
  cases h
  refine ⟨((d₁.rewrites_change file _).file_eq path).trans hfile, ?_⟩
  rw [Disk.size_change]
  exact hinside

theorem AtEnd.of_openAt (hd : d.Intact) (hempty : ∀ file, d.file path = .ok file → d.content file = [])
    (h : Writer.openAt path policy d = .ok w d') : AtEnd d' path w [] := by
  obtain ⟨file, d₁, hprovide, -⟩ := bind_eq_ok.1 h
  obtain ⟨hfile, hinside⟩ := Disk.file_of_provide hd hprovide
  have hcontent := Disk.content_of_provide hempty hd hprovide
  rw [Writer.openAt_of_provide hd hprovide] at h
  exact (AtEnd.openAt hfile hinside hcontent stops_nil (by simp) numbered_nil h).1

/-- After any run a writer stands at the end of what it wrote. -/
theorem Written.atEnd (h : Written path d w log) : AtEnd d path w log := by
  induction h with
  | opened hd hempty h => exact AtEnd.of_openAt hd hempty h
  | appended _ h ih => exact (ih.append h).2.2.2
  | @refused d d' w log op time err _ h ih =>
    by_cases hop : op.Loggable
    · obtain ⟨w₁, d₁, happend, -⟩ := ih.append_eq hop time
      rw [h] at happend
      contradiction
    · obtain ⟨err, herror⟩ := AtEnd.append_of_not_loggable hop w time d
      rw [h] at herror
      cases herror
      exact ih
  | synced _ ih => exact ih.sync
  | reset _ h ih => exact ih.reset h
  | reopened _ hd htail hstops h ih =>
    have hfile := (hd.file_eq path).trans ih.file
    rw [ih.content] at htail
    refine (AtEnd.openAt hfile ?_ htail hstops ih.fits ih.numbered h).1
    rw [hd.size]
    exact ih.inside

theorem Writer.exists_openAt (hd : d.Intact) (h : Disk.provide path d = .ok file d') (policy : SyncPolicy) :
    ∃ w d', Writer.openAt path policy d = .ok w d' := by
  have hopen := Writer.openAt_eq (Disk.file_of_provide hd h).1 policy
  rw [← Writer.openAt_of_provide hd h] at hopen
  exact ⟨_, _, hopen⟩

theorem Written.exists_opened (hd : d.Intact) (hempty : ∀ file, d.file path = .ok file → d.content file = [])
    (h : Disk.provide path d = .ok file d') (policy : SyncPolicy) : ∃ w d', Written path d' w [] := by
  obtain ⟨w, d', hopen⟩ := Writer.exists_openAt hd h policy
  exact ⟨w, d', .opened hd hempty hopen⟩

theorem Written.exists_appended (hw : Written path d w log) (hop : op.Loggable) (time : UInt64) :
    ∃ w' d', Written path d' w'
      (log ++ [{ lsn := UInt64.ofNat (log.length + 1), operation := op, time }]) := by
  obtain ⟨w', d', happend, -⟩ := hw.atEnd.append_eq hop time
  have hwritten := hw.appended happend
  rw [hw.atEnd.nextLsn] at hwritten
  exact ⟨w', d', hwritten⟩

end KeyedStore.Journal
