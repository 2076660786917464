import KeyedStore.Engine
import KeyedStore.Proofs.JournalRecovery

/-!
# The journal in a data directory

The journal file holds the frames of some entries, and behind them perhaps a torn piece of a frame.
Recovery reads the entries and cuts off the torn piece, an append puts one frame behind the others, and
resetting discards them all. Nothing but the contents of that one file changes.
-/

namespace KeyedStore.Engine

open Journal (Entry frames Stops)

variable {d d' : Disk} {dir : Path} {root : Place} {log log' : List Entry} {tail tail' : Bytes}
  {w : Journal.Writer}

def journalPlace (root : Place) : Place := root ++ ["wal.log"]

def journalFile (d : Disk) (root : Place) : Nat := d.fileAt (journalPlace root)

/-- A data directory with the frames of entries in its journal, and behind them a torn piece. -/
structure Logs (d : Disk) (dir : Path) (root : Place) (log : List Entry) (tail : Bytes) : Prop where
  reaches : d.Reaches dir root 42
  node : d.nodes[journalPlace root]? = some (.file (journalFile d root))
  inside : journalFile d root < d.contents.size
  content : d.content (journalFile d root) = frames log ++ tail
  stops : Stops tail
  fits : ∀ e ∈ log, e.Fits

theorem plainName_journal : PlainName "wal.log" :=
  .of_not_mem (by decide) (by decide) (by decide)

namespace Logs

theorem file_eq (h : Logs d dir root log tail) : d.file (journalPath dir) = .ok (journalFile d root) :=
  h.reaches.file_of_file plainName_journal (by decide) h.node

theorem has_eq (h : Logs d dir root log tail) : d.has (journalPath dir) = true := by
  have hfind := h.reaches.find plainName_journal (by decide)
  rw [← journalPlace, h.node] at hfind
  rw [Disk.has, journalPath, hfind]
  rfl

theorem read_eq (h : Logs d dir root log []) : d.read (journalPath dir) = .ok (frames log) := by
  simp only [Disk.read, h.file_eq, bind, Except.bind, h.content, List.append_nil]
  rfl

theorem length_eq (h : Logs d dir root log tail) :
    d.length (journalFile d root) = (frames log).length + tail.length := by
  rw [← d.length_content, h.content, List.length_append]

theorem rewrite (h : Logs d dir root log tail) (hr : d.Rewrites d' (journalFile d root))
    (hcontent : d'.content (journalFile d root) = frames log' ++ tail') (hstops : Stops tail')
    (hfits : ∀ e ∈ log', e.Fits) : Logs d' dir root log' tail' := by
  have hfile : journalFile d' root = journalFile d root := hr.fileAt_eq _
  refine ⟨h.reaches.mono (fun p hp => hr.nodes ▸ hp) hr.here, ?_, ?_, ?_, hstops, hfits⟩
  · rw [hr.nodes, hfile, h.node]
  · rw [hr.size, hfile]
    exact h.inside
  · rw [hfile, hcontent]

theorem change (h : Logs d dir root log tail) {f : Content → Content}
    (hcontent : (d.change (journalFile d root) f).content (journalFile d root) = frames log' ++ tail')
    (hstops : Stops tail') (hfits : ∀ e ∈ log', e.Fits) :
    Logs (d.change (journalFile d root) f) dir root log' tail' :=
  h.rewrite (d.rewrites_change _ f) hcontent hstops hfits

/-- The journal depends on nothing but its name and the contents of its file. -/
theorem frame (h : Logs d dir root log tail) (hhere : d'.here = d.here)
    (hdir : ∀ p : Place, d.nodes[p]? = some .directory → d'.nodes[p]? = some .directory)
    (hnode : d'.nodes[journalPlace root]? = d.nodes[journalPlace root]?)
    (hsize : d.contents.size ≤ d'.contents.size)
    (hcontent : d'.content (journalFile d root) = d.content (journalFile d root)) :
    Logs d' dir root log tail ∧ journalFile d' root = journalFile d root := by
  have hfile : journalFile d' root = journalFile d root := by
    rw [journalFile, journalFile, Disk.fileAt, Disk.fileAt, hnode]
  refine ⟨⟨h.reaches.mono hdir hhere, ?_, ?_, ?_, h.stops, h.fits⟩, hfile⟩
  · rw [hnode, hfile, h.node]
  · rw [hfile]
    exact Nat.lt_of_lt_of_le h.inside hsize
  · rw [hfile, hcontent, h.content]

/-- What happens in a directory beside the journal leaves the journal as it is. -/
theorem spare {place : Place} (h : Logs d dir root log tail) (hs : d.Spares d' place)
    (hne : ∀ name, journalPlace root ≠ place ++ [name]) :
    Logs d' dir root log tail ∧ journalFile d' root = journalFile d root :=
  h.frame hs.here hs.directories (hs.nodes _ hne) hs.size (hs.content _ h.inside)

theorem cutTail (h : Logs d dir root log tail) :
    Logs (d.change (journalFile d root) (·.resize (frames log).length)) dir root log [] := by
  refine h.change ?_ Journal.stops_nil h.fits
  rw [Disk.content_resize h.inside, h.content, Bytes.resize_of_le, List.take_left, List.append_nil]
  rw [List.length_append]
  exact Nat.le_add_right _ _

theorem clear (h : Logs d dir root log tail) :
    Logs (d.change (journalFile d root) (·.resize 0)) dir root [] [] := by
  refine h.change ?_ Journal.stops_nil (by simp)
  rw [Disk.content_resize h.inside, Bytes.resize_of_le (Nat.zero_le _)]
  rfl

/-- A journal that is cut anywhere holds the entries whose frames lie in front of the cut. -/
theorem cut {n : Nat} (h : Logs d dir root log []) (hn : n ≤ (frames log).length) :
    ∃ tail, Logs (d.change (journalFile d root) (·.resize n)) dir root
      (log.take (Journal.framesWithin n (log.map Entry.operation))) tail := by
  obtain ⟨tail, hstops, htake⟩ := Journal.exists_take_frames h.fits n
  refine ⟨tail, h.change ?_ hstops fun e he => h.fits e (List.mem_of_mem_take he)⟩
  rw [Disk.content_resize h.inside, h.content, List.append_nil, Bytes.resize_of_le hn, htake]

/-- Reading the journal gives its entries, and cuts off the torn piece behind them. -/
theorem recover (h : Logs d dir root log tail) :
    ∃ report d' tail', Journal.recover (journalPath dir) d = .ok (log, report) d' ∧
      Logs d' dir root log tail' ∧ d.Rewrites d' (journalFile d root) := by
  have hentries := Journal.entries_scan h.fits h.stops
  have hlength := Journal.length_scan h.fits h.stops
  rw [← h.content] at hentries hlength
  refine ⟨(Journal.scan (d.content (journalFile d root))).report, ?_⟩
  by_cases hclean : (Journal.scan (d.content (journalFile d root))).ending = .clean
  · have hrecover := Journal.recover_of_clean h.file_eq hclean
    rw [hentries] at hrecover
    exact ⟨d, tail, hrecover, h, Disk.Rewrites.refl d _⟩
  · have hrecover := Journal.recover_of_not_clean h.file_eq hclean
    rw [hentries, hlength] at hrecover
    exact ⟨_, [], hrecover, h.cutTail, d.rewrites_change _ _⟩

theorem reset (h : Logs d dir root log tail) (hw : w.file = journalFile d root) :
    ∃ d', w.reset d = .ok { w with position := 0, nextLsn := 1, unsynced := 0 } d' ∧
      Logs d' dir root [] [] ∧ d.Rewrites d' (journalFile d root) := by
  refine ⟨_, ?_, h.clear, d.rewrites_change _ _⟩
  rw [Journal.Writer.reset_eq, hw]

theorem openReset (h : Logs d dir root log tail) (policy : SyncPolicy) :
    ∃ d', (do (← Journal.Writer.openAt (journalPath dir) policy).reset : DiskM Journal.Writer) d =
        .ok { file := journalFile d root, position := 0, nextLsn := 1, policy } d' ∧
      Logs d' dir root [] [] ∧ d.Rewrites d' (journalFile d root) := by
  have hopen := Journal.Writer.openAt_eq h.file_eq policy
  have hlength := Journal.length_scan h.fits h.stops
  rw [← h.content] at hlength
  rw [hlength] at hopen
  have hrewrites := d.rewrites_change (journalFile d root) (·.resize (frames log).length)
  obtain ⟨d', hreset, hempty, hrewrites'⟩ := h.cutTail.reset (w := {
    file := journalFile d root
    position := (frames log).length
    nextLsn := (Journal.scan (d.content (journalFile d root))).lastLsn + 1
    policy }) rfl
  exact ⟨d', (bind_of_ok hopen).trans hreset, hempty, hrewrites.trans hrewrites'⟩

theorem insertFile (hr : d.Reaches dir root 42) (hnone : d.nodes[journalPlace root]? = none) :
    Logs (d.insertFile (journalPlace root)) dir root [] [] := by
  have hnode := d.getElem?_nodes_insertFile_self (journalPlace root)
  have hfile : journalFile (d.insertFile (journalPlace root)) root = d.contents.size :=
    Disk.fileAt_eq hnode
  refine ⟨hr.mono (d.directory_insert _ hnone) rfl, ?_, ?_, ?_, Journal.stops_nil, by simp⟩
  · rw [hfile, hnode]
  · rw [hfile]
    simp [Disk.insertFile]
  · rw [hfile]
    simp [Disk.content, Disk.insertFile]

theorem openReset_of_none (hr : d.Reaches dir root 42) (hnone : d.nodes[journalPlace root]? = none)
    (policy : SyncPolicy) :
    ∃ d', (do (← Journal.Writer.openAt (journalPath dir) policy).reset : DiskM Journal.Writer) d =
        .ok { file := journalFile d' root, position := 0, nextLsn := 1, policy } d' ∧
      Logs d' dir root [] [] ∧
      (d.insertFile (journalPlace root)).Rewrites d'
        (journalFile (d.insertFile (journalPlace root)) root) := by
  have hlogs := insertFile hr hnone
  obtain ⟨d', hopen, hlogs', hrewrites⟩ := hlogs.openReset policy
  have hfile : journalFile d' root = journalFile (d.insertFile (journalPlace root)) root :=
    hrewrites.fileAt_eq _
  rw [← hfile] at hopen
  refine ⟨d', ?_, hlogs', hrewrites⟩
  have hfirst := hr.provide_of_none plainName_journal (by decide) hnone
  have hsecond := Disk.provide_of_file hlogs.file_eq
  rw [← journalPlace] at hfirst
  rw [show journalFile (d.insertFile (journalPlace root)) root = d.contents.size from
    Disk.fileAt_eq (d.getElem?_nodes_insertFile_self _), journalPath] at hsecond
  rw [← hopen]
  simp only [Journal.Writer.openAt, journalPath, bind, EStateM.bind, hsecond, hfirst]

theorem append {op : Operation} (h : Logs d dir root log []) (hw : w.file = journalFile d root)
    (hp : w.position = (frames log).length) (hop : op.Loggable) (time : UInt64) :
    ∃ w' d', w.append op time d = .ok (w.nextLsn, w') d' ∧ w'.file = w.file ∧
      w'.position = (frames (log ++ [{ lsn := w.nextLsn, operation := op, time }])).length ∧
      Logs d' dir root (log ++ [{ lsn := w.nextLsn, operation := op, time }]) [] ∧
      d.Rewrites d' (journalFile d root) := by
  rw [← hw]
  have hcontent : d.content w.file = frames log := by
    rw [hw, h.content, List.append_nil]
  have hposition : w.position = (d.content w.file).length := by
    rw [hp, hcontent]
  obtain ⟨w', d', happend, hfile, -, hposition', hrewrites, hcontent'⟩ :=
    Journal.Writer.append_of_loggable (hw ▸ h.inside) hposition hop time
  generalize he : ({ lsn := w.nextLsn, operation := op, time } : Entry) = e at *
  have hfits : e.Fits := by
    rw [← he]
    exact Journal.Entry.fits_iff.2 hop
  rw [hcontent, ← Journal.frames_concat] at hposition' hcontent'
  refine ⟨w', d', happend, hfile, hposition', h.rewrite (hw ▸ hrewrites) ?_ Journal.stops_nil ?_, hrewrites⟩
  · rw [← hw, hcontent', List.append_nil]
  · exact List.forall_mem_append.2 ⟨h.fits, List.forall_mem_singleton.2 hfits⟩

end Logs

end KeyedStore.Engine
