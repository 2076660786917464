import KeyedStore.Proofs.EntryCodec
import KeyedStore.Proofs.JournalRuns

/-!
# Calls of a writer

Every sequence of calls of a writer succeeds, and the journal holds the frames of the entries that were
appended since it was last emptied, and nothing else. The entries have the numbers that were returned for
them, and a reader gets them back. A piece of a frame that was left behind before the journal is opened
again makes no difference. The writer counts the entries that wait to be forced to the disk, of which
there are never as many as its policy asks for.
-/

namespace KeyedStore.Journal

open Bytes

variable {d d' : Disk} {path : Path} {w w' : Writer} {log : List Entry} {op : Operation}
  {time lsn : UInt64} {policy : SyncPolicy} {piece : Bytes} {α : Type}

/-! ### Calls -/

/-- What is done with a writer. Before a journal is opened again, a write that was cut short may have left
a piece of a frame at its end. -/
inductive Call where
  | append (op : Operation) (time : UInt64)
  | sync
  | reset
  | reopen (policy : SyncPolicy) (piece : Bytes)

/-- What a call comes to: an entry was appended under the number that was returned, the journal was forced
to the disk, opened or emptied. -/
inductive Event where
  | appended (e : Entry)
  | forced
  | opened
  | emptied

/-- Steps of a writer on its disk. -/
abbrev WriterM := EStateM Error (Writer × Disk)

/-- Runs a step of a writer that gives the writer after it. -/
def onWriter (m : Writer → DiskM (α × Writer)) : WriterM α := fun (w, d) =>
  match m w d with
  | .ok (a, w') d' => .ok a (w', d')
  | .error err d' => .error err (w, d')

/-- Runs a call and gives what it comes to; an entry that is refused comes to nothing. Whether the journal
was forced to the disk for an entry is what the writer reports. -/
def Call.run (path : Path) : Call → WriterM (List Event)
  | append op time => do
    match ← outcome (onWriter (·.log op time)) with
    | .ok { lsn, forced } =>
      let e : Entry := { lsn, operation := op, time }
      return if forced then [.appended e, .forced] else [.appended e]
    | .error _ => return []
  | sync => do
    modify fun (w, d) => (w.sync, d)
    return [.forced]
  | reset => do
    onWriter fun w => return ((), ← w.reset)
    return [.emptied]
  | reopen policy piece => do
    onWriter fun w => do
      Disk.writeAt w.file ((← get).length w.file) piece
      return ((), ← Writer.openAt path policy)
    return [.opened]

/-- Runs calls one after the other and gives all that they come to. -/
def runAll (path : Path) : List Call → WriterM (List Event)
  | [] => return []
  | c :: calls => do
    let events ← c.run path
    return events ++ (← runAll path calls)

/-- A piece of a frame of which a part is missing; the payload of the frame may be anything. -/
def Torn (piece : Bytes) : Prop :=
  ∃ lsn payload, payload.length ≤ maxPayload ∧ piece <+: encodeFrame lsn payload ∧
    piece ≠ encodeFrame lsn payload

/-- A call leaves nothing behind but a piece of a frame. -/
def Call.Allowed : Call → Prop
  | reopen _ piece => Torn piece
  | _ => True

/-! ### Traces -/

/-- The entry that was appended, if one was. -/
def Event.entry? : Event → Option Entry
  | appended e => some e
  | _ => none

/-- The entries that were appended since the journal was last emptied. -/
def written (trace : List Event) : List Entry :=
  (trace.rtakeWhile fun event => !(event matches .emptied)).filterMap Event.entry?

/-- How many entries were appended last, after the journal was forced to the disk, opened or emptied. -/
def waiting (trace : List Event) : Nat :=
  (trace.rtakeWhile fun event => event matches .appended _).length

/-- The operation that a call appends, if a frame can hold it. -/
def Call.operation? : Call → Option Operation
  | append op _ => if op.Loggable then some op else none
  | _ => none

/-- The operations that calls append after the journal was last emptied. -/
def accepted (calls : List Call) : List Operation :=
  (calls.rtakeWhile fun c => !(c matches .reset)).filterMap Call.operation?

theorem Torn.stops (h : Torn piece) : Stops piece := by
  obtain ⟨lsn, payload, hlen, hfront, hne⟩ := h
  have hlt : piece.length < (encodeFrame lsn payload).length := by
    by_contra hle
    exact hne (hfront.eq_of_length_le (Nat.not_lt.1 hle))
  rw [List.prefix_iff_eq_take.1 hfront]
  exact stops_take_encodeFrame lsn hlen hlt

theorem written_concat (trace : List Event) (event : Event) : written (trace ++ [event]) =
    match event with
    | .appended e => written trace ++ [e]
    | .emptied => []
    | _ => written trace := by
  unfold written
  cases event <;> simp [Event.entry?]

theorem waiting_concat (trace : List Event) (event : Event) : waiting (trace ++ [event]) =
    match event with
    | .appended _ => waiting trace + 1
    | _ => 0 := by
  unfold waiting
  cases event <;> simp

theorem accepted_concat (calls : List Call) (c : Call) : accepted (calls ++ [c]) =
    match c with
    | .append op _ => if op.Loggable then accepted calls ++ [op] else accepted calls
    | .reset => []
    | _ => accepted calls := by
  unfold accepted
  cases c with
  | append op time => by_cases hop : op.Loggable <;> simp [Call.operation?, hop]
  | _ => simp [Call.operation?]

/-! ### Single calls -/

theorem onWriter_of_ok {m : Writer → DiskM (α × Writer)} {a : α} (h : m w d = .ok (a, w') d') :
    onWriter m (w, d) = .ok a (w', d') := by
  simp only [onWriter, h]

theorem onWriter_of_error {m : Writer → DiskM (α × Writer)} {err : Error} (h : m w d = .error err d') :
    onWriter m (w, d) = .error err (w, d') := by
  simp only [onWriter, h]

theorem Call.run_append_of_ok (path : Path) {forced : Bool}
    (h : w.log op time d = .ok ({ lsn, forced }, w') d') :
    (append op time).run path (w, d) =
      .ok (if forced then [.appended { lsn, operation := op, time }, .forced]
        else [.appended { lsn, operation := op, time }]) (w', d') := by
  have happend := outcome_eq_ok.2 (onWriter_of_ok (m := (·.log op time)) h)
  rw [run]
  exact bind_of_ok happend

theorem Call.run_append_of_error (path : Path) {err : Error} (h : w.log op time d = .error err d') :
    (append op time).run path (w, d) = .ok [] (w, d') := by
  have happend := outcome_eq_error.2 (onWriter_of_error (m := (·.log op time)) h)
  rw [run]
  exact bind_of_ok happend

theorem Call.run_sync (path : Path) (w : Writer) (d : Disk) :
    sync.run path (w, d) = .ok [.forced] (w.sync, d) := rfl

theorem Call.run_reset (path : Path) (h : w.reset d = .ok w' d') :
    reset.run path (w, d) = .ok [.emptied] (w', d') := by
  have hreset : (do return ((), ← w.reset) : DiskM (Unit × Writer)) d = .ok ((), w') d' := bind_of_ok h
  rw [run]
  exact bind_of_ok (onWriter_of_ok hreset)

theorem Call.run_reopen (path : Path)
    (h : Writer.openAt path policy (d.change w.file (·.writeAt (d.length w.file) piece)) = .ok w' d') :
    (reopen policy piece).run path (w, d) = .ok [.opened] (w', d') := by
  have hopen : (do
      Disk.writeAt w.file ((← get).length w.file) piece
      return ((), ← Writer.openAt path policy) : DiskM (Unit × Writer)) d = .ok ((), w') d' := by
    rw [get_bind]
    change (Writer.openAt path policy >>= fun w' => pure ((), w'))
      (d.change w.file (·.writeAt (d.length w.file) piece)) = _
    exact bind_of_ok h
  rw [run]
  exact bind_of_ok (onWriter_of_ok hopen)

theorem Writer.unsynced_of_openAt (h : Writer.openAt path policy d = .ok w d') : w.unsynced = 0 := by
  obtain ⟨file, d₁, -, h⟩ := bind_eq_ok.1 h
  obtain ⟨d₂, d₃, -, h⟩ := bind_eq_ok.1 h
  obtain ⟨-, d₄, -, h⟩ := bind_eq_ok.1 h
  cases h
  rfl

/-- An append that reports that it forced the file leaves no entry waiting, and any other leaves one more
than before, but not so many that the file is to be forced. -/
theorem Writer.exists_log (h : w.append op time d = .ok (lsn, w') d') :
    ∃ forced, w.log op time d = .ok ({ lsn, forced }, w') d' ∧ w'.policy = w.policy ∧
      w'.unsynced = (if forced then 0 else w.unsynced + 1) ∧ (forced = false → w'.due = false) := by
  obtain ⟨⟨⟨lsn', forced⟩, w₁⟩, d₁, hlog, h⟩ := bind_eq_ok.1 h
  cases h
  refine ⟨forced, hlog, ?_⟩
  obtain ⟨frame, d₁, -, hlog⟩ := bind_eq_ok.1 hlog
  obtain ⟨-, d₂, -, hlog⟩ := bind_eq_ok.1 hlog
  obtain ⟨heq, rfl⟩ := pure_eq_ok.1 hlog
  obtain ⟨hlogged, rfl⟩ := Prod.mk.inj heq
  obtain ⟨rfl, rfl⟩ := Logged.mk.inj hlogged
  refine ⟨?_, ?_, ?_⟩
  · split <;> rfl
  · split <;> rfl
  · intro hforced
    rw [hforced]
    exact hforced

/-! ### Runs -/

/-- What calls have come to: the entries that they appended are in the journal, and those that wait are
counted. -/
structure Tracks (path : Path) (calls : List Call) (trace : List Event) (w : Writer) (d : Disk) : Prop where
  written : Written path d w (written trace)
  operations : (Journal.written trace).map Entry.operation = accepted calls
  unsynced : w.unsynced = waiting trace
  nothing : w.policy = .everyWrite → w.unsynced = 0
  below : ∀ count, w.policy = .everyEntries count → 1 ≤ count → w.unsynced < count

namespace Tracks

variable {calls : List Call} {trace : List Event}

theorem nil (h : Written path d w []) (hunsynced : w.unsynced = 0) : Tracks path [] [] w d where
  written := h
  operations := rfl
  unsynced := hunsynced
  nothing _ := hunsynced
  below count _ hcount := by omega

theorem append (h : Tracks path calls trace w d) (op : Operation) (time : UInt64) :
    ∃ events w' d', (Call.append op time).run path (w, d) = .ok events (w', d') ∧
      Tracks path (calls ++ [Call.append op time]) (trace ++ events) w' d' := by
  by_cases hop : op.Loggable
  · obtain ⟨w', d', happend, -⟩ := h.written.atEnd.append_eq hop time
    obtain ⟨forced, hlog, hpolicy, hunsynced, hdue⟩ := Writer.exists_log happend
    have hrun := Call.run_append_of_ok path hlog
    have hwritten := h.written.appended happend
    generalize he : ({ lsn := w.nextLsn, operation := op, time } : Entry) = e at hrun hwritten
    have hoperations : (Journal.written trace ++ [e]).map Entry.operation =
        accepted (calls ++ [Call.append op time]) := by
      rw [List.map_append, h.operations, accepted_concat, ← he]
      exact (if_pos hop).symm
    have happended : Journal.written (trace ++ [Event.appended e]) = Journal.written trace ++ [e] :=
      written_concat trace (.appended e)
    cases forced with
    | true =>
      rw [if_pos rfl] at hrun hunsynced
      have hforced : Journal.written (trace ++ [Event.appended e] ++ [Event.forced]) =
          Journal.written trace ++ [e] := (written_concat _ .forced).trans happended
      refine ⟨_, w', d', hrun, ?_⟩
      rw [List.append_cons trace]
      refine ⟨?_, ?_, ?_, fun _ => hunsynced, ?_⟩
      · rwa [hforced]
      · rw [hforced, hoperations]
      · rw [hunsynced, waiting_concat]
      · intro count _ hcount
        rw [hunsynced]
        exact hcount
    | false =>
      rw [if_neg Bool.false_ne_true] at hrun hunsynced
      have hwaits := hdue rfl
      rw [Writer.due] at hwaits
      refine ⟨_, w', d', hrun, ?_, ?_, ?_, ?_, ?_⟩
      · rwa [happended]
      · rw [happended, hoperations]
      · rw [hunsynced, waiting_concat, h.unsynced]
      · intro hevery
        rw [hevery] at hwaits
        contradiction
      · intro count hcount _
        rw [hcount, decide_eq_false_iff_not] at hwaits
        exact Nat.lt_of_not_le hwaits
  · obtain ⟨err, herror⟩ := AtEnd.log_of_not_loggable hop w time d
    refine ⟨[], w, d, Call.run_append_of_error path herror, ?_⟩
    rw [List.append_nil]
    refine ⟨h.written, ?_, h.unsynced, h.nothing, h.below⟩
    rw [accepted_concat, h.operations]
    exact (if_neg hop).symm

theorem sync (h : Tracks path calls trace w d) :
    Tracks path (calls ++ [Call.sync]) (trace ++ [Event.forced]) w.sync d where
  written := by
    rw [written_concat]
    exact h.written.synced
  operations := by
    rw [written_concat, accepted_concat]
    exact h.operations
  unsynced := (waiting_concat trace .forced).symm
  nothing _ := rfl
  below count _ hcount := hcount

theorem reset (h : Tracks path calls trace w d) (hreset : w.reset d = .ok w' d') :
    Tracks path (calls ++ [Call.reset]) (trace ++ [Event.emptied]) w' d' where
  written := by
    rw [written_concat]
    exact h.written.reset hreset
  operations := by
    rw [written_concat, accepted_concat]
    rfl
  unsynced := by
    rw [Writer.reset_eq] at hreset
    cases hreset
    exact (waiting_concat trace .emptied).symm
  nothing _ := by
    rw [Writer.reset_eq] at hreset
    cases hreset
    rfl
  below count _ hcount := by
    rw [Writer.reset_eq] at hreset
    cases hreset
    exact hcount

theorem reopen (h : Tracks path calls trace w d) (policy : SyncPolicy) (hpiece : Torn piece) :
    ∃ w' d', (Call.reopen policy piece).run path (w, d) = .ok [.opened] (w', d') ∧
      Tracks path (calls ++ [Call.reopen policy piece]) (trace ++ [Event.opened]) w' d' := by
  have hend := h.written.atEnd
  have hrewrites := d.rewrites_change w.file (·.writeAt (d.length w.file) piece)
  have hfile := (hrewrites.file_eq path).trans hend.file
  have hopen := Writer.openAt_eq hfile policy
  have hcontent := Disk.content_writeAt hend.inside piece
  have hwritten := h.written.reopened hrewrites hcontent hpiece.stops hopen
  refine ⟨_, _, Call.run_reopen path hopen, ?_, ?_, ?_, fun _ => rfl, fun count _ hcount => hcount⟩
  · rw [written_concat]
    exact hwritten
  · rw [written_concat, accepted_concat]
    exact h.operations
  · exact (waiting_concat trace .opened).symm

/-- Whatever is called next, the call succeeds. -/
theorem step (h : Tracks path calls trace w d) {c : Call} (hc : c.Allowed) :
    ∃ events w' d', c.run path (w, d) = .ok events (w', d') ∧
      Tracks path (calls ++ [c]) (trace ++ events) w' d' := by
  cases c with
  | append op time => exact h.append op time
  | sync => exact ⟨_, _, _, Call.run_sync path w d, h.sync⟩
  | reset =>
    have hreset := Writer.reset_eq w d
    exact ⟨_, _, _, Call.run_reset path hreset, h.reset hreset⟩
  | reopen policy piece =>
    obtain ⟨w', d', hrun, htracks⟩ := h.reopen policy hc
    exact ⟨_, w', d', hrun, htracks⟩

theorem runAll {later : List Call} (h : Tracks path calls trace w d) (hlater : ∀ c ∈ later, c.Allowed) :
    ∃ events w' d', Journal.runAll path later (w, d) = .ok events (w', d') ∧
      Tracks path (calls ++ later) (trace ++ events) w' d' := by
  induction later generalizing calls trace w d with
  | nil =>
    refine ⟨[], w, d, rfl, ?_⟩
    rwa [List.append_nil, List.append_nil]
  | cons c later ih =>
    obtain ⟨hc, hlater⟩ := List.forall_mem_cons.1 hlater
    obtain ⟨events, w₁, d₁, hrun, htracks⟩ := h.step hc
    obtain ⟨events', w', d', hruns, htracks'⟩ := ih htracks hlater
    refine ⟨events ++ events', w', d', ?_, ?_⟩
    · rw [Journal.runAll, bind_of_ok hrun, bind_of_ok hruns]
      rfl
    · rwa [List.append_cons, ← List.append_assoc]

end Tracks

/-! ### Accounts -/

theorem length_le_length_frames (log : List Entry) : 36 * log.length ≤ (frames log).length := by
  induction log with
  | nil => exact Nat.zero_le _
  | cons e log ih =>
    have hsize := e.operation.length_add_le_frameSize
    rw [← Entry.size_eq] at hsize
    rw [frames_cons, List.length_append, e.length_frame, List.length_cons]
    omega

theorem Numbered.map_toNat (h : Numbered log) (hbound : log.length < bound 8) :
    log.map (·.lsn.toNat) = List.range' 1 log.length := by
  rw [bound_eight] at hbound
  apply List.ext_getElem
  · rw [List.length_map, List.length_range']
  · intro i hi _
    rw [List.length_map] at hi
    have hnumber : i + 1 < 2 ^ 64 := by omega
    rw [List.getElem_map, h i hi, List.getElem_range', UInt64.toNat_ofNat_of_lt' hnumber]
    omega

theorem AtEnd.exists_cursor (h : AtEnd d path w log) :
    ∃ c, Cursor.openAt d path = .ok c ∧ c.entries = log.map .ok := by
  refine ⟨_, Cursor.openAt_of_read h.read, ?_⟩
  have hscan := h.scan_content
  rw [h.content] at hscan
  simp only [Cursor.entries, hscan, List.append_nil]

/-- The numbers of the entries in a file whose length has 64 bits do not start again. -/
theorem AtEnd.numbers (h : AtEnd d path w log) (hbound : (frames log).length < bound 8) :
    log.map (·.lsn.toNat) = List.range' 1 log.length ∧ w.nextLsn.toNat = log.length + 1 := by
  have hlength := length_le_length_frames log
  have hnext : log.length + 1 < bound 8 := by
    rw [bound_eight] at hbound ⊢
    omega
  refine ⟨h.numbered.map_toNat (Nat.lt_of_succ_lt hnext), ?_⟩
  rw [h.nextLsn, UInt64.toNat_ofNat_of_lt' hnext]

/-- A writer that starts without a journal, or with an empty one, accounts for what is appended. Every
sequence of calls succeeds. The journal then holds the frames of what was appended since it was last
emptied, in the order of the calls; the entries have the numbers from one on that were returned for them,
the next number follows, and a reader gets the entries back. What no frame can hold changes nothing. As
many entries wait as were appended since the journal was last forced to the disk, opened or emptied,
which are none when every write is forced and else fewer than the policy asks for. -/
theorem Writer.run_accounts_for_appends {calls : List Call} (hd : d.Intact)
    (hempty : ∀ file, d.file path = .ok file → d.content file = [])
    (hopen : Writer.openAt path policy d = .ok w d') (hcalls : ∀ c ∈ calls, c.Allowed) :
    ∃ trace w₁ d₁, runAll path calls (w, d') = .ok trace (w₁, d₁) ∧
      d₁.read path = .ok (frames (written trace)) ∧
      (written trace).map Entry.operation = accepted calls ∧
      Numbered (written trace) ∧ w₁.nextLsn = UInt64.ofNat ((written trace).length + 1) ∧
      ((frames (written trace)).length < bound 8 →
        (written trace).map (·.lsn.toNat) = List.range' 1 (written trace).length ∧
        w₁.nextLsn.toNat = (written trace).length + 1) ∧
      (∃ c, Cursor.openAt d₁ path = .ok c ∧ c.entries = (written trace).map .ok) ∧
      (∀ op time, ¬ op.Loggable → ∃ err, w₁.append op time d₁ = .error err d₁) ∧
      w₁.unsynced = waiting trace ∧ (w₁.policy = .everyWrite → w₁.unsynced = 0) ∧
      ∀ count, w₁.policy = .everyEntries count → 1 ≤ count → w₁.unsynced < count := by
  have hstart : Tracks path [] [] w d' := .nil (.opened hd hempty hopen) (Writer.unsynced_of_openAt hopen)
  obtain ⟨trace, w₁, d₁, hrun, htracks⟩ := hstart.runAll hcalls
  rw [List.nil_append, List.nil_append] at htracks
  have hend := htracks.written.atEnd
  exact ⟨trace, w₁, d₁, hrun, hend.read, htracks.operations, hend.numbered, hend.nextLsn, hend.numbers,
    hend.exists_cursor, fun op time hop => AtEnd.append_of_not_loggable hop w₁ time d₁, htracks.unsynced,
    htracks.nothing, htracks.below⟩

/-- A journal that was emptied once, and that was opened again after two bytes were left in it. -/
theorem Writer.run_accounts_for_appends_of_torn_frame :
    ∃ (w w₁ : Writer) (d d₁ : Disk) (trace : List Event),
      Writer.openAt ["wal.log"] .everyWrite {} = .ok w d ∧
      runAll ["wal.log"] [.append (.put [1] [2]) 0, .reset, .append (.put [3] [4]) 0,
        .reopen (.everyEntries 2) [3, 0], .append (.delete [3]) 0] (w, d) = .ok trace (w₁, d₁) ∧
      d₁.read ["wal.log"] = .ok (frames (written trace)) ∧
      (written trace).map Entry.operation = [.put [3] [4], .delete [3]] ∧ w₁.nextLsn = 3 := by
  have hplain : PlainName "wal.log" := .of_not_mem (by decide) (by decide) (by decide)
  obtain ⟨w, d, hopen⟩ :=
    Writer.exists_openAt Disk.intact_empty (Disk.provide_empty hplain (by decide)) .everyWrite
  have htorn : Torn [3, 0] := by
    have hlength := length_encodeFrame 3 []
    refine ⟨3, [], by decide, ⟨(encodeFrame 3 []).drop 2, rfl⟩, fun heq => ?_⟩
    rw [← heq] at hlength
    contradiction
  have hcalls : ∀ c ∈ ([.append (.put [1] [2]) 0, .reset, .append (.put [3] [4]) 0,
      .reopen (.everyEntries 2) [3, 0], .append (.delete [3]) 0] : List Call), c.Allowed := by
    simp [Call.Allowed, htorn]
  obtain ⟨trace, w₁, d₁, hrun, hread, hoperations, -, hnext, -⟩ :=
    Writer.run_accounts_for_appends Disk.intact_empty (fun _ _ => rfl) hopen hcalls
  have hlength := congrArg List.length hoperations
  rw [List.length_map] at hlength
  refine ⟨w, w₁, d, d₁, trace, hopen, hrun, hread, hoperations, ?_⟩
  rw [hnext, hlength]
  rfl

end KeyedStore.Journal
