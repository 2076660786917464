import KeyedStore.Proofs.FaithfulBackends
import KeyedStore.Proofs.FreshDirectories

/-!
# Engines and maps in memory

An engine that was opened in a fresh directory answers every run of requests as a map in memory does,
whatever flushes, compactions and reopenings, with or without closing, come in between. The relation
that carries the proof: the map has the values that the data directory holds.
-/

namespace KeyedStore

open Bytes

inductive Request where
  | read (key buffer : Bytes)
  | write (key value : Bytes)
  | remove (key : Bytes)
  | contains (key : Bytes)

/-- What a backend answers to a request. -/
inductive Answer where
  | read (reading : Reading)
  | written
  | removal (removal : Removal)
  | present (present : Bool)

namespace Backend

variable {β : Type} [Backend β]

def serve : Request → EStateM Error β Answer
  | .read key buffer => fun s => .ok (.read (read key buffer s).1) (read key buffer s).2
  | .write key value => do
    write key value
    return .written
  | .remove key => return .removal (← remove key)
  | .contains key => return .present (← contains key)

def serveAll : List Request → EStateM Error β (List Answer)
  | [] => return []
  | r :: rest => do
    let answer ← serve r
    return answer :: (← serveAll rest)

end Backend

namespace Request

def weight : Request → Nat
  | write key value => Holding.weightOf (.put key value)
  | remove key => Holding.weightOf (.delete key)
  | _ => 0

/-- A request whose operation, if it is a write, fits a frame of the journal. -/
def Loggable : Request → Prop
  | write key value => (Operation.put key value).Loggable
  | _ => True

end Request

namespace Engine

/-- A step in the life of an engine. -/
inductive Step where
  | request (r : Request)
  | flush
  | compact
  /-- Opens the engine again, with another configuration and after closing it or not. -/
  | reopen (closing : Bool) (config : Config)
  /-- Sets the time that the next entries bear. -/
  | tick (time : UInt64)

/-- Opens an engine in the data directory of another one, which is of no more use. -/
def reopen (config : Config) : EngineM Unit := fun (e, d) =>
  match openAt e.dir config d with
  | .ok e d => .ok () (e, d)
  | .error cause d => .error cause (e, d)

/-- Does a step; gives the answer if it is a request. -/
def Step.run : Step → EngineM (Option Answer)
  | .request r => return some (← Backend.serve r)
  | .flush => do
    Engine.flush
    return none
  | .compact => do
    Engine.compact
    return none
  | .reopen closing config => do
    if closing then close
    Engine.reopen config
    return none
  | .tick time => do
    modify fun (e, d) => ({ e with clock := time }, d)
    return none

/-- Does steps one after the other; gives the answers to the requests among them. -/
def run : List Step → EngineM (List Answer)
  | [] => return []
  | step :: rest => do
    let answer? ← step.run
    return answer?.toList ++ (← run rest)

def Step.weight : Step → Nat
  | .request r => r.weight
  | _ => 0

theorem Step.weight_le (step : Step) : step.weight ≤ bound 4 := by
  cases step with
  | request r =>
    cases r with
    | write key value => exact Holding.weightOf_le _
    | remove key => exact Holding.weightOf_le _
    | read key buffer => exact Nat.zero_le _
    | contains key => exact Nat.zero_le _
  | _ => exact Nat.zero_le _

def Step.request? : Step → Option Request
  | .request r => some r
  | _ => none

def requests (steps : List Step) : List Request := steps.filterMap Step.request?

end Engine

/-- A map in memory that has the values of a data directory. -/
def Memory.Mirrors (m : Memory) (h : Holding) : Prop := ∀ key, m.values[key]? = h.value key

namespace Memory

variable {m : Memory} {h h' : Holding} {key value : Bytes}

theorem mirrors_empty : Mirrors {} { layers := [], log := [] } := by
  intro key
  simp [Holding.value, Holding.operations, Operation.reviseAll, Shelf.valueIn]

theorem Mirrors.insert (hm : m.Mirrors h)
    (hvalue : ∀ other, h'.value other = (Operation.put key value).revise other (h.value other)) :
    Mirrors { values := m.values.insert key value } h' := by
  intro other
  rw [hvalue]
  exact Holds.insert hm key value other

theorem Mirrors.contains (hm : m.Mirrors h) (key : Bytes) :
    m.values.contains key = (h.value key).isSome :=
  Holds.contains_eq hm key

theorem Mirrors.remove (hm : m.Mirrors h)
    (hvalue : ∀ other, h'.value other = (Operation.delete key).revise other (h.value other)) :
    Mirrors (m.remove key).2 h' := by
  intro other
  rw [hvalue]
  exact Holds.remove hm key other

end Memory

namespace Engine

variable {d : Disk} {root : Place} {h : Holding} {e : Engine} {m : Memory} {n w : Nat}

/-- An engine answers a request as a map with the same values does. -/
theorem Sound.serve (hs : e.Sound d root h) (hm : m.Mirrors h) {r : Request} (hr : r.Loggable)
    (hw : h.Within (n + 1) w) (hsmall : w + r.weight ≤ bound 8 / 3) :
    ∃ answer e' d' h' m', Backend.serve r (e, d) = .ok answer (e', d') ∧
      Backend.serve r m = .ok answer m' ∧ e'.Sound d' root h' ∧ e'.dir = e.dir ∧ m'.Mirrors h' ∧
      h'.Within n (w + r.weight) := by
  cases r with
  | read key buffer =>
    refine ⟨.read (.ofValue? (h.value key) buffer), e, d, h, m, ?_, ?_, hs, rfl, hm,
      hw.mono (Nat.le_succ n) (Nat.le_add_right _ _)⟩
    · simp only [Backend.serve, Backend.read, hs.get?]
    · simp only [Backend.serve, Backend.read, hm key]
  | write key value =>
    obtain ⟨e', d', h', hperform, hs', hdir, hvalue, hw'⟩ := hs.perform hr hw hsmall
    refine ⟨.written, e', d', h', _, ?_, rfl, hs', hdir, hm.insert hvalue, hw'⟩
    simp only [Backend.serve, Backend.write, put, bind, EStateM.bind, hperform, pure, EStateM.pure]
  | remove key =>
    obtain ⟨e', d', h', hdelete, hs', hdir, hvalue, hw'⟩ := hs.delete hw hsmall
    refine ⟨.removal (if (h.value key).isSome then .removed else .notFound), e', d', h',
      (m.remove key).2, ?_, ?_, hs', hdir, ?_, hw'⟩
    · simp only [Backend.serve, Backend.remove, bind, EStateM.bind, hdelete, pure, EStateM.pure]
    · simp only [Backend.serve, Backend.remove, bind, EStateM.bind, Memory.remove, hm.contains key,
        pure, EStateM.pure]
      split <;> rfl
    · exact hm.remove hvalue
  | contains key =>
    refine ⟨.present (h.value key).isSome, e, d, h, m, ?_, ?_, hs, rfl, hm,
      hw.mono (Nat.le_succ n) (Nat.le_add_right _ _)⟩
    · simp only [Backend.serve, Backend.contains, bind, EStateM.bind, get, getThe, MonadStateOf.get,
        EStateM.get, hs.contains, liftResult, pure, EStateM.pure]
    · simp only [Backend.serve, Backend.contains, bind, EStateM.bind, hm.contains key, pure,
        EStateM.pure]

theorem Sound.reopen (hs : e.Sound d root h) (hr : h.Room) (config : Config) :
    ∃ e' d', Engine.reopen config (e, d) = .ok () (e', d') ∧ e'.Sound d' root h.flushed ∧
      e'.dir = e.dir := by
  obtain ⟨e', d', hopen, hs', hdir⟩ := hs.kept.openAt hr config
  refine ⟨e', d', ?_, hs', hdir⟩
  simp only [Engine.reopen, hopen]

/-- An engine takes every step, and answers as a map with the same values does. -/
theorem Sound.step (hs : e.Sound d root h) (hm : m.Mirrors h) {step : Step}
    (hr : ∀ r ∈ step.request?, r.Loggable) (hw : h.Within (n + 2) w)
    (hsmall : w + step.weight ≤ bound 8 / 3) :
    ∃ answer? e' d' h' m', step.run (e, d) = .ok answer? (e', d') ∧
      Backend.serveAll step.request?.toList m = .ok answer?.toList m' ∧
      e'.Sound d' root h' ∧ e'.dir = e.dir ∧ m'.Mirrors h' ∧ h'.Within n (w + step.weight) := by
  cases step with
  | request r =>
    obtain ⟨answer, e', d', h', m', hserve, hmirror, hs', hdir, hm', hw'⟩ :=
      hs.serve hm (hr r rfl) hw hsmall
    refine ⟨some answer, e', d', h', m', ?_, ?_, hs', hdir, hm',
      hw'.mono (Nat.le_succ n) (Nat.le_refl _)⟩
    · simp only [Step.run, bind, EStateM.bind, hserve, pure, EStateM.pure]
    · simp only [Step.request?, Option.toList, Backend.serveAll, bind, EStateM.bind, hmirror, pure,
        EStateM.pure]
  | flush =>
    obtain ⟨e', d', hflush, hs', hdir⟩ := hs.flush (hw.room hsmall)
    refine ⟨none, e', d', h.flushed, m, ?_, rfl, hs', hdir, ?_,
      hw.flushed.mono (Nat.le_succ n) (Nat.le_refl _)⟩
    · simp only [Step.run, bind, EStateM.bind, hflush, pure, EStateM.pure]
    · intro key
      rw [hm key, h.value_flushed]
  | compact =>
    obtain ⟨e', d', hcompact, hs', hdir⟩ := hs.compact_within hw hsmall
    refine ⟨none, e', d', h.compacted, m, ?_, rfl, hs', hdir, ?_, hw.compacted⟩
    · simp only [Step.run, bind, EStateM.bind, hcompact, pure, EStateM.pure]
    · intro key
      rw [hm key, h.value_compacted]
  | reopen closing config =>
    cases closing with
    | true =>
      obtain ⟨e₁, d₁, hclose, hs₁, hdir₁⟩ := hs.close (hw.room hsmall)
      obtain ⟨e₂, d₂, hopen, hs₂, hdir₂⟩ := hs₁.reopen (hw.flushed.room hsmall) config
      refine ⟨none, e₂, d₂, h.flushed.flushed, m, ?_, rfl, hs₂, hdir₂.trans hdir₁, ?_,
        hw.flushed.flushed⟩
      · simp only [Step.run, bind, EStateM.bind, if_true, hclose, hopen, pure, EStateM.pure]
      · intro key
        rw [hm key, Holding.value_flushed, Holding.value_flushed]
    | false =>
      obtain ⟨e₁, d₁, hopen, hs₁, hdir₁⟩ := hs.reopen (hw.room hsmall) config
      refine ⟨none, e₁, d₁, h.flushed, m, ?_, rfl, hs₁, hdir₁, ?_,
        hw.flushed.mono (Nat.le_succ n) (Nat.le_refl _)⟩
      · simp only [Step.run, bind, EStateM.bind, Bool.false_eq_true, if_false, hopen, pure,
          EStateM.pure]
      · intro key
        rw [hm key, Holding.value_flushed]
  | tick time =>
    refine ⟨none, { e with clock := time }, d, h, m, rfl, rfl,
      ⟨hs.kept, hs.shelf, hs.memtable, hs.file, hs.position⟩, rfl, hm,
      hw.mono (Nat.le_add_right n 2) (Nat.le_refl _)⟩

theorem serveAll_append {β : Type} [Backend β] {s s' s'' : β} {front back : List Request}
    {answers answers' : List Answer} (hfront : Backend.serveAll front s = .ok answers s')
    (hback : Backend.serveAll back s' = .ok answers' s'') :
    Backend.serveAll (front ++ back) s = .ok (answers ++ answers') s'' := by
  induction front generalizing s answers with
  | nil =>
    cases hfront
    exact hback
  | cons r front ih =>
    simp only [Backend.serveAll, bind, EStateM.bind] at hfront
    simp only [List.cons_append, Backend.serveAll, bind, EStateM.bind]
    cases hr : Backend.serve r s with
    | error cause s₁ => simp only [hr] at hfront; contradiction
    | ok answer s₁ =>
      simp only [hr] at hfront ⊢
      cases hrest : Backend.serveAll front s₁ with
      | error cause s₂ => simp only [hrest] at hfront; contradiction
      | ok answers₁ s₂ =>
        simp only [hrest, pure, EStateM.pure] at hfront
        cases hfront
        simp only [ih hrest, pure, EStateM.pure, List.cons_append]

theorem requests_cons (step : Step) (rest : List Step) :
    requests (step :: rest) = step.request?.toList ++ requests rest := by
  rw [requests, List.filterMap_cons, requests]
  cases step.request? <;> rfl

theorem loggable_of_cons {step : Step} {rest : List Step}
    (hr : ∀ r ∈ requests (step :: rest), r.Loggable) :
    (∀ r ∈ step.request?, r.Loggable) ∧ ∀ r ∈ requests rest, r.Loggable := by
  rw [requests_cons] at hr
  constructor
  · intro r hmem
    exact hr r (List.mem_append_left _ (by simpa using hmem))
  · intro r hmem
    exact hr r (List.mem_append_right _ hmem)

theorem run_cons {step : Step} {rest : List Step} {s s' : Engine × Disk} {answer? : Option Answer}
    (hstep : step.run s = .ok answer? s') :
    run (step :: rest) s = (do return answer?.toList ++ (← run rest) : EngineM (List Answer)) s' := by
  simp only [run, bind, EStateM.bind, hstep]

/-- Every state that an engine passes through in a run is within the limits. -/
def StaysWithinLimits (steps : List Step) (s : Engine × Disk) : Prop :=
  ∀ front, front <+: steps → ∀ answers s', run front s = .ok answers s' →
    WithinLimits s'.2 s'.1.dir

theorem StaysWithinLimits.tail {step : Step} {rest : List Step} {s s' : Engine × Disk}
    {answer? : Option Answer} (hl : StaysWithinLimits (step :: rest) s)
    (hstep : step.run s = .ok answer? s') : StaysWithinLimits rest s' := by
  intro front hfront answers s'' hrun
  refine hl (step :: front) ((List.prefix_cons_inj step).2 hfront) (answer?.toList ++ answers) s'' ?_
  rw [run_cons hstep]
  simp only [bind, EStateM.bind, hrun, pure, EStateM.pure]

/-- An engine takes every run within the limits, and answers as a map with the same values does. -/
theorem Sound.run (hs : e.Sound d root h) (hm : m.Mirrors h) (steps : List Step)
    (hr : ∀ r ∈ requests steps, r.Loggable) (hl : StaysWithinLimits steps (e, d)) :
    ∃ answers s m', Engine.run steps (e, d) = .ok answers s ∧
      Backend.serveAll (requests steps) m = .ok answers m' := by
  -- The map keeps the values of the directory, whatever each step makes of its layers and entries.
  induction steps generalizing e d h m with
  | nil => exact ⟨[], (e, d), m, rfl, rfl⟩
  | cons step rest ih =>
    have hw := hs.kept.within (hl [] List.nil_prefix [] (e, d) rfl)
    obtain ⟨hstep, hrest⟩ := loggable_of_cons hr
    have hsmall : bound 8 / 4 + step.weight ≤ bound 8 / 3 :=
      Nat.le_trans (Nat.add_le_add_left step.weight_le _) (by decide)
    obtain ⟨answer?, e', d', h', m', hrun, hserve, hs', hdir, hm', -⟩ :=
      hs.step hm hstep hw hsmall
    obtain ⟨answers, s, m'', hrun', hserve'⟩ := ih hs' hm' hrest (hl.tail hrun)
    rw [requests_cons]
    refine ⟨answer?.toList ++ answers, s, m'', ?_, serveAll_append hserve hserve'⟩
    rw [run_cons hrun]
    simp only [bind, EStateM.bind, hrun', pure, EStateM.pure]

/-- A run that adds little weight in few steps stays within the limits. -/
theorem Sound.staysWithinLimits (hs : e.Sound d root h) (hm : m.Mirrors h) (steps : List Step)
    (hr : ∀ r ∈ requests steps, r.Loggable) (hw : h.Within (2 * steps.length + 2) w)
    (hsmall : w + (steps.map Step.weight).sum ≤ bound 8 / 16) : StaysWithinLimits steps (e, d) := by
  have hnow : WithinLimits d e.dir :=
    hs.kept.withinLimits (hw.mono (by omega) (Nat.le_trans (Nat.le_add_right _ _) hsmall))
  induction steps generalizing e d h m w with
  | nil =>
    intro front hfront answers s' hrun
    rw [List.prefix_nil.1 hfront] at hrun
    cases hrun
    exact hnow
  | cons step rest ih =>
    obtain ⟨hstep, hrest⟩ := loggable_of_cons hr
    rw [List.length_cons, Nat.mul_add, Nat.add_right_comm] at hw
    rw [List.map_cons, List.sum_cons, ← Nat.add_assoc] at hsmall
    have hbound : w + step.weight ≤ bound 8 / 3 :=
      Nat.le_trans (Nat.le_add_right _ _) (Nat.le_trans hsmall (by decide))
    obtain ⟨answer?, e', d', h', m', hrun, -, hs', -, hm', hw'⟩ := hs.step hm hstep hw hbound
    have hnext : WithinLimits d' e'.dir :=
      hs'.kept.withinLimits (hw'.mono (by omega) (Nat.le_trans (Nat.le_add_right _ _) hsmall))
    have hlater := ih hs' hm' hrest hw' hsmall hnext
    intro front hfront answers s' hrun'
    cases front with
    | nil =>
      cases hrun'
      exact hnow
    | cons first front =>
      obtain ⟨rfl, hprefix⟩ := List.cons_prefix_cons.1 hfront
      rw [run_cons hrun] at hrun'
      cases hr' : Engine.run front (e', d') with
      | error cause s =>
        simp only [bind, EStateM.bind, hr'] at hrun'
        contradiction
      | ok answers' s =>
        simp only [bind, EStateM.bind, hr', pure, EStateM.pure] at hrun'
        cases hrun'
        exact hlater front hprefix answers' _ hr'

/-- An engine that was opened in a fresh directory takes every run within the limits, and answers
its requests as a map in memory does. -/
theorem answers_eq_memory {dir : Path} (hf : Fresh d dir) (config : Config) :
    ∃ e d', openAt dir config d = .ok e d' ∧
      ∀ steps, (∀ r ∈ requests steps, r.Loggable) → StaysWithinLimits steps (e, d') →
        ∃ answers s m, run steps (e, d') = .ok answers s ∧
          Backend.serveAll (requests steps) ({} : Memory) = .ok answers m := by
  obtain ⟨e, d', root, hopen, hs, -⟩ := openAt_of_fresh hf config
  exact ⟨e, d', hopen, fun steps hr hl => hs.run Memory.mirrors_empty steps hr hl⟩

/-- The answers stay equal when a removal is compacted away and the engine is closed and opened
again. -/
theorem answers_eq_memory_of_removal :
    let steps : List Step := [.request (.write [1] [2]), .flush, .request (.remove [1]), .compact,
      .reopen true {}, .request (.read [1] [0, 0])]
    ∃ e d', openAt ["db"] {} ({} : Disk) = .ok e d' ∧ ∃ answers s m,
      run steps (e, d') = .ok answers s ∧
        Backend.serveAll (requests steps) ({} : Memory) = .ok answers m := by
  intro steps
  obtain ⟨e, d', hopen, hruns⟩ := answers_eq_memory fresh_db {}
  have hr : ∀ r ∈ requests steps, r.Loggable := by
    intro r hmem
    simp only [steps, requests, List.filterMap_cons, Step.request?, List.filterMap_nil,
      List.mem_cons, List.not_mem_nil, or_false] at hmem
    rcases hmem with rfl | rfl | rfl
    · exact (by decide : (Operation.put [1] [2]).Loggable)
    · trivial
    · trivial
  have hl : StaysWithinLimits steps (e, d') := by
    obtain ⟨e', d'', root, hopen', hs, -⟩ := openAt_of_fresh fresh_db {}
    rw [hopen] at hopen'
    cases hopen'
    exact hs.staysWithinLimits Memory.mirrors_empty steps hr (w := 0) ⟨by decide, Nat.le_refl _⟩
      (by decide)
  exact ⟨e, d', hopen, hruns steps hr hl⟩

end Engine

end KeyedStore
