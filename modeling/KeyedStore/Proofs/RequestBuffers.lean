import KeyedStore.Proofs.CommandAnswers
import KeyedStore.Proofs.Lookups

/-!
# Buffers of requests

Every command gives back the buffers that it takes, on each way out and whatever the backend does. The
pool is then as it was, or has another buffer in the place of the one on top, so that a run of commands
never touches what lies below.
-/

namespace KeyedStore

theorem Span.length_replace {span : Span} {new bs : Bytes} (hnew : new.length = span.length)
    (hstart : span.start ≤ span.stop) (hstop : span.stop ≤ bs.length) :
    (span.replace new bs).length = bs.length := by
  rw [length] at hnew
  rw [replace, List.length_append, List.length_append, List.length_take, List.length_drop]
  omega

namespace Layout

theorem start_data_le (layout : Layout) : layout.data.start ≤ layout.data.stop :=
  Nat.le_add_right _ _

theorem stop_data (layout : Layout) : layout.data.stop = layout.total := by
  simp only [data, suffix, key, total, Header.total]
  omega

end Layout

/-- A value is written into the buffer that the item has. -/
theorem Item.capacity_setValue {item item' : Item} {value : Bytes} (h : item.setValue value = .ok item') :
    item'.capacity = item.capacity := by
  rw [setValue] at h
  cases hlayout : item.layout with
  | error e =>
    rw [hlayout] at h
    contradiction
  | ok layout =>
    rw [hlayout] at h
    simp only [bind, Except.bind] at h
    split at h
    · contradiction
    · next hlength =>
      cases h
      refine Span.length_replace ?_ layout.start_data_le ?_
      · rw [List.length_append]
        exact (Decidable.not_not.1 hlength).symm
      · rw [layout.stop_data]
        exact (Layout.parse_eq_ok.1 hlayout).2

namespace Store

variable {α β : Type} {s : Store β} {p : Pool} {key : Bytes}

/-! ### Steps on the backend -/

theorem stateAfter_onBackend (m : EStateM Error β α) (s : Store β) :
    (stateAfter (onBackend m) s).pool = s.pool := by
  rw [stateAfter, onBackend, focus]
  cases m s.backend <;> rfl

/-- A step that works on the backend alone leaves the pool. -/
theorem preserves_onBackend (m : EStateM Error β α) :
    Preserves (fun s : Store β => s.pool = p) (onBackend m) fun _ => True := by
  intro s hs
  exact ⟨(stateAfter_onBackend m s).trans hs, fun _ _ _ => trivial⟩

section

variable [Backend β]

theorem preserves_put (key : Bytes) (item : Item) :
    Preserves (fun s : Store β => s.pool = p) (put key item) fun _ => True :=
  (Preserves.liftResult fun _ _ => trivial).bind fun _ (_ : True) => preserves_onBackend _

theorem preserves_delete (key : Bytes) :
    Preserves (fun s : Store β => s.pool = p) (delete key) fun _ => True := by
  refine (preserves_onBackend _).bind fun removal _ => ?_
  cases removal <;> exact Preserves.pure trivial

theorem pool_contains (key : Bytes) (s : Store β) : (contains key s).2.pool = s.pool := by
  rw [contains]
  cases Backend.contains key s.backend <;> rfl

end

/-! ### Look-ups -/

/-- What a look-up leaves once its item, if it gives one, is released. -/
def leftReleased : EStateM.Result Error (Store β) (Option Item) → Pool
  | .ok (some item) s' => s'.pool.reclaim item
  | .ok none s' => s'.pool
  | .error _ s' => s'.pool

theorem Settles.leftReleased_eq {item : Item} {outcome : Except Error ReadStatus}
    {result : EStateM.Result Error (Store β) (Option Item)} (h : Settles item outcome s result) :
    leftReleased result = s.pool.reclaim item := by
  cases h <;> rfl

variable [Backend β]

theorem LooksUp.returned {reads : List Served} {result : EStateM.Result Error (Store β) (Option Item)}
    (hp : s.pool.Sound) (h : LooksUp key s reads result) : s.pool.Returned (leftReleased result) := by
  cases h with
  | unread cause ha => exact .same
  | @once r b _ hkey hserves hoffered hresult =>
    rw [hresult.leftReleased_eq, reclaim_tail_filled hp hoffered]
    exact .top (r.capacity_filled.trans hoffered)
  | @refused r b required hkey hserves hoffered houtcome cause =>
    exact .top (r.capacity_filled.trans hoffered)
  | @twice r r' b b' required _ hkey hserves hoffered houtcome hlarger hkey' hserves' hoffered' hresult =>
    rw [← hoffered'] at hlarger
    rw [hresult.leftReleased_eq, reclaim_filled_of_lt (p := s.pool.stocked _) hlarger]
    exact .top (r.capacity_filled.trans hoffered)

theorem returned_answerGet (hp : s.pool.Sound) (key : Bytes) :
    s.pool.Returned (stateAfter (answerGet key) s).pool := by
  obtain ⟨reads, hlooks⟩ := looksUp_get hp key
  have hreturned := hlooks.returned hp
  cases hget : get key s with
  | error e s' =>
    rw [hget] at hreturned
    rw [stateAfter, answerGet, bind_of_error hget]
    exact hreturned
  | ok found s' =>
    rw [hget] at hreturned
    rw [stateAfter, answerGet, bind_of_ok hget]
    cases found with
    | none => exact hreturned
    | some item =>
      have hrelease : release item s' = .ok () { s' with pool := s'.pool.reclaim item } := rfl
      dsimp only
      rw [bind_of_ok hrelease]
      cases item.flags with
      | error e => exact hreturned
      | ok flags => cases item.value <;> exact hreturned

/-! ### Stores -/

theorem returned_set (hp : s.pool.Sound) (key : Bytes) (flags : UInt32) (value : Bytes) :
    s.pool.Returned (stateAfter (set key flags value) s).pool := by
  rcases hp.allocFresh key flags (value.length + Header.terminator.length) with
    ⟨e, halloc⟩ | ⟨fresh, p', halloc, hreturned⟩
  · have hpool : onPool (Pool.allocFresh key flags (value.length + Header.terminator.length)) s =
        .error e s := focus_of_error halloc
    rw [stateAfter, set, bind_of_error hpool]
    exact .same
  · have hpool : onPool (Pool.allocFresh key flags (value.length + Header.terminator.length)) s =
        .ok fresh { s with pool := p' } := focus_of_ok halloc
    rw [stateAfter, set, bind_of_ok hpool]
    cases hset : fresh.setValue value with
    | error e => exact hreturned fresh rfl
    | ok item =>
      obtain ⟨stored, hput⟩ := outcome_apply (put key item) { s with pool := p' }
      have hkept : (stateAfter (put key item) { s with pool := p' }).pool = p' :=
        (preserves_put key item _ rfl).1
      generalize stateAfter (put key item) { s with pool := p' } = s₁ at hput hkept
      have hrelease : release item s₁ = .ok () { s₁ with pool := s₁.pool.reclaim item } := rfl
      rw [hkept] at hrelease
      dsimp only
      rw [bind_of_ok hput, bind_of_ok hrelease]
      cases stored <;> exact hreturned item (Item.capacity_setValue hset)

/-! ### Commands -/

theorem answer_snd (command : Command) (s : Store β) :
    (s.answer command).2 = stateAfter (answer? command) s := by
  rw [answer, stateAfter]
  cases answer? command s <;> rfl

/-- A command leaves the pool as it was, or with another buffer in the place of the one on top. -/
theorem returned_answer (hp : s.pool.Sound) (command : Command) :
    s.pool.Returned (s.answer command).2.pool := by
  rw [answer_snd]
  cases command with
  | get key => exact returned_answerGet hp key
  | set key flags value =>
    have hset := returned_set hp key flags value
    cases hstored : set key flags value s with
    | error e s' =>
      rw [stateAfter_of_error hstored] at hset
      rw [stateAfter, answer?, bind_of_error hstored]
      exact hset
    | ok _ s' =>
      rw [stateAfter_of_ok hstored] at hset
      rw [stateAfter, answer?, bind_of_ok hstored]
      exact hset
  | delete key =>
    have hanswer : Preserves (fun t : Store β => t.pool = s.pool) (answer? (.delete key)) fun _ => True := by
      refine (preserves_delete key).bind fun deletion _ => ?_
      cases deletion <;> exact Preserves.pure trivial
    rw [(hanswer s rfl).1]
    exact .same
  | contains key =>
    have hpool : (stateAfter (answer? (.contains key)) s).pool = s.pool := pool_contains key s
    rw [hpool]
    exact .same
  | ping => exact .same

/-- A run of commands never touches the buffers below the one on top. -/
theorem returned_answers (hp : s.pool.Sound) (commands : List Command) :
    s.pool.Returned (commands.mapM answer s).2.pool := by
  induction commands generalizing s with
  | nil => exact .same
  | cons command rest ih =>
    have hreturned := returned_answer hp command
    rw [mapM_cons_apply]
    exact hreturned.trans (ih (hreturned.sound hp))

end Store

namespace Connection

variable {β : Type} [Backend β] {s : Store β}

/-- After each command of a run the pool holds as many buffers as before it, or one if it was empty; so it
never holds fewer than at the start, and what lies below the top buffer is as it was. -/
theorem execute_returns_buffers (hp : s.pool.Reachable) (c : Connection) (commands : List Command)
    (command : Command) :
    ∃ responses s₁ response s₂, commands.mapM execute (c, s) = .ok responses (c, s₁) ∧
      execute command (c, s₁) = .ok response (c, s₂) ∧
      (s₂.pool.size = s₁.pool.size ∨ s₁.pool.size = 0 ∧ s₂.pool.size = 1) ∧
      s.pool.size ≤ s₁.pool.size ∧
      s₂.pool.buffers.tail = s₁.pool.buffers.tail ∧ s₁.pool.buffers.tail = s.pool.buffers.tail := by
  have hrun := Store.returned_answers hp.sound commands
  have hcommand := Store.returned_answer (hrun.sound hp.sound) command
  refine ⟨_, _, _, _, mapM_execute commands c s, rfl, hcommand.size_eq, ?_, hcommand.tail_eq, hrun.tail_eq⟩
  rcases hrun.size_eq with hsame | ⟨hempty, -⟩
  · exact Nat.le_of_eq hsame.symm
  · rw [hempty]
    exact Nat.zero_le _

/-- A value that is no item, in a store with one buffer. -/
theorem execute_returns_buffers_of_malformed :
    let pool := ((Pool.empty 4 1 1).serve (.release [1, 2, 3, 4])).2
    let s : Store Scripted :=
      { pool, backend := { reads := [{ outcome := .ok (.found 2), written := [5, 6] }] } }
    s.pool.buffers = [[1, 2, 3, 4]] ∧ ∃ response s',
      execute (.get [97]) (({} : Connection), s) = .ok response ({}, s') ∧ s'.pool.size = 1 := by
  intro pool s
  have hp : s.pool.Reachable := .serve (.empty 4 1 1) _
  obtain ⟨_, s₁, response, s₂, hrun, hexecute, hsize, -⟩ := execute_returns_buffers hp {} [] (.get [97])
  obtain ⟨-, hstate⟩ := pure_eq_ok.1 hrun
  obtain rfl : s = s₁ := congrArg Prod.snd hstate
  refine ⟨rfl, response, s₂, hexecute, ?_⟩
  rcases hsize with hsame | ⟨hempty, -⟩
  · exact hsame
  · contradiction

end Connection

end KeyedStore
