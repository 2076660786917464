import KeyedStore.Proofs.FrameStreams
import KeyedStore.Proofs.Steps

/-!
# Sessions

A connection is served in turns. A turn takes commands from the front of what is pending, up to its
budget, and answers each before it takes the next; a refused frame is answered and ends the connection,
and a pause takes nothing.
-/

namespace KeyedStore

variable {β : Type}

namespace Response

/-- The frames of responses, one after the other. -/
def frames (responses : List Response) : Bytes :=
  responses.flatMap fun r => r.encode.toOption.getD []

theorem frames_append (front back : List Response) : frames (front ++ back) = frames front ++ frames back :=
  List.flatMap_append

theorem frames_cons (r : Response) (rest : List Response) : frames (r :: rest) = frames [r] ++ frames rest :=
  frames_append [r] rest

end Response

namespace Connection

open Command (readAll)

variable {c c₁ c₂ : Connection} {s : Store β} {budget : Nat} {pause : Pause} {pause? : Option Pause}
  {command : Command} {r : Response} {e : Error}

/-- What is still to be answered: what has arrived and what the client will send. -/
def pending (c : Connection) : Bytes := c.arrived ++ c.incoming.bytes

/-- What a wait for the first byte of a command can come to. -/
inductive Awaits (c : Connection) : Option Pause × Connection → Prop
  | present (h : c.arrived ≠ []) : Awaits c (none, c)
  | arrives {wait : Nat} {first : UInt8} {rest : Bytes} {later : Incoming} (h : c.arrived = [])
      (hi : c.incoming = .sends wait first rest later) :
      Awaits c (none, { c with arrived := first :: rest, incoming := later })
  | ends {wait : Nat} (h : c.arrived = []) (hi : c.incoming = .ends wait) : Awaits c (some .closed, c)
  | pauses {later : Incoming} (h : c.arrived = []) (hbytes : later.bytes = c.incoming.bytes)
      (hcloses : c.incoming.Closes → later.Closes ∧ ∃ wait rest,
        c.incoming.waits = (wait + pollInterval) :: rest ∧ later.waits = wait :: rest) :
      Awaits c (c.pause later)

theorem awaits_await (c : Connection) : Awaits c c.await := by
  rw [await]
  cases harrived : c.arrived with
  | cons b bs => exact .present (by rw [harrived]; exact List.cons_ne_nil b bs)
  | nil =>
    cases hincoming : c.incoming with
    | silence => exact .pauses harrived (by rw [hincoming]) (by rw [hincoming]; exact False.elim)
    | ends wait =>
      by_cases hsoon : wait < pollInterval
      · exact if_pos hsoon ▸ .ends harrived hincoming
      · have hwait := Nat.sub_add_cancel (Nat.le_of_not_lt hsoon)
        refine if_neg hsoon ▸ .pauses harrived (by rw [hincoming]; rfl) fun _ => ⟨trivial, ?_⟩
        exact ⟨wait - pollInterval, [], by rw [hincoming, hwait]; rfl, rfl⟩
    | sends wait first rest later =>
      by_cases hsoon : wait < pollInterval
      · exact if_pos hsoon ▸ .arrives harrived hincoming
      · have hwait := Nat.sub_add_cancel (Nat.le_of_not_lt hsoon)
        refine if_neg hsoon ▸ .pauses harrived (by rw [hincoming]; rfl) ?_
        rw [hincoming]
        exact fun hcloses => ⟨hcloses, wait - pollInterval, later.waits, by rw [hwait]; rfl, rfl⟩

theorem await_sent (h : c.await = (pause?, c₁)) : c₁.sent = c.sent := by
  have hawaits := c.awaits_await
  rw [h] at hawaits
  cases hawaits <;> rfl

theorem await_pending (h : c.await = (pause?, c₁)) : c₁.pending = c.pending := by
  have hawaits := c.awaits_await
  rw [h] at hawaits
  cases hawaits with
  | present _ => rfl
  | arrives harrived hincoming =>
    rw [pending, pending, harrived, hincoming]
    rfl
  | ends _ _ => rfl
  | pauses _ hbytes _ => exact congrArg (c.arrived ++ ·) hbytes

theorem await_eq_none (h : c.await = (none, c₁)) :
    c₁.readTimeout = c.readTimeout ∧ c₁.incoming.waits <:+ c.incoming.waits ∧
      (c.incoming.Closes → c₁.incoming.Closes) := by
  have hawaits := c.awaits_await
  rw [h] at hawaits
  cases hawaits with
  | present _ => exact ⟨rfl, List.suffix_refl _, id⟩
  | arrives _ hincoming =>
    refine ⟨rfl, ?_, ?_⟩
    · rw [hincoming]
      exact List.suffix_cons _ _
    · rw [hincoming]
      exact id

/-- A connection gets a command, a refusal or the end of the stream once it has waited for it. -/
def Gets (c : Connection) (result? : Option (Except Error Command)) (c₂ : Connection) : Prop :=
  ∃ c₁, c.await = (none, c₁) ∧ c₁.takeCommand = (result?, c₂)

/-- The connection took something from the front of what is pending, and nothing else happened. -/
structure Took (c c₂ : Connection) : Prop where
  sent : c₂.sent = c.sent
  readTimeout : c₂.readTimeout = c.readTimeout
  waits : c₂.incoming.waits <:+ c.incoming.waits
  closes : c.incoming.Closes → c₂.incoming.Closes

/-- A command, or the cause of a refusal, is taken from the front of what is pending. -/
theorem Gets.take {result : Except Error Command} (h : c.Gets (some result) c₂) :
    Frame.ready c.pending = true ∧ Command.take c.pending = (result, c₂.pending) ∧ Took c c₂ := by
  obtain ⟨c₁, hawait, htake⟩ := h
  obtain ⟨htimeout, hwaits₁, hcloses₁⟩ := await_eq_none hawait
  have hpending := await_pending hawait
  have hsent := await_sent hawait
  rw [takeCommand] at htake
  split at htake
  · cases htake
  · next arrived incoming hframe =>
    obtain ⟨hready, hbytes, hwaits, hcloses⟩ := Incoming.awaitFrame_eq_some hframe
    have hresult := Command.take_append hready incoming.bytes
    have hready' := Frame.ready_append hready incoming.bytes
    change arrived ++ incoming.bytes = c₁.pending at hbytes
    rw [hbytes, hpending] at hresult hready'
    cases htake
    exact ⟨hready', hresult, hsent, htimeout, hwaits.trans hwaits₁,
      fun h => hcloses (hcloses₁ h)⟩

variable [Backend β]

/-! ### The cases of a turn -/

/-- What a turn can do with its budget: the commands that it executes, the refused frame that it comes
to if it does, and how and with which connection and store it ends. -/
inductive Turn : Nat → Connection → Store β → List Command → Option Error → Except Error Pause →
    Connection → Store β → Prop
  | spent {c : Connection} {s : Store β} : Turn 0 c s [] none (.ok .yield) c s
  | paused {budget : Nat} {c c₁ : Connection} {s : Store β} {pause : Pause}
      (h : c.await = (some pause, c₁)) : Turn (budget + 1) c s [] none (.ok pause) c₁ s
  | ended {budget : Nat} {c c₂ : Connection} {s : Store β} (h : c.Gets none c₂) :
      Turn (budget + 1) c s [] none (.ok .closed) c₂ s
  | refused {budget : Nat} {c c₂ c' : Connection} {s : Store β} {e : Error}
      (h : c.Gets (some (.error e)) c₂)
      (hsent : c'.sent = c₂.sent ++ Response.frames [.ofMessage e.message]) :
      Turn (budget + 1) c s [] (some e) (.error e) c' s
  | unsent {budget : Nat} {c c₂ : Connection} {s : Store β} {command : Command} {e : Error}
      (h : c.Gets (some (.ok command)) c₂) (he : (s.answer command).1.encode = .error e) :
      Turn (budget + 1) c s [command] none (.error e) c₂ (s.answer command).2
  | answered {budget : Nat} {c c₂ c' : Connection} {s s' : Store β} {command : Command}
      {frame : Bytes} {done : List Command} {refusal? : Option Error} {ending : Except Error Pause}
      (h : c.Gets (some (.ok command)) c₂) (he : (s.answer command).1.encode = .ok frame)
      (hnext : Turn budget (c₂.reply frame) (s.answer command).2 done refusal? ending c' s') :
      Turn (budget + 1) c s (command :: done) refusal? ending c' s'

/-- The responses to commands and, if there is one, to a refused frame. -/
def responses (s : Store β) (commands : List Command) (refusal? : Option Error) : List Response :=
  (commands.mapM Store.answer s).1 ++ refusal?.toList.map fun e => .ofMessage e.message

theorem responses_append (s : Store β) (front back : List Command) (refusal? : Option Error) :
    responses s (front ++ back) refusal? =
      (front.mapM Store.answer s).1 ++ responses (front.mapM Store.answer s).2 back refusal? := by
  rw [responses, mapM_append_apply, List.append_assoc]
  rfl

namespace Turn

variable {c' : Connection} {s' : Store β} {done : List Command} {refusal? : Option Error}
  {ending : Except Error Pause}

theorem length_le (h : Turn budget c s done refusal? ending c' s') : done.length ≤ budget := by
  induction h with
  | spent => exact Nat.le_refl _
  | paused _ => exact Nat.zero_le _
  | ended _ => exact Nat.zero_le _
  | refused _ _ => exact Nat.zero_le _
  | unsent _ _ => exact Nat.succ_le_succ (Nat.zero_le _)
  | answered _ _ _ ih => exact Nat.succ_le_succ ih

end Turn

end Connection

end KeyedStore
