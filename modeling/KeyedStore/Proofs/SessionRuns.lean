import KeyedStore.Proofs.Sessions

/-!
# Runs of turns

A connection is served in turns until it is closed or fails. As long as the client is in time, every turn
that does not end the connection leaves the rest of what is pending to the next one. So the turns
together answer what the whole stream asks for, however the turns are cut and the stream arrives.
-/

namespace KeyedStore.Connection

open Command (readAll)

variable {β : Type} [Backend β] {c c₁ c₂ : Connection} {s : Store β} {budget : Nat} {pause : Pause}
  {command : Command}

/-! ### Clients in time -/

/-- The connections that a connection becomes while it is served, whatever the answers are. -/
inductive Becomes : Connection → Connection → Prop
  | refl (c : Connection) : Becomes c c
  | paused {c c₁ c₂ : Connection} (h : c.await = (some .idle, c₁)) (h' : Becomes c₁ c₂) : Becomes c c₂
  | answered {c c₁ c₂ : Connection} {command : Command} {frame : Bytes}
      (h : c.Gets (some (.ok command)) c₁) (h' : Becomes (c₁.reply frame) c₂) : Becomes c c₂

/-- The read timeout expires before the next command is there, between two frames or inside one. -/
def Expires (c : Connection) : Prop :=
  c.readTimeout ≠ 0 ∧
    ((c.readTimeout ≤ c.idle + pollInterval ∧ ∃ later, c.await = c.pause later) ∨
      ∃ c₁, c.await = (none, c₁) ∧ c₁.incoming.Stalls c.readTimeout c₁.arrived)

/-- The client ends the stream at last, and no read timeout expires. -/
structure InTime (c : Connection) : Prop where
  closes : c.incoming.Closes
  holds : ∀ c', c.Becomes c' → ¬ c'.Expires

namespace InTime

variable (hc : c.InTime)

include hc

theorem reply (h : c.Gets (some (.ok command)) c₂) (frame : Bytes) : (c₂.reply frame).InTime where
  closes := h.take.2.2.closes hc.closes
  holds c' hbecomes := hc.holds c' (.answered h hbecomes)

end InTime

/-- The client never waits for as long as the read timeout. -/
structure Prompt (c : Connection) : Prop where
  closes : c.incoming.Closes
  waits : ∀ wait ∈ c.incoming.waits, wait < c.readTimeout
  idle : ∀ wait ∈ c.incoming.waits.head?, c.idle + wait < c.readTimeout

namespace Prompt

variable (hc : c.Prompt)

include hc

theorem reply (h : c.Gets (some (.ok command)) c₂) (frame : Bytes) : (c₂.reply frame).Prompt := by
  obtain ⟨-, -, htook⟩ := h.take
  have hwaits : ∀ wait ∈ c₂.incoming.waits, wait < c₂.readTimeout := by
    rw [htook.readTimeout]
    exact fun wait hwait => hc.waits wait (htook.waits.mem hwait)
  refine ⟨htook.closes hc.closes, hwaits, fun wait hwait => ?_⟩
  change 0 + wait < c₂.readTimeout
  rw [Nat.zero_add]
  exact hwaits wait (List.mem_of_mem_head? hwait)

end Prompt

/-- Every command of a list is answered by a response that fits a frame. -/
def Sends (s : Store β) (commands : List Command) : Prop :=
  ∀ r ∈ (commands.mapM Store.answer s).1, ∃ frame, r.encode = .ok frame

theorem Sends.tail {front back : List Command} (hs : Sends s (front ++ back)) :
    Sends (front.mapM Store.answer s).2 back := by
  intro r hr
  refine hs r ?_
  rw [mapM_append_apply]
  exact List.mem_append_right _ hr

/-! ### Pauses and ends -/

/-- How a connection ends, given the cause of the refusal of a frame if there is one. -/
def endingOf : Option Error → Except Error Pause
  | none => .ok .closed
  | some e => .error e

/-- The connection was served up to a pause: it answered commands from the front of what was pending,
and answers the others later. -/
def Paused (c : Connection) (s : Store β) (done : List Command) (c' : Connection) : Prop :=
  readAll c.pending = (done ++ (readAll c'.pending).1, (readAll c'.pending).2) ∧
    c'.sent = c.sent ++ Response.frames (done.mapM Store.answer s).1

/-- The connection was served to its end: it answered all that was pending. -/
def Ended (c : Connection) (s : Store β) (ending : Except Error Pause) (c' : Connection)
    (s' : Store β) : Prop :=
  ending = endingOf (readAll c.pending).2 ∧ s' = ((readAll c.pending).1.mapM Store.answer s).2 ∧
    c'.sent = c.sent ++ Response.frames (responses s (readAll c.pending).1 (readAll c.pending).2)

theorem Paused.refl (c : Connection) (s : Store β) : c.Paused s [] c :=
  ⟨rfl, (List.append_nil _).symm⟩

theorem Paused.trans {front back : List Command} (h : c.Paused s front c₁)
    (h' : c₁.Paused (front.mapM Store.answer s).2 back c₂) : c.Paused s (front ++ back) c₂ := by
  refine ⟨?_, ?_⟩
  · rw [h.1, h'.1, List.append_assoc]
  · rw [h'.2, h.2, mapM_append_apply, Response.frames_append, List.append_assoc]

theorem Paused.ended {front : List Command} {ending : Except Error Pause} {c' : Connection}
    {s' : Store β} (h : c.Paused s front c₁)
    (h' : c₁.Ended (front.mapM Store.answer s).2 ending c' s') : c.Ended s ending c' s' := by
  obtain ⟨hending, hstore, hsent⟩ := h'
  refine ⟨?_, ?_, ?_⟩
  · rw [hending, h.1]
  · rw [hstore, h.1, mapM_append_apply]
  · rw [hsent, h.2, h.1, responses_append, Response.frames_append, List.append_assoc]

end KeyedStore.Connection
