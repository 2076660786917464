import KeyedStore.Proofs.FaithfulBackends
import KeyedStore.Proofs.FreshDirectories
import KeyedStore.Proofs.StoreSteps
import KeyedStore.Proofs.WireSizes
import KeyedStore.Service.Connection
import Mathlib.Logic.Function.Basic

/-!
# Answers to commands

A store over a faithful backend answers commands as a map from keys to flags and values does, whatever
the buffers of its pool hold. The relation that carries the proof: the backend holds, for each key of the
map, the image of an item with that key, its flags and its value.
-/

namespace KeyedStore

open Bytes

/-- The flags and the value of every key that is present. -/
abbrev Records := Bytes → Option (UInt32 × Bytes)

/-- The answer that says whether a key is present. -/
def Response.ofPresence (present : Bool) : Response := { status := if present then .ok else .notFound }

def Response.ofRecord? : Option (UInt32 × Bytes) → Response
  | some (flags, value) => .ofValue flags value
  | none => { status := .notFound }

theorem Values.revised_eq (v : Values) (op : Operation) :
    v.revised op = Function.update v op.key op.version.live? := by
  funext key
  rw [revised, Operation.revise]
  by_cases hk : op.key = key
  · rw [if_pos hk, ← hk, Function.update_self]
  · rw [if_neg hk, Function.update_of_ne (Ne.symm hk)]

namespace Records

variable {m : Records} {key value : Bytes} {flags : UInt32} {c : Command}

/-- What a map answers to a command. A key that is too long is refused, and nothing changes. -/
def answer : Command → StateM Records Response
  | .get key => fun m => (.ofRecord? (m key), m)
  | .set key flags value => fun m =>
    if key.length ≤ Header.maxKeyLength then
      ({ status := .ok }, Function.update m key (some (flags, value)))
    else (.ofMessage (Error.keyTooLong key.length).message, m)
  | .delete key => fun m => (.ofPresence (m key).isSome, Function.update m key none)
  | .contains key => fun m => (.ofPresence (m key).isSome, m)
  | .ping => fun m => ({ status := .ok, payload := some Response.pong }, m)

theorem answer_set_of_short (h : key.length ≤ Header.maxKeyLength) (flags : UInt32) (value : Bytes)
    (m : Records) : m.answer (.set key flags value) =
      ({ status := .ok }, Function.update m key (some (flags, value))) :=
  if_pos h

theorem answer_set_of_long (h : Header.maxKeyLength < key.length) (flags : UInt32) (value : Bytes)
    (m : Records) : m.answer (.set key flags value) =
      (.ofMessage (Error.keyTooLong key.length).message, m) :=
  if_neg (Nat.not_le.2 h)

/-- The images of the items that a map stands for. -/
def values (m : Records) : Values := fun key =>
  (m key).map fun record => Item.image key record.1 record.2

theorem isSome_values (m : Records) (key : Bytes) : (m.values key).isSome = (m key).isSome :=
  Option.isSome_map

theorem values_update (m : Records) (key : Bytes) (record? : Option (UInt32 × Bytes)) :
    values (Function.update m key record?) =
      Function.update m.values key (record?.map fun record => Item.image key record.1 record.2) := by
  funext other
  by_cases hk : other = key
  · rw [hk, values, Function.update_self, Function.update_self]
  · rw [values, Function.update_of_ne hk, Function.update_of_ne hk, values]

theorem values_insert (m : Records) (key : Bytes) (flags : UInt32) (value : Bytes) :
    values (Function.update m key (some (flags, value))) =
      m.values.revised (.put key (Item.image key flags value)) := by
  rw [values_update, Values.revised_eq]
  rfl

theorem values_erase (m : Records) (key : Bytes) :
    values (Function.update m key none) = m.values.revised (.delete key) := by
  rw [values_update, Values.revised_eq]
  rfl

/-! ### Sizes of records -/

/-- A key and a value that can be stored, and that came in one frame. -/
structure Fits (key value : Bytes) : Prop where
  short : key.length ≤ Header.maxKeyLength
  framed : 8 + key.length + value.length ≤ Frame.maxPayload

namespace Fits

variable (hf : Fits key value)

include hf

theorem item : Item.Fits key value.length where
  key := hf.short
  value := by
    have hframe := hf.framed
    rw [Frame.maxPayload] at hframe
    rw [bound_four, Header.terminator, List.length_cons, List.length_singleton]
    omega

theorem length_image_le (flags : UInt32) : (Item.image key flags value).length ≤ 2 * Frame.maxPayload := by
  have hline := Suffix.length_line_le flags hf.item.lt_bound
  have hframe := hf.framed
  rw [Item.length_image, Item.length_front, Header.size, Header.terminator, List.length_cons,
    List.length_singleton]
  rw [Frame.maxPayload] at hframe ⊢
  omega

theorem loggable (flags : UInt32) : (Operation.put key (Item.image key flags value)).Loggable := by
  have hkey := hf.short
  have himage := hf.length_image_le flags
  rw [Header.maxKeyLength] at hkey
  rw [Frame.maxPayload] at himage
  simp only [Operation.Loggable, Journal.encodePayload, Journal.encodeBlob, List.length_append,
    length_le, Journal.maxPayload]
  omega

end Fits

/-- Every record of the map fits the frame of the command that stores it. -/
def Sized (m : Records) : Prop := ∀ key flags value, m key = some (flags, value) → Fits key value

namespace Sized

theorem empty : Sized fun _ => none := by
  intro key flags value h
  contradiction

theorem update (hm : m.Sized) {record? : Option (UInt32 × Bytes)}
    (h : ∀ flags value, record? = some (flags, value) → Fits key value) :
    Sized (Function.update m key record?) := by
  intro other flags value hother
  by_cases hk : other = key
  · rw [hk, Function.update_self] at hother
    rw [hk]
    exact h flags value hother
  · rw [Function.update_of_ne hk] at hother
    exact hm other flags value hother

theorem insert (hm : m.Sized) (hf : Fits key value) (flags : UInt32) :
    Sized (Function.update m key (some (flags, value))) := by
  refine hm.update fun _ _ h => ?_
  cases h
  exact hf

theorem erase (hm : m.Sized) (key : Bytes) : Sized (Function.update m key none) :=
  hm.update fun _ _ h => by contradiction

/-- The answer to a command that came in a frame fits a frame. -/
theorem encode_answer (hm : m.Sized) (hc : c.Sized) : ∃ frame, (m.answer c).1.encode = .ok frame := by
  cases c with
  | get key =>
    change ∃ frame, (Response.ofRecord? (m key)).encode = .ok frame
    cases hv : m key with
    | none => exact Response.encode_of_le (Nat.zero_le _)
    | some record =>
      obtain ⟨flags, value⟩ := record
      have hframe := (hm key flags value hv).framed
      refine Response.encode_of_le ?_
      change (be 4 flags.toNat ++ value).length ≤ Frame.maxPayload
      rw [List.length_append, length_be]
      omega
  | set key flags value =>
    rw [Command.Sized] at hc
    rcases Nat.lt_or_ge Header.maxKeyLength key.length with hkey | hkey
    · rw [answer_set_of_long hkey]
      exact Response.encode_keyTooLong (by omega)
    · rw [answer_set_of_short hkey]
      exact Response.encode_of_le (Nat.zero_le _)
  | delete key => exact Response.encode_of_le (Nat.zero_le _)
  | contains key => exact Response.encode_of_le (Nat.zero_le _)
  | ping => exact Response.encode_of_le (show 4 ≤ Frame.maxPayload by decide)

theorem answer (hm : m.Sized) (hc : c.Sized) : (m.answer c).2.Sized := by
  cases c with
  | set key flags value =>
    rcases Nat.lt_or_ge Header.maxKeyLength key.length with hkey | hkey
    · rw [answer_set_of_long hkey]
      exact hm
    · rw [answer_set_of_short hkey]
      exact hm.insert ⟨hkey, hc⟩ flags
  | delete key => exact hm.erase key
  | get key => exact hm
  | contains key => exact hm
  | ping => exact hm

end Sized

end Records

/-! ### Stores -/

namespace Store

variable {β : Type} [Backend β] {Holds : Nat → β → Values → Prop} {Ready : β → Prop} {s s' : Store β}
  {m : Records} {n : Nat} {key value : Bytes} {c : Command} {r : Response} {e : Error}

/-- A store whose backend holds the images of the items in a map. -/
structure Mirrors (Holds : Nat → β → Values → Prop) (n : Nat) (s : Store β) (m : Records) : Prop where
  pool : s.pool.Uniform
  backend : Holds n s.backend m.values
  sized : m.Sized

theorem answer_of_ok (h : answer? c s = .ok r s') : s.answer c = (r, s') := by
  rw [answer, h]

theorem answer_of_error (h : answer? c s = .error e s') : s.answer c = (.ofMessage e.message, s') := by
  rw [answer, h]

theorem Mirrors.reads (hf : Backend.Faithful Holds Ready) (hm : s.Mirrors Holds n m) (key : Bytes) :
    s.Reads key (m.values key) :=
  hf.read hm.backend key

theorem Mirrors.answer_get (hf : Backend.Faithful Holds Ready) (hm : s.Mirrors Holds (n + 1) m)
    (key : Bytes) :
    ∃ s', s.answer (.get key) = (.ofRecord? (m key), s') ∧ s'.Mirrors Holds n m := by
  have hreads := hm.reads hf key
  have hback := hf.mono hm.backend
  rw [Records.values] at hreads
  cases hv : m key with
  | none =>
    rw [hv] at hreads
    obtain ⟨pool, hpool, hget⟩ := get_of_none hreads hm.pool
    refine ⟨{ s with pool }, answer_of_ok ?_, hpool, hback, hm.sized⟩
    rw [answer?, answerGet, bind_of_ok hget]
    rfl
  | some record =>
    obtain ⟨flags, value⟩ := record
    have hfits := hm.sized key flags value hv
    rw [hv] at hreads
    obtain ⟨rest, pool, hpool, hget⟩ := get_of_image hreads hm.pool hfits.item
    refine ⟨{ s with pool := pool.reclaim { buffer := Item.image key flags value ++ rest } },
      answer_of_ok ?_, hpool.reclaim _, hback, hm.sized⟩
    rw [answer?, answerGet, bind_of_ok hget]
    dsimp only
    rw [bind_of_ok (show release _ { s with pool } = .ok () _ from rfl),
      bind_of_ok (liftResult_of_ok (hfits.item.flags_image flags rest) _),
      bind_of_ok (liftResult_of_ok (hfits.item.value_image flags rest) _)]
    rfl

theorem Mirrors.answer_set (hf : Backend.Faithful Holds Ready) (hm : s.Mirrors Holds (n + 1) m)
    (hr : Ready s.backend) {flags : UInt32} (hc : (Command.set key flags value).Sized) :
    ∃ s', s.answer (.set key flags value) = ((m.answer (.set key flags value)).1, s') ∧
      s'.Mirrors Holds n (m.answer (.set key flags value)).2 := by
  rcases Nat.lt_or_ge Header.maxKeyLength key.length with hkey | hkey
  · rw [Records.answer_set_of_long hkey]
    refine ⟨s, answer_of_error ?_, hm.pool, hf.mono hm.backend, hm.sized⟩
    rw [answer?, bind_of_error (set_of_key hkey flags value s)]
  · have hfits : Records.Fits key value := ⟨hkey, hc⟩
    obtain ⟨b, hwrite, hb⟩ := hf.write hm.backend hr (hfits.loggable flags)
    obtain ⟨pool, hpool, hset⟩ := set_of_fits hm.pool hfits.item hwrite
    rw [← Records.values_insert] at hb
    rw [Records.answer_set_of_short hkey]
    refine ⟨{ pool, backend := b }, answer_of_ok ?_, hpool, hb, hm.sized.insert hfits flags⟩
    rw [answer?, bind_of_ok hset]
    rfl

theorem Mirrors.answer_delete (hf : Backend.Faithful Holds Ready) (hm : s.Mirrors Holds (n + 1) m)
    (hr : Ready s.backend) (key : Bytes) :
    ∃ s', s.answer (.delete key) = (.ofPresence (m key).isSome, s') ∧
      s'.Mirrors Holds n (m.answer (.delete key)).2 := by
  obtain ⟨b, hremove, hb⟩ := hf.remove hm.backend hr key
  rw [Records.isSome_values] at hremove
  rw [← Records.values_erase] at hb
  refine ⟨{ s with backend := b }, answer_of_ok ?_, hm.pool, hb, hm.sized.erase key⟩
  rw [answer?, bind_of_ok (delete_of_ok hremove)]
  cases (m key).isSome <;> rfl

theorem Mirrors.answer_contains (hf : Backend.Faithful Holds Ready)
    (hm : s.Mirrors Holds (n + 1) m) (key : Bytes) :
    ∃ s', s.answer (.contains key) = (.ofPresence (m key).isSome, s') ∧ s'.Mirrors Holds n m := by
  have hcontains := hf.contains hm.backend key
  rw [Records.isSome_values] at hcontains
  refine ⟨s, answer_of_ok ?_, hm.pool, hf.mono hm.backend, hm.sized⟩
  simp only [answer?, contains, hcontains]
  rfl

/-- A store answers a command as the map that it mirrors does, and mirrors the map again. -/
theorem Mirrors.answer (hf : Backend.Faithful Holds Ready) (hm : s.Mirrors Holds (n + 1) m)
    (hr : Ready s.backend) (hc : c.Sized) :
    ∃ s', s.answer c = ((m.answer c).1, s') ∧ s'.Mirrors Holds n (m.answer c).2 := by
  cases c with
  | get key => exact hm.answer_get hf key
  | set key flags value => exact hm.answer_set hf hr hc
  | delete key => exact hm.answer_delete hf hr key
  | contains key => exact hm.answer_contains hf key
  | ping => exact ⟨s, rfl, hm.pool, hf.mono hm.backend, hm.sized⟩

/-- The backend is ready in every state that the store passes through when it answers commands. -/
def StaysReady (Ready : β → Prop) (commands : List Command) (s : Store β) : Prop :=
  ∀ front, front <+: commands → Ready (front.mapM answer s).2.backend

theorem StaysReady.tail {rest : List Command} (hr : StaysReady Ready (c :: rest) s) :
    StaysReady Ready rest (s.answer c).2 := by
  intro front hfront
  have hready := hr (c :: front) ((List.prefix_cons_inj c).2 hfront)
  rwa [mapM_cons_apply] at hready

/-- A store answers commands as the map that it mirrors does, and mirrors the map again. -/
theorem Mirrors.answerAll (hf : Backend.Faithful Holds Ready) (commands : List Command)
    (hm : s.Mirrors Holds (n + commands.length) m) (hr : StaysReady Ready commands s)
    (hc : ∀ c ∈ commands, c.Sized) :
    ∃ s', commands.mapM Store.answer s = ((commands.mapM Records.answer m).1, s') ∧
      s'.Mirrors Holds n (commands.mapM Records.answer m).2 := by
  induction commands generalizing s m with
  | nil => exact ⟨s, rfl, hm⟩
  | cons c rest ih =>
    obtain ⟨s₁, hanswer, hm₁⟩ := hm.answer hf (hr [] List.nil_prefix) (hc c List.mem_cons_self)
    have hr₁ := hr.tail
    rw [hanswer] at hr₁
    obtain ⟨s₂, hrest, hm₂⟩ := ih hm₁ hr₁ fun c' hc' => hc c' (List.mem_cons_of_mem c hc')
    refine ⟨s₂, ?_, ?_⟩
    · rw [mapM_cons_apply, hanswer, hrest, mapM_cons_apply]
    · rw [mapM_cons_apply]
      exact hm₂

end Store

theorem Records.Sized.encode_answers {m : Records} (hm : m.Sized) (commands : List Command)
    (hc : ∀ c ∈ commands, c.Sized) :
    ∀ r ∈ (commands.mapM Records.answer m).1, ∃ frame, r.encode = .ok frame := by
  induction commands generalizing m with
  | nil =>
    intro r hr
    contradiction
  | cons c rest ih =>
    have hsized := hc c List.mem_cons_self
    rw [mapM_cons_apply]
    intro r hr
    rcases List.mem_cons.1 hr with rfl | hr
    · exact hm.encode_answer hsized
    · exact ih (hm.answer hsized) (fun c' hc' => hc c' (List.mem_cons_of_mem c hc')) r hr

namespace Engine

end Engine

namespace Store

variable {pool : Pool} {s : Store (Engine × Disk)} {m : Records}

end Store

namespace Connection

variable {β : Type} [Backend β]

theorem mapM_execute (commands : List Command) (c : Connection) (s : Store β) :
    commands.mapM execute (c, s) =
      .ok (commands.mapM Store.answer s).1 (c, (commands.mapM Store.answer s).2) := by
  induction commands generalizing s with
  | nil => rfl
  | cons command rest ih =>
    have hexecute : execute command (c, s) = .ok (s.answer command).1 (c, (s.answer command).2) := rfl
    rw [List.mapM_cons, bind_of_ok hexecute, bind_of_ok (ih _), mapM_cons_apply]
    rfl

end Connection

end KeyedStore
