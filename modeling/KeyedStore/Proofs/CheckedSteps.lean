import KeyedStore.Proofs.ItemParts
import KeyedStore.Proofs.Steps

/-!
# Steps that check where they reach

A checked step takes bytes only from where a string has some and takes no number from a smaller one; before
it would, it is stopped. So a step that comes to what it comes to without the checks reaches for nothing
that is not there. A string is also gone through from the front, what is left of it being the state, and a
file from the place where it stands; a file that ends too early is an error, and nothing is stopped.
-/

namespace KeyedStore

/-- Why a checked step gives nothing: it reports an error, or it was stopped. -/
inductive Halt where
  | reported (cause : Error)
  | stopped
deriving DecidableEq, Repr

namespace Checked

variable {σ α β : Type} {span : Span} {part bs : Bytes} {a : α} {err : Error} {result : Except Error α}
  {n pos : Nat} {s s' : σ} {halt : Halt} {m : EStateM Halt σ α} {f : α → EStateM Halt σ β}

/-- A result as that of a step that was not stopped. -/
def report (result : Except Error α) : EStateM Halt σ α := liftResult (result.mapError .reported)

/-- Reports an error if there is a reason for it. -/
def refuse (p : Prop) [Decidable p] (err : Error) : EStateM Halt σ Unit :=
  if p then throw (.reported err) else pure ()

/-- The difference of two numbers, of which the second may not be the larger. -/
def subtract (n k : Nat) : EStateM Halt σ Nat := if k ≤ n then pure (n - k) else throw .stopped

/-- The bytes inside a span, which may not reach past the string. -/
def slice (span : Span) (bs : Bytes) : EStateM Halt σ Bytes :=
  if span.start ≤ span.stop ∧ span.stop ≤ bs.length then pure (span.slice bs) else throw .stopped

theorem report_of_ok (h : result = .ok a) (s : σ) : report result s = .ok a s := by
  rw [h]
  rfl

theorem report_of_error (h : result = .error err) (s : σ) :
    report result s = .error (.reported err) s := by
  rw [h]
  rfl

theorem refuse_of_true {p : Prop} [Decidable p] (h : p) (err : Error) (s : σ) :
    refuse p err s = .error (.reported err) s := by
  rw [refuse, if_pos h]
  rfl

theorem refuse_of_false {p : Prop} [Decidable p] (h : ¬ p) (err : Error) (s : σ) :
    refuse p err s = .ok () s := by
  rw [refuse, if_neg h]
  rfl

theorem subtract_of_le {n k : Nat} (h : k ≤ n) (s : σ) : subtract n k s = .ok (n - k) s := by
  rw [subtract, if_pos h]
  rfl

theorem slice_of_covers (h : span.Covers part bs) (s : σ) : slice span bs s = .ok part s := by
  rw [slice, if_pos h.inside, h.slice_eq]
  rfl

theorem slice_take (h : n ≤ bs.length) (s : σ) :
    slice { start := 0, stop := n } bs s = .ok (bs.take n) s := by
  rw [slice, if_pos ⟨Nat.zero_le n, h⟩]
  rfl

/-! ### Strings and files -/

/-- Takes bytes off the front of what is left of a string. -/
def take (n : Nat) : EStateM Halt Bytes Bytes := do
  match Bytes.split? n (← get) with
  | some (part, rest) =>
    set rest
    return part
  | none => throw .stopped

/-- Takes a number off the front of what is left of a string, least significant byte first. -/
def number (w : Nat) : EStateM Halt Bytes Nat := return Bytes.ofLE (← take w)

/-- Reads bytes of a file from where it stands, and moves on behind them. -/
def read (file : Bytes) (n : Nat) : EStateM Halt Nat Bytes := do
  let pos ← get
  if pos + n ≤ file.length then
    set (pos + n)
    return (file.drop pos).take n
  else throw (.reported (.file .endOfData))

/-- Goes to a place in a file. -/
def seek (place : Nat) : EStateM Halt Nat Unit := set place

theorem take_of_le (h : n ≤ bs.length) : take n bs = .ok (bs.take n) (bs.drop n) := by
  rw [take, get_bind, Bytes.split?_eq, if_pos h]
  rfl

theorem take_append (part rest : Bytes) : take part.length (part ++ rest) = .ok part rest := by
  rw [take, get_bind, Bytes.split?_append]
  rfl

theorem number_of_le (h : n ≤ bs.length) : number n bs = .ok (Bytes.ofLE (bs.take n)) (bs.drop n) :=
  bind_of_ok (take_of_le h)

theorem number_le_append {w : Nat} (h : n < Bytes.bound w) (rest : Bytes) :
    number w (Bytes.le w n ++ rest) = .ok n rest := by
  have htake := take_append (Bytes.le w n) rest
  rw [Bytes.length_le] at htake
  rw [number, bind_of_ok htake, Bytes.ofLE_le h]
  rfl

theorem read_of_le {file : Bytes} (h : pos + n ≤ file.length) :
    read file n pos = .ok ((file.drop pos).take n) (pos + n) := by
  rw [read, get_bind, if_pos h]
  rfl

theorem seek_eq (place pos : Nat) : seek place pos = .ok () place := rfl

/-! ### Results -/

/-- What a step comes to, whatever state it leaves. -/
def resultOf (m : EStateM Halt σ α) (s : σ) : Except Halt α :=
  match m s with
  | .ok a _ => .ok a
  | .error halt _ => .error halt

theorem resultOf_of_ok (h : m s = .ok a s') : resultOf m s = .ok a := by
  rw [resultOf, h]

theorem resultOf_of_error (h : m s = .error halt s') : resultOf m s = .error halt := by
  rw [resultOf, h]

theorem resultOf_bind_of_ok (h : m s = .ok a s') : resultOf (m >>= f) s = resultOf (f a) s' := by
  rw [resultOf, bind_of_ok h]
  rfl

/-- A step may be replaced by one that comes to the same, also by one from another state. -/
theorem resultOf_bind_congr {m' : EStateM Halt σ α} (h : m s = m' s') :
    resultOf (m >>= f) s = resultOf (m' >>= f) s' := by
  change resultOf (EStateM.bind m f) s = resultOf (EStateM.bind m' f) s'
  rw [resultOf, resultOf, EStateM.bind, EStateM.bind, h]

theorem resultOf_liftResult_bind (result : Except Halt α) (s : σ) :
    resultOf (liftResult result >>= f) s = result.bind fun a => resultOf (f a) s := by
  cases result with
  | ok a => exact resultOf_bind_of_ok (liftResult_of_ok rfl s)
  | error halt => exact resultOf_of_error (bind_of_error (liftResult_of_error rfl s))

theorem resultOf_refuse_bind (p : Prop) [Decidable p] (err : Error) (f : Unit → EStateM Halt σ α) (s : σ) :
    resultOf (refuse p err >>= f) s = if p then .error (.reported err) else resultOf (f ()) s := by
  unfold refuse
  split
  · rfl
  · rfl

end Checked

end KeyedStore
