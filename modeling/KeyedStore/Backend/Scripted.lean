import KeyedStore.Backend.Basic
import KeyedStore.Focus

/-!
# The scripted backend

Answers each call with the next of a list prepared for that kind of call, whatever was stored
before, and keeps a record of the calls. It stands for any behaviour a backend may show; a list
that is used up answers with an error.
-/

namespace KeyedStore

/-- One call that a backend received. -/
inductive Call where
  | read (key : Bytes) (size : Nat)
  | write (key value : Bytes)
  | remove (key : Bytes)
  | contains (key : Bytes)
deriving DecidableEq, Repr

/-- The answers still to be given, and the calls received, the latest first. -/
structure Scripted where
  reads : List Reading := []
  writes : List (Except Error Unit) := []
  removals : List (Except Error Removal) := []
  checks : List (Except Error Bool) := []
  calls : List Call := []

namespace Scripted

/-- The error of a list that is used up. -/
def exhausted : Error := .backend (.reported "script exhausted")

/-- The next answer of a list, and what is left of it. -/
def next {α : Type} : List (Except Error α) → Except Error α × List (Except Error α)
  | answer :: rest => (answer, rest)
  | [] => (.error exhausted, [])

def record (s : Scripted) (call : Call) : Scripted := { s with calls := call :: s.calls }

instance : Backend Scripted where
  read key buffer s :=
    let s := s.record (.read key buffer.length)
    match s.reads with
    | answer :: rest => (answer, { s with reads := rest })
    | [] => ({ outcome := .error exhausted }, s)
  write key value s :=
    let (answer, rest) := next s.writes
    liftResult answer { s.record (.write key value) with writes := rest }
  remove key s :=
    let (answer, rest) := next s.removals
    liftResult answer { s.record (.remove key) with removals := rest }
  contains key s :=
    let (answer, rest) := next s.checks
    liftResult answer { s.record (.contains key) with checks := rest }

end Scripted

end KeyedStore
