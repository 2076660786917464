/-!
# Options

Reads the arguments of a program: options with a long name or a letter, and words. A value follows
its option as the next argument or is attached to it, letters may be joined, and two dashes alone
end the options. Arguments are taken one by one, and the first that is refused, or that asks for
information, decides.
-/

namespace KeyedStore.CommandLine

/-- What an option is for. -/
inductive Action where
  /-- It asks for information on the program, which is then all that the program does. -/
  | inform
  /-- It is given or not. -/
  | switch
  /-- It is given any number of times. -/
  | count
  /-- It has a value, which must be accepted. -/
  | take (accepts : String → Bool)

/-- An option with its long name and its letter, if it has one. -/
structure Opt where
  name : String
  letter : Option Char := none
  action : Action

/-- What arguments a program takes. -/
structure Grammar where
  options : List Opt
  /-- The largest number of words. -/
  words : Nat := 0
  /-- Whether the first word and what follows it are left for another grammar. -/
  leaves : Bool := false

/-- Why a program does not go on. -/
inductive Interruption where
  | usage
  | information
  /-- A number worked out from the arguments is too large. -/
  | overflow
deriving DecidableEq, Repr

/-- What was read so far; the latest comes first. -/
structure Parsed where
  given : List (String × String) := []
  words : List String := []
  /-- An option whose value is still missing. -/
  pending : Option Opt := none
  rest : List String := []

/-- The forms that an argument can have. -/
inductive Form where
  | terminator
  | long (name : String) (value : Option String)
  | letters (letters : List Char)
  | word
deriving DecidableEq, Repr

/-- The form of an argument. A dash alone is a word. -/
def form (argument : String) : Form :=
  match argument.toList with
  | ['-', '-'] => .terminator
  | '-' :: '-' :: cs =>
    let value := match cs.dropWhile (· ≠ '=') with
      | [] => none
      | _ :: value => some (String.ofList value)
    .long (String.ofList (cs.takeWhile (· ≠ '='))) value
  | '-' :: c :: cs => .letters (c :: cs)
  | _ => .word

namespace Parsed

/-- Notes an option with its value. Only a counted option may be given again. -/
def give (p : Parsed) (o : Opt) (value : String) : Except Interruption Parsed :=
  let noted : Parsed := { p with given := (o.name, value) :: p.given, pending := none }
  let again := p.given.any (·.1 = o.name)
  match o.action with
  | .inform => .error .information
  | .count => .ok noted
  | .switch => if again then .error .usage else .ok noted
  | .take accepts => if again || !accepts value then .error .usage else .ok noted

def addWord (g : Grammar) (p : Parsed) (word : String) : Except Interruption Parsed :=
  if p.words.length < g.words then .ok { p with words := word :: p.words } else .error .usage

def addLong (g : Grammar) (p : Parsed) (name : String) (value : Option String) :
    Except Interruption Parsed :=
  match g.options.find? (·.name = name) with
  | none => .error .usage
  | some o =>
    match o.action, value with
    | .take _, some value => p.give o value
    | .take _, none => .ok { p with pending := some o }
    | _, some _ => .error .usage
    | _, none => p.give o ""

/-- Reads options by their letters; what follows the letter of one with a value is that value. -/
def addLetters (g : Grammar) (p : Parsed) : List Char → Except Interruption Parsed
  | [] => .ok p
  | c :: cs =>
    match g.options.find? (·.letter = some c) with
    | none => .error .usage
    | some o =>
      match o.action, cs with
      | .take _, [] => .ok { p with pending := some o }
      | .take _, '=' :: value => p.give o (String.ofList value)
      | .take _, value => p.give o (String.ofList value)
      | _, _ => do addLetters g (← p.give o "") cs

def addAll (g : Grammar) (p : Parsed) : List String → Except Interruption Parsed
  | [] => if p.pending.isSome then .error .usage else .ok p
  | argument :: rest =>
    match form argument, p.pending with
    | .word, some o => do addAll g (← p.give o argument) rest
    | _, some _ => .error .usage
    | .word, none =>
      if g.leaves then .ok { p with rest := argument :: rest }
      else do addAll g (← p.addWord g argument) rest
    | .terminator, none => rest.foldlM (addWord g) p
    | .long name value, none => do addAll g (← p.addLong g name value) rest
    | .letters letters, none => do addAll g (← p.addLetters g letters) rest

def value? (p : Parsed) (name : String) : Option String := p.given.lookup name

def times (p : Parsed) (name : String) : Nat := (p.given.filter (·.1 = name)).length

end Parsed

def Grammar.parse (g : Grammar) (arguments : List String) : Except Interruption Parsed :=
  Parsed.addAll g {} arguments

def helpOption : Opt := { name := "help", letter := some 'h', action := .inform }

end KeyedStore.CommandLine
