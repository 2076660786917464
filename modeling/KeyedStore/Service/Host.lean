import KeyedStore.Error

/-!
# Hosts

The host of an address is numeric, in which case it stands for itself, or a name. There is no name
server to ask, so of the names only `localhost` is known; what could not be a name anywhere is
refused without asking. The only interface, number one, has no IPv6 address, while every IPv4
address can be listened on.
-/

namespace KeyedStore.Host

/-! ### Four octets -/

/-- The digit that a character stands for in a base up to sixteen. -/
def digit? (base : Nat) (c : Char) : Option Nat :=
  let digit :=
    if c.isDigit then c.toNat - '0'.toNat
    else if 'a' ≤ c.toLower ∧ c.toLower ≤ 'f' then c.toLower.toNat - 'a'.toNat + 10
    else base
  if digit < base then some digit else none

/-- The number that one or more digits stand for. -/
def number? (base : Nat) : List Char → Option Nat
  | [] => none
  | digits => digits.foldlM (fun n c => return base * n + (← digit? base c)) 0

/-- A number between dots: hexadecimal after `0x`, octal after another zero, decimal otherwise. -/
def dottedNumber? : List Char → Option Nat
  | '0' :: c :: digits => if c.toLower = 'x' then number? 16 digits else number? 8 (c :: digits)
  | digits => number? 10 digits

/-- Whether numbers make up four octets: each is an octet, but the last stands for all that are
left. -/
def fourOctets (numbers : List Nat) : Bool :=
  match numbers.reverse with
  | [] => false
  | last :: octets =>
    octets.length < 4 && octets.all (· < 256) && last < Bytes.bound (4 - octets.length)

/-- Whether a host is written as up to four numbers with dots between them. -/
def isDotted (host : String) : Bool :=
  ((host.splitOn ".").mapM fun part => dottedNumber? part.toList).any fourOctets

/-! ### Eight groups -/

/-- A group: up to four hexadecimal digits. -/
def group? (text : String) : Option Nat :=
  if text.length ≤ 4 then number? 16 text.toList else none

/-- A decimal octet without zeros in front. -/
def octet? (text : String) : Option Nat := do
  let digits := text.toList
  let octet ← number? 10 digits
  if octet < 256 ∧ (digits.head? ≠ some '0' ∨ digits.length = 1) then some octet else none

/-- The two groups that four octets stand for. -/
def quad? (text : String) : Option (List Nat) := do
  match ← (text.splitOn ".").mapM octet? with
  | [a, b, c, d] => return [256 * a + b, 256 * c + d]
  | _ => none

/-- The groups that texts stand for, of which the last may be four octets. -/
def groupList? : List String → Option (List Nat)
  | [] => some []
  | [text] =>
    match group? text with
    | some group => some [group]
    | none => quad? text
  | text :: rest => return (← group? text) :: (← groupList? rest)

/-- The texts between single colons. -/
def betweenColons (text : String) : List String := if text = "" then [] else text.splitOn ":"

/-- The eight groups of an address, in which two colons stand for one or more zeros. -/
def groups? (text : String) : Option (List Nat) :=
  match text.splitOn "::" with
  | [all] => (groupList? (betweenColons all)).filter fun groups => groups.length = 8
  | [front, back] => do
    let front ← (betweenColons front).mapM group?
    let back ← groupList? (betweenColons back)
    let held := front.length + back.length
    if held < 8 then some (front ++ List.replicate (8 - held) 0 ++ back) else none
  | _ => none

/-- An IPv6 address and the number of the interface that it is meant for, or zero. -/
structure Grouped where
  groups : List Nat
  interface : Nat := 0
deriving DecidableEq, Repr

namespace Grouped

/-- Whether an address is known on the link of one interface only. -/
def isLinkLocal (groups : List Nat) : Bool := groups.head?.any fun first => first / 64 = 0xFE80 / 64

/-- Whether an address is that of a set of hosts. -/
def isMulticast (groups : List Nat) : Bool := groups.head?.any fun first => 0xFF00 ≤ first

/-- Whether an address stands for four octets. -/
def isMapped (groups : List Nat) : Bool := groups.take 6 = [0, 0, 0, 0, 0, 0xFFFF]

/-- The number of an interface, which may be `named` instead on a link. -/
def interface? (named : Bool) (text : String) : Option Nat :=
  if named ∧ text = "lo" then some 1 else (number? 10 text.toList).filter (· < Bytes.bound 4)

def ofText? (named : Bool) (text : String) : Option Grouped :=
  match text.splitOn "%" with
  | [address] => do return { groups := ← groups? address }
  | [address, interface] => do
    let groups ← groups? address
    return { groups, interface := ← interface? (named && isLinkLocal groups) interface }
  | _ => none

/-- Why an address cannot be listened on, if it cannot. -/
def fault? (a : Grouped) : Option AddressFault :=
  if isMapped a.groups || a.groups.all (· = 0) then none
  else if isMulticast a.groups then some .needsInterface
  else if isLinkLocal a.groups then
    if a.interface = 0 then some .needsInterface
    else if a.interface = 1 then some .notAssigned
    else some .noInterface
  else some .notAssigned

end Grouped

/-! ### Names -/

/-- Whether a text can stand between the dots of a name. -/
def isLabel (text : String) : Bool :=
  0 < text.length && text.length ≤ 63 && text.toList.all fun c => c.isAlphanum || c = '-' || c = '_'

/-- Whether a host can be a name, which may end in a dot. -/
def isName (host : String) : Bool :=
  let labels := host.splitOn "."
  let labels := if labels.getLast? = some "" then labels.dropLast else labels
  host = "." ||
    host.length ≤ 253 && host.toList.head? ≠ some '-' && labels ≠ [] && labels.all isLabel

/-- Why a host cannot be listened on, if it cannot. -/
def fault? (host : String) : Option AddressFault :=
  if '\x00' ∈ host.toList then some .nulInHost
  else if isDotted host || host.toLower = "localhost" then none
  else
    match Grouped.ofText? true host with
    | some address => address.fault?
    | none => if isName host then some .noNameServer else some .unknownHost

end KeyedStore.Host
