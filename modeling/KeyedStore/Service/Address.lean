import KeyedStore.Service.Host
import KeyedStore.Text.Decimal

/-!
# Addresses

An address to listen on is a host and a number of sixteen bits with a colon between them. The number
is what follows the last colon, and it is read before the host is looked at. An IPv6 host may stand
between square brackets, if the number has digits only.
-/

namespace KeyedStore.Address

def split? (address : String) : Option (String × String) :=
  let chars := address.toList
  if ':' ∈ chars then
    let number := (chars.reverse.takeWhile (· ≠ ':')).reverse
    some (String.ofList (chars.take (chars.length - number.length - 1)), String.ofList number)
  else none

def bracketed? (host : String) : Option String :=
  match host.toList with
  | '[' :: cs => if cs.getLast? = some ']' then some (String.ofList cs.dropLast) else none
  | _ => none

/-- The IPv6 host of an address with square brackets. -/
def grouped? (host number : String) : Option Host.Grouped := do
  let inner ← bracketed? host
  if number.toList.all Char.isDigit then Host.Grouped.ofText? false inner else none

/-- Why an address cannot be listened on, if it cannot. -/
def fault? (address : String) : Option AddressFault :=
  match split? address with
  | none => some .noColon
  | some (host, number) =>
    match Decimal.decode? (Bytes.bound 2) (Utf8.encode number), grouped? host number with
    | none, _ => some .badNumber
    | some _, some grouped => grouped.fault?
    | some _, none => Host.fault? host

/-- Refuses an address that cannot be listened on. -/
def check (address : String) : Except Error Unit :=
  match fault? address with
  | none => .ok ()
  | some fault => .error (.address address fault)

end KeyedStore.Address
