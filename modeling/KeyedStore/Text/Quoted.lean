import KeyedStore.Text.Hex
import KeyedStore.Text.Unprintable

/-!
# Quoted text

Text between double quotes. A quote and a backslash are escaped by a backslash, tab, line feed,
carriage return and NUL have their letters, and every other character without a visible form of
its own is written by its code in lower-case hexadecimal, without padding.
-/

namespace KeyedStore.Quoted

def escape (c : Char) : String :=
  match c with
  | '\x00' => "\\0"
  | '\t' => "\\t"
  | '\n' => "\\n"
  | '\r' => "\\r"
  | '"' => "\\\""
  | '\\' => "\\\\"
  | _ =>
    if Unprintable.contains c then "\\u\x7b" ++ Hex.digits c.toNat ++ "\x7d" else c.toString

def encode (s : String) : String := "\"" ++ String.join (s.toList.map escape) ++ "\""

end KeyedStore.Quoted
