import Workbench.Text.Utf8

/-!
# Percent escapes

In a request path an octet may be written as a percent sign and two hexadecimal digits. Anything
else, also a percent sign without two such digits, stands for itself; the octets that result are
read as UTF-8.
-/

namespace Workbench.Text

def hexValue? (c : Char) : Option Nat :=
  let n := c.toNat
  if 48 ≤ n && n ≤ 57 then some (n - 48)
  else if 97 ≤ n && n ≤ 102 then some (n - 87)
  else if 65 ≤ n && n ≤ 70 then some (n - 55)
  else none

/-- The octets that characters with percent escapes stand for. -/
def unescapedOctets : List Char → List Nat
  | [] => []
  | [a] => octets a.toString
  | [a, b] => octets a.toString ++ octets b.toString
  | a :: b :: c :: rest =>
    if a == '%' then
      match hexValue? b, hexValue? c with
      | some x, some y => (16 * x + y) :: unescapedOctets rest
      | _, _ => octets a.toString ++ unescapedOctets (b :: c :: rest)
    else octets a.toString ++ unescapedOctets (b :: c :: rest)

def unescape (s : String) : String := decodeLossy (unescapedOctets s.toList)

end Workbench.Text
