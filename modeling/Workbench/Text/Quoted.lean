import Workbench.Text.Lowercase
import Workbench.Text.PrintableTable

/-!
# Quoted text

How a message shows a file name or a key: in single quotes, or in double quotes when the text has
a single quote and no double one. A backslash and the quote in use are escaped by a backslash, line
feed, carriage return and tab have short escapes, and any other character that is not printable is
written by its number in hexadecimal.
-/

namespace Workbench.Text

/-- A number as `width` hexadecimal digits in lower case. -/
def hexPadded (width n : Nat) : List Char :=
  let ds := Nat.toDigits 16 n
  List.replicate (width - ds.length) '0' ++ ds

/-- The written form of one character between quotes of the given kind. -/
def quoteChar (quote c : Char) : List Char :=
  let n := c.toNat
  if c == quote || c == '\\' then ['\\', c]
  else if c == '\n' then ['\\', 'n']
  else if c == '\r' then ['\\', 'r']
  else if c == '\t' then ['\\', 't']
  else if 0x20 ≤ n && n < 0x7F then [c]
  else if inRanges unprintableRanges n then
    if n < 0x100 then '\\' :: 'x' :: hexPadded 2 n
    else if n < 0x10000 then '\\' :: 'u' :: hexPadded 4 n
    else '\\' :: 'U' :: hexPadded 8 n
  else [c]

def quoted (s : String) : String :=
  let cs := s.toList
  let quote := if cs.contains '\'' && !cs.contains '"' then '"' else '\''
  .ofList (quote :: (cs.flatMap (quoteChar quote) ++ [quote]))

end Workbench.Text
