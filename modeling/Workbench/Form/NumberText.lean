import Workbench.Number.Binary64
import Workbench.Text.Blank
import Workbench.Text.Digit

/-!
# Numbers in text

How a text is read as a number. Blanks around a number, a plus sign in front of it, zeros that only
pad it, single underscores inside it and, for a whole number, a fraction of zeros do not count. What
is left of a whole number is a minus sign or none and digits without needless zeros, and may not be
longer than the longest whole number that a text may hold.
-/

namespace Workbench.Form

def isNumberBlank (c : Char) : Bool := Text.isBlank c && !(28 ≤ c.toNat && c.toNat ≤ 31)

def trimNumber (cs : List Char) : List Char :=
  ((cs.dropWhile isNumberBlank).reverse.dropWhile isNumberBlank).reverse

def digitsValue (ds : List Char) : Nat := ds.foldl (fun n c => 10 * n + (c.toNat - 48)) 0

def splitSign : List Char → Bool × List Char
  | '-' :: rest => (true, rest)
  | '+' :: rest => (false, rest)
  | cs => (false, cs)

/-- A text without underscores, if they stand only singly and not at the ends. -/
def dropUnderscores? (cs : List Char) : Option (List Char) :=
  if cs.head? == some '_' || cs.getLast? == some '_' || Text.occursIn ['_', '_'] cs then none
  else some (cs.filter (· != '_'))

/-! ## Whole numbers -/

/-- Skips the padding after a zero. The last character of the padding is kept when nothing follows,
or when a point does. -/
def skipPadding (last : Char) : List Char → Option (List Char)
  | [] => some [last]
  | c :: rest =>
    if c == '0' || c == '_' then skipPadding c rest
    else if c == '-' || c.isDigit then some (c :: rest)
    else if c == '.' then some (last :: c :: rest)
    else none

/-- An unsigned whole number without the zeros and underscores that pad it. Behind the padding a
minus sign may stand. -/
def dropPadding? : List Char → Option (List Char)
  | [] => none
  | c :: rest =>
    if c == '0' then skipPadding c rest
    else if c.isDigit then some (c :: rest)
    else none

def dropZeroFraction (cs : List Char) : List Char :=
  match cs.dropWhile (· != '.') with
  | '.' :: fraction =>
    if !fraction.isEmpty && fraction.all (· == '0') then cs.takeWhile (· != '.') else cs
  | _ => cs

/-- The whole number that digits write, if they begin with a zero only where it stands alone. -/
def plainNat? (ds : List Char) : Option Nat :=
  if ds.isEmpty || !ds.all Char.isDigit || (ds.head? == some '0' && ds.length != 1) then none
  else some (digitsValue ds)

def unsigned : List Char → List Char
  | '-' :: ds => ds
  | ds => ds

/-- The whole number that digits write after a minus sign or none. -/
def plainInt? : List Char → Option Int
  | '-' :: ds => (plainNat? ds).map fun n => -(n : Int)
  | ds => (plainNat? ds).map Int.ofNat

/-- An unsigned whole number without all that does not count. -/
def plainUnsigned? (cs : List Char) : Option (List Char) := do
  let cs := dropZeroFraction (← dropPadding? cs)
  return (dropUnderscores? cs).getD cs

/-- A whole number in a text without all that does not count. A minus sign does not follow a plus
sign. -/
def plainWhole? (cs : List Char) : Option (List Char) :=
  match trimNumber cs with
  | '+' :: '-' :: _ => none
  | '+' :: rest => plainUnsigned? rest
  | '-' :: rest => (plainUnsigned? rest).map ('-' :: ·)
  | cs => plainUnsigned? cs

inductive WholeFault where
  | malformed
  /-- The text itself begins with more digits than a whole number may have. -/
  | tooLong
  deriving DecidableEq, Repr

/-- Whether a text begins with more digits than a whole number may have, the first of them no zero,
after a minus sign or none. -/
def beginsTooLong (cs : List Char) : Bool :=
  let ds := (unsigned cs).takeWhile Char.isDigit
  ds.head? != some '0' && Text.digitLimit < ds.length

/-- Reads the whole number that a text stands for. Where the digits begin only behind something that
does not count, too many of them are no number at all. -/
def wholeOfText (s : String) : Except WholeFault Int :=
  let cs := s.toList
  if beginsTooLong cs then .error .tooLong
  else
    match (plainWhole? cs).filter fun cs => (unsigned cs).length ≤ Text.digitLimit with
    | none => .error .malformed
    | some cs =>
      match plainInt? cs with
      | some n => .ok n
      | none => .error .malformed

/-! ## Decimals -/

def exponentOfText? : List Char → Option Int
  | [] => some 0
  | e :: rest =>
    if e == 'e' || e == 'E' then
      let (negative, ds) := splitSign rest
      if ds.isEmpty || !ds.all Char.isDigit then none
      else some (if negative then -(digitsValue ds : Int) else digitsValue ds)
    else none

/-- The decimal that unsigned digits with a point and an exponent stand for. -/
def plainDecimal? (negative : Bool) (cs : List Char) : Option Float :=
  let front := cs.takeWhile Char.isDigit
  let rest := cs.dropWhile Char.isDigit
  let (back, rest) :=
    match rest with
    | '.' :: r => (r.takeWhile Char.isDigit, r.dropWhile Char.isDigit)
    | r => ([], r)
  if front.isEmpty && back.isEmpty then none
  else (exponentOfText? rest).map fun e =>
    Number.ofDecimal negative (digitsValue (front ++ back)) (e - back.length)

/-- The decimal that a text without blanks and underscores stands for. -/
def decimalOfChars? (cs : List Char) : Option Float :=
  let (negative, body) := splitSign cs
  let signed (x : Float) : Float := if negative then -x else x
  match String.ofList (body.map Char.toLower) with
  | "inf" | "infinity" => some (signed (1.0 / 0.0))
  | "nan" => some (0.0 / 0.0)
  | _ => plainDecimal? negative body

/-- The decimal that a text stands for. Blanks around it and underscores inside it do not go
together. -/
def decimalOfText? (s : String) : Option Float :=
  match decimalOfChars? (trimNumber s.toList) with
  | some x => some x
  | none => (dropUnderscores? s.toList).bind decimalOfChars?

end Workbench.Form
