import Workbench.Text.Blank

/-!
# Decimal digits and whole numbers in text

Every decimal digit of Unicode version 14 (general category `Nd`) counts as a digit; they come in
runs of ten, so the zeros alone are listed. A whole number is an optional sign and digits, with
single underscores allowed between two digits and blanks allowed around it.
-/

namespace Workbench.Text

/-- The digits zero of every script, in increasing order. -/
def decimalZeros : List Nat :=
  [0x30, 0x660, 0x6F0, 0x7C0, 0x966, 0x9E6, 0xA66, 0xAE6, 0xB66, 0xBE6, 0xC66, 0xCE6, 0xD66,
   0xDE6, 0xE50, 0xED0, 0xF20, 0x1040, 0x1090, 0x17E0, 0x1810, 0x1946, 0x19D0, 0x1A80, 0x1A90,
   0x1B50, 0x1BB0, 0x1C40, 0x1C50, 0xA620, 0xA8D0, 0xA900, 0xA9D0, 0xA9F0, 0xAA50, 0xABF0, 0xFF10,
   0x104A0, 0x10D30, 0x11066, 0x110F0, 0x11136, 0x111D0, 0x112F0, 0x11450, 0x114D0, 0x11650,
   0x116C0, 0x11730, 0x118E0, 0x11950, 0x11C50, 0x11D50, 0x11DA0, 0x16A60, 0x16AC0, 0x16B50,
   0x1D7CE, 0x1D7D8, 0x1D7E2, 0x1D7EC, 0x1D7F6, 0x1E140, 0x1E2F0, 0x1E950, 0x1FBF0]

/-- The value of a decimal digit of any script. -/
def digitValue? (c : Char) : Option Nat :=
  (decimalZeros.find? fun z => z ≤ c.toNat && c.toNat ≤ z + 9).map (c.toNat - ·)

def isDecimalDigit (c : Char) : Bool := (digitValue? c).isSome

/-- The longest whole number, in digits, that a text may hold. -/
def digitLimit : Nat := 4300

inductive WholeError where
  | malformed
  /-- The text has this many digits, which is over the limit. -/
  | tooLong (digits : Nat)
  deriving DecidableEq, Repr

/-- The digit values of a run of digits in which single underscores may separate two digits.
The flag tells whether the character before was a digit. -/
def digitRun? : Bool → List Char → Option (List Nat)
  | afterDigit, [] => if afterDigit then some [] else none
  | afterDigit, c :: rest =>
    if c == '_' then
      if afterDigit then digitRun? false rest else none
    else
      match digitValue? c with
      | some d => (digitRun? true rest).map (d :: ·)
      | none => none

def ofDigits (ds : List Nat) : Nat := ds.foldl (fun n d => 10 * n + d) 0

def readNat (cs : List Char) : Except WholeError Nat :=
  match digitRun? false cs with
  | none => .error .malformed
  | some ds => if ds.length > digitLimit then .error (.tooLong ds.length) else .ok (ofDigits ds)

/-- Reads a whole number with an optional sign, ignoring blanks around it. -/
def readInt (s : String) : Except WholeError Int :=
  match trim s.toList with
  | '+' :: rest => (readNat rest).map Int.ofNat
  | '-' :: rest => (readNat rest).map fun n => - Int.ofNat n
  | rest => (readNat rest).map Int.ofNat

end Workbench.Text
