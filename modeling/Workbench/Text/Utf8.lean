/-!
# Text as octets

The UTF-8 form of text, and the reading of octets that need not be well formed: every maximal
ill-formed part becomes one replacement character.
-/

namespace Workbench.Text

def octets (s : String) : List Nat := s.toUTF8.toList.map UInt8.toNat

def ofOctets? (bs : List Nat) : Option String :=
  String.fromUTF8? ⟨(bs.map UInt8.ofNat).toArray⟩

def replacement : Char := Char.ofNat 0xFFFD

/-- What the first octet of a character says: its own bits, the number of octets that follow, and
the bounds on the first of those. -/
def leadOctet (b : Nat) : Option (Nat × Nat × Nat × Nat) :=
  if b < 0x80 then some (b, 0, 0x80, 0xBF)
  else if 0xC2 ≤ b && b ≤ 0xDF then some (b - 0xC0, 1, 0x80, 0xBF)
  else if b == 0xE0 then some (0, 2, 0xA0, 0xBF)
  else if b == 0xED then some (0xD, 2, 0x80, 0x9F)
  else if 0xE1 ≤ b && b ≤ 0xEF then some (b - 0xE0, 2, 0x80, 0xBF)
  else if b == 0xF0 then some (0, 3, 0x90, 0xBF)
  else if b == 0xF4 then some (4, 3, 0x80, 0x8F)
  else if 0xF1 ≤ b && b ≤ 0xF3 then some (b - 0xF0, 3, 0x80, 0xBF)
  else none

inductive OctetState where
  | start
  /-- `left` octets are to come for the bits read so far, the next between `low` and `high`. -/
  | within (bits left low high : Nat)
  deriving DecidableEq, Repr

def startOctet (b : Nat) : List Char × OctetState :=
  match leadOctet b with
  | none => ([replacement], .start)
  | some (bits, 0, _, _) => ([Char.ofNat bits], .start)
  | some (bits, left, low, high) => ([], .within bits left low high)

/-- Reads one octet: the characters it completes and the state after it. An octet that cannot
continue the character at hand closes it with a replacement and is read anew. -/
def stepOctet : OctetState → Nat → List Char × OctetState
  | .start, b => startOctet b
  | .within bits left low high, b =>
    if low ≤ b && b ≤ high then
      let bits' := bits * 64 + (b - 0x80)
      if left ≤ 1 then ([Char.ofNat bits'], .start)
      else ([], .within bits' (left - 1) 0x80 0xBF)
    else
      let (cs, s) := startOctet b
      (replacement :: cs, s)

/-- The characters of octets, from a state on. A character cut off at the end is replaced. -/
def decodeFrom : OctetState → List Nat → List Char
  | .start, [] => []
  | .within .., [] => [replacement]
  | s, b :: rest =>
    let (cs, s') := stepOctet s b
    cs ++ decodeFrom s' rest

/-- Reads octets as text, replacing what is ill formed. -/
def decodeLossy (bs : List Nat) : String := .ofList (decodeFrom .start bs)

end Workbench.Text
