import Workbench.Text.Utf8

/-!
# Encodings

Text may come in octets, in units of two octets or in units of four. Units begin with their highest
octet or with their lowest. Which of these it is can be told from a mark at the start of the octets,
or else from the octets of the first characters that are nought.

In every encoding half of a surrogate pair may be written by itself. It is no character, so that
what is read then is not the whole of what is written (`Decoded.isWhole`).
-/

namespace Workbench.Text

/-! ## Surrogate pairs -/

def isFirstHalf (n : Nat) : Bool := 0xD800 ≤ n && n ≤ 0xDBFF

def isSecondHalf (n : Nat) : Bool := 0xDC00 ≤ n && n ≤ 0xDFFF

def isHalf (n : Nat) : Bool := isFirstHalf n || isSecondHalf n

/-- The character that the two halves of a surrogate pair stand for. -/
def ofHalves (first second : Nat) : Char :=
  Char.ofNat (0x10000 + (first - 0xD800) * 1024 + (second - 0xDC00))

/-- The character with a number, or a replacement for half of a surrogate pair. -/
def scalar (n : Nat) : Char := if isHalf n then replacement else Char.ofNat n

/-- The numbers of the characters that units of two octets write. A half that stands alone keeps its
own number. -/
def joinHalves : List Nat → List Nat
  | [] => []
  | [n] => [n]
  | n :: m :: rest =>
    if isFirstHalf n && isSecondHalf m then (ofHalves n m).toNat :: joinHalves rest
    else n :: joinHalves (m :: rest)

/-- Octets with a replacement for every half of a surrogate pair among them. The first octet of such
a half never stands within another character. -/
def replaceHalves : List Nat → List Nat
  | 0xED :: b :: c :: rest =>
    if 0xA0 ≤ b && b ≤ 0xBF && 0x80 ≤ c && c ≤ 0xBF then 0xEF :: 0xBF :: 0xBD :: replaceHalves rest
    else 0xED :: replaceHalves (b :: c :: rest)
  | b :: rest => b :: replaceHalves rest
  | [] => []

/-- What octets write. Where half of a surrogate pair stands alone there is a replacement in the
text, which then is not the whole of what they write. -/
structure Decoded where
  text : String
  isWhole : Bool
  deriving DecidableEq, Repr

def Decoded.ofNumbers (ns : List Nat) : Decoded :=
  ⟨.ofList (ns.map scalar), ns.all fun n => !isHalf n⟩

/-! ## Encodings -/

inductive ByteOrder where
  | highFirst
  | lowFirst
  deriving DecidableEq, Repr

inductive Encoding where
  | octets
  | pairs (order : ByteOrder)
  | quads (order : ByteOrder)
  deriving DecidableEq, Repr

def ByteOrder.value (order : ByteOrder) (bs : List Nat) : Nat :=
  let highFirst := match order with
    | .highFirst => bs
    | .lowFirst => bs.reverse
  highFirst.foldl (fun n b => 256 * n + b) 0

/-- The numbers that units of two octets write. -/
def pairUnits? (order : ByteOrder) : List Nat → Option (List Nat)
  | [] => some []
  | a :: b :: rest => (pairUnits? order rest).map (order.value [a, b] :: ·)
  | _ => none

/-- The numbers that units of four octets write. None is beyond the last character. -/
def quadUnits? (order : ByteOrder) : List Nat → Option (List Nat)
  | [] => some []
  | a :: b :: c :: d :: rest =>
    let n := order.value [a, b, c, d]
    if 0x10FFFF < n then none else (quadUnits? order rest).map (n :: ·)
  | _ => none

/-- What octets write in an encoding. -/
def Encoding.decode? (e : Encoding) (bs : List Nat) : Option Decoded :=
  match e with
  | .octets =>
    let replaced := replaceHalves bs
    (ofOctets? replaced).map fun text => ⟨text, replaced == bs⟩
  | .pairs order => (pairUnits? order bs).map fun ns => .ofNumbers (joinHalves ns)
  | .quads order => (quadUnits? order bs).map .ofNumbers

/-! ## Telling the encoding -/

/-- The encoding that a mark at the start tells, and the octets after the mark. -/
def marked? : List Nat → Option (Encoding × List Nat)
  | 0 :: 0 :: 0xFE :: 0xFF :: rest => some (.quads .highFirst, rest)
  | 0xFF :: 0xFE :: 0 :: 0 :: rest => some (.quads .lowFirst, rest)
  | 0xFE :: 0xFF :: rest => some (.pairs .highFirst, rest)
  | 0xFF :: 0xFE :: rest => some (.pairs .lowFirst, rest)
  | 0xEF :: 0xBB :: 0xBF :: rest => some (.octets, rest)
  | _ => none

/-- The encoding that the first octets suggest, when the first characters are ASCII. -/
def suggested : List Nat → Encoding
  | a :: b :: c :: d :: _ =>
    if a == 0 then (if b == 0 then .quads .highFirst else .pairs .highFirst)
    else if b == 0 then (if c == 0 && d == 0 then .quads .lowFirst else .pairs .lowFirst)
    else .octets
  | [a, b] =>
    if a == 0 then .pairs .highFirst else if b == 0 then .pairs .lowFirst else .octets
  | _ => .octets

/-- Reads octets as text, in the encoding that they tell. -/
def decodeTold? (bs : List Nat) : Option Decoded :=
  match marked? bs with
  | some (e, rest) => e.decode? rest
  | none => (suggested bs).decode? bs

end Workbench.Text
