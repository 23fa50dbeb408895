/-!
# Binary floating-point values, exactly

A finite 64-bit value is a whole number times a power of two. This module takes values apart into
these two numbers, finds the shortest decimal that rounds back to a value, and prints it.
-/

namespace Workbench.Number

inductive Parts where
  | nan
  | infinite (negative : Bool)
  /-- The magnitude is `mantissa * 2 ^ exponent`. -/
  | finite (negative : Bool) (mantissa : Nat) (exponent : Int)
  deriving DecidableEq, Repr

def partsOf (x : Float) : Parts :=
  let bits := x.toBits.toNat
  let negative := bits / Nat.pow 2 63 == 1
  let biased : Nat := bits / Nat.pow 2 52 % Nat.pow 2 11
  let fraction : Nat := bits % Nat.pow 2 52
  if biased == 2047 then
    if fraction == 0 then .infinite negative else .nan
  else if biased == 0 then .finite negative fraction (-1074)
  else .finite negative (Nat.pow 2 52 + fraction) ((biased : Int) - 1075)

def whole? (x : Float) : Option Int :=
  match partsOf x with
  | .finite negative m (.ofNat e) =>
    let n : Int := (m * Nat.pow 2 e : Nat)
    some (if negative then -n else n)
  | .finite negative m (.negSucc e) =>
    let d := Nat.pow 2 (e + 1)
    if m % d == 0 then
      let n : Int := (m / d : Nat)
      some (if negative then -n else n)
    else none
  | _ => none

structure Ratio where
  num : Nat
  den : Nat
  deriving DecidableEq, Repr

/-- `m * b ^ e` as a ratio. -/
def Ratio.scaled (m b : Nat) : Int → Ratio
  | .ofNat e => ⟨m * Nat.pow b e, 1⟩
  | .negSucc e => ⟨m, Nat.pow b (e + 1)⟩

def Ratio.lt (x y : Ratio) : Bool := x.num * y.den < y.num * x.den

def Ratio.le (x y : Ratio) : Bool := x.num * y.den ≤ y.num * x.den

/-- The reals that round to one value. The ends belong to it when `closed`. -/
structure Interval where
  low : Ratio
  mid : Ratio
  high : Ratio
  closed : Bool
  deriving DecidableEq, Repr

/-- The interval of a positive value `m * 2 ^ e`. Below a power of two the spacing halves. -/
def Interval.of (m : Nat) (e : Int) : Interval :=
  let down := if m == Nat.pow 2 52 && decide (-1074 < e) then 4 * m - 1 else 4 * m - 2
  ⟨.scaled down 2 (e - 2), .scaled (4 * m) 2 (e - 2), .scaled (4 * m + 2) 2 (e - 2), m % 2 == 0⟩

def Interval.holds (i : Interval) (x : Ratio) : Bool :=
  if i.closed then i.low.le x && x.le i.high else i.low.lt x && x.lt i.high

/-- The number `p` with `10 ^ (p - 1) ≤ x < 10 ^ p`, looked for among `fuel` numbers from `p` on. -/
def pointFrom (x : Ratio) : Nat → Int → Int
  | 0, p => p
  | fuel + 1, p => if x.lt (.scaled 1 10 p) then p else pointFrom x fuel (p + 1)

/-- The decimal with `count` digits and point `p` that is nearest to the middle of an interval
among its two neighbours on that grid, if one of them lies in the interval. Of two equally near
ones the even one is taken. -/
def nearestOnGrid? (i : Interval) (p : Int) (count : Nat) : Option Nat :=
  let unit := p - count
  let scale := Ratio.scaled 1 10 unit
  let below := i.mid.num * scale.den / (i.mid.den * scale.num)
  let above := below + 1
  let scaled (n : Nat) := Ratio.scaled n 10 unit
  let lowHit := decide (0 < below) && i.holds (scaled below)
  let highHit := i.holds (scaled above)
  if lowHit && highHit then
    let twice := Ratio.scaled (2 * below + 1) 10 unit
    let double : Ratio := ⟨2 * i.mid.num, i.mid.den⟩
    if double.lt twice then some below
    else if twice.lt double then some above
    else if below % 2 == 0 then some below else some above
  else if lowHit then some below
  else if highHit then some above
  else none

/-- The fewest digits that read back, as a whole number, with the number of digits tried. -/
def shortestFrom (i : Interval) (p : Int) : Nat → Nat → Nat × Nat
  | 0, count => (i.mid.num / i.mid.den, count)
  | fuel + 1, count =>
    match nearestOnGrid? i p count with
    | some n => (n, count)
    | none => shortestFrom i p fuel (count + 1)

/-- The digits of the shortest decimal that rounds to `m * 2 ^ e`, without zeros at the end, and
the place of the point: the value is `0.d₁d₂… * 10 ^ point`. -/
def shortestDigits (m : Nat) (e : Int) : List Char × Int :=
  let i := Interval.of m e
  let p := pointFrom i.mid 700 (-330)
  let (n, count) := shortestFrom i p 17 1
  let ds := Nat.toDigits 10 n
  let carried : Int := (ds.length : Int) - count
  ((ds.reverse.dropWhile (· == '0')).reverse, p + carried)

/-- Where a printed decimal turns to an exponent: the point is written in place when it lies after
`least` and not beyond `greatest`. -/
structure DecimalStyle where
  least : Int
  greatest : Int
  deriving DecidableEq, Repr

/-- The text of an exponent: a sign and at least two digits. -/
def exponentText (n : Int) : List Char :=
  let ds := Nat.toDigits 10 n.natAbs
  (if n < 0 then '-' else '+') :: (List.replicate (2 - ds.length) '0' ++ ds)

/-- Digits with a point in place, or with an exponent where the style asks for one. -/
def placePoint (style : DecimalStyle) (ds : List Char) (point : Int) : List Char :=
  if point ≤ style.least || style.greatest < point then
    let tail := match ds.tail with
      | [] => []
      | r => '.' :: r
    (ds.head?.toList ++ tail) ++ 'e' :: exponentText (point - 1)
  else if point ≤ 0 then
    '0' :: '.' :: (List.replicate point.natAbs '0' ++ ds)
  else
    let k := point.toNat
    let front := ds.take k
    let back := ds.drop k
    (front ++ List.replicate (k - front.length) '0') ++
      '.' :: (if back.isEmpty then ['0'] else back)

/-- The text of a value: its shortest decimal with a point in it, or with an exponent. -/
def decimalText (style : DecimalStyle) (x : Float) : String :=
  match partsOf x with
  | .nan => "nan"
  | .infinite negative => if negative then "-inf" else "inf"
  | .finite negative m e =>
    let body := if m == 0 then ['0', '.', '0'] else
      let (ds, p) := shortestDigits m e
      placePoint style ds p
    .ofList (if negative then '-' :: body else body)

/-- The value nearest to a decimal `digits * 10 ^ exponent`. Decimals far beyond the largest or
below the smallest value are not computed out. -/
def ofDecimal (negative : Bool) (digits : Nat) (exponent : Int) : Float :=
  let size : Int := (Nat.toDigits 10 digits).length + exponent
  let x : Float :=
    if digits == 0 || size < -400 then 0.0
    else if 400 < size then 1.0 / 0.0
    else match exponent with
      | .ofNat e => Float.ofScientific digits false e
      | .negSucc e => Float.ofScientific digits true (e + 1)
  if negative then -x else x

end Workbench.Number
