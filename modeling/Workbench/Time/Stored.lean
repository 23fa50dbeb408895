import Workbench.Form.NumberText
import Workbench.Json.Number
import Workbench.Time.Iso

/-!
# Points in time in stored sessions

A stored session holds a point in time as a text in the ISO form, as a date, or as a count since
the start of 1970, which may be a number or the text of one. A count is one of seconds, and of
milliseconds when it is too large for that. What lies outside the calendar is not read.
-/

namespace Workbench.Timestamp

/-! ## Counts -/

/-- The greatest count that is one of seconds. -/
def mostSeconds : Nat := 20000000000

/-- A timestamp, if its date lies in the calendar. -/
def inCalendar? (t : Timestamp) : Option Timestamp := if t.isInCalendar then some t else none

/-- The microseconds that one of a count stands for, told whether the count is a large one. -/
def countUnit (large : Bool) : Int := if large then 1000 else 1000000

def ofCount? (n : Int) : Option Timestamp :=
  inCalendar? ⟨n * countUnit (mostSeconds < n.natAbs), some 0⟩

/-- The timestamp at UTC of a count with a fraction, to the nearest microsecond. -/
def ofFloat? (x : Float) : Option Timestamp := do
  let unit := countUnit (Float.ofNat mostSeconds < x.abs)
  let below := x.floor
  let n ← Number.whole? below
  let micros ← Number.whole? ((x - below) * Float.ofInt unit).round
  inCalendar? ⟨n * unit + micros, some 0⟩

/-- The timestamp at UTC of the text of a count. -/
def ofCountText? (cs : List Char) : Option Timestamp :=
  let (negative, body) := Form.splitSign cs
  let ds := body.takeWhile Char.isDigit
  match body.dropWhile Char.isDigit with
  | [] =>
    if ds.isEmpty then none
    else
      let n : Int := Form.digitsValue ds
      ofCount? (if negative then -n else n)
  | '.' :: _ => (Form.plainDecimal? negative body).bind ofFloat?
  | _ => none

/-! ## Texts -/

/-- Reads `YYYY-MM-DD`, if the calendar has the date. -/
def takeDate? (cs : List Char) : Option (Date × List Char) :=
  match takeDigits? 4 cs with
  | some (y, '-' :: rest) =>
    match takeDigits? 2 rest with
    | some (m, '-' :: rest) =>
      (takeDigits? 2 rest).bind fun (d, rest) =>
        let date : Date := ⟨y, m, d⟩
        if date.isValid then some (date, rest) else none
    | _ => none
  | _ => none

def takeMicros? (cs : List Char) : Option (Nat × List Char) :=
  match cs with
  | c :: rest =>
    if c == '.' || c == ',' then
      let ds := rest.takeWhile Char.isDigit
      if ds.isEmpty then none
      else
        let six := ds.take 6
        let zeros := List.replicate (6 - six.length) '0'
        some (Form.digitsValue (six ++ zeros), rest.dropWhile Char.isDigit)
    else some (0, cs)
  | [] => some (0, [])

/-- Reads a number of two digits below a bound. -/
def takeBelow? (bound : Nat) (cs : List Char) : Option (Nat × List Char) :=
  (takeDigits? 2 cs).filter fun x => x.1 < bound

/-- Reads hours and minutes, and perhaps seconds and a fraction, as microseconds. -/
def takeTime? (cs : List Char) : Option (Nat × List Char) := do
  match ← takeBelow? 24 cs with
  | (h, ':' :: rest) =>
    let (m, rest) ← takeBelow? 60 rest
    match rest with
    | ':' :: rest =>
      let (s, rest) ← takeBelow? 60 rest
      let (u, rest) ← takeMicros? rest
      return (((h * 60 + m) * 60 + s) * 1000000 + u, rest)
    | rest => return ((h * 60 + m) * 60000000, rest)
  | _ => none

/-- Reads what may follow a time of day: nothing, the letter `Z`, or a distance from UTC in hours
and minutes. -/
def storedZone? (cs : List Char) : Option (Option Int) :=
  match cs with
  | [] => some none
  | ['Z'] => some (some 0)
  | ['z'] => some (some 0)
  | sign :: rest =>
    if sign == '+' || sign == '-' || sign == '−' then
      match takeBelow? 24 rest with
      | some (h, more) =>
        let more := match more with
          | ':' :: r => r
          | r => r
        match takeBelow? 60 more with
        | some (m, []) =>
          let z : Int := (h * 60 + m) * 60000000
          some (some (if sign == '+' then z else -z))
        | _ => none
      | none => none
    else none

def ofDateText? (cs : List Char) : Option Timestamp :=
  match takeDate? cs with
  | some (date, []) => some (onDate date 0 none)
  | some (date, separator :: rest) =>
    if ['T', 't', ' ', '_'].contains separator then do
      let (micros, rest) ← takeTime? rest
      return onDate date micros (← storedZone? rest)
    else none
  | none => none

def ofStored? : Json → Option Timestamp
  | .str s => (ofDateText? s.toList).orElse fun _ => ofCountText? s.toList
  | .int n => ofCount? n
  | v => v.float?.bind ofFloat?

end Workbench.Timestamp
