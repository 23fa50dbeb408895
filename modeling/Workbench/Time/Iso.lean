import Workbench.Text.Quoted
import Workbench.Time

/-!
# Reading the ISO form

A date, or a date and a time of day with one character between them, and after the time perhaps the
distance of the zone from UTC. A date is one of a month or one of a week; the marks between its
numbers may be left out, and so may those of a time of day. Of a time of day and of a distance the
smaller units may be left out from the right, and the last one that is there may have a fraction,
which counts microseconds.

A text is first taken apart and only then are its numbers held against the calendar, so a text that
has the form but names no point in time is told apart from one that does not have the form.
-/

namespace Workbench

/-- The value of `n` ASCII digits at the front, and the rest. -/
def takeDigits? : Nat → List Char → Option (Nat × List Char)
  | 0, cs => some (0, cs)
  | n + 1, cs =>
    match takeDigits? n cs with
    | some (v, c :: rest) => if c.isDigit then some (10 * v + (c.toNat - 48), rest) else none
    | _ => none

inductive IsoFault where
  | malformed
  | year (year : Int)
  | month
  | day
  | hour
  | minute
  | second
  /-- The zone is at least a day away from UTC. -/
  | zone (micros : Int)
  deriving DecidableEq, Repr

def IsoFault.message (text : String) : IsoFault → String
  | malformed => "Invalid isoformat string: " ++ Text.quoted text
  | year y => "year " ++ toString y ++ " is out of range"
  | month => "month must be in 1..12"
  | day => "day is out of range for month"
  | hour => "hour must be in 0..23"
  | minute => "minute must be in 0..59"
  | second => "second must be in 0..59"
  | zone _ => "offset must be less than a day"

/-! ## Dates -/

namespace Date

/-- The Monday of the first week of a year, in days from the start of 1970. The first week is the
one that holds the fourth of January. -/
def firstMonday (y : Int) : Int :=
  let fourth := toDays ⟨y, 1, 4⟩
  fourth - weekday fourth

/-- The date of a day of a week, if the year has the week. -/
def ofWeek? (y : Int) (week day : Nat) : Option Date :=
  let monday := firstMonday y
  if 1 ≤ week && monday + 7 * week ≤ firstMonday (y + 1) && 1 ≤ day && day ≤ 7 then
    some (ofDays (monday + 7 * (week - 1) + (day - 1)))
  else none

/-- A text behind its mark, if it has to have one. -/
def behindMark? (marked : Bool) (cs : List Char) : Option (List Char) :=
  if marked then
    match cs with
    | '-' :: rest => some rest
    | _ => none
  else some cs

/-- Reads a week and a day of it, where the Monday may be left out. -/
def readWeek? (y : Nat) (marked : Bool) (cs : List Char) : Option Date := do
  let (week, rest) ← takeDigits? 2 cs
  if rest.isEmpty then ofWeek? y week 1
  else
    let (day, _) ← takeDigits? 1 (← behindMark? marked rest)
    ofWeek? y week day

def readMonth? (y : Nat) (marked : Bool) (cs : List Char) : Option Date := do
  let (month, rest) ← takeDigits? 2 cs
  let (day, rest) ← takeDigits? 2 (← behindMark? marked rest)
  if rest.isEmpty then some ⟨y, month, day⟩ else none

/-- Reads a date, whether or not the calendar has it. -/
def ofChars? (cs : List Char) : Option Date := do
  let (y, rest) ← takeDigits? 4 cs
  let marked := rest.head? == some '-'
  match if marked then rest.tail else rest with
  | 'W' :: rest => readWeek? y marked rest
  | rest => readMonth? y marked rest

/-- The number of characters that the date at the front of a text takes. Where a week is followed
by digits it has a day if an even number of digits is left for the time of day; where it is followed
by a mark, it has one unless two digits could start a time of day. -/
def lengthIn (cs : List Char) : Nat :=
  if cs.length == 7 then 7
  else
    match cs[4]?, cs[5]? with
    | some '-', some 'W' => if cs[8]? == some '-' && !(cs[10]?).any Char.isDigit then 10 else 8
    | some '-', _ => 10
    | some 'W', _ =>
      let digits := ((cs.drop 7).takeWhile Char.isDigit).length
      if digits == 0 || (digits % 2 == 1 && digits != 1) then 7 else 8
    | _, _ => 8

/-- The fault of a date that the calendar does not have. -/
def fault? (d : Date) : Option IsoFault :=
  if !(1 ≤ d.year && d.year ≤ 9999) then some (.year d.year)
  else if !(1 ≤ d.month && d.month ≤ 12) then some .month
  else if !(1 ≤ d.day && d.day ≤ monthDays d.year d.month) then some .day
  else none

end Date

/-! ## Times of day -/

structure ClockUnits where
  hours : Nat := 0
  minutes : Nat := 0
  seconds : Nat := 0
  micros : Nat := 0
  deriving DecidableEq, Repr

namespace ClockUnits

def total (u : ClockUnits) : Nat :=
  ((u.hours * 60 + u.minutes) * 60 + u.seconds) * 1000000 + u.micros

inductive Rest where
  | nothing
  /-- One ASCII character that belongs to nothing. -/
  | stray
  | fraction (digits : List Char)

/-- Reads at most `n` units of two digits. Behind a point or a comma, and behind the last of all
units, a fraction begins. -/
def takeUnits? (colons : Bool) : Nat → List Char → Option (List Nat × Rest)
  | 0, cs => some ([], .fraction cs)
  | n + 1, cs => do
    let (v, rest) ← takeDigits? 2 cs
    match rest with
    | [] => return ([v], .nothing)
    | c :: more =>
      if more.isEmpty && c.toNat < 128 then return ([v], .stray)
      else if c == '.' || c == ',' then return ([v], .fraction more)
      else if colons && c != ':' then none
      else
        let (vs, behind) ← takeUnits? colons n (if colons then more else rest)
        return (v :: vs, behind)

/-- Reads the fraction of a second as microseconds. Further digits are dropped. Whether nothing
else is left is returned. -/
def takeMicros? (cs : List Char) : Option (Nat × Bool) := do
  let n := min 6 cs.length
  let (v, rest) ← takeDigits? n cs
  return (v * Nat.pow 10 (6 - n), rest.all Char.isDigit)

/-- Reads units with colons between all of them or between none. Whether nothing is left behind them
is returned. -/
def read? (cs : List Char) : Option (ClockUnits × Bool) := do
  let (units, rest) ← takeUnits? (cs[2]? == some ':') 3 cs
  let clock : ClockUnits := ⟨units.getD 0 0, units.getD 1 0, units.getD 2 0, 0⟩
  match rest with
  | .nothing => return (clock, true)
  | .stray => return (clock, false)
  | .fraction cs =>
    let (micros, all) ← takeMicros? cs
    return ({ clock with micros := micros }, all)

def fault? (u : ClockUnits) : Option IsoFault :=
  if 24 ≤ u.hours then some .hour
  else if 60 ≤ u.minutes then some .minute
  else if 60 ≤ u.seconds then some .second
  else none

end ClockUnits

/-! ## Points in time -/

namespace Timestamp

/-- The reading of a clock some microseconds after the start of a date. -/
def onDate (date : Date) (micros : Nat) (zone : Option Int) : Timestamp :=
  ⟨date.toDays * perDay + micros, zone⟩

/-- Whether a character ends the time of day because the zone begins with it. -/
def startsZone (c : Char) : Bool := c == '+' || c == '-' || c == 'Z'

/-- Reads a time of day and its zone. In front of a zone something may be left behind the units. A
distance of less than a second is none. -/
def readClock? (cs : List Char) : Option (ClockUnits × Option Int) := do
  let (clock, all) ← ClockUnits.read? (cs.takeWhile fun c => !startsZone c)
  match cs.dropWhile fun c => !startsZone c with
  | [] => if all then some (clock, none) else none
  | ['Z'] => return (clock, some 0)
  | 'Z' :: _ => none
  | sign :: rest =>
    let (distance, all) ← ClockUnits.read? rest
    let z : Int := if distance.total < perSecond then 0 else distance.total
    if all then some (clock, some (if sign == '-' then -z else z)) else none

def isoParts? (cs : List Char) : Option (Date × ClockUnits × Option Int) := do
  let n := Date.lengthIn cs
  let date ← Date.ofChars? (cs.take n)
  match cs.drop n with
  | [] => return (date, {}, none)
  | _ :: rest => return (date, ← readClock? rest)

def ofIso (s : String) : Except IsoFault Timestamp :=
  match isoParts? s.toList with
  | none => .error .malformed
  | some (date, clock, zone) =>
    let tooFar := (zone.filter fun z => perDay ≤ z.natAbs).map IsoFault.zone
    match (tooFar.or date.fault?).or clock.fault? with
    | some f => .error f
    | none => .ok (onDate date clock.total zone)

end Timestamp

end Workbench
