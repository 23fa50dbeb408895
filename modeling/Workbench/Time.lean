/-!
# Points in time

A timestamp is a wall-clock reading in microseconds, with the distance of its zone from UTC if it
has one. The calendar is the proleptic Gregorian one. Timestamps are written in the ISO form, with
a fraction of six digits only when there is one.
-/

namespace Workbench

/-- A wall-clock reading. -/
structure Timestamp where
  /-- Microseconds from the start of 1970 on the wall clock. -/
  wall : Int
  /-- Microseconds that the zone is ahead of UTC, if the zone is known. -/
  zone : Option Int
  deriving DecidableEq, Repr, Inhabited

structure Date where
  year : Int
  month : Nat
  day : Nat
  deriving DecidableEq, Repr

structure Moment where
  date : Date
  hour : Nat
  minute : Nat
  second : Nat
  micro : Nat
  deriving DecidableEq, Repr

namespace Date

def isLeap (y : Int) : Bool := y % 4 == 0 && (y % 100 != 0 || y % 400 == 0)

def monthDays (y : Int) (m : Nat) : Nat :=
  if m == 2 then (if isLeap y then 29 else 28)
  else if m == 4 || m == 6 || m == 9 || m == 11 then 30 else 31

/-- Whether year, month and day name a date of the years 1 to 9999. -/
def isValid (d : Date) : Bool :=
  1 ≤ d.year && d.year ≤ 9999 && 1 ≤ d.month && d.month ≤ 12 && 1 ≤ d.day &&
    d.day ≤ monthDays d.year d.month

/-- Days from the start of 1970 to a date. The year is taken to begin in March, so that the leap
day is its last. -/
def toDays (d : Date) : Int :=
  let y := if d.month ≤ 2 then d.year - 1 else d.year
  let era := y.fdiv 400
  let yearOfEra := y - era * 400
  let shifted : Int := if d.month > 2 then (d.month : Int) - 3 else (d.month : Int) + 9
  let dayOfYear := (153 * shifted + 2) / 5 + (d.day : Int) - 1
  let dayOfEra := yearOfEra * 365 + yearOfEra / 4 - yearOfEra / 100 + dayOfYear
  era * 146097 + dayOfEra - 719468

/-- The date that lies a number of days after the start of 1970. -/
def ofDays (n : Int) : Date :=
  let z := n + 719468
  let era := z.fdiv 146097
  let dayOfEra := z - era * 146097
  let yearOfEra := (dayOfEra - dayOfEra / 1460 + dayOfEra / 36524 - dayOfEra / 146096) / 365
  let dayOfYear := dayOfEra - (365 * yearOfEra + yearOfEra / 4 - yearOfEra / 100)
  let shifted := (5 * dayOfYear + 2) / 153
  let day := dayOfYear - (153 * shifted + 2) / 5 + 1
  let month := if shifted < 10 then shifted + 3 else shifted - 9
  let year := yearOfEra + era * 400
  ⟨if month ≤ 2 then year + 1 else year, month.toNat, day.toNat⟩

/-- The day of the week, counted from Monday. -/
def weekday (n : Int) : Nat := ((n + 3) % 7).toNat

end Date

/-- A number with zeros in front, so that it has at least `w` digits. -/
def padded (w n : Nat) : String :=
  let ds := Nat.toDigits 10 n
  .ofList (List.replicate (w - ds.length) '0' ++ ds)

inductive CalendarFault where
  | noYear
  | noDate
  deriving DecidableEq, Repr

def CalendarFault.message : CalendarFault → String
  | noYear => "year 0 is out of range"
  | noDate => "date value out of range"

namespace Timestamp

def perSecond : Int := 1000000

def perDay : Int := 86400000000

def moment (t : Timestamp) : Moment :=
  let day := t.wall.fdiv perDay
  let rest := (t.wall - day * perDay).toNat
  ⟨Date.ofDays day, rest / 3600000000, rest / 60000000 % 60, rest / 1000000 % 60, rest % 1000000⟩

/-- Whether the date lies in the years 1 to 9999. -/
def isInCalendar (t : Timestamp) : Bool := t.moment.date.isValid

/-- The same instant on a clock at UTC, if its date lies in the calendar. A reading without a zone
is taken as it is; to tell its zone, the day before it has to lie in the calendar too. -/
def utc (t : Timestamp) : Except CalendarFault Timestamp :=
  match t.zone with
  | none =>
    if isInCalendar { t with wall := t.wall - perDay } then .ok ⟨t.wall, some 0⟩
    else .error .noYear
  | some z =>
    let u : Timestamp := ⟨t.wall - z, some 0⟩
    if u.isInCalendar then .ok u else .error .noDate

def addSeconds (t : Timestamp) (n : Int) : Timestamp := { t with wall := t.wall + n * perSecond }

/-- Hours and minutes of a count of seconds, with a sign. -/
def hoursText (negative : Bool) (seconds : Nat) : String :=
  (if negative then "-" else "+") ++ padded 2 (seconds / 3600) ++ ":" ++
    padded 2 (seconds / 60 % 60)

/-- The distance of a zone from UTC in hours and minutes, and seconds and microseconds when there
are any. -/
def zoneText (z : Int) : String :=
  let seconds := z.natAbs / 1000000
  let micros := z.natAbs % 1000000
  hoursText (z < 0) seconds ++
    (if seconds % 60 == 0 && micros == 0 then "" else ":" ++ padded 2 (seconds % 60)) ++
    (if micros == 0 then "" else "." ++ padded 6 micros)

/-- The distance of a zone from UTC in hours and minutes, or the letter `Z` for none. Seconds are
left out. -/
def shortZoneText (z : Int) : String :=
  let seconds := z.tdiv perSecond
  if seconds == 0 then "Z" else hoursText (seconds < 0) seconds.natAbs

def wallText (t : Timestamp) : String :=
  let m := t.moment
  padded 4 m.date.year.toNat ++ "-" ++ padded 2 m.date.month ++ "-" ++ padded 2 m.date.day ++ "T" ++
    padded 2 m.hour ++ ":" ++ padded 2 m.minute ++ ":" ++ padded 2 m.second ++
    (if m.micro == 0 then "" else "." ++ padded 6 m.micro)

/-- The ISO form, with the zone as a distance from UTC. -/
def isoText (t : Timestamp) : String :=
  t.wallText ++ match t.zone with
    | none => ""
    | some z => zoneText z

/-- The ISO form, with the letter `Z` for UTC and no seconds in the zone. -/
def zuluText (t : Timestamp) : String :=
  t.wallText ++ match t.zone with
    | none => ""
    | some z => shortZoneText z

def dayNames : List String := ["Mon", "Tue", "Wed", "Thu", "Fri", "Sat", "Sun"]

def monthNames : List String :=
  ["Jan", "Feb", "Mar", "Apr", "May", "Jun", "Jul", "Aug", "Sep", "Oct", "Nov", "Dec"]

def clockText (m : Moment) : String :=
  padded 2 m.hour ++ ":" ++ padded 2 m.minute ++ ":" ++ padded 2 m.second

def dayText (t : Timestamp) : String :=
  let m := t.moment
  dayNames.getD (Date.weekday (t.wall.fdiv perDay)) "" ++ " " ++
    monthNames.getD (m.date.month - 1) "" ++ " " ++ padded 2 m.date.day ++ " " ++ clockText m

/-- The form that the `date` command shows, for a clock at UTC. -/
def dateText (t : Timestamp) : String := t.dayText ++ " UTC " ++ toString t.moment.date.year

def logText (t : Timestamp) : String := t.dayText ++ " " ++ toString t.moment.date.year

/-- The form that a long listing shows: date, hours and minutes. -/
def listingText (t : Timestamp) : String :=
  let m := t.moment
  toString m.date.year ++ "-" ++ padded 2 m.date.month ++ "-" ++ padded 2 m.date.day ++ " " ++
    padded 2 m.hour ++ ":" ++ padded 2 m.minute

end Timestamp

end Workbench
