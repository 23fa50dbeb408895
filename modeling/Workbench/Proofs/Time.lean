import Mathlib.Algebra.Group.Nat.Defs
import Mathlib.Data.List.Induction
import Workbench.Time.Stored

/-!
# Times and their texts

The date of a day leads back to the day (`Date.toDays_ofDays`), and what is written of a point in
time is read again: its date, its time of day to the microsecond, and what follows them
(`Timestamp.reads_wallText`). So no two points in time have one text
(`Timestamp.isoText_injective`).
-/

namespace Workbench

/-! ## Dates -/

namespace Date

/-- Within 400 years: the year of a day is the one that the day lies in. -/
theorem yearOfEra_spec {e y : Int} (h₀ : 0 ≤ e) (h₁ : e ≤ 146096)
    (hy : y = (e - e / 1460 + e / 36524 - e / 146096) / 365) :
    0 ≤ y ∧ y ≤ 399 ∧ 365 * y + y / 4 - y / 100 ≤ e ∧ e ≤ 365 * y + y / 4 - y / 100 + 365 := by
  -- with the century and the place in a span of four years given, all divisions are linear
  have hcentury : e / 36524 = 0 ∨ e / 36524 = 1 ∨ e / 36524 = 2 ∨ e / 36524 = 3 ∨
      e / 36524 = 4 := by omega
  have hplace : y - 4 * (e / 1460) = -1 ∨ y - 4 * (e / 1460) = 0 ∨ y - 4 * (e / 1460) = 1 ∨
      y - 4 * (e / 1460) = 2 ∨ y - 4 * (e / 1460) = 3 ∨ y - 4 * (e / 1460) = 4 := by omega
  refine ⟨by omega, by omega, ?_⟩
  rcases hcentury with hc | hc | hc | hc | hc <;>
    rcases hplace with hp | hp | hp | hp | hp | hp <;> omega

theorem toDays_ofDays (n : Int) : (ofDays n).toDays = n := by
  unfold ofDays toDays
  simp only [Int.fdiv_eq_ediv_of_nonneg _ (show (0 : Int) ≤ 146097 by decide),
    Int.fdiv_eq_ediv_of_nonneg _ (show (0 : Int) ≤ 400 by decide)]
  generalize hera : (n + 719468) / 146097 = era
  generalize hday : n + 719468 - era * 146097 = e
  have h₀ : 0 ≤ e := by omega
  have h₁ : e ≤ 146096 := by omega
  generalize hy : (e - e / 1460 + e / 36524 - e / 146096) / 365 = y
  obtain ⟨hy₀, hy₁, hlow, hhigh⟩ := yearOfEra_spec h₀ h₁ hy.symm
  generalize hd : e - (365 * y + y / 4 - y / 100) = d
  generalize hm : (5 * d + 2) / 153 = m
  have hm₀ : 0 ≤ m := by omega
  have hm₁ : m ≤ 11 := by omega
  have hquot : (y + era * 400) / 400 = era := by omega
  have hday₀ : 0 ≤ d - (153 * m + 2) / 5 + 1 := by omega
  by_cases hten : m < 10
  · rw [if_pos hten, if_neg (by omega), if_neg (by omega), if_pos (by omega), hquot,
      Int.add_sub_cancel, Int.toNat_of_nonneg hday₀, Int.toNat_of_nonneg (by omega),
      Int.add_sub_cancel]
    omega
  · rw [if_neg hten, if_pos (by omega), if_pos (by omega), if_neg (by omega), Int.add_sub_cancel,
      hquot, Int.add_sub_cancel, Int.toNat_of_nonneg hday₀, Int.toNat_of_nonneg (by omega),
      Int.sub_add_cancel]
    omega

end Date

/-! ## Digits -/

/-- Digits at the front are read as the number that they write. -/
theorem takeDigits?_append (ds : List Char) (hd : ∀ c ∈ ds, c.isDigit = true) (rest : List Char) :
    takeDigits? ds.length (ds ++ rest) = some (Nat.ofDigitChars 10 ds 0, rest) := by
  induction ds using List.reverseRecOn generalizing rest with
  | nil => rfl
  | append_singleton ds c ih =>
    obtain ⟨hds, hc⟩ := List.forall_mem_append.1 hd
    rw [List.length_append, List.length_singleton, List.append_assoc, takeDigits?, ih hds]
    simp [hc c List.mem_cons_self, Nat.ofDigitChars_eq_foldl]

theorem ofDigitChars_zeros (k : Nat) (ds : List Char) :
    Nat.ofDigitChars 10 (List.replicate k '0' ++ ds) 0 = Nat.ofDigitChars 10 ds 0 := by
  induction k with
  | zero => rfl
  | succ k ih => rw [← ih]; rfl

variable {k n : Nat} {rest : List Char}

/-- The characters of a number with zeros in front. -/
theorem toList_padded (k n : Nat) : (padded k n).toList =
    List.replicate (k - (Nat.toDigits 10 n).length) '0' ++ Nat.toDigits 10 n := by
  rw [padded, String.toList_ofList]

theorem isDigit_of_mem_padded {c : Char} (hc : c ∈ (padded k n).toList) : c.isDigit = true := by
  rw [toList_padded] at hc
  rcases List.mem_append.1 hc with hc | hc
  · rw [List.eq_of_mem_replicate hc]
    rfl
  · exact Nat.isDigit_of_mem_toDigits (by decide) (by decide) hc

theorem length_padded (hk : 0 < k) (hn : n < 10 ^ k) : (padded k n).toList.length = k := by
  have hlen := (Nat.length_toDigits_le_iff (by decide) hk).2 hn
  rw [toList_padded, List.length_append, List.length_replicate]
  omega

theorem ofDigitChars_padded (k n : Nat) : Nat.ofDigitChars 10 (padded k n).toList 0 = n := by
  rw [toList_padded, ofDigitChars_zeros, Nat.ofDigitChars_toDigits (by decide) (by decide)]

theorem takeDigits?_padded (hk : 0 < k) (hn : n < 10 ^ k) (rest : List Char) :
    takeDigits? k ((padded k n).toList ++ rest) = some (n, rest) := by
  have hread := takeDigits?_append (padded k n).toList
    (fun _ hc => isDigit_of_mem_padded hc) rest
  rwa [length_padded hk hn, ofDigitChars_padded] at hread

namespace Timestamp

theorem takeBelow?_padded {bound : Nat} (hn : n < bound) (hb : bound ≤ 100) (rest : List Char) :
    takeBelow? bound ((padded 2 n).toList ++ rest) = some (n, rest) := by
  rw [takeBelow?, takeDigits?_padded (by decide) (by omega), Option.filter_some,
    if_pos (by simpa using hn)]

/-! ## Times of day -/

/-- A text behind a time of day that is not read as part of it. -/
def EndsClock (rest : List Char) : Prop :=
  ∀ c ∈ rest.head?, c.isDigit = false ∧ c ≠ '.' ∧ c ≠ ',' ∧ c ≠ ':'

/-- A fraction of a second, if there is one. -/
def fractionText (u : Nat) : String := if u == 0 then "" else "." ++ padded 6 u

theorem takeMicros?_fractionText {u : Nat} (hu : u < 1000000) (hr : EndsClock rest) :
    takeMicros? ((fractionText u).toList ++ rest) = some (u, rest) := by
  rw [fractionText]
  split
  · next hz =>
    obtain rfl : u = 0 := by simpa using hz
    cases rest with
    | nil => rfl
    | cons c rest =>
      obtain ⟨-, hpoint, hcomma, -⟩ := hr c rfl
      rw [String.toList_empty, List.nil_append, takeMicros?]
      simp [hpoint, hcomma]
  · have hdigit : ∀ c ∈ (padded 6 u).toList, c.isDigit = true := fun _ hc =>
      isDigit_of_mem_padded hc
    have hlen := length_padded (by decide) (show u < 10 ^ 6 from hu)
    have hspan : rest.takeWhile Char.isDigit = [] ∧ rest.dropWhile Char.isDigit = rest := by
      cases rest with
      | nil => exact ⟨rfl, rfl⟩
      | cons c rest =>
        obtain ⟨hc, -⟩ := hr c rfl
        simp [hc]
    have hne : (padded 6 u).toList ≠ [] := by
      intro hnil
      rw [hnil] at hlen
      cases hlen
    have hvalue : Form.digitsValue (padded 6 u).toList = u := by
      have hv := ofDigitChars_padded 6 u
      rwa [Nat.ofDigitChars_eq_foldl] at hv
    rw [String.toList_append, show ".".toList = ['.'] from rfl, List.singleton_append,
      List.cons_append, takeMicros?]
    dsimp only
    rw [if_pos (by decide), List.takeWhile_append_of_pos hdigit,
      List.dropWhile_append_of_pos hdigit, hspan.1, hspan.2, List.append_nil,
      if_neg (by simpa using hne), List.take_of_length_le (by omega), hlen, Nat.sub_self,
      List.replicate_zero, List.append_nil, hvalue]

/-- The characters of hours and minutes, and of what comes after them. -/
def clockChars (h m : Nat) (more : List Char) : List Char :=
  (padded 2 h).toList ++ ':' :: ((padded 2 m).toList ++ more)

theorem takeTime?_minutes {h m : Nat} (hh : h < 24) (hm : m < 60) (hr : EndsClock rest) :
    takeTime? (clockChars h m rest) = some ((h * 60 + m) * 60000000, rest) := by
  simp only [takeTime?, clockChars, takeBelow?_padded hh (by decide),
    takeBelow?_padded hm (by decide), Option.bind_eq_bind, Option.bind_some]
  split
  · exact absurd rfl (hr ':' rfl).2.2.2
  · rfl

theorem takeTime?_seconds {h m s u : Nat} (hh : h < 24) (hm : m < 60) (hs : s < 60)
    (hu : u < 1000000) (hr : EndsClock rest) :
    takeTime? (clockChars h m (':' :: ((padded 2 s).toList ++ ((fractionText u).toList ++ rest)))) =
      some (((h * 60 + m) * 60 + s) * 1000000 + u, rest) := by
  simp only [takeTime?, clockChars, takeBelow?_padded hh (by decide),
    takeBelow?_padded hm (by decide), takeBelow?_padded hs (by decide),
    takeMicros?_fractionText hu hr, Option.bind_eq_bind, Option.bind_some]
  rfl

/-! ## Points in time -/

variable {t t' : Timestamp} {rest' : List Char}

theorem wall_moment (t : Timestamp) : t.moment.hour < 24 ∧ t.moment.minute < 60 ∧
    t.moment.second < 60 ∧ t.moment.micro < 1000000 ∧ ∀ zone, onDate t.moment.date
      (((t.moment.hour * 60 + t.moment.minute) * 60 + t.moment.second) * 1000000 +
        t.moment.micro) zone = ⟨t.wall, zone⟩ := by
  unfold moment onDate
  dsimp only
  rw [Date.toDays_ofDays, Int.fdiv_eq_ediv_of_nonneg _ (by decide), perDay]
  refine ⟨by omega, by omega, by omega, by omega, fun zone => ?_⟩
  congr 1
  omega

theorem toList_wallText (t : Timestamp) (rest : List Char) : t.wallText.toList ++ rest =
    (padded 4 t.moment.date.year.toNat).toList ++ '-' :: ((padded 2 t.moment.date.month).toList ++
      '-' :: ((padded 2 t.moment.date.day).toList ++ 'T' ::
        clockChars t.moment.hour t.moment.minute (':' :: ((padded 2 t.moment.second).toList ++
          ((fractionText t.moment.micro).toList ++ rest))))) := by
  have hwall : t.wallText = padded 4 t.moment.date.year.toNat ++ "-" ++
      padded 2 t.moment.date.month ++ "-" ++ padded 2 t.moment.date.day ++ "T" ++
      padded 2 t.moment.hour ++ ":" ++ padded 2 t.moment.minute ++ ":" ++
      padded 2 t.moment.second ++ fractionText t.moment.micro := rfl
  rw [hwall]
  simp [clockChars]

/-- What is written of a point in time is read again, and what follows is left. -/
theorem reads_wallText (h : t.isInCalendar = true) (hr : EndsClock rest) :
    ∃ clock micros, takeDate? (t.wallText.toList ++ rest) = some (t.moment.date, 'T' :: clock) ∧
      takeTime? clock = some (micros, rest) ∧
        ∀ zone, onDate t.moment.date micros zone = ⟨t.wall, zone⟩ := by
  obtain ⟨hh, hm, hs, hu, hwall⟩ := wall_moment t
  refine ⟨_, _, ?_, takeTime?_seconds hh hm hs hu hr, hwall⟩
  rw [isInCalendar] at h
  obtain ⟨hy₀, hy₁, hm₀, hm₁, hd₀, hd₁⟩ : 1 ≤ t.moment.date.year ∧ t.moment.date.year ≤ 9999 ∧
      1 ≤ t.moment.date.month ∧ t.moment.date.month ≤ 12 ∧ 1 ≤ t.moment.date.day ∧
      t.moment.date.day ≤ Date.monthDays t.moment.date.year t.moment.date.month := by
    simpa [Date.isValid, and_assoc] using h
  have hdays : Date.monthDays t.moment.date.year t.moment.date.month ≤ 31 := by
    unfold Date.monthDays
    split
    · split <;> decide
    · split <;> decide
  have hdate : (⟨t.moment.date.year.toNat, t.moment.date.month, t.moment.date.day⟩ : Date) =
      t.moment.date := by
    rw [Int.toNat_of_nonneg (by omega)]
  have hyear := takeDigits?_padded (k := 4) (n := t.moment.date.year.toNat) (by decide) (by omega)
  have hmonth := takeDigits?_padded (k := 2) (n := t.moment.date.month) (by decide) (by omega)
  have hday := takeDigits?_padded (k := 2) (n := t.moment.date.day) (by decide) (by omega)
  simp only [toList_wallText, takeDate?, hyear, hmonth, hday, Option.bind_some, hdate]
  rw [if_pos h]

/-- A point in time without its zone, and what follows it, can be told from the text. -/
theorem wallText_append_injective (h : t.isInCalendar = true) (h' : t'.isInCalendar = true)
    (hr : EndsClock rest) (hr' : EndsClock rest')
    (he : t.wallText.toList ++ rest = t'.wallText.toList ++ rest') :
    t.wall = t'.wall ∧ rest = rest' := by
  obtain ⟨clock, micros, hdate, htime, hwall⟩ := reads_wallText h hr
  obtain ⟨clock', micros', hdate', htime', hwall'⟩ := reads_wallText h' hr'
  rw [he, hdate'] at hdate
  obtain ⟨hd, hc⟩ := Prod.mk.inj (Option.some.inj hdate)
  obtain rfl := (List.cons.inj hc).2
  rw [htime'] at htime
  obtain ⟨rfl, rfl⟩ := Prod.mk.inj (Option.some.inj htime)
  have hsame := (hwall none).symm.trans (hd ▸ hwall' none)
  exact ⟨(mk.inj hsame).1, rfl⟩

/-! ## Zones -/

/-- A distance from UTC of less than a day. -/
def IsZone (z : Int) : Prop := -perDay < z ∧ z < perDay

theorem endsClock_nil : EndsClock [] := fun _ hc => nomatch hc

theorem exists_toList_zoneText (z : Int) : ∃ clock,
    (zoneText z).toList = (if z < 0 then '-' else '+') :: clock ∧
      (IsZone z → takeTime? clock = some (z.natAbs, [])) := by
  have hsign : (if z < 0 then "-" else "+").toList = [if z < 0 then '-' else '+'] := by
    split <;> rfl
  have hlt : ∀ {h : Nat}, IsZone z → h = z.natAbs / 1000000 / 3600 → h < 24 := by
    unfold IsZone perDay
    omega
  unfold zoneText hoursText
  dsimp only
  by_cases hwhole : z.natAbs / 1000000 % 60 = 0 ∧ z.natAbs % 1000000 = 0
  · refine ⟨clockChars (z.natAbs / 1000000 / 3600) (z.natAbs / 1000000 / 60 % 60) [], ?_,
      fun hz => ?_⟩
    · simp [hwhole, hsign, clockChars]
    · rw [takeTime?_minutes (hlt hz rfl) (by omega) endsClock_nil]
      congr 2
      omega
  · refine ⟨clockChars (z.natAbs / 1000000 / 3600) (z.natAbs / 1000000 / 60 % 60)
      (':' :: ((padded 2 (z.natAbs / 1000000 % 60)).toList ++
        ((fractionText (z.natAbs % 1000000)).toList ++ []))), ?_, fun hz => ?_⟩
    · simp [hwhole, hsign, clockChars, fractionText]
    · rw [takeTime?_seconds (hlt hz rfl) (by omega) (by omega) (by omega) endsClock_nil]
      congr 2
      omega

theorem zoneText_injective {z z' : Int} (hz : IsZone z) (hz' : IsZone z')
    (he : zoneText z = zoneText z') : z = z' := by
  obtain ⟨clock, htext, hread⟩ := exists_toList_zoneText z
  obtain ⟨clock', htext', hread'⟩ := exists_toList_zoneText z'
  rw [he, htext'] at htext
  obtain ⟨hsign, rfl⟩ := List.cons.inj htext
  have habs := (hread hz).symm.trans (hread' hz')
  obtain ⟨habs, -⟩ := Prod.mk.inj (Option.some.inj habs)
  by_cases hneg : z < 0
  · by_cases hneg' : z' < 0
    · omega
    · simp [hneg, hneg'] at hsign
  · by_cases hneg' : z' < 0
    · simp [hneg, hneg'] at hsign
    · omega

/-- A reading of a clock: its date lies in the calendar and its zone within a day of UTC. -/
structure IsReading (t : Timestamp) : Prop where
  calendar : t.isInCalendar = true
  zone : ∀ z ∈ t.zone, IsZone z

/-- The characters of a zone in the ISO form. -/
def zoneChars : Option Int → List Char
  | none => []
  | some z => (zoneText z).toList

theorem toList_isoText (t : Timestamp) :
    t.isoText.toList = t.wallText.toList ++ zoneChars t.zone := by
  rw [isoText, String.toList_append]
  cases t.zone <;> rfl

theorem endsClock_zoneChars (zone : Option Int) : EndsClock (zoneChars zone) := by
  cases zone with
  | none => exact endsClock_nil
  | some z =>
    intro c hc
    obtain ⟨clock, htext, -⟩ := exists_toList_zoneText z
    rw [zoneChars, htext] at hc
    obtain rfl := Option.some.inj hc
    split <;> decide

theorem zoneChars_injective {zone zone' : Option Int} (h : ∀ z ∈ zone, IsZone z)
    (h' : ∀ z ∈ zone', IsZone z) (he : zoneChars zone = zoneChars zone') : zone = zone' := by
  have hne : ∀ z, zoneChars (some z) ≠ [] := by
    intro z hnil
    obtain ⟨clock, htext, -⟩ := exists_toList_zoneText z
    rw [zoneChars, htext] at hnil
    cases hnil
  cases zone with
  | none =>
    cases zone' with
    | none => rfl
    | some z => exact absurd he.symm (hne z)
  | some z =>
    cases zone' with
    | none => exact absurd he (hne z)
    | some z' => rw [zoneText_injective (h z rfl) (h' z' rfl) (String.toList_inj.1 he)]

/-- Two readings of clocks have two texts. -/
theorem isoText_injective (h : t.IsReading) (h' : t'.IsReading) (he : t.isoText = t'.isoText) :
    t = t' := by
  rw [← String.toList_inj, toList_isoText, toList_isoText] at he
  obtain ⟨hwall, hzone⟩ := wallText_append_injective h.calendar h'.calendar
    (endsClock_zoneChars _) (endsClock_zoneChars _) he
  obtain ⟨wall, zone⟩ := t
  obtain ⟨wall', zone'⟩ := t'
  obtain rfl : wall = wall' := hwall
  obtain rfl : zone = zone' := zoneChars_injective h.zone h'.zone hzone
  rfl

/-! ## Stored points in time -/

/-- A reading of a clock whose zone is a whole number of minutes away from UTC: the form in which
points in time are stored has no room for more. -/
structure IsStorable (t : Timestamp) : Prop where
  calendar : t.isInCalendar = true
  zone : ∀ z ∈ t.zone, IsZone z ∧ z % 60000000 = 0

/-- The characters of a zone in the form in which points in time are stored. -/
def shortZoneChars : Option Int → List Char
  | none => []
  | some z => (shortZoneText z).toList

theorem toList_zuluText (t : Timestamp) :
    t.zuluText.toList = t.wallText.toList ++ shortZoneChars t.zone := by
  rw [zuluText, String.toList_append]
  cases t.zone <;> rfl

/-- A zone of whole minutes is told by its sign and its distance. -/
theorem shortZoneChars_cases {z : Int} (hz : IsZone z) (hm : z % 60000000 = 0) :
    (z = 0 ∧ shortZoneChars (some z) = ['Z']) ∨
      ∃ h m, h < 24 ∧ m < 60 ∧ z.natAbs = (h * 60 + m) * 60000000 ∧
        shortZoneChars (some z) = (if z < 0 then '-' else '+') :: clockChars h m [] := by
  have hseconds : z.tdiv perSecond = z / 1000000 :=
    Int.tdiv_eq_ediv_of_dvd (Int.dvd_of_emod_eq_zero (by rw [perSecond]; omega))
  rw [shortZoneChars, shortZoneText, hseconds]
  by_cases hzero : z = 0
  · exact .inl ⟨hzero, by subst hzero; rfl⟩
  · refine .inr ⟨(z / 1000000).natAbs / 3600, (z / 1000000).natAbs / 60 % 60, ?_, by omega,
      by omega, ?_⟩
    · unfold IsZone perDay at hz
      omega
    · have hsign : (z / 1000000 < 0) = (z < 0) := propext (by omega)
      rw [if_neg (by simp; omega), hoursText]
      by_cases hneg : z < 0
      · simp [hsign, hneg, clockChars]
      · simp [hsign, hneg, clockChars]

theorem storedZone?_clockChars {sign : Char} {h m : Nat} (hs : sign = '+' ∨ sign = '-')
    (hh : h < 24) (hm : m < 60) : storedZone? (sign :: clockChars h m []) =
      some (some (if sign == '+' then ((h : Int) * 60 + m) * 60000000
        else -(((h : Int) * 60 + m) * 60000000))) := by
  have hhours := takeBelow?_padded hh (by decide) (':' :: ((padded 2 m).toList ++ []))
  have hminutes := takeBelow?_padded hm (by decide) []
  have hletter : sign ≠ 'Z' ∧ sign ≠ 'z' := by rcases hs with rfl | rfl <;> decide
  rw [storedZone?.eq_def, clockChars]
  split
  · next he => cases he
  · next he => exact absurd (List.cons.inj he).1 hletter.1
  · next he => exact absurd (List.cons.inj he).1 hletter.2
  · next he =>
    obtain ⟨rfl, rfl⟩ := List.cons.inj he
    rw [if_pos (by rcases hs with rfl | rfl <;> decide), hhours]
    simp only [hminutes]

theorem storedZone?_shortZoneChars {zone : Option Int}
    (h : ∀ z ∈ zone, IsZone z ∧ z % 60000000 = 0) :
    storedZone? (shortZoneChars zone) = some zone := by
  cases zone with
  | none => rfl
  | some z =>
    obtain ⟨hz, hm⟩ := h z rfl
    obtain ⟨rfl, htext⟩ | ⟨hours, minutes, hh, hmin, habs, htext⟩ := shortZoneChars_cases hz hm
    · rw [htext]
      rfl
    · rw [htext]
      by_cases hneg : z < 0
      · rw [if_pos hneg, storedZone?_clockChars (.inr rfl) hh hmin, if_neg (by decide)]
        congr 2
        omega
      · rw [if_neg hneg, storedZone?_clockChars (.inl rfl) hh hmin, if_pos (by decide)]
        congr 2
        omega

theorem endsClock_shortZoneChars {zone : Option Int}
    (h : ∀ z ∈ zone, IsZone z ∧ z % 60000000 = 0) : EndsClock (shortZoneChars zone) := by
  cases zone with
  | none => exact endsClock_nil
  | some z =>
    intro c hc
    obtain ⟨hz, hm⟩ := h z rfl
    obtain ⟨-, htext⟩ | ⟨hours, minutes, -, -, -, htext⟩ := shortZoneChars_cases hz hm
    · rw [htext] at hc
      obtain rfl := Option.some.inj hc
      decide
    · rw [htext] at hc
      obtain rfl := Option.some.inj hc
      split <;> decide

/-- A point in time is read back as it was stored. -/
theorem ofStored?_zuluText (h : t.IsStorable) : ofStored? (.str t.zuluText) = some t := by
  obtain ⟨clock, micros, hdate, htime, hwall⟩ :=
    reads_wallText h.calendar (endsClock_shortZoneChars h.zone)
  have hread : ofDateText? t.zuluText.toList = some t := by
    simp only [ofDateText?, toList_zuluText, hdate, htime, storedZone?_shortZoneChars h.zone,
      hwall, Option.bind_eq_bind, Option.bind_some]
    rfl
  rw [ofStored?, hread]
  rfl

end Timestamp

end Workbench
