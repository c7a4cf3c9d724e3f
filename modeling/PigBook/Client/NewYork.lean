import Mathlib.Data.Int.Order.Basic
import PigBook.Client.Windows
import PigBook.Windows.Timestamps

/-
  The seven days of availability that the browser shows.

  Key definitions include:
    * `NewYork`, `formatToParts`
    * `getNewYorkInstantUtc`
    * `getSevenDayWindow`
    * `renderedSlots`

  Key theorems include:
    * `NewYork.steady`
    * `getNewYorkInstantUtc_eq`
    * `seven_day_window`
-/

------------------------------------------------------------
-- New York Time
------------------------------------------------------------

namespace PigBook.Client

open Calendar

def msPerHour : ℤ := 3600000

/-
  The offset of New York's wall clock at each instant. It
  changes only when the clock is about to show 02:00.
-/
structure NewYork where
  offset : ℤ → ℤ
  values :
    ∀ t, offset t = -4 * msPerHour ∨ offset t = -5 * msPerHour
  changes :
    ∀ t, offset t ≠ offset (t - 1) →
      (t + offset (t - 1)) % msPerDay = 2 * msPerHour

/- What the wall clock shows. -/
def NewYork.local (zone : NewYork) (t : ℤ) : ℤ :=
  t + zone.offset t

/- The texts of the parts of a date, in `en-US`. -/
structure Parts where
  year : List Char
  month : List Char
  day : List Char
  hour : List Char
  minute : List Char
  weekday : List Char

def weekdays : List String :=
  ["Thu", "Fri", "Sat", "Sun", "Mon", "Tue", "Wed"]

/-
  `formatToParts` with a numeric year and two digits for the
  other parts. Of the 24 hours, engines write the first as 00
  or as 24; `midnight` is what this one writes.
-/
def formatToParts
    (zone : NewYork)
    (midnight : Fin 2)
    (d : ℤ) : Parts :=
  let x := fields (zone.local d)
  { year := Nat.toDigits 10 x.date.year.toNat
    month := digits 2 x.date.month
    day := digits 2 x.date.dayOfMonth
    hour :=
      digits 2 (if x.hour = 0 then 24 * midnight.val else x.hour)
    minute := digits 2 x.minute
    weekday :=
      (weekdays.getD (zone.local d / msPerDay % 7).toNat
        "").toList }

end PigBook.Client

------------------------------------------------------------
-- Instants of Local Times
------------------------------------------------------------

namespace PigBook.Client

open Calendar

/- `Number` of decimal digits; there are no other texts. -/
def number (cs : List Char) : Option ℕ :=
  (readDigits cs.length 0 cs).map Prod.fst

/- `Date.UTC(year, month - 1, day, hour, minute, 0, 0)`. -/
def dateUTC
    (year month day hour minute : ℕ) : TimeValue :=
  let fullYear : ℤ := if year ≤ 99 then 1900 + year else year
  let monthIndex : ℤ := month - 1
  let firstDay : ℤ :=
    (Date.mk (fullYear + monthIndex / 12)
      ((monthIndex % 12).toNat + 1) 1).day
  timeClip
    ((firstDay + day - 1) * msPerDay + hour * msPerHour +
      minute * 60000)

/- A date as `YYYY-MM-DD`. -/
def dateKey (year month day : List Char) : String :=
  String.ofList (year ++ '-' :: (month ++ '-' :: day))

def splitDate (dateStr : String) : Option (ℕ × ℕ × ℕ) :=
  match (dateStr.toList.splitOn '-').map number with
  | some year :: some month :: some day :: _ =>
      some (year, month, day)
  | _ => none

section

variable (zone : NewYork)
variable (midnight : Fin 2)

/- The parts of the date have the requested numbers. -/
def shows
    (d : ℤ)
    (year month day hour minute : ℕ) : Bool :=
  let parts := formatToParts zone midnight d
  number parts.year = some year ∧
    number parts.month = some month ∧
    number parts.day = some day ∧
    (number parts.hour).map (· % 24) = some hour ∧
    number parts.minute = some minute

/- Without a date that is not NaN, `RangeError` is thrown. -/
def tryOffsets
    (year month day hour minute : ℕ) :
    List ℕ → Option String
| [] =>
    (dateUTC year month day (hour + 4) minute).map toISOString
| offsetHour :: offsets => do
    let d ← dateUTC year month day (hour + offsetHour) minute
    if shows zone midnight d year month day hour minute then
      some (toISOString d)
    else
      tryOffsets year month day hour minute offsets

def getNewYorkInstantUtc
    (dateStr : String)
    (hour minute : ℕ) : Option String := do
  let (year, month, day) ← splitDate dateStr
  tryOffsets zone midnight year month day hour minute
    [4, 5, 3, 6]

end

end PigBook.Client

------------------------------------------------------------
-- Windows
------------------------------------------------------------

namespace PigBook.Client

open Calendar

structure DayInfo where
  dateStr : String
  displayDate : String
  startsAt : String
  endsAt : String

structure SevenDayWindow where
  startsAt : String
  endsAt : String
  days : List DayInfo

variable (zone : NewYork)
variable (midnight : Fin 2)

/- The day `i` days after a date. -/
def dayInfo
    (year month day i : ℕ) : Option DayInfo := do
  let d ← dateUTC year month (day + i) 12 0
  let parts := formatToParts zone midnight d
  let key := dateKey parts.year parts.month parts.day
  let dayStartUtc ← getNewYorkInstantUtc zone midnight key 0 0
  let nextD ← dateUTC year month (day + i + 1) 12 0
  let nextParts := formatToParts zone midnight nextD
  let nextKey :=
    dateKey nextParts.year nextParts.month nextParts.day
  let dayEndUtc ← getNewYorkInstantUtc zone midnight nextKey 0 0
  return {
    dateStr := key
    displayDate :=
      String.ofList
        (parts.weekday ++ ", ".toList ++ parts.month ++ '/' ::
          parts.day)
    startsAt := dayStartUtc
    endsAt := dayEndUtc
  }

def maxSpanMs : ℤ := 7 * 24 * 60 * 60 * 1000

/- The end of the window: at most seven times 24 hours. -/
def clampEnd
    (other : String → TimeValue)
    (windowStart windowEnd : String) : String :=
  match newDate other windowStart, newDate other windowEnd with
  | some startMs, some endMs =>
      if maxSpanMs < endMs - startMs then
        toISOString (startMs + maxSpanMs)
      else windowEnd
  | _, _ => windowEnd

def getSevenDayWindow
    (other : String → TimeValue)
    (startDateStr : String) : Option SevenDayWindow := do
  let (year, month, day) ← splitDate startDateStr
  let days ←
    (List.range 7).mapM (dayInfo zone midnight year month day)
  let first ← days[0]?
  let last ← days[6]?
  return {
    startsAt := first.startsAt
    endsAt := clampEnd other first.startsAt last.endsAt
    days := days
  }

/- A slot as it is rendered, without its occupation. -/
structure Slot where
  timeLabel : String
  startIso : String
  endIso : String

/- Two digits at least. -/
def padStart (n : ℕ) : List Char :=
  let text := Nat.toDigits 10 n
  List.replicate (2 - text.length) '0' ++ text

def slotAt
    (dateStr : String)
    (h m : ℕ) : Option Slot := do
  let slotStartUtcStr ←
    getNewYorkInstantUtc zone midnight dateStr h m
  let nextH := if m = 30 then h + 1 else h
  let nextM := if m = 30 then 0 else 30
  let slotEndUtcStr ←
    getNewYorkInstantUtc zone midnight dateStr nextH nextM
  return {
    timeLabel := String.ofList (padStart h ++ ':' :: padStart m)
    startIso := slotStartUtcStr
    endIso := slotEndUtcStr
  }

/- The beginnings of the half hours from 08:00 to 20:00. -/
def slotTimes : List (ℕ × ℕ) :=
  (List.range' 8 12).flatMap fun h => [(h, 0), (h, 30)]

def renderedSlots (dateStr : String) : Option (List Slot) :=
  slotTimes.mapM fun (h, m) => slotAt zone midnight dateStr h m

end PigBook.Client

------------------------------------------------------------
-- Offsets
------------------------------------------------------------

namespace PigBook.Client

open Calendar

variable (zone : NewYork)

/- Between the hours of changes the offset stays the same. -/
theorem NewYork.steady
    {t t' : ℤ}
    (hOrder : t ≤ t')
    (hSame :
      ∀ u, t < u → u ≤ t' →
        u % msPerDay ≠ 6 * msPerHour ∧
          u % msPerDay ≠ 7 * msPerHour) :
    zone.offset t' = zone.offset t := by
  induction t', hOrder using Int.leInduction with
  | base => rfl
  | succ u hu ih =>
      have hBefore :
          zone.offset u = zone.offset t := by
        apply ih
        intro v hLow hHigh
        exact hSame v hLow (by omega)
      rw [← hBefore]
      by_contra hChange
      have hPrev : u + 1 - 1 = u := by omega
      have hHour := zone.changes (u + 1)
      rw [hPrev] at hHour
      have hAt := hHour hChange
      have hNot := hSame (u + 1) (by omega) (by omega)
      unfold msPerDay msPerHour at hAt hNot
      rcases zone.values u with hSummer | hWinter
      · rw [hSummer] at hAt
        unfold msPerHour at hAt
        omega
      · rw [hWinter] at hAt
        unfold msPerHour at hAt
        omega

/- The instant that is tried first, or the one after it. -/
def NewYork.utc (wall : ℤ) : ℤ :=
  if zone.offset (wall + 4 * msPerHour) = -4 * msPerHour then
    wall + 4 * msPerHour
  else wall + 5 * msPerHour

/- A local time that exists is that of one of the two. -/
theorem NewYork.local_utc
    {wall : ℤ}
    (hExists : ∃ t, zone.local t = wall) :
    zone.local (zone.utc wall) = wall := by
  unfold NewYork.local at hExists ⊢
  unfold NewYork.utc
  split_ifs with hSummer
  · rw [hSummer]
    omega
  · rcases hExists with ⟨t, hLocal⟩
    rcases zone.values t with hFour | hFive
    · exfalso
      apply hSummer
      have hInstant : wall + 4 * msPerHour = t := by omega
      rw [hInstant]
      exact hFour
    · have hInstant : wall + 5 * msPerHour = t := by omega
      rw [hInstant]
      exact hLocal

/- No day begins in the hour that is left out. -/
theorem NewYork.midnight_exists (n : ℤ) :
    ∃ t, zone.local t = n * msPerDay := by
  have hSteady :
      zone.offset (n * msPerDay + 5 * msPerHour) =
        zone.offset (n * msPerDay + 4 * msPerHour) := by
    apply zone.steady
    · unfold msPerHour
      omega
    · intro u hLow hHigh
      unfold msPerDay msPerHour at *
      omega
  unfold NewYork.local
  rcases zone.values (n * msPerDay + 4 * msPerHour) with
    hFour | hFive
  · refine ⟨n * msPerDay + 4 * msPerHour, ?_⟩
    rw [hFour]
    omega
  · refine ⟨n * msPerDay + 5 * msPerHour, ?_⟩
    rw [hSteady, hFive]
    omega

/- From 07:00 UTC on the offset of a day is fixed. -/
theorem NewYork.offset_day
    {n t : ℤ}
    (hLow : n * msPerDay + 7 * msPerHour ≤ t)
    (hHigh : t < n * msPerDay + 30 * msPerHour) :
    zone.offset t = zone.offset (n * msPerDay + 7 * msPerHour) := by
  apply zone.steady hLow
  intro u hAfter hBefore
  unfold msPerDay msPerHour at *
  omega

/- So its later local times are all apart as shown. -/
theorem NewYork.utc_day
    {n τ : ℤ}
    (hLow : 3 * msPerHour ≤ τ)
    (hHigh : τ < 25 * msPerHour) :
    zone.utc (n * msPerDay + τ) =
      n * msPerDay + τ -
        zone.offset (n * msPerDay + 7 * msPerHour) := by
  have hFirst :
      zone.offset (n * msPerDay + τ + 4 * msPerHour) =
        zone.offset (n * msPerDay + 7 * msPerHour) := by
    apply zone.offset_day
    · unfold msPerHour at *
      omega
    · unfold msPerHour at *
      omega
  unfold NewYork.utc
  rw [hFirst]
  rcases zone.values (n * msPerDay + 7 * msPerHour) with
    hFour | hFive
  · rw [if_pos hFour, hFour]
    omega
  · rw [hFive, if_neg (by decide)]
    omega

theorem NewYork.utc_bounds (wall : ℤ) :
    wall + 4 * msPerHour ≤ zone.utc wall ∧
      zone.utc wall ≤ wall + 5 * msPerHour := by
  unfold NewYork.utc msPerHour
  split_ifs
  · omega
  · omega

end PigBook.Client

------------------------------------------------------------
-- Numbers
------------------------------------------------------------

namespace PigBook.Client

open Calendar

theorem length_digits (w n : ℕ) :
    (digits w n).length = w := by
  induction w generalizing n with
  | zero => rfl
  | succ w ih =>
      unfold digits
      rw [List.length_append, ih]
      rfl

theorem number_digits
    {w n : ℕ}
    (hDigits : n < 10 ^ w) :
    number (digits w n) = some n := by
  have hRead := readDigits_digits w 0 [] hDigits
  rw [List.append_nil] at hRead
  unfold number
  rw [length_digits, hRead, Option.map_some]
  simp

/- A number has as many digits as it needs. -/
theorem toDigits_eq_digits (n : ℕ) :
    ∃ w, Nat.toDigits 10 n = digits w n ∧ n < 10 ^ w := by
  induction n using Nat.strong_induction_on with
  | _ n ih =>
      by_cases hSmall : n < 10
      · refine ⟨1, ?_, by omega⟩
        rw [Nat.toDigits_of_lt_base hSmall]
        unfold digits
        rw [Nat.mod_eq_of_lt hSmall]
        rfl
      · rcases ih (n / 10) (by omega) with ⟨w, hDigits, hBound⟩
        refine ⟨w + 1, ?_, ?_⟩
        · rw [Nat.toDigits_of_base_le (by omega) (by omega),
            hDigits]
          rfl
        · rw [pow_succ]
          omega

theorem number_toDigits (n : ℕ) :
    number (Nat.toDigits 10 n) = some n := by
  rcases toDigits_eq_digits n with ⟨w, hDigits, hBound⟩
  rw [hDigits]
  exact number_digits hBound

/- Years of four digits. -/
theorem toDigits_year
    {n : ℕ}
    (hYear : 1000 ≤ n ∧ n ≤ 9999) :
    Nat.toDigits 10 n = digits 4 n := by
  have hStep :
      ∀ m, 10 ≤ m →
        Nat.toDigits 10 m =
          Nat.toDigits 10 (m / 10) ++ [Nat.digitChar (m % 10)] :=
    fun m hm => Nat.toDigits_of_base_le (by omega) hm
  have hFirst : n / 10 / 10 / 10 < 10 := by omega
  rw [hStep n (by omega), hStep (n / 10) (by omega),
    hStep (n / 10 / 10) (by omega),
    Nat.toDigits_of_lt_base hFirst]
  unfold digits digits digits digits digits
  rw [Nat.mod_eq_of_lt hFirst]
  rfl

end PigBook.Client

------------------------------------------------------------
-- Local Times
------------------------------------------------------------

namespace PigBook.Client

open Calendar

/- A local time, as a number of milliseconds. -/
def localTime (n : ℤ) (hour minute : ℕ) : ℤ :=
  n * msPerDay + hour * msPerHour + minute * 60000

/- The days of the years up to 9999. -/
def InCalendar (n : ℤ) : Prop :=
  dayFromYear 1970 ≤ n ∧ n < dayFromYear 10000

theorem InCalendar.bounds
    {n : ℤ}
    (hDay : InCalendar n) :
    0 ≤ n ∧ n < 2932897 := by
  have hFrom : dayFromYear 1970 = 0 := by decide
  have hUntil : dayFromYear 10000 = 2932897 := by decide
  unfold InCalendar at hDay
  omega

theorem InCalendar.year
    {n : ℤ}
    (hDay : InCalendar n) :
    1970 ≤ (dateFromDay n).year ∧
      (dateFromDay n).year ≤ 9999 := by
  have hBounds := yearFromDay_bounds n hDay.1 hDay.2
  exact ⟨hBounds.1, Int.le_of_lt_add_one hBounds.2⟩

theorem fields_localTime
    (n : ℤ)
    {hour minute : ℕ}
    (hHour : hour < 24)
    (hMinute : minute < 60) :
    fields (localTime n hour minute) =
      ⟨dateFromDay n, hour, minute, 0, 0⟩ := by
  have hDay : localTime n hour minute / msPerDay = n := by
    unfold localTime msPerDay msPerHour
    omega
  unfold fields
  rw [hDay]
  unfold localTime msPerDay msPerHour
  congr 1
  · omega
  · omega
  · omega
  · omega

/- `Date.UTC` counts on from the days of a month. -/
theorem dateUTC_eq
    {n : ℤ}
    {i hour minute : ℕ}
    (hDay : InCalendar n)
    (hLater : i ≤ 7)
    (hHour : hour < 48)
    (hMinute : minute < 60) :
    dateUTC (dateFromDay n).year.toNat (dateFromDay n).month
        ((dateFromDay n).dayOfMonth + i) hour minute =
      some (localTime (n + i) hour minute) := by
  have hYear := hDay.year
  have hBounds := hDay.bounds
  have hMonth := (dateFromDay_wellFormed n).month
  have hSame := day_dateFromDay n
  generalize dateFromDay n = date at *
  rcases date with ⟨year, month, dayOfMonth⟩
  dsimp only at hYear hMonth ⊢
  obtain ⟨y, rfl⟩ : ∃ y : ℕ, year = y :=
    ⟨year.toNat, by omega⟩
  have hFull : ¬ y ≤ 99 := by omega
  have hIndex : ((month : ℤ) - 1) / 12 = 0 := by omega
  have hNumber : (((month : ℤ) - 1) % 12).toNat + 1 = month := by
    omega
  unfold dateUTC
  dsimp only
  rw [Int.toNat_natCast, if_neg hFull, hIndex, hNumber,
    Int.add_zero]
  unfold Date.day at hSame ⊢
  dsimp only at hSame ⊢
  have hTime :
      ((dayFromYear y + daysBefore (isLeap y) month +
            ((1 : ℕ) : ℤ) - 1) + ((dayOfMonth + i : ℕ) : ℤ) - 1) *
          msPerDay + hour * msPerHour + minute * 60000 =
        localTime (n + i) hour minute := by
    unfold localTime
    rw [← hSame]
    push_cast
    ring
  rw [hTime]
  apply if_pos
  unfold localTime msPerDay msPerHour
  omega

/- What the parts show is the local time. -/
theorem shows_iff
    (zone : NewYork)
    (midnight : Fin 2)
    {n d : ℤ}
    {hour minute : ℕ}
    (hDay : InCalendar n)
    (hHour : hour < 24)
    (hMinute : minute < 60)
    (hSeconds : zone.local d % 60000 = 0) :
    shows zone midnight d (dateFromDay n).year.toNat
        (dateFromDay n).month (dateFromDay n).dayOfMonth hour
        minute = true ↔
      zone.local d = localTime n hour minute := by
  have hValid := fields_valid (zone.local d)
  have hTime := time_fields (zone.local d)
  have hRest :
      (fields (zone.local d)).second = 0 ∧
        (fields (zone.local d)).millisecond = 0 := by
    unfold fields
    dsimp only
    omega
  have hDate :
      (fields (zone.local d)).date =
        dateFromDay (zone.local d / msPerDay) :=
    rfl
  have hYear := hDay.year
  have hHours :
      (number
          (digits 2
            (if (fields (zone.local d)).hour = 0 then
              24 * midnight.val
            else (fields (zone.local d)).hour))).map (· % 24) =
        some (fields (zone.local d)).hour := by
    have hTwo := midnight.isLt
    have hBound := hValid.2.2.1
    rw [number_digits (by split_ifs <;> omega),
      Option.map_some, Option.some.injEq]
    split_ifs <;> omega
  unfold shows formatToParts
  dsimp only
  rw [decide_eq_true_iff, hHours, number_toDigits,
    number_digits (by have := hValid.1; omega),
    number_digits (by have := hValid.2.1; omega),
    number_digits (by have := hValid.2.2.2.1; omega)]
  simp only [Option.some.injEq]
  constructor
  · intro hShown
    rcases hShown with ⟨hY, hM, hD, hH, hMin⟩
    have hSame :
        (fields (zone.local d)).date = dateFromDay n := by
      have hYearSame :
          (fields (zone.local d)).date.year =
            (dateFromDay n).year := by
        omega
      cases hFields : (fields (zone.local d)).date
      cases hOther : dateFromDay n
      rw [hFields, hOther] at hYearSame hM hD
      simp_all
    have hDays := day_dateFromDay n
    rw [← hSame] at hDays
    unfold Fields.time at hTime
    rw [hDays, hH, hMin, hRest.1, hRest.2] at hTime
    rw [← hTime]
    unfold localTime msPerHour
    push_cast
    ring
  · intro hLocal
    rw [hLocal, fields_localTime n hHour hMinute]
    exact ⟨rfl, rfl, rfl, rfl, rfl⟩

end PigBook.Client

------------------------------------------------------------
-- Instants
------------------------------------------------------------

namespace PigBook.Client

open Calendar

/- The text of a day, with a year of four digits. -/
def dateText (n : ℤ) : String :=
  let date := dateFromDay n
  dateKey (digits 4 date.year.toNat) (digits 2 date.month)
    (digits 2 date.dayOfMonth)

theorem hyphen_not_mem_digits (w n : ℕ) :
    '-' ∉ digits w n := by
  intro hMem
  have hDigit := isDigit_of_mem_digits hMem
  cases hDigit

theorem splitDate_dateText
    {n : ℤ}
    (hDay : InCalendar n) :
    splitDate (dateText n) =
      some ((dateFromDay n).year.toNat, (dateFromDay n).month,
        (dateFromDay n).dayOfMonth) := by
  have hYear := hDay.year
  have hFormed := dateFromDay_wellFormed n
  have hMonth := hFormed.month
  have hDayOfMonth := hFormed.day
  unfold splitDate dateText dateKey
  dsimp only
  rw [String.toList_ofList,
    List.splitOn_append_cons_self_of_not_mem
      (hyphen_not_mem_digits _ _),
    List.splitOn_append_cons_self_of_not_mem
      (hyphen_not_mem_digits _ _),
    List.splitOn_eq_singleton (hyphen_not_mem_digits _ _)]
  simp only [List.map_cons, List.map_nil]
  rw [number_digits (by omega), number_digits (by omega),
    number_digits (by omega)]

variable (zone : NewYork)
variable (midnight : Fin 2)

/-
  For a local time that exists, the instant of a candidate
  that shows it.
-/
theorem getNewYorkInstantUtc_eq
    {n : ℤ}
    {hour minute : ℕ}
    (hDay : InCalendar n)
    (hHour : hour < 24)
    (hMinute : minute < 60)
    (hExists : ∃ t, zone.local t = localTime n hour minute) :
    getNewYorkInstantUtc zone midnight (dateText n) hour
        minute =
      some (toISOString (zone.utc (localTime n hour minute))) := by
  have hCandidate :
      ∀ k : ℕ, k ≤ 6 →
        dateUTC (dateFromDay n).year.toNat
            (dateFromDay n).month (dateFromDay n).dayOfMonth
            (hour + k) minute =
          some (localTime n hour minute + k * msPerHour) := by
    intro k hk
    have hDate :=
      dateUTC_eq (i := 0) hDay (by omega)
        (show hour + k < 48 by omega) hMinute
    rw [Nat.add_zero] at hDate
    rw [hDate]
    unfold localTime
    push_cast
    congr 1
    ring
  have hAligned :
      ∀ t, t = localTime n hour minute + 4 * msPerHour ∨
          t = localTime n hour minute + 5 * msPerHour →
        zone.local t % 60000 = 0 := by
    intro t ht
    have hValues := zone.values t
    unfold NewYork.local
    unfold localTime msPerDay msPerHour at *
    omega
  have hFour := hCandidate 4 (by omega)
  have hFive := hCandidate 5 (by omega)
  have hLocal := zone.local_utc hExists
  unfold getNewYorkInstantUtc
  rw [splitDate_dateText hDay, Option.bind_eq_bind,
    Option.bind_some]
  dsimp only
  unfold tryOffsets
  rw [hFour, Option.bind_eq_bind, Option.bind_some]
  push_cast
  by_cases hSummer :
      zone.offset (localTime n hour minute + 4 * msPerHour) =
        -4 * msPerHour
  · have hUtc :
        zone.utc (localTime n hour minute) =
          localTime n hour minute + 4 * msPerHour :=
      if_pos hSummer
    rw [hUtc] at hLocal ⊢
    rw [if_pos]
    rw [shows_iff zone midnight hDay hHour hMinute
      (hAligned _ (Or.inl rfl))]
    exact hLocal
  · have hUtc :
        zone.utc (localTime n hour minute) =
          localTime n hour minute + 5 * msPerHour :=
      if_neg hSummer
    rw [hUtc] at hLocal ⊢
    rw [if_neg]
    · unfold tryOffsets
      rw [hFive, Option.bind_eq_bind, Option.bind_some]
      push_cast
      rw [if_pos]
      rw [shows_iff zone midnight hDay hHour hMinute
        (hAligned _ (Or.inr rfl))]
      exact hLocal
    · rw [shows_iff zone midnight hDay hHour hMinute
        (hAligned _ (Or.inl rfl))]
      intro hShown
      apply hSummer
      unfold NewYork.local at hShown
      omega

/- The instant at which a day begins. -/
def NewYork.dayStart (n : ℤ) : ℤ :=
  zone.utc (n * msPerDay)

theorem NewYork.local_dayStart (n : ℤ) :
    zone.local (zone.dayStart n) = n * msPerDay :=
  zone.local_utc (zone.midnight_exists n)

theorem instant_midnight
    {n : ℤ}
    (hDay : InCalendar n) :
    getNewYorkInstantUtc zone midnight (dateText n) 0 0 =
      some (toISOString (zone.dayStart n)) := by
  have hTime : localTime n 0 0 = n * msPerDay := by
    unfold localTime
    push_cast
    ring
  have hExists : ∃ t, zone.local t = localTime n 0 0 := by
    rw [hTime]
    exact zone.midnight_exists n
  have hInstant :=
    getNewYorkInstantUtc_eq zone midnight hDay (by omega)
      (by omega) hExists
  rw [hTime] at hInstant
  exact hInstant

end PigBook.Client

------------------------------------------------------------
-- Days
------------------------------------------------------------

namespace PigBook.Client

open Calendar

variable (zone : NewYork)
variable (midnight : Fin 2)

/- Noon in UTC is in the morning of the same day. -/
theorem key_noon
    {n : ℤ}
    (hDay : InCalendar n) :
    dateKey
        (formatToParts zone midnight (localTime n 12 0)).year
        (formatToParts zone midnight (localTime n 12 0)).month
        (formatToParts zone midnight (localTime n 12 0)).day =
      dateText n := by
  have hYear := hDay.year
  have hValues := zone.values (localTime n 12 0)
  have hMorning :
      zone.local (localTime n 12 0) / msPerDay = n := by
    unfold NewYork.local
    unfold localTime msPerDay msPerHour at *
    omega
  have hDate :
      (fields (zone.local (localTime n 12 0))).date =
        dateFromDay n := by
    unfold fields
    dsimp only
    rw [hMorning]
  unfold formatToParts dateText
  dsimp only
  rw [hDate, toDigits_year (by omega)]

theorem dayInfo_eq
    {n : ℤ}
    {i : ℕ}
    (hDay : InCalendar n)
    (hNext : InCalendar (n + i + 1))
    (hLater : i ≤ 6) :
    ∃ day,
      dayInfo zone midnight (dateFromDay n).year.toNat
          (dateFromDay n).month (dateFromDay n).dayOfMonth i =
        some day ∧
      day.dateStr = dateText (n + i) ∧
      day.startsAt = toISOString (zone.dayStart (n + i)) ∧
      day.endsAt = toISOString (zone.dayStart (n + i + 1)) := by
  have hHere : InCalendar (n + i) := by
    have hFrom := hDay.1
    have hUntil := hNext.2
    exact ⟨by omega, by omega⟩
  have hTwelve : 12 < 48 := by omega
  have hZero : 0 < 60 := by omega
  have hSoon : i ≤ 7 := by omega
  have hSooner : i + 1 ≤ 7 := by omega
  have hNoon := dateUTC_eq hDay hSoon hTwelve hZero
  have hNextNoon := dateUTC_eq hDay hSooner hTwelve hZero
  have hCast : n + ((i + 1 : ℕ) : ℤ) = n + i + 1 := by
    push_cast
    ring
  rw [hCast, ← Nat.add_assoc] at hNextNoon
  unfold dayInfo
  rw [hNoon, Option.bind_eq_bind, Option.bind_some]
  dsimp only
  rw [key_noon zone midnight hHere,
    instant_midnight zone midnight hHere, hNextNoon]
  simp only [Option.bind_eq_bind, Option.bind_some]
  rw [key_noon zone midnight hNext,
    instant_midnight zone midnight hNext]
  exact ⟨_, rfl, rfl, rfl, rfl⟩

end PigBook.Client

------------------------------------------------------------
-- The Window
------------------------------------------------------------

namespace PigBook.Client

open Calendar

/- What is computed for each element of a list. -/
theorem mapM_some
    {α β : Type}
    {f : α → Option β}
    {xs : List α}
    (hSome : ∀ x ∈ xs, ∃ y, f x = some y) :
    ∃ ys,
      xs.mapM f = some ys ∧ ys.length = xs.length ∧
      ∀ (i : ℕ) (y : β), ys[i]? = some y →
        ∃ x, xs[i]? = some x ∧ f x = some y := by
  induction xs with
  | nil =>
      refine ⟨[], rfl, rfl, ?_⟩
      intro i y hy
      cases hy
  | cons x xs ih =>
      rcases hSome x List.mem_cons_self with ⟨y, hy⟩
      rcases ih fun z hz =>
        hSome z (List.mem_cons_of_mem x hz) with
        ⟨ys, hYs, hLength, hEach⟩
      refine ⟨y :: ys, ?_, ?_, ?_⟩
      · rw [List.mapM_cons, hy, hYs]
        rfl
      · rw [List.length_cons, List.length_cons, hLength]
      · intro i z hz
        cases i with
        | zero =>
            cases hz
            exact ⟨x, rfl, hy⟩
        | succ i => exact hEach i z hz

variable (zone : NewYork)

theorem dayStart_aligned (n : ℤ) :
    zone.dayStart n % msPerHour = 0 := by
  unfold NewYork.dayStart NewYork.utc
  split_ifs
  · unfold msPerDay msPerHour
    omega
  · unfold msPerDay msPerHour
    omega

/- The end of the window that begins with a day. -/
def NewYork.windowEnd (n : ℤ) : ℤ :=
  min (zone.dayStart (n + 7)) (zone.dayStart n + maxSpanMs)

/- The instants of days are read back. -/
theorem newDate_dayStart
    (other : String → TimeValue)
    {n : ℤ}
    (hDay : InCalendar n)
    (hYear : n < dayFromYear 9999 + 8) :
    newDate other (toISOString (zone.dayStart n)) =
      some (zone.dayStart n) := by
  have hBounds := hDay.bounds
  have hUtc := zone.utc_bounds (n * msPerDay)
  have hLast : dayFromYear 9999 = 2932532 := by decide
  have hZero : timeFromYear 0 ≤ 0 := by decide
  have hEnd : timeFromYear 10000 = 253402300800000 := by
    decide
  have hRead :
      readIso (isoText (zone.dayStart n)) =
        some (zone.dayStart n) := by
    apply readIso_isoText
    · unfold NewYork.dayStart
      unfold msPerDay msPerHour at *
      omega
    · unfold NewYork.dayStart
      unfold msPerDay msPerHour at *
      omega
  unfold newDate toISOString
  rw [String.toList_ofList, hRead]
  apply if_pos
  unfold NewYork.dayStart
  unfold msPerDay msPerHour at *
  omega

theorem clampEnd_eq
    (other : String → TimeValue)
    {n : ℤ}
    (hDay : InCalendar n)
    (hYear : n < dayFromYear 9999) :
    clampEnd other (toISOString (zone.dayStart n))
        (toISOString (zone.dayStart (n + 7))) =
      toISOString (zone.windowEnd n) := by
  have hLater : dayFromYear 9999 + 7 ≤ dayFromYear 10000 := by
    decide
  have hEnd : InCalendar (n + 7) := by
    have hFrom := hDay.1
    exact ⟨by omega, by omega⟩
  unfold clampEnd NewYork.windowEnd
  rw [newDate_dayStart zone other hDay (by omega),
    newDate_dayStart zone other hEnd (by omega)]
  dsimp only
  split_ifs with hLong
  · rw [min_eq_right (by omega)]
  · rw [min_eq_left (by omega)]

/-
  The server accepts windows of hours that are not empty and
  last seven days at most.
-/
theorem validateWindow_ok
    {fromisoformat : String → Option Datetime}
    {startTime endTime : ℤ}
    (hStart :
      fromisoformat (toISOString startTime) =
        some (Datetime.utc (startTime * 1000)))
    (hEnd :
      fromisoformat (toISOString endTime) =
        some (Datetime.utc (endTime * 1000)))
    (hFrom : 0 ≤ startTime)
    (hUntil : endTime < timeFromYear 10000)
    (hStartAligned : startTime % 1800000 = 0)
    (hEndAligned : endTime % 1800000 = 0)
    (hOrder : startTime < endTime)
    (hSpan : endTime - startTime ≤ maxSpanMs) :
    ∃ r,
      validateWindow fromisoformat
          (.text (toISOString startTime))
          (.text (toISOString endTime)) =
        .ok r ∧
      r.lower = startTime * 1000 ∧ r.upper = endTime * 1000 := by
  have hLast : timeFromYear 10000 = 253402300800000 := by
    decide
  have hParse :
      ∀ t : ℤ, 0 ≤ t → t < timeFromYear 10000 →
        t % 1800000 = 0 →
        fromisoformat (toISOString t) =
          some (Datetime.utc (t * 1000)) →
        parseAndValidateTimestamp fromisoformat
            (.text (toISOString t)) =
          .ok (t * 1000) := by
    intro t hLow hHigh hAligned hIso
    have hConvertible :
        (Datetime.utc (t * 1000)).Convertible := by
      simp only [Datetime.Convertible, Datetime.instant,
        Datetime.utc, Option.getD_some, Datetime.minimum,
        Datetime.maximum, seconds]
      omega
    have hInstant :
        (Datetime.utc (t * 1000)).instant = t * 1000 := by
      simp [Datetime.instant, Datetime.utc]
    have hOn : ¬ offHalfHour (t * 1000) := by
      rw [offHalfHour_iff, not_not]
      omega
    have hText :
        (Timestamp.text (toISOString t)).parse fromisoformat =
          .ok (Datetime.utc (t * 1000)) := by
      simp only [Timestamp.parse, hIso]
    unfold parseAndValidateTimestamp
    rw [hText]
    simp only [bind, Except.bind]
    rw [if_neg (by simp [Datetime.utc]),
      Datetime.astimezone_of_convertible hConvertible,
      hInstant]
    simp only [pure, Except.pure]
    rw [if_neg hOn]
  unfold validateWindow
  rw [hParse startTime hFrom (by omega) hStartAligned hStart,
    hParse endTime (by omega) hUntil hEndAligned hEnd]
  simp only [bind, Except.bind]
  have hMicro : startTime * 1000 < endTime * 1000 := by omega
  have hShort :
      ¬ days 7 < endTime * 1000 - startTime * 1000 := by
    simp only [days, hours, minutes, seconds]
    unfold maxSpanMs at hSpan
    omega
  rw [dif_pos hMicro, if_neg hShort]
  exact ⟨_, rfl, rfl, rfl⟩

end PigBook.Client

------------------------------------------------------------
-- Slots
------------------------------------------------------------

namespace PigBook.Client

open Calendar

variable (zone : NewYork)
variable (midnight : Fin 2)

theorem instant_slot
    {n : ℤ}
    {h m : ℕ}
    (hDay : InCalendar n)
    (hHour : 8 ≤ h ∧ h ≤ 20)
    (hMinute : m = 0 ∨ m = 30) :
    getNewYorkInstantUtc zone midnight (dateText n) h m =
      some
        (toISOString
          (localTime n h m -
            zone.offset (n * msPerDay + 7 * msPerHour))) := by
  have hSplit :
      localTime n h m =
        n * msPerDay + (h * msPerHour + m * 60000) := by
    unfold localTime
    ring
  have hUtc :
      zone.utc (localTime n h m) =
        localTime n h m -
          zone.offset (n * msPerDay + 7 * msPerHour) := by
    rw [hSplit]
    apply zone.utc_day
    · unfold msPerHour
      omega
    · unfold msPerHour
      omega
  have hOffset :
      zone.offset
          (localTime n h m -
            zone.offset (n * msPerDay + 7 * msPerHour)) =
        zone.offset (n * msPerDay + 7 * msPerHour) := by
    have hValues :=
      zone.values (n * msPerDay + 7 * msPerHour)
    apply zone.offset_day
    · unfold localTime
      unfold msPerHour at *
      omega
    · unfold localTime
      unfold msPerHour at *
      omega
  rw [← hUtc]
  apply getNewYorkInstantUtc_eq zone midnight hDay
  · omega
  · omega
  · refine ⟨zone.utc (localTime n h m), ?_⟩
    rw [hUtc]
    unfold NewYork.local
    rw [hOffset]
    omega

/- The beginning of the slot with a number. -/
def slotStart (n : ℤ) (k : ℕ) : ℤ :=
  n * msPerDay + 8 * msPerHour + k * 1800000

theorem slotTimes_eq
    {k : ℕ}
    {time : ℕ × ℕ}
    (hTime : slotTimes[k]? = some time) :
    k < 24 ∧ (8 ≤ time.1 ∧ time.1 < 20) ∧
      (time.2 = 0 ∨ time.2 = 30) ∧
      time.1 * 60 + time.2 = 480 + k * 30 := by
  have hLength : k < slotTimes.length := by
    by_contra hLong
    rw [List.getElem?_eq_none (Nat.not_lt.mp hLong)] at hTime
    cases hTime
  have hBound : k < 24 := hLength
  interval_cases k
  all_goals
    cases hTime
    decide

theorem slotAt_eq
    {n : ℤ}
    {k : ℕ}
    {time : ℕ × ℕ}
    (hDay : InCalendar n)
    (hTime : slotTimes[k]? = some time) :
    ∃ slot t,
      slotAt zone midnight (dateText n) time.1 time.2 =
        some slot ∧
      slot.startIso = toISOString t ∧
      slot.endIso = toISOString (t + 1800000) ∧
      zone.local t = slotStart n k := by
  rcases slotTimes_eq hTime with ⟨hk, hHour, hMinute, hNumber⟩
  rcases time with ⟨h, m⟩
  dsimp only at hHour hMinute hNumber ⊢
  have hOffset := zone.values (n * msPerDay + 7 * msPerHour)
  have hNextMinute :
      (if m = 30 then 0 else 30) = 0 ∨
        (if m = 30 then 0 else 30) = 30 := by
    split_ifs
    · exact Or.inl rfl
    · exact Or.inr rfl
  have hNextHour :
      8 ≤ (if m = 30 then h + 1 else h) ∧
        (if m = 30 then h + 1 else h) ≤ 20 := by
    split_ifs
    · omega
    · omega
  unfold slotAt
  rw [instant_slot zone midnight hDay (by omega) hMinute,
    Option.bind_eq_bind, Option.bind_some]
  dsimp only
  rw [instant_slot zone midnight hDay hNextHour hNextMinute,
    Option.bind_some]
  refine ⟨_, _, rfl, rfl, ?_, ?_⟩
  · dsimp only
    congr 1
    unfold localTime msPerHour
    rcases hMinute with rfl | rfl
    · rw [if_neg (by omega), if_neg (by omega)]
      push_cast
      omega
    · rw [if_pos rfl, if_pos rfl]
      push_cast
      omega
  · have hSame :
        zone.offset
            (localTime n h m -
              zone.offset (n * msPerDay + 7 * msPerHour)) =
          zone.offset (n * msPerDay + 7 * msPerHour) := by
      apply zone.offset_day
      · unfold localTime
        unfold msPerHour at *
        omega
      · unfold localTime
        unfold msPerHour at *
        omega
    unfold NewYork.local
    rw [hSame]
    unfold localTime slotStart msPerHour
    omega

/- The slots of a day, in the order of their numbers. -/
theorem renderedSlots_eq
    {n : ℤ}
    (hDay : InCalendar n) :
    ∃ slots,
      renderedSlots zone midnight (dateText n) = some slots ∧
      slots.length = 24 ∧
      ∀ (k : ℕ) (slot : Slot), slots[k]? = some slot →
        ∃ t,
          slot.startIso = toISOString t ∧
          slot.endIso = toISOString (t + 1800000) ∧
          zone.local t = slotStart n k := by
  have hSome :
      ∀ time ∈ slotTimes, ∃ slot,
        slotAt zone midnight (dateText n) time.1 time.2 =
          some slot := by
    intro time hMem
    rcases List.mem_iff_getElem?.mp hMem with ⟨k, hTime⟩
    rcases slotAt_eq zone midnight hDay hTime with
      ⟨slot, t, hSlot, -⟩
    exact ⟨slot, hSlot⟩
  rcases mapM_some hSome with ⟨slots, hSlots, hLength, hEach⟩
  refine ⟨slots, hSlots, hLength, ?_⟩
  intro k slot hSlot
  rcases hEach k slot hSlot with ⟨time, hTime, hHere⟩
  rcases slotAt_eq zone midnight hDay hTime with
    ⟨slot', t, hSlot', hStart, hEnd, hLocal⟩
  rw [hHere, Option.some.injEq] at hSlot'
  rw [hSlot']
  exact ⟨t, hStart, hEnd, hLocal⟩

end PigBook.Client

------------------------------------------------------------
-- Seven Days
------------------------------------------------------------

namespace PigBook.Client

open Calendar

/- The dates of the years 1970 to 9998. -/
def InYearsShown (n : ℤ) : Prop :=
  dayFromYear 1970 ≤ n ∧ n < dayFromYear 9999

instance (n : ℤ) : Decidable (InYearsShown n) :=
  inferInstanceAs (Decidable (_ ∧ _))

theorem InYearsShown.later
    {n : ℤ}
    {i : ℕ}
    (hDay : InYearsShown n)
    (hLater : i ≤ 7) :
    InCalendar (n + i) := by
  have hYear : dayFromYear 9999 + 7 < dayFromYear 10000 := by
    decide
  unfold InYearsShown at hDay
  exact ⟨by omega, by omega⟩

/-
  A window of seven days that follow on each other, each from
  one midnight to the next.
-/
structure SevenDays
    (zone : NewYork)
    (n : ℤ)
    (days : List DayInfo) : Prop where
  length : days.length = 7
  day :
    ∀ (i : ℕ) (day : DayInfo), days[i]? = some day →
      day.dateStr = dateText (n + i) ∧
      day.startsAt = toISOString (zone.dayStart (n + i)) ∧
      day.endsAt = toISOString (zone.dayStart (n + i + 1))

variable (zone : NewYork)
variable (midnight : Fin 2)

theorem getSevenDayWindow_eq
    (other : String → TimeValue)
    {n : ℤ}
    (hDay : InYearsShown n) :
    ∃ days,
      getSevenDayWindow zone midnight other (dateText n) =
        some
          ⟨toISOString (zone.dayStart n),
            toISOString (zone.windowEnd n), days⟩ ∧
      SevenDays zone n days := by
  have hHere : InCalendar n := by
    have hZero := hDay.later (i := 0) (by omega)
    simpa using hZero
  have hSome :
      ∀ i ∈ List.range 7, ∃ day,
        dayInfo zone midnight (dateFromDay n).year.toNat
            (dateFromDay n).month (dateFromDay n).dayOfMonth
            i = some day := by
    intro i hi
    have hBound := List.mem_range.mp hi
    have hNext := hDay.later (i := i + 1) (by omega)
    push_cast at hNext
    rw [← Int.add_assoc] at hNext
    rcases
      dayInfo_eq zone midnight hHere hNext (by omega) with
      ⟨day, hInfo, -⟩
    exact ⟨day, hInfo⟩
  rcases mapM_some hSome with ⟨days, hDays, hLength, hEach⟩
  have hSeven : SevenDays zone n days := by
    refine ⟨hLength, ?_⟩
    intro i day hAt
    rcases hEach i day hAt with ⟨j, hIndex, hInfo⟩
    rcases List.getElem?_eq_some_iff.mp hIndex with
      ⟨hBound, hValue⟩
    rw [List.length_range] at hBound
    rw [List.getElem_range] at hValue
    rw [← hValue] at hInfo
    have hNext := hDay.later (i := i + 1) (by omega)
    push_cast at hNext
    rw [← Int.add_assoc] at hNext
    rcases
      dayInfo_eq zone midnight hHere hNext (by omega) with
      ⟨day', hInfo', hSpec⟩
    rw [hInfo, Option.some.injEq] at hInfo'
    rw [hInfo']
    exact hSpec
  have hFirst : ∃ first, days[0]? = some first := by
    rw [List.length_range] at hLength
    exact ⟨days[0], List.getElem?_eq_getElem (by omega)⟩
  have hLast : ∃ last, days[6]? = some last := by
    rw [List.length_range] at hLength
    exact ⟨days[6], List.getElem?_eq_getElem (by omega)⟩
  rcases hFirst with ⟨first, hFirst⟩
  rcases hLast with ⟨last, hLast⟩
  have hStart := (hSeven.day 0 first hFirst).2.1
  have hEnd := (hSeven.day 6 last hLast).2.2
  have hZero : n + ((0 : ℕ) : ℤ) = n := by omega
  have hWeek : n + ((6 : ℕ) : ℤ) + 1 = n + 7 := by omega
  rw [hZero] at hStart
  rw [hWeek] at hEnd
  refine ⟨days, ?_, hSeven⟩
  unfold getSevenDayWindow
  rw [splitDate_dateText hHere, Option.bind_eq_bind,
    Option.bind_some]
  dsimp only
  rw [hDays]
  simp only [Option.bind_eq_bind, Option.bind_some, hFirst,
    hLast]
  rw [hStart, hEnd, clampEnd_eq zone other hHere hDay.2]
  rfl

/- The window is not empty, and no longer than seven days. -/
theorem windowEnd_bounds (n : ℤ) :
    n * msPerDay + 7 * msPerDay + 4 * msPerHour ≤
        zone.windowEnd n ∧
      zone.windowEnd n ≤
        n * msPerDay + 7 * msPerDay + 5 * msPerHour ∧
      zone.windowEnd n ≤ zone.dayStart n + maxSpanMs := by
  have hFrom := zone.utc_bounds (n * msPerDay)
  have hUntil := zone.utc_bounds ((n + 7) * msPerDay)
  unfold NewYork.windowEnd NewYork.dayStart
  rw [Int.add_mul] at *
  unfold maxSpanMs
  unfold msPerDay msPerHour at *
  omega

theorem windowEnd_aligned (n : ℤ) :
    zone.windowEnd n % msPerHour = 0 := by
  have hFrom := dayStart_aligned zone n
  have hUntil := dayStart_aligned zone (n + 7)
  unfold NewYork.windowEnd maxSpanMs
  unfold msPerHour at *
  omega

/-
  For every local time that exists, the instant that shows it;
  and for every date, seven days in a window that the server
  accepts and that has all their slots.
-/
theorem seven_day_window
    (other : String → TimeValue)
    {fromisoformat : String → Option Datetime}
    (hIso :
      ∀ t, 0 ≤ t → t < timeFromYear 10000 →
        fromisoformat (toISOString t) =
          some (Datetime.utc (t * 1000))) :
    (∀ (n : ℤ) (hour minute : ℕ),
      InYearsShown n → hour < 24 → minute < 60 →
      (∃ t, zone.local t = localTime n hour minute) →
      ∃ t,
        getNewYorkInstantUtc zone midnight (dateText n) hour
            minute = some (toISOString t) ∧
          zone.local t = localTime n hour minute) ∧
    ∀ n : ℤ, InYearsShown n →
      ∃ startTime endTime days,
        getSevenDayWindow zone midnight other (dateText n) =
          some
            ⟨toISOString startTime, toISOString endTime,
              days⟩ ∧
        (∃ r,
          validateWindow fromisoformat
              (.text (toISOString startTime))
              (.text (toISOString endTime)) =
            .ok r ∧
          r.lower = startTime * 1000 ∧
          r.upper = endTime * 1000) ∧
        days.length = 7 ∧
        (∀ (i : ℕ) (day : DayInfo), days[i]? = some day →
          day.dateStr = dateText (n + i) ∧
          (∃ t t',
            day.startsAt = toISOString t ∧
            day.endsAt = toISOString t' ∧
            zone.local t = (n + i) * msPerDay ∧
            zone.local t' = (n + i + 1) * msPerDay) ∧
          (∀ next, days[i + 1]? = some next →
            day.endsAt = next.startsAt) ∧
          ∃ slots,
            renderedSlots zone midnight day.dateStr =
              some slots ∧
            slots.length = 24 ∧
            ∀ (k : ℕ) (slot : Slot), slots[k]? = some slot →
              ∃ t,
                slot.startIso = toISOString t ∧
                slot.endIso = toISOString (t + 1800000) ∧
                zone.local t = slotStart (n + i) k ∧
                startTime ≤ t ∧ t + 1800000 ≤ endTime) := by
  have hZero :
      ∀ n : ℤ, InYearsShown n → InCalendar n := by
    intro n hDay
    have hHere := hDay.later (i := 0) (by omega)
    simpa using hHere
  constructor
  · intro n hour minute hDay hHour hMinute hExists
    refine ⟨zone.utc (localTime n hour minute), ?_, ?_⟩
    · exact
        getNewYorkInstantUtc_eq zone midnight (hZero n hDay)
          hHour hMinute hExists
    · exact zone.local_utc hExists
  · intro n hDay
    rcases getSevenDayWindow_eq zone midnight other hDay with
      ⟨days, hWindow, hSeven⟩
    have hBounds := (hZero n hDay).bounds
    have hFrom := zone.utc_bounds (n * msPerDay)
    have hUntil := windowEnd_bounds zone n
    have hStartAligned := dayStart_aligned zone n
    have hEndAligned := windowEnd_aligned zone n
    have hYear : dayFromYear 9999 = 2932532 := by decide
    have hLast : timeFromYear 10000 = 253402300800000 := by
      decide
    have hLatest := hDay.2
    have hLow : 0 ≤ zone.dayStart n := by
      unfold NewYork.dayStart
      unfold msPerDay msPerHour at *
      omega
    have hHigh : zone.windowEnd n < timeFromYear 10000 := by
      unfold msPerDay msPerHour at *
      omega
    have hOrder : zone.dayStart n < zone.windowEnd n := by
      unfold NewYork.dayStart
      unfold msPerDay msPerHour at *
      omega
    have hSpan :
        zone.windowEnd n - zone.dayStart n ≤ maxSpanMs := by
      omega
    refine ⟨_, _, days, hWindow, ?_, hSeven.length, ?_⟩
    · apply validateWindow_ok
      · exact hIso _ hLow (by omega)
      · exact hIso _ (by omega) hHigh
      · exact hLow
      · exact hHigh
      · unfold msPerHour at hStartAligned
        omega
      · unfold msPerHour at hEndAligned
        omega
      · exact hOrder
      · exact hSpan
    · intro i day hAt
      have hIndex : i < 7 := by
        rw [← hSeven.length]
        exact (List.getElem?_eq_some_iff.mp hAt).1
      rcases hSeven.day i day hAt with ⟨hKey, hStarts, hEnds⟩
      refine ⟨hKey, ?_, ?_, ?_⟩
      · exact
          ⟨_, _, hStarts, hEnds, zone.local_dayStart _,
            zone.local_dayStart _⟩
      · intro next hNext
        have hLater := (hSeven.day (i + 1) next hNext).2.1
        have hCast :
            n + ((i + 1 : ℕ) : ℤ) = n + i + 1 := by
          push_cast
          ring
        rw [hEnds, hLater, hCast]
      · rcases
          renderedSlots_eq zone midnight
            (hDay.later (by omega : i ≤ 7)) with
          ⟨slots, hSlots, hLength, hEach⟩
        rw [← hKey] at hSlots
        refine ⟨slots, hSlots, hLength, ?_⟩
        intro k slot hSlot
        have hNumber : k < 24 := by
          rw [← hLength]
          exact (List.getElem?_eq_some_iff.mp hSlot).1
        rcases hEach k slot hSlot with
          ⟨t, hStart, hEnd, hLocal⟩
        have hOffset := zone.values t
        refine ⟨t, hStart, hEnd, hLocal, ?_, ?_⟩
        · unfold NewYork.dayStart
          unfold NewYork.local slotStart at hLocal
          rw [Int.add_mul] at hLocal
          unfold msPerDay msPerHour at *
          omega
        · unfold NewYork.local slotStart at hLocal
          rw [Int.add_mul] at hLocal
          unfold msPerDay msPerHour at *
          omega

/- Summer time from 2026-03-08 to 2026-11-01. -/
def newYork2026 : NewYork where
  offset := fun t =>
    if 1772953200000 ≤ t ∧ t < 1793512800000 then
      -4 * msPerHour
    else -5 * msPerHour
  values := by
    intro t
    split_ifs
    · exact Or.inl rfl
    · exact Or.inr rfl
  changes := by
    intro t
    unfold msPerDay msPerHour
    split_ifs
    all_goals omega

/- `fromisoformat` of the browser's texts. -/
def parseUtc (text : String) : Option Datetime :=
  (readIso text.toList).map fun t => Datetime.utc (t * 1000)

theorem parseUtc_toISOString
    (t : ℤ)
    (hFrom : 0 ≤ t)
    (hUntil : t < timeFromYear 10000) :
    parseUtc (toISOString t) =
      some (Datetime.utc (t * 1000)) := by
  have hZero : timeFromYear 0 ≤ 0 := by decide
  unfold parseUtc toISOString
  rw [String.toList_ofList,
    readIso_isoText (by omega) hUntil]
  rfl

/- The week in which summer time ends lasts 169 hours. -/
theorem seven_day_window_autumn :
    ∃ startTime endTime days,
      getSevenDayWindow newYork2026 1 (fun _ => none)
          (dateText 20753) =
        some
          ⟨toISOString startTime, toISOString endTime, days⟩ ∧
      ∃ r,
        validateWindow parseUtc
            (.text (toISOString startTime))
            (.text (toISOString endTime)) =
          .ok r := by
  rcases
    (seven_day_window newYork2026 1 (fun _ => none)
      parseUtc_toISOString).2 20753 (by decide) with
    ⟨startTime, endTime, days, hWindow, ⟨r, hOk, -⟩, -⟩
  exact ⟨startTime, endTime, days, hWindow, r, hOk⟩

end PigBook.Client
