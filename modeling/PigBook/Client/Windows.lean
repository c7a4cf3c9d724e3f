import Mathlib.Algebra.Order.Field.Rat
import Mathlib.Tactic.Linarith
import PigBook.Calendar.IsoText
import PigBook.Inventory.Window

/-
  The validation of booking windows in the browser.

  A `Date` is its time value, in milliseconds, where `none`
  stands for NaN.

  Key definitions include:
    * `TimeValue`, `newDate`, `toISOString`
    * `validateBookingWindow`

  Key theorems include:
    * `newDate_toISOString`
    * `validateTimes_valid_iff`
-/

------------------------------------------------------------
-- Dates
------------------------------------------------------------

namespace PigBook.Client

abbrev TimeValue := Option ℤ

/- A time value is at most 100,000,000 days from 1970. -/
def timeClip (t : ℤ) : TimeValue :=
  if t.natAbs ≤ 8640000000000000 then some t else none

/- `date.toISOString()`. -/
def toISOString (t : ℤ) : String :=
  String.ofList (Calendar.isoText t)

/- `new Date(text)`; `other` reads texts of other forms. -/
def newDate
    (other : String → TimeValue)
    (text : String) : TimeValue :=
  match Calendar.readIso text.toList with
  | some t => timeClip t
  | none => other text

def getUTCMinutes (t : ℤ) : ℤ :=
  t / 60000 % 60

def getUTCSeconds (t : ℤ) : ℤ :=
  t / 1000 % 60

def getUTCMilliseconds (t : ℤ) : ℤ :=
  t % 1000

/- `<` on dates; nothing is below or above NaN. -/
def dateBefore (t t' : TimeValue) : Bool :=
  match t, t' with
  | some t, some t' => t < t'
  | _, _ => false

theorem newDate_toISOString
    (other : String → TimeValue)
    {t : ℤ}
    (hStart : 0 ≤ t)
    (hEnd : t < Calendar.timeFromYear 9999) :
    newDate other (toISOString t) = some t := by
  have hZero : Calendar.timeFromYear 0 ≤ 0 := by decide
  have hLast :
      Calendar.timeFromYear 9999 = 253370764800000 := by
    decide
  have hLater :
      Calendar.timeFromYear 9999 <
        Calendar.timeFromYear 10000 := by
    decide
  have hRead :
      Calendar.readIso (Calendar.isoText t) = some t :=
    Calendar.readIso_isoText (by omega) (by omega)
  unfold newDate toISOString
  rw [String.toList_ofList, hRead]
  exact if_pos (by omega)

end PigBook.Client

------------------------------------------------------------
-- Validation
------------------------------------------------------------

namespace PigBook.Client

structure Verdict where
  valid : Bool
  error : Option String
deriving DecidableEq

def invalid (error : String) : Verdict where
  valid := false
  error := some error

/- The instant is not on a half hour. -/
def misaligned (t : ℤ) : Bool :=
  getUTCMinutes t % 30 ≠ 0 ∨ getUTCSeconds t ≠ 0 ∨
    getUTCMilliseconds t ≠ 0

/- The checks of two dates that are not NaN. -/
def validateTimes
    (startTime endTime now : ℤ) : Verdict :=
  if misaligned startTime then
    invalid
      "Start time must fall on a UTC 30-minute boundary with zero seconds"
  else if misaligned endTime then
    invalid
      "End time must fall on a UTC 30-minute boundary with zero seconds"
  else if endTime ≤ startTime then
    invalid "End time must be strictly after start time"
  else
    let durationMinutes : ℚ :=
      ((endTime - startTime : ℤ) : ℚ) / (1000 * 60)
    if durationMinutes < 30 ∨ 240 < durationMinutes then
      invalid
        "Booking duration must be between 30 minutes and 4 hours inclusive"
    else
      let minFuture := timeClip (now + 15 * 60 * 1000)
      if dateBefore (some startTime) minFuture then
        invalid
          "Start time must be at least 15 minutes in the future"
      else
        let maxFuture :=
          timeClip (now + 90 * 24 * 60 * 60 * 1000)
        if dateBefore maxFuture (some startTime) then
          invalid
            "Start time cannot be more than 90 days in the future"
        else
          { valid := true, error := none }

def validateBookingWindow
    (other : String → TimeValue)
    (startIso endIso : String)
    (now : ℤ) : Verdict :=
  match newDate other startIso, newDate other endIso with
  | some startTime, some endTime =>
      validateTimes startTime endTime now
  | _, _ => invalid "Invalid timestamp format"

end PigBook.Client

------------------------------------------------------------
-- Valid Windows
------------------------------------------------------------

namespace PigBook

/-
  The window is on half hours, lasts from half an hour to
  four hours, and begins between 15 minutes and 90 days from
  now; all in a unit of which a second has `n`.
-/
structure Bookable (n startTime endTime now : ℤ) : Prop where
  startAligned : startTime % (1800 * n) = 0
  endAligned : endTime % (1800 * n) = 0
  shortest : 1800 * n ≤ endTime - startTime
  longest : endTime - startTime ≤ 14400 * n
  soonest : now + 900 * n ≤ startTime
  latest : startTime ≤ now + 7776000 * n

namespace Client

variable {startTime endTime now : ℤ}

theorem misaligned_iff :
    misaligned startTime = true ↔
      startTime % 1800000 ≠ 0 := by
  unfold misaligned getUTCMinutes getUTCSeconds
    getUTCMilliseconds
  simp only [decide_eq_true_eq]
  omega

theorem timeClip_future
    {d : ℤ}
    (hNow : 0 ≤ now ∧ now < Calendar.timeFromYear 9999)
    (hLater : 0 ≤ d ∧ d ≤ 7776000000) :
    timeClip (now + d) = some (now + d) := by
  have hLast :
      Calendar.timeFromYear 9999 = 253370764800000 := by
    decide
  exact if_pos (by omega)

/- The browser admits the bookable windows. -/
theorem validateTimes_valid_iff
    (hNow : 0 ≤ now ∧ now < Calendar.timeFromYear 9999) :
    (validateTimes startTime endTime now).valid = true ↔
      Bookable 1000 startTime endTime now := by
  have hShort :
      ((endTime - startTime : ℤ) : ℚ) / (1000 * 60) < 30 ↔
        endTime - startTime < 1800000 := by
    rw [div_lt_iff₀ (by norm_num)]
    norm_cast
  have hLong :
      240 < ((endTime - startTime : ℤ) : ℚ) / (1000 * 60) ↔
        14400000 < endTime - startTime := by
    rw [lt_div_iff₀ (by norm_num)]
    norm_cast
  unfold validateTimes
  rw [timeClip_future hNow (by norm_num),
    timeClip_future hNow (by norm_num)]
  simp only [misaligned_iff, hShort, hLong, dateBefore,
    decide_eq_true_eq]
  constructor
  · intro hValid
    split_ifs at hValid with hStart hEnd hOrder hLength hSoon
      hLate
    · exact (Bool.false_ne_true hValid).elim
    · exact (Bool.false_ne_true hValid).elim
    · exact (Bool.false_ne_true hValid).elim
    · exact (Bool.false_ne_true hValid).elim
    · exact (Bool.false_ne_true hValid).elim
    · exact (Bool.false_ne_true hValid).elim
    · constructor <;> omega
  · rintro ⟨hStart, hEnd, hShortest, hLongest, hSoonest,
      hLatest⟩
    rw [if_neg (by omega), if_neg (by omega),
      if_neg (by omega), if_neg (by omega),
      if_neg (by omega), if_neg (by omega)]

end Client

end PigBook
