import PigBook.Calendar.IsoText
import PigBook.Inventory.Window

/-
  The timestamps of availability queries.

  Key definitions include:
    * `Timestamp`
    * `parseAndValidateTimestamp`
    * `validateWindow`
    * `strftime`
    * `Datetime.Aware`, `Datetime.Convertible`
    * `InYears`
    * `Handled`

  Key theorems include:
    * `Handled.bind`
    * `Handled.guard`
-/

------------------------------------------------------------
-- Availability Windows
------------------------------------------------------------

namespace PigBook

theorem offHalfHour_iff
    {t : ℤ} :
    offHalfHour t ↔ t % 1800000000 ≠ 0 := by
  unfold offHalfHour second microsecond minute minutes seconds
  omega

/- A timestamp is given as a text or as a datetime. -/
inductive Timestamp
  | text (val : String)
  | datetime (val : Datetime)

variable (fromisoformat : String → Option Datetime)

/- The datetime of a timestamp. -/
def Timestamp.parse : Timestamp → Except Error Datetime
| text val =>
    match fromisoformat val with
    | none => .error (.invalidWindow "Invalid timestamp format")
    | some dt => .ok dt
| datetime dt => .ok dt

def parseAndValidateTimestamp
    (val : Timestamp) : Except Error ℤ := do
  let dt ← val.parse fromisoformat
  if dt.offset = none then
    throw (.invalidWindow
      "Timestamp must have explicit timezone offset")
  let dtUtc ← dt.astimezone
  if offHalfHour dtUtc then
    throw (.invalidWindow
      "Timestamp must fall on a UTC 30-minute boundary with zero seconds and microseconds")
  return dtUtc

/- The policy of availability queries. -/
def validateWindow
    (startsAt endsAt : Timestamp) :
    Except Error TimeRange := do
  let sUtc ← parseAndValidateTimestamp fromisoformat startsAt
  let eUtc ← parseAndValidateTimestamp fromisoformat endsAt
  if h : sUtc < eUtc then
    if days 7 < eUtc - sUtc then
      throw (.invalidWindow
        "Window duration cannot exceed 7 days")
    return ⟨sUtc, eUtc, h⟩
  else
    throw (.invalidWindow
      "ends_at must be strictly greater than starts_at")

end PigBook

------------------------------------------------------------
-- Texts
------------------------------------------------------------

namespace PigBook

/-
  `strftime` of a datetime in UTC, with the format
  `%Y-%m-%dT%H:%M:%S.%fZ`; years have four digits.
-/
def strftime (t : ℤ) : String :=
  String.ofList (Calendar.isoTextMicro t)

end PigBook

------------------------------------------------------------
-- Representable Datetimes
------------------------------------------------------------

namespace PigBook

namespace Datetime

/-
  An aware datetime of Python: its wall clock is in the
  representable range, and its UTC offset below a day.
-/
def Aware (d : Datetime) : Prop :=
  (minimum ≤ d.wall ∧ d.wall ≤ maximum) ∧
    ∃ o ∈ d.offset, days (-1) < o ∧ o < days 1

/- The instant that a datetime denotes. -/
def instant (d : Datetime) : ℤ :=
  d.wall - d.offset.getD 0

/- The instant is in the representable range. -/
def Convertible (d : Datetime) : Prop :=
  minimum ≤ d.instant ∧ d.instant ≤ maximum

instance (d : Datetime) : Decidable d.Convertible :=
  inferInstanceAs (Decidable (_ ∧ _))

variable {d : Datetime}

theorem astimezone_eq (d : Datetime) :
    d.astimezone =
      if d.Convertible then .ok d.instant
      else .error .overflowError :=
  rfl

theorem astimezone_of_convertible
    (hConvertible : d.Convertible) :
    d.astimezone = .ok d.instant := by
  rw [astimezone_eq, if_pos hConvertible]

theorem astimezone_of_not
    (hConvertible : ¬ d.Convertible) :
    d.astimezone = .error .overflowError := by
  rw [astimezone_eq, if_neg hConvertible]

theorem Aware.offset_isSome
    (hAware : d.Aware) :
    d.offset ≠ none := by
  rcases hAware with ⟨-, o, hOffset, -⟩
  intro hNone
  rw [hNone] at hOffset
  cases hOffset

end Datetime

end PigBook

------------------------------------------------------------
-- Years
------------------------------------------------------------

namespace PigBook

/- The instant lies in one of the years `y` to `y'`. -/
def InYears (y y' t : ℤ) : Prop :=
  Calendar.timeFromYear y * 1000 ≤ t ∧
    t < Calendar.timeFromYear (y' + 1) * 1000

instance (y y' t : ℤ) : Decidable (InYears y y' t) :=
  inferInstanceAs (Decidable (_ ∧ _))

theorem timeFromYear_1970 :
    Calendar.timeFromYear 1970 = 0 := by
  decide

theorem timeFromYear_9999 :
    Calendar.timeFromYear 9999 = 253370764800000 := by
  decide

/- The current times for which nothing overflows. -/
theorem InYears.bounds
    {now : ℤ}
    (hNow : InYears 1970 9998 now) :
    0 ≤ now ∧ now < 253370764800000000 := by
  have hFrom := timeFromYear_1970
  have hUntil := timeFromYear_9999
  unfold InYears at hNow
  norm_num at hNow
  omega

/- Up to 90 days after the current time are representable. -/
theorem inRange_later
    {now t : ℤ}
    (hNow : InYears 1970 9998 now)
    (hLater : 0 ≤ t ∧ t ≤ days 90) :
    Datetime.inRange (now + t) = .ok (now + t) := by
  have hBounds := hNow.bounds
  unfold Datetime.inRange
  apply if_pos
  simp only [Datetime.minimum, Datetime.maximum, days, hours,
    minutes, seconds] at *
  omega

end PigBook

------------------------------------------------------------
-- Handled Results
------------------------------------------------------------

namespace PigBook

/- The function returns, or raises `InvalidWindowError`. -/
def Handled {α : Type} (x : Except Error α) : Prop :=
  (∃ a, x = .ok a) ∨
    ∃ message, x = .error (.invalidWindow message)

variable {α β : Type} {x : Except Error α} {a : α}

theorem Handled.ok : Handled (.ok a : Except Error α) :=
  Or.inl ⟨a, rfl⟩

theorem Handled.invalidWindow
    {message : String} :
    Handled
      (.error (.invalidWindow message) : Except Error α) :=
  Or.inr ⟨message, rfl⟩

theorem not_handled_overflow :
    ¬ Handled (.error .overflowError : Except Error α) := by
  rintro (⟨a, h⟩ | ⟨message, h⟩) <;> cases h

/- A sequence is handled if its parts are. -/
theorem Handled.bind
    {f : α → Except Error β}
    (hFirst : Handled x)
    (hRest : ∀ a, x = .ok a → Handled (f a)) :
    Handled (x >>= f) := by
  rcases hFirst with ⟨a, rfl⟩ | ⟨message, rfl⟩
  · exact hRest a rfl
  · exact .invalidWindow

/- And its first part is handled if it is. -/
theorem Handled.first
    {f : α → Except Error β}
    (hAll : Handled (x >>= f)) :
    Handled x := by
  cases x with
  | ok a => exact .ok
  | error e =>
      rcases hAll with ⟨b, h⟩ | ⟨message, h⟩
      · cases h
      · cases h
        exact .invalidWindow

theorem handled_ok_bind
    {f : α → Except Error β} :
    Handled (Except.ok a >>= f) ↔ Handled (f a) :=
  Iff.rfl

theorem Handled.guard
    {c : Prop}
    [Decidable c]
    {message : String}
    {rest : Except Error α}
    (hRest : ¬ c → Handled rest) :
    Handled
      (if c then throw (.invalidWindow message) else rest) := by
  split_ifs with hIf
  · exact .invalidWindow
  · exact hRest hIf

theorem handled_guard
    {c : Prop}
    [Decidable c]
    {message : String}
    {rest : Except Error α}
    (hPass : ¬ c) :
    Handled
      (if c then throw (.invalidWindow message) else rest) ↔
        Handled rest := by
  rw [if_neg hPass]

end PigBook
