import PigBook.Inventory.Signature

/-
  The window policies of bookings and blackouts.

  Key definitions include:
    * `Datetime` and `Datetime.astimezone`
    * `validateBookingWindow`
    * `validateBlackoutWindow`

  Key theorems include:
    * `validateBookingWindow_error`
    * `validateBlackoutWindow_error`
-/

------------------------------------------------------------
-- Datetimes
------------------------------------------------------------

namespace PigBook

/-
  A Python datetime: its wall clock reading, counted as if it
  were UTC, and its UTC offset unless it is naive.
-/
structure Datetime where
  wall : ℤ
  offset : Option ℤ
deriving DecidableEq

namespace Datetime

/- 0001-01-01T00:00:00. -/
def minimum : ℤ :=
  seconds (-62135596800)

/- 9999-12-31T23:59:59.999999. -/
def maximum : ℤ :=
  seconds 253402300800 - 1

/- The instant, unless it is outside the datetimes. -/
def inRange (t : ℤ) : Except Error ℤ :=
  if minimum ≤ t ∧ t ≤ maximum then
    .ok t
  else
    .error .overflowError

/- Conversion of an aware datetime to UTC. -/
def astimezone (d : Datetime) : Except Error ℤ :=
  inRange (d.wall - d.offset.getD 0)

/- A datetime that already is in UTC. -/
def utc (t : ℤ) : Datetime where
  wall := t
  offset := some 0

end Datetime

def minute (t : ℤ) : ℤ :=
  t / minutes 1 % 60

def second (t : ℤ) : ℤ :=
  t / seconds 1 % 60

def microsecond (t : ℤ) : ℤ :=
  t % seconds 1

/- The instant is not on a half hour. -/
def offHalfHour (t : ℤ) : Prop :=
  second t ≠ 0 ∨ microsecond t ≠ 0 ∨
    ¬ (minute t = 0 ∨ minute t = 30)

instance (t : ℤ) : Decidable (offHalfHour t) :=
  inferInstanceAs (Decidable (_ ∨ _))

/- The beginning of the half hour around the instant. -/
def currentHalfHour (t : ℤ) : ℤ :=
  t - minute t * minutes 1 - second t * seconds 1 -
    microsecond t +
      (if minute t < 30 then 0 else minutes 30)

end PigBook

------------------------------------------------------------
-- Window Policies
------------------------------------------------------------

namespace PigBook

/- Both timestamps in UTC and on half hours, in order. -/
def alignedWindow
    (startsAt endsAt : Datetime) :
    Except Error TimeRange := do
  if startsAt.offset = none ∨ endsAt.offset = none then
    throw (.invalidWindow
      "Timestamps must include an explicit timezone offset")
  let startsAtUtc ← startsAt.astimezone
  let endsAtUtc ← endsAt.astimezone
  if offHalfHour startsAtUtc then
    throw (.invalidWindow
      "starts_at must fall on a UTC 30-minute boundary with zero seconds and microseconds")
  if offHalfHour endsAtUtc then
    throw (.invalidWindow
      "ends_at must fall on a UTC 30-minute boundary with zero seconds and microseconds")
  if h : startsAtUtc < endsAtUtc then
    return ⟨startsAtUtc, endsAtUtc, h⟩
  else
    throw (.invalidWindow
      "ends_at must be strictly greater than starts_at")

/- The policy of bookings and of waitlist entries. -/
def validateBookingWindow
    (startsAt endsAt : Datetime)
    (now : ℤ) : Except Error TimeRange := do
  let r ← alignedWindow startsAt endsAt
  let duration := r.upper - r.lower
  if duration < minutes 30 ∨ hours 4 < duration then
    throw (.invalidWindow
      "Booking duration must be between 30 minutes and 4 hours inclusive")
  let soonest ← Datetime.inRange (now + minutes 15)
  if r.lower < soonest then
    throw (.invalidWindow
      "starts_at must be at least 15 minutes in the future")
  let latest ← Datetime.inRange (now + days 90)
  if latest < r.lower then
    throw (.invalidWindow
      "starts_at must be at most 90 days in the future")
  return r

/- The policy of blackouts. -/
def validateBlackoutWindow
    (startsAt endsAt : Datetime)
    (now : ℤ) : Except Error TimeRange := do
  let r ← alignedWindow startsAt endsAt
  let duration := r.upper - r.lower
  if duration < minutes 30 ∨ days 30 < duration then
    throw (.invalidWindow
      "Blackout duration must be between 30 minutes and 30 days inclusive")
  if r.upper ≤ now then
    throw (.invalidWindow "ends_at must be in the future")
  if r.lower < currentHalfHour now then
    throw (.invalidWindow
      "Blackout start time cannot be before current 30-minute window")
  return r

end PigBook

------------------------------------------------------------
-- Errors of Window Policies
------------------------------------------------------------

namespace PigBook

/- A window is rejected with one of two kinds of errors. -/
def Error.OfWindow (e : Error) : Prop :=
  (∃ message, e = .invalidWindow message) ∨
    e = .overflowError

variable {d d' : Datetime} {now t : ℤ} {e : Error}

theorem Datetime.inRange_error
    (hError : Datetime.inRange t = .error e) :
    e.OfWindow := by
  unfold Datetime.inRange at hError
  split at hError
  · cases hError
  · cases hError
    exact Or.inr rfl

/- A step that fails, or the rest of the policy. -/
theorem Except.bind_error
    {α β : Type}
    {x : Except Error α}
    {f : α → Except Error β}
    (hError : (x >>= f) = .error e) :
    x = .error e ∨ ∃ a, x = .ok a ∧ f a = .error e := by
  cases x with
  | error e' =>
      cases hError
      exact Or.inl rfl
  | ok a => exact Or.inr ⟨a, rfl, hError⟩

/- A condition under which the window is rejected. -/
theorem Error.OfWindow.guard
    {α : Type}
    {c : Prop}
    [Decidable c]
    {message : String}
    {rest : Except Error α}
    (hRest : rest = .error e → e.OfWindow)
    (hError :
      (if c then throw (.invalidWindow message) else rest) =
        .error e) :
    e.OfWindow := by
  split at hError
  · cases hError
    exact Or.inl ⟨_, rfl⟩
  · exact hRest hError

theorem alignedWindow_error
    (hError : alignedWindow d d' = .error e) :
    e.OfWindow := by
  refine .guard ?_ hError
  intro hError
  rcases Except.bind_error hError with h | ⟨lower, -, hError⟩
  · exact Datetime.inRange_error h
  rcases Except.bind_error hError with h | ⟨upper, -, hError⟩
  · exact Datetime.inRange_error h
  refine .guard (fun hError => .guard ?_ hError) hError
  intro hError
  split at hError
  · cases hError
  · cases hError
    exact Or.inl ⟨_, rfl⟩

theorem validateBookingWindow_error
    (hError : validateBookingWindow d d' now = .error e) :
    e.OfWindow := by
  rcases Except.bind_error hError with h | ⟨r, -, hError⟩
  · exact alignedWindow_error h
  refine .guard ?_ hError
  intro hError
  rcases Except.bind_error hError with h | ⟨t, -, hError⟩
  · exact Datetime.inRange_error h
  refine .guard ?_ hError
  intro hError
  rcases Except.bind_error hError with h | ⟨t, -, hError⟩
  · exact Datetime.inRange_error h
  exact .guard (fun h => by cases h) hError

theorem validateBlackoutWindow_error
    (hError : validateBlackoutWindow d d' now = .error e) :
    e.OfWindow := by
  rcases Except.bind_error hError with h | ⟨r, -, hError⟩
  · exact alignedWindow_error h
  refine .guard (fun hError => .guard ?_ hError) hError
  intro hError
  exact .guard (fun h => by cases h) hError

end PigBook
