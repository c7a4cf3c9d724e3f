import PigBook.Idempotency.RequestHash

/-
  Which datetimes the window policies can handle.

  A conversion to UTC raises `OverflowError` when the instant
  is not in the representable range, and nothing catches it.

  Key theorems include:
    * `validateBookingWindow_handled`
    * `validateBlackoutWindow_handled`
    * `validateWindow_handled`
    * `windows_handled_iff`
-/

------------------------------------------------------------
-- Bookings and Blackouts
------------------------------------------------------------

namespace PigBook

variable {d d' : Datetime} {now : ℤ}

/- Aligning a window fails only where a conversion does. -/
theorem alignedWindow_handled
    (hStart : d.Aware)
    (hEnd : d'.Aware) :
    Handled (alignedWindow d d') ↔
      d.Convertible ∧ d'.Convertible := by
  have hAware : ¬ (d.offset = none ∨ d'.offset = none) := by
    rintro (hNone | hNone)
    · exact hStart.offset_isSome hNone
    · exact hEnd.offset_isSome hNone
  constructor
  · intro hHandled
    have hFirst := (handled_guard hAware).mp hHandled
    by_cases hFrom : d.Convertible
    · refine ⟨hFrom, ?_⟩
      rw [Datetime.astimezone_of_convertible hFrom,
        handled_ok_bind] at hFirst
      by_contra hUntil
      have hSecond := Handled.first hFirst
      rw [Datetime.astimezone_of_not hUntil] at hSecond
      exact not_handled_overflow hSecond
    · rw [Datetime.astimezone_of_not hFrom] at hFirst
      exact (not_handled_overflow hFirst).elim
  · rintro ⟨hFrom, hUntil⟩
    refine Handled.guard fun _ => ?_
    rw [Datetime.astimezone_of_convertible hFrom,
      Datetime.astimezone_of_convertible hUntil]
    refine Handled.guard fun _ => ?_
    refine Handled.guard fun _ => ?_
    split_ifs
    · exact .ok
    · exact .invalidWindow

theorem validateBookingWindow_handled
    (hStart : d.Aware)
    (hEnd : d'.Aware)
    (hNow : InYears 1970 9998 now) :
    Handled (validateBookingWindow d d' now) ↔
      d.Convertible ∧ d'.Convertible := by
  rw [← alignedWindow_handled hStart hEnd]
  constructor
  · exact Handled.first
  · intro hAligned
    have hSoonest := inRange_later (t := minutes 15) hNow
      (by decide)
    have hLatest := inRange_later (t := days 90) hNow
      (by decide)
    refine hAligned.bind fun r _ => ?_
    refine Handled.guard fun _ => ?_
    rw [hSoonest]
    refine Handled.guard fun _ => ?_
    rw [hLatest]
    refine Handled.guard fun _ => ?_
    exact .ok

theorem validateBlackoutWindow_handled
    (hStart : d.Aware)
    (hEnd : d'.Aware) :
    Handled (validateBlackoutWindow d d' now) ↔
      d.Convertible ∧ d'.Convertible := by
  rw [← alignedWindow_handled hStart hEnd]
  constructor
  · exact Handled.first
  · intro hAligned
    refine hAligned.bind fun r _ => ?_
    refine Handled.guard fun _ => ?_
    refine Handled.guard fun _ => ?_
    refine Handled.guard fun _ => ?_
    exact .ok

end PigBook

------------------------------------------------------------
-- Availability Windows
------------------------------------------------------------

namespace PigBook

variable (fromisoformat : String → Option Datetime)
variable {d d' : Datetime}

theorem parseAndValidateTimestamp_of_not
    (hAware : d.Aware)
    (hRange : ¬ d.Convertible) :
    parseAndValidateTimestamp fromisoformat (.datetime d) =
      .error .overflowError := by
  refine (if_neg hAware.offset_isSome).trans ?_
  rw [Datetime.astimezone_of_not hRange]
  rfl

theorem parseAndValidateTimestamp_of_convertible
    (hAware : d.Aware)
    (hRange : d.Convertible) :
    parseAndValidateTimestamp fromisoformat (.datetime d) =
      if offHalfHour d.instant then
        .error (.invalidWindow
          "Timestamp must fall on a UTC 30-minute boundary with zero seconds and microseconds")
      else
        .ok d.instant := by
  refine (if_neg hAware.offset_isSome).trans ?_
  rw [Datetime.astimezone_of_convertible hRange]
  rfl

theorem parseAndValidateTimestamp_handled
    (hAware : d.Aware) :
    Handled
      (parseAndValidateTimestamp fromisoformat
        (.datetime d)) ↔
      d.Convertible := by
  by_cases hRange : d.Convertible
  · rw [parseAndValidateTimestamp_of_convertible _ hAware
      hRange]
    refine iff_of_true ?_ hRange
    exact Handled.guard fun _ => .ok
  · rw [parseAndValidateTimestamp_of_not _ hAware hRange]
    exact iff_of_false not_handled_overflow hRange

/- Off the half hours, the start alone is converted. -/
theorem validateWindow_handled
    (hStart : d.Aware)
    (hEnd : d'.Aware) :
    Handled
      (validateWindow fromisoformat (.datetime d)
        (.datetime d')) ↔
      d.Convertible ∧
        (offHalfHour d.instant ∨ d'.Convertible) := by
  have hParsed :=
    parseAndValidateTimestamp_handled fromisoformat hStart
  constructor
  · intro hHandled
    have hFrom := hParsed.mp hHandled.first
    refine ⟨hFrom, ?_⟩
    by_cases hOff : offHalfHour d.instant
    · exact Or.inl hOff
    · right
      unfold validateWindow at hHandled
      rw [parseAndValidateTimestamp_of_convertible _ hStart
        hFrom, if_neg hOff, handled_ok_bind] at hHandled
      exact
        (parseAndValidateTimestamp_handled _ hEnd).mp
          hHandled.first
  · rintro ⟨hFrom, hRest⟩
    refine (hParsed.mpr hFrom).bind fun s hParse => ?_
    rw [parseAndValidateTimestamp_of_convertible _ hStart
      hFrom] at hParse
    have hOn : ¬ offHalfHour d.instant := by
      intro hOff
      rw [if_pos hOff] at hParse
      cases hParse
    have hUntil := hRest.resolve_left hOn
    refine Handled.bind
      ((parseAndValidateTimestamp_handled _ hEnd).mpr hUntil)
      fun e _ => ?_
    split_ifs
    · exact .invalidWindow
    · exact .ok
    · exact .invalidWindow

end PigBook

------------------------------------------------------------
-- All Policies
------------------------------------------------------------

namespace PigBook

/-
  No policy and no hash fails on two datetimes exactly if the
  instants of both are representable.
-/
theorem windows_handled_iff
    (fromisoformat : String → Option Datetime)
    (E : Encodings)
    {d d' : Datetime}
    {now : ℤ}
    (hStart : d.Aware)
    (hEnd : d'.Aware)
    (hNow : InYears 1970 9998 now) :
    (Handled (validateBookingWindow d d' now) ∧
      Handled (validateBlackoutWindow d d' now) ∧
      Handled
        (validateWindow fromisoformat (.datetime d)
          (.datetime d')) ∧
      Handled
        (parseAndValidateTimestamp fromisoformat
          (.datetime d)) ∧
      Handled
        (parseAndValidateTimestamp fromisoformat
          (.datetime d')) ∧
      ∀ method path resourceId,
        (∃ hash,
          computeRequestHash E method path
            (.booking resourceId d d') = .ok hash) ∧
        (∃ hash,
          computeRequestHash E method path
            (.blackout d d') = .ok hash)) ↔
      d.Convertible ∧ d'.Convertible := by
  constructor
  · intro hAll
    exact
      (validateBookingWindow_handled hStart hEnd hNow).mp
        hAll.1
  · rintro ⟨hFrom, hUntil⟩
    refine
      ⟨(validateBookingWindow_handled hStart hEnd hNow).mpr
          ⟨hFrom, hUntil⟩,
        (validateBlackoutWindow_handled hStart hEnd).mpr
          ⟨hFrom, hUntil⟩,
        (validateWindow_handled _ hStart hEnd).mpr
          ⟨hFrom, Or.inr hUntil⟩,
        (parseAndValidateTimestamp_handled _ hStart).mpr hFrom,
        (parseAndValidateTimestamp_handled _ hEnd).mpr hUntil,
        fun method path resourceId => ⟨?_, ?_⟩⟩
    · apply (computeRequestHash_ok_iff method path _).mpr
      · simp [CreateBody.datetimes, hFrom, hUntil]
      · simp [CreateBody.datetimes, hStart, hEnd]
    · apply (computeRequestHash_ok_iff method path _).mpr
      · simp [CreateBody.datetimes, hFrom, hUntil]
      · simp [CreateBody.datetimes, hStart, hEnd]

/- The first minute of the calendar, east of Greenwich. -/
def firstMinute : Datetime where
  wall := Datetime.minimum
  offset := some (hours 14)

/- An hour in a time zone that is five hours behind. -/
def newYorkNoon (day : ℤ) : Datetime where
  wall := days day + hours 12
  offset := some (hours (-5))

theorem firstMinute_aware : firstMinute.Aware :=
  ⟨by decide, hours 14, rfl, by decide⟩

theorem newYorkNoon_aware
    {day : ℤ}
    (hDay : 0 ≤ day ∧ day ≤ 100000) :
    (newYorkNoon day).Aware := by
  refine ⟨?_, hours (-5), rfl, by decide⟩
  simp only [newYorkNoon, Datetime.minimum, Datetime.maximum,
    days, hours, minutes, seconds]
  omega

/- Functions that leave texts and numbers as they are. -/
def plainEncodings : Encodings where
  upper := String.toUpper
  floatRepr := fun x => toString x
  sha256 := id

/- An empty window is rejected, and hashed. -/
theorem windows_handled_noon :
    Handled
      (validateBookingWindow (newYorkNoon 20000)
        (newYorkNoon 20000) (days 20000)) ∧
    ∃ hash,
      computeRequestHash plainEncodings "POST"
        "/api/v1/bookings"
        (.booking 1 (newYorkNoon 20000)
          (newYorkNoon 20000)) = .ok hash := by
  have hAware : (newYorkNoon 20000).Aware :=
    newYorkNoon_aware (by decide)
  have hNow : InYears 1970 9998 (days 20000) := by decide
  have hAll :=
    (windows_handled_iff (fun _ => none) plainEncodings
      hAware hAware hNow).mpr ⟨by decide, by decide⟩
  exact
    ⟨hAll.1,
      (hAll.2.2.2.2.2 "POST" "/api/v1/bookings" 1).1⟩

/- The first minute overflows before it is found too early. -/
theorem windows_unhandled_firstMinute :
    firstMinute.Aware ∧ (newYorkNoon 20000).Aware ∧
      InYears 1970 9998 (days 20000) ∧
      ¬ Handled
        (validateBookingWindow firstMinute
          (newYorkNoon 20000) (days 20000)) := by
  refine ⟨firstMinute_aware, newYorkNoon_aware (by decide),
    by decide, ?_⟩
  have hRaised :
      validateBookingWindow firstMinute (newYorkNoon 20000)
        (days 20000) = .error .overflowError := by
    decide
  rw [hRaised]
  exact not_handled_overflow

end PigBook
