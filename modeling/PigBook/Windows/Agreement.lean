import PigBook.Client.Windows
import PigBook.Windows.Timestamps

/-
  The browser and the server admit the same booking windows.

  Key theorems include:
    * `validateBookingWindow_ok_iff`
    * `validateBookingWindow_instants`
    * `validators_agree`
-/

------------------------------------------------------------
-- The Server
------------------------------------------------------------

namespace PigBook

variable {d d' : Datetime} {now : ℤ}

/- A guard is passed, and then the rest returns. -/
theorem ok_guard_iff
    {α : Type}
    {c : Prop}
    [Decidable c]
    {e : Error}
    {rest : Except Error α} :
    (∃ a, (if c then throw e else rest) = .ok a) ↔
      ¬ c ∧ ∃ a, rest = .ok a := by
  by_cases hFails : c
  · rw [if_pos hFails]
    refine iff_of_false ?_ (fun h => h.1 hFails)
    rintro ⟨a, h⟩
    cases h
  · rw [if_neg hFails]
    exact (and_iff_right hFails).symm

theorem alignedWindow_eq
    (hStart : d.offset ≠ none)
    (hEnd : d'.offset ≠ none)
    (hFrom : d.Convertible)
    (hUntil : d'.Convertible) :
    alignedWindow d d' =
      if offHalfHour d.instant then
        .error (.invalidWindow
          "starts_at must fall on a UTC 30-minute boundary with zero seconds and microseconds")
      else if offHalfHour d'.instant then
        .error (.invalidWindow
          "ends_at must fall on a UTC 30-minute boundary with zero seconds and microseconds")
      else if h : d.instant < d'.instant then
        .ok ⟨d.instant, d'.instant, h⟩
      else
        .error (.invalidWindow
          "ends_at must be strictly greater than starts_at") := by
  unfold alignedWindow
  rw [if_neg (by simp [hStart, hEnd]),
    Datetime.astimezone_of_convertible hFrom,
    Datetime.astimezone_of_convertible hUntil]
  rfl

/- The server admits the bookable windows. -/
theorem validateBookingWindow_ok_iff
    (hStart : d.offset ≠ none)
    (hEnd : d'.offset ≠ none)
    (hFrom : d.Convertible)
    (hUntil : d'.Convertible)
    (hNow : InYears 1970 9998 now) :
    (∃ r, validateBookingWindow d d' now = .ok r) ↔
      Bookable 1000000 d.instant d'.instant now := by
  have hSoonest := inRange_later (t := minutes 15) hNow
    (by decide)
  have hLatest := inRange_later (t := days 90) hNow
    (by decide)
  unfold validateBookingWindow
  rw [alignedWindow_eq hStart hEnd hFrom hUntil]
  by_cases hStart' : offHalfHour d.instant
  · rw [if_pos hStart']
    refine iff_of_false (by rintro ⟨r, hOk⟩; cases hOk) ?_
    intro hBookable
    exact offHalfHour_iff.mp hStart' hBookable.startAligned
  rw [if_neg hStart']
  by_cases hEnd' : offHalfHour d'.instant
  · rw [if_pos hEnd']
    refine iff_of_false (by rintro ⟨r, hOk⟩; cases hOk) ?_
    intro hBookable
    exact offHalfHour_iff.mp hEnd' hBookable.endAligned
  rw [if_neg hEnd']
  by_cases hOrder : d.instant < d'.instant
  · rw [dif_pos hOrder]
    refine ok_guard_iff.trans ?_
    rw [hSoonest]
    refine (and_congr_right fun _ => ok_guard_iff).trans ?_
    rw [hLatest]
    refine
      (and_congr_right fun _ =>
        and_congr_right fun _ => ok_guard_iff).trans ?_
    rw [offHalfHour_iff, not_not] at hStart' hEnd'
    simp only [days, hours, minutes, seconds]
    constructor
    · rintro ⟨hLength, hSoon, hLate, -⟩
      constructor <;> omega
    · rintro ⟨-, -, hShort, hLong, hSoon, hLate⟩
      exact ⟨by omega, by omega, by omega, _, rfl⟩
  · rw [dif_neg hOrder]
    refine iff_of_false (by rintro ⟨r, hOk⟩; cases hOk) ?_
    rintro ⟨-, -, hShort, -, -, -⟩
    omega

/- The verdict depends on the instants alone. -/
theorem validateBookingWindow_instants
    {x x' : Datetime}
    (hStart : d.offset ≠ none)
    (hEnd : d'.offset ≠ none)
    (hStart' : x.offset ≠ none)
    (hEnd' : x'.offset ≠ none)
    (hFrom : d.instant = x.instant)
    (hUntil : d'.instant = x'.instant)
    (now : ℤ) :
    validateBookingWindow d d' now =
      validateBookingWindow x x' now := by
  have hAligned : alignedWindow d d' = alignedWindow x x' := by
    unfold alignedWindow
    rw [if_neg (by simp [hStart, hEnd]),
      if_neg (by simp [hStart', hEnd'])]
    have hSame : d.astimezone = x.astimezone :=
      congrArg Datetime.inRange hFrom
    have hSame' : d'.astimezone = x'.astimezone :=
      congrArg Datetime.inRange hUntil
    rw [hSame, hSame']
  unfold validateBookingWindow
  rw [hAligned]

end PigBook

------------------------------------------------------------
-- The Browser and the Server
------------------------------------------------------------

namespace PigBook

theorem Bookable.scale
    {startTime endTime now : ℤ} :
    Bookable 1000000 (startTime * 1000) (endTime * 1000)
        (now * 1000) ↔
      Bookable 1000 startTime endTime now := by
  constructor
  · rintro ⟨hStart, hEnd, hShort, hLong, hSoon, hLate⟩
    constructor <;> omega
  · rintro ⟨hStart, hEnd, hShort, hLong, hSoon, hLate⟩
    constructor <;> omega

/- The datetimes of such instants are representable. -/
theorem Datetime.utc_convertible
    {t : ℤ}
    (hYears : InYears 1970 9998 (t * 1000)) :
    (Datetime.utc (t * 1000)).Convertible := by
  have hBounds := hYears.bounds
  simp only [Datetime.Convertible, Datetime.instant,
    Datetime.utc, Option.getD_some, Datetime.minimum,
    Datetime.maximum, seconds]
  omega

/-
  For instants in milliseconds, the browser and the server
  admit the same windows; and what the server answers depends
  on the instants that the timestamps denote, and not on their
  offsets.
-/
theorem validators_agree
    (other : String → Client.TimeValue) :
    (∀ startTime endTime now : ℤ,
      InYears 1970 9998 (startTime * 1000) →
      InYears 1970 9998 (endTime * 1000) →
      InYears 1970 9998 (now * 1000) →
      ((Client.validateBookingWindow other
          (Client.toISOString startTime)
          (Client.toISOString endTime) now).valid = true ↔
        ∃ r,
          validateBookingWindow
            (Datetime.utc (startTime * 1000))
            (Datetime.utc (endTime * 1000)) (now * 1000) =
              .ok r)) ∧
    ∀ (d d' x x' : Datetime) (now : ℤ),
      d.offset ≠ none → d'.offset ≠ none →
      x.offset ≠ none → x'.offset ≠ none →
      d.instant = x.instant → d'.instant = x'.instant →
      validateBookingWindow d d' now =
        validateBookingWindow x x' now := by
  constructor
  · intro startTime endTime now hStart hEnd hNow
    have hFrom := hStart.bounds
    have hUntil := hEnd.bounds
    have hBounds := hNow.bounds
    have hLast := timeFromYear_9999
    unfold Client.validateBookingWindow
    rw [
      Client.newDate_toISOString other (by omega) (by omega),
      Client.newDate_toISOString other (by omega) (by omega),
      validateBookingWindow_ok_iff (by simp [Datetime.utc])
        (by simp [Datetime.utc])
        (Datetime.utc_convertible hStart)
        (Datetime.utc_convertible hEnd) hNow]
    refine (Client.validateTimes_valid_iff (by omega)).trans ?_
    rw [← Bookable.scale]
    simp [Datetime.instant, Datetime.utc]
  · intro d d' x x' now hStart hEnd hStart' hEnd' hFrom hUntil
    exact
      validateBookingWindow_instants hStart hEnd hStart' hEnd'
        hFrom hUntil now

/-
  Noon and one o'clock are admitted an hour ahead, and read
  with another offset they are admitted as well.
-/
theorem validators_agree_noon :
    (Client.validateBookingWindow (fun _ => none)
      (Client.toISOString 1728043200000)
      (Client.toISOString 1728046800000)
      1728039600000).valid = true ∧
    validateBookingWindow
        (Datetime.utc 1728043200000000)
        (Datetime.utc 1728046800000000) 1728039600000000 =
      validateBookingWindow
        ⟨1728028800000000, some (hours (-4))⟩
        ⟨1728032400000000, some (hours (-4))⟩
        1728039600000000 := by
  have hAgree := validators_agree (fun _ => none)
  refine
    ⟨(hAgree.1 _ _ _ (by decide) (by decide)
        (by decide)).mpr ⟨_, rfl⟩,
      hAgree.2 _ _ _ _ _ (by decide) (by decide) (by decide)
        (by decide) (by decide) (by decide)⟩

end PigBook
