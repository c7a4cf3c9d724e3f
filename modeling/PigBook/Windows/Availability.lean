import Mathlib.Data.List.Sort
import PigBook.Client.Windows
import PigBook.Inventory.Consistency
import PigBook.Windows.Timestamps

/-
  The availability of a resource, as the server reports it
  and as the browser shows it.

  Key definitions include:
    * `OccupiedInterval`, `Availability`, `availability`
    * `OccupiedInterval.serialize`
    * `Client.checkSlotOccupancy`

  Key theorems include:
    * `mem_occupiedRows`
    * `availability_agrees`
-/

------------------------------------------------------------
-- The Server
------------------------------------------------------------

namespace PigBook

structure OccupiedInterval where
  startsAt : ℤ
  endsAt : ℤ
  kind : Kind
  status : BookingStatus
deriving DecidableEq

structure Availability where
  resourceId : Uuid
  startsAt : ℤ
  endsAt : ℤ
  timezone : String
  occupied : List OccupiedInterval
deriving DecidableEq

def Booking.interval (b : Booking) : OccupiedInterval where
  startsAt := b.timeRange.lower
  endsAt := b.timeRange.upper
  kind := b.kind
  status := b.status

/- The order of the rows: by lower bound, then by id. -/
def Booking.before (b b' : Booking) : Bool :=
  b.timeRange.lower < b'.timeRange.lower ∨
    (b.timeRange.lower = b'.timeRange.lower ∧ b.id ≤ b'.id)

/- The rows that the query of a window selects. -/
def Cell.occupiedRows
    (r : TimeRange)
    (s : Cell) : List Booking :=
  (s.bookings.filter (fun b =>
    b.status.active ∧ b.timeRange.Overlaps r)).mergeSort
      Booking.before

def availability
    (fromisoformat : String → Option Datetime)
    (rid : Uuid)
    (startsAt endsAt : Timestamp)
    (s : Cell) : Except Error Availability := do
  let r ← validateWindow fromisoformat startsAt endsAt
  if s.resource.any (·.active) then
    return {
      resourceId := rid
      startsAt := r.lower
      endsAt := r.upper
      timezone := "America/New_York"
      occupied := (s.occupiedRows r).map Booking.interval
    }
  else
    throw (.notFound "Resource not found")

/- An interval in the text of the response. -/
structure OccupiedJson where
  startsAt : String
  endsAt : String
  kind : Kind
  status : BookingStatus
deriving DecidableEq

def OccupiedInterval.serialize
    (item : OccupiedInterval) : OccupiedJson where
  startsAt := strftime item.startsAt
  endsAt := strftime item.endsAt
  kind := item.kind
  status := item.status

end PigBook

------------------------------------------------------------
-- The Browser
------------------------------------------------------------

namespace PigBook.Client

structure SlotCheck where
  isOccupied : Bool
  interval : Option OccupiedJson
deriving DecidableEq

/- The slot, from `slotStart` to `slotEnd`, is occupied. -/
def checkSlotOccupancy
    (other : String → TimeValue)
    (slotStart slotEnd : ℤ) : List OccupiedJson → SlotCheck
| [] => ⟨false, none⟩
| item :: items =>
    let occStart := newDate other item.startsAt
    let occEnd := newDate other item.endsAt
    if dateBefore (some slotStart) occEnd ∧
        dateBefore occStart (some slotEnd) then
      ⟨true, some item⟩
    else
      checkSlotOccupancy other slotStart slotEnd items

variable (other : String → TimeValue)

theorem newDate_strftime
    {t : ℤ}
    (hYears : InYears 1 9999 t) :
    newDate other (strftime t) = some (t / 1000) := by
  have hFrom : Calendar.timeFromYear 0 ≤
      Calendar.timeFromYear 1 := by
    decide
  have hFirst :
      Calendar.timeFromYear 1 = -62135596800000 := by
    decide
  have hLast :
      Calendar.timeFromYear 10000 = 253402300800000 := by
    decide
  unfold InYears at hYears
  norm_num at hYears
  have hRead :=
    Calendar.readIso_isoTextMicro (t := t) (by omega)
      (by omega)
  unfold newDate strftime
  rw [String.toList_ofList, hRead]
  exact if_pos (by omega)

/- An interval of the response that overlaps the slot. -/
theorem isOccupied_iff
    {items : List OccupiedInterval}
    {slotStart slotEnd : ℤ}
    (hYears :
      ∀ item ∈ items,
        InYears 1 9999 item.startsAt ∧
          InYears 1 9999 item.endsAt) :
    (checkSlotOccupancy other slotStart slotEnd
        (items.map OccupiedInterval.serialize)).isOccupied =
          true ↔
      ∃ item ∈ items,
        slotStart < item.endsAt / 1000 ∧
          item.startsAt / 1000 < slotEnd := by
  induction items with
  | nil => simp [checkSlotOccupancy]
  | cons item items ih =>
      rw [List.forall_mem_cons] at hYears
      have hRest := ih hYears.2
      simp only [List.mem_cons, exists_eq_or_imp]
      rw [← hRest, List.map_cons, checkSlotOccupancy]
      simp only [OccupiedInterval.serialize, dateBefore,
        newDate_strftime other hYears.1.1,
        newDate_strftime other hYears.1.2, decide_eq_true_eq]
      by_cases hHit :
          slotStart < item.endsAt / 1000 ∧
            item.startsAt / 1000 < slotEnd
      · rw [if_pos hHit]
        exact iff_of_true rfl (Or.inl hHit)
      · rw [if_neg hHit]
        simp [hHit]

end PigBook.Client

------------------------------------------------------------
-- The Rows of a Window
------------------------------------------------------------

namespace PigBook

variable {s : Cell} {r : TimeRange} {b : Booking}

theorem mem_occupiedRows :
    b ∈ s.occupiedRows r ↔
      b ∈ s.bookings ∧ b.status.active = true ∧
        b.timeRange.Overlaps r := by
  simp [Cell.occupiedRows, List.mem_mergeSort]

theorem Booking.before_total (b b' : Booking) :
    (b.before b' || b'.before b) = true := by
  simp only [Booking.before, Bool.or_eq_true,
    decide_eq_true_eq]
  have hLower :=
    lt_trichotomy b.timeRange.lower b'.timeRange.lower
  rcases hLower with hBefore | hSame | hAfter
  · exact Or.inl (Or.inl hBefore)
  · rcases le_total b.id b'.id with hId | hId
    · exact Or.inl (Or.inr ⟨hSame, hId⟩)
    · exact Or.inr (Or.inr ⟨hSame.symm, hId⟩)
  · exact Or.inr (Or.inl hAfter)

theorem Booking.before_trans
    (b b' b'' : Booking)
    (hFirst : b.before b' = true)
    (hSecond : b'.before b'' = true) :
    b.before b'' = true := by
  simp only [Booking.before, decide_eq_true_eq] at *
  rcases hFirst with hFirst | ⟨hFirst, hId⟩
  · left
    omega
  · rcases hSecond with hSecond | ⟨hSecond, hId'⟩
    · left
      omega
    · exact Or.inr ⟨by omega, le_trans hId hId'⟩

/- The selected rows are in order, one after the other. -/
theorem occupiedRows_ordered
    (hDisjoint : s.NoOverlap) :
    (s.occupiedRows r).Pairwise (fun b b' =>
      b.timeRange.upper ≤ b'.timeRange.lower) := by
  have hSorted :
      (s.occupiedRows r).Pairwise
        (fun b b' => b.before b' = true) :=
    List.pairwise_mergeSort Booking.before_trans
      Booking.before_total _
  have hApart :
      (s.occupiedRows r).Pairwise Booking.Apart := by
    have hPerm := List.mergeSort_perm
      (s.bookings.filter (fun b =>
        b.status.active ∧ b.timeRange.Overlaps r))
      Booking.before
    refine (hPerm.pairwise_iff Booking.Apart.symm).mpr ?_
    exact hDisjoint.filter _
  refine (hSorted.and hApart).imp_of_mem ?_
  rintro b b' hMem hMem' ⟨hBefore, hAway⟩
  have hFree :=
    hAway (mem_occupiedRows.mp hMem).2.1
      (mem_occupiedRows.mp hMem').2.1
  have hNonempty := b.timeRange.nonempty
  have hNonempty' := b'.timeRange.nonempty
  unfold TimeRange.Overlaps at hFree
  simp only [Booking.before, decide_eq_true_eq] at hBefore
  omega

/- Both ends are representable instants on half hours. -/
def TimeRange.OnHalfHours (r : TimeRange) : Prop :=
  (¬ offHalfHour r.lower ∧ InYears 1 9999 r.lower) ∧
    ¬ offHalfHour r.upper ∧ InYears 1 9999 r.upper

instance (r : TimeRange) : Decidable r.OnHalfHours :=
  inferInstanceAs (Decidable (_ ∧ _))

/- The answer for a window that is valid. -/
theorem availability_eq
    {fromisoformat : String → Option Datetime}
    {startsAt endsAt : Timestamp}
    (rid : Uuid)
    (hActive : s.resource.any (·.active) = true)
    (hWindow :
      validateWindow fromisoformat startsAt endsAt = .ok r) :
    availability fromisoformat rid startsAt endsAt s =
      .ok {
        resourceId := rid
        startsAt := r.lower
        endsAt := r.upper
        timezone := "America/New_York"
        occupied := (s.occupiedRows r).map Booking.interval
      } := by
  unfold availability
  rw [hWindow]
  change (if _ then _ else _) = _
  rw [if_pos hActive]
  rfl

/- A row of the window that overlaps the slot. -/
theorem slot_occupied_iff
    (other : String → Client.TimeValue)
    {slotStart slotEnd : ℤ}
    (hHalves : ∀ b ∈ s.bookings, b.timeRange.OnHalfHours)
    (hFrom : r.lower ≤ slotStart * 1000)
    (hUntil : slotEnd * 1000 ≤ r.upper) :
    (Client.checkSlotOccupancy other slotStart slotEnd
        (((s.occupiedRows r).map Booking.interval).map
          OccupiedInterval.serialize)).isOccupied = true ↔
      ∃ b ∈ s.bookings, b.status.active = true ∧
        b.timeRange.lower < slotEnd * 1000 ∧
          slotStart * 1000 < b.timeRange.upper := by
  have hYears :
      ∀ item ∈ (s.occupiedRows r).map Booking.interval,
        InYears 1 9999 item.startsAt ∧
          InYears 1 9999 item.endsAt := by
    intro item hItem
    rcases List.mem_map.mp hItem with ⟨b, hRow, rfl⟩
    have hHalf := hHalves b (mem_occupiedRows.mp hRow).1
    exact ⟨hHalf.1.2, hHalf.2.2⟩
  rw [Client.isOccupied_iff other hYears]
  constructor
  · rintro ⟨item, hItem, hStart, hEnd⟩
    rcases List.mem_map.mp hItem with ⟨b, hRow, rfl⟩
    rcases mem_occupiedRows.mp hRow with
      ⟨hMem, hActive, hOverlap⟩
    have hHalf := hHalves b hMem
    rw [TimeRange.OnHalfHours, offHalfHour_iff,
      offHalfHour_iff] at hHalf
    dsimp only [Booking.interval] at hStart hEnd
    exact ⟨b, hMem, hActive, by omega, by omega⟩
  · rintro ⟨b, hMem, hActive, hStart, hEnd⟩
    have hHalf := hHalves b hMem
    rw [TimeRange.OnHalfHours, offHalfHour_iff,
      offHalfHour_iff] at hHalf
    have hOverlap : b.timeRange.Overlaps r := by
      have hNonempty := b.timeRange.nonempty
      unfold TimeRange.Overlaps
      omega
    refine
      ⟨b.interval,
        List.mem_map_of_mem
          (mem_occupiedRows.mpr ⟨hMem, hActive, hOverlap⟩),
        ?_, ?_⟩ <;>
      dsimp only [Booking.interval] <;> omega

/-
  An active booking meets the exclusion constraint where its
  window is occupied.  The constraint is checked before the
  foreign keys.
-/
theorem bookingViolation_noOverlap_iff
    {s : Cell}
    {b : Booking}
    (hCheck : b.Check)
    (hFresh : ∀ b' ∈ s.bookings, b'.id ≠ b.id)
    (hActive : b.status.active = true) :
    s.bookingViolation b = some .bookingsNoOverlap ↔
      s.Occupied b.timeRange := by
  have hOther : ¬ ∃ b' ∈ s.bookings, b'.id = b.id := by
    push Not
    exact hFresh
  have hRow :
      s.bookingRowViolation b =
        if s.Occupied b.timeRange then
          some .bookingsNoOverlap
        else
          none := by
    unfold Cell.bookingRowViolation
    rw [if_neg (not_not.mpr hCheck), if_neg hOther]
    simp [hActive]
  unfold Cell.bookingViolation
  rw [hRow]
  by_cases hOccupied : s.Occupied b.timeRange
  · simp [hOccupied]
  · simp only [hOccupied, if_false, iff_false]
    unfold Cell.bookingForeignViolation
    split
    · simp
    · split
      · simp
      · split <;> simp

/-
  Each valid window of an active resource is answered.  The
  browser shows a slot of the window as occupied exactly if a
  confirmed booking of the slot would violate
  `bookings_no_overlap`; the intervals are in order and
  disjoint; and a slot is free if it touches bookings at
  endpoints only.
-/
theorem availability_agrees
    (fromisoformat : String → Option Datetime)
    (other : String → Client.TimeValue)
    (rid : Uuid)
    {startsAt endsAt : Timestamp}
    (hHalves : ∀ b ∈ s.bookings, b.timeRange.OnHalfHours)
    (hDisjoint : s.NoOverlap)
    (hActive : s.resource.any (·.active) = true)
    (hWindow :
      validateWindow fromisoformat startsAt endsAt = .ok r) :
    ∃ a,
      availability fromisoformat rid startsAt endsAt s =
        .ok a ∧
      a.resourceId = rid ∧
      a.startsAt = r.lower ∧ a.endsAt = r.upper ∧
      (∀ slotStart slotEnd : ℤ,
        r.lower ≤ slotStart * 1000 →
        slotEnd * 1000 ≤ r.upper →
        (∀ b : Booking, b.status = .confirmed → b.Check →
          (∀ b' ∈ s.bookings, b'.id ≠ b.id) →
          b.timeRange.lower = slotStart * 1000 →
          b.timeRange.upper = slotEnd * 1000 →
          ((Client.checkSlotOccupancy other slotStart slotEnd
              (a.occupied.map
                OccupiedInterval.serialize)).isOccupied =
                  true ↔
            s.bookingViolation b = some .bookingsNoOverlap)) ∧
        ((∀ b ∈ s.bookings, b.status.active = true →
            b.timeRange.upper ≤ slotStart * 1000 ∨
              slotEnd * 1000 ≤ b.timeRange.lower) →
          (Client.checkSlotOccupancy other slotStart slotEnd
            (a.occupied.map
              OccupiedInterval.serialize)).isOccupied =
                false)) ∧
      a.occupied.Pairwise (fun x y =>
        x.startsAt < y.startsAt ∧ x.endsAt ≤ y.startsAt) := by
  refine
    ⟨_, availability_eq rid hActive hWindow, rfl, rfl, rfl, ?_,
      ?_⟩
  · intro slotStart slotEnd hStart hEnd
    have hShown :=
      slot_occupied_iff other hHalves hStart hEnd
    constructor
    · intro b hConfirmed hCheck hFresh hLower hUpper
      have hActive : b.status.active = true := by
        rw [hConfirmed]
        rfl
      rw [hShown,
        bookingViolation_noOverlap_iff hCheck hFresh hActive]
      unfold Cell.Occupied Booking.Occupies TimeRange.Overlaps
      rw [hLower, hUpper]
    · intro hFree
      rw [← Bool.not_eq_true, hShown]
      rintro ⟨b, hMem, hActive, hBefore, hAfter⟩
      rcases hFree b hMem hActive with hEarly | hLate <;> omega
  · rw [List.pairwise_map]
    refine (occupiedRows_ordered hDisjoint).imp ?_
    intro b b' hOrdered
    have hNonempty := b.timeRange.nonempty
    exact ⟨lt_of_lt_of_le hNonempty hOrdered, hOrdered⟩

/- A resource that is reserved from noon to one o'clock. -/
def noonCell : Cell where
  users := [1]
  resource := some {
    name := "Room"
    description := ""
    location := "Hall"
    active := true
    version := 1
    createdAt := 0
    updatedAt := 0
  }
  bookings := [{
    id := 1
    userId := some 1
    createdBy := 1
    kind := .reservation
    timeRange := {
      lower := days 20000 + hours 12
      upper := days 20000 + hours 13
      nonempty := by decide
    }
    status := .confirmed
    expiresAt := none
    cancellationReason := none
    version := 1
    createdAt := 0
    updatedAt := 0
  }]
  entries := []
  outbox := []
  audit := []

/- A booking of the hour that is reserved. -/
def noonBooking : Booking where
  id := 2
  userId := some 2
  createdBy := 2
  kind := .reservation
  timeRange := {
    lower := days 20000 + hours 12
    upper := days 20000 + hours 13
    nonempty := by decide
  }
  status := .confirmed
  expiresAt := none
  cancellationReason := none
  version := 1
  createdAt := 0
  updatedAt := 0

/- The day's window. -/
def noonDay : TimeRange where
  lower := days 20000
  upper := days 20001
  nonempty := by decide

/- The hour before noon is free, and the hour after is not. -/
theorem availability_agrees_noon :
    ∃ a,
      availability (fun _ => none) 1
          (.datetime (.utc (days 20000)))
          (.datetime (.utc (days 20001))) noonCell = .ok a ∧
        (Client.checkSlotOccupancy (fun _ => none)
          1728039600000 1728043200000
          (a.occupied.map
            OccupiedInterval.serialize)).isOccupied =
              false ∧
        (Client.checkSlotOccupancy (fun _ => none)
          1728043200000 1728046800000
          (a.occupied.map
            OccupiedInterval.serialize)).isOccupied =
              true := by
  have hWindow :
      validateWindow (fun _ => none)
          (.datetime (.utc (days 20000)))
          (.datetime (.utc (days 20001))) =
        .ok noonDay :=
    rfl
  rcases
      availability_agrees (s := noonCell) (fun _ => none)
        (fun _ => none) 1 (by decide) (by decide) (by decide)
        hWindow with
    ⟨a, hAnswer, -, -, -, hSlots, -⟩
  refine ⟨a, hAnswer, ?_, ?_⟩
  · apply
      (hSlots 1728039600000 1728043200000 (by decide)
        (by decide)).2
    decide
  · apply
      ((hSlots 1728043200000 1728046800000 (by decide)
        (by decide)).1 noonBooking rfl (by decide) (by decide)
          (by decide) (by decide)).mpr
    decide

end PigBook
