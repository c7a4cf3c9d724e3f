import PigBook.Inventory.Safety
import PigBook.Inventory.Versions

/-
  The rows of the outbox and the transitions of the bookings.

  Key definitions include:
    * `Request.notice`, `Request.notices`
    * `Telling`
    * `toldBy`

  Key theorems include:
    * `Effect.telling`
    * `AdmittedRun.outboxExact`
-/

------------------------------------------------------------
-- Notices
------------------------------------------------------------

namespace PigBook

open ReadCommitted

/- A request of an owner or administrator to cancel. -/
def Request.cancels : Request → Bool
| cancelBooking _ _ _ _ => true
| _ => false

/-
  The event that the transition of a booking calls for.  An
  offer that is cancelled by request is told, and one that is
  declined is not.
-/
def Request.notice
    (request : Request)
    (old : Option BookingStatus)
    (b : Booking) : Option EventType :=
  match old, b.status with
  | none, .confirmed =>
      if b.kind = .reservation then some .bookingConfirmed
      else none
  | none, .offered => some .waitlistOffered
  | some .offered, .confirmed => some .bookingConfirmed
  | some .offered, .expired => some .holdExpired
  | some .offered, .cancelled =>
      if request.cancels then some .bookingCancelled
      else none
  | some .confirmed, .cancelled =>
      if b.kind = .reservation then some .bookingCancelled
      else none
  | _, _ => none

/- The columns of the unique key of the outbox. -/
abbrev EventKey := Uuid × ℕ × EventType

def OutboxEvent.eventKey (ev : OutboxEvent) : EventKey :=
  (ev.aggregateId, ev.aggregateVersion, ev.eventType)

/- The status of the booking, if there is one. -/
def Cell.statusOf
    (s : Cell)
    (bookingId : Uuid) : Option BookingStatus :=
  (s.bookings.find? (·.id = bookingId)).map (·.status)

/- The key of the event that a booking calls for now. -/
def Request.noticeKey
    (request : Request)
    (s : Cell)
    (b : Booking) : Option EventKey :=
  (request.notice (s.statusOf b.id) b).map
    (fun eventType => (b.id, b.version, eventType))

/-
  The keys of the events that the transitions from one cell
  to the other call for, each with the version afterwards.
-/
def Request.notices
    (request : Request)
    (s s' : Cell) : List EventKey :=
  s'.bookings.filterMap (request.noticeKey s)

variable {request : Request} {s s' t : Cell}

theorem Cell.Valid.statusOf_row
    (hCell : s.Valid)
    {b : Booking}
    (hRow : b ∈ s.bookings) :
    s.statusOf b.id = some b.status := by
  unfold Cell.statusOf
  cases hFind : s.bookings.find? (·.id = b.id) with
  | none =>
      have hNone := List.find?_eq_none.mp hFind b hRow
      simp at hNone
  | some b' =>
      have hId : b'.id = b.id := by
        simpa using List.find?_some hFind
      rw [hCell.bookings.ids.eq_of_key
        (List.mem_of_find?_eq_some hFind) hRow hId]
      rfl

theorem Cell.statusOf_none
    {bookingId : Uuid}
    (hFresh : ∀ b ∈ s.bookings, b.id ≠ bookingId) :
    s.statusOf bookingId = none := by
  unfold Cell.statusOf
  rw [List.find?_eq_none.mpr (by simpa using hFresh)]
  rfl

/- A booking that stays as it was calls for nothing. -/
theorem Request.notice_same
    (request : Request)
    (b : Booking) :
    request.notice (some b.status) b = none := by
  unfold Request.notice
  cases b.status <;> rfl

theorem Request.noticeKey_row
    (hCell : s.Valid)
    {b : Booking}
    (hRow : b ∈ s.bookings) :
    request.noticeKey s b = none := by
  unfold Request.noticeKey
  rw [hCell.statusOf_row hRow, request.notice_same b]
  rfl

theorem Request.mem_notices
    {key : EventKey} :
    key ∈ request.notices s t ↔
      ∃ b ∈ t.bookings, request.noticeKey s b = some key :=
  List.mem_filterMap

/- Each booking of a cell calls for one event at most. -/
theorem Request.notices_nodup
    (hCell : t.Valid) :
    (request.notices s t).Nodup := by
  unfold Request.notices
  apply List.Pairwise.filterMap _ _ hCell.bookings.ids
  intro b b' hNe key hKey key' hKey' hSame
  apply hNe
  unfold Request.noticeKey at hKey hKey'
  rcases Option.map_eq_some_iff.mp hKey with ⟨_, -, rfl⟩
  rcases Option.map_eq_some_iff.mp hKey' with ⟨_, -, rfl⟩
  exact congrArg Prod.fst hSame

end PigBook

------------------------------------------------------------
-- One Transition at a Time
------------------------------------------------------------

namespace PigBook

open ReadCommitted

/-
  On the way from the cell `s` a transaction has come to `t`:
  the events that it has appended are those that its
  transitions call for, and no key is there twice.
-/
structure Telling
    (request : Request)
    (s t : Cell) : Prop where
  valid : t.Valid
  recorded : t.Recorded
  once : (t.outbox.map OutboxEvent.eventKey).Nodup
  kept :
    ∀ b ∈ s.bookings, ∃ b' ∈ t.bookings, b'.id = b.id
  told :
    ∃ evs, t.outbox = s.outbox ++ evs ∧
      ∀ key, key ∈ evs.map OutboxEvent.eventKey ↔
        key ∈ request.notices s t

/- The event that is appended about a booking, if any. -/
def Appends
    (eventType : Option EventType)
    (b : Booking)
    (evs evs' : List OutboxEvent) : Prop :=
  match eventType with
  | none => evs' = evs
  | some eventType =>
      ∃ rid now id,
        evs' = evs ++ [eventOf rid eventType b now id]

variable {request : Request} {s t t' : Cell}
variable {rid : Uuid} {log : List (Action inventory)}

theorem Telling.refl
    (hCell : s.Valid)
    (hRecorded : s.Recorded)
    (hOnce : (s.outbox.map OutboxEvent.eventKey).Nodup) :
    Telling request s s where
  valid := hCell
  recorded := hRecorded
  once := hOnce
  kept := fun b hRow => ⟨b, hRow, rfl⟩
  told := by
    refine ⟨[], (List.append_nil _).symm, ?_⟩
    intro key
    simp only [List.map_nil, List.not_mem_nil, false_iff]
    intro hKey
    rcases Request.mem_notices.mp hKey with ⟨b, hRow, hSome⟩
    rw [Request.noticeKey_row hCell hRow] at hSome
    cases hSome

namespace Appends

variable {eventType : Option EventType} {b : Booking}
variable {evs evs' : List OutboxEvent}

/- The appended rows, with the keys that are new. -/
theorem rows
    (hAppends : Appends eventType b evs evs') :
    ∃ added, evs' = evs ++ added ∧
      (∀ ev ∈ added,
        ev.aggregateId = b.id ∧
          ev.aggregateVersion = b.version) ∧
      added.map OutboxEvent.eventKey =
        (eventType.map
          (fun eventType =>
            (b.id, b.version, eventType))).toList := by
  cases eventType with
  | none =>
      refine ⟨[], ?_, ?_, rfl⟩
      · rw [List.append_nil]
        exact hAppends
      · intro ev hEv
        cases hEv
  | some eventType =>
      rcases hAppends with ⟨rid, now, id, hRows⟩
      refine ⟨_, hRows, ?_, rfl⟩
      intro ev hEv
      rw [List.mem_singleton.mp hEv]
      exact ⟨rfl, rfl⟩

/- What an event after it is about. -/
theorem about
    (hAppends : Appends eventType b evs evs') :
    ∀ ev ∈ evs',
      ev ∈ evs ∨
        (ev.aggregateId = b.id ∧
          ev.aggregateVersion = b.version) := by
  rcases hAppends.rows with ⟨added, rfl, hAbout, -⟩
  intro ev hEv
  rcases List.mem_append.mp hEv with hOld | hNew
  · exact Or.inl hOld
  · exact Or.inr (hAbout ev hNew)

/- An event about a later version has a new key. -/
theorem once
    (hAppends : Appends eventType b evs evs')
    (hOnce : (evs.map OutboxEvent.eventKey).Nodup)
    (hLater :
      ∀ ev ∈ evs, ev.aggregateId = b.id →
        ev.aggregateVersion < b.version) :
    (evs'.map OutboxEvent.eventKey).Nodup := by
  rcases hAppends.rows with ⟨added, rfl, -, hKeys⟩
  rw [List.map_append, hKeys]
  refine List.nodup_append.mpr ⟨hOnce, ?_, ?_⟩
  · cases eventType <;> simp
  · rintro key hOld key' hNew rfl
    rcases List.mem_map.mp hOld with ⟨ev, hEv, rfl⟩
    rcases Option.map_eq_some_iff.mp
        (Option.mem_toList.mp hNew) with
      ⟨eventType, -, hKey⟩
    have hId := congrArg Prod.fst hKey
    have hVersion := congrArg (fun k => k.2.1) hKey
    have hLess := hLater ev hEv hId.symm
    change b.version = ev.aggregateVersion at hVersion
    omega

end Appends

/- The events of a transaction, and one more booking's. -/
theorem Telling.told_more
    (hTelling : Telling request s t)
    {b : Booking}
    (hAppends :
      Appends (request.notice (s.statusOf b.id) b) b t.outbox
        t'.outbox)
    (hNotices :
      ∀ key, key ∈ request.notices s t' ↔
        key ∈ request.notices s t ∨
          request.noticeKey s b = some key) :
    ∃ evs, t'.outbox = s.outbox ++ evs ∧
      ∀ key, key ∈ evs.map OutboxEvent.eventKey ↔
        key ∈ request.notices s t' := by
  rcases hTelling.told with ⟨evs, hOutbox, hKeys⟩
  rcases hAppends.rows with ⟨added, hRows, -, hAdded⟩
  refine ⟨evs ++ added, ?_, ?_⟩
  · rw [hRows, hOutbox, List.append_assoc]
  · intro key
    rw [List.map_append, List.mem_append, hKeys, hAdded,
      hNotices, Option.mem_toList]
    rfl

/- A booking that is still as it was takes its transition. -/
theorem Telling.change
    (hCell : s.Valid)
    (hTelling : Telling request s t)
    {b : Booking}
    (hBefore : b ∈ s.bookings)
    (hRow : b ∈ t.bookings)
    {f : Booking → Booking}
    (hId : (f b).id = b.id)
    (hVersion : (f b).version = b.version + 1)
    (hValid : t'.Valid)
    (hBookings :
      t'.bookings = updateWhere b.current f t.bookings)
    (hAppends :
      Appends (request.notice (some b.status) (f b)) (f b)
        t.outbox t'.outbox) :
    Telling request s t' where
  valid := hValid
  recorded :=
    hTelling.recorded.change hTelling.valid hRow hId hVersion
      hBookings hAppends.about
  once := by
    refine hAppends.once hTelling.once ?_
    rw [hId, hVersion]
    exact
      hTelling.recorded.before_next
        hTelling.valid.bookings.ids hRow
  kept := by
    intro x hx
    rcases hTelling.kept x hx with ⟨y, hy, hIdY⟩
    rcases hTelling.valid.booking_after hRow hId hy with
      ⟨z, hz, hIdZ, -⟩
    rw [hBookings]
    exact ⟨z, hz, hIdZ.trans hIdY⟩
  told := by
    have hStatus : s.statusOf (f b).id = some b.status := by
      rw [hId]
      exact hCell.statusOf_row hBefore
    refine hTelling.told_more (b := f b) ?_ ?_
    · rw [hStatus]
      exact hAppends
    · intro key
      rw [Request.mem_notices, Request.mem_notices, hBookings]
      constructor
      · rintro ⟨x, hx, hKey⟩
        rcases (hTelling.valid.mem_setBooking hRow).mp hx with
          rfl | ⟨hOld, -⟩
        · exact Or.inr hKey
        · exact Or.inl ⟨x, hOld, hKey⟩
      · rintro (⟨x, hx, hKey⟩ | hKey)
        · -- the booking itself has called for nothing yet
          have hNe : x.id ≠ b.id := by
            intro hSame
            rw [hTelling.valid.bookings.ids.eq_of_key hx hRow
              hSame, Request.noticeKey_row hCell hBefore]
              at hKey
            cases hKey
          exact
            ⟨x, (hTelling.valid.mem_setBooking hRow).mpr
              (Or.inr ⟨hx, hNe⟩), hKey⟩
        · exact
            ⟨f b, (hTelling.valid.mem_setBooking hRow).mpr
              (Or.inl rfl), hKey⟩

/- A new booking. -/
theorem Telling.add
    (hTelling : Telling request s t)
    {b : Booking}
    (hFresh : ∀ x ∈ t.bookings, x.id ≠ b.id)
    (hValid : t'.Valid)
    (hBookings : t'.bookings = t.bookings ++ [b])
    (hAppends :
      Appends (request.notice none b) b t.outbox t'.outbox) :
    Telling request s t' where
  valid := hValid
  recorded := hTelling.recorded.add hBookings hAppends.about
  once :=
    hAppends.once hTelling.once
      (hTelling.valid.before_first hFresh b.version)
  kept := by
    intro x hx
    rcases hTelling.kept x hx with ⟨y, hy, hId⟩
    rw [hBookings]
    exact ⟨y, List.mem_append_left _ hy, hId⟩
  told := by
    have hNone : s.statusOf b.id = none := by
      apply Cell.statusOf_none
      intro x hx hSame
      rcases hTelling.kept x hx with ⟨y, hy, hId⟩
      exact hFresh y hy (hId.trans hSame)
    refine hTelling.told_more (b := b) ?_ ?_
    · rw [hNone]
      exact hAppends
    · intro key
      rw [Request.mem_notices, Request.mem_notices, hBookings]
      constructor
      · rintro ⟨x, hx, hKey⟩
        rcases List.mem_append.mp hx with hOld | hNew
        · exact Or.inl ⟨x, hOld, hKey⟩
        · rw [List.mem_singleton.mp hNew] at hKey
          exact Or.inr hKey
      · rintro (⟨x, hx, hKey⟩ | hKey)
        · exact ⟨x, List.mem_append_left _ hx, hKey⟩
        · exact
            ⟨b, List.mem_append_right _
              (List.mem_singleton_self b), hKey⟩

/- A change of neither bookings nor events. -/
theorem Telling.same
    (hTelling : Telling request s t)
    (hValid : t'.Valid)
    (hBookings : t'.bookings = t.bookings)
    (hOutbox : t'.outbox = t.outbox) :
    Telling request s t' where
  valid := hValid
  recorded := by
    unfold Cell.Recorded
    rw [hBookings, hOutbox]
    exact hTelling.recorded
  once := by
    rw [hOutbox]
    exact hTelling.once
  kept := by
    rw [hBookings]
    exact hTelling.kept
  told := by
    unfold Request.notices
    rw [hBookings, hOutbox]
    exact hTelling.told

/- The promotion tells of each booking that it offers. -/
theorem Telling.promote
    (hTelling : Telling request s t)
    {vs : List (WaitlistEntry × Sample)}
    (hVisits : Visits rid t vs) :
    Telling request s (promoteFold rid t vs) := by
  refine hVisits.induction ?_ hTelling
  intro u visit hNow hVisit
  have hValid : (promoteStep rid u visit).Valid :=
    hVisit.valid hNow.valid
  by_cases hLapses : visit.2.Lapses visit.1
  · refine hNow.same hValid ?_ ?_
    · unfold promoteStep
      rw [if_pos hLapses]
      rfl
    · unfold promoteStep
      rw [if_pos hLapses]
      rfl
  · by_cases hOccupied : u.Occupied visit.1.timeRange
    · refine hNow.same hValid ?_ ?_
      · unfold promoteStep
        rw [if_neg hLapses, if_pos hOccupied]
      · unfold promoteStep
        rw [if_neg hLapses, if_pos hOccupied]
    · have hFresh := hVisit.fresh
      unfold offeredInStep at hFresh
      rw [if_neg (not_or.mpr ⟨hLapses, hOccupied⟩)] at hFresh
      refine
        hNow.add (b := visit.2.booking visit.1)
          (hFresh visit.2.bookingId
            (List.mem_singleton.mpr rfl)) hValid ?_ ?_
      · unfold promoteStep
        rw [if_neg hLapses, if_neg hOccupied]
        rfl
      · unfold promoteStep
        rw [if_neg hLapses, if_neg hOccupied]
        exact ⟨rid, _, _, rfl⟩

end PigBook

------------------------------------------------------------
-- The Events of Each Request
------------------------------------------------------------

namespace PigBook

open ReadCommitted

variable {request : Request} {s s' t : Cell}
variable {rid : Uuid} {log : List (Action inventory)}

/- Overdue holds expire, each with its event. -/
theorem Telling.expiries
    (hCell : s.Consistent)
    (hTelling : Telling request s s)
    (hExpiries :
      Relation.ReflTransGen (Expiry rid log) s t) :
    Telling request s t := by
  induction hExpiries with
  | refl => exact hTelling
  | @tail t u hBefore hExpiry ih =>
      have hMiddle :=
        (Release.expire hBefore).consistent hCell
      have hValid := (hExpiry.consistent hMiddle).toValid
      cases hExpiry with
      | @intro e b now id hHold hSampled hLate =>
          -- a booking that is still offered is as it was
          have hWas : b ∈ s.bookings := by
            rcases
              (expiries_grow hCell hBefore).1.origin
                hHold.rowB with
              ⟨b₀, hRow₀, rfl | ⟨-, -, -, hGone⟩⟩ | hNew
            · exact hRow₀
            · rw [hHold.activeB] at hGone
              cases hGone
            · exact hNew.elim
          refine
            ih.change (f := .transition .expired now)
              hCell.toValid hWas hHold.rowB rfl rfl hValid
              rfl ?_
          rw [hHold.holds.offered]
          exact ⟨rid, now, id, rfl⟩

/- The transition of a hold that the request closes. -/
theorem Telling.close
    (hCell : s.Consistent)
    (hTelling : Telling request s s)
    {e : WaitlistEntry}
    {b : Booking}
    (hHold : Hold s e b)
    {f : Booking → Booking}
    (hId : (f b).id = b.id)
    (hVersion : (f b).version = b.version + 1)
    (hValid : t.Valid)
    (hBookings :
      t.bookings = updateWhere b.current f s.bookings)
    (hAppends :
      Appends (request.notice (some .offered) (f b)) (f b)
        s.outbox t.outbox) :
    Telling request s t := by
  refine
    hTelling.change hCell.toValid hHold.rowB hHold.rowB hId
      hVersion hValid hBookings ?_
  rw [hHold.holds.offered]
  exact hAppends

theorem Cancellation.telling
    (hCell : s.Consistent)
    {scope : Scope}
    {bookingId : Uuid}
    {expectedVersion : ℕ}
    {reason : String}
    {b : Booking}
    (hTelling :
      Telling
        (.cancelBooking scope bookingId expectedVersion
          reason) s s)
    (hRow : b ∈ s.bookings)
    (hKind : b.kind = .reservation)
    (hCancellation : Cancellation rid b reason s t) :
    Telling
      (.cancelBooking scope bookingId expectedVersion
        reason) s t := by
  have hRelease : Release rid [] s t :=
    hCancellation.release hRow hKind
  have hValid := (hRelease.consistent hCell).toValid
  cases hCancellation with
  | @hold e now id as hHold hCheck =>
      exact
        hTelling.close (f := .cancel reason now) hCell hHold
          rfl rfl hValid rfl ⟨rid, now, id, rfl⟩
  | @confirmed now id as hStatus hCheck =>
      refine
        hTelling.change (f := .cancel reason now)
          hCell.toValid hRow hRow rfl rfl hValid rfl ?_
      have hCalls :
          (Request.cancelBooking scope bookingId
            expectedVersion reason).notice (some b.status)
              (b.cancel reason now) =
            some .bookingCancelled := by
        simp [Request.notice, hStatus, hKind, Booking.cancel,
          Booking.transition]
      rw [hCalls]
      exact ⟨rid, now, id, rfl⟩

/-
  Each request appends exactly the events that the
  transitions of its bookings call for.
-/
theorem Effect.telling
    (hCell : s.Consistent)
    (hRecorded : s.Recorded)
    (hOnce : (s.outbox.map OutboxEvent.eventKey).Nodup)
    (hEffect : Effect rid log s request s') :
    Telling request s s' := by
  have hStart : ∀ request : Request, Telling request s s :=
    fun _ => .refl hCell.toValid hRecorded hOnce
  cases hEffect with
  | notBooked | notBlocked | alreadyCancelled
  | alreadyUnblocked | alreadyWithdrawn | skipped =>
      exact hStart _
  | @booked scope startsAt endsAt r b now id hResource
      hActive hNew hKind hStatus hVersion =>
      have hGain :
          Gain rid log s
            ((s.addBooking b).addEvent
              (eventOf rid .bookingConfirmed b now id)) :=
        .reserve hResource hActive hNew hKind hStatus hVersion
      refine
        (hStart _).add
          (bookingViolation_eq_none_iff.mp hNew).1.2.1
          (hGain.consistent hCell).toValid rfl ?_
      simp only [Request.notice, hStatus, hKind, if_true]
      exact ⟨rid, now, id, rfl⟩
  | @blocked scope startsAt endsAt r b a hResource hActive
      hNew hKind hStatus hVersion =>
      have hGain :
          Gain rid log s ((s.addBooking b).addAudit a) :=
        .blackout hResource hActive hNew hKind hStatus
          hVersion
      refine
        (hStart _).add
          (bookingViolation_eq_none_iff.mp hNew).1.2.1
          (hGain.consistent hCell).toValid rfl ?_
      simp only [Request.notice, hStatus, hKind,
        reduceCtorEq, if_false]
      rfl
  | cancelled hRow hKind hPromoted =>
      cases hPromoted with
      | intro hDone hLength hVisits hAsked =>
          exact
            (hDone.telling hCell (hStart _) hRow
              hKind).promote hVisits
  | @unblocked scope b s' hRow hKind hStatus hPromoted =>
      cases hPromoted with
      | intro hDone hLength hVisits hAsked =>
          have hRelease : Release rid log s _ :=
            hDone.release hRow hKind hStatus
          have hValid := (hRelease.consistent hCell).toValid
          rcases hDone with ⟨now, a, rfl⟩
          refine
            Telling.promote
              ((hStart _).change hCell.toValid hRow hRow
                (f := fun b' =>
                  { b' with
                    status := .cancelled
                    version := b'.version + 1
                    updatedAt := now })
                rfl rfl hValid rfl ?_) hVisits
          simp only [Request.notice, hStatus, hKind,
            reduceCtorEq, if_false]
          rfl
  | @joined scope startsAt endsAt r e hResource hActive hNew
      hStatus hLink hVersion hOccupied hRoom =>
      have hGain : Gain rid log s _ :=
        .enqueue hResource hActive hNew hStatus hLink
          hVersion hOccupied hRoom
      exact
        (hStart _).same (hGain.consistent hCell).toValid rfl
          rfl
  | @accepted scope e b now id hHold hSampled hEarly =>
      have hGain :
          Gain rid log s (s.afterAcceptance rid e b now id) :=
        .accept hHold hSampled hEarly
      exact
        (hStart _).close (f := .transition .confirmed now)
          hCell hHold rfl rfl (hGain.consistent hCell).toValid
          rfl ⟨rid, now, id, rfl⟩
  | @tooLate scope e b now id s' hHold hSampled hLate
      hPromoted =>
      cases hPromoted with
      | intro hDone hLength hVisits hAsked =>
          have hExpiry :
              Expiry rid log s (s.afterExpiry rid e b now id) :=
            .intro hHold (hSampled.mono (by simp)) hLate
          have hValid := (hExpiry.consistent hCell).toValid
          have hTold :
              Telling
                (.acceptOffer scope e.id e.version) s
                (s.afterExpiry rid e b now id) :=
            (hStart _).close (f := .transition .expired now)
              hCell hHold rfl rfl hValid rfl
              ⟨rid, now, id, rfl⟩
          subst hDone
          exact hTold.promote hVisits
  | @withdrawn scope e now hRow hWaiting =>
      have hGain :
          Gain rid log s
            (s.setEntries e.current
              (.transition .cancelled now)) :=
        .withdraw hRow hWaiting
      exact
        (hStart _).same (hGain.consistent hCell).toValid rfl
          rfl
  | @declined scope e b s' hHold hPromoted =>
      cases hPromoted with
      | intro hDone hLength hVisits hAsked =>
          have hRelease : Release rid log s _ :=
            hDone.release hHold
          have hValid := (hRelease.consistent hCell).toValid
          rcases hDone with ⟨now, rfl⟩
          refine Telling.promote ?_ hVisits
          exact
            (hStart _).close (f := .transition .cancelled now)
              hCell hHold rfl rfl hValid rfl rfl
  | expired hPromoted =>
      cases hPromoted with
      | intro hDone hLength hVisits hAsked =>
          exact
            ((hStart _).expiries hCell hDone).promote hVisits
  | @patched scope patch r a now hResource hSampled hUnused =>
      exact
        (hStart _).same
          ((hCell.setResource _).addAudit rfl a).toValid rfl
          rfl
  | @archived scope r a now hResource hSampled hUnused =>
      exact
        (hStart _).same
          ((hCell.setResource _).addAudit rfl a).toValid rfl
          rfl

end PigBook

------------------------------------------------------------
-- The Outbox over Whole Runs
------------------------------------------------------------

namespace PigBook

open ReadCommitted

variable {request : Request} {s t : Cell}
variable {c : InventoryCommit} {rid : Uuid}

/- The new keys are those that the transitions call for. -/
theorem Telling.perm
    (hTelling : Telling request s t) :
    (t.outbox.map OutboxEvent.eventKey).Perm
      (s.outbox.map OutboxEvent.eventKey ++
        request.notices s t) := by
  rcases hTelling.told with ⟨evs, hOutbox, hKeys⟩
  have hOnce := hTelling.once
  rw [hOutbox, List.map_append] at hOnce ⊢
  refine List.Perm.append_left _ ?_
  exact
    (List.perm_ext_iff_of_nodup
      (List.nodup_append.mp hOnce).2.1
      (Request.notices_nodup hTelling.valid)).mpr hKeys

/- A committed request tells what it does to any cell. -/
theorem CommitOf.telling
    (hCommit : CommitOf c rid request)
    (hCells : ∀ i, (c.before i).Consistent)
    (hRecorded : ∀ i, (c.before i).Recorded)
    (hOnce :
      ∀ i,
        ((c.before i).outbox.map
          OutboxEvent.eventKey).Nodup)
    (i : Uuid) :
    Telling request (c.before i) (c.after i) := by
  by_cases hSame : i = rid
  · subst hSame
    exact
      (hCommit.effect (hCells i)).telling (hCells i)
        (hRecorded i) (hOnce i)
  · rw [hCommit.other i hSame]
    exact .refl (hCells i).toValid (hRecorded i) (hOnce i)

/- The request explains the commit. -/
def Explains (c : InventoryCommit) (request : Request) :
    Prop :=
  ∃ rid, CommitOf c rid request

/-
  The keys that the transitions of the bookings of a resource
  have called for, over a history with its requests.
-/
def toldBy (rid : Uuid) :
    List InventoryCommit → List Request → List EventKey
| c :: hist, request :: requests =>
    toldBy rid hist requests ++
      request.notices (c.before rid) (c.after rid)
| _, _ => []

/-
  The store is what the latest commit has left, and each
  commit has begun with what the one before it left.
-/
def Chained (initial : Uuid → Cell) :
    (Uuid → Cell) → List InventoryCommit → Prop
| db, [] => db = initial
| db, c :: hist => db = c.after ∧ Chained initial c.before hist

/- What is known of the outbox after every commit. -/
structure OutboxExact
    (initial : Uuid → Cell)
    (db : Uuid → Cell)
    (hist : List InventoryCommit) : Prop where
  recorded : ∀ rid, (db rid).Recorded
  once :
    ∀ rid,
      ((db rid).outbox.map OutboxEvent.eventKey).Nodup
  explained : ∃ requests, List.Forall₂ Explains hist requests
  told :
    ∀ requests, List.Forall₂ Explains hist requests →
      ∀ rid,
        ((db rid).outbox.map OutboxEvent.eventKey).Perm
          (toldBy rid hist requests)
  chained : Chained initial db hist

theorem OutboxExact.start
    (users : List Uuid)
    (resources : Uuid → Option Resource) :
    OutboxExact
      (fun rid => Cell.opening users (resources rid))
      (fun rid => Cell.opening users (resources rid))
      [] where
  recorded := fun rid ev hEv => by cases hEv
  once := fun rid => List.nodup_nil
  explained := ⟨[], .nil⟩
  told := by
    intro requests hExplains rid
    cases hExplains
    exact .refl _
  chained := rfl

theorem OutboxExact.commit
    {initial : Uuid → Cell}
    {hist : List InventoryCommit}
    (hExact : OutboxExact initial c.before hist)
    (hCommit : CommitOf c rid request)
    (hCells : ∀ i, (c.before i).Consistent) :
    OutboxExact initial c.after (c :: hist) where
  recorded := fun i =>
    (hCommit.telling hCells hExact.recorded hExact.once
      i).recorded
  once := fun i =>
    (hCommit.telling hCells hExact.recorded hExact.once i).once
  explained := by
    rcases hExact.explained with ⟨requests, hExplains⟩
    exact ⟨request :: requests, .cons ⟨rid, hCommit⟩ hExplains⟩
  told := by
    intro requests hExplains i
    cases hExplains with
    | @cons _ request' _ requests hHead hTail =>
        rcases hHead with ⟨rid', hCommit'⟩
        refine
          (hCommit'.telling hCells hExact.recorded hExact.once
            i).perm.trans ?_
        exact
          (hExact.told requests hTail i).append_right _
  chained := ⟨rfl, hExact.chained⟩

theorem AdmittedRun.outboxExact
    {X : Circumstances}
    {resources : Uuid → Option Resource}
    {env : Surroundings}
    {s : Sys X.world (Uuid → Cell) Reply}
    (hRun : AdmittedRun X resources env s) :
    OutboxExact
      (fun rid => Cell.opening X.users (resources rid))
      s.db (commits s.trace) := by
  have hAll :=
    hRun.commit_induction
      (OutboxExact
        (fun rid => Cell.opening X.users (resources rid)))
      (.start X.users resources)
      (fun _ _ _ _ hCommit _ hCells hExact =>
        hExact.commit hCommit hCells)
  exact hAll.2

/- No client runs into the unique key of the outbox. -/
theorem AdmittedRun.outboxKey_kept
    {X : Circumstances}
    {resources : Uuid → Option Resource}
    {env : Surroundings}
    {s : Sys X.world (Uuid → Cell) Reply}
    (hRun : AdmittedRun X resources env s)
    (pid : ℕ)
    (pr : Proc inventory (Uuid → Cell) Reply)
    (hProc : s.procs pid = some pr) :
    pr.prog ≠
      .fail (.integrityError .outboxAggregateKey) := by
  intro hProg
  rcases hRun.started hProc with
    ⟨rid, request, hAdmitted, hStart⟩
  rcases hRun.lawfully hProc hAdmitted hStart with
    ⟨p', w, hRunning, hLawfully⟩
  rw [hRunning.prog] at hProg
  cases p' with
  | fail e =>
      cases hProg
      exact (hLawfully .outboxAggregateKey rfl).1 rfl
  | _ => simp [Prog.atCell] at hProg

end PigBook
