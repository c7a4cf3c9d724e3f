import PigBook.Inventory.Fifo
import PigBook.Inventory.Operations

/-
  What a committed transaction does to a cell.

  A transaction either leaves the cell alone, or makes one
  change that frees no window, or frees windows and then
  promotes the queue.

  Key definitions include:
    * `SampledUnder`
    * `Cell.close`
    * `Gain`, `Expiry`, `Release`
    * `Outcome`
    * `Effect`

  Key theorems include:
    * `Effect.outcome`
    * `Outcome.consistent`
    * `Outcome.settled`
-/

------------------------------------------------------------
-- Evidence in a Log
------------------------------------------------------------

namespace PigBook

open ReadCommitted

/-
  The log samples the clock at `t` once it holds the keys.
-/
def SampledUnder
    (log : List (Action inventory))
    (keys : List Key)
    (t : ℤ) : Prop :=
  ∃ before after : List (Action inventory),
    log = before ++ ⟨.clock, t, []⟩ :: after ∧
      ∀ k ∈ keys, k ∈ held before

theorem SampledUnder.extend
    {log : List (Action inventory)}
    {keys : List Key}
    {t : ℤ}
    (hSampled : SampledUnder log keys t)
    (rest : List (Action inventory)) :
    SampledUnder (log ++ rest) keys t := by
  rcases hSampled with ⟨before, after, rfl, hHeld⟩
  exact ⟨before, after ++ rest, by simp, hHeld⟩

theorem SampledUnder.mono
    {log : List (Action inventory)}
    {keys keys' : List Key}
    {t : ℤ}
    (hSampled : SampledUnder log keys t)
    (hSubset : keys' ⊆ keys) :
    SampledUnder log keys' t := by
  rcases hSampled with ⟨before, after, hLog, hHeld⟩
  exact ⟨before, after, hLog,
    fun k hKey => hHeld k (hSubset hKey)⟩

/- A sample at the end of the log so far. -/
theorem SampledUnder.last
    {log : List (Action inventory)}
    {keys : List Key}
    {t : ℤ}
    (hHeld : ∀ k ∈ keys, k ∈ held log) :
    SampledUnder (log ++ [⟨.clock, t, []⟩]) keys t :=
  ⟨log, [], rfl, hHeld⟩

end PigBook

------------------------------------------------------------
-- Effects
------------------------------------------------------------

namespace PigBook

open ReadCommitted

/- The two rows of a hold change together. -/
def Cell.close
    (e : WaitlistEntry)
    (b : Booking)
    (f : Booking → Booking)
    (status : EntryStatus)
    (now : ℤ)
    (s : Cell) : Cell :=
  (s.setBookings b.current f).setEntries e.current
    (.transition status now)

/- An offered entry and the booking that is held for it. -/
structure Hold
    (s : Cell)
    (e : WaitlistEntry)
    (b : Booking) : Prop where
  row : e ∈ s.entries
  status : e.status = .offered
  rowB : b ∈ s.bookings
  holds : e.Holds b

variable (rid : Uuid) (log : List (Action inventory))

/- A change that frees no window. -/
inductive Gain (s : Cell) : Cell → Prop
  | reserve
      {r : Resource} {b : Booking} {now : ℤ} {id : Uuid}
      (hResource : s.resource = some r)
      (hActive : r.active = true)
      (hNew : s.bookingViolation b = none)
      (hKind : b.kind = .reservation)
      (hStatus : b.status = .confirmed)
      (hVersion : b.version = 1) :
      Gain s
        ((s.addBooking b).addEvent
          (eventOf rid .bookingConfirmed b now id))
  | blackout
      {r : Resource} {b : Booking} {a : AuditRecord}
      (hResource : s.resource = some r)
      (hActive : r.active = true)
      (hNew : s.bookingViolation b = none)
      (hKind : b.kind = .blackout)
      (hStatus : b.status = .confirmed)
      (hVersion : b.version = 1) :
      Gain s ((s.addBooking b).addAudit a)
  | enqueue
      {r : Resource} {e : WaitlistEntry}
      (hResource : s.resource = some r)
      (hActive : r.active = true)
      (hNew : s.entryViolation e = none)
      (hStatus : e.status = .waiting)
      (hLink : e.offeredBookingId = none)
      (hVersion : e.version = 1)
      (hOccupied : s.Occupied e.timeRange)
      (hRoom :
        (s.entries.filter (·.status.active)).length <
          waitlistCapacity) :
      Gain s (s.addEntry e)
  | withdraw
      {e : WaitlistEntry} {now : ℤ}
      (hRow : e ∈ s.entries)
      (hWaiting : e.status = .waiting) :
      Gain s
        (s.setEntries e.current (.transition .cancelled now))
  | accept
      {e : WaitlistEntry} {b : Booking} {now : ℤ} {id : Uuid}
      (hHold : Hold s e b)
      (hSampled :
        SampledUnder log
          [.resourceUpdate rid, .entryUpdate e.id,
            .bookingUpdate b.id] now)
      (hEarly : ∀ deadline ∈ b.expiresAt, now < deadline) :
      Gain s
        ((s.close e b (.transition .confirmed now)
            .accepted now).addEvent
          (eventOf rid .bookingConfirmed
            (b.transition .confirmed now) now id))
  | patch
      {r r' : Resource} {a : AuditRecord} {now : ℤ}
      (hResource : s.resource = some r)
      (hVersion : r'.version = r.version + 1)
      (hSampled : SampledUnder log [.resourceUpdate rid] now)
      (hUnused :
        r.active = true → r'.active = false →
          (∀ b ∈ s.bookings, b.status.active = true →
            b.timeRange.upper ≤ now) ∧
          ∀ e ∈ s.entries, e.status ≠ .waiting) :
      Gain s ((s.setResource r').addAudit a)

/- An overdue hold expires with its entry. -/
inductive Expiry (s : Cell) : Cell → Prop
  | intro
      {e : WaitlistEntry} {b : Booking} {now : ℤ} {id : Uuid}
      (hHold : Hold s e b)
      (hSampled : SampledUnder log [.resourceUpdate rid] now)
      (hLate : ∀ deadline ∈ b.expiresAt, deadline ≤ now) :
      Expiry s
        ((s.close e b (.transition .expired now)
            .expired now).addEvent
          (eventOf rid .holdExpired
            (b.transition .expired now) now id))

/- A change that may free windows. -/
inductive Release (s : Cell) : Cell → Prop
  | expire
      {s' : Cell}
      (hExpiries :
        Relation.ReflTransGen (Expiry rid log) s s') :
      Release s s'
  | decline
      {e : WaitlistEntry} {b : Booking} {now : ℤ}
      (hHold : Hold s e b) :
      Release s
        (s.close e b (.transition .cancelled now)
          .cancelled now)
  | cancelHold
      {e : WaitlistEntry} {b : Booking} {reason : String}
      {now : ℤ} {id : Uuid} {as : List AuditRecord}
      (hHold : Hold s e b)
      (hCheck : (b.cancel reason now).Check) :
      Release s
        (((s.close e b (.cancel reason now)
            .cancelled now).addEvent
          (eventOf rid .bookingCancelled
            (b.cancel reason now) now id)).addAudits as)
  | cancelConfirmed
      {b : Booking} {reason : String}
      {now : ℤ} {id : Uuid} {as : List AuditRecord}
      (hRow : b ∈ s.bookings)
      (hKind : b.kind = .reservation)
      (hStatus : b.status = .confirmed)
      (hCheck : (b.cancel reason now).Check) :
      Release s
        (((s.setBookings b.current
            (.cancel reason now)).addEvent
          (eventOf rid .bookingCancelled
            (b.cancel reason now) now id)).addAudits as)
  | cancelBlackout
      {b : Booking} {now : ℤ} {a : AuditRecord}
      (hRow : b ∈ s.bookings)
      (hKind : b.kind = .blackout)
      (hStatus : b.status = .confirmed) :
      Release s
        ((s.setBookings b.current (fun b' =>
          { b' with
            status := .cancelled
            version := b'.version + 1
            updatedAt := now })).addAudit a)

/- A change with the pass over the queue that follows it. -/
inductive Promoted
    (change : Cell → Cell → Prop)
    (s : Cell) : Cell → Prop
  | intro
      {s' : Cell} {xs : List Sample}
      (hChange : change s s')
      (hLength : xs.length = s'.queue.length)
      (hVisits : Visits rid s' (s'.queue.zip xs))
      (hAsked :
        askedInFold rid s' (s'.queue.zip xs) <:+
          asked log) :
      Promoted change s
        (promoteFold rid s' (s'.queue.zip xs))

theorem Expiry.extend
    {rid : Uuid}
    {log : List (Action inventory)}
    {s s' : Cell}
    (hExpiry : Expiry rid log s s')
    (rest : List (Action inventory)) :
    Expiry rid (log ++ rest) s s' := by
  cases hExpiry with
  | intro hHold hSampled hLate =>
      exact .intro hHold (hSampled.extend rest) hLate

/- What a transaction does to its cell when it commits. -/
inductive Outcome (s : Cell) : Cell → Prop
  | quiet : Outcome s s
  | gain
      {s' : Cell}
      (hGain : Gain rid log s s') :
      Outcome s s'
  | release
      {s' : Cell}
      (hPromoted : Promoted rid log (Release rid log) s s') :
      Outcome s s'

end PigBook

------------------------------------------------------------
-- Effects of Each Request
------------------------------------------------------------

namespace PigBook

open ReadCommitted

/- The cell in which an overdue hold has just expired. -/
def Cell.afterExpiry
    (rid : Uuid)
    (e : WaitlistEntry)
    (b : Booking)
    (now : ℤ)
    (eventId : Uuid)
    (s : Cell) : Cell :=
  (s.close e b (.transition .expired now)
      .expired now).addEvent
    (eventOf rid .holdExpired (b.transition .expired now) now
      eventId)

/- The cell in which an offer has just been accepted. -/
def Cell.afterAcceptance
    (rid : Uuid)
    (e : WaitlistEntry)
    (b : Booking)
    (now : ℤ)
    (eventId : Uuid)
    (s : Cell) : Cell :=
  (s.close e b (.transition .confirmed now)
      .accepted now).addEvent
    (eventOf rid .bookingConfirmed
      (b.transition .confirmed now) now eventId)

/- A booking is cancelled with an event about it. -/
inductive Cancellation
    (rid : Uuid)
    (b : Booking)
    (reason : String)
    (s : Cell) : Cell → Prop
  | hold
      {e : WaitlistEntry} {now : ℤ} {id : Uuid}
      {as : List AuditRecord}
      (hHold : Hold s e b)
      (hCheck : (b.cancel reason now).Check) :
      Cancellation rid b reason s
        (((s.close e b (.cancel reason now)
            .cancelled now).addEvent
          (eventOf rid .bookingCancelled
            (b.cancel reason now) now id)).addAudits as)
  | confirmed
      {now : ℤ} {id : Uuid} {as : List AuditRecord}
      (hStatus : b.status = .confirmed)
      (hCheck : (b.cancel reason now).Check) :
      Cancellation rid b reason s
        (((s.setBookings b.current
            (.cancel reason now)).addEvent
          (eventOf rid .bookingCancelled
            (b.cancel reason now) now id)).addAudits as)

/- A blackout is cancelled without an event. -/
def BlackoutEnd (b : Booking) (s t : Cell) : Prop :=
  ∃ now a,
    t = (s.setBookings b.current (fun b' =>
      { b' with
        status := .cancelled
        version := b'.version + 1
        updatedAt := now })).addAudit a

/- An offer is declined without an event. -/
def Withdrawal
    (e : WaitlistEntry)
    (b : Booking)
    (s t : Cell) : Prop :=
  ∃ now,
    t = s.close e b (.transition .cancelled now)
      .cancelled now

/-
  What each request does to its cell when it commits.  A
  request that is pinned to a version names the version of
  the row that it found.
-/
inductive Effect
    (rid : Uuid)
    (log : List (Action inventory))
    (s : Cell) : Request → Cell → Prop
  | notBooked
      {scope : Scope} {startsAt endsAt : Datetime} :
      Effect rid log s
        (.createBooking scope startsAt endsAt) s
  | booked
      {scope : Scope} {startsAt endsAt : Datetime}
      {r : Resource} {b : Booking} {now : ℤ} {id : Uuid}
      (hResource : s.resource = some r)
      (hActive : r.active = true)
      (hNew : s.bookingViolation b = none)
      (hKind : b.kind = .reservation)
      (hStatus : b.status = .confirmed)
      (hVersion : b.version = 1) :
      Effect rid log s
        (.createBooking scope startsAt endsAt)
        ((s.addBooking b).addEvent
          (eventOf rid .bookingConfirmed b now id))
  | notBlocked
      {scope : Scope} {startsAt endsAt : Datetime} :
      Effect rid log s
        (.createBlackout scope startsAt endsAt) s
  | blocked
      {scope : Scope} {startsAt endsAt : Datetime}
      {r : Resource} {b : Booking} {a : AuditRecord}
      (hResource : s.resource = some r)
      (hActive : r.active = true)
      (hNew : s.bookingViolation b = none)
      (hKind : b.kind = .blackout)
      (hStatus : b.status = .confirmed)
      (hVersion : b.version = 1) :
      Effect rid log s
        (.createBlackout scope startsAt endsAt)
        ((s.addBooking b).addAudit a)
  | alreadyCancelled
      {scope : Scope} {bookingId : Uuid}
      {expectedVersion : ℕ} {reason : String} :
      Effect rid log s
        (.cancelBooking scope bookingId expectedVersion
          reason) s
  | cancelled
      {scope : Scope} {b : Booking} {reason : String}
      {s' : Cell}
      (hRow : b ∈ s.bookings)
      (hKind : b.kind = .reservation)
      (hPromoted :
        Promoted rid log (Cancellation rid b reason) s s') :
      Effect rid log s
        (.cancelBooking scope b.id b.version reason) s'
  | alreadyUnblocked
      {scope : Scope} {blackoutId : Uuid}
      {expectedVersion : ℕ} :
      Effect rid log s
        (.cancelBlackout scope blackoutId expectedVersion) s
  | unblocked
      {scope : Scope} {b : Booking} {s' : Cell}
      (hRow : b ∈ s.bookings)
      (hKind : b.kind = .blackout)
      (hStatus : b.status = .confirmed)
      (hPromoted : Promoted rid log (BlackoutEnd b) s s') :
      Effect rid log s
        (.cancelBlackout scope b.id b.version) s'
  | joined
      {scope : Scope} {startsAt endsAt : Datetime}
      {r : Resource} {e : WaitlistEntry}
      (hResource : s.resource = some r)
      (hActive : r.active = true)
      (hNew : s.entryViolation e = none)
      (hStatus : e.status = .waiting)
      (hLink : e.offeredBookingId = none)
      (hVersion : e.version = 1)
      (hOccupied : s.Occupied e.timeRange)
      (hRoom :
        (s.entries.filter (·.status.active)).length <
          waitlistCapacity) :
      Effect rid log s (.joinWaitlist scope startsAt endsAt)
        (s.addEntry e)
  | accepted
      {scope : Scope} {e : WaitlistEntry} {b : Booking}
      {now : ℤ} {id : Uuid}
      (hHold : Hold s e b)
      (hSampled :
        SampledUnder log
          [.resourceUpdate rid, .entryUpdate e.id,
            .bookingUpdate b.id] now)
      (hEarly : ∀ deadline ∈ b.expiresAt, now < deadline) :
      Effect rid log s (.acceptOffer scope e.id e.version)
        (s.afterAcceptance rid e b now id)
  | tooLate
      {scope : Scope} {e : WaitlistEntry} {b : Booking}
      {now : ℤ} {id : Uuid} {s' : Cell}
      (hHold : Hold s e b)
      (hSampled :
        SampledUnder log
          [.resourceUpdate rid, .entryUpdate e.id,
            .bookingUpdate b.id] now)
      (hLate : ∀ deadline ∈ b.expiresAt, deadline ≤ now)
      (hPromoted :
        Promoted rid log
          (fun s t => t = s.afterExpiry rid e b now id)
          s s') :
      Effect rid log s (.acceptOffer scope e.id e.version) s'
  | alreadyWithdrawn
      {scope : Scope} {entryId : Uuid}
      {expectedVersion : ℕ} :
      Effect rid log s
        (.declineEntry scope entryId expectedVersion) s
  | withdrawn
      {scope : Scope} {e : WaitlistEntry} {now : ℤ}
      (hRow : e ∈ s.entries)
      (hWaiting : e.status = .waiting) :
      Effect rid log s (.declineEntry scope e.id e.version)
        (s.setEntries e.current (.transition .cancelled now))
  | declined
      {scope : Scope} {e : WaitlistEntry} {b : Booking}
      {s' : Cell}
      (hHold : Hold s e b)
      (hPromoted : Promoted rid log (Withdrawal e b) s s') :
      Effect rid log s (.declineEntry scope e.id e.version)
        s'
  | skipped :
      Effect rid log s .expireAndPromote s
  | expired
      {s' : Cell}
      (hPromoted :
        Promoted rid log
          (Relation.ReflTransGen (Expiry rid log)) s s') :
      Effect rid log s .expireAndPromote s'
  | patched
      {scope : Scope} {patch : ResourcePatch}
      {r : Resource} {a : AuditRecord} {now : ℤ}
      (hResource : s.resource = some r)
      (hSampled : SampledUnder log [.resourceUpdate rid] now)
      (hUnused :
        patch.active = some false → r.active = true →
          (∀ b ∈ s.bookings, b.status.active = true →
            b.timeRange.upper ≤ now) ∧
          ∀ e ∈ s.entries, e.status ≠ .waiting) :
      Effect rid log s
        (.updateResource scope r.version patch)
        ((s.setResource (patch.apply now r)).addAudit a)
  | archived
      {scope : Scope} {r : Resource} {a : AuditRecord}
      {now : ℤ}
      (hResource : s.resource = some r)
      (hSampled : SampledUnder log [.resourceUpdate rid] now)
      (hUnused :
        (∀ b ∈ s.bookings, b.status.active = true →
          b.timeRange.upper ≤ now) ∧
        ∀ e ∈ s.entries, e.status ≠ .waiting) :
      Effect rid log s (.archiveResource scope r.version)
        ((s.setResource
          { r with
            active := false
            version := r.version + 1
            updatedAt := now }).addAudit a)

variable {rid : Uuid} {log : List (Action inventory)}
variable {s s' : Cell}

theorem Promoted.mono
    {change change' : Cell → Cell → Prop}
    (hChange : ∀ t, change s t → change' s t)
    (hPromoted : Promoted rid log change s s') :
    Promoted rid log change' s s' := by
  cases hPromoted with
  | intro hDone hLength hVisits hAsked =>
      exact .intro (hChange _ hDone) hLength hVisits hAsked

theorem Cancellation.release
    {b : Booking}
    {reason : String}
    (hRow : b ∈ s.bookings)
    (hKind : b.kind = .reservation)
    (hCancellation : Cancellation rid b reason s s') :
    Release rid log s s' := by
  cases hCancellation with
  | hold hHold hCheck => exact .cancelHold hHold hCheck
  | confirmed hStatus hCheck =>
      exact .cancelConfirmed hRow hKind hStatus hCheck

theorem BlackoutEnd.release
    {b : Booking}
    (hRow : b ∈ s.bookings)
    (hKind : b.kind = .blackout)
    (hStatus : b.status = .confirmed)
    (hEnd : BlackoutEnd b s s') :
    Release rid log s s' := by
  rcases hEnd with ⟨now, a, rfl⟩
  exact .cancelBlackout hRow hKind hStatus

theorem Withdrawal.release
    {e : WaitlistEntry}
    {b : Booking}
    (hHold : Hold s e b)
    (hWithdrawal : Withdrawal e b s s') :
    Release rid log s s' := by
  rcases hWithdrawal with ⟨now, rfl⟩
  exact .decline hHold

/- A patch that deactivates sets the field to false. -/
theorem ResourcePatch.deactivates
    {patch : ResourcePatch}
    {r : Resource}
    {now : ℤ}
    (hActive : r.active = true)
    (hInactive : (patch.apply now r).active = false) :
    patch.active = some false := by
  cases hPatch : patch.active with
  | none =>
      simp [ResourcePatch.apply, hPatch, hActive] at hInactive
  | some active =>
      simp only [ResourcePatch.apply, hPatch,
        Option.getD_some] at hInactive
      rw [hInactive]

/- The effect of a request is an outcome for its cell. -/
theorem Effect.outcome
    {request : Request}
    (hEffect : Effect rid log s request s') :
    Outcome rid log s s' := by
  cases hEffect with
  | notBooked | notBlocked | alreadyCancelled
  | alreadyUnblocked | alreadyWithdrawn | skipped =>
      exact .quiet
  | booked hResource hActive hNew hKind hStatus hVersion =>
      exact .gain (.reserve hResource hActive hNew hKind
        hStatus hVersion)
  | blocked hResource hActive hNew hKind hStatus hVersion =>
      exact .gain (.blackout hResource hActive hNew hKind
        hStatus hVersion)
  | cancelled hRow hKind hPromoted =>
      exact .release (hPromoted.mono
        (fun _ h => h.release hRow hKind))
  | unblocked hRow hKind hStatus hPromoted =>
      exact .release (hPromoted.mono
        (fun _ h => h.release hRow hKind hStatus))
  | joined hResource hActive hNew hStatus hLink hVersion
      hOccupied hRoom =>
      exact .gain (.enqueue hResource hActive hNew hStatus
        hLink hVersion hOccupied hRoom)
  | accepted hHold hSampled hEarly =>
      exact .gain (.accept hHold hSampled hEarly)
  | tooLate hHold hSampled hLate hPromoted =>
      refine .release (hPromoted.mono ?_)
      rintro t rfl
      exact .expire (.single (.intro hHold
        (hSampled.mono (by simp)) hLate))
  | withdrawn hRow hWaiting =>
      exact .gain (.withdraw hRow hWaiting)
  | declined hHold hPromoted =>
      exact .release (hPromoted.mono
        (fun _ h => h.release hHold))
  | expired hPromoted =>
      exact .release (hPromoted.mono
        (fun _ h => .expire h))
  | patched hResource hSampled hUnused =>
      refine .gain (.patch hResource rfl hSampled ?_)
      intro hActive hInactive
      exact
        hUnused (ResourcePatch.deactivates hActive hInactive)
          hActive
  | archived hResource hSampled hUnused =>
      exact .gain (.patch hResource rfl hSampled
        (fun _ _ => hUnused))

end PigBook

------------------------------------------------------------
-- Effects Keep the Tables Consistent
------------------------------------------------------------

namespace PigBook

open ReadCommitted

variable {rid : Uuid} {log : List (Action inventory)}
variable {s s' : Cell}

/- Closing a hold keeps the tables consistent. -/
theorem Hold.close_consistent
    (hCell : s.Consistent)
    {e : WaitlistEntry}
    {b : Booking}
    (hHold : Hold s e b)
    {f : Booking → Booking}
    {status : EntryStatus}
    {now : ℤ}
    (hEnds : status.active = false)
    (hId : ∀ x, (f x).id = x.id)
    (hRange : ∀ x, (f x).timeRange = x.timeRange)
    (hUsers :
      ∀ x, (f x).userId = x.userId ∧
        (f x).createdBy = x.createdBy)
    (hCloses : (f b).status ≠ .offered)
    (hCheck : (f b).Check) :
    (s.close e b f status now).Consistent :=
  hCell.closeHold hHold.row hHold.rowB hHold.holds
    (Booking.current_iff hCell.bookings.ids hHold.rowB)
    (WaitlistEntry.current_iff hCell.entries.ids hHold.row)
    hEnds hId hRange hUsers hCloses hCheck

/- The booking is in the cell with its new contents. -/
theorem Cell.Valid.mem_setBooking
    (hCell : s.Valid)
    {b : Booking}
    (hRow : b ∈ s.bookings)
    {f : Booking → Booking}
    {x : Booking} :
    x ∈ updateWhere b.current f s.bookings ↔
      x = f b ∨ (x ∈ s.bookings ∧ x.id ≠ b.id) :=
  mem_updateWhere_key hCell.bookings.ids hRow
    (Booking.current_iff hCell.bookings.ids hRow)

/- A transition out of an offer satisfies the constraints. -/
theorem Booking.transition_check
    {b : Booking}
    (hCheck : b.Check)
    (hOffered : b.status = .offered)
    {status : BookingStatus}
    (hStatus : status ≠ .offered)
    (now : ℤ) :
    (b.transition status now).Check := by
  rcases hCheck with ⟨hReason, -, hKind, -⟩
  refine ⟨hReason, Nat.succ_pos _, ?_, Or.inr ⟨hStatus, rfl⟩⟩
  rcases hKind with hReservation | ⟨-, -, hBlackout⟩
  · exact Or.inl hReservation
  · rw [hOffered] at hBlackout
    rcases hBlackout with h | h <;> cases h

theorem Gain.consistent
    (hCell : s.Consistent)
    (hGain : Gain rid log s s') :
    s'.Consistent := by
  cases hGain with
  | @reserve r b now id hResource hActive hNew hKind hStatus
      hVersion =>
      rcases bookingViolation_eq_none_iff.mp hNew with
        ⟨⟨hCheck, hFresh, hFree⟩, hRoom, hOwned⟩
      have hBooked :=
        hCell.reserve hRoom hFresh
          (fun h => hFree ⟨by rw [hStatus]; rfl, h⟩)
          hStatus hCheck hOwned
      refine hBooked.addEvent ⟨b, ?_, rfl⟩
      exact List.mem_append_right _
        (List.mem_singleton.mpr rfl)
  | @blackout r b a hResource hActive hNew hKind hStatus
      hVersion =>
      rcases bookingViolation_eq_none_iff.mp hNew with
        ⟨⟨hCheck, hFresh, hFree⟩, hRoom, hOwned⟩
      have hBooked :=
        hCell.reserve hRoom hFresh
          (fun h => hFree ⟨by rw [hStatus]; rfl, h⟩)
          hStatus hCheck hOwned
      refine hBooked.addAudit ?_ a
      rw [Cell.addBooking_resource, hResource]
      rfl
  | @enqueue r e hResource hActive hNew hStatus hLink
      hVersion hOccupied hRoom =>
      rcases entryViolation_eq_none_iff.mp hNew with
        ⟨⟨hCheck, hFresh, -, hApart⟩, hUser, hRoom, -⟩
      exact
        hCell.enqueue hRoom hFresh hApart hStatus hLink
          hCheck hUser
  | @withdraw e now hRow hWaiting =>
      exact hCell.leaveQueue hRow hWaiting (Or.inr rfl)
  | @accept e b now id hHold hSampled hEarly =>
      have hCheck :=
        Booking.transition_check
          (hCell.bookings.checks b hHold.rowB)
          hHold.holds.offered
          (show BookingStatus.confirmed ≠ .offered by
            decide) now
      have hClosed :
          (s.close e b (.transition .confirmed now)
            .accepted now).Consistent :=
        hHold.close_consistent hCell rfl (fun _ => rfl)
          (fun _ => rfl) (fun _ => ⟨rfl, rfl⟩)
          (by simp [Booking.transition])
          hCheck
      refine hClosed.addEvent
        ⟨b.transition .confirmed now, ?_, rfl⟩
      exact
        (hCell.mem_setBooking hHold.rowB).mpr (Or.inl rfl)
  | @patch r r' a now hResource hVersion hSampled hUnused =>
      exact (hCell.setResource r').addAudit rfl a

theorem Expiry.consistent
    (hCell : s.Consistent)
    (hExpiry : Expiry rid log s s') :
    s'.Consistent := by
  cases hExpiry with
  | @intro e b now id hHold hSampled hLate =>
      have hCheck :=
        Booking.transition_check
          (hCell.bookings.checks b hHold.rowB)
          hHold.holds.offered
          (show BookingStatus.expired ≠ .offered by
            decide) now
      have hClosed :
          (s.close e b (.transition .expired now)
            .expired now).Consistent :=
        hHold.close_consistent hCell rfl (fun _ => rfl)
          (fun _ => rfl) (fun _ => ⟨rfl, rfl⟩)
          (by simp [Booking.transition])
          hCheck
      refine hClosed.addEvent
        ⟨b.transition .expired now, ?_, rfl⟩
      exact
        (hCell.mem_setBooking hHold.rowB).mpr (Or.inl rfl)

/- A confirmed booking that is cancelled stays consistent. -/
theorem cancelBooking_consistent
    (hCell : s.Consistent)
    {b : Booking}
    (hRow : b ∈ s.bookings)
    (hStatus : b.status = .confirmed)
    {f : Booking → Booking}
    (hId : ∀ x, (f x).id = x.id)
    (hRange : ∀ x, (f x).timeRange = x.timeRange)
    (hUsers :
      ∀ x, (f x).userId = x.userId ∧
        (f x).createdBy = x.createdBy)
    (hCancels : (f b).status = .cancelled)
    (hCheck : (f b).Check) :
    (s.setBookings b.current f).Consistent :=
  hCell.cancelConfirmed hRow hStatus
    (Booking.current_iff hCell.bookings.ids hRow) hId hRange
    hUsers hCancels hCheck

theorem Cell.Consistent.addAudits
    (hCell : s.Consistent)
    (hResource : s.resource.isSome)
    (as : List AuditRecord) :
    (s.addAudits as).Consistent where
  foreign := by
    intro hNone
    rw [Cell.addAudits_resource] at hNone
    rw [hNone] at hResource
    cases hResource
  bookings := hCell.bookings
  entries := hCell.entries
  owners := hCell.owners
  members := hCell.members
  linkedExists := hCell.linkedExists
  outboxExists := hCell.outboxExists
  offeredLinked := hCell.offeredLinked
  holdLinked := hCell.holdLinked

theorem Release.consistent
    (hCell : s.Consistent)
    (hRelease : Release rid log s s') :
    s'.Consistent := by
  cases hRelease with
  | expire hExpiries =>
      induction hExpiries with
      | refl => exact hCell
      | tail _ hExpiry ih => exact hExpiry.consistent ih
  | @decline e b now hHold =>
      exact
        hHold.close_consistent hCell rfl (fun _ => rfl)
          (fun _ => rfl) (fun _ => ⟨rfl, rfl⟩)
          (by simp [Booking.transition])
          (Booking.transition_check
            (hCell.bookings.checks b hHold.rowB)
            hHold.holds.offered (by decide) now)
  | @cancelHold e b reason now id as hHold hCheck =>
      have hClosed :
          (s.close e b (.cancel reason now)
            .cancelled now).Consistent :=
        hHold.close_consistent hCell rfl (fun _ => rfl)
          (fun _ => rfl) (fun _ => ⟨rfl, rfl⟩)
          (by simp [Booking.cancel, Booking.transition])
          hCheck
      have hSome :=
        hCell.resource_isSome_of_booking hHold.rowB
      refine
        (hClosed.addEvent ⟨b.cancel reason now, ?_, rfl⟩
          ).addAudits hSome as
      exact
        (hCell.mem_setBooking hHold.rowB).mpr (Or.inl rfl)
  | @cancelConfirmed b reason now id as hRow hKind hStatus
      hCheck =>
      have hCancelled :
          (s.setBookings b.current
            (.cancel reason now)).Consistent :=
        cancelBooking_consistent hCell hRow hStatus
          (fun _ => rfl) (fun _ => rfl)
          (fun _ => ⟨rfl, rfl⟩) rfl hCheck
      have hSome := hCell.resource_isSome_of_booking hRow
      refine
        (hCancelled.addEvent ⟨b.cancel reason now, ?_, rfl⟩
          ).addAudits hSome as
      exact (hCell.mem_setBooking hRow).mpr (Or.inl rfl)
  | @cancelBlackout b now a hRow hKind hStatus =>
      have hCheck := hCell.bookings.checks b hRow
      have hSome := hCell.resource_isSome_of_booking hRow
      have hChecked :
          Booking.Check
            { b with
              status := .cancelled
              version := b.version + 1
              updatedAt := now } := by
        rcases hCheck with ⟨hReason, -, hKindOk, hDeadline⟩
        refine ⟨hReason, Nat.succ_pos _, ?_, Or.inr ⟨?_, ?_⟩⟩
        · rcases hKindOk with h | ⟨hBlackout, hUser, -⟩
          · exact Or.inl h
          · exact Or.inr ⟨hBlackout, hUser, Or.inr rfl⟩
        · simp
        · rcases hDeadline with ⟨hOffered, -⟩ | ⟨-, hNone⟩
          · rw [hStatus] at hOffered
            cases hOffered
          · exact hNone
      have hCancelled :
          (s.setBookings b.current (fun b' =>
            { b' with
              status := .cancelled
              version := b'.version + 1
              updatedAt := now })).Consistent :=
        cancelBooking_consistent hCell hRow hStatus
          (fun _ => rfl) (fun _ => rfl)
          (fun _ => ⟨rfl, rfl⟩) rfl hChecked
      exact hCancelled.addAudit hSome a

theorem Promoted.consistent
    {change : Cell → Cell → Prop}
    (hChange : ∀ {s'}, change s s' → s'.Consistent)
    (hPromoted : Promoted rid log change s s') :
    s'.Consistent := by
  cases hPromoted with
  | intro hDone hLength hVisits hAsked =>
      exact
        hVisits.induction (fun h hv => hv.consistent h)
          (hChange hDone)

/- Every outcome keeps the tables consistent. -/
theorem Outcome.consistent
    (hCell : s.Consistent)
    (hOutcome : Outcome rid log s s') :
    s'.Consistent := by
  cases hOutcome with
  | quiet => exact hCell
  | gain hGain => exact hGain.consistent hCell
  | release hPromoted =>
      exact
        hPromoted.consistent (fun h => h.consistent hCell)

end PigBook

------------------------------------------------------------
-- Effects Leave the Users
------------------------------------------------------------

namespace PigBook

open ReadCommitted

variable {rid : Uuid} {log : List (Action inventory)}
variable {s s' : Cell}

theorem promoteFold_users
    (visits : List (WaitlistEntry × Sample)) :
    (promoteFold rid s visits).users = s.users := by
  induction visits generalizing s with
  | nil => rfl
  | cons visit visits ih =>
      rw [promoteFold_cons, ih]
      unfold promoteStep
      split
      · rfl
      · split <;> rfl

theorem Release.users
    (hRelease : Release rid log s s') :
    s'.users = s.users := by
  cases hRelease with
  | expire hExpiries =>
      induction hExpiries with
      | refl => rfl
      | tail _ hExpiry ih =>
          cases hExpiry with
          | intro => exact ih
  | decline => rfl
  | cancelHold => rfl
  | cancelConfirmed => rfl
  | cancelBlackout => rfl

/- Users are registered elsewhere, and stay. -/
theorem Outcome.users
    (hOutcome : Outcome rid log s s') :
    s'.users = s.users := by
  cases hOutcome with
  | quiet => rfl
  | gain hGain =>
      cases hGain with
      | reserve => rfl
      | blackout => rfl
      | enqueue => rfl
      | withdraw => rfl
      | accept => rfl
      | patch => rfl
  | release hPromoted =>
      cases hPromoted with
      | intro hDone hLength hVisits hAsked =>
          exact (promoteFold_users _).trans hDone.users

end PigBook

------------------------------------------------------------
-- Effects Leave No Stranded Waiter
------------------------------------------------------------

namespace PigBook

open ReadCommitted

variable {rid : Uuid} {log : List (Action inventory)}
variable {s s' : Cell}

/- No window is freed and no unblocked entry is added. -/
theorem Cell.Settled.of_occupied
    (hSettled : s.Settled)
    (hOccupied : ∀ r, s.Occupied r → s'.Occupied r)
    (hWaiting :
      ∀ e ∈ s'.entries, e.status = .waiting →
        e ∈ s.entries ∨ s'.Occupied e.timeRange) :
    s'.Settled := by
  intro e hRow hStatus
  rcases hWaiting e hRow hStatus with hOld | hBlocked
  · exact hOccupied _ (hSettled e hOld hStatus)
  · exact hBlocked

theorem Gain.settled
    (hCell : s.Valid)
    (hSettled : s.Settled)
    (hGain : Gain rid log s s') :
    s'.Settled := by
  cases hGain with
  | reserve | blackout =>
      refine hSettled.of_occupied ?_
        (fun e hRow _ => Or.inl hRow)
      rintro r ⟨b', hRow, hOccupies⟩
      exact ⟨b', List.mem_append_left _ hRow, hOccupies⟩
  | @enqueue r e hResource hActive hNew hStatus hLink
      hVersion hOccupied hRoom =>
      refine hSettled.of_occupied (fun _ h => h) ?_
      intro x hx _
      rcases List.mem_append.mp hx with hOld | hNew
      · exact Or.inl hOld
      · rw [List.mem_singleton.mp hNew]
        exact Or.inr hOccupied
  | @withdraw e now hRow hWaiting =>
      refine hSettled.of_occupied (fun _ h => h) ?_
      intro x hx hStatus
      rcases (hCell.mem_setEntry hRow).mp hx with
        rfl | ⟨hOld, -⟩
      · cases hStatus
      · exact Or.inl hOld
  | @accept e b now id hHold hSampled hEarly =>
      refine hSettled.of_occupied ?_ ?_
      · -- the window of the hold is confirmed, not freed
        rintro r ⟨x, hx, hActive, hOverlap⟩
        by_cases hSame : x.id = b.id
        · have hEq :=
            hCell.bookings.ids.eq_of_key hx hHold.rowB hSame
          refine ⟨b.transition .confirmed now, ?_, rfl, ?_⟩
          · exact
              (hCell.mem_setBooking hHold.rowB).mpr
                (Or.inl rfl)
          · rw [hEq] at hOverlap
            exact hOverlap
        · refine ⟨x, ?_, hActive, hOverlap⟩
          exact
            (hCell.mem_setBooking hHold.rowB).mpr
              (Or.inr ⟨hx, hSame⟩)
      · intro x hx hStatus
        rcases (hCell.mem_setEntry hHold.row).mp hx with
          rfl | ⟨hOld, -⟩
        · cases hStatus
        · exact Or.inl hOld
  | patch => exact hSettled

/- Every outcome leaves the waiting entries blocked. -/
theorem Outcome.settled
    (hCell : s.Consistent)
    (hSettled : s.Settled)
    (hOutcome : Outcome rid log s s') :
    s'.Settled := by
  cases hOutcome with
  | quiet => exact hSettled
  | gain hGain => exact hGain.settled hCell.toValid hSettled
  | release hPromoted =>
      cases hPromoted with
      | intro hDone hLength hVisits hAsked =>
          exact
            promoteFold_settled
              (hDone.consistent hCell).toValid hLength hVisits

end PigBook

------------------------------------------------------------
-- What Becomes of a Booking
------------------------------------------------------------

namespace PigBook

open ReadCommitted

/- What a transaction makes of a booking that it finds. -/
inductive Booking.Fate
    (rid : Uuid)
    (log : List (Action inventory))
    (b : Booking) : Booking → Prop
  | stays : Fate rid log b b
  | confirmed
      {now : ℤ} {entryId : Uuid}
      (hOffered : b.status = .offered)
      (hSampled :
        SampledUnder log
          [.resourceUpdate rid, .entryUpdate entryId,
            .bookingUpdate b.id] now)
      (hEarly : ∀ deadline ∈ b.expiresAt, now < deadline) :
      Fate rid log b (b.transition .confirmed now)
  | expired
      {now : ℤ}
      (hOffered : b.status = .offered)
      (hSampled : SampledUnder log [.resourceUpdate rid] now)
      (hLate : ∀ deadline ∈ b.expiresAt, deadline ≤ now) :
      Fate rid log b (b.transition .expired now)
  | cancelled
      {b' : Booking}
      (hWas : b.status = .offered ∨ b.status = .confirmed)
      (hIs : b'.status = .cancelled) :
      Fate rid log b b'

/- How a transaction can bring a booking into being. -/
inductive Booking.Origin
    (log : List (Action inventory))
    (s : Cell)
    (b : Booking) : Prop
  | confirmed
      (hStatus : b.status = .confirmed)
      (hFree : ¬ s.Occupied b.timeRange)
  | offered
      {e : WaitlistEntry} {x : Sample}
      (hBooking : b = x.booking e)
      (hAsked :
        [⟨.clock, x.offerNow⟩, ⟨.uuid, x.bookingId⟩] <:+:
          asked log)

variable {rid : Uuid} {log : List (Action inventory)}
variable {s s' : Cell}

/- The rows before an update of one booking, afterwards. -/
theorem Cell.Valid.booking_after
    (hCell : s.Valid)
    {b : Booking}
    (hRow : b ∈ s.bookings)
    {f : Booking → Booking}
    (hId : (f b).id = b.id)
    {x : Booking}
    (hx : x ∈ s.bookings) :
    ∃ x' ∈ updateWhere b.current f s.bookings,
      x'.id = x.id ∧ (x' = x ∨ (x = b ∧ x' = f b)) := by
  by_cases hSame : x.id = b.id
  · have hEq := hCell.bookings.ids.eq_of_key hx hRow hSame
    exact ⟨f b, (hCell.mem_setBooking hRow).mpr (Or.inl rfl),
      hId.trans hSame.symm, Or.inr ⟨hEq, rfl⟩⟩
  · exact ⟨x, (hCell.mem_setBooking hRow).mpr
      (Or.inr ⟨hx, hSame⟩), rfl, Or.inl rfl⟩

/- The rows after it, before. -/
theorem Cell.Valid.booking_before
    (hCell : s.Valid)
    {b : Booking}
    (hRow : b ∈ s.bookings)
    {f : Booking → Booking}
    (hId : (f b).id = b.id)
    {x' : Booking}
    (hx' : x' ∈ updateWhere b.current f s.bookings) :
    ∃ x ∈ s.bookings, x.id = x'.id := by
  rcases (hCell.mem_setBooking hRow).mp hx' with
    rfl | ⟨hOld, -⟩
  · exact ⟨b, hRow, hId.symm⟩
  · exact ⟨x', hOld, rfl⟩

/- A promotion keeps the bookings that it finds. -/
theorem promoteFold_keeps
    {vs : List (WaitlistEntry × Sample)}
    {b : Booking}
    (hRow : b ∈ s.bookings) :
    b ∈ (promoteFold rid s vs).bookings := by
  induction vs generalizing s with
  | nil => exact hRow
  | cons v vs ih =>
      refine ih ?_
      unfold promoteStep
      split
      · exact hRow
      · split
        · exact hRow
        · exact List.mem_append_left _ hRow

/- The bookings that it adds are its offers. -/
theorem promoteFold_origin
    {vs : List (WaitlistEntry × Sample)}
    {b : Booking}
    (hRow : b ∈ (promoteFold rid s vs).bookings) :
    b ∈ s.bookings ∨
      ∃ (e : WaitlistEntry) (x : Sample), b = x.booking e ∧
        [⟨.clock, x.offerNow⟩, ⟨.uuid, x.bookingId⟩] <:+:
          askedInFold rid s vs := by
  induction vs generalizing s with
  | nil => exact Or.inl hRow
  | cons v vs ih =>
      rcases ih hRow with hStep | ⟨e, x, hBooking, hAsked⟩
      · unfold promoteStep at hStep
        split at hStep
        · exact Or.inl hStep
        · rename_i hStays
          split at hStep
          · exact Or.inl hStep
          · rename_i hFree
            rcases List.mem_append.mp hStep with hOld | hNew
            · exact Or.inl hOld
            · refine Or.inr ⟨v.1, v.2,
                List.mem_singleton.mp hNew, ?_⟩
              have hHere :
                  ([⟨.clock, v.2.offerNow⟩,
                    ⟨.uuid, v.2.bookingId⟩] : List Asked)
                    <:+: askedInStep s v := by
                unfold askedInStep
                rw [if_neg (not_or.mpr ⟨hStays, hFree⟩)]
                exact
                  ⟨[⟨.clock, v.2.dbNow⟩,
                      ⟨.ownerEnabled v.1.userId,
                        v.2.ownerEnabled⟩],
                    [⟨.transactionTime, v.2.createdAt⟩,
                      ⟨.uuid, v.2.eventId⟩], rfl⟩
              exact
                hHere.trans (List.prefix_append _ _).isInfix
      · refine Or.inr ⟨e, x, hBooking, hAsked.trans ?_⟩
        exact (List.suffix_append _ _).isInfix

theorem Expiry.fate
    (hCell : s.Valid)
    (hExpiry : Expiry rid log s s')
    {b : Booking}
    (hRow : b ∈ s.bookings) :
    ∃ b' ∈ s'.bookings, b'.id = b.id ∧
      (b' = b ∨
        ∃ now, b' = b.transition .expired now ∧
          b.status = .offered ∧
          SampledUnder log [.resourceUpdate rid] now ∧
          ∀ deadline ∈ b.expiresAt, deadline ≤ now) := by
  cases hExpiry with
  | @intro e x now id hHold hSampled hLate =>
      rcases
        hCell.booking_after hHold.rowB
          (f := .transition .expired now) rfl hRow with
        ⟨b', hRow', hId, rfl | ⟨rfl, rfl⟩⟩
      · exact ⟨b', hRow', hId, Or.inl rfl⟩
      · exact ⟨_, hRow', hId, Or.inr ⟨now, rfl,
          hHold.holds.offered, hSampled, hLate⟩⟩

/- In a chain of expiries each booking expires only once. -/
theorem expiries_fate
    (hCell : s.Consistent)
    (hExpiries :
      Relation.ReflTransGen (Expiry rid log) s s')
    {b : Booking}
    (hRow : b ∈ s.bookings) :
    ∃ b' ∈ s'.bookings, b'.id = b.id ∧
      (b' = b ∨
        ∃ now, b' = b.transition .expired now ∧
          b.status = .offered ∧
          SampledUnder log [.resourceUpdate rid] now ∧
          ∀ deadline ∈ b.expiresAt, deadline ≤ now) := by
  induction hExpiries with
  | refl => exact ⟨b, hRow, rfl, Or.inl rfl⟩
  | @tail t u hBefore hExpiry ih =>
      have hMiddle : t.Consistent :=
        (Release.expire hBefore).consistent hCell
      rcases ih with ⟨b', hRow', hId, hSoFar⟩
      rcases hExpiry.fate hMiddle.toValid hRow' with
        ⟨b'', hRow'', hId', hNow⟩
      refine ⟨b'', hRow'', hId'.trans hId, ?_⟩
      rcases hSoFar with rfl | ⟨now, rfl, hExpired⟩
      · exact hNow
      · rcases hNow with rfl | ⟨_, -, hOffered, -⟩
        · exact Or.inr ⟨now, rfl, hExpired⟩
        · cases hOffered

/- A release changes bookings, but it adds none. -/
theorem Release.fate
    (hCell : s.Consistent)
    (hRelease : Release rid log s s')
    {b : Booking}
    (hRow : b ∈ s.bookings) :
    ∃ b' ∈ s'.bookings,
      b'.id = b.id ∧ b.Fate rid log b' := by
  cases hRelease with
  | expire hExpiries =>
      rcases expiries_fate hCell hExpiries hRow with
        ⟨b', hRow', hId, rfl | ⟨now, rfl, hOffered, hSampled,
          hLate⟩⟩
      · exact ⟨b', hRow', hId, .stays⟩
      · exact ⟨_, hRow', hId,
          .expired hOffered hSampled hLate⟩
  | @decline e x now hHold =>
      rcases
        hCell.booking_after hHold.rowB
          (f := .transition .cancelled now) rfl hRow with
        ⟨b', hRow', hId, rfl | ⟨rfl, rfl⟩⟩
      · exact ⟨b', hRow', hId, .stays⟩
      · exact ⟨_, hRow', hId,
          .cancelled (Or.inl hHold.holds.offered) rfl⟩
  | @cancelHold e x reason now id as hHold hCheck =>
      rcases
        hCell.booking_after hHold.rowB
          (f := .cancel reason now) rfl hRow with
        ⟨b', hRow', hId, rfl | ⟨rfl, rfl⟩⟩
      · exact ⟨b', hRow', hId, .stays⟩
      · exact ⟨_, hRow', hId,
          .cancelled (Or.inl hHold.holds.offered) rfl⟩
  | @cancelConfirmed x reason now id as hRowX hKind hStatus
      hCheck =>
      rcases
        hCell.booking_after hRowX
          (f := .cancel reason now) rfl hRow with
        ⟨b', hRow', hId, rfl | ⟨rfl, rfl⟩⟩
      · exact ⟨b', hRow', hId, .stays⟩
      · exact ⟨_, hRow', hId,
          .cancelled (Or.inr hStatus) rfl⟩
  | @cancelBlackout x now a hRowX hKind hStatus =>
      rcases
        hCell.booking_after hRowX
          (f := fun b' : Booking =>
            { b' with
              status := .cancelled
              version := b'.version + 1
              updatedAt := now }) rfl hRow with
        ⟨b', hRow', hId, rfl | ⟨rfl, rfl⟩⟩
      · exact ⟨b', hRow', hId, .stays⟩
      · exact ⟨_, hRow', hId,
          .cancelled (Or.inr hStatus) rfl⟩

theorem Release.adds_none
    (hCell : s.Consistent)
    (hRelease : Release rid log s s')
    {b' : Booking}
    (hRow : b' ∈ s'.bookings) :
    ∃ b ∈ s.bookings, b.id = b'.id := by
  cases hRelease with
  | expire hExpiries =>
      induction hExpiries generalizing b' with
      | refl => exact ⟨b', hRow, rfl⟩
      | @tail t u hBefore hExpiry ih =>
          have hMiddle : t.Consistent :=
            (Release.expire hBefore).consistent hCell
          cases hExpiry with
          | intro hHold hSampled hLate =>
              rcases
                hMiddle.booking_before hHold.rowB rfl hRow
                with ⟨x, hx, hId⟩
              rcases ih hx with ⟨b, hb, hId'⟩
              exact ⟨b, hb, hId'.trans hId⟩
  | decline hHold =>
      exact hCell.booking_before hHold.rowB rfl hRow
  | cancelHold hHold hCheck =>
      exact hCell.booking_before hHold.rowB rfl hRow
  | cancelConfirmed hRowX hKind hStatus hCheck =>
      exact hCell.booking_before hRowX rfl hRow
  | cancelBlackout hRowX hKind hStatus =>
      exact hCell.booking_before hRowX rfl hRow

/- What becomes of each booking. -/
theorem Outcome.fate
    (hCell : s.Consistent)
    (hOutcome : Outcome rid log s s')
    {b : Booking}
    (hRow : b ∈ s.bookings) :
    ∃ b' ∈ s'.bookings,
      b'.id = b.id ∧ b.Fate rid log b' := by
  cases hOutcome with
  | quiet => exact ⟨b, hRow, rfl, .stays⟩
  | gain hGain =>
      cases hGain with
      | reserve | blackout =>
          exact ⟨b, List.mem_append_left _ hRow, rfl, .stays⟩
      | enqueue | withdraw | patch =>
          exact ⟨b, hRow, rfl, .stays⟩
      | @accept e x now id hHold hSampled hEarly =>
          rcases
            hCell.booking_after hHold.rowB
              (f := .transition .confirmed now) rfl hRow with
            ⟨b', hRow', hId, rfl | ⟨rfl, rfl⟩⟩
          · exact ⟨b', hRow', hId, .stays⟩
          · exact ⟨_, hRow', hId,
              .confirmed hHold.holds.offered hSampled hEarly⟩
  | release hPromoted =>
      cases hPromoted with
      | intro hDone hLength hVisits hAsked =>
          rcases hDone.fate hCell hRow with
            ⟨b', hRow', hId, hFate⟩
          exact ⟨b', promoteFold_keeps hRow', hId, hFate⟩

/- Where each booking comes from. -/
theorem Outcome.origin
    (hCell : s.Consistent)
    (hOutcome : Outcome rid log s s')
    {b' : Booking}
    (hRow : b' ∈ s'.bookings) :
    (∃ b ∈ s.bookings, b.id = b'.id) ∨
      b'.Origin log s := by
  cases hOutcome with
  | quiet => exact Or.inl ⟨b', hRow, rfl⟩
  | gain hGain =>
      cases hGain with
      | reserve hResource hActive hNew hKind hStatus
      | blackout hResource hActive hNew hKind hStatus =>
          rcases List.mem_append.mp hRow with hOld | hLast
          · exact Or.inl ⟨b', hOld, rfl⟩
          · rw [List.mem_singleton.mp hLast]
            refine Or.inr (.confirmed hStatus ?_)
            rcases bookingViolation_eq_none_iff.mp hNew with
              ⟨⟨-, -, hFree⟩, -⟩
            intro hOccupied
            exact hFree ⟨by rw [hStatus]; rfl, hOccupied⟩
      | enqueue | withdraw | patch =>
          exact Or.inl ⟨b', hRow, rfl⟩
      | accept hHold hSampled hEarly =>
          exact
            Or.inl
              (hCell.booking_before hHold.rowB rfl hRow)
  | release hPromoted =>
      cases hPromoted with
      | intro hDone hLength hVisits hAsked =>
          rcases promoteFold_origin hRow with
            hOld | ⟨e, x, hBooking, hInfix⟩
          · exact Or.inl (hDone.adds_none hCell hOld)
          · exact
              Or.inr
                (.offered hBooking
                  (hInfix.trans hAsked.isInfix))

end PigBook

------------------------------------------------------------
-- Where Accepted Entries Come From
------------------------------------------------------------

namespace PigBook

open ReadCommitted

/-
  Between the two cells the entry is accepted, and its
  booking is moved from offered to confirmed.
-/
def AcceptedBetween
    (s s' : Cell)
    (e' : WaitlistEntry) : Prop :=
  e' ∈ s'.entries ∧ e'.status = .accepted ∧
    ∃ e b, Hold s e b ∧ e.id = e'.id ∧
      e'.offeredBookingId = some b.id ∧
      ∃ b' ∈ s'.bookings,
        b'.id = b.id ∧ b'.status = .confirmed

variable {rid : Uuid} {log : List (Action inventory)}
variable {s s' : Cell}

/- Promotion accepts nothing. -/
theorem promoteFold_accepted
    {vs : List (WaitlistEntry × Sample)}
    {e : WaitlistEntry}
    (hRow : e ∈ (promoteFold rid s vs).entries)
    (hStatus : e.status = .accepted) :
    e ∈ s.entries := by
  induction vs generalizing s with
  | nil => exact hRow
  | cons v vs ih =>
      have hStep := ih hRow
      unfold promoteStep at hStep
      split at hStep
      · rcases mem_updateWhere.mp hStep with
          ⟨x, -, -, rfl⟩ | ⟨hOld, -⟩
        · cases hStatus
        · exact hOld
      · split at hStep
        · exact hStep
        · rcases mem_updateWhere.mp hStep with
            ⟨x, -, -, rfl⟩ | ⟨hOld, -⟩
          · cases hStatus
          · exact hOld

/- Closing a hold accepts nothing but its entry. -/
theorem mem_close_accepted
    {e x : WaitlistEntry}
    {b : Booking}
    {f : Booking → Booking}
    {status : EntryStatus}
    {now : ℤ}
    (hRow : x ∈ (s.close e b f status now).entries)
    (hStatus : x.status = .accepted)
    (hNot : status ≠ .accepted) :
    x ∈ s.entries := by
  rcases mem_updateWhere.mp hRow with
    ⟨y, -, -, rfl⟩ | ⟨hOld, -⟩
  · exact absurd hStatus hNot
  · exact hOld

theorem Release.accepted
    (hRelease : Release rid log s s')
    {e : WaitlistEntry}
    (hRow : e ∈ s'.entries)
    (hStatus : e.status = .accepted) :
    e ∈ s.entries := by
  cases hRelease with
  | expire hExpiries =>
      induction hExpiries with
      | refl => exact hRow
      | tail hBefore hExpiry ih =>
          cases hExpiry with
          | intro hHold hSampled hLate =>
              exact
                ih (mem_close_accepted hRow hStatus
                  (by decide))
  | decline hHold =>
      exact mem_close_accepted hRow hStatus (by decide)
  | cancelHold hHold hCheck =>
      exact mem_close_accepted hRow hStatus (by decide)
  | cancelConfirmed | cancelBlackout => exact hRow

/- An accepted entry was there, or is accepted just now. -/
theorem Outcome.accepted
    (hCell : s.Consistent)
    (hOutcome : Outcome rid log s s')
    {e : WaitlistEntry}
    (hRow : e ∈ s'.entries)
    (hStatus : e.status = .accepted) :
    e ∈ s.entries ∨ AcceptedBetween s s' e := by
  cases hOutcome with
  | quiet => exact Or.inl hRow
  | gain hGain =>
      cases hGain with
      | reserve | blackout | patch => exact Or.inl hRow
      | enqueue hResource hActive hNew hWaiting =>
          rcases List.mem_append.mp hRow with hOld | hLast
          · exact Or.inl hOld
          · rw [List.mem_singleton.mp hLast,
              hWaiting] at hStatus
            cases hStatus
      | withdraw hRowX hWaiting =>
          rcases (hCell.mem_setEntry hRowX).mp hRow with
            rfl | ⟨hOld, -⟩
          · cases hStatus
          · exact Or.inl hOld
      | @accept x b now id hHold hSampled hEarly =>
          rcases (hCell.mem_setEntry hHold.row).mp hRow with
            rfl | ⟨hOld, -⟩
          · refine Or.inr ⟨hRow, rfl, x, b, hHold, rfl,
              hHold.holds.link, b.transition .confirmed now,
              ?_, rfl, rfl⟩
            exact
              (hCell.mem_setBooking hHold.rowB).mpr
                (Or.inl rfl)
          · exact Or.inl hOld
  | release hPromoted =>
      cases hPromoted with
      | intro hDone hLength hVisits hAsked =>
          have hBefore := promoteFold_accepted hRow hStatus
          exact Or.inl (hDone.accepted hBefore hStatus)

end PigBook
