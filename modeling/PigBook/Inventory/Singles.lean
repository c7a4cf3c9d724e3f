import PigBook.Inventory.Operations
import PigBook.ReadCommitted.Embedding

/-
  Every request is a single transaction.

  Key theorems include:
    * `promoteWaiters_single`
    * `Request.single`
-/

------------------------------------------------------------
-- Shared Parts
------------------------------------------------------------

namespace PigBook

open ReadCommitted

variable {rid : Uuid} {scope : Scope}

/- A transaction over a cell is one over all cells. -/
theorem single_atCell
    {α : Type}
    {p : Tx α}
    (rid : Uuid)
    (hSingle : p.Single) :
    (p.atCell rid).Single := by
  induction p with
  | done a => trivial
  | fail e => trivial
  | stmt q need write next ih =>
      intro s a
      exact ih (s rid) a (hSingle (s rid) a)
  | commit next ih => exact hSingle
  | rollback next ih => exact hSingle

/- More rows than one are a failure, and no failure commits. -/
theorem scalarOneOrNone_single
    {β : Type}
    (rows : List β) :
    (scalarOneOrNone rows).Single := by
  unfold scalarOneOrNone
  split
  · trivial
  · trivial
  · trivial

/- A refresh fails when its row has gone. -/
theorem refreshBooking_single
    (b : Booking) :
    (refreshBooking b).Single := by
  refine Prog.Single.bind (fun _ _ => trivial) ?_
  intro rows
  split
  · trivial
  · trivial

theorem refreshEntry_single
    (e : WaitlistEntry) :
    (refreshEntry e).Single := by
  refine Prog.Single.bind (fun _ _ => trivial) ?_
  intro rows
  split
  · trivial
  · trivial

/- An UPDATE fails where a constraint would be broken. -/
theorem updateBookings_single
    (p : Booking → Bool)
    (f : Booking → Booking) :
    (updateBookings p f).Single := by
  intro s _
  dsimp only
  split
  · trivial
  · trivial

theorem updateEntries_single
    (p : WaitlistEntry → Bool)
    (f : WaitlistEntry → WaitlistEntry) :
    (updateEntries p f).Single := by
  intro s _
  dsimp only
  split
  · trivial
  · trivial

/-
  A flush fails unless it has found the one row that it is
  for.
-/
theorem updateBooking_single
    (b : Booking)
    (f : Booking → Booking) :
    (updateBooking b f).Single := by
  refine Prog.Single.bind (updateBookings_single _ _) ?_
  intro count
  split
  · trivial
  · trivial

theorem updateEntry_single
    (e : WaitlistEntry)
    (f : WaitlistEntry → WaitlistEntry) :
    (updateEntry e f).Single := by
  refine Prog.Single.bind (updateEntries_single _ _) ?_
  intro count
  split
  · trivial
  · trivial

/-
  The event is written with the transaction that it tells of.
-/
theorem appendEvent_single
    {eventType : EventType}
    {b : Booking}
    {now : ℤ} :
    (appendEvent rid eventType b now).Single := by
  refine Prog.Single.bind (fun _ _ => trivial) ?_
  intro eventId s _
  dsimp only
  split
  · trivial
  · trivial

theorem appendAuditLog_single
    {action targetType : String}
    {targetId actorId : Option Uuid}
    {requestId : Uuid}
    {details : AuditDetails}
    {now : ℤ} :
    (appendAuditLog action targetType targetId actorId requestId
      details now).Single := by
  refine Prog.Single.bind (fun _ _ => trivial) ?_
  intro auditId s _
  dsimp only
  split
  · trivial
  · trivial

theorem auditRequestId_single :
    (auditRequestId scope).Single := by
  unfold auditRequestId
  split
  · trivial
  · exact fun _ _ => trivial

/- An audit record does not end the transaction. -/
theorem audited_single
    {α : Type}
    {action targetType : String}
    {targetId actorId : Option Uuid}
    {details : AuditDetails}
    {now : ℤ}
    {next : Tx α}
    (hNext : next.Single) :
    ((auditRequestId scope).bind (fun requestId =>
      (appendAuditLog action targetType targetId actorId
        requestId details now).bind
          (fun _ => next))).Single := by
  refine Prog.Single.bind auditRequestId_single ?_
  intro requestId
  exact Prog.Single.bind appendAuditLog_single (fun _ => hNext)

end PigBook

------------------------------------------------------------
-- Promotion
------------------------------------------------------------

namespace PigBook

open ReadCommitted

variable {rid : Uuid}

/-
  A savepoint is not a transaction: what it would undo is
  never written.
-/
theorem attemptOffer_single
    (e : WaitlistEntry)
    (bookingId : Uuid)
    (offerNow createdAt : ℤ) :
    (attemptOffer rid e bookingId offerNow createdAt).Single := by
  refine Prog.Single.bind (fun _ _ => trivial) ?_
  intro violation
  split
  · trivial
  · trivial
  · refine Prog.Single.bind (updateEntries_single _ _) ?_
    intro count
    split
    · exact fun _ _ => trivial
    · exact
        Prog.Single.bind appendEvent_single (fun _ => trivial)

/- Each entry ends in an offer, in an expiry, or as it was. -/
theorem promoteEntry_single
    (e : WaitlistEntry) :
    (promoteEntry rid e).Single := by
  have hExpire (now : ℤ) :
      ((updateEntries e.current
        (WaitlistEntry.transition .expired now)).bind
          (fun _ => Prog.done (none : Option Uuid))).Single :=
    (updateEntries_single _ _).bind (fun _ => trivial)
  refine Prog.Single.bind (fun _ _ => trivial) ?_
  intro dbNow
  refine Prog.Single.bind (fun _ _ => trivial) ?_
  intro ownerEnabled
  split
  · exact hExpire dbNow
  split
  · exact hExpire dbNow
  refine Prog.Single.bind (fun _ _ => trivial) ?_
  intro hasOverlap
  split
  · trivial
  refine Prog.Single.bind (fun _ _ => trivial) ?_
  intro offerNow
  refine Prog.Single.bind (fun _ _ => trivial) ?_
  intro bookingId
  refine Prog.Single.bind (fun _ _ => trivial) ?_
  intro createdAt
  exact attemptOffer_single e bookingId offerNow createdAt

/- The two loops of a promotion stay in the transaction. -/
theorem promotePage_single
    (entries : List WaitlistEntry)
    (promoted : List Uuid) :
    (promotePage rid entries promoted).Single := by
  induction entries generalizing promoted with
  | nil => trivial
  | cons e es ih =>
      refine Prog.Single.bind (promoteEntry_single e) ?_
      intro offered
      exact ih _

theorem scanWaiting_single
    (pageSize bound : ℕ)
    (cursor : Option (ℤ ×ₗ Uuid))
    (promoted : List Uuid) :
    (scanWaiting rid pageSize bound cursor promoted).Single := by
  induction bound generalizing cursor promoted with
  | zero => trivial
  | succ bound ih =>
      refine Prog.Single.bind (fun _ _ => trivial) ?_
      intro entries
      split
      · trivial
      · refine Prog.Single.bind (promotePage_single _ _) ?_
        intro promoted
        split
        · trivial
        · exact ih _ _

theorem promoteWaiters_single
    (pageSize : ℕ) :
    (promoteWaiters pageSize rid).Single := by
  refine Prog.Single.bind (fun _ _ => trivial) ?_
  intro rows
  exact scanWaiting_single pageSize _ none []

end PigBook

------------------------------------------------------------
-- Bookings and Blackouts
------------------------------------------------------------

namespace PigBook

open ReadCommitted

variable {rid : Uuid} {scope : Scope}
variable {startsAt endsAt : Datetime}

/- An overlap is answered, and any other violation fails. -/
theorem insertConfirmed_single
    {principalId : Uuid}
    {r : TimeRange}
    {kind : Kind} :
    (insertConfirmed rid principalId r kind).Single := by
  refine Prog.Single.bind (fun _ _ => trivial) ?_
  intro found
  cases found with
  | none => trivial
  | some resource =>
      dsimp only
      split
      · trivial
      refine Prog.Single.bind (fun _ _ => trivial) ?_
      intro bookingId
      refine Prog.Single.bind (fun _ _ => trivial) ?_
      intro createdAt
      refine Prog.Single.bind (fun _ _ => trivial) ?_
      intro violation
      split
      · trivial
      · trivial
      · trivial

theorem createBooking_single :
    (createBooking rid scope startsAt endsAt).Single := by
  refine Prog.Single.bind (fun _ _ => trivial) ?_
  intro dbNow
  split
  · trivial
  refine Prog.Single.bind insertConfirmed_single ?_
  intro inserted
  split
  · trivial
  · trivial
  · trivial
  · exact
      Prog.Single.bind appendEvent_single (fun _ => trivial)

theorem insertBlackout_single :
    (insertBlackout rid scope startsAt endsAt).Single := by
  refine Prog.Single.bind (fun _ _ => trivial) ?_
  intro found
  cases found with
  | none => trivial
  | some resource =>
      dsimp only
      split
      · trivial
      refine Prog.Single.bind (fun _ _ => trivial) ?_
      intro dbNow
      split
      · trivial
      refine Prog.Single.bind (fun _ _ => trivial) ?_
      intro bookingId
      refine Prog.Single.bind (fun _ _ => trivial) ?_
      intro violation
      split
      · trivial
      · trivial
      exact audited_single trivial

theorem createBlackout_single :
    (createBlackout rid scope startsAt endsAt).Single := by
  refine Prog.Single.bind (fun _ _ => trivial) ?_
  intro dbNow
  refine Prog.Single.bind insertBlackout_single ?_
  intro inserted
  split
  · trivial
  · trivial
  · trivial
  · trivial

theorem auditCancellation_single
    (bookingId : Uuid)
    (reason : String)
    (now : ℤ) :
    (auditCancellation rid scope bookingId reason now).Single := by
  unfold auditCancellation
  split
  · exact audited_single trivial
  · trivial

/-
  A cancellation and the promotion that follows it are one
  transaction.
-/
theorem cancelBooking_single
    (bookingId : Uuid)
    (expectedVersion : ℕ)
    (reason : String) :
    (cancelBooking rid scope bookingId expectedVersion
      reason).Single := by
  refine Prog.Single.bind (fun _ _ => trivial) ?_
  intro resource
  refine Prog.Single.bind (fun _ _ => trivial) ?_
  intro rows
  refine Prog.Single.bind (scalarOneOrNone_single rows) ?_
  intro row
  cases row with
  | none => trivial
  | some b =>
      refine Prog.Single.bind (fun _ _ => trivial) ?_
      intro dbNow
      dsimp only
      split
      · trivial
      split
      · trivial
      split
      · trivial
      split
      · trivial
      split
      · trivial
      refine Prog.Single.bind (updateBookings_single _ _) ?_
      intro count
      split
      · trivial
      refine Prog.Single.bind (refreshBooking_single b) ?_
      intro cancelled
      refine Prog.Single.bind (updateEntries_single _ _) ?_
      intro released
      refine Prog.Single.bind appendEvent_single ?_
      intro eventId
      refine Prog.Single.bind (auditCancellation_single _ _ _) ?_
      intro _
      exact
        (promoteWaiters_single _).bind (fun _ => trivial)

theorem cancelBlackout_single
    (blackoutId : Uuid)
    (expectedVersion : ℕ) :
    (cancelBlackout rid scope blackoutId
      expectedVersion).Single := by
  refine Prog.Single.bind (fun _ _ => trivial) ?_
  intro resource
  refine Prog.Single.bind (fun _ _ => trivial) ?_
  intro rows
  refine Prog.Single.bind (scalarOneOrNone_single rows) ?_
  intro row
  cases row with
  | none => trivial
  | some b =>
      refine Prog.Single.bind (fun _ _ => trivial) ?_
      intro dbNow
      dsimp only
      split
      · trivial
      split
      · trivial
      split
      · trivial
      split
      · trivial
      refine Prog.Single.bind (updateBookings_single _ _) ?_
      intro count
      split
      · trivial
      refine Prog.Single.bind (refreshBooking_single b) ?_
      intro updated
      apply audited_single
      exact
        (promoteWaiters_single _).bind (fun _ => trivial)

end PigBook

------------------------------------------------------------
-- The Waitlist
------------------------------------------------------------

namespace PigBook

open ReadCommitted

variable {rid : Uuid} {scope : Scope}
variable {startsAt endsAt : Datetime}
variable {entryId : Uuid} {expectedVersion : ℕ}

/-
  The checks of a join read only, and answer before it
  writes.
-/
theorem joinWaitlist_single :
    (joinWaitlist rid scope startsAt endsAt).Single := by
  refine Prog.Single.bind (fun _ _ => trivial) ?_
  intro dbNow
  split
  · trivial
  refine Prog.Single.bind (fun _ _ => trivial) ?_
  intro found
  cases found with
  | none => trivial
  | some resource =>
      dsimp only
      split
      · trivial
      refine Prog.Single.bind (fun _ _ => trivial) ?_
      intro overlapping
      split
      · trivial
      split
      · trivial
      refine Prog.Single.bind (fun _ _ => trivial) ?_
      intro existing
      refine Prog.Single.bind (scalarOneOrNone_single _) ?_
      intro row
      split
      · trivial
      refine Prog.Single.bind (fun _ _ => trivial) ?_
      intro activeCount
      split
      · trivial
      refine Prog.Single.bind (fun _ _ => trivial) ?_
      intro newId
      refine Prog.Single.bind (fun _ _ => trivial) ?_
      intro createdAt
      refine Prog.Single.bind (fun _ _ => trivial) ?_
      intro violation
      split
      · trivial
      · trivial
      exact
        (refreshEntry_single _).bind (fun _ => trivial)

/-
  A late accept commits as well: expiry, event and promotion,
  and then the refusal.
-/
theorem acceptOffer_single :
    (acceptOffer rid scope entryId expectedVersion).Single := by
  refine Prog.Single.bind (fun _ _ => trivial) ?_
  intro resource
  refine Prog.Single.bind (fun _ _ => trivial) ?_
  intro entryRows
  refine Prog.Single.bind (scalarOneOrNone_single _) ?_
  intro row
  cases row with
  | none => trivial
  | some e =>
      dsimp only
      split
      · trivial
      split
      · trivial
      split
      · trivial
      refine Prog.Single.bind (fun _ _ => trivial) ?_
      intro bookingRows
      refine Prog.Single.bind (scalarOneOrNone_single _) ?_
      intro linked
      cases linked with
      | none => trivial
      | some b =>
          dsimp only
          split
          · trivial
          refine Prog.Single.bind (fun _ _ => trivial) ?_
          intro dbNow
          split
          · refine Prog.Single.bind (updateEntry_single _ _) ?_
            intro _
            refine Prog.Single.bind (updateBooking_single _ _) ?_
            intro _
            refine Prog.Single.bind (refreshBooking_single b) ?_
            intro expired
            refine Prog.Single.bind appendEvent_single ?_
            intro eventId
            exact
              (promoteWaiters_single _).bind (fun _ => trivial)
          · refine Prog.Single.bind (updateBooking_single _ _) ?_
            intro _
            refine Prog.Single.bind (refreshBooking_single b) ?_
            intro confirmed
            refine Prog.Single.bind (updateEntry_single _ _) ?_
            intro _
            exact
              Prog.Single.bind appendEvent_single
                (fun _ => trivial)

/-
  A hold that is gone, or no longer offered, is left as it
  is.
-/
theorem releaseOffered_single
    (e : WaitlistEntry)
    (dbNow : ℤ) :
    (releaseOffered e dbNow).Single := by
  unfold releaseOffered
  split
  · trivial
  refine Prog.Single.bind (fun _ _ => trivial) ?_
  intro bookingRows
  refine Prog.Single.bind (scalarOneOrNone_single _) ?_
  intro linked
  cases linked with
  | none => trivial
  | some b =>
      dsimp only
      split
      · exact updateBooking_single _ _
      · trivial

theorem declineEntry_single :
    (declineEntry rid scope entryId expectedVersion).Single := by
  refine Prog.Single.bind (fun _ _ => trivial) ?_
  intro resource
  refine Prog.Single.bind (fun _ _ => trivial) ?_
  intro entryRows
  refine Prog.Single.bind (scalarOneOrNone_single _) ?_
  intro row
  cases row with
  | none => trivial
  | some e =>
      dsimp only
      split
      · trivial
      split
      · trivial
      split
      · trivial
      refine Prog.Single.bind (fun _ _ => trivial) ?_
      intro dbNow
      split
      · trivial
      split
      · refine Prog.Single.bind (updateEntry_single _ _) ?_
        intro _
        exact
          (refreshEntry_single _).bind (fun _ => trivial)
      · refine Prog.Single.bind (releaseOffered_single _ _) ?_
        intro _
        refine Prog.Single.bind (updateEntry_single _ _) ?_
        intro _
        refine Prog.Single.bind (refreshEntry_single e) ?_
        intro declined
        exact
          (promoteWaiters_single _).bind (fun _ => trivial)

end PigBook

------------------------------------------------------------
-- Expiry and Resources
------------------------------------------------------------

namespace PigBook

open ReadCommitted

variable {rid : Uuid} {scope : Scope}
variable {expectedVersion : ℕ}

/- An offered booking may have no entry that points to it. -/
theorem expireHold_single
    (dbNow : ℤ)
    (b : Booking) :
    (expireHold rid dbNow b).Single := by
  refine Prog.Single.bind (fun _ _ => trivial) ?_
  intro entryRows
  refine Prog.Single.bind (scalarOneOrNone_single _) ?_
  intro row
  have hRest :
      ((updateBooking b (.transition .expired dbNow)).bind
        (fun _ => (refreshBooking b).bind (fun b =>
          (appendEvent rid .holdExpired b dbNow).bind
            (fun _ => Prog.done ())))).Single := by
    refine Prog.Single.bind (updateBooking_single _ _) ?_
    intro _
    refine Prog.Single.bind (refreshBooking_single b) ?_
    intro expired
    exact
      Prog.Single.bind appendEvent_single (fun _ => trivial)
  cases row with
  | none => exact hRest
  | some e => exact (updateEntry_single _ _).bind (fun _ => hRest)

theorem expireHolds_single
    (dbNow : ℤ)
    (bookings : List Booking) :
    (expireHolds rid dbNow bookings).Single := by
  induction bookings with
  | nil => trivial
  | cons b bs ih =>
      exact (expireHold_single dbNow b).bind (fun _ => ih)

/- The cycle of the scheduler for one resource. -/
theorem expireAndPromote_single :
    (expireAndPromote rid).Single := by
  refine Prog.Single.bind (fun _ _ => trivial) ?_
  intro found
  cases found with
  | none => trivial
  | some resource =>
      refine Prog.Single.bind (fun _ _ => trivial) ?_
      intro dbNow
      refine Prog.Single.bind (fun _ _ => trivial) ?_
      intro dueBookings
      refine Prog.Single.bind (expireHolds_single _ _) ?_
      intro _
      exact
        (promoteWaiters_single _).bind (fun _ => trivial)

/-
  A resource in use is a failure, so the update that follows
  sees none.
-/
theorem checkResourceNotInUse_single
    (dbNow : ℤ) :
    (checkResourceNotInUse dbNow).Single := by
  refine Prog.Single.bind (fun _ _ => trivial) ?_
  intro bookingCount
  refine Prog.Single.bind (fun _ _ => trivial) ?_
  intro waitCount
  split
  · trivial
  · trivial

/- The guard on the version finds the row or nothing. -/
theorem updateResourceRow_single
    (f : Resource → Resource) :
    (updateResourceRow rid expectedVersion f).Single := by
  intro s _
  dsimp only
  split
  · split
    · split
      · trivial
      · trivial
    · trivial
  · trivial

/- The answer to an update of the resource, if there is one. -/
theorem updatedResource_single
    {f : Resource → Resource}
    {answer : Option Resource → Tx Reply}
    (hNone : (answer none).Single)
    (hSome : ∀ updated, (answer (some updated)).Single) :
    ((updateResourceRow rid expectedVersion f).bind
      answer).Single := by
  refine Prog.Single.bind (updateResourceRow_single f) ?_
  intro row
  cases row with
  | none => exact hNone
  | some updated => exact hSome updated

/- Only a patch that deactivates makes the check. -/
theorem updateResource_single
    (patch : ResourcePatch) :
    (updateResource rid scope expectedVersion patch).Single := by
  refine Prog.Single.bind (fun _ _ => trivial) ?_
  intro found
  cases found with
  | none => trivial
  | some resource =>
      dsimp only
      split
      · trivial
      split
      · trivial
      refine Prog.Single.bind (fun _ _ => trivial) ?_
      intro dbNow
      split
      · refine (checkResourceNotInUse_single dbNow).bind ?_
        intro _
        refine updatedResource_single ?_ ?_
        · trivial
        · exact fun updated => audited_single trivial
      · refine updatedResource_single ?_ ?_
        · trivial
        · exact fun updated => audited_single trivial

theorem archiveResource_single :
    (archiveResource rid scope expectedVersion).Single := by
  refine Prog.Single.bind (fun _ _ => trivial) ?_
  intro found
  cases found with
  | none => trivial
  | some resource =>
      dsimp only
      split
      · trivial
      refine Prog.Single.bind (fun _ _ => trivial) ?_
      intro dbNow
      refine
        Prog.Single.bind (checkResourceNotInUse_single _) ?_
      intro _
      refine updatedResource_single ?_ ?_
      · trivial
      · exact fun archived => audited_single trivial

/- No request ends its transaction on the way. -/
theorem Request.single
    (rid : Uuid)
    (request : Request) :
    (request.program rid).Single := by
  cases request with
  | createBooking scope startsAt endsAt =>
      exact createBooking_single
  | createBlackout scope startsAt endsAt =>
      exact createBlackout_single
  | cancelBooking scope bookingId expectedVersion reason =>
      exact cancelBooking_single _ _ _
  | cancelBlackout scope blackoutId expectedVersion =>
      exact cancelBlackout_single _ _
  | joinWaitlist scope startsAt endsAt =>
      exact joinWaitlist_single
  | acceptOffer scope entryId expectedVersion =>
      exact acceptOffer_single
  | declineEntry scope entryId expectedVersion =>
      exact declineEntry_single
  | expireAndPromote => exact expireAndPromote_single
  | updateResource scope expectedVersion patch =>
      exact updateResource_single patch
  | archiveResource scope expectedVersion =>
      exact archiveResource_single

end PigBook
