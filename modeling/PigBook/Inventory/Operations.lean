import PigBook.Inventory.Promotion

/-
  The transactions of the inventory, each over the cell of
  the resource that it locks.

  Key definitions include:
    * `Scope`, `Reply`
    * `createBooking` and `insertConfirmed`
    * `createBlackout`, `cancelBlackout`
    * `joinWaitlist`, `acceptOffer`, `declineEntry`
    * `cancelBooking`
    * `expireAndPromote`
    * `updateResource`, `archiveResource`
    * `Request` and `Request.program`
-/

------------------------------------------------------------
-- Requests and Replies
------------------------------------------------------------

namespace PigBook

/-
  What the authorization dependency hands to a service: the
  principal, whether only the principal's own rows are in
  scope, and the predicates of the administrative scope.
-/
structure Scope where
  principalId : Uuid
  own : Bool
  allowRunning : Bool
  audit : Bool
  requestId : Option Uuid

namespace Scope

/- The scope of the own-booking and own-waitlist routes. -/
def owner (principalId : Uuid) : Scope where
  principalId := principalId
  own := true
  allowRunning := false
  audit := false
  requestId := none

/- The scope of the administrative booking routes. -/
def admin
    (principalId : Uuid)
    (requestId : Option Uuid) : Scope where
  principalId := principalId
  own := false
  allowRunning := true
  audit := true
  requestId := requestId

end Scope

/- The fields of a booking that responses show. -/
structure BookingSchema where
  id : Uuid
  resourceId : Uuid
  userId : Option Uuid
  kind : Kind
  startsAt : ℤ
  endsAt : ℤ
  status : BookingStatus
  expiresAt : Option ℤ
  cancellationReason : Option String
  version : ℕ
  createdAt : ℤ
  updatedAt : ℤ
deriving DecidableEq

def Booking.schema
    (rid : Uuid)
    (b : Booking) : BookingSchema where
  id := b.id
  resourceId := rid
  userId := b.userId
  kind := b.kind
  startsAt := b.timeRange.lower
  endsAt := b.timeRange.upper
  status := b.status
  expiresAt := b.expiresAt
  cancellationReason := b.cancellationReason
  version := b.version
  createdAt := b.createdAt
  updatedAt := b.updatedAt

/- The fields of a waitlist entry that responses show. -/
structure WaitEntry where
  id : Uuid
  userId : Uuid
  resourceId : Uuid
  startsAt : ℤ
  endsAt : ℤ
  status : EntryStatus
  offeredBookingId : Option Uuid
  version : ℕ
  createdAt : ℤ
  updatedAt : ℤ
deriving DecidableEq

def WaitlistEntry.schema
    (rid : Uuid)
    (e : WaitlistEntry) : WaitEntry where
  id := e.id
  userId := e.userId
  resourceId := rid
  startsAt := e.timeRange.lower
  endsAt := e.timeRange.upper
  status := e.status
  offeredBookingId := e.offeredBookingId
  version := e.version
  createdAt := e.createdAt
  updatedAt := e.updatedAt

/- The body of a stored response. -/
inductive Body
  | booking (b : BookingSchema)
  | error (code message : String)
deriving DecidableEq

structure StoredResponse where
  status : ℕ
  body : Body
  headers : List (String × String)
deriving DecidableEq

/- What a transaction answers when it commits. -/
inductive Reply
  | booking (b : BookingSchema)
  | entry (e : WaitEntry)
  | stored (response : StoredResponse)
  | resource (r : Resource)
  | expired (count : ℕ)
deriving DecidableEq

/- The 409 response of a conflict. -/
def conflict (code message : String) : StoredResponse where
  status := 409
  body := .error code message
  headers := []

def etag (version : ℕ) : String :=
  "\"" ++ toString version ++ "\""

end PigBook

------------------------------------------------------------
-- Creating Bookings and Blackouts
------------------------------------------------------------

namespace PigBook

open ReadCommitted

/-
  Insert a confirmed booking under the shared lock of its
  resource.  An exception that callers may catch is answered
  as a value.
-/
def insertConfirmed
    (rid : Uuid)
    (principalId : Uuid)
    (r : TimeRange)
    (kind : Kind) : Tx (Except Error Booking) := do
  match ← selectResourceForShare rid with
  | none =>
      return .error
        (.notFound ("Resource " ++ rid.str ++ " not found"))
  | some resource =>
      if !resource.active then
        return .error (.resourceInactive
          ("Resource " ++ rid.str ++ " is inactive"))
      let bookingId ← uuid4
      let createdAt ← transactionTime
      let b : Booking := {
        id := bookingId
        userId :=
          if kind = .reservation then some principalId
          else none
        createdBy := principalId
        kind := kind
        timeRange := r
        status := .confirmed
        expiresAt := none
        cancellationReason := none
        version := 1
        createdAt := createdAt
        updatedAt := createdAt
      }
      match ← insertBooking rid b with
      | none => return .ok b
      | some .bookingsNoOverlap =>
          return .error (.slotConflict
            "Slot conflict: requested time interval is not available")
      | some c => Prog.fail (.integrityError c)

/- The operation of the endpoint that creates a booking. -/
def createBooking
    (rid : Uuid)
    (scope : Scope)
    (startsAt endsAt : Datetime) : Tx Reply := do
  let dbNow ← clockTimestamp
  match validateBookingWindow startsAt endsAt dbNow with
  | .error e => Prog.fail e
  | .ok r =>
      let inserted ←
        insertConfirmed rid scope.principalId r .reservation
      match inserted with
      | .error (.slotConflict message) =>
          return .stored (conflict "SLOT_CONFLICT" message)
      | .error (.resourceInactive message) =>
          return .stored
            (conflict "RESOURCE_INACTIVE" message)
      | .error e => Prog.fail e
      | .ok b =>
          let _ ← appendEvent rid .bookingConfirmed b dbNow
          return .stored {
            status := 201
            body := .booking (b.schema rid)
            headers :=
              [("Location", "/api/v1/bookings/" ++ b.id.str),
                ("ETag", etag b.version)]
          }

/- The request id of an audit record. -/
def auditRequestId (scope : Scope) : Tx Uuid :=
  match scope.requestId with
  | some requestId => return requestId
  | none => uuid4

/- The insertion of a blackout, with exceptions as values. -/
def insertBlackout
    (rid : Uuid)
    (scope : Scope)
    (startsAt endsAt : Datetime) :
    Tx (Except Error Booking) := do
  match ← selectResourceForShare rid with
  | none =>
      return .error
        (.notFound ("Resource " ++ rid.str ++ " not found"))
  | some resource =>
      if !resource.active then
        return .error (.resourceInactive
          ("Resource " ++ rid.str ++ " is inactive"))
      let dbNow ← clockTimestamp
      match validateBlackoutWindow startsAt endsAt dbNow with
      | .error e => return .error e
      | .ok r =>
          let bookingId ← uuid4
          let b : Booking := {
            id := bookingId
            userId := none
            createdBy := scope.principalId
            kind := .blackout
            timeRange := r
            status := .confirmed
            expiresAt := none
            cancellationReason := none
            version := 1
            createdAt := dbNow
            updatedAt := dbNow
          }
          match ← insertBooking rid b with
          | some .bookingsNoOverlap =>
              return .error (.slotConflict
                "Slot conflict: requested time interval is not available")
          | some c => Prog.fail (.integrityError c)
          | none =>
              let requestId ← auditRequestId scope
              let _ ← appendAuditLog "admin.blackout_create"
                "booking" (some bookingId)
                (some scope.principalId) requestId
                (.blackoutCreate rid r.lower r.upper) dbNow
              return .ok b

/- The operation of the endpoint that creates a blackout. -/
def createBlackout
    (rid : Uuid)
    (scope : Scope)
    (startsAt endsAt : Datetime) : Tx Reply := do
  let _ ← clockTimestamp
  match ← insertBlackout rid scope startsAt endsAt with
  | .error (.slotConflict message) =>
      return .stored (conflict "SLOT_CONFLICT" message)
  | .error (.resourceInactive message) =>
      return .stored (conflict "RESOURCE_INACTIVE" message)
  | .error e => Prog.fail e
  | .ok b =>
      return .stored {
        status := 201
        body := .booking (b.schema rid)
        headers :=
          [("Location",
              "/api/v1/admin/blackouts/" ++ b.id.str),
            ("ETag", etag b.version)]
      }

end PigBook

------------------------------------------------------------
-- Cancelling Bookings and Blackouts
------------------------------------------------------------

namespace PigBook

open ReadCommitted

/- The booking that a cancellation addresses. -/
def Scope.selectsBooking
    (scope : Scope)
    (bookingId : Uuid)
    (b : Booking) : Bool :=
  b.id = bookingId ∧ b.kind = .reservation ∧
    (scope.own → b.userId = some scope.principalId)

/- Cancellation with the reason that the caller gives. -/
def Booking.cancel
    (reason : String)
    (now : ℤ)
    (b : Booking) : Booking :=
  { b.transition .cancelled now with
    cancellationReason := some reason }

/- The audit record of an administrator's cancellation. -/
def auditCancellation
    (rid : Uuid)
    (scope : Scope)
    (bookingId : Uuid)
    (reason : String)
    (now : ℤ) : Tx Unit :=
  if scope.audit then do
    let requestId ← auditRequestId scope
    let _ ← appendAuditLog "admin.booking_cancel" "booking"
      (some bookingId) (some scope.principalId) requestId
      (.bookingCancel rid reason.length) now
    return ()
  else
    return ()

def cancelBooking
    (rid : Uuid)
    (scope : Scope)
    (bookingId : Uuid)
    (expectedVersion : ℕ)
    (reason : String) : Tx Reply := do
  let _ ← selectResourceForUpdate rid
  let rows ←
    selectBookingsForUpdate (scope.selectsBooking bookingId)
  match ← scalarOneOrNone rows with
  | none => Prog.fail (.notFound "Booking not found")
  | some b =>
      let dbNow ← clockTimestamp
      if b.version ≠ expectedVersion then
        Prog.fail (.versionMismatch
          "Booking has been modified by another request")
      else if b.status = .cancelled then
        return .booking (b.schema rid)
      else if b.status.active = false then
        Prog.fail (.invalidState
          ("A booking in state '" ++ b.status.str ++
            "' cannot be cancelled"))
      else if scope.allowRunning ∧
          b.timeRange.upper ≤ dbNow then
        Prog.fail (.tooLate
          "A completed booking cannot be cancelled")
      else if ¬ scope.allowRunning ∧
          b.timeRange.lower ≤ dbNow then
        Prog.fail (.tooLate
          "A booking can only be cancelled before it starts")
      else
        let count ← updateBookings
          (fun b' =>
            b'.id = bookingId ∧ b'.version = expectedVersion)
          (Booking.cancel reason dbNow)
        if count ≠ 1 then
          Prog.fail (.runtimeError
            ("Booking " ++ bookingId.str ++
              " version invariant violation"))
        let b ← refreshBooking b
        let _ ← updateEntries
          (fun e =>
            e.offeredBookingId = some bookingId ∧
              e.status = .offered)
          (WaitlistEntry.transition .cancelled dbNow)
        let _ ← appendEvent rid .bookingCancelled b dbNow
        auditCancellation rid scope bookingId reason dbNow
        let _ ← promoteWaiters promotionPageSize rid
        return .booking (b.schema rid)

def cancelBlackout
    (rid : Uuid)
    (scope : Scope)
    (blackoutId : Uuid)
    (expectedVersion : ℕ) : Tx Reply := do
  let _ ← selectResourceForUpdate rid
  let rows ← selectBookingsForUpdate (fun b =>
    b.id = blackoutId ∧ b.kind = .blackout)
  match ← scalarOneOrNone rows with
  | none => Prog.fail (.notFound "Blackout not found")
  | some b =>
      let dbNow ← clockTimestamp
      if b.version ≠ expectedVersion then
        Prog.fail (.versionMismatch
          "Blackout has been modified by another request")
      else if b.status = .cancelled then
        return .booking (b.schema rid)
      else if b.status ≠ .confirmed then
        Prog.fail (.invalidState
          ("Blackout in state '" ++ b.status.str ++
            "' cannot be cancelled"))
      else if b.timeRange.upper ≤ dbNow then
        Prog.fail (.tooLate
          "A completed blackout cannot be cancelled")
      else
        let count ← updateBookings
          (fun b' =>
            b'.id = blackoutId ∧
              b'.version = expectedVersion)
          (fun b' =>
            { b' with
              status := .cancelled
              version := b'.version + 1
              updatedAt := dbNow })
        if count ≠ 1 then
          Prog.fail (.versionMismatch
            "Blackout has been modified by another request")
        let updated ← refreshBooking b
        let requestId ← auditRequestId scope
        let _ ← appendAuditLog "admin.blackout_cancel"
          "booking" (some blackoutId)
          (some scope.principalId) requestId
          (.blackoutCancel rid) dbNow
        let _ ← promoteWaiters promotionPageSize rid
        return .booking (updated.schema rid)

end PigBook

------------------------------------------------------------
-- The Waitlist
------------------------------------------------------------

namespace PigBook

open ReadCommitted

/- The most entries that may wait for a resource. -/
def waitlistCapacity : ℕ := 500

def joinWaitlist
    (rid : Uuid)
    (scope : Scope)
    (startsAt endsAt : Datetime) : Tx Reply := do
  let dbNow ← clockTimestamp
  match validateBookingWindow startsAt endsAt dbNow with
  | .error e => Prog.fail e
  | .ok r =>
      match ← selectResourceForUpdate rid with
      | none =>
          Prog.fail (.notFound
            ("Resource " ++ rid.str ++ " not found"))
      | some resource =>
          if !resource.active then
            Prog.fail (.resourceInactive
              ("Resource " ++ rid.str ++ " is inactive"))
          let overlapping ← selectRows (fun s =>
            s.bookings.filter (fun b => b.Occupies r))
          if overlapping = [] then
            Prog.fail (.slotAvailable
              "Requested slot is available for direct booking")
          if ∃ b ∈ overlapping, b.kind = .reservation ∧
              b.userId = some scope.principalId then
            Prog.fail (.alreadyBooked
              "User already owns an active reservation overlapping this interval")
          let existing ← selectRows (fun s =>
            s.entries.filter (fun e =>
              e.userId = scope.principalId ∧
                e.timeRange = r ∧ e.status.active))
          if (← scalarOneOrNone existing).isSome then
            Prog.fail (.alreadyWaitlisted
              "User is already on the waitlist for this window")
          let activeCount ← selectRows (fun s =>
            (s.entries.filter (·.status.active)).length)
          if waitlistCapacity ≤ activeCount then
            Prog.fail (.waitlistFull
              "The waitlist for this resource is currently full (maximum 500 active entries)")
          let entryId ← uuid4
          let createdAt ← transactionTime
          let e : WaitlistEntry := {
            id := entryId
            userId := scope.principalId
            timeRange := r
            status := .waiting
            offeredBookingId := none
            version := 1
            createdAt := createdAt
            updatedAt := createdAt
          }
          match ← insertEntry rid e with
          | some .waitlistActiveUniqueIdx =>
              Prog.fail (.alreadyWaitlisted
                "User is already on the waitlist for this window")
          | some c => Prog.fail (.integrityError c)
          | none =>
              let e ← refreshEntry e
              return .entry (e.schema rid)

/- The entry that an owner's request addresses. -/
def Scope.selectsEntry
    (scope : Scope)
    (entryId : Uuid)
    (e : WaitlistEntry) : Bool :=
  e.id = entryId ∧ e.userId = scope.principalId

/- An UPDATE of the one row that a transaction has read. -/
def updateEntry
    (e : WaitlistEntry)
    (f : WaitlistEntry → WaitlistEntry) : Tx Unit := do
  let count ← updateEntries e.current f
  if count ≠ 1 then
    Prog.fail (.runtimeError
      ("Waitlist entry " ++ e.id.str ++
        " version invariant violation"))

def updateBooking
    (b : Booking)
    (f : Booking → Booking) : Tx Unit := do
  let count ← updateBookings b.current f
  if count ≠ 1 then
    Prog.fail (.runtimeError
      ("Booking " ++ b.id.str ++
        " version invariant violation"))

/-
  Accept an offer.  At or after the deadline the expiry and
  the promotion are committed with the answer 409.
-/
def acceptOffer
    (rid : Uuid)
    (scope : Scope)
    (entryId : Uuid)
    (expectedVersion : ℕ) : Tx Reply := do
  let _ ← selectResourceForUpdate rid
  let entryRows ←
    selectEntriesForUpdate (scope.selectsEntry entryId)
  match ← scalarOneOrNone entryRows with
  | none => Prog.fail (.notFound "Waitlist entry not found")
  | some e =>
      if e.version ≠ expectedVersion then
        Prog.fail (.versionMismatch
          "Waitlist entry has been modified by another request")
      else if e.status ≠ .offered then
        Prog.fail (.invalidState
          ("Waitlist entry in status '" ++ e.status.str ++
            "' cannot be accepted"))
      else
        match e.offeredBookingId with
        | none =>
            Prog.fail (.invalidState
              "Offered waitlist entry has no linked offered booking")
        | some bookingId =>
            let bookingRows ←
              selectBookingsForUpdate (·.id = bookingId)
            match ← scalarOneOrNone bookingRows with
            | none =>
                Prog.fail (.invalidState
                  "Linked booking is not in offered status")
            | some b =>
                if b.status ≠ .offered then
                  Prog.fail (.invalidState
                    "Linked booking is not in offered status")
                let dbNow ← clockTimestamp
                if ∃ deadline ∈ b.expiresAt,
                    deadline ≤ dbNow then
                  updateEntry e (.transition .expired dbNow)
                  updateBooking b
                    (.transition .expired dbNow)
                  let b ← refreshBooking b
                  let _ ← appendEvent rid .holdExpired b dbNow
                  let _ ←
                    promoteWaiters promotionPageSize rid
                  return .stored (conflict "HOLD_EXPIRED"
                    "The offer for this booking has expired")
                else
                  updateBooking b
                    (.transition .confirmed dbNow)
                  let b ← refreshBooking b
                  updateEntry e (.transition .accepted dbNow)
                  let _ ←
                    appendEvent rid .bookingConfirmed b dbNow
                  return .stored {
                    status := 200
                    body := .booking (b.schema rid)
                    headers := [("ETag", etag b.version)]
                  }

/- Cancel the booking that an offered entry holds. -/
def releaseOffered
    (e : WaitlistEntry)
    (dbNow : ℤ) : Tx Unit :=
  match e.offeredBookingId with
  | none => return ()
  | some bookingId => do
      let bookingRows ←
        selectBookingsForUpdate (·.id = bookingId)
      match ← scalarOneOrNone bookingRows with
      | none => return ()
      | some b =>
          if b.status = .offered then
            updateBooking b (.transition .cancelled dbNow)

def declineEntry
    (rid : Uuid)
    (scope : Scope)
    (entryId : Uuid)
    (expectedVersion : ℕ) : Tx Reply := do
  let _ ← selectResourceForUpdate rid
  let entryRows ←
    selectEntriesForUpdate (scope.selectsEntry entryId)
  match ← scalarOneOrNone entryRows with
  | none => Prog.fail (.notFound "Waitlist entry not found")
  | some e =>
      if e.version ≠ expectedVersion then
        Prog.fail (.versionMismatch
          "Waitlist entry has been modified by another request")
      else if e.status = .cancelled then
        return .entry (e.schema rid)
      else if e.status.active = false then
        Prog.fail (.invalidState
          ("Waitlist entry in status '" ++ e.status.str ++
            "' cannot be cancelled"))
      else
        let dbNow ← clockTimestamp
        if e.timeRange.lower ≤ dbNow then
          Prog.fail (.tooLate
            "A waitlist entry can only be withdrawn before its slot starts")
        else if e.status = .waiting then
          updateEntry e (.transition .cancelled dbNow)
          let e ← refreshEntry e
          return .entry (e.schema rid)
        else
          releaseOffered e dbNow
          updateEntry e (.transition .cancelled dbNow)
          let e ← refreshEntry e
          let _ ← promoteWaiters promotionPageSize rid
          return .entry (e.schema rid)

end PigBook

------------------------------------------------------------
-- Hold Expiry
------------------------------------------------------------

namespace PigBook

open ReadCommitted

/- Expire one overdue hold with its entry. -/
def expireHold
    (rid : Uuid)
    (dbNow : ℤ)
    (b : Booking) : Tx Unit := do
  let entryRows ← selectEntriesForUpdate
    (·.offeredBookingId = some b.id)
  match ← scalarOneOrNone entryRows with
  | none => pure ()
  | some e => updateEntry e (.transition .expired dbNow)
  updateBooking b (.transition .expired dbNow)
  let b ← refreshBooking b
  let _ ← appendEvent rid .holdExpired b dbNow
  return ()

def expireHolds
    (rid : Uuid)
    (dbNow : ℤ) : List Booking → Tx Unit
| [] => return ()
| b :: bs => do
    expireHold rid dbNow b
    expireHolds rid dbNow bs

/- The booking is an overdue hold. -/
def Booking.due (dbNow : ℤ) (b : Booking) : Bool :=
  b.status = .offered ∧
    ∃ deadline ∈ b.expiresAt, deadline ≤ dbNow

/- The transaction of the hold expiry scheduler. -/
def expireAndPromote (rid : Uuid) : Tx Reply := do
  match ← selectResourceSkipLocked rid with
  | none => return .expired 0
  | some _ =>
      let dbNow ← clockTimestamp
      let dueBookings ←
        selectBookingsForUpdate (Booking.due dbNow)
      expireHolds rid dbNow dueBookings
      let _ ← promoteWaiters promotionPageSize rid
      return .expired dueBookings.length

end PigBook

------------------------------------------------------------
-- Resources
------------------------------------------------------------

namespace PigBook

open ReadCommitted

/- The fields that a patch of a resource sets. -/
structure ResourcePatch where
  name : Option String
  description : Option String
  location : Option String
  active : Option Bool
deriving DecidableEq

namespace ResourcePatch

/- The names of the fields set, in alphabetical order. -/
def fields (patch : ResourcePatch) : List String :=
  (if patch.active.isSome then ["active"] else []) ++
  (if patch.description.isSome then ["description"]
    else []) ++
  (if patch.location.isSome then ["location"] else []) ++
  (if patch.name.isSome then ["name"] else [])

def apply
    (patch : ResourcePatch)
    (now : ℤ)
    (r : Resource) : Resource :=
  { r with
    name := patch.name.getD r.name
    description := patch.description.getD r.description
    location := patch.location.getD r.location
    active := patch.active.getD r.active
    version := r.version + 1
    updatedAt := now }

end ResourcePatch

/- `_check_resource_not_in_use`. -/
def checkResourceNotInUse (dbNow : ℤ) : Tx Unit := do
  let bookingCount ← selectRows (fun s =>
    (s.bookings.filter (fun b =>
      b.status.active ∧ dbNow < b.timeRange.upper)).length)
  let waitCount ← selectRows (fun s =>
    (s.entries.filter (·.status = .waiting)).length)
  if 0 < bookingCount ∨ 0 < waitCount then
    Prog.fail (.resourceInUse
      "Resource is currently in use by active bookings or waitlist entries")

def updateResource
    (rid : Uuid)
    (scope : Scope)
    (expectedVersion : ℕ)
    (patch : ResourcePatch) : Tx Reply := do
  match ← selectResourceForUpdate rid with
  | none =>
      Prog.fail
        (.notFound ("Resource " ++ rid.str ++ " not found"))
  | some resource =>
      if resource.version ≠ expectedVersion then
        Prog.fail (.versionMismatch
          "Resource has been modified by another request")
      if patch.fields = [] then
        Prog.fail (.valueError
          "At least one field must be provided for update")
      let dbNow ← clockTimestamp
      if patch.active = some false ∧ resource.active then
        checkResourceNotInUse dbNow
      let row ← updateResourceRow rid expectedVersion
        (patch.apply dbNow)
      match row with
      | none =>
          Prog.fail (.versionMismatch
            "Resource has been modified by another request")
      | some updated =>
          let requestId ← auditRequestId scope
          let _ ← appendAuditLog "admin.resource_patch"
            "resource" (some rid) (some scope.principalId)
            requestId
            (.resourcePatch patch.fields
              (patch.active.map (resource.active, ·)))
            dbNow
          return .resource updated

def archiveResource
    (rid : Uuid)
    (scope : Scope)
    (expectedVersion : ℕ) : Tx Reply := do
  match ← selectResourceForUpdate rid with
  | none =>
      Prog.fail
        (.notFound ("Resource " ++ rid.str ++ " not found"))
  | some resource =>
      if resource.version ≠ expectedVersion then
        Prog.fail (.versionMismatch
          "Resource has been modified by another request")
      let dbNow ← clockTimestamp
      checkResourceNotInUse dbNow
      let row ← updateResourceRow rid expectedVersion
        (fun r =>
          { r with
            active := false
            version := r.version + 1
            updatedAt := dbNow })
      match row with
      | none =>
          Prog.fail (.versionMismatch
            "Resource has been modified by another request")
      | some archived =>
          let requestId ← auditRequestId scope
          let _ ← appendAuditLog "admin.resource_archive"
            "resource" (some rid) (some scope.principalId)
            requestId (.resourceArchive resource.active) dbNow
          return .resource archived

end PigBook

------------------------------------------------------------
-- Requests
------------------------------------------------------------

namespace PigBook

open ReadCommitted

/- The transactions that processes run on a resource. -/
inductive Request
  | createBooking
      (scope : Scope) (startsAt endsAt : Datetime)
  | createBlackout
      (scope : Scope) (startsAt endsAt : Datetime)
  | cancelBooking
      (scope : Scope) (bookingId : Uuid)
      (expectedVersion : ℕ) (reason : String)
  | cancelBlackout
      (scope : Scope) (blackoutId : Uuid)
      (expectedVersion : ℕ)
  | joinWaitlist
      (scope : Scope) (startsAt endsAt : Datetime)
  | acceptOffer
      (scope : Scope) (entryId : Uuid)
      (expectedVersion : ℕ)
  | declineEntry
      (scope : Scope) (entryId : Uuid)
      (expectedVersion : ℕ)
  | expireAndPromote
  | updateResource
      (scope : Scope) (expectedVersion : ℕ)
      (patch : ResourcePatch)
  | archiveResource
      (scope : Scope) (expectedVersion : ℕ)

namespace Request

def program (rid : Uuid) : Request → Tx Reply
| createBooking scope startsAt endsAt =>
    PigBook.createBooking rid scope startsAt endsAt
| createBlackout scope startsAt endsAt =>
    PigBook.createBlackout rid scope startsAt endsAt
| cancelBooking scope bookingId expectedVersion reason =>
    PigBook.cancelBooking rid scope bookingId
      expectedVersion reason
| cancelBlackout scope blackoutId expectedVersion =>
    PigBook.cancelBlackout rid scope blackoutId
      expectedVersion
| joinWaitlist scope startsAt endsAt =>
    PigBook.joinWaitlist rid scope startsAt endsAt
| acceptOffer scope entryId expectedVersion =>
    PigBook.acceptOffer rid scope entryId expectedVersion
| declineEntry scope entryId expectedVersion =>
    PigBook.declineEntry rid scope entryId expectedVersion
| expireAndPromote => PigBook.expireAndPromote rid
| updateResource scope expectedVersion patch =>
    PigBook.updateResource rid scope expectedVersion patch
| archiveResource scope expectedVersion =>
    PigBook.archiveResource rid scope expectedVersion

end Request

end PigBook
