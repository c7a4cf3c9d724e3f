import Mathlib
import PigBook.ReadCommitted.Table

/-
  The tables of the inventory: resources, bookings, waitlist
  entries, outbox events, and audit records.

  Key definitions include:
    * `Uuid`, `TimeRange`
    * `Booking`, `WaitlistEntry`, `Resource`
    * `OutboxEvent`, `AuditRecord`
    * `Cell`
-/

------------------------------------------------------------
-- Instants and Identifiers
------------------------------------------------------------

namespace PigBook

/-
  Instants are integers: microseconds since the Unix epoch.
  Durations are integers as well.
-/
def seconds (n : ℤ) : ℤ :=
  n * 1000000

def minutes (n : ℤ) : ℤ :=
  seconds (60 * n)

def hours (n : ℤ) : ℤ :=
  minutes (60 * n)

def days (n : ℤ) : ℤ :=
  hours (24 * n)

/- A UUID by its 128-bit integer value. -/
abbrev Uuid := Fin (2 ^ 128)

namespace Uuid

instance neZero : NeZero (2 ^ 128 : ℕ) :=
  ⟨by decide⟩

instance lawfulBEq : LawfulBEq Uuid :=
  inferInstance

/- The canonical lower-case text of a UUID. -/
def str (u : Uuid) : String :=
  let digits := Nat.toDigits 16 u.val
  let hex := List.replicate (32 - digits.length) '0' ++ digits
  String.ofList
    (hex.take 8 ++ '-' :: (hex.drop 8).take 4 ++
      '-' :: (hex.drop 12).take 4 ++
      '-' :: (hex.drop 16).take 4 ++
      '-' :: hex.drop 20)

end Uuid

end PigBook

------------------------------------------------------------
-- Windows
------------------------------------------------------------

namespace PigBook

/-
  A half-open window.  The tables only store ranges that are
  bounded, non-empty and of the form `[lower, upper)`.
-/
structure TimeRange where
  lower : ℤ
  upper : ℤ
  nonempty : lower < upper
deriving DecidableEq

namespace TimeRange

/- The range operator `&&`. -/
def Overlaps (r r' : TimeRange) : Prop :=
  r.lower < r'.upper ∧ r'.lower < r.upper

instance (r r' : TimeRange) : Decidable (r.Overlaps r') :=
  inferInstanceAs (Decidable (_ ∧ _))

/- The first window takes the whole second one. -/
def Covers (r r' : TimeRange) : Prop :=
  r.lower ≤ r'.lower ∧ r'.upper ≤ r.upper

theorem Overlaps.symm
    {r r' : TimeRange}
    (hOverlap : r.Overlaps r') :
    r'.Overlaps r :=
  ⟨hOverlap.2, hOverlap.1⟩

@[simp] theorem overlaps_self
    (r : TimeRange) :
    r.Overlaps r :=
  ⟨r.nonempty, r.nonempty⟩

/- Whatever overlaps a covered window overlaps the cover. -/
theorem Covers.overlaps
    {r r' x : TimeRange}
    (hCovers : r.Covers r')
    (hOverlap : r'.Overlaps x) :
    r.Overlaps x := by
  unfold Covers at hCovers
  unfold Overlaps at *
  omega

end TimeRange

end PigBook

------------------------------------------------------------
-- Bookings
------------------------------------------------------------

namespace PigBook

inductive Kind
  | reservation
  | blackout
deriving DecidableEq

inductive BookingStatus
  | pending
  | confirmed
  | offered
  | cancelled
  | expired
deriving DecidableEq

namespace BookingStatus

def str : BookingStatus → String
| pending => "pending"
| confirmed => "confirmed"
| offered => "offered"
| cancelled => "cancelled"
| expired => "expired"

/- The statuses that occupy their window. -/
def active : BookingStatus → Bool
| confirmed => true
| offered => true
| _ => false

end BookingStatus

/-
  A row of `bookings`.  The column `resource_id` is left to
  the cell that holds the row.
-/
structure Booking where
  id : Uuid
  userId : Option Uuid
  createdBy : Uuid
  kind : Kind
  timeRange : TimeRange
  status : BookingStatus
  expiresAt : Option ℤ
  cancellationReason : Option String
  version : ℕ
  createdAt : ℤ
  updatedAt : ℤ
deriving DecidableEq

namespace Booking

/- The CHECK constraints of the table. -/
def Check (b : Booking) : Prop :=
  (∀ reason, b.cancellationReason = some reason →
    reason.length ≤ 500) ∧
  0 < b.version ∧
  ((b.kind = .reservation ∧ b.userId.isSome) ∨
    (b.kind = .blackout ∧ b.userId = none ∧
      (b.status = .confirmed ∨ b.status = .cancelled))) ∧
  ((b.status = .offered ∧
      ∃ t ∈ b.expiresAt, t ≤ b.timeRange.lower) ∨
    (b.status ≠ .offered ∧ b.expiresAt = none))

instance (b : Booking) : Decidable b.Check :=
  inferInstanceAs (Decidable (_ ∧ _))

/- The trigger `guard_booking_update` lets the update pass. -/
def GuardUpdate (old new : Booking) : Prop :=
  (new.userId = old.userId ∧ new.kind = old.kind ∧
    new.timeRange = old.timeRange ∧
    new.createdBy = old.createdBy) ∧
  (new.status ≠ old.status →
    (old.status = .pending ∧
      (new.status = .confirmed ∨ new.status = .cancelled ∨
        new.status = .expired)) ∨
    (old.status = .offered ∧
      (new.status = .confirmed ∨ new.status = .cancelled ∨
        new.status = .expired)) ∨
    (old.status = .confirmed ∧ new.status = .cancelled)) ∧
  new.version = old.version + 1

instance (old new : Booking) :
    Decidable (GuardUpdate old new) :=
  inferInstanceAs (Decidable (_ ∧ _))

/- The booking keeps its window from others. -/
def Occupies (b : Booking) (r : TimeRange) : Prop :=
  b.status.active ∧ b.timeRange.Overlaps r

instance (b : Booking) (r : TimeRange) :
    Decidable (b.Occupies r) :=
  inferInstanceAs (Decidable (_ ∧ _))

end Booking

end PigBook

------------------------------------------------------------
-- Waitlist Entries
------------------------------------------------------------

namespace PigBook

inductive EntryStatus
  | waiting
  | offered
  | accepted
  | cancelled
  | expired
deriving DecidableEq

namespace EntryStatus

def str : EntryStatus → String
| waiting => "waiting"
| offered => "offered"
| accepted => "accepted"
| cancelled => "cancelled"
| expired => "expired"

/- The statuses that count as membership of the waitlist. -/
def active : EntryStatus → Bool
| waiting => true
| offered => true
| _ => false

end EntryStatus

/- A row of `waitlist_entries`. -/
structure WaitlistEntry where
  id : Uuid
  userId : Uuid
  timeRange : TimeRange
  status : EntryStatus
  offeredBookingId : Option Uuid
  version : ℕ
  createdAt : ℤ
  updatedAt : ℤ
deriving DecidableEq

namespace WaitlistEntry

/- The CHECK constraints of the table. -/
def Check (e : WaitlistEntry) : Prop :=
  0 < e.version ∧
  ((e.status = .offered ∨ e.status = .accepted) →
    e.offeredBookingId.isSome)

instance (e : WaitlistEntry) : Decidable e.Check :=
  inferInstanceAs (Decidable (_ ∧ _))

end WaitlistEntry

end PigBook

------------------------------------------------------------
-- Resources, Outbox, and Audit
------------------------------------------------------------

namespace PigBook

/- A row of `resources`. -/
structure Resource where
  name : String
  description : String
  location : String
  active : Bool
  version : ℕ
  createdAt : ℤ
  updatedAt : ℤ
deriving DecidableEq

namespace Resource

/- The CHECK constraints of the table. -/
def Check (r : Resource) : Prop :=
  (1 ≤ r.name.length ∧ r.name.length ≤ 100) ∧
  r.description.length ≤ 2000 ∧
  (1 ≤ r.location.length ∧ r.location.length ≤ 200) ∧
  0 < r.version

instance (r : Resource) : Decidable r.Check :=
  inferInstanceAs (Decidable (_ ∧ _))

end Resource

inductive EventType
  | bookingConfirmed
  | bookingCancelled
  | waitlistOffered
  | holdExpired
deriving DecidableEq

/-
  The payload of an event.  The timestamps are kept as the
  instants that their texts denote.
-/
structure Payload where
  schemaVersion : ℕ
  bookingId : Uuid
  recipientId : Option Uuid
  resourceId : Uuid
  startsAt : ℤ
  endsAt : ℤ
  expiresAt : Option ℤ
deriving DecidableEq

/-
  A row of `outbox` as it is appended, with status `pending`
  and no attempt made.
-/
structure OutboxEvent where
  id : Uuid
  eventType : EventType
  aggregateId : Uuid
  aggregateVersion : ℕ
  payload : Payload
  occurredAt : ℤ
  availableAt : ℤ
deriving DecidableEq

/- The `details` of the audited inventory actions. -/
inductive AuditDetails
  | bookingCancel (resourceId : Uuid) (reasonLength : ℕ)
  | blackoutCreate
      (resourceId : Uuid) (startsAt endsAt : ℤ)
  | blackoutCancel (resourceId : Uuid)
  | resourcePatch
      (fields : List String) (active : Option (Bool × Bool))
  | resourceArchive (oldActive : Bool)
deriving DecidableEq

/- A row of `audit_log`. -/
structure AuditRecord where
  id : Uuid
  actorId : Option Uuid
  action : String
  targetType : String
  targetId : Option Uuid
  requestId : Uuid
  details : AuditDetails
  createdAt : ℤ
deriving DecidableEq

end PigBook

------------------------------------------------------------
-- Cells
------------------------------------------------------------

namespace PigBook

/-
  All rows that belong to one resource.  No statement of the
  application moves a row to another resource, and the
  trigger on bookings forbids it.  `users` are the rows of
  `users` that a foreign key may refer to.  The application
  deletes none of them, and the inventory writes none.
-/
structure Cell where
  users : List Uuid
  resource : Option Resource
  bookings : List Booking
  entries : List WaitlistEntry
  outbox : List OutboxEvent
  audit : List AuditRecord
deriving DecidableEq

namespace Cell

/- Some confirmed or offered booking overlaps the window. -/
def Occupied (s : Cell) (r : TimeRange) : Prop :=
  ∃ b ∈ s.bookings, b.Occupies r

instance (s : Cell) (r : TimeRange) :
    Decidable (s.Occupied r) :=
  inferInstanceAs (Decidable (∃ b ∈ s.bookings, _))

/- The rows that a conditional UPDATE changes, changed. -/
@[simps] def setBookings
    (p : Booking → Bool)
    (f : Booking → Booking)
    (s : Cell) : Cell :=
  { s with
    bookings := ReadCommitted.updateWhere p f s.bookings }

@[simps] def setEntries
    (p : WaitlistEntry → Bool)
    (f : WaitlistEntry → WaitlistEntry)
    (s : Cell) : Cell :=
  { s with
    entries := ReadCommitted.updateWhere p f s.entries }

@[simps] def addBooking (b : Booking) (s : Cell) : Cell :=
  { s with bookings := s.bookings ++ [b] }

@[simps] def addEntry (e : WaitlistEntry) (s : Cell) : Cell :=
  { s with entries := s.entries ++ [e] }

@[simps] def addEvent (ev : OutboxEvent) (s : Cell) : Cell :=
  { s with outbox := s.outbox ++ [ev] }

@[simps] def addAudit (a : AuditRecord) (s : Cell) : Cell :=
  { s with audit := s.audit ++ [a] }

@[simps] def addAudits
    (as : List AuditRecord)
    (s : Cell) : Cell :=
  { s with audit := s.audit ++ as }

@[simps] def setResource (r : Resource) (s : Cell) : Cell :=
  { s with resource := some r }

/- The cell of a resource that nobody has booked yet. -/
def opening
    (users : List Uuid)
    (resource : Option Resource) : Cell where
  users := users
  resource := resource
  bookings := []
  entries := []
  outbox := []
  audit := []

end Cell

end PigBook
