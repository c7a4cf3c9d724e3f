import Mathlib.Data.List.Sort
import Mathlib.Data.Prod.Lex
import PigBook.Inventory.Statements

/-
  Promotion of waiting entries into free windows.

  Key definitions include:
    * `WaitlistEntry.transition` and `WaitlistEntry.offer`
    * `Cell.waitingPage`
    * `attemptOffer`, `promoteEntry`
    * `promoteWaiters`
-/

------------------------------------------------------------
-- Row Changes
------------------------------------------------------------

namespace PigBook

namespace Booking

/- WHERE id = ... AND version = ... of a booking read. -/
def current (b b' : Booking) : Bool :=
  b'.id = b.id ∧ b'.version = b.version

/- The booking leaves its status without a new deadline. -/
def transition
    (status : BookingStatus)
    (now : ℤ)
    (b : Booking) : Booking :=
  { b with
    status := status
    expiresAt := none
    version := b.version + 1
    updatedAt := now }

end Booking

namespace WaitlistEntry

/- WHERE id = ... AND version = ... of an entry read. -/
def current (e e' : WaitlistEntry) : Bool :=
  e'.id = e.id ∧ e'.version = e.version

def transition
    (status : EntryStatus)
    (now : ℤ)
    (e : WaitlistEntry) : WaitlistEntry :=
  { e with
    status := status
    version := e.version + 1
    updatedAt := now }

/- The entry is offered the booking. -/
def offer
    (bookingId : Uuid)
    (now : ℤ)
    (e : WaitlistEntry) : WaitlistEntry :=
  { e with
    status := .offered
    offeredBookingId := some bookingId
    version := e.version + 1
    updatedAt := now }

/- The booking that holds the window of an offered entry. -/
def offeredBooking
    (e : WaitlistEntry)
    (bookingId : Uuid)
    (offerNow createdAt : ℤ) : Booking where
  id := bookingId
  userId := some e.userId
  createdBy := e.userId
  kind := .reservation
  timeRange := e.timeRange
  status := .offered
  expiresAt := some
    (if e.timeRange.lower < offerNow + minutes 15 then
      e.timeRange.lower
    else
      offerNow + minutes 15)
  cancellationReason := none
  version := 1
  createdAt := createdAt
  updatedAt := createdAt

end WaitlistEntry

end PigBook

------------------------------------------------------------
-- The Keyset Scan
------------------------------------------------------------

namespace PigBook

open ReadCommitted

/- The columns `created_at, id` that order the waitlist. -/
def WaitlistEntry.position
    (e : WaitlistEntry) : ℤ ×ₗ Uuid :=
  toLex (e.createdAt, e.id)

/- The entry comes after the cursor of the scan. -/
def WaitlistEntry.After
    (cursor : Option (ℤ ×ₗ Uuid))
    (e : WaitlistEntry) : Prop :=
  ∀ c ∈ cursor,
    (ofLex c).1 < e.createdAt ∨
      ((ofLex c).1 = e.createdAt ∧ (ofLex c).2 < e.id)

instance
    (cursor : Option (ℤ ×ₗ Uuid))
    (e : WaitlistEntry) : Decidable (e.After cursor) :=
  inferInstanceAs (Decidable (∀ c ∈ cursor, _))

/-
  The next page of waiting entries after the cursor, ordered
  by created_at and id.
-/
def Cell.waitingPage
    (cursor : Option (ℤ ×ₗ Uuid))
    (pageSize : ℕ)
    (s : Cell) : List WaitlistEntry :=
  ((s.entries.filter (fun e =>
      e.status = .waiting ∧ e.After cursor)).insertionSort
    (fun e e' => e.position ≤ e'.position)).take pageSize

/-
  The offer of a free window, in a savepoint that holds the
  INSERT, the UPDATE and the event.  An UPDATE that misses
  its row rolls the INSERT back.
-/
def attemptOffer
    (rid : Uuid)
    (e : WaitlistEntry)
    (bookingId : Uuid)
    (offerNow createdAt : ℤ) : Tx (Option Uuid) := do
  let b := e.offeredBooking bookingId offerNow createdAt
  match ← insertBooking rid b with
  | some .bookingsNoOverlap => return none
  | some c => Prog.fail (.integrityError c)
  | none =>
      let count ← updateEntries
        (fun e' => e.current e' ∧ e'.status = .waiting)
        (WaitlistEntry.offer bookingId offerNow)
      if count ≠ 1 then
        rollbackBooking b
        return none
      let _ ← appendEvent rid .waitlistOffered b offerNow
      return some bookingId

/- The body of the scan for one entry. -/
def promoteEntry
    (rid : Uuid)
    (e : WaitlistEntry) : Tx (Option Uuid) := do
  let dbNow ← clockTimestamp
  let ownerEnabled ← selectOwnerEnabled e.userId
  if ownerEnabled ≠ some true then
    let _ ← updateEntries e.current
      (WaitlistEntry.transition .expired dbNow)
    return none
  if e.timeRange.lower < dbNow + minutes 15 then
    let _ ← updateEntries e.current
      (WaitlistEntry.transition .expired dbNow)
    return none
  let hasOverlap ← selectRows (fun s =>
    decide (s.Occupied e.timeRange))
  if hasOverlap then
    return none
  let offerNow ← clockTimestamp
  let bookingId ← uuid4
  let createdAt ← transactionTime
  attemptOffer rid e bookingId offerNow createdAt

/- The entries of one page, in order. -/
def promotePage
    (rid : Uuid) :
    List WaitlistEntry → List Uuid → Tx (List Uuid)
| [], promoted => return promoted
| e :: es, promoted => do
    let offered ← promoteEntry rid e
    promotePage rid es (promoted ++ offered.toList)

/-
  The loop over the pages.  Each page but the last has a row
  that no page before it had, so that a bound of one more
  than the number of rows is never reached.
-/
def scanWaiting
    (rid : Uuid)
    (pageSize : ℕ) :
    ℕ → Option (ℤ ×ₗ Uuid) → List Uuid → Tx (List Uuid)
| 0, _, _ => .fail .exhausted
| bound + 1, cursor, promoted => do
    let entries ← selectRows (Cell.waitingPage cursor pageSize)
    match entries.getLast? with
    | none => return promoted
    | some last => do
        let promoted ← promotePage rid entries promoted
        if entries.length < pageSize then
          return promoted
        scanWaiting rid pageSize bound (some last.position)
          promoted

/- Offer every free window to the first who waits for it. -/
def promoteWaiters
    (pageSize : ℕ)
    (rid : Uuid) : Tx (List Uuid) := do
  let rows ← Prog.select .plain
    (Cell.resourceKeys (.resourceUpdate rid))
    (fun s => s.entries.length)
  scanWaiting rid pageSize (rows + 1) none []

/- The page size that the application uses. -/
def promotionPageSize : ℕ := 100

end PigBook
