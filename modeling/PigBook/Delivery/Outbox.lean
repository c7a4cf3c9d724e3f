import Mathlib.Data.List.Sort
import PigBook.Delivery.Sanitize
import PigBook.Inventory.Rows
import PigBook.ReadCommitted.Table

/-
  The outbox: events that wait for their delivery, and the
  leases under which workers deliver them.

  Key definitions include:
    * `OutboxRow`, `OutboxLease`, `Mailroom`
    * `mail`
    * `claimBatch`, `renewLease`, `acknowledge`, `failLease`
    * `recoverStaleLeases`, `retryEvent`, `appendEvent`
-/

------------------------------------------------------------
-- Tables
------------------------------------------------------------

namespace PigBook.Delivery

open ReadCommitted

inductive OutboxStatus
  | pending
  | processing
  | delivered
  | dead
deriving DecidableEq

def OutboxStatus.str : OutboxStatus → String
| pending => "pending"
| processing => "processing"
| delivered => "delivered"
| dead => "dead"

/- A row of `outbox`. -/
structure OutboxRow extends OutboxEvent where
  status : OutboxStatus
  attempts : ℕ
  leaseUntil : Option ℤ
  leaseToken : Option Uuid
  deliveredAt : Option ℤ
  lastError : Option String
deriving DecidableEq

/- The row that an event is inserted as. -/
def insertedRow (e : OutboxEvent) : OutboxRow where
  toOutboxEvent := e
  status := .pending
  attempts := 0
  leaseUntil := none
  leaseToken := none
  deliveredAt := none
  lastError := none

/- What a worker keeps of the row that it has claimed. -/
structure OutboxLease where
  id : Uuid
  leaseToken : Uuid
  eventType : EventType
  payload : Payload
  attempts : ℕ
deriving DecidableEq

/- The row is processed under the lease. -/
def OutboxLease.holds
    (lease : OutboxLease)
    (r : OutboxRow) : Bool :=
  r.id = lease.id ∧ r.leaseToken = some lease.leaseToken ∧
    r.status = .processing

inductive ReceiptState
  | pending
  | sent
  | skipped
deriving DecidableEq

/- A row of `notification_deliveries`; the channel is email. -/
structure NotificationDelivery where
  id : Uuid
  eventId : Uuid
  recipientId : Uuid
  state : ReceiptState
  providerMessageId : Option String
  sentAt : Option ℤ
deriving DecidableEq

/- The receipt is for the event and the recipient. -/
def NotificationDelivery.isFor
    (eventId recipientId : Uuid)
    (d : NotificationDelivery) : Bool :=
  d.eventId = eventId ∧ d.recipientId = recipientId

/- A row of `audit_log` about an outbox event. -/
structure OutboxAudit where
  id : Uuid
  actorId : Option Uuid
  action : String
  targetType : String
  targetId : Option Uuid
  requestId : Uuid
  previousStatus : OutboxStatus
  attempts : ℕ
  createdAt : ℤ
deriving DecidableEq

structure Mailroom where
  outbox : List OutboxRow
  receipts : List NotificationDelivery
  audit : List OutboxAudit
deriving DecidableEq

namespace Mailroom

@[simps] def addRow
    (r : OutboxRow)
    (s : Mailroom) : Mailroom :=
  { s with outbox := s.outbox ++ [r] }

/- The rows that a conditional UPDATE changes, changed. -/
@[simps] def setRows
    (p : OutboxRow → Bool)
    (f : OutboxRow → OutboxRow)
    (s : Mailroom) : Mailroom :=
  { s with outbox := updateWhere p f s.outbox }

@[simps] def addReceipt
    (d : NotificationDelivery)
    (s : Mailroom) : Mailroom :=
  { s with receipts := s.receipts ++ [d] }

@[simps] def setReceipts
    (p : NotificationDelivery → Bool)
    (f : NotificationDelivery → NotificationDelivery)
    (s : Mailroom) : Mailroom :=
  { s with receipts := updateWhere p f s.receipts }

@[simps] def addAudit
    (a : OutboxAudit)
    (s : Mailroom) : Mailroom :=
  { s with audit := s.audit ++ [a] }

/- The row with the identifier. -/
def row (id : Uuid) (s : Mailroom) : Option OutboxRow :=
  s.outbox.find? (fun r => r.id = id)

/- The receipt of the event for the recipient. -/
def receipt
    (eventId recipientId : Uuid)
    (s : Mailroom) : Option NotificationDelivery :=
  s.receipts.find? (NotificationDelivery.isFor eventId recipientId)

end Mailroom

end PigBook.Delivery

------------------------------------------------------------
-- Signature
------------------------------------------------------------

namespace PigBook.Delivery

open ReadCommitted

/-
  What a statement waits for: rows locked FOR UPDATE, and
  unique index entries in flight.
-/
inductive MailKey
  | outboxUpdate (id : Uuid)
  | outboxPkey (id : Uuid)
  | outboxAggregate
      (aggregateId : Uuid)
      (version : ℕ)
      (eventType : EventType)
  | receiptUpdate (eventId recipientId : Uuid)
  | receiptEntry (eventId recipientId : Uuid)
  | receiptsPkey (id : Uuid)
  | auditLogPkey (id : Uuid)
deriving DecidableEq

structure EmailMessage where
  messageId : String
  toAddress : String
  subject : String
  textBody : String
deriving DecidableEq

/-
  How `send` ends: with the identifier of the provider, with
  an `EmailDeliveryError`, or with another exception.
-/
inductive SendResult
  | sent (providerMessageId : String)
  | deliveryError (category : String)
  | exception
deriving DecidableEq

/- What the handler reads of a user. -/
structure Recipient where
  email : String
  enabled : Bool
deriving DecidableEq

/- What the handler reads of a booking. -/
structure Offer where
  status : BookingStatus
  expiresAt : Option ℤ
deriving DecidableEq

/-
  What a statement learns from outside: clocks, `uuid4()`,
  the rows that others have locked, rows of tables that are
  not of this store, whether the scope is still authorised,
  and how an email adapter ends.  Statements that are fenced
  by a lease and the call of the adapter are recorded with
  the lease.
-/
inductive MailQuery
  | plain
  | now
  | clock
  | uuid
  | skipLocked
  | fenced (lease : OutboxLease)
  | user (id : Uuid)
  | booking (id : Uuid)
  | resource (id : Uuid)
  | assertCurrent (principalId : Uuid)
  | send (lease : OutboxLease) (message : EmailMessage)
deriving DecidableEq

abbrev MailQuery.Answer : MailQuery → Type
| plain => Unit
| now => ℤ
| clock => ℤ
| uuid => Uuid
| skipLocked => List Uuid
| fenced _ => Unit
| user _ => Option Recipient
| booking _ => Option Offer
| resource _ => Option String
| assertCurrent _ => Bool
| send _ _ => SendResult

inductive MailConstraint
  | outboxPkey
  | outboxAggregateKey
  | notificationDeliveriesPkey
  | auditLogPkey
deriving DecidableEq

inductive MailError
  | notFound (message : String)
  | invalidState (message : String)
  | notCurrent
  | noResultFound
  | integrityError (constraint : MailConstraint)
deriving DecidableEq

abbrev mail : Sig where
  Key := MailKey
  Conflict := fun k k' => k = k'
  symm := fun _ _ hEq => hEq.symm
  Query := MailQuery
  Answer := MailQuery.Answer
  Error := MailError

abbrev MailM := Prog mail Mailroom

end PigBook.Delivery

------------------------------------------------------------
-- Statements
------------------------------------------------------------

namespace PigBook.Delivery

open ReadCommitted

def utcNow : MailM ℤ :=
  @Prog.ask mail Mailroom .now

def clockTimestamp : MailM ℤ :=
  @Prog.ask mail Mailroom .clock

def uuid4 : MailM Uuid :=
  @Prog.ask mail Mailroom .uuid

/-
  UPDATE outbox ... WHERE: the number of rows.  What it saw
  fixes the rows that it changes.
-/
def updateOutbox
    (q : MailQuery)
    (p : OutboxRow → Bool)
    (f : OutboxRow → OutboxRow) : MailM ℕ :=
  .stmt q
    (fun s _ =>
      (s.outbox.filter p).map (MailKey.outboxUpdate ·.id))
    (fun s _ =>
      Mailroom.setRows
        (fun r => r.id ∈ (s.outbox.filter p).map (·.id)) f)
    (fun s _ => .done (s.outbox.countP p))

/- By `available_at`, then `occurred_at`, then `id`. -/
def OutboxRow.precedes (r r' : OutboxRow) : Prop :=
  r.availableAt < r'.availableAt ∨
    r.availableAt = r'.availableAt ∧
      (r.occurredAt < r'.occurredAt ∨
        r.occurredAt = r'.occurredAt ∧ r.id ≤ r'.id)

instance : DecidableRel OutboxRow.precedes := by
  intro r r'
  unfold OutboxRow.precedes
  infer_instance

/- The first due row that is not skipped. -/
def dueRow
    (now : ℤ)
    (skipped : List Uuid)
    (s : Mailroom) : Option OutboxRow :=
  ((s.outbox.filter (fun r =>
    r.status = .pending ∧ r.availableAt ≤ now ∧
      r.id ∉ skipped)).insertionSort
        OutboxRow.precedes).head?

/- SELECT ... LIMIT 1 FOR UPDATE SKIP LOCKED. -/
def selectDueForUpdate
    (now : ℤ) : MailM (Option OutboxRow) :=
  .stmt .skipLocked
    (fun s (skipped : List Uuid) =>
      (dueRow now skipped s).toList.map
        (MailKey.outboxUpdate ·.id))
    (fun _ _ s => s)
    (fun s (skipped : List Uuid) =>
      .done (dueRow now skipped s))

/- SELECT ... FOR UPDATE of an event. -/
def selectEventForUpdate
    (id : Uuid) : MailM (Option OutboxRow) :=
  .select .plain
    (fun s =>
      (s.outbox.filter (fun r => r.id = id)).map
        (MailKey.outboxUpdate ·.id))
    (Mailroom.row id)

/- The constraint that the INSERT of an event violates. -/
def rowViolation
    (e : OutboxEvent)
    (s : Mailroom) : Option MailConstraint :=
  if ∃ r ∈ s.outbox, r.id = e.id then
    some .outboxPkey
  else if ∃ r ∈ s.outbox,
      r.aggregateId = e.aggregateId ∧
        r.aggregateVersion = e.aggregateVersion ∧
        r.eventType = e.eventType then
    some .outboxAggregateKey
  else
    none

/- INSERT INTO outbox. -/
def insertRow (e : OutboxEvent) : MailM Unit :=
  .stmt .plain
    (fun _ _ =>
      [.outboxPkey e.id,
        .outboxAggregate e.aggregateId e.aggregateVersion
          e.eventType])
    (fun _ _ => Mailroom.addRow (insertedRow e))
    (fun s _ =>
      match rowViolation e s with
      | some c => .fail (.integrityError c)
      | none => .done ())

/- INSERT INTO audit_log. -/
def insertAudit (a : OutboxAudit) : MailM Unit :=
  .stmt .plain
    (fun _ _ => [.auditLogPkey a.id])
    (fun _ _ => Mailroom.addAudit a)
    (fun s _ =>
      if ∃ a' ∈ s.audit, a'.id = a.id then
        .fail (.integrityError .auditLogPkey)
      else
        .done ())

end PigBook.Delivery

------------------------------------------------------------
-- Leases
------------------------------------------------------------

namespace PigBook.Delivery

open ReadCommitted

/- In seconds; the jitter comes from the identifier. -/
def computeBackoffSeconds
    (eventId : Uuid)
    (attempt : ℕ) : ℕ :=
  let safeAttempt := max 1 attempt
  let base := min 3600 (5 * 2 ^ (safeAttempt - 1))
  let jitter := eventId.val % 5
  base + jitter

/- A lease is given, and renewed, for a minute. -/
def claimedRow
    (newToken : Uuid)
    (newAttempts : ℕ)
    (now : ℤ)
    (r : OutboxRow) : OutboxRow :=
  { r with
    status := .processing
    attempts := newAttempts
    leaseToken := some newToken
    leaseUntil := some (now + seconds 60) }

def renewedRow (now : ℤ) (r : OutboxRow) : OutboxRow :=
  { r with leaseUntil := some (now + seconds 60) }

def deliveredRow (now : ℤ) (r : OutboxRow) : OutboxRow :=
  { r with
    status := .delivered
    deliveredAt := some now
    leaseToken := none
    leaseUntil := none }

def failedRow
    (lease : OutboxLease)
    (errorCategory : String)
    (now : ℤ)
    (r : OutboxRow) : OutboxRow :=
  { r with
    status := if 8 ≤ lease.attempts then .dead else .pending
    availableAt :=
      if 8 ≤ lease.attempts then now
      else
        now +
          seconds
            (computeBackoffSeconds lease.id lease.attempts)
    leaseToken := none
    leaseUntil := none
    lastError := some (sanitizeErrorCategory errorCategory) }

/- The lease of a row that is claimed once more. -/
def leaseOf
    (newToken : Uuid)
    (row : OutboxRow) : OutboxLease where
  id := row.id
  leaseToken := newToken
  eventType := row.eventType
  payload := row.payload
  attempts := row.attempts + 1

/-
  Claims one due row at most.  The commit is part of it; an
  empty answer leaves the transaction to its session, which
  rolls it back.
-/
def claimBatch (now : ℤ) : MailM (Option OutboxLease) := do
  match ← selectDueForUpdate now with
  | none =>
      Prog.undo
      return none
  | some row =>
      let newToken ← uuid4
      let lease := leaseOf newToken row
      let _ ←
        updateOutbox .plain
          (fun r => r.id = row.id ∧ r.status = .pending)
          (claimedRow newToken lease.attempts now)
      Prog.save
      return some lease

def renewLease
    (lease : OutboxLease)
    (now : ℤ) : MailM Bool := do
  let rowcount ←
    updateOutbox (.fenced lease) lease.holds (renewedRow now)
  return rowcount = 1

def acknowledge
    (lease : OutboxLease)
    (now : ℤ) : MailM Bool := do
  let rowcount ←
    updateOutbox (.fenced lease) lease.holds
      (deliveredRow now)
  return rowcount = 1

def failLease
    (lease : OutboxLease)
    (errorCategory : String)
    (now : ℤ) : MailM Bool := do
  let rowcount ←
    updateOutbox (.fenced lease) lease.holds
      (failedRow lease errorCategory now)
  return rowcount = 1

/- The lease of a row that is processed has run out. -/
def OutboxRow.expired (now : ℤ) (r : OutboxRow) : Bool :=
  r.status = .processing ∧ r.leaseUntil.any (· ≤ now)

def buriedRow (r : OutboxRow) : OutboxRow :=
  { r with
    status := .dead
    leaseToken := none
    leaseUntil := none }

def releasedRow (now : ℤ) (r : OutboxRow) : OutboxRow :=
  { r with
    status := .pending
    leaseToken := none
    leaseUntil := none
    availableAt := now }

def recoverStaleLeases (now : ℤ) : MailM ℕ := do
  let countDead ←
    updateOutbox .plain
      (fun r => r.expired now ∧ 8 ≤ r.attempts) buriedRow
  let countPending ←
    updateOutbox .plain
      (fun r => r.expired now ∧ r.attempts < 8)
      (releasedRow now)
  return countDead + countPending

end PigBook.Delivery

------------------------------------------------------------
-- Events
------------------------------------------------------------

namespace PigBook.Delivery

open ReadCommitted

/- The row is as if it had just been appended. -/
def retriedRow (now : ℤ) (r : OutboxRow) : OutboxRow :=
  { r with
    status := .pending
    attempts := 0
    availableAt := now
    lastError := none
    leaseToken := none
    leaseUntil := none }

structure OutboxView where
  id : Uuid
  eventType : EventType
  aggregateId : Uuid
  status : OutboxStatus
  attempts : ℕ
  occurredAt : ℤ
  availableAt : ℤ
  lastError : Option String
deriving DecidableEq

def OutboxRow.view (r : OutboxRow) : OutboxView where
  id := r.id
  eventType := r.eventType
  aggregateId := r.aggregateId
  status := r.status
  attempts := r.attempts
  occurredAt := r.occurredAt
  availableAt := r.availableAt
  lastError := r.lastError

def retryEvent
    (principalId eventId requestId : Uuid)
    (now : ℤ) : MailM OutboxView := do
  match ← selectEventForUpdate eventId with
  | none => Prog.fail (.notFound "Outbox event not found")
  | some event =>
      if event.status ≠ .dead then
        Prog.fail
          (.invalidState
            ("Only dead outbox events can be retried " ++
              "(current status: " ++ event.status.str ++ ")"))
      else
        let _ ←
          updateOutbox .plain (fun r => r.id = event.id)
            (retriedRow now)
        let auditId ← uuid4
        insertAudit {
          id := auditId
          actorId := some principalId
          action := "admin.outbox_retry"
          targetType := "outbox"
          targetId := some event.id
          requestId := requestId
          previousStatus := .dead
          attempts := 0
          createdAt := now
        }
        return (retriedRow now event).view

/- The endpoint, which first asserts the administrator. -/
def retryOutboxEndpoint
    (principalId eventId requestId : Uuid) :
    MailM OutboxView := do
  let now ← utcNow
  let current ←
    (@Prog.ask mail Mailroom (.assertCurrent principalId))
  if current then
    retryEvent principalId eventId requestId now
  else
    Prog.fail .notCurrent

/- The end of a transaction that appends an event. -/
def appendEvent (e : OutboxEvent) : MailM Uuid := do
  insertRow e
  return e.id

end PigBook.Delivery
