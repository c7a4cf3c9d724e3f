import PigBook.Delivery.Templates

/-
  The handler of an event and the cycle of a dispatcher.

  The handler works in several short transactions around the
  call of the email adapter.

  Key definitions include:
    * `dispatchEvent`
    * `cycle`
    * `MailRequest`, `mailPrograms`
-/

------------------------------------------------------------
-- Statements
------------------------------------------------------------

namespace PigBook.Delivery

open ReadCommitted

/- INSERT ... ON CONFLICT (event, recipient) DO NOTHING. -/
def insertReceiptIfAbsent
    (d : NotificationDelivery) : MailM Unit :=
  .stmt .plain
    (fun s _ =>
      if (s.receipt d.eventId d.recipientId).isSome then []
      else
        [.receiptEntry d.eventId d.recipientId,
          .receiptsPkey d.id])
    (fun s _ =>
      if (s.receipt d.eventId d.recipientId).isSome then id
      else Mailroom.addReceipt d)
    (fun s _ =>
      if (s.receipt d.eventId d.recipientId).isSome then
        .done ()
      else if ∃ d' ∈ s.receipts, d'.id = d.id then
        .fail (.integrityError .notificationDeliveriesPkey)
      else
        .done ())

/- SELECT ... FOR UPDATE of a receipt. -/
def selectReceiptForUpdate
    (eventId recipientId : Uuid) :
    MailM (Option NotificationDelivery) :=
  .select .plain
    (fun s =>
      (s.receipts.filter
        (NotificationDelivery.isFor eventId recipientId)).map
          (fun _ => MailKey.receiptUpdate eventId recipientId))
    (Mailroom.receipt eventId recipientId)

/- UPDATE notification_deliveries WHERE event, recipient. -/
def updateReceipt
    (eventId recipientId : Uuid)
    (f : NotificationDelivery → NotificationDelivery) :
    MailM Unit :=
  .stmt .plain
    (fun s _ =>
      (s.receipts.filter
        (NotificationDelivery.isFor eventId recipientId)).map
          (fun _ => MailKey.receiptUpdate eventId recipientId))
    (fun s _ =>
      if (s.receipt eventId recipientId).isSome then
        Mailroom.setReceipts
          (NotificationDelivery.isFor eventId recipientId) f
      else
        id)
    (fun _ _ => .done ())

/- `session.get` of rows that are not of this store. -/
def getUser (id : Uuid) : MailM (Option Recipient) :=
  @Prog.ask mail Mailroom (.user id)

def getBooking (id : Uuid) : MailM (Option Offer) :=
  @Prog.ask mail Mailroom (.booking id)

def getResource (id : Uuid) : MailM (Option String) :=
  @Prog.ask mail Mailroom (.resource id)

/- `adapter.send`, outside of any transaction. -/
def sendMessage
    (lease : OutboxLease)
    (message : EmailMessage) : MailM SendResult :=
  @Prog.ask mail Mailroom (.send lease message)

end PigBook.Delivery

------------------------------------------------------------
-- The Handler
------------------------------------------------------------

namespace PigBook.Delivery

open ReadCommitted

/- The settings and the time zone that a worker runs with. -/
structure Settings where
  emailEnabled : Bool
  appOrigin : String
  zone : OrgTimezone

def stableMessageId (eventId recipientId : Uuid) : String :=
  "<" ++ eventId.str ++ "." ++ recipientId.str ++
    "@commonsbook.invalid>"

/- The offer of a waitlist event has gone. -/
def offerGone (dbNow : ℤ) (booking : Option Offer) : Bool :=
  match booking with
  | none => true
  | some b =>
      b.status ≠ .offered ∨ b.expiresAt.any (· ≤ dbNow)

/- What the first transaction finds out. -/
inductive Preparation
  | settled
  | ready (userEmail resourceName : String)
deriving DecidableEq

def skipReceipt
    (lease : OutboxLease)
    (recipientId : Uuid)
    (dbNow : ℤ) : MailM Preparation := do
  updateReceipt lease.id recipientId
    (fun d => { d with state := .skipped })
  let _ ← acknowledge lease dbNow
  return .settled

/-
  The first transaction: the receipt is created or locked,
  and the event may be settled with it.
-/
def prepare
    (lease : OutboxLease)
    (recipientId : Uuid)
    (dbNow : ℤ) : MailM Preparation := do
  let receiptId ← uuid4
  insertReceiptIfAbsent {
    id := receiptId
    eventId := lease.id
    recipientId := recipientId
    state := .pending
    providerMessageId := none
    sentAt := none
  }
  match ← selectReceiptForUpdate lease.id recipientId with
  | none => Prog.fail .noResultFound
  | some receipt =>
      if receipt.state = .sent ∨ receipt.state = .skipped then
        let _ ← acknowledge lease dbNow
        return .settled
      else
        match ← getUser recipientId with
        | none => skipReceipt lease recipientId dbNow
        | some user =>
            if user.enabled = false then
              skipReceipt lease recipientId dbNow
            else
              let gone ←
                (if lease.eventType = .waitlistOffered then do
                  let booking ←
                    getBooking lease.payload.bookingId
                  return offerGone dbNow booking
                else
                  return false)
              if gone then
                skipReceipt lease recipientId dbNow
              else
                let resource ←
                  getResource lease.payload.resourceId
                return .ready user.email
                  (resource.getD "Resource")

def sentReceipt
    (providerMessageId : String)
    (dbNow : ℤ)
    (d : NotificationDelivery) : NotificationDelivery :=
  { d with
    state := .sent
    providerMessageId := some providerMessageId
    sentAt := some dbNow }

/- The message is sent, and the last transaction follows. -/
def deliver
    (lease : OutboxLease)
    (recipientId : Uuid)
    (message : EmailMessage)
    (dbNow : ℤ) : MailM Unit := do
  match ← sendMessage lease message with
  | .deliveryError category =>
      let _ ← failLease lease category dbNow
      return ()
  | .exception =>
      let _ ← failLease lease "transport" dbNow
      return ()
  | .sent providerMessageId =>
      updateReceipt lease.id recipientId
        (sentReceipt providerMessageId dbNow)
      let _ ← acknowledge lease dbNow
      return ()

def dispatchEvent
    (settings : Settings)
    (lease : OutboxLease)
    (now : ℤ) : MailM Unit := do
  match lease.payload.recipientId with
  | none =>
      let _ ← acknowledge lease now
      return ()
  | some recipientId =>
      let dbNow ← clockTimestamp
      match ← prepare lease recipientId dbNow with
      | .settled => return ()
      | .ready userEmail resourceName =>
          Prog.save
          let rendered :=
            render settings.zone resourceName
              settings.appOrigin lease.eventType lease.payload
          deliver lease recipientId
            {
              messageId := stableMessageId lease.id recipientId
              toAddress := userEmail
              subject := rendered.1
              textBody := rendered.2
            }
            dbNow

end PigBook.Delivery

------------------------------------------------------------
-- The Dispatcher
------------------------------------------------------------

namespace PigBook.Delivery

open ReadCommitted

/- One turn of the loop of `OutboxDispatcher.run`. -/
def cycle (settings : Settings) : MailM Unit := do
  let now ← utcNow
  let _ ← recoverStaleLeases now
  if settings.emailEnabled = false then
    return ()
  else
    Prog.save
    match ← claimBatch now with
    | none => return ()
    | some lease =>
        let renewNow ← utcNow
        let renewed ← renewLease lease renewNow
        if renewed = false then
          return ()
        else
          Prog.save
          dispatchEvent settings lease renewNow

/- What may run against the outbox. -/
inductive MailRequest
  | cycle (settings : Settings)
  | retryOutbox (principalId eventId requestId : Uuid)
  | append (e : OutboxEvent)

inductive MailReply
  | cycled
  | retried (view : OutboxView)
  | appended (id : Uuid)
deriving DecidableEq

def MailRequest.program :
    MailRequest → Prog mail Mailroom MailReply
| cycle settings => do
    Delivery.cycle settings
    return .cycled
| retryOutbox principalId eventId requestId => do
    let view ←
      retryOutboxEndpoint principalId eventId requestId
    return .retried view
| append e => do
    let id ← appendEvent e
    return .appended id

def mailPrograms (p : Prog mail Mailroom MailReply) : Prop :=
  ∃ r : MailRequest, p = r.program

end PigBook.Delivery
