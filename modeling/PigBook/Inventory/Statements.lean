import PigBook.Inventory.Window

/-
  The statements that inventory transactions are made of.

  A statement checks the constraints of its table.  Inside a
  savepoint a violated constraint is handed to the program;
  elsewhere it ends the transaction.

  Key definitions include:
    * `Tx`
    * `clockTimestamp`, `uuid4`
    * `selectResourceForUpdate`, `selectResourceForShare`
    * `selectResourceSkipLocked`
    * `insertBooking`, `insertEntry`
    * `updateBookings`, `updateEntries`
    * `appendEvent`, `appendAuditLog`
-/

------------------------------------------------------------
-- Reading
------------------------------------------------------------

namespace PigBook

open ReadCommitted

/- A program over the cell of one resource. -/
abbrev Tx (α : Type) := Prog inventory Cell α

/- SELECT clock_timestamp(), which is never null. -/
def clockTimestamp : Tx ℤ :=
  @Prog.ask inventory Cell .clock

/- The value of a column default `now()`. -/
def transactionTime : Tx ℤ :=
  @Prog.ask inventory Cell .transactionTime

def uuid4 : Tx Uuid :=
  @Prog.ask inventory Cell .uuid

/- SELECT enabled FROM users WHERE id = user_id. -/
def selectOwnerEnabled (userId : Uuid) : Tx (Option Bool) :=
  @Prog.ask inventory Cell (.ownerEnabled userId)

/- A SELECT without a locking clause. -/
def selectRows
    {β : Type}
    (rows : Cell → β) : Tx β :=
  .select .plain (fun _ => []) rows

/- The key of the resource row, if there is one. -/
def Cell.resourceKeys
    (key : Key)
    (s : Cell) : List Key :=
  if s.resource.isSome then [key] else []

def selectResourceForUpdate
    (rid : Uuid) : Tx (Option Resource) :=
  .select .plain (Cell.resourceKeys (.resourceUpdate rid))
    Cell.resource

def selectResourceForShare
    (rid : Uuid) : Tx (Option Resource) :=
  .select .plain (Cell.resourceKeys (.resourceShare rid))
    Cell.resource

/-
  SELECT ... FOR UPDATE SKIP LOCKED: a row that another
  transaction has locked is left out and not locked.
-/
def selectResourceSkipLocked
    (rid : Uuid) : Tx (Option Resource) :=
  .stmt (.rowLocked rid)
    (fun s (locked : Bool) =>
      if locked then []
      else s.resourceKeys (.resourceUpdate rid))
    (fun _ _ => id)
    (fun s (locked : Bool) =>
      .done (if locked then none else s.resource))

/- SELECT ... FROM bookings WHERE p FOR UPDATE. -/
def selectBookingsForUpdate
    (p : Booking → Bool) : Tx (List Booking) :=
  .select .plain
    (fun s =>
      (s.bookings.filter p).map (Key.bookingUpdate ·.id))
    (fun s => s.bookings.filter p)

/- SELECT ... FROM waitlist_entries WHERE p FOR UPDATE. -/
def selectEntriesForUpdate
    (p : WaitlistEntry → Bool) : Tx (List WaitlistEntry) :=
  .select .plain
    (fun s =>
      (s.entries.filter p).map (Key.entryUpdate ·.id))
    (fun s => s.entries.filter p)

/- `scalar_one_or_none()`. -/
def scalarOneOrNone
    {β : Type}
    (rows : List β) : Tx (Option β) :=
  match rows with
  | [] => .done none
  | [row] => .done (some row)
  | _ =>
      .fail (.runtimeError
        "Multiple rows were found when one or none was required")

/- `session.refresh(booking)`. -/
def refreshBooking (b : Booking) : Tx Booking := do
  let rows ← selectRows (fun s =>
    s.bookings.filter (fun b' => b'.id = b.id))
  match rows with
  | b' :: _ => .done b'
  | [] =>
      .fail (.runtimeError "Could not refresh instance")

/- `session.refresh(entry)`. -/
def refreshEntry (e : WaitlistEntry) : Tx WaitlistEntry := do
  let rows ← selectRows (fun s =>
    s.entries.filter (fun e' => e'.id = e.id))
  match rows with
  | e' :: _ => .done e'
  | [] =>
      .fail (.runtimeError "Could not refresh instance")

end PigBook

------------------------------------------------------------
-- Constraints over Tables
------------------------------------------------------------

namespace PigBook

/- The exclusion constraint does not forbid the pair. -/
def Booking.Apart (b b' : Booking) : Prop :=
  b.status.active → b'.status.active →
    ¬ b.timeRange.Overlaps b'.timeRange

instance (b b' : Booking) : Decidable (b.Apart b') :=
  inferInstanceAs (Decidable (_ → _ → ¬ _))

/- The active unique index does not forbid the pair. -/
def WaitlistEntry.Apart (e e' : WaitlistEntry) : Prop :=
  e.status.active → e'.status.active →
    ¬ (e.userId = e'.userId ∧ e.timeRange = e'.timeRange)

instance (e e' : WaitlistEntry) : Decidable (e.Apart e') :=
  inferInstanceAs (Decidable (_ → _ → ¬ _))

/- The two entries do not refer to one booking. -/
def WaitlistEntry.LinkedApart
    (e e' : WaitlistEntry) : Prop :=
  e.offeredBookingId.isSome →
    e.offeredBookingId ≠ e'.offeredBookingId

instance (e e' : WaitlistEntry) :
    Decidable (e.LinkedApart e') :=
  inferInstanceAs (Decidable (_ → _))

namespace Cell

/- `bookings_no_overlap` holds. -/
def NoOverlap (s : Cell) : Prop :=
  s.bookings.Pairwise Booking.Apart

instance (s : Cell) : Decidable s.NoOverlap :=
  inferInstanceAs (Decidable (List.Pairwise _ _))

/- `waitlist_active_unique_idx` holds. -/
def ActiveUnique (s : Cell) : Prop :=
  s.entries.Pairwise WaitlistEntry.Apart

instance (s : Cell) : Decidable s.ActiveUnique :=
  inferInstanceAs (Decidable (List.Pairwise _ _))

/- `offered_booking_id` is unique. -/
def LinkedUnique (s : Cell) : Prop :=
  s.entries.Pairwise WaitlistEntry.LinkedApart

instance (s : Cell) : Decidable s.LinkedUnique :=
  inferInstanceAs (Decidable (List.Pairwise _ _))

end Cell

end PigBook

------------------------------------------------------------
-- Writing
------------------------------------------------------------

namespace PigBook

open ReadCommitted

/- The new row violates a CHECK constraint or an index. -/
def Cell.bookingRowViolation
    (s : Cell)
    (b : Booking) : Option Constraint :=
  if ¬ b.Check then
    some .bookingsCheck
  else if ∃ b' ∈ s.bookings, b'.id = b.id then
    some .bookingsPkey
  else if b.status.active ∧ s.Occupied b.timeRange then
    some .bookingsNoOverlap
  else
    none

/- The owner of the booking, if any, is a user. -/
def Booking.HasOwner
    (users : List Uuid)
    (b : Booking) : Prop :=
  ∀ id ∈ b.userId, id ∈ users

instance (users : List Uuid) (b : Booking) :
    Decidable (b.HasOwner users) :=
  Option.decidableForallMem b.userId

/- The new row refers to a row that does not exist. -/
def Cell.bookingForeignViolation
    (s : Cell)
    (b : Booking) : Option Constraint :=
  if s.resource = none then
    some .bookingsResourceIdFkey
  else if ¬ b.HasOwner s.users then
    some .bookingsUserIdFkey
  else if b.createdBy ∉ s.users then
    some .bookingsCreatedByFkey
  else
    none

/-
  The constraint that the INSERT of a booking violates.  The
  foreign keys are checked at the end of the statement, when
  the row is in the table and its indexes.
-/
def Cell.bookingViolation
    (s : Cell)
    (b : Booking) : Option Constraint :=
  match s.bookingRowViolation b with
  | some c => some c
  | none => s.bookingForeignViolation b

/- What the INSERT of a booking waits for. -/
def Cell.insertBookingKeys
    (rid : Uuid)
    (b : Booking)
    (s : Cell) : List Key :=
  if s.bookingRowViolation b = none then
    [.unique (.bookingsPkey b.id),
      .noOverlap rid b.timeRange]
  else
    [.unique (.bookingsPkey b.id)]

/-
  INSERT INTO bookings in a savepoint.  It waits for
  transactions in flight that insert the same id or, where
  the committed rows leave the window free, an overlap.
-/
def insertBooking
    (rid : Uuid)
    (b : Booking) : Tx (Option Constraint) :=
  .stmt .plain
    (fun s _ => s.insertBookingKeys rid b)
    (fun s _ =>
      if s.bookingViolation b = none then
        Cell.addBooking b
      else
        id)
    (fun s _ => .done (s.bookingViolation b))

/- ROLLBACK TO SAVEPOINT after the INSERT of the booking. -/
def rollbackBooking (b : Booking) : Tx Unit :=
  .stmt .plain (fun _ _ => [])
    (fun _ _ s =>
      { s with
        bookings :=
          s.bookings.filter (fun b' => b'.id ≠ b.id) })
    (fun _ _ => .done ())

/-
  The booking that the entry is linked with exists.  Entries
  are linked with bookings of their resource only, so that
  the cell shows all bookings that matter.
-/
def Cell.HasLink (s : Cell) (e : WaitlistEntry) : Prop :=
  ∀ id ∈ e.offeredBookingId, ∃ b ∈ s.bookings, b.id = id

instance (s : Cell) (e : WaitlistEntry) :
    Decidable (s.HasLink e) :=
  Option.decidableForallMem e.offeredBookingId

/- The new row violates a CHECK constraint or an index. -/
def Cell.entryRowViolation
    (s : Cell)
    (e : WaitlistEntry) : Option Constraint :=
  if ¬ e.Check then
    some .waitlistEntriesCheck
  else if ∃ e' ∈ s.entries, e'.id = e.id then
    some .waitlistEntriesPkey
  else if ¬ ∀ e' ∈ s.entries, e'.LinkedApart e then
    some .waitlistEntriesOfferedBookingIdKey
  else if ¬ ∀ e' ∈ s.entries, e'.Apart e then
    some .waitlistActiveUniqueIdx
  else
    none

/- The new row refers to a row that does not exist. -/
def Cell.entryForeignViolation
    (s : Cell)
    (e : WaitlistEntry) : Option Constraint :=
  if e.userId ∉ s.users then
    some .waitlistEntriesUserIdFkey
  else if s.resource = none then
    some .waitlistEntriesResourceIdFkey
  else if ¬ s.HasLink e then
    some .waitlistEntriesOfferedBookingIdFkey
  else
    none

/- The constraint that the INSERT of an entry violates. -/
def Cell.entryViolation
    (s : Cell)
    (e : WaitlistEntry) : Option Constraint :=
  match s.entryRowViolation e with
  | some c => some c
  | none => s.entryForeignViolation e

/- INSERT INTO waitlist_entries in a savepoint. -/
def insertEntry
    (rid : Uuid)
    (e : WaitlistEntry) : Tx (Option Constraint) :=
  .stmt .plain
    (fun _ _ =>
      [.unique (.waitlistEntriesPkey e.id),
        .unique (.waitlistActive e.userId rid e.timeRange)])
    (fun s _ =>
      if s.entryViolation e = none then
        Cell.addEntry e
      else
        id)
    (fun s _ => .done (s.entryViolation e))

/-
  The constraint that an UPDATE of bookings violates.  The
  trigger lets no foreign key change.
-/
def Cell.bookingsUpdateViolation
    (p : Booking → Bool)
    (f : Booking → Booking)
    (s : Cell) : Option Constraint :=
  if ¬ ∀ b ∈ s.bookings, p b → b.GuardUpdate (f b) then
    some .bookingsUpdateGuard
  else if ¬ ∀ b ∈ s.bookings, p b → (f b).Check then
    some .bookingsCheck
  else if ¬ (s.setBookings p f).NoOverlap then
    some .bookingsNoOverlap
  else
    none

/- UPDATE bookings SET f WHERE p, with its row count. -/
def updateBookings
    (p : Booking → Bool)
    (f : Booking → Booking) : Tx ℕ :=
  .stmt .plain
    (fun s _ =>
      (s.bookings.filter p).map (Key.bookingUpdate ·.id))
    (fun _ _ => Cell.setBookings p f)
    (fun s _ =>
      match s.bookingsUpdateViolation p f with
      | some c => .fail (.integrityError c)
      | none => .done (s.bookings.filter p).length)

/-
  The constraint that an UPDATE of entries violates.  A
  foreign key is checked where its column changes.
-/
def Cell.entriesUpdateViolation
    (p : WaitlistEntry → Bool)
    (f : WaitlistEntry → WaitlistEntry)
    (s : Cell) : Option Constraint :=
  if ¬ ∀ e ∈ s.entries, p e → (f e).Check then
    some .waitlistEntriesCheck
  else if ¬ (s.setEntries p f).LinkedUnique then
    some .waitlistEntriesOfferedBookingIdKey
  else if ¬ (s.setEntries p f).ActiveUnique then
    some .waitlistActiveUniqueIdx
  else if ∃ e ∈ s.entries, p e ∧
      (f e).userId ≠ e.userId ∧ (f e).userId ∉ s.users then
    some .waitlistEntriesUserIdFkey
  else if ∃ e ∈ s.entries, p e ∧
      (f e).offeredBookingId ≠ e.offeredBookingId ∧
      ¬ s.HasLink (f e) then
    some .waitlistEntriesOfferedBookingIdFkey
  else
    none

/- UPDATE waitlist_entries SET f WHERE p. -/
def updateEntries
    (p : WaitlistEntry → Bool)
    (f : WaitlistEntry → WaitlistEntry) : Tx ℕ :=
  .stmt .plain
    (fun s _ =>
      (s.entries.filter p).map (Key.entryUpdate ·.id))
    (fun _ _ => Cell.setEntries p f)
    (fun s _ =>
      match s.entriesUpdateViolation p f with
      | some c => .fail (.integrityError c)
      | none => .done (s.entries.filter p).length)

/- UPDATE resources SET ... RETURNING, of the one row. -/
def updateResourceRow
    (rid : Uuid)
    (expectedVersion : ℕ)
    (f : Resource → Resource) : Tx (Option Resource) :=
  .stmt .plain
    (fun s _ => s.resourceKeys (.resourceUpdate rid))
    (fun s _ =>
      match s.resource with
      | some r =>
          if r.version = expectedVersion then
            Cell.setResource (f r)
          else
            id
      | none => id)
    (fun s _ =>
      match s.resource with
      | some r =>
          if r.version = expectedVersion then
            if (f r).Check then
              .done (some (f r))
            else
              .fail (.integrityError .resourcesCheck)
          else
            .done none
      | none => .done none)

/- The constraint that the INSERT of an event violates. -/
def Cell.eventViolation
    (s : Cell)
    (ev : OutboxEvent) : Option Constraint :=
  if ∃ ev' ∈ s.outbox, ev'.id = ev.id then
    some .outboxPkey
  else if ∃ ev' ∈ s.outbox,
      ev'.aggregateId = ev.aggregateId ∧
      ev'.aggregateVersion = ev.aggregateVersion ∧
      ev'.eventType = ev.eventType then
    some .outboxAggregateKey
  else
    none

/- The keys of the INSERT of an event. -/
def OutboxEvent.keys (ev : OutboxEvent) : List Key :=
  [.unique (.outboxPkey ev.id),
    .unique (.outboxAggregate ev.aggregateId
      ev.aggregateVersion ev.eventType)]

/- INSERT INTO outbox. -/
def insertEvent (ev : OutboxEvent) : Tx Unit :=
  .stmt .plain
    (fun _ _ => ev.keys)
    (fun _ _ => Cell.addEvent ev)
    (fun s _ =>
      match s.eventViolation ev with
      | some c => .fail (.integrityError c)
      | none => .done ())

/- INSERT INTO audit_log. -/
def insertAudit (a : AuditRecord) : Tx Unit :=
  .stmt .plain
    (fun _ _ => [.unique (.auditLogPkey a.id)])
    (fun _ _ => Cell.addAudit a)
    (fun s _ =>
      if ∃ a' ∈ s.audit, a'.id = a.id then
        .fail (.integrityError .auditLogPkey)
      else
        .done ())

end PigBook

------------------------------------------------------------
-- Events and Audit Records
------------------------------------------------------------

namespace PigBook

open ReadCommitted

/- The event that `append_event` builds. -/
def eventOf
    (rid : Uuid)
    (eventType : EventType)
    (b : Booking)
    (now : ℤ)
    (eventId : Uuid) : OutboxEvent where
  id := eventId
  eventType := eventType
  aggregateId := b.id
  aggregateVersion := b.version
  payload := {
    schemaVersion := 1
    bookingId := b.id
    recipientId := b.userId
    resourceId := rid
    startsAt := b.timeRange.lower
    endsAt := b.timeRange.upper
    expiresAt := b.expiresAt
  }
  occurredAt := now
  availableAt := now

def appendEvent
    (rid : Uuid)
    (eventType : EventType)
    (b : Booking)
    (now : ℤ) : Tx Uuid := do
  let eventId ← uuid4
  insertEvent (eventOf rid eventType b now eventId)
  return eventId

def appendAuditLog
    (action targetType : String)
    (targetId : Option Uuid)
    (actorId : Option Uuid)
    (requestId : Uuid)
    (details : AuditDetails)
    (now : ℤ) : Tx AuditRecord := do
  let auditId ← uuid4
  let entry : AuditRecord := {
    id := auditId
    actorId := actorId
    action := action
    targetType := targetType
    targetId := targetId
    requestId := requestId
    details := details
    createdAt := now
  }
  insertAudit entry
  return entry

end PigBook

------------------------------------------------------------
-- Rules for Reading Statements
------------------------------------------------------------

namespace PigBook

open ReadCommitted

section Rules

variable {err : List (Action inventory) → Error → Prop}
variable {log : List (Action inventory)} {s : Cell}

@[simp] theorem wp_clockTimestamp
    {post : List (Action inventory) → Cell → ℤ → Prop} :
    clockTimestamp.wp post err log s ↔
      ∀ t : ℤ, post (log ++ [⟨.clock, t, []⟩]) s t :=
  Iff.rfl

@[simp] theorem wp_transactionTime
    {post : List (Action inventory) → Cell → ℤ → Prop} :
    transactionTime.wp post err log s ↔
      ∀ t : ℤ,
        post (log ++ [⟨.transactionTime, t, []⟩]) s t :=
  Iff.rfl

@[simp] theorem wp_uuid4
    {post : List (Action inventory) → Cell → Uuid → Prop} :
    uuid4.wp post err log s ↔
      ∀ id : Uuid, post (log ++ [⟨.uuid, id, []⟩]) s id :=
  Iff.rfl

@[simp] theorem wp_selectOwnerEnabled
    (userId : Uuid)
    {post :
      List (Action inventory) → Cell → Option Bool → Prop} :
    (selectOwnerEnabled userId).wp post err log s ↔
      ∀ enabled : Option Bool,
        post (log ++ [⟨.ownerEnabled userId, enabled, []⟩])
          s enabled :=
  Iff.rfl

/- A SELECT that locks the rows with the keys. -/
@[simp] theorem wp_select_plain
    {β : Type}
    (need : Cell → List Key)
    (rows : Cell → β)
    {post : List (Action inventory) → Cell → β → Prop} :
    (Prog.select .plain need rows :
        Prog inventory Cell β).wp post err log s ↔
      post (log ++ [⟨.plain, (), need s⟩]) s (rows s) :=
  ⟨fun h => h (), fun h _ => h⟩

@[simp] theorem wp_selectRows
    {β : Type}
    (rows : Cell → β)
    {post : List (Action inventory) → Cell → β → Prop} :
    (selectRows rows).wp post err log s ↔
      post (log ++ [⟨.plain, (), []⟩]) s (rows s) :=
  wp_select_plain _ _

@[simp] theorem wp_selectResourceForUpdate
    (rid : Uuid)
    {post :
      List (Action inventory) → Cell → Option Resource →
        Prop} :
    (selectResourceForUpdate rid).wp post err log s ↔
      post
        (log ++
          [⟨.plain, (),
            s.resourceKeys (.resourceUpdate rid)⟩])
        s s.resource :=
  wp_select_plain _ _

@[simp] theorem wp_selectResourceForShare
    (rid : Uuid)
    {post :
      List (Action inventory) → Cell → Option Resource →
        Prop} :
    (selectResourceForShare rid).wp post err log s ↔
      post
        (log ++
          [⟨.plain, (),
            s.resourceKeys (.resourceShare rid)⟩])
        s s.resource :=
  wp_select_plain _ _

@[simp] theorem wp_selectResourceSkipLocked
    (rid : Uuid)
    {post :
      List (Action inventory) → Cell → Option Resource →
        Prop} :
    (selectResourceSkipLocked rid).wp post err log s ↔
      post (log ++ [⟨.rowLocked rid, true, []⟩]) s none ∧
      post
        (log ++
          [⟨.rowLocked rid, false,
            s.resourceKeys (.resourceUpdate rid)⟩])
        s s.resource := by
  constructor
  · intro h
    exact ⟨h true, h false⟩
  · intro h locked
    cases locked
    · exact h.2
    · exact h.1

@[simp] theorem wp_selectBookingsForUpdate
    (p : Booking → Bool)
    {post :
      List (Action inventory) → Cell → List Booking →
        Prop} :
    (selectBookingsForUpdate p).wp post err log s ↔
      post
        (log ++
          [⟨.plain, (),
            (s.bookings.filter p).map
              (Key.bookingUpdate ·.id)⟩])
        s (s.bookings.filter p) :=
  wp_select_plain _ _

@[simp] theorem wp_selectEntriesForUpdate
    (p : WaitlistEntry → Bool)
    {post :
      List (Action inventory) → Cell → List WaitlistEntry →
        Prop} :
    (selectEntriesForUpdate p).wp post err log s ↔
      post
        (log ++
          [⟨.plain, (),
            (s.entries.filter p).map
              (Key.entryUpdate ·.id)⟩])
        s (s.entries.filter p) :=
  wp_select_plain _ _

/- None, exactly one row, or an error. -/
theorem wp_scalarOneOrNone
    {β : Type}
    {rows : List β}
    {post :
      List (Action inventory) → Cell → Option β → Prop}
    (hErr : ∀ log e, err log e)
    (hNone : rows = [] → post log s none)
    (hSome : ∀ row, rows = [row] → post log s (some row)) :
    (scalarOneOrNone rows).wp post err log s := by
  match rows with
  | [] => exact hNone rfl
  | [row] => exact hSome row rfl
  | _ :: _ :: _ => exact hErr log _

end Rules

end PigBook

------------------------------------------------------------
-- Rules for Writing Statements
------------------------------------------------------------

namespace PigBook

open ReadCommitted

section Rules

variable {err : List (Action inventory) → Error → Prop}
variable {log : List (Action inventory)} {s : Cell}

theorem wp_insertBooking
    {rid : Uuid}
    {b : Booking}
    {post :
      List (Action inventory) → Cell → Option Constraint →
        Prop}
    (hInserted :
      s.bookingViolation b = none →
        post
          (log ++
            [⟨.plain, (), s.insertBookingKeys rid b⟩])
          (s.addBooking b) none)
    (hViolated :
      ∀ c, s.bookingViolation b = some c →
        post
          (log ++
            [⟨.plain, (), s.insertBookingKeys rid b⟩])
          s (some c)) :
    (insertBooking rid b).wp post err log s := by
  intro a
  cases hCase : s.bookingViolation b with
  | none =>
      have hPost := hInserted hCase
      simpa [hCase] using hPost
  | some c =>
      have hPost := hViolated c hCase
      simpa [hCase] using hPost

theorem wp_insertEntry
    {rid : Uuid}
    {e : WaitlistEntry}
    {post :
      List (Action inventory) → Cell → Option Constraint →
        Prop}
    (hInserted :
      s.entryViolation e = none →
        ∀ a : Action inventory,
          post (log ++ [a]) (s.addEntry e) none)
    (hViolated :
      ∀ c, s.entryViolation e = some c →
        ∀ a : Action inventory,
          post (log ++ [a]) s (some c)) :
    (insertEntry rid e).wp post err log s := by
  intro a
  cases hCase : s.entryViolation e with
  | none =>
      have hPost := hInserted hCase
      simpa [hCase] using hPost _
  | some c =>
      have hPost := hViolated c hCase
      simpa [hCase] using hPost _

theorem wp_updateBookings
    {p : Booking → Bool}
    {f : Booking → Booking}
    {post : List (Action inventory) → Cell → ℕ → Prop}
    (hUpdated :
      s.bookingsUpdateViolation p f = none →
        post
          (log ++
            [⟨.plain, (),
              (s.bookings.filter p).map
                (Key.bookingUpdate ·.id)⟩])
          (s.setBookings p f)
          (s.bookings.filter p).length)
    (hViolated :
      ∀ c log, s.bookingsUpdateViolation p f = some c →
        err log (.integrityError c)) :
    (updateBookings p f).wp post err log s := by
  intro a
  cases hCase : s.bookingsUpdateViolation p f with
  | none =>
      have hPost := hUpdated hCase
      simpa [hCase] using hPost
  | some c =>
      simpa [hCase] using hViolated c _ hCase

theorem wp_updateEntries
    {p : WaitlistEntry → Bool}
    {f : WaitlistEntry → WaitlistEntry}
    {post : List (Action inventory) → Cell → ℕ → Prop}
    (hUpdated :
      s.entriesUpdateViolation p f = none →
        post
          (log ++
            [⟨.plain, (),
              (s.entries.filter p).map
                (Key.entryUpdate ·.id)⟩])
          (s.setEntries p f)
          (s.entries.filter p).length)
    (hViolated :
      ∀ c log, s.entriesUpdateViolation p f = some c →
        err log (.integrityError c)) :
    (updateEntries p f).wp post err log s := by
  intro a
  cases hCase : s.entriesUpdateViolation p f with
  | none =>
      have hPost := hUpdated hCase
      simpa [hCase] using hPost
  | some c =>
      simpa [hCase] using hViolated c _ hCase

theorem wp_appendEvent
    {rid : Uuid}
    {eventType : EventType}
    {b : Booking}
    {now : ℤ}
    {post : List (Action inventory) → Cell → Uuid → Prop}
    (hInserted :
      ∀ eventId,
        s.eventViolation
            (eventOf rid eventType b now eventId) = none →
          post
            (log ++ [⟨.uuid, eventId, []⟩] ++
              [⟨.plain, (),
                (eventOf rid eventType b now
                  eventId).keys⟩])
            (s.addEvent
              (eventOf rid eventType b now eventId))
            eventId)
    (hViolated :
      ∀ eventId c,
        s.eventViolation
            (eventOf rid eventType b now eventId) = some c →
          err
            (log ++ [⟨.uuid, eventId, []⟩] ++
              [⟨.plain, (),
                (eventOf rid eventType b now
                  eventId).keys⟩])
            (.integrityError c)) :
    (appendEvent rid eventType b now).wp post err log s := by
  unfold appendEvent
  rw [Prog.bind_eq, Prog.wp_bind, wp_uuid4]
  intro eventId
  rw [Prog.bind_eq, Prog.wp_bind]
  rintro ⟨⟩
  cases hCase :
      s.eventViolation
        (eventOf rid eventType b now eventId) with
  | none =>
      simpa [hCase] using hInserted eventId hCase
  | some c =>
      simpa [hCase] using hViolated eventId c hCase

theorem wp_appendAuditLog
    {action targetType : String}
    {targetId actorId : Option Uuid}
    {requestId : Uuid}
    {details : AuditDetails}
    {now : ℤ}
    {post :
      List (Action inventory) → Cell → AuditRecord → Prop}
    (hErr : ∀ log e, err log e)
    (hPost :
      ∀ auditId, ∀ acts : List (Action inventory),
        let a : AuditRecord := {
          id := auditId
          actorId := actorId
          action := action
          targetType := targetType
          targetId := targetId
          requestId := requestId
          details := details
          createdAt := now
        }
        (∀ a' ∈ s.audit, a'.id ≠ auditId) →
        .unique (.auditLogPkey auditId) ∈ held acts →
          post (log ++ acts) (s.addAudit a) a) :
    (appendAuditLog action targetType targetId actorId
      requestId details now).wp post err log s := by
  unfold appendAuditLog
  rw [Prog.bind_eq, Prog.wp_bind, wp_uuid4]
  intro auditId
  rw [Prog.bind_eq, Prog.wp_bind]
  rintro ⟨⟩
  by_cases hCase : ∃ a' ∈ s.audit, a'.id = auditId
  · simp only [hCase, if_true]
    exact hErr _ _
  · have hFresh : ∀ a' ∈ s.audit, a'.id ≠ auditId :=
      fun a' hRow hId => hCase ⟨a', hRow, hId⟩
    have hDone :=
      hPost auditId
        ([⟨.uuid, auditId, []⟩] ++
          [⟨.plain, (), [.unique (.auditLogPkey auditId)]⟩])
        hFresh (by simp)
    simp only [hCase, if_false]
    simpa using hDone

end Rules

end PigBook
