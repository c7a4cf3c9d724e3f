import PigBook.Inventory.PromotionFold
import PigBook.Inventory.Operations
import PigBook.ReadCommitted.Partition

/-
  Creating transactions hold the lock of their resource FOR
  SHARE, so that several of them are in flight together.
  The keys of the unique indexes and of the exclusion
  constraint keep them from noticing each other.

  Key definitions include:
    * `Grown`
    * `Cell.Grows`

  Key theorems include:
    * `Cell.Grows.bookingViolation`
    * `createBooking_steady`, `createBlackout_steady`
-/

------------------------------------------------------------
-- Cells that Grow
------------------------------------------------------------

namespace PigBook

open ReadCommitted

/- The keys of the INSERT of a booking that succeeds. -/
def Booking.keys
    (rid : Uuid)
    (b : Booking) : List Key :=
  [.unique (.bookingsPkey b.id), .noOverlap rid b.timeRange]

/- The keys of the INSERT of an audit record. -/
def AuditRecord.keys (a : AuditRecord) : List Key :=
  [.unique (.auditLogPkey a.id)]

/- No row is lost, and new rows are inserted under `ks`. -/
structure Grown
    {β : Type}
    (keys : β → List Key)
    (ks : List Key)
    (rows rows' : List β) : Prop where
  kept : rows ⊆ rows'
  added : ∀ x ∈ rows', x ∈ rows ∨ keys x ⊆ ks

namespace Grown

variable {β : Type} {keys : β → List Key} {ks : List Key}
variable {rows rows' : List β}

theorem refl :
    Grown keys ks rows rows :=
  ⟨fun _ h => h, fun _ h => Or.inl h⟩

/- One row is inserted. -/
theorem append
    {x : β}
    (hKeys : keys x ⊆ ks) :
    Grown keys ks rows (rows ++ [x]) where
  kept := List.subset_append_left _ _
  added := by
    intro y hy
    rcases List.mem_append.mp hy with hOld | hNew
    · exact Or.inl hOld
    · rw [List.mem_singleton.mp hNew]
      exact Or.inr hKeys

/- One row is inserted into both tables. -/
theorem append_both
    (hGrown : Grown keys ks rows rows')
    (x : β) :
    Grown keys ks (rows ++ [x]) (rows' ++ [x]) where
  kept := by
    intro y hy
    rcases List.mem_append.mp hy with hOld | hNew
    · exact List.mem_append_left _ (hGrown.kept hOld)
    · exact List.mem_append_right _ hNew
  added := by
    intro y hy
    rcases List.mem_append.mp hy with hOld | hNew
    · rcases hGrown.added y hOld with hKept | hKeys
      · exact Or.inl (List.mem_append_left _ hKept)
      · exact Or.inr hKeys
    · exact Or.inl (List.mem_append_right _ hNew)

/- A search that the new rows do not meet finds the same. -/
theorem exists_iff
    (hGrown : Grown keys ks rows rows')
    {found : β → Prop}
    (hMiss : ∀ x, keys x ⊆ ks → ¬ found x) :
    (∃ x ∈ rows', found x) ↔ ∃ x ∈ rows, found x := by
  constructor
  · rintro ⟨x, hx, hFound⟩
    rcases hGrown.added x hx with hOld | hKeys
    · exact ⟨x, hOld, hFound⟩
    · exact absurd hFound (hMiss x hKeys)
  · rintro ⟨x, hx, hFound⟩
    exact ⟨x, hGrown.kept hx, hFound⟩

end Grown

/-
  What a creating transaction with the keys `ks` does to a
  cell that it shares: it inserts bookings, events and audit
  records, all under keys of its own.
-/
structure Cell.Grows
    (rid : Uuid)
    (ks : List Key)
    (s s' : Cell) : Prop where
  users : s'.users = s.users
  resource : s'.resource = s.resource
  bookings :
    Grown (Booking.keys rid) ks s.bookings s'.bookings
  outbox : Grown OutboxEvent.keys ks s.outbox s'.outbox
  audit : Grown AuditRecord.keys ks s.audit s'.audit

namespace Cell.Grows

variable {rid : Uuid} {ks : List Key} {s s' : Cell}

theorem refl :
    Cell.Grows rid ks s s :=
  ⟨rfl, rfl, .refl, .refl, .refl⟩

theorem addBooking
    (hGrows : Cell.Grows rid ks s s')
    (b : Booking) :
    Cell.Grows rid ks (s.addBooking b) (s'.addBooking b) :=
  ⟨hGrows.users, hGrows.resource, hGrows.bookings.append_both b,
    hGrows.outbox, hGrows.audit⟩

theorem addEvent
    (hGrows : Cell.Grows rid ks s s')
    (ev : OutboxEvent) :
    Cell.Grows rid ks (s.addEvent ev) (s'.addEvent ev) :=
  ⟨hGrows.users, hGrows.resource, hGrows.bookings,
    hGrows.outbox.append_both ev, hGrows.audit⟩

theorem addAudit
    (hGrows : Cell.Grows rid ks s s')
    (a : AuditRecord) :
    Cell.Grows rid ks (s.addAudit a) (s'.addAudit a) :=
  ⟨hGrows.users, hGrows.resource, hGrows.bookings, hGrows.outbox,
    hGrows.audit.append_both a⟩

/- A row with its own keys fits in as before. -/
theorem bookingRowViolation
    (hGrows : Cell.Grows rid ks s s')
    {b : Booking}
    (hCompat :
      Compatible (S := inventory) (s.insertBookingKeys rid b)
        ks) :
    s'.bookingRowViolation b = s.bookingRowViolation b := by
  have hOwn :
      (Key.unique (.bookingsPkey b.id)) ∈
        s.insertBookingKeys rid b := by
    unfold Cell.insertBookingKeys
    split <;> simp
  have hSameId :
      (∃ x ∈ s'.bookings, x.id = b.id) ↔
        ∃ x ∈ s.bookings, x.id = b.id := by
    refine hGrows.bookings.exists_iff ?_
    intro x hKeys hId
    refine hCompat _ hOwn _ (hKeys List.mem_cons_self) ?_
    change UniqueKey.bookingsPkey b.id = .bookingsPkey x.id
    rw [hId]
  cases hCase : s.bookingRowViolation b with
  | none =>
      rcases bookingRowViolation_eq_none_iff.mp hCase with
        ⟨hCheck, hFresh, hFree⟩
      refine
        bookingRowViolation_eq_none_iff.mpr ⟨hCheck, ?_, ?_⟩
      · intro x hx hId
        rcases hSameId.mp ⟨x, hx, hId⟩ with ⟨y, hy, hIdY⟩
        exact hFresh y hy hIdY
      · rintro ⟨hActive, x, hx, hOccupies⟩
        rcases hGrows.bookings.added x hx with hOld | hKeys
        · exact hFree ⟨hActive, x, hOld, hOccupies⟩
        · have hWindow :
              (Key.noOverlap rid b.timeRange) ∈
                s.insertBookingKeys rid b := by
            unfold Cell.insertBookingKeys
            rw [if_pos hCase]
            simp
          have hTheirs :
              (Key.noOverlap rid x.timeRange) ∈ ks :=
            hKeys (by simp [Booking.keys])
          exact
            hCompat _ hWindow _ hTheirs
              ⟨rfl, hOccupies.2.symm⟩
  | some c =>
      rw [← hCase]
      unfold Cell.bookingRowViolation at hCase ⊢
      simp only [hSameId]
      by_cases hCheck : b.Check
      · by_cases hTaken : ∃ x ∈ s.bookings, x.id = b.id
        · simp only [hTaken, if_true]
        · -- the window is taken, and it stays so
          by_cases hBusy :
              b.status.active = true ∧
                s.Occupied b.timeRange
          · rcases hBusy.2 with ⟨x, hx, hOccupies⟩
            have hOccupied' : s'.Occupied b.timeRange :=
              ⟨x, hGrows.bookings.kept hx, hOccupies⟩
            have hBusy' :
                b.status.active = true ∧
                  s'.Occupied b.timeRange :=
              ⟨hBusy.1, hOccupied'⟩
            rw [if_pos hBusy, if_pos hBusy']
          · rw [if_neg (not_not.mpr hCheck), if_neg hTaken,
              if_neg hBusy] at hCase
            cases hCase
      · simp only [hCheck, not_false_eq_true, if_true]

/- An INSERT with its own keys fares the same. -/
theorem bookingViolation
    (hGrows : Cell.Grows rid ks s s')
    {b : Booking}
    (hCompat :
      Compatible (S := inventory) (s.insertBookingKeys rid b)
        ks) :
    s'.bookingViolation b = s.bookingViolation b := by
  have hSame := hGrows.bookingRowViolation hCompat
  unfold Cell.bookingViolation Cell.bookingForeignViolation
  rw [hSame, hGrows.users, hGrows.resource]

theorem insertBookingKeys
    (hGrows : Cell.Grows rid ks s s')
    {b : Booking}
    (hCompat :
      Compatible (S := inventory) (s.insertBookingKeys rid b)
        ks) :
    s'.insertBookingKeys rid b = s.insertBookingKeys rid b := by
  unfold Cell.insertBookingKeys
  rw [hGrows.bookingRowViolation hCompat]

/- An event with its own keys is as new as before. -/
theorem eventViolation
    (hGrows : Cell.Grows rid ks s s')
    {ev : OutboxEvent}
    (hCompat : Compatible (S := inventory) ev.keys ks) :
    s'.eventViolation ev = s.eventViolation ev := by
  have hSameId :
      (∃ x ∈ s'.outbox, x.id = ev.id) ↔
        ∃ x ∈ s.outbox, x.id = ev.id := by
    refine hGrows.outbox.exists_iff ?_
    intro x hKeys hId
    refine
      hCompat (.unique (.outboxPkey ev.id))
        (by simp [OutboxEvent.keys])
        (.unique (.outboxPkey x.id))
        (hKeys (by simp [OutboxEvent.keys])) ?_
    change UniqueKey.outboxPkey ev.id = .outboxPkey x.id
    rw [hId]
  have hSameAggregate :
      (∃ x ∈ s'.outbox,
        x.aggregateId = ev.aggregateId ∧
        x.aggregateVersion = ev.aggregateVersion ∧
        x.eventType = ev.eventType) ↔
      ∃ x ∈ s.outbox,
        x.aggregateId = ev.aggregateId ∧
        x.aggregateVersion = ev.aggregateVersion ∧
        x.eventType = ev.eventType := by
    refine hGrows.outbox.exists_iff ?_
    rintro x hKeys ⟨hId, hVersion, hType⟩
    refine
      hCompat
        (.unique (.outboxAggregate ev.aggregateId
          ev.aggregateVersion ev.eventType))
        (by simp [OutboxEvent.keys])
        (.unique (.outboxAggregate x.aggregateId
          x.aggregateVersion x.eventType))
        (hKeys (by simp [OutboxEvent.keys])) ?_
    change
      UniqueKey.outboxAggregate ev.aggregateId
        ev.aggregateVersion ev.eventType =
      .outboxAggregate x.aggregateId x.aggregateVersion
        x.eventType
    rw [hId, hVersion, hType]
  unfold Cell.eventViolation
  simp only [hSameId, hSameAggregate]

theorem auditExists
    (hGrows : Cell.Grows rid ks s s')
    {a : AuditRecord}
    (hCompat : Compatible (S := inventory) a.keys ks) :
    (∃ x ∈ s'.audit, x.id = a.id) ↔
      ∃ x ∈ s.audit, x.id = a.id := by
  refine hGrows.audit.exists_iff ?_
  intro x hKeys hId
  refine
    hCompat (.unique (.auditLogPkey a.id))
      (by simp [AuditRecord.keys])
      (.unique (.auditLogPkey x.id))
      (hKeys (by simp [AuditRecord.keys])) ?_
  change UniqueKey.auditLogPkey a.id = .auditLogPkey x.id
  rw [hId]

end Cell.Grows

end PigBook

------------------------------------------------------------
-- Statements that Notice No Growth
------------------------------------------------------------

namespace PigBook

open ReadCommitted

variable {rid : Uuid} {ks : List Key} {s s' : Cell}
variable {α β : Type}

theorem steady_ask
    {q : Query}
    {f : q.Answer → Tx β}
    (hRest : ∀ a, (f a).Steady ks s s') :
    ((Prog.ask (S := inventory) (σ := Cell) q).bind f).Steady
      ks s s' :=
  fun a _ => ⟨rfl, rfl, rfl, hRest a⟩

theorem steady_selectResourceForShare
    (hGrows : Cell.Grows rid ks s s')
    {f : Option Resource → Tx β}
    (hRest : (f s.resource).Steady ks s s') :
    ((selectResourceForShare rid).bind f).Steady ks s s' := by
  intro a _
  refine ⟨?_, rfl, ?_, hRest⟩
  · simp only [Cell.resourceKeys, hGrows.resource]
  · change f s'.resource = f s.resource
    rw [hGrows.resource]

theorem steady_insertBooking
    (hGrows : Cell.Grows rid ks s s')
    {b : Booking}
    {f : Option Constraint → Tx β}
    (hInserted :
      (f none).Steady ks (s.addBooking b) (s'.addBooking b))
    (hViolated : ∀ c, (f (some c)).Steady ks s s') :
    ((insertBooking rid b).bind f).Steady ks s s' := by
  intro a hCompat
  have hSame := hGrows.bookingViolation (b := b) hCompat
  refine ⟨hGrows.insertBookingKeys hCompat, ?_, ?_, ?_⟩
  · simp only [hSame]
  · simp only [hSame]
  · cases hCase : s.bookingViolation b with
    | none => simpa [hCase, Prog.bind] using hInserted
    | some c => simpa [hCase, Prog.bind] using hViolated c

theorem steady_appendEvent
    (hGrows : Cell.Grows rid ks s s')
    {eventType : EventType}
    {b : Booking}
    {now : ℤ}
    {f : Uuid → Tx β}
    (hRest :
      ∀ eventId t t', Cell.Grows rid ks t t' →
        (f eventId).Steady ks t t') :
    ((appendEvent rid eventType b now).bind f).Steady ks s
      s' := by
  refine steady_ask (q := .uuid) ?_
  intro eventId a hCompat
  have hSame := hGrows.eventViolation hCompat
  refine ⟨rfl, rfl, ?_, ?_⟩
  · simp only [hSame]
  · dsimp only
    split
    · trivial
    · exact hRest eventId _ _ (hGrows.addEvent _)

theorem steady_auditRequestId
    {scope : Scope}
    {f : Uuid → Tx β}
    (hRest : ∀ requestId, (f requestId).Steady ks s s') :
    ((auditRequestId scope).bind f).Steady ks s s' := by
  unfold auditRequestId
  split
  · exact hRest _
  · exact steady_ask (q := .uuid) hRest

theorem steady_appendAuditLog
    (hGrows : Cell.Grows rid ks s s')
    {action targetType : String}
    {targetId actorId : Option Uuid}
    {requestId : Uuid}
    {details : AuditDetails}
    {now : ℤ}
    {f : AuditRecord → Tx β}
    (hRest :
      ∀ a t t', Cell.Grows rid ks t t' →
        (f a).Steady ks t t') :
    ((appendAuditLog action targetType targetId actorId
      requestId details now).bind f).Steady ks s s' := by
  refine steady_ask (q := .uuid) ?_
  intro auditId a hCompat
  have hSame :=
    hGrows.auditExists
      (a := {
        id := auditId
        actorId := actorId
        action := action
        targetType := targetType
        targetId := targetId
        requestId := requestId
        details := details
        createdAt := now
      }) hCompat
  refine ⟨rfl, rfl, ?_, ?_⟩
  · simp only [hSame]
  · dsimp only
    split
    · trivial
    · exact hRest _ _ _ (hGrows.addAudit _)

theorem steady_insertConfirmed
    (hGrows : Cell.Grows rid ks s s')
    {principalId : Uuid}
    {r : TimeRange}
    {kind : Kind}
    {f : Except Error Booking → Tx β}
    (hRest :
      ∀ inserted t t', Cell.Grows rid ks t t' →
        (f inserted).Steady ks t t') :
    ((insertConfirmed rid principalId r kind).bind f).Steady
      ks s s' := by
  unfold insertConfirmed
  rw [Prog.bind_eq, Prog.bind_assoc]
  refine steady_selectResourceForShare hGrows ?_
  split
  · exact hRest _ _ _ hGrows
  split
  · exact hRest _ _ _ hGrows
  simp only [Prog.bind_eq, Prog.bind_assoc]
  refine steady_ask (q := .uuid) (fun bookingId => ?_)
  refine steady_ask (q := .transactionTime)
    (fun createdAt => ?_)
  refine steady_insertBooking hGrows ?_ ?_
  · exact hRest _ _ _ (hGrows.addBooking _)
  · intro c
    cases c
    case bookingsNoOverlap => exact hRest _ _ _ hGrows
    all_goals trivial

/- Creating a booking notices no other creation. -/
theorem createBooking_steady
    (hGrows : Cell.Grows rid ks s s')
    (scope : Scope)
    (startsAt endsAt : Datetime) :
    (createBooking rid scope startsAt endsAt).Steady ks s
      s' := by
  unfold createBooking
  refine steady_ask (q := .clock) (fun dbNow => ?_)
  split
  · trivial
  refine steady_insertConfirmed hGrows ?_
  intro inserted t t' hLater
  split
  · trivial
  · trivial
  · trivial
  · exact
      steady_appendEvent hLater (fun _ _ _ _ => trivial)

/- Creating a blackout notices none, either. -/
theorem createBlackout_steady
    (hGrows : Cell.Grows rid ks s s')
    (scope : Scope)
    (startsAt endsAt : Datetime) :
    (createBlackout rid scope startsAt endsAt).Steady ks s
      s' := by
  unfold createBlackout insertBlackout
  refine steady_ask (q := .clock) (fun _ => ?_)
  rw [Prog.bind_eq, Prog.bind_eq, Prog.bind_assoc]
  refine steady_selectResourceForShare hGrows ?_
  split
  · trivial
  split
  · trivial
  simp only [Prog.bind_eq, Prog.bind_assoc]
  refine steady_ask (q := .clock) (fun dbNow => ?_)
  split
  · rename_i e _
    cases e <;> trivial
  simp only [Prog.bind_assoc]
  refine steady_ask (q := .uuid) (fun bookingId => ?_)
  refine steady_insertBooking hGrows ?_ ?_
  · simp only [Prog.bind_assoc]
    refine steady_auditRequestId (fun requestId => ?_)
    exact
      steady_appendAuditLog (hGrows.addBooking _)
        (fun _ _ _ _ => trivial)
  · intro c
    cases c <;> trivial

end PigBook
