import PigBook.Inventory.Constraints
import PigBook.Inventory.Requests

/-
  Every request respects the constraints of its tables, at
  each of its statements.

  Key definitions include:
    * `Cell.Recorded`
    * `Request.Admitted`, `Request.refusal`

  Key theorems include:
    * `acceptOffer_lawfully`, `declineEntry_lawfully`
    * `cancelBooking_lawfully`, `cancelBlackout_lawfully`
    * `expireAndPromote_lawfully`
    * `Request.lawfully`
-/

------------------------------------------------------------
-- Transitions that the Tables Allow
------------------------------------------------------------

namespace PigBook

open ReadCommitted

/- The trigger lets the end of an offer pass. -/
theorem Booking.guard_transition
    {b : Booking}
    (hOffered : b.status = .offered)
    {status : BookingStatus}
    (hStatus :
      status = .confirmed ∨ status = .cancelled ∨
        status = .expired)
    (now : ℤ) :
    b.GuardUpdate (b.transition status now) :=
  ⟨⟨rfl, rfl, rfl, rfl⟩,
    fun _ => Or.inr (Or.inl ⟨hOffered, hStatus⟩), rfl⟩

/- An active booking may be cancelled. -/
theorem Booking.guard_cancelled
    {b b' : Booking}
    (hActive : b.status.active = true)
    (hSame :
      b'.userId = b.userId ∧ b'.kind = b.kind ∧
        b'.timeRange = b.timeRange ∧
        b'.createdBy = b.createdBy)
    (hCancelled : b'.status = .cancelled)
    (hVersion : b'.version = b.version + 1) :
    b.GuardUpdate b' := by
  refine ⟨hSame, ?_, hVersion⟩
  intro _
  cases hStatus : b.status <;> rw [hStatus] at hActive
  case confirmed =>
    exact Or.inr (Or.inr ⟨rfl, hCancelled⟩)
  case offered =>
    exact Or.inr (Or.inl ⟨rfl, Or.inr (Or.inl hCancelled)⟩)
  all_goals cases hActive

/- A new booking satisfies the CHECK constraints. -/
theorem Booking.new_check
    {b : Booking}
    (hReason : b.cancellationReason = none)
    (hVersion : b.version = 1)
    (hKind :
      (b.kind = .reservation ∧ b.userId.isSome) ∨
        (b.kind = .blackout ∧ b.userId = none))
    (hStatus : b.status = .confirmed)
    (hDeadline : b.expiresAt = none) :
    b.Check := by
  refine ⟨?_, ?_, ?_, Or.inr ⟨?_, hDeadline⟩⟩
  · intro reason hSome
    rw [hReason] at hSome
    cases hSome
  · rw [hVersion]
    exact Nat.one_pos
  · exact
      hKind.imp_right (fun h => ⟨h.1, h.2, Or.inl hStatus⟩)
  · rw [hStatus]
    decide

/- A reservation may be cancelled with a proper reason. -/
theorem Booking.cancel_check
    {b : Booking}
    (hCheck : b.Check)
    (hKind : b.kind = .reservation)
    {reason : String}
    (hReason : reason.length ≤ 500)
    (now : ℤ) :
    (b.cancel reason now).Check := by
  rcases hCheck with ⟨-, -, hKinds, -⟩
  refine
    ⟨?_, Nat.succ_pos _, ?_,
      Or.inr ⟨(by simp [Booking.cancel, Booking.transition]),
        rfl⟩⟩
  · intro reason' hSome
    rw [← Option.some.inj hSome]
    exact hReason
  · rcases hKinds with hReservation | ⟨hBlackout, -⟩
    · exact Or.inl hReservation
    · rw [hKind] at hBlackout
      cases hBlackout

/- A confirmed blackout may be cancelled. -/
theorem Booking.blackout_check
    {b b' : Booking}
    (hCheck : b.Check)
    (hKind : b.kind = .blackout)
    (hStatus : b.status = .confirmed)
    (hEq :
      b' = { b with
        status := .cancelled
        version := b'.version
        updatedAt := b'.updatedAt })
    (hVersion : 0 < b'.version) :
    b'.Check := by
  rcases hCheck with ⟨hReason, -, hKinds, hDeadline⟩
  rw [hEq]
  refine ⟨hReason, hVersion, Or.inr ?_, Or.inr ?_⟩
  · rcases hKinds with ⟨hReservation, -⟩ | ⟨-, hUser, -⟩
    · rw [hKind] at hReservation
      cases hReservation
    · exact ⟨hKind, hUser, Or.inr rfl⟩
  · rcases hDeadline with ⟨hOffered, -⟩ | ⟨-, hNone⟩
    · rw [hStatus] at hOffered
      cases hOffered
    · exact ⟨by simp, hNone⟩

/- Entries may end their membership. -/
theorem EntriesOk.transition
    {es : List WaitlistEntry}
    (hOk : EntriesOk es)
    {p : WaitlistEntry → Bool}
    {status : EntryStatus}
    {now : ℤ}
    (hEnds : status.active = false)
    (hLinked :
      status = .accepted →
        ∀ e ∈ es, p e = true → e.offeredBookingId.isSome) :
    EntriesOk (updateWhere p (.transition status now) es) := by
  refine hOk.update (fun _ => rfl) (fun _ => rfl)
    (fun _ => rfl) ?_ ?_ ?_
  · intro e _ _ hActive
    change status.active = true at hActive
    rw [hEnds] at hActive
    cases hActive
  · intro e _ e' _ _ hApart
    exact
      linkedApart_of_same (p := p)
        (f := .transition status now) (fun _ => rfl) e e'
        hApart
  · intro e hRow hCase
    refine ⟨Nat.succ_pos _, ?_⟩
    rintro (hStatus | hStatus)
    · change status = .offered at hStatus
      rw [hStatus] at hEnds
      cases hEnds
    · exact hLinked hStatus e hRow hCase

end PigBook

------------------------------------------------------------
-- Recorded Versions
------------------------------------------------------------

namespace PigBook

open ReadCommitted

/- Events are about versions that their bookings have had. -/
def Cell.Recorded (s : Cell) : Prop :=
  ∀ ev ∈ s.outbox, ∃ b ∈ s.bookings,
    b.id = ev.aggregateId ∧ ev.aggregateVersion ≤ b.version

variable {s s' : Cell}

/- No event is about a version to come. -/
theorem Cell.Recorded.before_next
    (hRecorded : s.Recorded)
    (hIds : Keyed Booking.id s.bookings)
    {b : Booking}
    (hRow : b ∈ s.bookings) :
    ∀ ev ∈ s.outbox, ev.aggregateId = b.id →
      ev.aggregateVersion < b.version + 1 := by
  intro ev hEv hId
  rcases hRecorded ev hEv with ⟨b', hRow', hId', hVersion⟩
  rw [hIds.eq_of_key hRow' hRow (hId'.trans hId)] at hVersion
  exact Nat.lt_succ_of_le hVersion

/- Nor about a booking to come. -/
theorem Cell.Valid.before_first
    (hCell : s.Valid)
    {id : Uuid}
    (hFresh : ∀ b ∈ s.bookings, b.id ≠ id)
    (version : ℕ) :
    ∀ ev ∈ s.outbox, ev.aggregateId = id →
      ev.aggregateVersion < version := by
  intro ev hEv hId
  rcases hCell.outboxExists ev hEv with ⟨b, hb, hIdB⟩
  exact absurd (hIdB.trans hId) (hFresh b hb)

end PigBook

------------------------------------------------------------
-- Rules for Rows that Were Read
------------------------------------------------------------

namespace PigBook

open ReadCommitted

variable {α : Type} {known : Prop} {used : Uuid → Prop}
variable {refused : Tx α → Prop}
variable {log : List (Action inventory)} {s : Cell}

/- The start of a transaction. -/
theorem Orderly.start
    (hCell : s.Valid) :
    Orderly s.Names [] s where
  bookings := hCell.bookings
  entries := hCell.entries
  references := hCell.references
  names := fun _ hName => Or.inl hName

/- The UPDATE of one booking by its id and version. -/
theorem lawfully_updateCurrent
    {b : Booking}
    {f : Booking → Booking}
    {k : ℕ → Tx α}
    (hOrderly : Orderly used log s)
    (hRow : b ∈ s.bookings)
    (hId : ∀ x, (f x).id = x.id)
    (hRange : ∀ x, (f x).timeRange = x.timeRange)
    (hGuard : b.GuardUpdate (f b))
    (hActive :
      (f b).status.active = true → b.status.active = true)
    (hCheck : (f b).Check)
    (hRest :
      ∀ count (act : Action inventory),
        Orderly used (log ++ [act])
            (s.setBookings b.current f) →
          Lawfully known used refused (k count) (log ++ [act])
            (s.setBookings b.current f)) :
    Lawfully known used refused ((updateBookings b.current f).bind k)
      log s := by
  have hOnly : ∀ x ∈ s.bookings, b.current x = true → x = b := by
    intro x hx hCase
    exact
      hOrderly.bookings.ids.eq_of_key hx hRow
        ((Booking.current_iff hOrderly.bookings.ids hRow x
          hx).mp hCase)
  refine lawfully_updateBookings hOrderly hId ?_ ?_ ?_
  · intro x hx hCase
    rw [hOnly x hx hCase]
    exact hGuard
  · apply hOrderly.bookings.update hId hRange
    · intro x hx hCase
      rw [hOnly x hx hCase]
      exact hActive
    · intro x hx hCase
      rw [hOnly x hx hCase]
      exact hCheck
  · intro keys hLater
    exact hRest _ _ hLater

theorem lawfully_updateBooking
    {b : Booking}
    {f : Booking → Booking}
    {k : Unit → Tx α}
    (hOrderly : Orderly used log s)
    (hRow : b ∈ s.bookings)
    (hId : ∀ x, (f x).id = x.id)
    (hRange : ∀ x, (f x).timeRange = x.timeRange)
    (hGuard : b.GuardUpdate (f b))
    (hActive :
      (f b).status.active = true → b.status.active = true)
    (hCheck : (f b).Check)
    (hRest :
      ∀ act : Action inventory,
        Orderly used (log ++ [act])
            (s.setBookings b.current f) →
          Lawfully known used refused (k ()) (log ++ [act])
            (s.setBookings b.current f)) :
    Lawfully known used refused ((updateBooking b f).bind k)
      log s := by
  unfold updateBooking
  simp only [Prog.bind_eq, Prog.bind_assoc]
  apply lawfully_updateCurrent hOrderly hRow hId hRange hGuard
    hActive hCheck
  intro count act hLater
  split
  · exact .of_ne (fun c hEq => by cases hEq)
  · exact hRest act hLater

/- The end of a hold, as a new version of its booking. -/
theorem lawfully_closeBooking
    {b : Booking}
    {status : BookingStatus}
    {now : ℤ}
    {k : Unit → Tx α}
    (hOrderly : Orderly used log s)
    (hRow : b ∈ s.bookings)
    (hOffered : b.status = .offered)
    (hStatus :
      status = .confirmed ∨ status = .cancelled ∨
        status = .expired)
    (hRest :
      ∀ act : Action inventory,
        Orderly used (log ++ [act])
            (s.setBookings b.current
              (.transition status now)) →
          Lawfully known used refused (k ()) (log ++ [act])
            (s.setBookings b.current
              (.transition status now))) :
    Lawfully known used refused
      ((updateBooking b (.transition status now)).bind k)
      log s := by
  have hCloses : status ≠ .offered := by
    rcases hStatus with rfl | rfl | rfl <;> decide
  refine lawfully_updateBooking hOrderly hRow (fun _ => rfl)
    (fun _ => rfl) (b.guard_transition hOffered hStatus now)
    ?_ ?_ hRest
  · intro _
    rw [hOffered]
    rfl
  · exact
      Booking.transition_check
        (hOrderly.bookings.checks b hRow) hOffered hCloses now

theorem lawfully_updateEntry
    {e : WaitlistEntry}
    {status : EntryStatus}
    {now : ℤ}
    {k : Unit → Tx α}
    (hOrderly : Orderly used log s)
    (hRow : e ∈ s.entries)
    (hEnds : status.active = false)
    (hLinked :
      status = .accepted → e.offeredBookingId.isSome)
    (hRest :
      ∀ act : Action inventory,
        Orderly used (log ++ [act])
            (s.setEntries e.current
              (.transition status now)) →
          Lawfully known used refused (k ()) (log ++ [act])
            (s.setEntries e.current
              (.transition status now))) :
    Lawfully known used refused
      ((updateEntry e (.transition status now)).bind k)
      log s := by
  unfold updateEntry
  simp only [Prog.bind_eq, Prog.bind_assoc]
  refine lawfully_updateEntries hOrderly (fun _ => rfl) ?_
    (hOrderly.references.setEntries (fun _ => rfl)
      (fun _ => rfl)) ?_
  · apply hOrderly.entries.transition hEnds
    intro hAccepted x hx hCase
    rw [hOrderly.entries.ids.eq_of_key hx hRow
      ((WaitlistEntry.current_iff hOrderly.entries.ids hRow x
        hx).mp hCase)]
    exact hLinked hAccepted
  · intro keys hLater
    split
    · exact .of_ne (fun c hEq => by cases hEq)
    · exact hRest _ hLater

/- A refresh reads, and answers the row with the id. -/
theorem lawfully_refreshBooking
    (b' : Booking)
    {b : Booking}
    {k : Booking → Tx α}
    (hOrderly : Orderly used log s)
    (hRow : b' ∈ s.bookings)
    (hId : b'.id = b.id)
    (hRest :
      ∀ act : Action inventory,
        Orderly used (log ++ [act]) s →
          Lawfully known used refused (k b') (log ++ [act]) s) :
    Lawfully known used refused ((refreshBooking b).bind k)
      log s := by
  unfold refreshBooking
  simp only [Prog.bind_eq, Prog.bind_assoc]
  apply lawfully_selectRows hOrderly
  intro hLater
  have hOne :
      s.bookings.filter (fun x => x.id = b.id) = [b'] := by
    apply hOrderly.bookings.ids.filter_eq_singleton hRow
    intro x _
    rw [decide_eq_true_iff, hId]
  rw [hOne]
  exact hRest _ hLater

theorem lawfully_refreshEntry
    {e : WaitlistEntry}
    {k : WaitlistEntry → Tx α}
    (hOrderly : Orderly used log s)
    (hRest :
      ∀ e' (act : Action inventory),
        Orderly used (log ++ [act]) s →
          Lawfully known used refused (k e') (log ++ [act]) s) :
    Lawfully known used refused ((refreshEntry e).bind k) log s := by
  unfold refreshEntry
  simp only [Prog.bind_eq, Prog.bind_assoc]
  apply lawfully_selectRows hOrderly
  intro hLater
  split
  · exact hRest _ _ hLater
  · exact .of_ne (fun c hEq => by cases hEq)

/- A lock on rows, which are read along with it. -/
theorem lawfully_lockRows
    {γ β : Type}
    {rows : Cell → List γ}
    {key : γ → Key}
    {get : Cell → β}
    {f : β → Tx α}
    (hOrderly : Orderly used log s)
    (hRows : ∀ x ukey, key x ≠ .unique ukey)
    (hRest :
      Orderly used
          (log ++ [⟨.plain, (), (rows s).map key⟩]) s →
        Lawfully known used refused (f (get s))
          (log ++ [⟨.plain, (), (rows s).map key⟩]) s) :
    Lawfully known used refused
      ((Prog.select (S := inventory) .plain
        (fun s => (rows s).map key) get).bind f) log s := by
  refine lawfully_select hOrderly ?_ hRest
  intro ukey hKey
  rcases List.mem_map.mp hKey with ⟨x, -, hEq⟩
  exact hRows x ukey hEq

end PigBook

------------------------------------------------------------
-- Creating
------------------------------------------------------------

namespace PigBook

open ReadCommitted

variable {known : Prop} {used : Uuid → Prop}
variable {log : List (Action inventory)} {s : Cell}

/- What remains is to answer the conflict. -/
def slotConflicts (rest : Tx Reply) : Prop :=
  ∃ message,
    rest = .done (.stored (conflict "SLOT_CONFLICT" message))

/- Only a conflict of the new booking is refused. -/
theorem createBooking_lawfully
    (hCell : s.Valid)
    (rid : Uuid)
    (scope : Scope)
    (startsAt endsAt : Datetime) :
    Lawfully (scope.principalId ∈ s.users) s.Names
      slotConflicts
      (createBooking rid scope startsAt endsAt) [] s := by
  unfold createBooking
  simp only [Prog.bind_eq]
  apply lawfully_ask .clock (.start hCell)
  intro dbNow hClock
  split
  · rename_i e hInvalid
    exact .of_window (validateBookingWindow_error hInvalid)
  rename_i r hWindow
  unfold insertConfirmed
  simp only [Prog.bind_eq, Prog.bind_assoc]
  apply lawfully_select hClock
    (resourceKeys_row (fun key hEq => by cases hEq))
  intro hShared
  split
  · exact .of_ne (fun c hEq => by cases hEq)
  rename_i resource hResource
  split
  · trivial
  simp only [Prog.bind_assoc]
  apply lawfully_ask .uuid hShared
  intro bookingId hBooking
  apply lawfully_ask .transactionTime hBooking
  intro createdAt hLater
  refine
    lawfully_insertBooking hLater rfl
      (Booking.new_check rfl rfl (Or.inl ⟨rfl, rfl⟩) rfl rfl)
      (by simp) ?_ ?_ ?_ ?_ ?_ ?_
  · intro hNo
    rw [List.append_assoc] at hNo
    exact hShared.fresh bookingId (by simp) hNo
  · rw [hResource]
    rfl
  · intro hKnown
    exact ⟨fun _ hId => Option.some.inj hId ▸ hKnown, hKnown⟩
  · intro _
    exact ⟨⟨_, rfl⟩, fun _ _ => trivial⟩
  · intro c hOther
    cases c
    case bookingsNoOverlap => exact absurd rfl hOther
    all_goals rfl
  · intro hNone act hBooked
    have hFresh :=
      (bookingViolation_eq_none_iff.mp hNone).1.2.1
    apply lawfully_appendEvent hBooked
      (hCell.before_first hFresh _)
    intro eventId rest _
    trivial

theorem createBlackout_lawfully
    (hCell : s.Valid)
    (rid : Uuid)
    (scope : Scope)
    (startsAt endsAt : Datetime) :
    Lawfully (scope.principalId ∈ s.users) s.Names
      slotConflicts
      (createBlackout rid scope startsAt endsAt) [] s := by
  unfold createBlackout insertBlackout
  simp only [Prog.bind_eq, Prog.bind_assoc]
  apply lawfully_ask .clock (.start hCell)
  intro _ hClock
  apply lawfully_select hClock
    (resourceKeys_row (fun key hEq => by cases hEq))
  intro hShared
  split
  · exact .of_ne (fun c hEq => by cases hEq)
  rename_i resource hResource
  split
  · trivial
  simp only [Prog.bind_assoc]
  apply lawfully_ask .clock hShared
  intro dbNow hSampled
  split
  · rename_i e hInvalid
    have hOther := validateBlackoutWindow_error hInvalid
    cases e
    case slotConflict => trivial
    case resourceInactive => trivial
    all_goals exact .of_window hOther
  simp only [Prog.bind_assoc]
  apply lawfully_ask .uuid hSampled
  intro bookingId hBooking
  refine
    lawfully_insertBooking hBooking rfl
      (Booking.new_check rfl rfl (Or.inr ⟨rfl, rfl⟩) rfl rfl)
      (by simp) ?_ ?_ ?_ ?_ ?_ ?_
  · intro hNo
    exact hSampled.fresh bookingId (by simp) hNo
  · rw [hResource]
    rfl
  · intro hKnown
    refine ⟨?_, hKnown⟩
    intro id hId
    cases hId
  · intro _
    exact ⟨⟨_, rfl⟩, fun _ _ => trivial⟩
  · intro c hOther
    cases c
    case bookingsNoOverlap => exact absurd rfl hOther
    all_goals rfl
  · intro hNone act hBooked
    dsimp only
    simp only [Prog.bind_assoc]
    apply lawfully_auditRequestId hBooked
    intro requestId rest hLater
    apply lawfully_appendAuditLog hLater
    intro a rest' _
    trivial

theorem joinWaitlist_lawfully
    (hCell : s.Valid)
    (rid : Uuid)
    (scope : Scope)
    (startsAt endsAt : Datetime) :
    Lawfully (scope.principalId ∈ s.users) s.Names never
      (joinWaitlist rid scope startsAt endsAt) [] s := by
  unfold joinWaitlist
  simp only [Prog.bind_eq]
  apply lawfully_ask .clock (.start hCell)
  intro dbNow hClock
  split
  · rename_i e hInvalid
    exact .of_window (validateBookingWindow_error hInvalid)
  rename_i r hWindow
  apply lawfully_select hClock
    (resourceKeys_row (fun key hEq => by cases hEq))
  intro hLocked
  split
  · exact .of_ne (fun c hEq => by cases hEq)
  rename_i resource hResource
  split
  · exact .of_ne (fun c hEq => by cases hEq)
  apply lawfully_selectRows hLocked
  intro hRead
  split
  · exact .of_ne (fun c hEq => by cases hEq)
  split
  · exact .of_ne (fun c hEq => by cases hEq)
  apply lawfully_selectRows hRead
  intro hRead'
  apply lawfully_scalarOneOrNone
  · intro hNone
    simp only [Option.isSome_none, Bool.false_eq_true,
      if_false]
    apply lawfully_selectRows hRead'
    intro hCounted
    split
    · exact .of_ne (fun c hEq => by cases hEq)
    apply lawfully_ask .uuid hCounted
    intro entryId hEntry
    apply lawfully_ask .transactionTime hEntry
    intro createdAt hLater
    refine
      lawfully_insertEntry hLater
        ⟨Nat.one_pos, by simp⟩ rfl ?_ (by simp) ?_ ?_ ?_
        ?_ ?_
    · -- an active entry for the window would have been found
      intro e hRow hActive _ hSame
      have hNot := List.filter_eq_nil_iff.mp hNone e hRow
      exact
        hNot (decide_eq_true ⟨hSame.1, hSame.2, hActive⟩)
    · intro hNo
      rw [List.append_assoc] at hNo
      exact hCounted.fresh entryId (by simp) hNo
    · rw [hResource]
      rfl
    · exact fun hKnown => hKnown
    · intro c hOther
      cases c
      case waitlistActiveUniqueIdx => exact absurd rfl hOther
      all_goals rfl
    · intro _ act hInserted
      apply lawfully_refreshEntry hInserted
      intro e act' _
      trivial
  · intro row _
    exact .of_ne (fun c hEq => by cases hEq)

end PigBook

------------------------------------------------------------
-- Cancelling
------------------------------------------------------------

namespace PigBook

open ReadCommitted

variable {α : Type} {known : Prop} {used : Uuid → Prop}
variable {refused : Tx α → Prop}
variable {log : List (Action inventory)} {s : Cell}

theorem lawfully_auditCancellation
    {rid : Uuid}
    {scope : Scope}
    {bookingId : Uuid}
    {reason : String}
    {now : ℤ}
    {k : Unit → Tx α}
    (hOrderly : Orderly used log s)
    (hRest :
      ∀ as rest,
        Orderly used (log ++ rest) (s.addAudits as) →
          Lawfully known used refused (k ()) (log ++ rest)
            (s.addAudits as)) :
    Lawfully known used refused
      ((auditCancellation rid scope bookingId reason now).bind
        k) log s := by
  unfold auditCancellation
  split
  · simp only [Prog.bind_eq, Prog.bind_assoc]
    apply lawfully_auditRequestId hOrderly
    intro requestId rest hLater
    apply lawfully_appendAuditLog hLater
    intro a rest' hAudited
    rw [List.append_assoc] at hAudited ⊢
    exact hRest [a] _ hAudited
  · have hDone := hRest [] []
    simp only [List.append_nil, Cell.addAudits] at hDone
    exact hDone hOrderly

/- The promotion that ends a request, and its answer. -/
theorem lawfully_promote
    {rid : Uuid}
    {reply : α}
    (hCell : s.Valid)
    (hOrderly : Orderly used log s) :
    Lawfully known used never
      ((promoteWaiters promotionPageSize rid).bind
        (fun _ => Prog.done reply)) log s := by
  apply Lawfully.then hOrderly
    (promoteWaiters_lawfully hCell hOrderly)
  apply promoteWaiters_rule (by decide) hCell
    hOrderly.accounted (fun _ _ _ => trivial)
  intro xs acts _ _ _ _
  trivial

theorem cancelBooking_lawfully
    (hCell : s.Consistent)
    (hRecorded : s.Recorded)
    (rid : Uuid)
    (scope : Scope)
    (bookingId : Uuid)
    (expectedVersion : ℕ)
    {reason : String}
    (hReason : reason.length ≤ 500) :
    Lawfully known s.Names never
      (cancelBooking rid scope bookingId expectedVersion
        reason) [] s := by
  unfold cancelBooking
  simp only [Prog.bind_eq]
  apply lawfully_select (.start hCell.toValid)
    (resourceKeys_row (fun key hEq => by cases hEq))
  intro hLocked
  apply lawfully_lockRows hLocked
    (fun _ _ hEq => by cases hEq)
  intro hRows
  apply lawfully_scalarOneOrNone
  · intro _
    exact .of_ne (fun c hEq => by cases hEq)
  intro b hOne
  rcases mem_of_filter_eq_singleton hOne with
    ⟨hRow, hSelects⟩
  rcases of_decide_eq_true hSelects with ⟨rfl, hKind, -⟩
  apply lawfully_ask .clock hRows
  intro now hClock
  split
  · exact .of_ne (fun c hEq => by cases hEq)
  rename_i hVersion
  have hVersion := not_not.mp hVersion
  subst hVersion
  split
  · trivial
  split
  · exact .of_ne (fun c hEq => by cases hEq)
  rename_i hActive
  have hActive : b.status.active = true := by
    simpa using hActive
  split
  · exact .of_ne (fun c hEq => by cases hEq)
  split
  · exact .of_ne (fun c hEq => by cases hEq)
  have hCheck :=
    Booking.cancel_check (hCell.bookings.checks b hRow)
      hKind hReason now
  refine lawfully_updateCurrent (f := .cancel reason now)
    hClock hRow (fun _ => rfl) (fun _ => rfl)
    (Booking.guard_cancelled hActive ⟨rfl, rfl, rfl, rfl⟩
      rfl rfl)
    (fun h => by cases h) hCheck ?_
  intro count act hCancelled
  split
  · exact .of_ne (fun c hEq => by cases hEq)
  apply lawfully_refreshBooking (b.cancel reason now)
    hCancelled
    ((hCell.mem_setBooking hRow).mpr (Or.inl rfl)) rfl
  intro act' hRead
  refine lawfully_updateEntries hRead (fun _ => rfl) ?_
    (hRead.references.setEntries (fun _ => rfl)
      (fun _ => rfl)) ?_
  · exact
      hRead.entries.transition rfl (fun h => by cases h)
  intro keys hReleased
  refine lawfully_appendEvent (b := b.cancel reason now)
    hReleased
    (hRecorded.before_next hCell.bookings.ids hRow) ?_
  intro eventId rest hRecord
  apply lawfully_auditCancellation hRecord
  intro as rest' hAudited
  have hRelease : Release rid [] s _ :=
    (cancelled_cancellation rid eventId as hCell hRow hActive
      hCheck).release hRow hKind
  exact
    lawfully_promote (hRelease.consistent hCell).toValid
      hAudited

theorem cancelBlackout_lawfully
    (hCell : s.Consistent)
    (rid : Uuid)
    (scope : Scope)
    (blackoutId : Uuid)
    (expectedVersion : ℕ) :
    Lawfully known s.Names never
      (cancelBlackout rid scope blackoutId expectedVersion)
      [] s := by
  unfold cancelBlackout
  simp only [Prog.bind_eq]
  apply lawfully_select (.start hCell.toValid)
    (resourceKeys_row (fun key hEq => by cases hEq))
  intro hLocked
  apply lawfully_lockRows hLocked
    (fun _ _ hEq => by cases hEq)
  intro hRows
  apply lawfully_scalarOneOrNone
  · intro _
    exact .of_ne (fun c hEq => by cases hEq)
  intro b hOne
  rcases mem_of_filter_eq_singleton hOne with
    ⟨hRow, hSelects⟩
  rcases of_decide_eq_true hSelects with ⟨rfl, hKind⟩
  apply lawfully_ask .clock hRows
  intro now hClock
  split
  · exact .of_ne (fun c hEq => by cases hEq)
  rename_i hVersion
  have hVersion := not_not.mp hVersion
  subst hVersion
  split
  · trivial
  split
  · exact .of_ne (fun c hEq => by cases hEq)
  rename_i hStatus
  have hStatus := not_not.mp hStatus
  split
  · exact .of_ne (fun c hEq => by cases hEq)
  let f : Booking → Booking := fun b' =>
    { b' with
      status := .cancelled
      version := b'.version + 1
      updatedAt := now }
  refine lawfully_updateCurrent (f := f)
    hClock hRow (fun _ => rfl) (fun _ => rfl)
    (Booking.guard_cancelled (by rw [hStatus]; rfl)
      ⟨rfl, rfl, rfl, rfl⟩ rfl rfl)
    (fun h => by cases h)
    (Booking.blackout_check (hCell.bookings.checks b hRow)
      hKind hStatus rfl (Nat.succ_pos _)) ?_
  intro count act hCancelled
  split
  · exact .of_ne (fun c hEq => by cases hEq)
  apply lawfully_refreshBooking (f b) hCancelled
    ((hCell.mem_setBooking hRow).mpr (Or.inl rfl)) rfl
  intro act' hRead
  apply lawfully_auditRequestId hRead
  intro requestId rest hLater
  apply lawfully_appendAuditLog hLater
  intro a rest' hAudited
  have hRelease :
      Release rid [] s
        ((s.setBookings b.current f).addAudit a) :=
    .cancelBlackout hRow hKind hStatus
  exact
    lawfully_promote (hRelease.consistent hCell).toValid
      hAudited

end PigBook

------------------------------------------------------------
-- Accepting and Declining
------------------------------------------------------------

namespace PigBook

open ReadCommitted

variable {known : Prop} {used : Uuid → Prop}
variable {log : List (Action inventory)} {s : Cell}

/- A late request expires the hold and promotes the queue. -/
theorem lateAcceptance_lawfully
    {rid : Uuid}
    {e : WaitlistEntry}
    {b : Booking}
    {now : ℤ}
    {reply : Reply}
    (hCell : s.Consistent)
    (hRecorded : s.Recorded)
    (hOrderly : Orderly used log s)
    (hHold : Hold s e b)
    (hSampled : SampledUnder log [.resourceUpdate rid] now)
    (hLate : ∀ deadline ∈ b.expiresAt, deadline ≤ now) :
    Lawfully known used never
      ((updateEntry e (.transition .expired now)).bind
        (fun _ =>
          (updateBooking b (.transition .expired now)).bind
            (fun _ =>
              (refreshBooking b).bind (fun b =>
                (appendEvent rid .holdExpired b now).bind
                  (fun _ =>
                    (promoteWaiters promotionPageSize
                      rid).bind
                      (fun _ => Prog.done reply))))))
      log s := by
  apply lawfully_updateEntry hOrderly hHold.row rfl
    (fun h => by cases h)
  intro act hExpired
  apply lawfully_closeBooking hExpired hHold.rowB
    hHold.holds.offered (Or.inr (Or.inr rfl))
  intro act' hClosed
  apply lawfully_refreshBooking (b.transition .expired now)
    hClosed
    ((hCell.mem_setBooking hHold.rowB).mpr (Or.inl rfl)) rfl
  intro act'' hRead
  refine
    lawfully_appendEvent (b := b.transition .expired now)
      hRead
      (hRecorded.before_next hCell.bookings.ids hHold.rowB)
      ?_
  intro eventId rest hRecord
  have hExpiry :
      Expiry rid log s
        (s.afterExpiry rid e b now eventId) :=
    .intro hHold hSampled hLate
  exact
    lawfully_promote (hExpiry.consistent hCell).toValid
      hRecord

theorem acceptOffer_lawfully
    (hCell : s.Consistent)
    (hRecorded : s.Recorded)
    (rid : Uuid)
    (scope : Scope)
    (entryId : Uuid)
    (expectedVersion : ℕ) :
    Lawfully known s.Names never
      (acceptOffer rid scope entryId expectedVersion) [] s := by
  unfold acceptOffer
  simp only [Prog.bind_eq]
  apply lawfully_select (.start hCell.toValid)
    (resourceKeys_row (fun key hEq => by cases hEq))
  intro hLocked
  apply lawfully_lockRows hLocked
    (fun _ _ hEq => by cases hEq)
  intro hRows
  apply lawfully_scalarOneOrNone
  · intro _
    exact .of_ne (fun c hEq => by cases hEq)
  intro e hOne
  have hRow := (mem_of_filter_eq_singleton hOne).1
  dsimp only
  split
  · exact .of_ne (fun c hEq => by cases hEq)
  split
  · exact .of_ne (fun c hEq => by cases hEq)
  rename_i hOffered
  split
  · exact .of_ne (fun c hEq => by cases hEq)
  rename_i bookingId hLink
  apply lawfully_lockRows hRows
    (fun _ _ hEq => by cases hEq)
  intro hRowsB
  apply lawfully_scalarOneOrNone
  · intro _
    exact .of_ne (fun c hEq => by cases hEq)
  intro b hOneB
  rcases mem_of_filter_eq_singleton hOneB with
    ⟨hRowB, hIdB⟩
  dsimp only
  split
  · exact .of_ne (fun c hEq => by cases hEq)
  have hHold : Hold s e b :=
    .of_rows hCell hRow (not_not.mp hOffered) hRowB
      (by rw [hLink, of_decide_eq_true hIdB])
  apply lawfully_ask .clock hRowsB
  intro now hClock
  split
  · rename_i hLate
    have hSome := hCell.resource_isSome_of_entry hRow
    apply lateAcceptance_lawfully hCell hRecorded hClock
      hHold
    · refine .last ?_
      simp [Cell.resourceKeys, hSome]
    · exact late_of_exists hLate
  · apply lawfully_closeBooking hClock hRowB
      hHold.holds.offered (Or.inl rfl)
    intro act hClosed
    apply lawfully_refreshBooking
      (b.transition .confirmed now) hClosed
      ((hCell.mem_setBooking hRowB).mpr (Or.inl rfl)) rfl
    intro act' hRead
    apply lawfully_updateEntry hRead hRow rfl
    · intro _
      rw [hLink]
      rfl
    intro act'' hAccepted
    refine
      lawfully_appendEvent
        (b := b.transition .confirmed now) hAccepted
        (hRecorded.before_next hCell.bookings.ids hRowB) ?_
    intro eventId rest _
    trivial

theorem declineEntry_lawfully
    (hCell : s.Consistent)
    (rid : Uuid)
    (scope : Scope)
    (entryId : Uuid)
    (expectedVersion : ℕ) :
    Lawfully known s.Names never
      (declineEntry rid scope entryId expectedVersion)
      [] s := by
  unfold declineEntry
  simp only [Prog.bind_eq]
  apply lawfully_select (.start hCell.toValid)
    (resourceKeys_row (fun key hEq => by cases hEq))
  intro hLocked
  apply lawfully_lockRows hLocked
    (fun _ _ hEq => by cases hEq)
  intro hRows
  apply lawfully_scalarOneOrNone
  · intro _
    exact .of_ne (fun c hEq => by cases hEq)
  intro e hOne
  have hRow := (mem_of_filter_eq_singleton hOne).1
  dsimp only
  split
  · exact .of_ne (fun c hEq => by cases hEq)
  split
  · trivial
  split
  · exact .of_ne (fun c hEq => by cases hEq)
  rename_i hActive
  apply lawfully_ask .clock hRows
  intro now hClock
  split
  · exact .of_ne (fun c hEq => by cases hEq)
  split
  · apply lawfully_updateEntry hClock hRow rfl
      (fun h => by cases h)
    intro act hLeft
    apply lawfully_refreshEntry hLeft
    intro e' act' _
    trivial
  rename_i hWaiting
  have hOffered : e.status = .offered := by
    cases hStatus : e.status <;> rw [hStatus] at hActive
    case waiting => exact absurd hStatus hWaiting
    all_goals exact absurd rfl hActive
  rcases hCell.offeredLinked e hRow hOffered with
    ⟨b, hRowB, hHolds⟩
  have hHold : Hold s e b := ⟨hRow, hOffered, hRowB, hHolds⟩
  unfold releaseOffered
  rw [hHolds.link]
  simp only [Prog.bind_eq, Prog.bind_assoc]
  apply lawfully_lockRows hClock
    (fun _ _ hEq => by cases hEq)
  intro hRowsB
  have hFound :
      s.bookings.filter (·.id = b.id) = [b] := by
    apply hCell.bookings.ids.filter_eq_singleton hRowB
    intro x _
    rw [decide_eq_true_iff]
  rw [hFound] at hRowsB ⊢
  simp only [scalarOneOrNone, Prog.bind, hHolds.offered,
    if_true]
  apply lawfully_closeBooking hRowsB hRowB hHolds.offered
    (Or.inr (Or.inl rfl))
  intro act hClosed
  apply lawfully_updateEntry hClosed hRow rfl
    (fun h => by cases h)
  intro act' hLeft
  apply lawfully_refreshEntry hLeft
  intro e' act'' hRead
  have hRelease :
      Release rid [] s
        (s.close e b (.transition .cancelled now)
          .cancelled now) :=
    .decline hHold
  exact
    lawfully_promote (hRelease.consistent hCell).toValid
      hRead

end PigBook

------------------------------------------------------------
-- Hold Expiry and Resources
------------------------------------------------------------

namespace PigBook

open ReadCommitted

variable {known : Prop} {used : Uuid → Prop} {rid : Uuid}
variable {log : List (Action inventory)} {s s' : Cell}

/- The event of an expiry is about the version it makes. -/
theorem Expiry.recorded
    (hCell : s.Valid)
    (hRecorded : s.Recorded)
    (hExpiry : Expiry rid log s s') :
    s'.Recorded := by
  cases hExpiry with
  | @intro e b now id hHold hSampled hLate =>
      intro ev hEv
      rcases List.mem_append.mp hEv with hOld | hNew
      · rcases hRecorded ev hOld with
          ⟨x, hx, hId, hVersion⟩
        rcases
          hCell.booking_after hHold.rowB
            (f := .transition .expired now) rfl hx with
          ⟨x', hx', hId', rfl | ⟨rfl, rfl⟩⟩
        · exact ⟨x', hx', hId, hVersion⟩
        · exact ⟨_, hx', hId'.trans hId,
            Nat.le_succ_of_le hVersion⟩
      · rw [List.mem_singleton.mp hNew]
        exact
          ⟨_, (hCell.mem_setBooking hHold.rowB).mpr
            (Or.inl rfl), rfl, le_refl _⟩

theorem expireHold_lawfully
    {b : Booking}
    {now : ℤ}
    (hCell : s.Consistent)
    (hRecorded : s.Recorded)
    (hOrderly : Orderly used log s)
    (hRow : b ∈ s.bookings)
    (hDue : b.due now = true) :
    Lawfully known used never (expireHold rid now b) log s := by
  rcases of_decide_eq_true hDue with ⟨hOffered, -⟩
  unfold expireHold
  simp only [Prog.bind_eq]
  apply lawfully_lockRows hOrderly
    (fun _ _ hEq => by cases hEq)
  intro hRows
  have hClose :
      ∀ log t, t.bookings = s.bookings →
        t.outbox = s.outbox → Orderly used log t →
          Lawfully known used never
            ((updateBooking b (.transition .expired now)).bind
              (fun _ =>
                (refreshBooking b).bind (fun b =>
                  (appendEvent rid .holdExpired b now).bind
                    (fun _ => Prog.done ()))))
            log t := by
    intro log t hBookings hOutbox hNow
    apply lawfully_closeBooking hNow
      (by rw [hBookings]; exact hRow) hOffered
      (Or.inr (Or.inr rfl))
    intro act hClosed
    apply lawfully_refreshBooking
      (b.transition .expired now) hClosed
    · rw [Cell.setBookings_bookings, hBookings]
      exact (hCell.mem_setBooking hRow).mpr (Or.inl rfl)
    · rfl
    intro act' hRead
    refine
      lawfully_appendEvent (b := b.transition .expired now)
        hRead ?_ ?_
    · rw [Cell.setBookings_outbox, hOutbox]
      exact
        hRecorded.before_next hCell.bookings.ids hRow
    · intro eventId rest _
      trivial
  apply lawfully_scalarOneOrNone
  · intro _
    exact hClose _ s rfl rfl hRows
  · intro e hOne
    apply lawfully_updateEntry hRows
      (mem_of_filter_eq_singleton hOne).1 rfl
      (fun h => by cases h)
    intro act hExpired
    exact hClose _ _ rfl rfl hExpired

/- The holds expire in turn, by induction on them. -/
theorem expireHolds_lawfully
    {bs : List Booking}
    {now : ℤ}
    (hCell : s.Consistent)
    (hRecorded : s.Recorded)
    (hOrderly : Orderly used log s)
    (hIds : Keyed Booking.id bs)
    (hRows : ∀ b ∈ bs, b ∈ s.bookings)
    (hDue : ∀ b ∈ bs, b.due now = true)
    (hSampled : SampledUnder log [.resourceUpdate rid] now) :
    Lawfully known used never (expireHolds rid now bs) log s := by
  induction bs generalizing log s with
  | nil => trivial
  | cons b bs ih =>
      have hRow := hRows b List.mem_cons_self
      have hDueB := hDue b List.mem_cons_self
      rcases List.pairwise_cons.mp hIds with
        ⟨hFirst, hRest⟩
      unfold expireHolds
      apply Lawfully.then hOrderly
      · exact
          expireHold_lawfully hCell hRecorded hOrderly hRow
            hDueB
      · apply expireHold_rule hCell hRow hDueB hSampled
        intro acts s' hExpiry hStays hNow
        apply ih (hExpiry.consistent hCell)
          (hExpiry.recorded hCell.toValid hRecorded) hNow
          hRest
        · intro x hx
          exact
            hStays x (hRows x (List.mem_cons_of_mem _ hx))
              (fun hId => hFirst x hx hId.symm)
        · exact fun x hx =>
            hDue x (List.mem_cons_of_mem _ hx)
        · exact hSampled.extend acts

theorem expireAndPromote_lawfully
    (hCell : s.Consistent)
    (hRecorded : s.Recorded)
    (rid : Uuid) :
    Lawfully known s.Names never (expireAndPromote rid) [] s := by
  have hStart := Orderly.start hCell.toValid
  have hKeys :
      ∀ key,
        .unique key ∉ s.resourceKeys (.resourceUpdate rid) :=
    resourceKeys_row (fun key hEq => by cases hEq)
  unfold expireAndPromote
  simp only [Prog.bind_eq]
  intro locked
  cases locked with
  | true =>
      exact
        ⟨.read hStart (fun _ => List.not_mem_nil), trivial⟩
  | false =>
      refine ⟨.read hStart hKeys, ?_⟩
      have hLocked :=
        hStart.extend
          [⟨.rowLocked rid, false,
            s.resourceKeys (.resourceUpdate rid)⟩]
      cases hResource : s.resource with
      | none =>
          simp only [Bool.false_eq_true, if_false, hResource]
          trivial
      | some resource =>
          simp only [Bool.false_eq_true, if_false, hResource]
          apply lawfully_ask .clock hLocked
          intro now hClock
          apply lawfully_lockRows hClock
            (fun _ _ hEq => by cases hEq)
          intro hRows
          have hIds :
              Keyed Booking.id
                (s.bookings.filter (Booking.due now)) :=
            List.Pairwise.filter _ hCell.bookings.ids
          have hSampled :
              SampledUnder
                ([] ++
                  [⟨.rowLocked rid, false,
                    s.resourceKeys (.resourceUpdate rid)⟩] ++
                  [⟨.clock, now, []⟩] ++
                  [⟨.plain, (),
                    (s.bookings.filter (Booking.due now)).map
                      (Key.bookingUpdate ·.id)⟩])
                [.resourceUpdate rid] now := by
            refine SampledUnder.extend (.last ?_) _
            simp [Cell.resourceKeys, hResource]
          have hAll :
              ∀ b ∈ s.bookings.filter (Booking.due now),
                b ∈ s.bookings ∧ b.due now = true :=
            fun b hb => List.mem_filter.mp hb
          apply Lawfully.then hRows
          · exact
              expireHolds_lawfully hCell hRecorded hRows hIds
                (fun b hb => (hAll b hb).1)
                (fun b hb => (hAll b hb).2) hSampled
          · apply
              expireHolds_rule hCell hIds
                (fun b hb => (hAll b hb).1)
                (fun b hb => (hAll b hb).2) hSampled
            intro acts s' hExpiries hNow
            have hExpired :=
              (Release.expire hExpiries).consistent hCell
            exact lawfully_promote hExpired.toValid hNow

/- The use check reads. -/
theorem lawfully_checkResourceNotInUse
    {α : Type}
    {now : ℤ}
    {k : Unit → Tx α}
    (hOrderly : Orderly used log s)
    (hRest :
      ∀ rest,
        Orderly used (log ++ rest) s →
          Lawfully known used never (k ()) (log ++ rest) s) :
    Lawfully known used never ((checkResourceNotInUse now).bind k)
      log s := by
  unfold checkResourceNotInUse
  simp only [Prog.bind_eq, Prog.bind_assoc]
  apply lawfully_selectRows hOrderly
  intro hRead
  apply lawfully_selectRows hRead
  intro hRead'
  split
  · exact .of_ne (fun c hEq => by cases hEq)
  · rw [List.append_assoc] at hRead' ⊢
    exact hRest _ hRead'

/- The UPDATE of the resource, and its audit record. -/
theorem patchedResource_lawfully
    {expectedVersion : ℕ}
    {f : Resource → Resource}
    {scope : Scope}
    {action : String}
    {details : AuditDetails}
    {now : ℤ}
    (hOrderly : Orderly used log s) :
    Lawfully known used never
      ((updateResourceRow rid expectedVersion f).bind
        (fun row =>
          match row with
          | none =>
              Prog.fail (.versionMismatch
                "Resource has been modified by another request")
          | some updated =>
              (auditRequestId scope).bind (fun requestId =>
                (appendAuditLog action "resource" (some rid)
                  (some scope.principalId) requestId details
                  now).bind
                  (fun _ => pure (Reply.resource updated)))))
      log s := by
  apply lawfully_updateResourceRow hOrderly
  intro row act s' hUpdated
  split
  · exact .of_ne (fun c hEq => by cases hEq)
  · apply lawfully_auditRequestId hUpdated
    intro requestId rest hLater
    apply lawfully_appendAuditLog hLater
    intro a rest' _
    trivial

theorem updateResource_lawfully
    (hCell : s.Valid)
    (rid : Uuid)
    (scope : Scope)
    (expectedVersion : ℕ)
    (patch : ResourcePatch) :
    Lawfully known s.Names never
      (updateResource rid scope expectedVersion patch)
      [] s := by
  unfold updateResource
  simp only [Prog.bind_eq]
  apply lawfully_select (.start hCell)
    (resourceKeys_row (fun key hEq => by cases hEq))
  intro hLocked
  split
  · exact .of_ne (fun c hEq => by cases hEq)
  split
  · exact .of_ne (fun c hEq => by cases hEq)
  split
  · exact .of_ne (fun c hEq => by cases hEq)
  apply lawfully_ask .clock hLocked
  intro now hClock
  split
  · apply lawfully_checkResourceNotInUse hClock
    intro rest hChecked
    exact patchedResource_lawfully hChecked
  · exact patchedResource_lawfully hClock

theorem archiveResource_lawfully
    (hCell : s.Valid)
    (rid : Uuid)
    (scope : Scope)
    (expectedVersion : ℕ) :
    Lawfully known s.Names never
      (archiveResource rid scope expectedVersion) [] s := by
  unfold archiveResource
  simp only [Prog.bind_eq]
  apply lawfully_select (.start hCell)
    (resourceKeys_row (fun key hEq => by cases hEq))
  intro hLocked
  split
  · exact .of_ne (fun c hEq => by cases hEq)
  split
  · exact .of_ne (fun c hEq => by cases hEq)
  apply lawfully_ask .clock hLocked
  intro now hClock
  apply lawfully_checkResourceNotInUse hClock
  intro rest hChecked
  exact patchedResource_lawfully hChecked

end PigBook

------------------------------------------------------------
-- All Requests
------------------------------------------------------------

namespace PigBook

open ReadCommitted

namespace Request

/- The bound that the schema of a cancellation checks. -/
def Admitted : Request → Prop
| cancelBooking _ _ _ reason => reason.length ≤ 500
| _ => True

/-
  Whoever makes the request is a registered user: each route
  reads the row of its principal first.
-/
def Registered (users : List Uuid) : Request → Prop
| createBooking scope _ _ => scope.principalId ∈ users
| createBlackout scope _ _ => scope.principalId ∈ users
| cancelBooking scope _ _ _ => scope.principalId ∈ users
| cancelBlackout scope _ _ => scope.principalId ∈ users
| joinWaitlist scope _ _ => scope.principalId ∈ users
| acceptOffer scope _ _ => scope.principalId ∈ users
| declineEntry scope _ _ => scope.principalId ∈ users
| expireAndPromote => True
| updateResource scope _ _ => scope.principalId ∈ users
| archiveResource scope _ => scope.principalId ∈ users

/- Only a creating request can meet a conflict. -/
def refusal (request : Request) : Tx Reply → Prop :=
  match request.access with
  | .exclusive => never
  | .shared => slotConflicts

/- Whatever the request, its statements are lawful. -/
theorem lawfully
    {s : Cell}
    (hCell : s.Consistent)
    (hRecorded : s.Recorded)
    (rid : Uuid)
    {request : Request}
    (hAdmitted : request.Admitted) :
    Lawfully (request.Registered s.users) s.Names
      request.refusal (request.program rid) [] s := by
  have hValid := hCell.toValid
  cases request with
  | createBooking scope startsAt endsAt =>
      exact createBooking_lawfully hValid rid scope _ _
  | createBlackout scope startsAt endsAt =>
      exact createBlackout_lawfully hValid rid scope _ _
  | cancelBooking scope bookingId expectedVersion reason =>
      exact
        cancelBooking_lawfully hCell hRecorded rid scope _ _
          hAdmitted
  | cancelBlackout scope blackoutId expectedVersion =>
      exact cancelBlackout_lawfully hCell rid scope _ _
  | joinWaitlist scope startsAt endsAt =>
      exact joinWaitlist_lawfully hValid rid scope _ _
  | acceptOffer scope entryId expectedVersion =>
      exact
        acceptOffer_lawfully hCell hRecorded rid scope _ _
  | declineEntry scope entryId expectedVersion =>
      exact declineEntry_lawfully hCell rid scope _ _
  | expireAndPromote =>
      exact expireAndPromote_lawfully hCell hRecorded rid
  | updateResource scope expectedVersion patch =>
      exact updateResource_lawfully hValid rid scope _ _
  | archiveResource scope expectedVersion =>
      exact archiveResource_lawfully hValid rid scope _

end Request

end PigBook
