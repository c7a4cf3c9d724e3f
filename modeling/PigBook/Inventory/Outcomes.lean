import PigBook.Inventory.Effects
import PigBook.Inventory.Sharing

/-
  What each transaction of the inventory does, run alone from
  a consistent cell.

  Key theorems include:
    * `acceptOffer_rule`
    * `createBooking_effect`, `createBlackout_effect`
    * `cancelBooking_effect`, `cancelBlackout_effect`
    * `joinWaitlist_effect`, `declineEntry_effect`
    * `expireAndPromote_effect`
    * `updateResource_effect`, `archiveResource_effect`
-/

------------------------------------------------------------
-- Rules with Any Error
------------------------------------------------------------

namespace PigBook

open ReadCommitted

/- An error undoes the transaction, whichever it is. -/
def anyError (_ : List (Action inventory)) (_ : Error) :
    Prop :=
  True

theorem anyError_holds
    (log : List (Action inventory))
    (err : Error) :
    anyError log err :=
  trivial

variable {log : List (Action inventory)} {s : Cell}

theorem mem_of_filter_eq_singleton
    {β : Type}
    {p : β → Bool}
    {rows : List β}
    {row : β}
    (hOne : rows.filter p = [row]) :
    row ∈ rows ∧ p row = true := by
  refine List.mem_filter.mp ?_
  rw [hOne]
  exact List.mem_singleton.mpr rfl

/- An UPDATE that succeeds has checked its rows. -/
theorem check_of_update
    {p : Booking → Bool}
    {f : Booking → Booking}
    (hNone : s.bookingsUpdateViolation p f = none)
    {b : Booking}
    (hRow : b ∈ s.bookings)
    (hCase : p b = true) :
    (f b).Check := by
  unfold Cell.bookingsUpdateViolation at hNone
  split at hNone
  · cases hNone
  · split at hNone
    · cases hNone
    · rename_i hChecks
      exact not_not.mp hChecks b hRow hCase

/- The update of a booking that the transaction has read. -/
theorem updateBooking_rule
    {b : Booking}
    {f : Booking → Booking}
    {post : List (Action inventory) → Cell → Unit → Prop}
    (hPost :
      s.bookingsUpdateViolation b.current f = none →
        ∀ keys : List Key,
          post (log ++ [⟨.plain, (), keys⟩])
            (s.setBookings b.current f) ()) :
    (updateBooking b f).wp post anyError log s := by
  unfold updateBooking
  simp only [Prog.bind_eq, Prog.wp_bind]
  refine wp_updateBookings ?_ (fun _ _ _ => trivial)
  intro hNone
  split
  · exact trivial
  · exact hPost hNone _

theorem updateEntry_rule
    {e : WaitlistEntry}
    {f : WaitlistEntry → WaitlistEntry}
    {post : List (Action inventory) → Cell → Unit → Prop}
    (hPost :
      ∀ keys : List Key,
        post (log ++ [⟨.plain, (), keys⟩])
          (s.setEntries e.current f) ()) :
    (updateEntry e f).wp post anyError log s := by
  unfold updateEntry
  simp only [Prog.bind_eq, Prog.wp_bind]
  refine wp_updateEntries ?_ (fun _ _ _ => trivial)
  intro _
  split
  · exact trivial
  · exact hPost _

/- A refreshed object shows its row. -/
theorem refreshBooking_rule
    {b b' : Booking}
    {post : List (Action inventory) → Cell → Booking → Prop}
    {err : List (Action inventory) → Error → Prop}
    (hIds : Keyed Booking.id s.bookings)
    (hRow : b' ∈ s.bookings)
    (hId : b'.id = b.id)
    (hPost : post (log ++ [⟨.plain, (), []⟩]) s b') :
    (refreshBooking b).wp post err log s := by
  unfold refreshBooking
  simp only [Prog.bind_eq, Prog.wp_bind, wp_selectRows]
  have hOne :
      s.bookings.filter (fun x => x.id = b.id) = [b'] := by
    refine hIds.filter_eq_singleton hRow ?_
    intro x _
    rw [decide_eq_true_iff, hId]
  rw [hOne]
  exact hPost

/- The row that the transaction has just updated. -/
theorem refreshUpdated_rule
    {s t : Cell}
    (hCell : s.Valid)
    {b : Booking}
    (hRow : b ∈ s.bookings)
    {f : Booking → Booking}
    (hId : ∀ x, (f x).id = x.id)
    (hBookings :
      t.bookings = updateWhere b.current f s.bookings)
    {post : List (Action inventory) → Cell → Booking → Prop}
    {err : List (Action inventory) → Error → Prop}
    (hPost : post (log ++ [⟨.plain, (), []⟩]) t (f b)) :
    (refreshBooking b).wp post err log t := by
  have hIds : Keyed Booking.id t.bookings := by
    rw [hBookings]
    exact hCell.bookings.ids.updateWhere (fun x _ _ => hId x)
  have hRow' : f b ∈ t.bookings := by
    rw [hBookings]
    exact (hCell.mem_setBooking hRow).mpr (Or.inl rfl)
  exact refreshBooking_rule hIds hRow' (hId b) hPost

/- A refresh reads. -/
theorem refreshEntry_rule
    {e : WaitlistEntry}
    {post :
      List (Action inventory) → Cell → WaitlistEntry → Prop}
    (hPost : ∀ log e', post log s e') :
    (refreshEntry e).wp post anyError log s := by
  unfold refreshEntry
  simp only [Prog.bind_eq, Prog.wp_bind, wp_selectRows]
  split
  · exact hPost _ _
  · trivial

/- A change is followed by the promotion of the queue. -/
theorem promoteWaiters_promoted
    {rid : Uuid}
    {s₀ : Cell}
    (change : Cell → Cell → Prop)
    {post :
      List (Action inventory) → Cell → List Uuid → Prop}
    (hCell : s.Valid)
    (hChange : change s₀ s)
    (hPost :
      ∀ acts s' promoted,
        Promoted rid (log ++ acts) change s₀ s' →
          post (log ++ acts) s' promoted) :
    (promoteWaiters promotionPageSize rid).wp post anyError
      log s := by
  have hAccounted : s.Accounted (fun _ => True) log :=
    fun _ _ => Or.inl trivial
  refine
    promoteWaiters_rule (by decide) hCell hAccounted
      (fun _ _ _ => trivial) ?_
  intro xs acts hLength hAsked hVisits
  refine hPost acts _ _ (.intro hChange hLength hVisits ?_)
  rw [asked_append, hAsked]
  exact List.suffix_append _ _

/- The change may tell more, the longer the log gets. -/
theorem promoteWaiters_changed
    {rid : Uuid}
    (s₀ : Cell)
    (change :
      List (Action inventory) → Cell → Cell → Prop)
    {post :
      List (Action inventory) → Cell → List Uuid → Prop}
    (hCell : s.Valid)
    (hChange : ∀ acts, change (log ++ acts) s₀ s)
    (hPost :
      ∀ acts s' promoted,
        Promoted rid (log ++ acts) (change (log ++ acts)) s₀
            s' →
          post (log ++ acts) s' promoted) :
    (promoteWaiters promotionPageSize rid).wp post anyError
      log s := by
  refine
    promoteWaiters_promoted
      (fun s t => ∀ acts, change (log ++ acts) s t)
      hCell hChange ?_
  intro acts s' promoted hPromoted
  exact
    hPost acts s' promoted
      (hPromoted.mono (fun _ h => h acts))

end PigBook

------------------------------------------------------------
-- Accepting an Offer
------------------------------------------------------------

namespace PigBook

open ReadCommitted

/- The effect and the answer of an accepted request. -/
inductive Answered
    (rid : Uuid)
    (log : List (Action inventory))
    (s : Cell)
    (e : WaitlistEntry)
    (b : Booking)
    (now : ℤ)
    (s' : Cell) : Reply → Prop
  | expired
      {eventId : Uuid}
      (hLate : ∃ deadline ∈ b.expiresAt, deadline ≤ now)
      (hPromoted :
        Promoted rid log
          (fun s t => t = s.afterExpiry rid e b now eventId)
          s s') :
      Answered rid log s e b now s'
        (.stored (conflict "HOLD_EXPIRED"
          "The offer for this booking has expired"))
  | confirmed
      {eventId : Uuid}
      (hEarly : ∀ deadline ∈ b.expiresAt, now < deadline)
      (hCell : s' = s.afterAcceptance rid e b now eventId) :
      Answered rid log s e b now s'
        (.stored {
          status := 200
          body :=
            .booking ((b.transition .confirmed now).schema
              rid)
          headers :=
            [("ETag",
              etag (b.transition .confirmed now).version)]
        })

/-
  The offer that a committed request to accept has found,
  with the clock that it sampled under its three locks.
-/
structure Acceptance
    (rid : Uuid)
    (scope : Scope)
    (entryId : Uuid)
    (expectedVersion : ℕ)
    (log : List (Action inventory))
    (s : Cell)
    (e : WaitlistEntry)
    (b : Booking)
    (now : ℤ) : Prop where
  hold : Hold s e b
  selects : scope.selectsEntry entryId e = true
  version : e.version = expectedVersion
  sampled :
    SampledUnder log
      [.resourceUpdate rid, .entryUpdate e.id,
        .bookingUpdate b.id] now

/- A deadline that is reached is the only one. -/
theorem late_of_exists
    {deadline? : Option ℤ}
    {now : ℤ}
    (hLate : ∃ deadline ∈ deadline?, deadline ≤ now) :
    ∀ deadline ∈ deadline?, deadline ≤ now := by
  rcases hLate with ⟨deadline, hSome, hReached⟩
  intro deadline' hSome'
  rw [Option.mem_unique hSome' hSome]
  exact hReached

theorem early_of_not_exists
    {deadline? : Option ℤ}
    {now : ℤ}
    (hEarly : ¬ ∃ deadline ∈ deadline?, deadline ≤ now) :
    ∀ deadline ∈ deadline?, now < deadline := by
  intro deadline hSome
  by_contra hReached
  exact hEarly ⟨deadline, hSome, not_lt.mp hReached⟩

/- The rows of a hold in a cell with its pair of rows. -/
theorem Hold.of_rows
    {s : Cell}
    (hCell : s.Consistent)
    {e : WaitlistEntry}
    {b : Booking}
    (hRow : e ∈ s.entries)
    (hStatus : e.status = .offered)
    (hRowB : b ∈ s.bookings)
    (hLink : e.offeredBookingId = some b.id) :
    Hold s e b := by
  rcases hCell.offeredLinked e hRow hStatus with
    ⟨b', hRowB', hHolds⟩
  have hId : b'.id = b.id :=
    Option.some.inj (hHolds.link.symm.trans hLink)
  rw [hCell.bookings.ids.eq_of_key hRowB' hRowB hId]
    at hHolds
  exact ⟨hRow, hStatus, hRowB, hHolds⟩

theorem acceptOffer_rule
    {s : Cell}
    (hCell : s.Consistent)
    (rid : Uuid)
    (scope : Scope)
    (entryId : Uuid)
    (expectedVersion : ℕ) :
    (acceptOffer rid scope entryId expectedVersion).wp
      (fun log s' reply =>
        ∃ e b now,
          Acceptance rid scope entryId expectedVersion log s
            e b now ∧
          Answered rid log s e b now s' reply)
      anyError [] s := by
  unfold acceptOffer
  simp only [Prog.bind_eq, Prog.wp_bind,
    wp_selectResourceForUpdate, wp_selectEntriesForUpdate]
  refine
    wp_scalarOneOrNone anyError_holds (fun _ => trivial) ?_
  intro e hOne
  rcases mem_of_filter_eq_singleton hOne with
    ⟨hRow, hSelects⟩
  rw [hOne]
  dsimp only
  split
  · trivial
  rename_i hVersion
  split
  · trivial
  rename_i hOffered
  split
  · trivial
  rename_i bookingId hLink
  simp only [Prog.wp_bind, wp_selectBookingsForUpdate]
  refine
    wp_scalarOneOrNone anyError_holds (fun _ => trivial) ?_
  intro b hOneB
  rcases mem_of_filter_eq_singleton hOneB with
    ⟨hRowB, hIdB⟩
  rw [hOneB]
  dsimp only
  split
  · trivial
  rename_i hOfferedB
  simp only [Prog.wp_bind, wp_clockTimestamp]
  intro now
  have hHold : Hold s e b :=
    .of_rows hCell hRow (not_not.mp hOffered) hRowB
      (by rw [hLink, of_decide_eq_true hIdB])
  have hSome := hCell.resource_isSome_of_entry hRow
  have hSampled :
      SampledUnder
        ([] ++
          [⟨.plain, (),
            s.resourceKeys (.resourceUpdate rid)⟩] ++
          [⟨.plain, (), [e].map (Key.entryUpdate ·.id)⟩] ++
          [⟨.plain, (), [b].map (Key.bookingUpdate ·.id)⟩] ++
          [⟨.clock, now, []⟩])
        [.resourceUpdate rid, .entryUpdate e.id,
          .bookingUpdate b.id] now := by
    refine .last ?_
    simp [Cell.resourceKeys, hSome]
  have hAcceptance :
      ∀ rest,
        Acceptance rid scope entryId expectedVersion
          ([] ++
            [⟨.plain, (),
              s.resourceKeys (.resourceUpdate rid)⟩] ++
            [⟨.plain, (), [e].map (Key.entryUpdate ·.id)⟩] ++
            [⟨.plain, (),
              [b].map (Key.bookingUpdate ·.id)⟩] ++
            [⟨.clock, now, []⟩] ++ rest)
          s e b now :=
    fun rest =>
      ⟨hHold, hSelects, not_not.mp hVersion,
        hSampled.extend rest⟩
  generalize
    ([] ++
      [⟨.plain, (),
        s.resourceKeys (.resourceUpdate rid)⟩] ++
      [⟨.plain, (), [e].map (Key.entryUpdate ·.id)⟩] ++
      [⟨.plain, (), [b].map (Key.bookingUpdate ·.id)⟩] ++
      [⟨.clock, now, []⟩] : List (Action inventory)) = log
    at hAcceptance ⊢
  split
  · rename_i hLate
    simp only [Prog.wp_bind]
    refine updateEntry_rule (fun _ => ?_)
    refine updateBooking_rule (fun _ _ => ?_)
    refine refreshUpdated_rule
      (f := .transition .expired now) hCell.toValid hRowB
      (fun _ => rfl) rfl ?_
    refine wp_appendEvent ?_ (fun _ _ _ => trivial)
    intro eventId _
    have hExpiry :
        Expiry rid _ s
          (s.afterExpiry rid e b now eventId) :=
      .intro hHold
        ((hAcceptance []).sampled.mono (by simp))
        (late_of_exists hLate)
    have hExpired := hExpiry.consistent hCell
    refine
      promoteWaiters_promoted
        (fun s t =>
          t = s.afterExpiry rid e b now eventId)
        hExpired.toValid rfl ?_
    intro acts s' promoted hPromoted
    simp only [List.append_assoc] at hPromoted ⊢
    exact ⟨e, b, now, hAcceptance _,
      .expired hLate hPromoted⟩
  · rename_i hEarly
    simp only [Prog.wp_bind]
    refine updateBooking_rule (fun _ _ => ?_)
    refine refreshUpdated_rule
      (f := .transition .confirmed now) hCell.toValid hRowB
      (fun _ => rfl) rfl ?_
    refine updateEntry_rule (fun _ => ?_)
    refine wp_appendEvent ?_ (fun _ _ _ => trivial)
    intro eventId _
    simp only [Prog.pure_eq_done, Prog.wp_done,
      List.append_assoc]
    exact ⟨e, b, now, hAcceptance _,
      .confirmed (early_of_not_exists hEarly) rfl⟩

end PigBook

namespace PigBook

open ReadCommitted

variable {rid : Uuid} {log : List (Action inventory)}
variable {s : Cell}

/- Accepting confirms the hold, or expires it too late. -/
theorem acceptOffer_effect
    (hCell : s.Consistent)
    (rid : Uuid)
    (scope : Scope)
    (entryId : Uuid)
    (expectedVersion : ℕ) :
    (acceptOffer rid scope entryId expectedVersion).wp
      (fun log s' _ =>
        Effect rid log s
          (.acceptOffer scope entryId expectedVersion) s')
      anyError [] s := by
  refine Prog.wp_mono _ ?_ (fun _ _ h => h)
    (acceptOffer_rule hCell rid scope entryId
      expectedVersion)
  rintro log s' reply ⟨e, b, now, hAcceptance, hAnswered⟩
  have hVersion := hAcceptance.version
  rcases of_decide_eq_true hAcceptance.selects with ⟨rfl, -⟩
  subst hVersion
  cases hAnswered with
  | @expired eventId hLate hPromoted =>
      exact .tooLate hAcceptance.hold hAcceptance.sampled
        (late_of_exists hLate) hPromoted
  | confirmed hEarly hCell =>
      rw [hCell]
      exact .accepted hAcceptance.hold hAcceptance.sampled
        hEarly

end PigBook

------------------------------------------------------------
-- Creating Bookings and Blackouts
------------------------------------------------------------

namespace PigBook

open ReadCommitted

variable {rid : Uuid} {log : List (Action inventory)}
variable {s : Cell}

/- The keys of an INSERT that succeeds. -/
theorem insertBookingKeys_of_none
    {b : Booking}
    (hNew : s.bookingViolation b = none) :
    s.insertBookingKeys rid b = b.keys rid :=
  if_pos
    (bookingRowViolation_eq_none_iff.mpr
      (bookingViolation_eq_none_iff.mp hNew).1)

/- The INSERT happens, or the cell is as before. -/
theorem insertConfirmed_rule
    {principalId : Uuid}
    {r : TimeRange}
    {kind : Kind}
    {post :
      List (Action inventory) → Cell → Except Error Booking →
        Prop}
    (hError : ∀ log e, post log s (.error e))
    (hOk :
      ∀ log resource b, s.resource = some resource →
        resource.active = true →
        s.bookingViolation b = none →
        b.kind = kind → b.status = .confirmed →
        b.version = 1 → b.keys rid ⊆ held log →
          post log (s.addBooking b) (.ok b)) :
    (insertConfirmed rid principalId r kind).wp post anyError
      log s := by
  unfold insertConfirmed
  simp only [Prog.bind_eq, Prog.wp_bind,
    wp_selectResourceForShare]
  split
  · exact hError _ _
  rename_i resource hResource
  split
  · exact hError _ _
  rename_i hActive
  simp only [Prog.wp_bind, wp_uuid4, wp_transactionTime]
  intro bookingId createdAt
  refine wp_insertBooking ?_ ?_
  · intro hNew
    refine
      hOk _ resource _ hResource (by simpa using hActive)
        hNew rfl rfl rfl ?_
    rw [insertBookingKeys_of_none hNew, held_append,
      held_singleton]
    exact List.subset_append_right _ _
  · intro c _
    cases c
    case bookingsNoOverlap => exact hError _ _
    all_goals trivial

theorem createBooking_effect
    (rid : Uuid)
    (scope : Scope)
    (startsAt endsAt : Datetime) :
    (createBooking rid scope startsAt endsAt).wp
      (fun log s' _ =>
        Effect rid log s
            (.createBooking scope startsAt endsAt) s' ∧
          Cell.Grows rid (held log) s s')
      anyError [] s := by
  unfold createBooking
  simp only [Prog.bind_eq, Prog.wp_bind, wp_clockTimestamp]
  intro dbNow
  split
  · trivial
  rw [Prog.wp_bind]
  refine insertConfirmed_rule ?_ ?_
  · intro log err
    cases err
    case slotConflict => exact ⟨.notBooked, .refl⟩
    case resourceInactive => exact ⟨.notBooked, .refl⟩
    all_goals trivial
  · intro log resource b hResource hActive hNew hKind hStatus
      hVersion hKeys
    simp only [Prog.wp_bind]
    refine wp_appendEvent ?_ (fun _ _ _ => trivial)
    intro eventId _
    refine ⟨.booked hResource hActive hNew hKind
      hStatus hVersion, rfl, rfl, .append ?_, .append ?_,
      .refl⟩
    · simp only [held_append]
      intro k hk
      simp [hKeys hk]
    · simp only [held_append, held_singleton]
      exact List.subset_append_right _ _

theorem auditRequestId_rule
    {scope : Scope}
    {post : List (Action inventory) → Cell → Uuid → Prop}
    (hPost : ∀ acts requestId, post (log ++ acts) s requestId) :
    (auditRequestId scope).wp post anyError log s := by
  unfold auditRequestId
  split
  · have hDone := hPost [] ‹Uuid›
    rw [List.append_nil] at hDone
    exact hDone
  · rw [wp_uuid4]
    intro id
    exact hPost _ id

theorem createBlackout_effect
    (rid : Uuid)
    (scope : Scope)
    (startsAt endsAt : Datetime) :
    (createBlackout rid scope startsAt endsAt).wp
      (fun log s' _ =>
        Effect rid log s
            (.createBlackout scope startsAt endsAt) s' ∧
          Cell.Grows rid (held log) s s')
      anyError [] s := by
  unfold createBlackout insertBlackout
  simp only [Prog.bind_eq, Prog.wp_bind, wp_clockTimestamp,
    wp_selectResourceForShare]
  intro _
  split
  · trivial
  rename_i resource hResource
  split
  · exact ⟨.notBlocked, .refl⟩
  rename_i hActive
  simp only [Prog.wp_bind, wp_clockTimestamp]
  intro dbNow
  split
  · rename_i err _
    cases err
    case slotConflict => exact ⟨.notBlocked, .refl⟩
    case resourceInactive => exact ⟨.notBlocked, .refl⟩
    all_goals trivial
  simp only [Prog.wp_bind, wp_uuid4]
  intro bookingId
  refine wp_insertBooking ?_ ?_
  · intro hNew
    simp only [Prog.wp_bind]
    refine auditRequestId_rule (fun _ _ => ?_)
    refine wp_appendAuditLog anyError_holds
      (fun auditId acts _ hAudit => ?_)
    refine ⟨.blocked hResource
      (by simpa using hActive) hNew rfl rfl rfl, rfl, rfl,
      .append ?_, .refl, .append ?_⟩
    · rw [insertBookingKeys_of_none hNew]
      intro k hk
      simp [hk]
    · intro k hk
      rw [List.mem_singleton.mp hk, held_append]
      exact List.mem_append_right _ hAudit
  · intro c _
    cases c
    case bookingsNoOverlap => exact ⟨.notBlocked, .refl⟩
    all_goals trivial

end PigBook

------------------------------------------------------------
-- Cancelling Bookings and Blackouts
------------------------------------------------------------

namespace PigBook

open ReadCommitted

variable {rid : Uuid} {log : List (Action inventory)}
variable {s : Cell}

theorem auditCancellation_rule
    {scope : Scope}
    {bookingId : Uuid}
    {reason : String}
    {now : ℤ}
    {post : List (Action inventory) → Cell → Unit → Prop}
    (hPost :
      ∀ acts as, post (log ++ acts) (s.addAudits as) ()) :
    (auditCancellation rid scope bookingId reason now).wp
      post anyError log s := by
  unfold auditCancellation
  split
  · simp only [Prog.bind_eq, Prog.wp_bind]
    refine auditRequestId_rule (fun acts _ => ?_)
    refine wp_appendAuditLog anyError_holds
      (fun auditId acts' _ _ => ?_)
    rw [List.append_assoc]
    exact hPost _ [_]
  · have hDone := hPost [] []
    rw [List.append_nil] at hDone
    simpa [Cell.addAudits] using hDone

/- The entry of an offered booking is the one with its id. -/
theorem Cell.Consistent.selects_entry
    (hCell : s.Consistent)
    {e : WaitlistEntry}
    {b : Booking}
    (hHold : Hold s e b) :
    ∀ x ∈ s.entries,
      decide (x.offeredBookingId = some b.id ∧
        x.status = .offered) = e.current x := by
  intro x hx
  have hIff :=
    WaitlistEntry.current_iff hCell.entries.ids hHold.row x
      hx
  by_cases hId : x.id = e.id
  · rw [hIff.mpr hId,
      hCell.entries.ids.eq_of_key hx hHold.row hId]
    exact decide_eq_true ⟨hHold.holds.link, hHold.status⟩
  · have hNot : ¬ e.current x = true :=
      fun h => hId (hIff.mp h)
    rw [Bool.not_eq_true] at hNot
    rw [hNot]
    refine decide_eq_false ?_
    rintro ⟨hLink, -⟩
    exact hId (congrArg WaitlistEntry.id
      (hCell.eq_of_link hx hHold.row hLink
        hHold.holds.link))

/- The hold of an offered booking. -/
theorem Cell.Consistent.hold_of_booking
    (hCell : s.Consistent)
    {b : Booking}
    (hRow : b ∈ s.bookings)
    (hOffered : b.status = .offered) :
    ∃ e, Hold s e b := by
  rcases hCell.holdLinked b hRow hOffered with
    ⟨e, hRowE, hStatus, hHolds⟩
  exact ⟨e, hRowE, hStatus, hRow, hHolds⟩

/- No entry is offered a booking that is not on offer. -/
theorem Cell.Consistent.selects_none
    (hCell : s.Consistent)
    {b : Booking}
    (hRow : b ∈ s.bookings)
    (hStatus : b.status ≠ .offered) :
    ∀ x ∈ s.entries,
      decide (x.offeredBookingId = some b.id ∧
        x.status = .offered) = false := by
  intro x hx
  refine decide_eq_false ?_
  rintro ⟨hLink, hOffered⟩
  have hHold := Hold.of_rows hCell hx hOffered hRow hLink
  exact hStatus hHold.holds.offered

/-
  The statements that cancel a booking by its id and version
  end its hold, if it has one, and append the event.
-/
theorem cancelled_cancellation
    (rid : Uuid)
    (eventId : Uuid)
    (as : List AuditRecord)
    (hCell : s.Consistent)
    {b : Booking}
    {reason : String}
    {now : ℤ}
    (hRow : b ∈ s.bookings)
    (hActive : b.status.active = true)
    (hCheck : (b.cancel reason now).Check) :
    Cancellation rid b reason s
      ((((s.setBookings b.current
          (.cancel reason now)).setEntries
        (fun e => e.offeredBookingId = some b.id ∧
          e.status = .offered)
        (.transition .cancelled now)).addEvent
          (eventOf rid .bookingCancelled
            (b.cancel reason now) now eventId)).addAudits
              as) := by
  by_cases hOffered : b.status = .offered
  · rcases hCell.hold_of_booking hRow hOffered with
      ⟨e, hHold⟩
    have hSame :
        updateWhere
          (fun x : WaitlistEntry =>
            decide (x.offeredBookingId = some b.id ∧
              x.status = .offered))
          (.transition .cancelled now) s.entries =
        updateWhere e.current (.transition .cancelled now)
          s.entries :=
      updateWhere_congr (hCell.selects_entry hHold)
    unfold Cell.setEntries
    rw [Cell.setBookings_entries, hSame]
    exact .hold hHold hCheck
  · have hConfirmed : b.status = .confirmed := by
      cases hStatus : b.status <;> rw [hStatus] at hActive
      case offered => exact absurd hStatus hOffered
      all_goals cases hActive
    have hSame :
        updateWhere
          (fun x : WaitlistEntry =>
            decide (x.offeredBookingId = some b.id ∧
              x.status = .offered))
          (.transition .cancelled now) s.entries =
        s.entries := by
      refine updateWhere_eq_self ?_
      intro x hx
      exact hCell.selects_none hRow hOffered x hx
    unfold Cell.setEntries
    rw [Cell.setBookings_entries, hSame]
    exact .confirmed hConfirmed hCheck

theorem cancelBooking_effect
    (hCell : s.Consistent)
    (rid : Uuid)
    (scope : Scope)
    (bookingId : Uuid)
    (expectedVersion : ℕ)
    (reason : String) :
    (cancelBooking rid scope bookingId expectedVersion
      reason).wp
      (fun log s' _ =>
        Effect rid log s
          (.cancelBooking scope bookingId expectedVersion
            reason) s')
      anyError [] s := by
  unfold cancelBooking
  simp only [Prog.bind_eq, Prog.wp_bind,
    wp_selectResourceForUpdate, wp_selectBookingsForUpdate]
  refine
    wp_scalarOneOrNone anyError_holds (fun _ => trivial) ?_
  intro b hOne
  rcases mem_of_filter_eq_singleton hOne with
    ⟨hRow, hSelects⟩
  rcases of_decide_eq_true hSelects with ⟨rfl, hKind, -⟩
  simp only [Prog.wp_bind, wp_clockTimestamp]
  intro now
  split
  · trivial
  rename_i hVersion
  have hVersion := not_not.mp hVersion
  subst hVersion
  split
  · exact .alreadyCancelled
  split
  · trivial
  rename_i hActive
  split
  · trivial
  split
  · trivial
  simp only [Prog.wp_bind]
  refine wp_updateBookings ?_ (fun _ _ _ => trivial)
  intro hNone
  split
  · trivial
  simp only [Prog.wp_bind]
  refine refreshUpdated_rule (f := .cancel reason now)
    hCell.toValid hRow (fun _ => rfl) rfl ?_
  refine wp_updateEntries ?_ (fun _ _ _ => trivial)
  intro _
  refine wp_appendEvent ?_ (fun _ _ _ => trivial)
  intro eventId _
  refine auditCancellation_rule (fun acts as => ?_)
  have hCheck : (b.cancel reason now).Check :=
    check_of_update hNone hRow (decide_eq_true ⟨rfl, rfl⟩)
  have hCancellation :=
    cancelled_cancellation rid eventId as hCell hRow
      (by simpa using hActive) hCheck
  have hRelease : Release rid [] s _ :=
    hCancellation.release hRow hKind
  refine
    promoteWaiters_promoted (Cancellation rid b reason)
      (hRelease.consistent hCell).toValid hCancellation ?_
  intro acts' s' promoted hPromoted
  exact .cancelled hRow hKind hPromoted

theorem cancelBlackout_effect
    (hCell : s.Consistent)
    (rid : Uuid)
    (scope : Scope)
    (blackoutId : Uuid)
    (expectedVersion : ℕ) :
    (cancelBlackout rid scope blackoutId expectedVersion).wp
      (fun log s' _ =>
        Effect rid log s
          (.cancelBlackout scope blackoutId expectedVersion)
          s')
      anyError [] s := by
  unfold cancelBlackout
  simp only [Prog.bind_eq, Prog.wp_bind,
    wp_selectResourceForUpdate, wp_selectBookingsForUpdate]
  refine
    wp_scalarOneOrNone anyError_holds (fun _ => trivial) ?_
  intro b hOne
  rcases mem_of_filter_eq_singleton hOne with
    ⟨hRow, hSelects⟩
  rcases of_decide_eq_true hSelects with ⟨rfl, hKind⟩
  simp only [Prog.wp_bind, wp_clockTimestamp]
  intro now
  split
  · trivial
  rename_i hVersion
  have hVersion := not_not.mp hVersion
  subst hVersion
  split
  · exact .alreadyUnblocked
  split
  · trivial
  rename_i hStatus
  split
  · trivial
  simp only [Prog.wp_bind]
  refine wp_updateBookings ?_ (fun _ _ _ => trivial)
  intro _
  split
  · trivial
  simp only [Prog.wp_bind]
  refine refreshUpdated_rule
    (f := fun b' =>
      { b' with
        status := .cancelled
        version := b'.version + 1
        updatedAt := now })
    hCell.toValid hRow (fun _ => rfl) rfl ?_
  refine auditRequestId_rule (fun acts requestId => ?_)
  refine wp_appendAuditLog anyError_holds
    (fun auditId acts' _ _ => ?_)
  have hRelease : ∀ t, BlackoutEnd b s t → Release rid [] s t := by
    rintro t ⟨now, a, rfl⟩
    exact .cancelBlackout hRow hKind (not_not.mp hStatus)
  refine
    promoteWaiters_promoted (BlackoutEnd b)
      ((hRelease _ ⟨now, _, rfl⟩).consistent hCell).toValid
      ⟨now, _, rfl⟩ ?_
  intro acts'' s' promoted hPromoted
  exact
    .unblocked hRow hKind (not_not.mp hStatus) hPromoted

end PigBook

------------------------------------------------------------
-- The Waitlist
------------------------------------------------------------

namespace PigBook

open ReadCommitted

variable {rid : Uuid} {log : List (Action inventory)}
variable {s : Cell}

theorem joinWaitlist_effect
    (rid : Uuid)
    (scope : Scope)
    (startsAt endsAt : Datetime) :
    (joinWaitlist rid scope startsAt endsAt).wp
      (fun log s' _ =>
        Effect rid log s
          (.joinWaitlist scope startsAt endsAt) s')
      anyError [] s := by
  unfold joinWaitlist
  simp only [Prog.bind_eq, Prog.wp_bind, wp_clockTimestamp]
  intro dbNow
  split
  · trivial
  simp only [Prog.wp_bind, wp_selectResourceForUpdate]
  split
  · trivial
  rename_i resource hResource
  split
  · trivial
  rename_i hActive
  simp only [Prog.wp_bind, wp_selectRows]
  split
  · trivial
  rename_i hOverlapping
  split
  · trivial
  simp only [Prog.wp_bind, wp_selectRows]
  refine
    wp_scalarOneOrNone anyError_holds ?_ (fun _ _ => trivial)
  intro _
  simp only [Option.isSome_none, Bool.false_eq_true, if_false,
    Prog.wp_bind, wp_selectRows]
  split
  · trivial
  rename_i hRoom
  simp only [Prog.wp_bind, wp_uuid4, wp_transactionTime]
  intro entryId createdAt
  refine wp_insertEntry ?_ ?_
  · intro hNew a
    simp only [Prog.wp_bind]
    refine refreshEntry_rule (fun _ _ => ?_)
    refine .joined hResource (by simpa using hActive) hNew
      rfl rfl rfl ?_ (not_le.mp hRoom)
    rcases List.exists_mem_of_ne_nil _ hOverlapping with
      ⟨b, hRow⟩
    rcases List.mem_filter.mp hRow with ⟨hRowB, hOccupies⟩
    exact ⟨b, hRowB, of_decide_eq_true hOccupies⟩
  · intro c _ a
    cases c <;> trivial

theorem declineEntry_effect
    (hCell : s.Consistent)
    (rid : Uuid)
    (scope : Scope)
    (entryId : Uuid)
    (expectedVersion : ℕ) :
    (declineEntry rid scope entryId expectedVersion).wp
      (fun log s' _ =>
        Effect rid log s
          (.declineEntry scope entryId expectedVersion) s')
      anyError [] s := by
  unfold declineEntry
  simp only [Prog.bind_eq, Prog.wp_bind,
    wp_selectResourceForUpdate, wp_selectEntriesForUpdate]
  refine
    wp_scalarOneOrNone anyError_holds (fun _ => trivial) ?_
  intro e hOne
  rcases mem_of_filter_eq_singleton hOne with ⟨hRow, hSelects⟩
  rcases of_decide_eq_true hSelects with ⟨rfl, -⟩
  dsimp only
  split
  · trivial
  rename_i hVersion
  have hVersion := not_not.mp hVersion
  subst hVersion
  split
  · exact .alreadyWithdrawn
  split
  · trivial
  rename_i hActive
  simp only [Prog.wp_bind, wp_clockTimestamp]
  intro now
  split
  · trivial
  split
  · rename_i hWaiting
    simp only [Prog.wp_bind]
    refine updateEntry_rule (fun _ => ?_)
    refine refreshEntry_rule (fun _ _ => ?_)
    exact .withdrawn hRow hWaiting
  rename_i hWaiting
  have hOffered : e.status = .offered := by
    cases hStatus : e.status <;> rw [hStatus] at hActive
    case waiting => exact absurd hStatus hWaiting
    all_goals exact absurd rfl hActive
  rcases hCell.offeredLinked e hRow hOffered with
    ⟨b, hRowB, hHolds⟩
  have hHold : Hold s e b := ⟨hRow, hOffered, hRowB, hHolds⟩
  unfold releaseOffered
  rw [hHolds.link]
  simp only [Prog.bind_eq, Prog.wp_bind,
    wp_selectBookingsForUpdate]
  have hFound :
      s.bookings.filter (·.id = b.id) = [b] := by
    refine hCell.bookings.ids.filter_eq_singleton hRowB ?_
    intro x _
    rw [decide_eq_true_iff]
  rw [hFound]
  simp only [scalarOneOrNone, Prog.wp_done, hHolds.offered,
    if_true]
  refine updateBooking_rule (fun _ _ => ?_)
  refine updateEntry_rule (fun _ => ?_)
  refine refreshEntry_rule (fun _ _ => ?_)
  have hRelease :
      Release rid [] s
        (s.close e b (.transition .cancelled now)
          .cancelled now) :=
    .decline hHold
  refine
    promoteWaiters_promoted (Withdrawal e b)
      (hRelease.consistent hCell).toValid ⟨now, rfl⟩ ?_
  intro acts s' promoted hPromoted
  exact .declined hHold hPromoted

end PigBook

------------------------------------------------------------
-- Hold Expiry
------------------------------------------------------------

namespace PigBook

open ReadCommitted

variable {rid : Uuid} {log : List (Action inventory)}
variable {s : Cell}

/- The expiry of one hold; other bookings stay. -/
theorem expireHold_rule
    {now : ℤ}
    {b : Booking}
    {post : List (Action inventory) → Cell → Unit → Prop}
    (hCell : s.Consistent)
    (hRow : b ∈ s.bookings)
    (hDue : b.due now = true)
    (hSampled : SampledUnder log [.resourceUpdate rid] now)
    (hPost :
      ∀ acts s', Expiry rid log s s' →
        (∀ x ∈ s.bookings, x.id ≠ b.id → x ∈ s'.bookings) →
          post (log ++ acts) s' ()) :
    (expireHold rid now b).wp post anyError log s := by
  rcases of_decide_eq_true hDue with ⟨hOffered, hLate⟩
  rcases hCell.hold_of_booking hRow hOffered with ⟨e, hHold⟩
  have hFound :
      s.entries.filter (·.offeredBookingId = some b.id) =
        [e] := by
    refine
      hCell.entries.ids.filter_eq_singleton hHold.row ?_
    intro x hx
    rw [decide_eq_true_iff]
    constructor
    · intro hLink
      exact congrArg WaitlistEntry.id
        (hCell.eq_of_link hx hHold.row hLink
          hHold.holds.link)
    · intro hId
      rw [hCell.entries.ids.eq_of_key hx hHold.row hId]
      exact hHold.holds.link
  unfold expireHold
  simp only [Prog.bind_eq, Prog.wp_bind,
    wp_selectEntriesForUpdate, hFound, scalarOneOrNone,
    Prog.wp_done]
  refine updateEntry_rule (fun _ => ?_)
  refine updateBooking_rule (fun _ _ => ?_)
  refine refreshUpdated_rule (f := .transition .expired now)
    hCell.toValid hRow (fun _ => rfl) rfl ?_
  refine wp_appendEvent ?_ (fun _ _ _ => trivial)
  intro eventId _
  simp only [Prog.pure_eq_done, Prog.wp_done,
    List.append_assoc]
  refine hPost _ _ (.intro hHold hSampled
    (late_of_exists hLate)) ?_
  intro x hx hOther
  exact (hCell.mem_setBooking hRow).mpr (Or.inr ⟨hx, hOther⟩)

/- The overdue holds expire one after the other. -/
theorem expireHolds_rule
    {now : ℤ}
    {bs : List Booking}
    {post : List (Action inventory) → Cell → Unit → Prop}
    (hCell : s.Consistent)
    (hIds : Keyed Booking.id bs)
    (hRows : ∀ b ∈ bs, b ∈ s.bookings)
    (hDue : ∀ b ∈ bs, b.due now = true)
    (hSampled : SampledUnder log [.resourceUpdate rid] now)
    (hPost :
      ∀ acts s',
        Relation.ReflTransGen (Expiry rid (log ++ acts)) s
          s' →
          post (log ++ acts) s' ()) :
    (expireHolds rid now bs).wp post anyError log s := by
  induction bs generalizing log s with
  | nil =>
      have hDone := hPost [] s .refl
      rw [List.append_nil] at hDone
      exact hDone
  | cons b bs ih =>
      unfold expireHolds
      rw [Prog.bind_eq, Prog.wp_bind]
      rcases List.pairwise_cons.mp hIds with
        ⟨hFirst, hRest⟩
      refine
        expireHold_rule hCell (hRows b List.mem_cons_self)
          (hDue b List.mem_cons_self) hSampled ?_
      intro acts s' hExpiry hStays
      refine
        ih (hExpiry.consistent hCell) hRest ?_
          (fun x hx => hDue x (List.mem_cons_of_mem _ hx))
          (hSampled.extend acts) ?_
      · intro x hx
        exact
          hStays x (hRows x (List.mem_cons_of_mem _ hx))
            (fun hId => hFirst x hx hId.symm)
      · intro acts' s'' hLater
        rw [List.append_assoc] at hLater ⊢
        exact
          hPost _ _
            (.head (hExpiry.extend (acts ++ acts')) hLater)

theorem expireAndPromote_effect
    (hCell : s.Consistent)
    (rid : Uuid) :
    (expireAndPromote rid).wp
      (fun log s' _ => Effect rid log s .expireAndPromote s')
      anyError [] s := by
  unfold expireAndPromote
  simp only [Prog.bind_eq, Prog.wp_bind,
    wp_selectResourceSkipLocked]
  refine ⟨.skipped, ?_⟩
  split
  · exact .skipped
  rename_i resource hResource
  simp only [Prog.wp_bind, wp_clockTimestamp,
    wp_selectBookingsForUpdate]
  intro now
  have hSampled :
      SampledUnder
        ([] ++
          [⟨.rowLocked rid, false,
            s.resourceKeys (.resourceUpdate rid)⟩] ++
          [⟨.clock, now, []⟩])
        [.resourceUpdate rid] now := by
    refine .last ?_
    simp [Cell.resourceKeys, hResource]
  refine
    expireHolds_rule hCell
      (List.Pairwise.filter _ hCell.bookings.ids)
      (fun b hb => (List.mem_filter.mp hb).1)
      (fun b hb => (List.mem_filter.mp hb).2)
      (hSampled.extend _) ?_
  intro acts s' hExpiries
  have hExpired := (Release.expire hExpiries).consistent hCell
  refine
    promoteWaiters_changed s
      (fun log => Relation.ReflTransGen (Expiry rid log))
      hExpired.toValid (fun acts' => ?_) ?_
  · exact
      Relation.ReflTransGen.mono
        (fun _ _ h => Expiry.extend h acts') _ _ hExpiries
  · intro acts' s'' promoted hPromoted
    exact .expired hPromoted

end PigBook

------------------------------------------------------------
-- Resources
------------------------------------------------------------

namespace PigBook

open ReadCommitted

variable {rid : Uuid} {log : List (Action inventory)}
variable {s : Cell}

theorem checkResourceNotInUse_rule
    {now : ℤ}
    {post : List (Action inventory) → Cell → Unit → Prop}
    (hPost :
      ∀ acts,
        (∀ b ∈ s.bookings, b.status.active = true →
          b.timeRange.upper ≤ now) →
        (∀ e ∈ s.entries, e.status ≠ .waiting) →
          post (log ++ acts) s ()) :
    (checkResourceNotInUse now).wp post anyError log s := by
  unfold checkResourceNotInUse
  simp only [Prog.bind_eq, Prog.wp_bind, wp_selectRows]
  split
  · trivial
  rename_i hUnused
  rcases not_or.mp hUnused with ⟨hBookings, hEntries⟩
  have hNone := List.eq_nil_of_length_eq_zero
    (Nat.eq_zero_of_not_pos hBookings)
  have hNoneWaits := List.eq_nil_of_length_eq_zero
    (Nat.eq_zero_of_not_pos hEntries)
  rw [List.append_assoc]
  refine hPost _ ?_ ?_
  · intro b hRow hActive
    have hNot := List.filter_eq_nil_iff.mp hNone b hRow
    simp only [hActive, decide_eq_true_eq, true_and,
      not_lt] at hNot
    exact hNot
  · intro e hRow hWaiting
    have hNot := List.filter_eq_nil_iff.mp hNoneWaits e hRow
    exact hNot (decide_eq_true hWaiting)

theorem updateResourceRow_rule
    {resource : Resource}
    {f : Resource → Resource}
    {post :
      List (Action inventory) → Cell → Option Resource →
        Prop}
    (hResource : s.resource = some resource)
    (hPost :
      ∀ acts,
        post (log ++ acts) (s.setResource (f resource))
          (some (f resource))) :
    (updateResourceRow rid resource.version f).wp post
      anyError log s := by
  unfold updateResourceRow
  intro a
  simp only [hResource, if_true]
  split
  · exact hPost _
  · trivial

/- The UPDATE of the resource with its audit record. -/
theorem patchedResource_rule
    {resource : Resource}
    {f : Resource → Resource}
    {scope : Scope}
    {action : String}
    {details : AuditDetails}
    {now : ℤ}
    {post : List (Action inventory) → Cell → Reply → Prop}
    (hResource : s.resource = some resource)
    (hPost :
      ∀ acts a reply,
        post (log ++ acts)
          ((s.setResource (f resource)).addAudit a) reply) :
    ((updateResourceRow rid resource.version f).bind
      (fun row =>
        match row with
        | none =>
            Prog.fail (.versionMismatch
              "Resource has been modified by another request")
        | some updated =>
            (auditRequestId scope).bind (fun requestId =>
              (appendAuditLog action "resource" (some rid)
                (some scope.principalId) requestId details
                now).bind
                (fun _ => pure (Reply.resource updated))))
      ).wp post anyError log s := by
  rw [Prog.wp_bind]
  refine updateResourceRow_rule hResource (fun acts => ?_)
  simp only [Prog.wp_bind]
  refine auditRequestId_rule (fun acts' _ => ?_)
  refine wp_appendAuditLog anyError_holds
    (fun auditId acts'' _ _ => ?_)
  rw [List.append_assoc, List.append_assoc]
  exact hPost _ _ _

/- A sample right after the lock on the resource row. -/
theorem sampled_of_resource
    (rid : Uuid)
    {resource : Resource}
    (hResource : s.resource = some resource)
    (now : ℤ) :
    SampledUnder
      ([] ++
        [⟨.plain, (),
          s.resourceKeys (.resourceUpdate rid)⟩] ++
        [⟨.clock, now, []⟩])
      [.resourceUpdate rid] now := by
  refine .last ?_
  simp [Cell.resourceKeys, hResource]

theorem updateResource_effect
    (rid : Uuid)
    (scope : Scope)
    (expectedVersion : ℕ)
    (patch : ResourcePatch) :
    (updateResource rid scope expectedVersion patch).wp
      (fun log s' _ =>
        Effect rid log s
          (.updateResource scope expectedVersion patch) s')
      anyError [] s := by
  unfold updateResource
  simp only [Prog.bind_eq, Prog.wp_bind,
    wp_selectResourceForUpdate]
  split
  · trivial
  rename_i resource hResource
  split
  · trivial
  rename_i hVersion
  have hVersion := not_not.mp hVersion
  subst hVersion
  split
  · trivial
  simp only [Prog.wp_bind, wp_clockTimestamp]
  intro now
  have hSampled := sampled_of_resource rid hResource
  split
  · rw [Prog.wp_bind]
    refine
      checkResourceNotInUse_rule
        (fun acts hBookings hEntries => ?_)
    refine patchedResource_rule hResource
      (fun acts' a reply => ?_)
    rw [List.append_assoc]
    exact
      .patched hResource ((hSampled now).extend _)
        (fun _ _ => ⟨hBookings, hEntries⟩)
  · rename_i hStays
    refine patchedResource_rule hResource
      (fun acts' a reply => ?_)
    exact
      .patched hResource ((hSampled now).extend _)
        (fun hPatch hActive =>
          absurd ⟨hPatch, hActive⟩ hStays)

theorem archiveResource_effect
    (rid : Uuid)
    (scope : Scope)
    (expectedVersion : ℕ) :
    (archiveResource rid scope expectedVersion).wp
      (fun log s' _ =>
        Effect rid log s
          (.archiveResource scope expectedVersion) s')
      anyError [] s := by
  unfold archiveResource
  simp only [Prog.bind_eq, Prog.wp_bind,
    wp_selectResourceForUpdate]
  split
  · trivial
  rename_i resource hResource
  split
  · trivial
  rename_i hVersion
  have hVersion := not_not.mp hVersion
  subst hVersion
  simp only [Prog.wp_bind, wp_clockTimestamp]
  intro now
  have hSampled := sampled_of_resource rid hResource
  refine
    checkResourceNotInUse_rule
      (fun acts hBookings hEntries => ?_)
  rw [← Prog.wp_bind]
  refine patchedResource_rule hResource
    (fun acts' a reply => ?_)
  rw [List.append_assoc]
  exact
    .archived hResource ((hSampled now).extend _)
      ⟨hBookings, hEntries⟩

end PigBook
