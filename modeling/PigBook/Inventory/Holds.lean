import PigBook.Inventory.Safety

/-
  How holds end, in every committed state and for every
  request to accept an offer.

  Key definitions include:
    * `EndsOffer`, `OfferedBy`
    * `AcceptRefused`

  Key theorems include:
    * `acceptOffer_refused`
    * `hold_outcomes`
-/

------------------------------------------------------------
-- The Outcomes of Holds
------------------------------------------------------------

namespace PigBook

open ReadCommitted

/- The booking is on offer in the cell. -/
def Cell.Offers (s : Cell) (id : Uuid) : Prop :=
  ∃ b ∈ s.bookings, b.id = id ∧ b.status = .offered

/- The booking is in the cell, and not on offer. -/
def Cell.Settles (s : Cell) (id : Uuid) : Prop :=
  ∃ b ∈ s.bookings, b.id = id ∧ b.status ≠ .offered

/- The commit moves the booking out of its offer. -/
def EndsOffer
    (rid id : Uuid)
    (c : InventoryCommit) : Prop :=
  (c.before rid).Offers id ∧ ¬ (c.after rid).Offers id

/- The commit inserts the booking, sampling the clock. -/
def OfferedBy
    (rid : Uuid)
    (b : Booking)
    (now : ℤ)
    (c : InventoryCommit) : Prop :=
  (∀ b' ∈ (c.before rid).bookings, b'.id ≠ b.id) ∧
    b ∈ (c.after rid).bookings ∧
    [⟨.clock, now⟩, ⟨.uuid, b.id⟩] <:+: asked c.log

/- A booking that is no longer on offer stays so. -/
theorem Booking.Fate.not_offered
    {rid : Uuid}
    {log : List (Action inventory)}
    {b b' : Booking}
    (hFate : b.Fate rid log b')
    (hStatus : b.status ≠ .offered) :
    b'.status ≠ .offered := by
  cases hFate with
  | stays => exact hStatus
  | confirmed hOffered => exact absurd hOffered hStatus
  | expired hOffered => exact absurd hOffered hStatus
  | cancelled hWas hIs =>
      rw [hIs]
      decide

/- An offered booking has been offered as it is. -/
theorem Booking.Fate.eq_of_offered
    {rid : Uuid}
    {log : List (Action inventory)}
    {b b' : Booking}
    (hFate : b.Fate rid log b')
    (hStatus : b'.status = .offered) :
    b' = b := by
  cases hFate with
  | stays => rfl
  | confirmed => cases hStatus
  | expired => cases hStatus
  | cancelled hWas hIs =>
      rw [hIs] at hStatus
      cases hStatus

namespace Effective

variable {c : InventoryCommit} {rid id : Uuid}

theorem settles
    (hEffective : Effective c)
    (hBefore : (c.before rid).Settles id) :
    (c.after rid).Settles id := by
  rcases hBefore with ⟨b, hRow, hId, hStatus⟩
  rcases
    (hEffective.outcome rid).fate (hEffective.consistent rid)
      hRow with
    ⟨b', hRow', hId', hFate⟩
  exact ⟨b', hRow', hId'.trans hId,
    hFate.not_offered hStatus⟩

/- An offer that ends leaves its booking behind. -/
theorem settles_of_ends
    (hEffective : Effective c)
    (hEnds : EndsOffer rid id c) :
    (c.after rid).Settles id := by
  rcases hEnds with ⟨⟨b, hRow, hId, -⟩, hGone⟩
  rcases
    (hEffective.outcome rid).fate (hEffective.consistent rid)
      hRow with
    ⟨b', hRow', hId', -⟩
  exact ⟨b', hRow', hId'.trans hId,
    fun hOffered =>
      hGone ⟨b', hRow', hId'.trans hId, hOffered⟩⟩

theorem not_ends_of_settles
    (hEffective : Effective c)
    (hBefore : (c.before rid).Settles id) :
    ¬ EndsOffer rid id c := by
  rintro ⟨⟨b, hRow, hId, hOffered⟩, -⟩
  rcases hBefore with ⟨b', hRow', hId', hStatus⟩
  refine hStatus ?_
  rw [(hEffective.consistent rid).bookings.ids.eq_of_key hRow'
    hRow (hId'.trans hId.symm)]
  exact hOffered

/- An offered booking was there, or is offered just now. -/
theorem offered
    (hEffective : Effective c)
    {b : Booking}
    (hRow : b ∈ (c.after rid).bookings)
    (hOffered : b.status = .offered) :
    b ∈ (c.before rid).bookings ∨
      ∃ now deadline, OfferedBy rid b now c ∧
        b.expiresAt = some deadline ∧
        deadline ≤ now + minutes 15 := by
  have hCell := hEffective.consistent rid
  have hOutcome := hEffective.outcome rid
  by_cases hOld :
      ∃ x ∈ (c.before rid).bookings, x.id = b.id
  · rcases hOld with ⟨x, hx, hId⟩
    rcases hOutcome.fate hCell hx with
      ⟨b', hRow', hId', hFate⟩
    have hSame : b' = b :=
      (hOutcome.consistent hCell).bookings.ids.eq_of_key hRow'
        hRow (hId'.trans hId)
    subst hSame
    rw [hFate.eq_of_offered hOffered]
    exact Or.inl hx
  · have hNew :
        ∀ x ∈ (c.before rid).bookings, x.id ≠ b.id :=
      fun x hx hId => hOld ⟨x, hx, hId⟩
    rcases hOutcome.origin hCell hRow with
      ⟨x, hx, hId⟩ | hOrigin
    · exact absurd hId (hNew x hx)
    · cases hOrigin with
      | confirmed hStatus hFree =>
          rw [hStatus] at hOffered
          cases hOffered
      | @offered e x hBooking hAsked =>
          refine Or.inr ⟨x.offerNow,
            if e.timeRange.lower < x.offerNow + minutes 15
              then e.timeRange.lower
              else x.offerNow + minutes 15,
            ⟨hNew, hRow, ?_⟩, ?_, ?_⟩
          · rw [hBooking]
            exact hAsked
          · rw [hBooking]
            rfl
          · split
            · exact le_of_lt ‹_›
            · exact le_refl _

end Effective

end PigBook

------------------------------------------------------------
-- Requests to Accept
------------------------------------------------------------

namespace PigBook

open ReadCommitted

/- Why a request to accept an offer ends without an answer. -/
inductive AcceptRefused
    (scope : Scope)
    (entryId : Uuid)
    (expectedVersion : ℕ)
    (log : List (Action inventory))
    (s : Cell) : Error → Prop
  | unknown
      (hNone :
        ∀ e ∈ s.entries, scope.selectsEntry entryId e = false) :
      AcceptRefused scope entryId expectedVersion log s
        (.notFound "Waitlist entry not found")
  | modified
      {e : WaitlistEntry}
      (hRow : e ∈ s.entries)
      (hSelects : scope.selectsEntry entryId e = true)
      (hVersion : e.version ≠ expectedVersion) :
      AcceptRefused scope entryId expectedVersion log s
        (.versionMismatch
          "Waitlist entry has been modified by another request")
  | settled
      {e : WaitlistEntry}
      (hRow : e ∈ s.entries)
      (hSelects : scope.selectsEntry entryId e = true)
      (hStatus : e.status ≠ .offered) :
      AcceptRefused scope entryId expectedVersion log s
        (.invalidState
          ("Waitlist entry in status '" ++ e.status.str ++
            "' cannot be accepted"))
  | clash
      {c : Constraint}
      (hClash : Clash s.Names log) :
      AcceptRefused scope entryId expectedVersion log s
        (.integrityError c)

/- The entry that a request selects is the only one. -/
theorem Cell.Consistent.selects_one
    {s : Cell}
    (hCell : s.Consistent)
    {scope : Scope}
    {entryId : Uuid}
    {e : WaitlistEntry}
    (hRow : e ∈ s.entries)
    (hSelects : scope.selectsEntry entryId e = true) :
    s.entries.filter (scope.selectsEntry entryId) = [e] := by
  refine hCell.entries.ids.filter_eq_singleton hRow ?_
  intro x hx
  constructor
  · intro hCase
    exact
      (of_decide_eq_true hCase).1.trans
        (of_decide_eq_true hSelects).1.symm
  · intro hId
    rw [hCell.entries.ids.eq_of_key hx hRow hId]
    exact hSelects

/- An offer that is there is refused by a clash only. -/
theorem AcceptRefused.clash_of_hold
    {scope : Scope}
    {entryId : Uuid}
    {expectedVersion : ℕ}
    {log : List (Action inventory)}
    {s : Cell}
    {e : WaitlistEntry}
    {b : Booking}
    {err : Error}
    (hRefused :
      AcceptRefused scope entryId expectedVersion log s err)
    (hCell : s.Consistent)
    (hHold : Hold s e b)
    (hSelects : scope.selectsEntry entryId e = true)
    (hVersion : e.version = expectedVersion) :
    Clash s.Names log ∧ ∃ c, err = .integrityError c := by
  have hOnly :
      ∀ x ∈ s.entries, scope.selectsEntry entryId x = true →
        x = e := by
    intro x hx hCase
    have hMem :
        x ∈ s.entries.filter (scope.selectsEntry entryId) :=
      List.mem_filter.mpr ⟨hx, hCase⟩
    rw [hCell.selects_one hHold.row hSelects] at hMem
    exact List.mem_singleton.mp hMem
  cases hRefused with
  | unknown hNone =>
      rw [hNone e hHold.row] at hSelects
      cases hSelects
  | modified hRow hCase hDiffers =>
      rw [hOnly _ hRow hCase] at hDiffers
      exact absurd hVersion hDiffers
  | settled hRow hCase hStatus =>
      rw [hOnly _ hRow hCase] at hStatus
      exact absurd hHold.status hStatus
  | clash hClash => exact ⟨hClash, _, rfl⟩

variable {log : List (Action inventory)} {s : Cell}
variable {err : List (Action inventory) → Error → Prop}

/- The update of a row that is there and stays lawful. -/
theorem wp_updateEntry_row
    {e : WaitlistEntry}
    {f : WaitlistEntry → WaitlistEntry}
    {post : List (Action inventory) → Cell → Unit → Prop}
    (hIds : Keyed WaitlistEntry.id s.entries)
    (hRow : e ∈ s.entries)
    (hOk : EntriesOk (updateWhere e.current f s.entries))
    (hRefer : (s.setEntries e.current f).References)
    (hPost :
      ∀ act : Action inventory,
        post (log ++ [act]) (s.setEntries e.current f) ()) :
    (updateEntry e f).wp post err log s := by
  have hOne : (s.entries.filter e.current).length = 1 := by
    rw [hIds.filter_eq_singleton hRow
      (WaitlistEntry.current_iff hIds hRow)]
    rfl
  unfold updateEntry
  simp only [Prog.bind_eq, Prog.wp_bind]
  refine wp_updateEntries ?_ ?_
  · intro _
    rw [hOne]
    exact hPost _
  · intro c _ hSome
    rw [entriesUpdateViolation_eq_none hOk hRefer] at hSome
    cases hSome

theorem wp_closeBooking
    {b : Booking}
    {status : BookingStatus}
    {now : ℤ}
    {post : List (Action inventory) → Cell → Unit → Prop}
    (hOk : BookingsOk s.bookings)
    (hRow : b ∈ s.bookings)
    (hOffered : b.status = .offered)
    (hStatus :
      status = .confirmed ∨ status = .cancelled ∨
        status = .expired)
    (hPost :
      ∀ act : Action inventory,
        post (log ++ [act])
          (s.setBookings b.current (.transition status now))
          ()) :
    (updateBooking b (.transition status now)).wp post err log
      s := by
  have hCloses : status ≠ .offered := by
    rcases hStatus with rfl | rfl | rfl <;> decide
  have hOnly : ∀ x ∈ s.bookings, b.current x = true → x = b := by
    intro x hx hCase
    exact
      hOk.ids.eq_of_key hx hRow
        ((Booking.current_iff hOk.ids hRow x hx).mp hCase)
  have hNone :
      s.bookingsUpdateViolation b.current
        (.transition status now) = none := by
    apply bookingsUpdateViolation_eq_none
    · intro x hx hCase
      rw [hOnly x hx hCase]
      exact b.guard_transition hOffered hStatus now
    · refine
        hOk.update (f := .transition status now)
          (fun _ => rfl) (fun _ => rfl) ?_ ?_
      · intro x hx hCase _
        rw [hOnly x hx hCase, hOffered]
        rfl
      · intro x hx hCase
        rw [hOnly x hx hCase]
        exact
          Booking.transition_check (hOk.checks b hRow) hOffered
            hCloses now
  have hOne : (s.bookings.filter b.current).length = 1 := by
    rw [hOk.ids.filter_eq_singleton hRow
      (Booking.current_iff hOk.ids hRow)]
    rfl
  unfold updateBooking
  simp only [Prog.bind_eq, Prog.wp_bind]
  refine wp_updateBookings ?_ ?_
  · intro _
    rw [hOne]
    exact hPost _
  · intro c _ hSome
    rw [hNone] at hSome
    cases hSome

/- Only a repeated identifier keeps an event out. -/
theorem wp_appendEvent_new
    {used : Uuid → Prop}
    {rid : Uuid}
    {eventType : EventType}
    {b : Booking}
    {now : ℤ}
    {post : List (Action inventory) → Cell → Uuid → Prop}
    (hAccounted : s.Accounted used log)
    (hNew :
      ∀ ev ∈ s.outbox, ev.aggregateId = b.id →
        ev.aggregateVersion < b.version)
    (hErr :
      ∀ log c, Clash used log → err log (.integrityError c))
    (hPost :
      ∀ eventId rest, eventId ∈ drawn (asked rest) →
        post (log ++ rest)
          (s.addEvent (eventOf rid eventType b now eventId))
          eventId) :
    (appendEvent rid eventType b now).wp post err log s := by
  refine wp_appendEvent ?_ ?_
  · intro eventId _
    rw [List.append_assoc]
    exact hPost eventId _ (by simp)
  · intro eventId c hSome
    unfold Cell.eventViolation at hSome
    split at hSome
    · rename_i hUses
      rw [List.append_assoc]
      exact
        hErr _ c
          (hAccounted.clash (Or.inr hUses)
            (by simp [eventOf]))
    · split at hSome
      · rename_i hAggregate
        rcases hAggregate with ⟨ev, hRow, hId, hVersion, -⟩
        have hLess := hNew ev hRow hId
        rw [hVersion] at hLess
        exact absurd hLess (lt_irrefl _)
      · cases hSome

end PigBook

namespace PigBook

open ReadCommitted

variable {s : Cell}

/- A transition puts no further identifier into use. -/
theorem Cell.accounted_transition
    {t : Cell}
    (b : Booking)
    (status : BookingStatus)
    (now : ℤ)
    (log : List (Action inventory))
    (hBookings :
      t.bookings =
        updateWhere b.current (.transition status now)
          s.bookings)
    (hOutbox : t.outbox = s.outbox) :
    t.Accounted s.Names log := by
  rintro id (⟨x, hRow, rfl⟩ | hEvent)
  · rw [hBookings] at hRow
    rcases mem_updateWhere.mp hRow with
      ⟨x', hRow', -, rfl⟩ | ⟨hOld, -⟩
    · exact Or.inl (Or.inl ⟨x', hRow', rfl⟩)
    · exact Or.inl (Or.inl ⟨x, hOld, rfl⟩)
  · rw [hOutbox] at hEvent
    exact Or.inl (Or.inr (Or.inr (Or.inl hEvent)))

/- A request to accept is refused for these reasons only. -/
theorem acceptOffer_refused
    (hCell : s.Consistent)
    (hRecorded : s.Recorded)
    (rid : Uuid)
    (scope : Scope)
    (entryId : Uuid)
    (expectedVersion : ℕ) :
    (acceptOffer rid scope entryId expectedVersion).wp
      (fun _ _ _ => True)
      (fun log err =>
        AcceptRefused scope entryId expectedVersion log s err)
      [] s := by
  have hErr :
      ∀ log c, Clash s.Names log →
        AcceptRefused scope entryId expectedVersion log s
          (.integrityError c) :=
    fun _ _ hClash => .clash hClash
  unfold acceptOffer
  simp only [Prog.bind_eq, Prog.wp_bind,
    wp_selectResourceForUpdate, wp_selectEntriesForUpdate]
  by_cases hSelected :
    ∃ e ∈ s.entries, scope.selectsEntry entryId e = true
  case neg =>
    have hNone :
        ∀ e ∈ s.entries,
          scope.selectsEntry entryId e = false := by
      intro e hRow
      rw [← Bool.not_eq_true]
      exact fun hCase => hSelected ⟨e, hRow, hCase⟩
    have hEmpty :
        s.entries.filter (scope.selectsEntry entryId) = [] := by
      apply List.filter_eq_nil_iff.mpr
      intro e hRow hCase
      rw [hNone e hRow] at hCase
      cases hCase
    rw [hEmpty]
    exact .unknown hNone
  rcases hSelected with ⟨e, hRow, hSelects⟩
  rw [hCell.selects_one hRow hSelects]
  simp only [scalarOneOrNone, Prog.wp_done]
  split
  · rename_i hVersion
    exact .modified hRow hSelects hVersion
  split
  · rename_i hStatus
    exact .settled hRow hSelects hStatus
  rename_i hOffered
  rcases hCell.offeredLinked e hRow (not_not.mp hOffered) with
    ⟨b, hRowB, hHolds⟩
  have hHold : Hold s e b :=
    ⟨hRow, not_not.mp hOffered, hRowB, hHolds⟩
  have hOneB :
      s.bookings.filter (fun x => decide (x.id = b.id)) =
        [b] := by
    refine hCell.bookings.ids.filter_eq_singleton hRowB ?_
    intro x _
    rw [decide_eq_true_iff]
  rw [hHolds.link]
  simp only [Prog.wp_bind, wp_selectBookingsForUpdate]
  rw [hOneB]
  simp only [Prog.wp_done]
  rw [if_neg (not_not.mpr hHolds.offered)]
  simp only [Prog.wp_bind, wp_clockTimestamp]
  intro now
  have hSome := hCell.resource_isSome_of_entry hRow
  have hSampled :
      SampledUnder
        ([] ++
          [⟨.plain, (),
            s.resourceKeys (.resourceUpdate rid)⟩] ++
          [⟨.plain, (), [e].map (Key.entryUpdate ·.id)⟩] ++
          [⟨.plain, (), [b].map (Key.bookingUpdate ·.id)⟩] ++
          [⟨.clock, now, []⟩])
        [.resourceUpdate rid] now := by
    refine .last ?_
    simp [Cell.resourceKeys, hSome]
  generalize
    ([] ++
      [⟨.plain, (),
        s.resourceKeys (.resourceUpdate rid)⟩] ++
      [⟨.plain, (), [e].map (Key.entryUpdate ·.id)⟩] ++
      [⟨.plain, (), [b].map (Key.bookingUpdate ·.id)⟩] ++
      [⟨.clock, now, []⟩] : List (Action inventory)) = log
    at hSampled ⊢
  have hNext :
      ∀ ev ∈ s.outbox, ev.aggregateId = b.id →
        ev.aggregateVersion < b.version + 1 :=
    hRecorded.before_next hCell.bookings.ids hRowB
  split
  · rename_i hLate
    simp only [Prog.wp_bind]
    refine
      wp_updateEntry_row hCell.entries.ids hRow
        (hCell.entries.transition rfl (fun h => by cases h))
        (hCell.references.setEntries (fun _ => rfl)
          (fun _ => rfl))
        (fun _ => ?_)
    refine
      wp_closeBooking hCell.bookings hRowB hHolds.offered
        (Or.inr (Or.inr rfl)) (fun _ => ?_)
    refine refreshUpdated_rule
      (f := .transition .expired now) hCell.toValid hRowB
      (fun _ => rfl) rfl ?_
    refine
      wp_appendEvent_new
        (s.accounted_transition b .expired now _ rfl rfl)
        hNext hErr ?_
    intro eventId rest hDrawn
    have hExpiry :
        Expiry rid log s
          (s.afterExpiry rid e b now eventId) :=
      .intro hHold hSampled (late_of_exists hLate)
    refine
      promoteWaiters_rule (by decide)
        (hExpiry.consistent hCell).toValid ?_ hErr
        (fun _ _ _ _ _ => trivial)
    refine
      Cell.Accounted.extend
        (s.accounted_transition
          (t :=
            (s.setEntries e.current
              (.transition .expired now)).setBookings
                b.current (.transition .expired now))
          b .expired now _ rfl rfl) ?_
    rintro id (hBooking | ⟨ev, hEv, rfl⟩)
    · exact Or.inl (Or.inl hBooking)
    · rcases List.mem_append.mp hEv with hOld | hNew
      · exact Or.inl (Or.inr ⟨ev, hOld, rfl⟩)
      · rw [List.mem_singleton.mp hNew]
        exact Or.inr hDrawn
  · simp only [Prog.wp_bind]
    refine
      wp_closeBooking hCell.bookings hRowB hHolds.offered
        (Or.inl rfl) (fun _ => ?_)
    refine refreshUpdated_rule
      (f := .transition .confirmed now) hCell.toValid hRowB
      (fun _ => rfl) rfl ?_
    have hClosed :
        (s.setBookings b.current
          (.transition .confirmed now)).References :=
      hCell.references.setBookings (fun _ => rfl)
        (fun _ _ _ => ⟨rfl, rfl⟩)
    have hRefer :
        ((s.setBookings b.current
            (.transition .confirmed now)).setEntries e.current
          (.transition .accepted now)).References :=
      hClosed.setEntries (fun _ => rfl) (fun _ => rfl)
    refine
      wp_updateEntry_row hCell.entries.ids hRow
        (hCell.entries.transition rfl ?_) hRefer
        (fun _ => ?_)
    · intro _ x hx hCase
      rw [hCell.entries.ids.eq_of_key hx hRow
        ((WaitlistEntry.current_iff hCell.entries.ids hRow x
          hx).mp hCase), hHolds.link]
      rfl
    exact
      wp_appendEvent_new
        (s.accounted_transition b .confirmed now _ rfl rfl)
        hNext hErr (fun _ _ _ => trivial)

end PigBook

------------------------------------------------------------
-- The Outcomes in Every Run
------------------------------------------------------------

namespace PigBook

open ReadCommitted

/- What a committed request to accept has found and done. -/
theorem CommitOf.accepts
    {c : InventoryCommit}
    {rid : Uuid}
    {scope : Scope}
    {entryId : Uuid}
    {expectedVersion : ℕ}
    (hCommit :
      CommitOf c rid
        (.acceptOffer scope entryId expectedVersion))
    (hCell : (c.before rid).Consistent) :
    ∃ e b now reply,
      Acceptance rid scope entryId expectedVersion c.log
        (c.before rid) e b now ∧
      c.answer = some reply ∧
      Answered rid c.log (c.before rid) e b now
        (c.after rid) reply := by
  rcases hCommit.runs with
    ⟨w, reply, run, hAfter, hAnswer⟩
  rcases
    run.post_of_done
      (acceptOffer_rule hCell rid scope entryId
        expectedVersion) with
    ⟨e, b, now, hAcceptance, hAnswered⟩
  rw [hAfter]
  exact ⟨e, b, now, reply, hAcceptance, hAnswer, hAnswered⟩

/- What a request to accept has found when it ends. -/
theorem InventoryRun.accepting
    {X : Circumstances}
    {resources : Uuid → Option Resource}
    {env : Surroundings}
    {s : Sys X.world (Uuid → Cell) Reply}
    (hRun : InventoryRun X resources env s)
    {pid : ℕ}
    {pr : Proc inventory (Uuid → Cell) Reply}
    (hProc : s.procs pid = some pr)
    {rid : Uuid}
    {scope : Scope}
    {entryId : Uuid}
    {expectedVersion : ℕ}
    (hStart :
      pr.start =
        (acceptOffer rid scope entryId expectedVersion).atCell
          rid) :
    (∀ reply, pr.prog = .done reply →
      ∃ e b now,
        Acceptance rid scope entryId expectedVersion pr.log
          (s.db rid) e b now ∧
        Answered rid pr.log (s.db rid) e b now
          (pr.view s.db rid) reply) ∧
    ∀ err, pr.prog = .fail err →
      AcceptRefused scope entryId expectedVersion pr.log
        (s.db rid) err ∧
      ∀ e b, Hold (s.db rid) e b →
        scope.selectsEntry entryId e = true →
        e.version = expectedVersion →
          Clash (s.db rid).Names pr.log := by
  have hCell := hRun.consistent rid
  have hRequest :
      pr.start =
        ((Request.acceptOffer scope entryId
          expectedVersion).program rid).atCell rid := hStart
  rcases hRun.running hProc hRequest with ⟨p', w, hRunning⟩
  have hAnswered :=
    hRunning.serial.wp_sound
      (acceptOffer_rule hCell rid scope entryId
        expectedVersion)
  have hRefused :=
    hRunning.serial.wp_sound
      (acceptOffer_refused hCell (hRun.recorded rid) rid scope
        entryId expectedVersion)
  have hView : pr.view s.db rid = w (s.db rid) := by
    simp [Proc.view, hRunning.writes]
  have hProg := hRunning.prog
  constructor
  · intro reply hDone
    rw [hDone] at hProg
    cases p' with
    | done a =>
        cases hProg
        rw [hView]
        exact hAnswered
    | _ => simp [Prog.atCell] at hProg
  · intro err hFail
    rw [hFail] at hProg
    cases p' with
    | fail e =>
        cases hProg
        exact
          ⟨hRefused, fun _ _ hHold hSelects hVersion =>
            (AcceptRefused.clash_of_hold hRefused hCell hHold
              hSelects hVersion).1⟩
    | _ => simp [Prog.atCell] at hProg

/-
  A booking leaves its offer in one commit at most.  A commit
  that changes an offered booking confirms it before its
  deadline, lets it expire at or after the deadline, or
  cancels it.  The deadline is no later than the start, and
  no later than a quarter of an hour after the clock sampled
  for the offer.  Every commit is that of a request, and a
  late request to accept commits the expiry of the booking
  and of the entry, the event and the promotion.  A request
  to accept that has found its offer ends with the answer to
  this, and fails only where a drawn identifier is in use.
-/
theorem hold_outcomes
    {X : Circumstances}
    {resources : Uuid → Option Resource}
    {env : Surroundings}
    {s : Sys X.world (Uuid → Cell) Reply}
    (hRun : InventoryRun X resources env s) :
    (∀ rid id,
      (commits s.trace).Pairwise (fun c c' =>
        ¬ (EndsOffer rid id c ∧ EndsOffer rid id c'))) ∧
    (∀ c ∈ commits s.trace, ∀ rid,
      ∀ b ∈ (c.before rid).bookings, b.status = .offered →
        ∃ b' ∈ (c.after rid).bookings,
          b'.id = b.id ∧ b.Fate rid c.log b') ∧
    (∀ rid, ∀ b ∈ (s.db rid).bookings,
      b.status = .offered →
        ∃ deadline, b.expiresAt = some deadline ∧
          deadline ≤ b.timeRange.lower ∧
          ∃ c ∈ commits s.trace, ∃ now,
            OfferedBy rid b now c ∧
              deadline ≤ now + minutes 15) ∧
    (∀ c ∈ commits s.trace,
      ∃ rid request, CommitOf c rid request) ∧
    (∀ c ∈ commits s.trace,
      ∀ rid scope entryId expectedVersion,
        CommitOf c rid
          (.acceptOffer scope entryId expectedVersion) →
        ∃ e b now reply,
          Acceptance rid scope entryId expectedVersion c.log
            (c.before rid) e b now ∧
          c.answer = some reply ∧
          Answered rid c.log (c.before rid) e b now
            (c.after rid) reply) ∧
    ∀ pid pr, s.procs pid = some pr →
      ∀ rid scope entryId expectedVersion,
        pr.start =
            (acceptOffer rid scope entryId
              expectedVersion).atCell rid →
          (∀ reply, pr.prog = .done reply →
            ∃ e b now,
              Acceptance rid scope entryId expectedVersion
                pr.log (s.db rid) e b now ∧
              Answered rid pr.log (s.db rid) e b now
                (pr.view s.db rid) reply) ∧
          ∀ err, pr.prog = .fail err →
            AcceptRefused scope entryId expectedVersion
              pr.log (s.db rid) err ∧
            ∀ e b, Hold (s.db rid) e b →
              scope.selectsEntry entryId e = true →
              e.version = expectedVersion →
                Clash (s.db rid).Names pr.log := by
  have hEffective := hRun.effective
  refine ⟨?_, ?_, ?_, fun c hc => (hEffective c hc).request,
    ?_, ?_⟩
  · intro rid id
    -- once an offer has ended, its booking stays settled
    have hInv :
        (commits s.trace).Pairwise (fun c c' =>
          ¬ (EndsOffer rid id c ∧ EndsOffer rid id c')) ∧
        ((∃ c ∈ commits s.trace, EndsOffer rid id c) →
          (s.db rid).Settles id) := by
      refine
        hRun.effects
          (fun db hist =>
            hist.Pairwise (fun c c' =>
              ¬ (EndsOffer rid id c ∧
                EndsOffer rid id c')) ∧
            ((∃ c ∈ hist, EndsOffer rid id c) →
              (db rid).Settles id)) ⟨.nil, ?_⟩ ?_
      · rintro ⟨c, hc, -⟩
        cases hc
      · rintro c hist hNow ⟨hOnce, hSettles⟩
        refine ⟨List.pairwise_cons.mpr ⟨?_, hOnce⟩, ?_⟩
        · rintro c' hc' ⟨hEnds, hEnds'⟩
          exact
            hNow.not_ends_of_settles
              (hSettles ⟨c', hc', hEnds'⟩) hEnds
        · rintro ⟨c', hc', hEnds⟩
          rcases List.mem_cons.mp hc' with rfl | hOld
          · exact hNow.settles_of_ends hEnds
          · exact hNow.settles (hSettles ⟨c', hOld, hEnds⟩)
    exact hInv.1
  · intro c hc rid b hRow _
    exact
      ((hEffective c hc).outcome rid).fate
        ((hEffective c hc).consistent rid) hRow
  · intro rid b hRow hOffered
    have hInv :
        ∀ b ∈ (s.db rid).bookings, b.status = .offered →
          ∃ c ∈ commits s.trace, ∃ now deadline,
            OfferedBy rid b now c ∧
              b.expiresAt = some deadline ∧
              deadline ≤ now + minutes 15 := by
      refine
        hRun.effects
          (fun db hist =>
            ∀ b ∈ (db rid).bookings, b.status = .offered →
              ∃ c ∈ hist, ∃ now deadline,
                OfferedBy rid b now c ∧
                  b.expiresAt = some deadline ∧
                  deadline ≤ now + minutes 15) ?_ ?_
      · intro b hb
        cases hb
      · intro c hist hNow hBefore b hb hStatus
        rcases hNow.offered hb hStatus with hOld | hNew
        · rcases hBefore b hOld hStatus with
            ⟨c', hc', hOffer⟩
          exact ⟨c', List.mem_cons_of_mem c hc', hOffer⟩
        · exact ⟨c, List.mem_cons_self, hNew⟩
    rcases hInv b hRow hOffered with
      ⟨c, hc, now, deadline, hOffer, hDeadline, hSoon⟩
    refine ⟨deadline, hDeadline, ?_, c, hc, now, hOffer,
      hSoon⟩
    rcases
      ((hRun.consistent rid).bookings.checks b hRow).2.2.2
      with ⟨-, t, hSome, hStart⟩ | ⟨hNot, -⟩
    · rw [hDeadline] at hSome
      rw [Option.some.inj hSome]
      exact hStart
    · exact absurd hOffered hNot
  · intro c hc rid scope entryId expectedVersion hCommit
    exact hCommit.accepts ((hEffective c hc).consistent rid)
  · intro pid pr hProc rid scope entryId expectedVersion hStart
    exact hRun.accepting hProc hStart

end PigBook

namespace PigBook

open ReadCommitted

/- Two users wait for a booking that is cancelled. -/
def queuedRequests : List Request :=
  [.createBooking (.owner 101) (.utc (hours 2))
      (.utc (hours 3)),
    .joinWaitlist (.owner 102) (.utc (hours 2))
      (.utc (hours 3)),
    .joinWaitlist (.owner 103) (.utc (hours 2))
      (.utc (hours 3)),
    .cancelBooking (.owner 101) 1 1 ""]

/- An hour after the first of them has been made an offer. -/
def offeredLongAgo : Sys forwardClock.world (Uuid → Cell) Reply :=
  (Sys.initial (W := forwardClock.world)
    (fun _ =>
      Cell.opening forwardClock.users (some meetingRoom))
    ⟨0, []⟩).exec simulator [0]
    (queuedRequests.flatMap (fun request =>
        .spawn 0 ((request.program 7).atCell 7) ::
          List.replicate 40 (.step 0)) ++
      [.pass])

/- The first `n` steps of the request to accept it now. -/
def lateAcceptance
    (n : ℕ) : Sys forwardClock.world (Uuid → Cell) Reply :=
  offeredLongAgo.exec simulator [0]
    (.spawn 0 ((acceptOffer 7 (.owner 102) 3 2).atCell 7) ::
      List.replicate n (.step 0))

theorem lateAcceptance_run
    (n : ℕ) :
    InventoryRun forwardClock (fun _ => some meetingRoom)
      ⟨0, []⟩ (lateAcceptance n) := by
  unfold InventoryRun lateAcceptance offeredLongAgo Sys.exec
  rw [← List.foldl_append]
  refine Sys.exec_reachable (fun _ _ => rfl) ?_
  intro m hm
  rcases List.mem_append.mp hm with hBefore | hLate
  · rcases List.mem_append.mp hBefore with hQueued | hPass
    · rcases List.mem_flatMap.mp hQueued with
        ⟨request, -, hMove⟩
      exact
        Move.allowed_of_begun ⟨7, _, ⟨request, rfl⟩, rfl⟩
          hMove
    · rw [List.mem_singleton.mp hPass]
      trivial
  · exact
      Move.allowed_of_begun
        ⟨7, _, ⟨.acceptOffer (.owner 102) 3 2, rfl⟩, rfl⟩ hLate

theorem lateAcceptance_start
    {n : ℕ}
    {pr : Proc inventory (Uuid → Cell) Reply}
    (hProc : (lateAcceptance n).procs 0 = some pr) :
    pr.start =
      (acceptOffer 7 (.owner 102) 3 2).atCell 7 := by
  have hIdle : (offeredLongAgo.procs 0).isNone := by
    decide +kernel
  have hSingle :
      ((acceptOffer 7 (.owner 102) 3 2).atCell
        (7 : Uuid)).Single :=
    single_atCell 7
      (Request.single 7 (.acceptOffer (.owner 102) 3 2))
  unfold lateAcceptance at hProc
  exact
    (Sys.amid_spawned n hIdle List.mem_cons_self hSingle pr
      hProc).1

/-
  The offer has a deadline; the late request to accept it is
  answered 409, and the second user is offered the window.
-/
theorem hold_outcomes_scenario :
    (∃ b ∈ ((scenario 3).db 7).bookings,
      b.status = .offered ∧
        ∃ deadline, b.expiresAt = some deadline ∧
          deadline ≤ b.timeRange.lower ∧
          ∃ c ∈ commits (scenario 3).trace, ∃ now,
            OfferedBy 7 b now c ∧
              deadline ≤ now + minutes 15) ∧
    (∃ pr e b now,
      (lateAcceptance 21).procs 0 = some pr ∧
        pr.prog =
          .done (.stored (conflict "HOLD_EXPIRED"
            "The offer for this booking has expired")) ∧
        Acceptance 7 (.owner 102) 3 2 pr.log
          ((lateAcceptance 21).db 7) e b now ∧
        Answered 7 pr.log ((lateAcceptance 21).db 7) e b now
          (pr.view (lateAcceptance 21).db 7)
          (.stored (conflict "HOLD_EXPIRED"
            "The offer for this booking has expired"))) ∧
    ((lateAcceptance 22).db 7).entries.map
        (fun e => (e.userId, e.status)) =
      [(102, .expired), (103, .offered)] := by
  refine ⟨?_, ?_, by decide +kernel⟩
  · have hOffered :
        ∃ b ∈ ((scenario 3).db 7).bookings,
          b.status = .offered := by
      decide +kernel
    rcases hOffered with ⟨b, hRow, hStatus⟩
    exact ⟨b, hRow, hStatus,
      (hold_outcomes (scenario_run 3)).2.2.1 7 b hRow hStatus⟩
  · have hReply :
        lastWord (lateAcceptance 21) =
          some (.inr (.stored (conflict "HOLD_EXPIRED"
            "The offer for this booking has expired"))) := by
      decide +kernel
    have hAnswers :
        (lastWord (lateAcceptance 21)).any Sum.isRight =
          true := by
      rw [hReply]
      rfl
    rcases answering_of_lastWord hAnswers with
      ⟨pr, reply, hProc, hProg, hWord⟩
    rw [hReply] at hWord
    cases hWord
    rcases
      ((hold_outcomes (lateAcceptance_run 21)).2.2.2.2.2 0 pr
        hProc 7 _ 3 2 (lateAcceptance_start hProc)).1 _
        hProg with
      ⟨e, b, now, hAcceptance, hAnswered⟩
    exact
      ⟨pr, e, b, now, hProc, hProg, hAcceptance, hAnswered⟩

end PigBook
