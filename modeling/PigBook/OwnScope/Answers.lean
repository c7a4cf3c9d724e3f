import PigBook.Inventory.Safety
import PigBook.OwnScope.Routes

/-
  What the transactions on own rows answer, by these rows and
  the clock alone.

  Key definitions include:
    * `cancelAnswer`, `declineAnswer`, `acceptAnswer`
    * `Answers`, `Refused`

  Key theorems include:
    * `cancelBooking_answers`
    * `declineEntry_answers`
    * `acceptOffer_answers`
    * `runAlone_answer`
-/

------------------------------------------------------------
-- Answers
------------------------------------------------------------

namespace PigBook.OwnScope

variable (rid : Uuid) (version : ℕ) (now : ℤ)

/- The answer to a cancellation of the booking. -/
def cancelAnswer
    (reason : String) : Option Booking → Except Error Reply
| none => .error (.notFound "Booking not found")
| some b =>
    if b.version ≠ version then
      .error (.versionMismatch
        "Booking has been modified by another request")
    else if b.status = .cancelled then
      .ok (.booking (b.schema rid))
    else if b.status.active = false then
      .error (.invalidState
        ("A booking in state '" ++ b.status.str ++
          "' cannot be cancelled"))
    else if b.timeRange.lower ≤ now then
      .error (.tooLate
        "A booking can only be cancelled before it starts")
    else
      .ok (.booking ((b.cancel reason now).schema rid))

/- The answer to a withdrawal of the entry. -/
def declineAnswer :
    Option WaitlistEntry → Except Error Reply
| none => .error (.notFound "Waitlist entry not found")
| some e =>
    if e.version ≠ version then
      .error (.versionMismatch
        "Waitlist entry has been modified by another request")
    else if e.status = .cancelled then
      .ok (.entry (e.schema rid))
    else if e.status.active = false then
      .error (.invalidState
        ("Waitlist entry in status '" ++ e.status.str ++
          "' cannot be cancelled"))
    else if e.timeRange.lower ≤ now then
      .error (.tooLate
        "A waitlist entry can only be withdrawn before its slot starts")
    else
      .ok (.entry
        ((e.transition .cancelled now).schema rid))

/- The answer to an acceptance, by the booking held for it. -/
def acceptAnswer
    (held : Uuid → Option Booking) :
    Option WaitlistEntry → Except Error Reply
| none => .error (.notFound "Waitlist entry not found")
| some e =>
    if e.version ≠ version then
      .error (.versionMismatch
        "Waitlist entry has been modified by another request")
    else if e.status ≠ .offered then
      .error (.invalidState
        ("Waitlist entry in status '" ++ e.status.str ++
          "' cannot be accepted"))
    else
      match e.offeredBookingId.bind held with
      | none =>
          .error (.invalidState
            "Linked booking is not in offered status")
      | some b =>
          if ∃ deadline ∈ b.expiresAt, deadline ≤ now then
            .ok (.stored (conflict "HOLD_EXPIRED"
              "The offer for this booking has expired"))
          else
            .ok (.stored {
              status := 200
              body :=
                .booking
                  ((b.transition .confirmed now).schema rid)
              headers :=
                [("ETag",
                  etag (b.transition .confirmed now).version)]
            })

end PigBook.OwnScope

------------------------------------------------------------
-- Exact Rules
------------------------------------------------------------

namespace PigBook.OwnScope

open ReadCommitted

/- The first reading of the clock, if any, shows the time. -/
def ReadFirst
    (now : ℤ)
    (log : List (Action inventory)) : Prop :=
  ∀ t ∈ (clocksRead log).head?, t = now

/- The reply is the answer at the first reading. -/
def Answers
    (answer : ℤ → Except Error Reply)
    (log : List (Action inventory))
    (reply : Reply) : Prop :=
  ∀ now, ReadFirst now log → answer now = .ok reply

/-
  The error is the answer, or identifiers clash, or some
  constraint other than that of the resources is violated.
-/
def Refused
    (used : Uuid → Prop)
    (answer : ℤ → Except Error Reply)
    (log : List (Action inventory))
    (e : Error) : Prop :=
  Clash used log ∨
    (∃ c, c ≠ .resourcesCheck ∧ e = .integrityError c) ∨
    ∀ now, ReadFirst now log → answer now = .error e

variable {used : Uuid → Prop}
variable {answer : ℤ → Except Error Reply}
variable {err : List (Action inventory) → Error → Prop}
variable {log : List (Action inventory)} {s : Cell}

/- No violation but those of the tables below. -/
def Violable
    (err : List (Action inventory) → Error → Prop) : Prop :=
  ∀ log c, c ≠ .resourcesCheck → err log (.integrityError c)

theorem violable_refused :
    Violable (Refused used answer) :=
  fun _ c hOther => Or.inr (Or.inl ⟨c, hOther, rfl⟩)

theorem readFirst_append
    {now t : ℤ}
    {before after : List (Action inventory)}
    (hNone : clocksRead before = [])
    (hRead :
      ReadFirst now (before ++ [⟨.clock, t, []⟩] ++ after)) :
    t = now := by
  apply hRead t
  unfold clocksRead at *
  rw [List.filterMap_append, List.filterMap_append, hNone]
  rfl

theorem bookingsUpdateViolation_ne
    {p : Booking → Bool}
    {f : Booking → Booking}
    {c : Constraint}
    (hSome : s.bookingsUpdateViolation p f = some c) :
    c ≠ .resourcesCheck := by
  unfold Cell.bookingsUpdateViolation at hSome
  split at hSome
  · cases hSome
    decide
  · split at hSome
    · cases hSome
      decide
    · split at hSome
      · cases hSome
        decide
      · cases hSome

theorem entriesUpdateViolation_ne
    {p : WaitlistEntry → Bool}
    {f : WaitlistEntry → WaitlistEntry}
    {c : Constraint}
    (hSome : s.entriesUpdateViolation p f = some c) :
    c ≠ .resourcesCheck := by
  unfold Cell.entriesUpdateViolation at hSome
  split at hSome
  · cases hSome
    decide
  · split at hSome
    · cases hSome
      decide
    · split at hSome
      · cases hSome
        decide
      · split at hSome
        · cases hSome
          decide
        · split at hSome
          · cases hSome
            decide
          · cases hSome

theorem eventViolation_ne
    {ev : OutboxEvent}
    {c : Constraint}
    (hSome : s.eventViolation ev = some c) :
    c ≠ .resourcesCheck := by
  unfold Cell.eventViolation at hSome
  split at hSome
  · cases hSome
    decide
  · split at hSome
    · cases hSome
      decide
    · cases hSome

/- One row or none is what the statement answers. -/
theorem scalarOneOrNone_exact
    {β : Type}
    {row? : Option β}
    {post :
      List (Action inventory) → Cell → Option β → Prop}
    (hPost : post log s row?) :
    (scalarOneOrNone row?.toList).wp post err log s := by
  cases row? with
  | none => exact hPost
  | some row => exact hPost

/- The UPDATE of a row that is there counts one. -/
theorem updateBooking_exact
    {b : Booking}
    {f : Booking → Booking}
    {post : List (Action inventory) → Cell → Unit → Prop}
    (hErr : Violable err)
    (hIds : Keyed Booking.id s.bookings)
    (hRow : b ∈ s.bookings)
    (hPost :
      s.bookingsUpdateViolation b.current f = none →
        ∀ keys : List Key,
          post (log ++ [⟨.plain, (), keys⟩])
            (s.setBookings b.current f) ()) :
    (updateBooking b f).wp post err log s := by
  have hOne : s.bookings.filter b.current = [b] :=
    hIds.filter_eq_singleton hRow
      (Booking.current_iff hIds hRow)
  unfold updateBooking
  simp only [Prog.bind_eq, Prog.wp_bind]
  apply wp_updateBookings
  · intro hNone
    rw [hOne]
    exact hPost hNone _
  · intro c log hSome
    exact hErr log c (bookingsUpdateViolation_ne hSome)

theorem updateEntry_exact
    {e : WaitlistEntry}
    {f : WaitlistEntry → WaitlistEntry}
    {post : List (Action inventory) → Cell → Unit → Prop}
    (hErr : Violable err)
    (hIds : Keyed WaitlistEntry.id s.entries)
    (hRow : e ∈ s.entries)
    (hPost :
      ∀ keys : List Key,
        post (log ++ [⟨.plain, (), keys⟩])
          (s.setEntries e.current f) ()) :
    (updateEntry e f).wp post err log s := by
  have hOne : s.entries.filter e.current = [e] :=
    hIds.filter_eq_singleton hRow
      (WaitlistEntry.current_iff hIds hRow)
  unfold updateEntry
  simp only [Prog.bind_eq, Prog.wp_bind]
  apply wp_updateEntries
  · intro _
    rw [hOne]
    exact hPost _
  · intro c log hSome
    exact hErr log c (entriesUpdateViolation_ne hSome)

/- The entry that the transaction has just updated. -/
theorem refreshEntry_exact
    {t : Cell}
    {e : WaitlistEntry}
    {f : WaitlistEntry → WaitlistEntry}
    {post :
      List (Action inventory) → Cell → WaitlistEntry → Prop}
    (hIds : Keyed WaitlistEntry.id s.entries)
    (hRow : e ∈ s.entries)
    (hId : ∀ x, (f x).id = x.id)
    (hEntries :
      t.entries = updateWhere e.current f s.entries)
    (hPost : post (log ++ [⟨.plain, (), []⟩]) t (f e)) :
    (refreshEntry e).wp post err log t := by
  have hCurrent : e.current e = true :=
    (WaitlistEntry.current_iff hIds hRow e hRow).mpr rfl
  have hIds' : Keyed WaitlistEntry.id t.entries := by
    rw [hEntries]
    exact hIds.updateWhere (fun x _ _ => hId x)
  have hRow' : f e ∈ t.entries := by
    rw [hEntries]
    exact mem_updateWhere.mpr (Or.inl ⟨e, hRow, hCurrent, rfl⟩)
  have hOne :
      t.entries.filter (fun x => x.id = e.id) = [f e] := by
    apply hIds'.filter_eq_singleton hRow'
    intro x _
    rw [decide_eq_true_iff, hId]
  unfold refreshEntry
  simp only [Prog.bind_eq, Prog.wp_bind, wp_selectRows]
  rw [hOne]
  exact hPost

/- A violation by the event is one that may be. -/
theorem appendEvent_exact
    {rid : Uuid}
    {eventType : EventType}
    {b : Booking}
    {now : ℤ}
    {post : List (Action inventory) → Cell → Uuid → Prop}
    (hErr : Violable err)
    (hPost :
      ∀ (eventId : Uuid) (keys : List Key),
        post
          (log ++ [⟨.uuid, eventId, []⟩] ++
            [⟨.plain, (), keys⟩])
          (s.addEvent (eventOf rid eventType b now eventId))
          eventId) :
    (appendEvent rid eventType b now).wp post err log s := by
  apply wp_appendEvent
  · intro eventId _
    exact hPost eventId _
  · intro eventId c hSome
    exact hErr _ c (eventViolation_ne hSome)

/- A transaction that has only closed bookings so far. -/
theorem accounted_of_closed
    {t : Cell}
    (hBookings :
      ∀ b ∈ t.bookings, ∃ b' ∈ s.bookings, b'.id = b.id)
    (hEvents :
      ∀ ev ∈ t.outbox,
        ev ∈ s.outbox ∨ ev.id ∈ drawn (asked log)) :
    t.Accounted s.Names log := by
  intro id hUses
  rcases hUses with ⟨b, hRow, rfl⟩ | ⟨ev, hRow, rfl⟩
  · exact Or.inl (Or.inl (hBookings b hRow))
  · exact
      (hEvents ev hRow).imp_left
        (fun hOld => Or.inr (Or.inr (Or.inl ⟨ev, hOld, rfl⟩)))

/- The ids of bookings outlast an UPDATE. -/
theorem ids_of_updateWhere
    {p : Booking → Bool}
    {f : Booking → Booking}
    {bs : List Booking}
    (hId : ∀ b, (f b).id = b.id) :
    ∀ b ∈ updateWhere p f bs, ∃ b' ∈ bs, b'.id = b.id := by
  intro b hRow
  rcases mem_updateWhere.mp hRow with
    ⟨b', hRow', -, rfl⟩ | ⟨hRow', -⟩
  · exact ⟨b', hRow', (hId b').symm⟩
  · exact ⟨b, hRow', rfl⟩

/- The promotion ends, unless identifiers clash. -/
theorem promoteWaiters_exact
    {rid : Uuid}
    {post :
      List (Action inventory) → Cell → List Uuid → Prop}
    (hCell : s.Valid)
    (hAccounted : s.Accounted used log)
    (hPost :
      ∀ acts s' promoted, post (log ++ acts) s' promoted) :
    (promoteWaiters promotionPageSize rid).wp post
      (Refused used answer) log s :=
  promoteWaiters_rule (by decide) hCell hAccounted
    (fun _ _ hClash => Or.inl hClash)
    (fun _ acts _ _ _ => hPost acts _ _)

end PigBook.OwnScope

------------------------------------------------------------
-- Cancelling
------------------------------------------------------------

namespace PigBook.OwnScope

open ReadCommitted

variable {p rid : Uuid} {s : Cell}

theorem addAudits_nil :
    s.addAudits [] = s := by
  unfold Cell.addAudits
  rw [List.append_nil]

/- Owners leave no audit record. -/
theorem auditCancellation_owner
    (id : Uuid)
    (reason : String)
    (now : ℤ) :
    auditCancellation rid (.owner p) id reason now =
      .done () :=
  if_neg Bool.false_ne_true

/- A cancellation answers by the booking and the clock. -/
theorem cancelBooking_answers
    (hCell : s.Consistent)
    {id : Uuid}
    (version : ℕ)
    (reason : String)
    {own : Option Booking}
    (hOwn :
      s.bookings.filter ((Scope.owner p).selectsBooking id) =
        own.toList) :
    (cancelBooking rid (.owner p) id version reason).wp
      (fun log _ reply =>
        Answers
          (fun now => cancelAnswer rid version now reason own)
          log reply)
      (Refused s.Names
        (fun now => cancelAnswer rid version now reason own))
      [] s := by
  unfold cancelBooking
  simp only [Prog.bind_eq, Prog.wp_bind,
    wp_selectResourceForUpdate, wp_selectBookingsForUpdate]
  rw [hOwn]
  apply scalarOneOrNone_exact
  cases own with
  | none =>
      exact Or.inr (Or.inr (fun now _ => rfl))
  | some b =>
      rcases mem_of_filter_eq_singleton hOwn with
        ⟨hRow, hSelects⟩
      rcases of_decide_eq_true hSelects with ⟨rfl, hKind, -⟩
      simp only [Prog.wp_bind, wp_clockTimestamp]
      intro t
      have hFirst :
          ∀ now acts,
            ReadFirst now
              ([] ++
                [⟨.plain, (),
                  s.resourceKeys (.resourceUpdate rid)⟩] ++
                [⟨.plain, (),
                  (some b).toList.map
                    (Key.bookingUpdate ·.id)⟩] ++
                [⟨.clock, t, []⟩] ++ acts) →
              t = now :=
        fun now acts hRead => readFirst_append rfl hRead
      generalize
        ([] ++
          [⟨.plain, (),
            s.resourceKeys (.resourceUpdate rid)⟩] ++
          [⟨.plain, (),
            (some b).toList.map
              (Key.bookingUpdate ·.id)⟩] ++
          [⟨.clock, t, []⟩] : List (Action inventory)) = log
        at hFirst ⊢
      -- until the UPDATE the log ends with this reading
      have hNow : ∀ now, ReadFirst now log → t = now := by
        intro now hRead
        apply hFirst now []
        rw [List.append_nil]
        exact hRead
      split
      · rename_i hVersion
        exact
          Or.inr (Or.inr (fun now _ => if_pos hVersion))
      rename_i hVersion
      split
      · rename_i hStatus
        intro now _
        dsimp only [cancelAnswer]
        rw [if_neg hVersion, if_pos hStatus]
      rename_i hStatus
      split
      · rename_i hInactive
        refine Or.inr (Or.inr (fun now _ => ?_))
        dsimp only [cancelAnswer]
        rw [if_neg hVersion, if_neg hStatus, if_pos hInactive]
      rename_i hActive
      split
      · rename_i hRunning
        exact absurd hRunning.1 Bool.false_ne_true
      split
      · rename_i hLate
        refine Or.inr (Or.inr (fun now hRead => ?_))
        rw [hNow now hRead] at hLate
        dsimp only [cancelAnswer]
        rw [if_neg hVersion, if_neg hStatus, if_neg hActive,
          if_pos hLate.2]
      rename_i hEarly
      have hEarly' : ¬ b.timeRange.lower ≤ t :=
        fun hLate => hEarly ⟨Bool.false_ne_true, hLate⟩
      have hVersion' := not_not.mp hVersion
      subst hVersion'
      have hOne : s.bookings.filter b.current = [b] :=
        hCell.bookings.ids.filter_eq_singleton hRow
          (Booking.current_iff hCell.bookings.ids hRow)
      simp only [Prog.wp_bind]
      apply wp_updateBookings
      rotate_left
      · intro c log hSome
        exact violable_refused log c
          (bookingsUpdateViolation_ne hSome)
      intro hNone
      have hCheck : (b.cancel reason t).Check :=
        check_of_update hNone hRow
          (decide_eq_true ⟨rfl, rfl⟩)
      have hOne' :
          s.bookings.filter
            (fun b' => b'.id = b.id ∧ b'.version = b.version) =
              [b] := hOne
      have hCounted : ¬ [b].length ≠ 1 := not_not.mpr rfl
      rw [hOne', if_neg hCounted]
      simp only [Prog.pure_eq_done, Prog.wp_done,
        Prog.wp_bind]
      apply refreshUpdated_rule (f := .cancel reason t)
        hCell.toValid hRow (fun _ => rfl) rfl
      apply wp_updateEntries
      rotate_left
      · intro c log hSome
        exact violable_refused log c
          (entriesUpdateViolation_ne hSome)
      intro _
      apply appendEvent_exact violable_refused
      intro eventId keys
      rw [auditCancellation_owner, Prog.wp_done]
      have hCancellation :=
        cancelled_cancellation rid eventId [] hCell hRow
          (by simpa using hActive) hCheck
      have hRelease : Release rid [] s _ :=
        hCancellation.release hRow hKind
      apply promoteWaiters_exact
      · have hLeft := (hRelease.consistent hCell).toValid
        rw [addAudits_nil] at hLeft
        exact hLeft
      · apply accounted_of_closed
        · exact ids_of_updateWhere (fun _ => rfl)
        · intro ev hEv
          rcases List.mem_append.mp hEv with hOld | hNew
          · exact Or.inl hOld
          · rw [List.mem_singleton.mp hNew]
            refine Or.inr ?_
            simp [eventOf]
      · intro acts s' promoted now hRead
        simp only [List.append_assoc] at hRead
        rw [← hFirst now _ hRead]
        dsimp only [cancelAnswer]
        rw [if_neg hVersion, if_neg hStatus, if_neg hActive,
          if_neg hEarly']

end PigBook.OwnScope

------------------------------------------------------------
-- Declining
------------------------------------------------------------

namespace PigBook.OwnScope

open ReadCommitted

variable {p rid : Uuid} {s : Cell}

/- A withdrawal answers by the entry and the clock. -/
theorem declineEntry_answers
    (hCell : s.Consistent)
    {id : Uuid}
    (version : ℕ)
    {own : Option WaitlistEntry}
    (hOwn :
      s.entries.filter ((Scope.owner p).selectsEntry id) =
        own.toList) :
    (declineEntry rid (.owner p) id version).wp
      (fun log _ reply =>
        Answers (fun now => declineAnswer rid version now own)
          log reply)
      (Refused s.Names
        (fun now => declineAnswer rid version now own))
      [] s := by
  unfold declineEntry
  simp only [Prog.bind_eq, Prog.wp_bind,
    wp_selectResourceForUpdate, wp_selectEntriesForUpdate]
  rw [hOwn]
  apply scalarOneOrNone_exact
  cases own with
  | none =>
      exact Or.inr (Or.inr (fun now _ => rfl))
  | some e =>
      rcases mem_of_filter_eq_singleton hOwn with
        ⟨hRow, hSelects⟩
      dsimp only
      split
      · rename_i hVersion
        exact
          Or.inr (Or.inr (fun now _ => if_pos hVersion))
      rename_i hVersion
      split
      · rename_i hStatus
        intro now _
        dsimp only [declineAnswer]
        rw [if_neg hVersion, if_pos hStatus]
      rename_i hStatus
      split
      · rename_i hInactive
        refine Or.inr (Or.inr (fun now _ => ?_))
        dsimp only [declineAnswer]
        rw [if_neg hVersion, if_neg hStatus, if_pos hInactive]
      rename_i hActive
      simp only [Prog.wp_bind, wp_clockTimestamp]
      intro t
      have hFirst :
          ∀ now acts,
            ReadFirst now
              ([] ++
                [⟨.plain, (),
                  s.resourceKeys (.resourceUpdate rid)⟩] ++
                [⟨.plain, (),
                  (some e).toList.map
                    (Key.entryUpdate ·.id)⟩] ++
                [⟨.clock, t, []⟩] ++ acts) →
              t = now :=
        fun now acts hRead => readFirst_append rfl hRead
      generalize
        ([] ++
          [⟨.plain, (),
            s.resourceKeys (.resourceUpdate rid)⟩] ++
          [⟨.plain, (),
            (some e).toList.map (Key.entryUpdate ·.id)⟩] ++
          [⟨.clock, t, []⟩] : List (Action inventory)) = log
        at hFirst ⊢
      have hNow : ∀ now, ReadFirst now log → t = now := by
        intro now hRead
        apply hFirst now []
        rw [List.append_nil]
        exact hRead
      split
      · rename_i hLate
        refine Or.inr (Or.inr (fun now hRead => ?_))
        rw [hNow now hRead] at hLate
        dsimp only [declineAnswer]
        rw [if_neg hVersion, if_neg hStatus, if_neg hActive,
          if_pos hLate]
      rename_i hEarly
      have hAnswers :
          ∀ acts,
            Answers
              (fun now =>
                declineAnswer rid version now (some e))
              (log ++ acts)
              (.entry
                ((e.transition .cancelled t).schema rid)) := by
        intro acts now hRead
        rw [← hFirst now acts hRead]
        dsimp only [declineAnswer]
        rw [if_neg hVersion, if_neg hStatus, if_neg hActive,
          if_neg hEarly]
      split
      · -- a waiting entry is all that changes
        simp only [Prog.wp_bind]
        apply updateEntry_exact violable_refused
          hCell.entries.ids hRow
        intro keys
        apply refreshEntry_exact
          (f := .transition .cancelled t) hCell.entries.ids
          hRow (fun _ => rfl) rfl
        rw [List.append_assoc]
        exact hAnswers _
      rename_i hWaiting
      have hOffered : e.status = .offered := by
        cases hCase : e.status <;> rw [hCase] at hActive
        case waiting => exact absurd hCase hWaiting
        all_goals exact absurd rfl hActive
      rcases hCell.offeredLinked e hRow hOffered with
        ⟨b, hRowB, hHolds⟩
      have hHold : Hold s e b :=
        ⟨hRow, hOffered, hRowB, hHolds⟩
      have hFound :
          s.bookings.filter (·.id = b.id) = [b] := by
        apply hCell.bookings.ids.filter_eq_singleton hRowB
        intro x _
        rw [decide_eq_true_iff]
      unfold releaseOffered
      rw [hHolds.link]
      simp only [Prog.bind_eq, Prog.wp_bind,
        wp_selectBookingsForUpdate]
      rw [hFound]
      simp only [scalarOneOrNone, Prog.wp_done,
        hHolds.offered, if_true]
      apply updateBooking_exact violable_refused
        hCell.bookings.ids hRowB
      intro _ keys
      apply updateEntry_exact
        (s := s.setBookings b.current _) violable_refused
        hCell.entries.ids hRow
      intro keys'
      apply refreshEntry_exact
        (f := .transition .cancelled t) hCell.entries.ids
        hRow (fun _ => rfl) rfl
      have hRelease :
          Release rid [] s
            (s.close e b (.transition .cancelled t)
              .cancelled t) :=
        .decline hHold
      apply promoteWaiters_exact
      · exact (hRelease.consistent hCell).toValid
      · apply accounted_of_closed
        · exact ids_of_updateWhere (fun _ => rfl)
        · exact fun ev hEv => Or.inl hEv
      · intro acts s' promoted
        simp only [List.append_assoc]
        exact hAnswers _

end PigBook.OwnScope

------------------------------------------------------------
-- Accepting
------------------------------------------------------------

namespace PigBook.OwnScope

open ReadCommitted

variable {p rid : Uuid} {s : Cell}

/- Acceptance answers by the entry, its hold and the clock. -/
theorem acceptOffer_answers
    (hCell : s.Consistent)
    {id : Uuid}
    (version : ℕ)
    {own : Option WaitlistEntry}
    (hOwn :
      s.entries.filter ((Scope.owner p).selectsEntry id) =
        own.toList)
    {held : Uuid → Option Booking}
    (hHeld :
      ∀ b ∈ s.bookings, b.userId = some p →
        held b.id = some b) :
    (acceptOffer rid (.owner p) id version).wp
      (fun log _ reply =>
        Answers
          (fun now => acceptAnswer rid version now held own)
          log reply)
      (Refused s.Names
        (fun now => acceptAnswer rid version now held own))
      [] s := by
  unfold acceptOffer
  simp only [Prog.bind_eq, Prog.wp_bind,
    wp_selectResourceForUpdate, wp_selectEntriesForUpdate]
  rw [hOwn]
  apply scalarOneOrNone_exact
  cases own with
  | none =>
      exact Or.inr (Or.inr (fun now _ => rfl))
  | some e =>
      rcases mem_of_filter_eq_singleton hOwn with
        ⟨hRow, hSelects⟩
      rcases of_decide_eq_true hSelects with ⟨-, hUser⟩
      dsimp only
      split
      · rename_i hVersion
        exact
          Or.inr (Or.inr (fun now _ => if_pos hVersion))
      rename_i hVersion
      split
      · rename_i hStatus
        refine Or.inr (Or.inr (fun now _ => ?_))
        dsimp only [acceptAnswer]
        rw [if_neg hVersion, if_pos hStatus]
      rename_i hStatus
      rcases hCell.offeredLinked e hRow (not_not.mp hStatus)
        with ⟨b, hRowB, hHolds⟩
      have hHold : Hold s e b :=
        ⟨hRow, not_not.mp hStatus, hRowB, hHolds⟩
      have hLink : e.offeredBookingId.bind held = some b := by
        rw [hHolds.link]
        exact hHeld b hRowB (hHolds.user.trans
          (congrArg some hUser))
      have hFound :
          s.bookings.filter (·.id = b.id) = [b] := by
        apply hCell.bookings.ids.filter_eq_singleton hRowB
        intro x _
        rw [decide_eq_true_iff]
      rw [hHolds.link]
      simp only [Prog.wp_bind, wp_selectBookingsForUpdate]
      rw [hFound]
      simp only [scalarOneOrNone, Prog.wp_done,
        hHolds.offered, ne_eq, not_true_eq_false, if_false,
        Prog.wp_bind, wp_clockTimestamp]
      intro t
      have hFirst :
          ∀ now acts,
            ReadFirst now
              ([] ++
                [⟨.plain, (),
                  s.resourceKeys (.resourceUpdate rid)⟩] ++
                [⟨.plain, (),
                  (some e).toList.map
                    (Key.entryUpdate ·.id)⟩] ++
                [⟨.plain, (),
                  [b].map (Key.bookingUpdate ·.id)⟩] ++
                [⟨.clock, t, []⟩] ++ acts) →
              t = now :=
        fun now acts hRead => readFirst_append rfl hRead
      generalize
        ([] ++
          [⟨.plain, (),
            s.resourceKeys (.resourceUpdate rid)⟩] ++
          [⟨.plain, (),
            (some e).toList.map (Key.entryUpdate ·.id)⟩] ++
          [⟨.plain, (),
            [b].map (Key.bookingUpdate ·.id)⟩] ++
          [⟨.clock, t, []⟩] : List (Action inventory)) = log
        at hFirst ⊢
      have hAnswers :
          ∀ acts reply,
            (if ∃ deadline ∈ b.expiresAt, deadline ≤ t then
              Reply.stored (conflict "HOLD_EXPIRED"
                "The offer for this booking has expired")
            else
              Reply.stored {
                status := 200
                body :=
                  .booking
                    ((b.transition .confirmed t).schema rid)
                headers :=
                  [("ETag",
                    etag
                      (b.transition .confirmed t).version)]
              }) = reply →
            Answers
              (fun now =>
                acceptAnswer rid version now held (some e))
              (log ++ acts) reply := by
        intro acts reply hReply now hRead
        rw [← hFirst now acts hRead, ← hReply]
        dsimp only [acceptAnswer]
        rw [if_neg hVersion, if_neg hStatus, hLink]
        dsimp only
        split
        · rfl
        · rfl
      split
      · rename_i hLate
        simp only [Prog.wp_bind]
        apply updateEntry_exact violable_refused
          hCell.entries.ids hRow
        intro keys
        apply updateBooking_exact
          (s := s.setEntries e.current _) violable_refused
          hCell.bookings.ids hRowB
        intro _ keys'
        apply refreshUpdated_rule
          (f := .transition .expired t) hCell.toValid hRowB
          (fun _ => rfl) rfl
        apply appendEvent_exact violable_refused
        intro eventId keys''
        have hExpiry :
            Expiry rid
              [⟨.plain, (), [.resourceUpdate rid]⟩,
                ⟨.clock, t, []⟩]
              s (s.afterExpiry rid e b t eventId) :=
          .intro hHold
            ⟨[⟨.plain, (), [.resourceUpdate rid]⟩], [], rfl,
              fun _ hKey => hKey⟩
            (late_of_exists hLate)
        apply promoteWaiters_exact
        · exact (hExpiry.consistent hCell).toValid
        · apply accounted_of_closed
          · exact ids_of_updateWhere (fun _ => rfl)
          · intro ev hEv
            rcases List.mem_append.mp hEv with hOld | hNew
            · exact Or.inl hOld
            · rw [List.mem_singleton.mp hNew]
              refine Or.inr ?_
              simp [eventOf]
        · intro acts s' promoted
          simp only [List.append_assoc]
          exact hAnswers _ _ (if_pos hLate)
      · rename_i hEarly
        simp only [Prog.wp_bind]
        apply updateBooking_exact violable_refused
          hCell.bookings.ids hRowB
        intro _ keys
        apply refreshUpdated_rule
          (f := .transition .confirmed t) hCell.toValid
          hRowB (fun _ => rfl) rfl
        apply updateEntry_exact
          (s := s.setBookings b.current _) violable_refused
          hCell.entries.ids hRow
        intro keys'
        apply appendEvent_exact violable_refused
        intro eventId keys''
        simp only [Prog.pure_eq_done, Prog.wp_done,
          List.append_assoc]
        exact hAnswers _ _ (if_neg hEarly)

end PigBook.OwnScope

------------------------------------------------------------
-- Transactions Alone
------------------------------------------------------------

namespace PigBook.OwnScope

open ReadCommitted

variable {o : Outside} {clocks : Clocks} {s : Cell}

/- The first reading is what the clock shows first. -/
theorem readFirst_inventoryAt
    (program : Tx Reply) :
    ReadFirst (clocks.database 0)
      (program.runAlone (o.inventoryAt clocks) s).log := by
  apply Prog.alone_log
  · intro log q keys hFirst t hHead
    unfold clocksRead at hHead
    rw [List.filterMap_append] at hHead
    cases hRead : clocksRead log with
    | nil =>
        unfold clocksRead at hRead
        rw [hRead, List.nil_append] at hHead
        cases q with
        | clock =>
            have hShown := Option.some.inj hHead
            rw [← hShown]
            unfold Outside.inventoryAt clocksRead
            rw [hRead]
            rfl
        | _ => cases hHead
    | cons t' ts =>
        apply hFirst t
        rw [hRead]
        unfold clocksRead at hRead
        rw [hRead] at hHead
        exact hHead
  · intro t hHead
    cases hHead

/- Run alone with new identifiers, it answers as it should. -/
theorem runAlone_answer
    {program : Tx Reply}
    {answer : ℤ → Except Error Reply}
    {refused : Tx Reply → Prop}
    (hAnswers :
      program.wp (fun log _ reply => Answers answer log reply)
        (Refused s.Names answer) [] s)
    (hLawfully : Lawfully True s.Names refused program [] s)
    (hNew :
      ¬ Clash s.Names
        (program.runAlone (o.inventoryAt clocks) s).log) :
    (program.runAlone (o.inventoryAt clocks) s).result =
      answer (clocks.database 0) := by
  have hFirst :
      ReadFirst (clocks.database 0)
        (program.runAlone (o.inventoryAt clocks) s).log :=
    readFirst_inventoryAt program
  cases hResult :
      (program.runAlone (o.inventoryAt clocks) s).result with
  | ok reply =>
      exact
        (Prog.alone_ok program hAnswers hResult
          (clocks.database 0) hFirst).symm
  | error e =>
      have hRefused :=
        (Prog.alone_error program hAnswers hResult).1
      have hNoViolation :=
        Prog.alone_each program hAnswers hLawfully hResult
      rcases hRefused with
        hClash | ⟨c, hOther, hError⟩ | hAnswer
      · exact absurd hClash hNew
      · exact
          absurd ((hNoViolation c hError).2 trivial hNew)
            hOther
      · exact (hAnswer (clocks.database 0) hFirst).symm

end PigBook.OwnScope
