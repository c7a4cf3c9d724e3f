import PigBook.Inventory.Guarantees

/-
  Optimistic versions of bookings, entries, and resources.

  Key definitions include:
    * `Raised`, `Versioned`
    * `Target`, `Request.pin`
    * `Request.Repeats`

  Key theorems include:
    * `Outcome.versioned`
    * `Effect.pins`
    * `Request.mismatches`, `Request.repeats`
    * `optimistic_versions`
-/

------------------------------------------------------------
-- Tables with Versions
------------------------------------------------------------

namespace PigBook

open ReadCommitted

/- The row is as it was, or has its next version. -/
def Raised
    {ρ : Type}
    (id : ρ → Uuid)
    (version : ρ → ℕ)
    (r r' : ρ) : Prop :=
  r' = r ∨ (id r' = id r ∧ version r' = version r + 1)

theorem Raised.refl
    {ρ : Type}
    {id : ρ → Uuid}
    {version : ρ → ℕ}
    (r : ρ) :
    Raised id version r r :=
  Or.inl rfl

/-
  Rows keep their places, each changed row has its next
  version, and new rows begin with version 1.
-/
structure Versioned (s s' : Cell) : Prop where
  bookings :
    ReadCommitted.Grows
      (Raised Booking.id Booking.version)
      (·.version = 1) s.bookings s'.bookings
  entries :
    ReadCommitted.Grows
      (Raised WaitlistEntry.id WaitlistEntry.version)
      (·.version = 1) s.entries s'.entries
  resource :
    s'.resource = s.resource ∨
      ∃ r r', s.resource = some r ∧ s'.resource = some r' ∧
        r'.version = r.version + 1

theorem Versioned.refl (s : Cell) : Versioned s s where
  bookings := .refl Raised.refl _
  entries := .refl Raised.refl _
  resource := Or.inl rfl

/- Rows that stay, with rows that are new behind them. -/
theorem grows_append
    {ρ : Type}
    {id : ρ → Uuid}
    {version : ρ → ℕ}
    {rows : List ρ}
    {row : ρ}
    (hNew : version row = 1) :
    ReadCommitted.Grows (Raised id version) (version · = 1)
      rows (rows ++ [row]) := by
  apply Grows.of_forall₂
  · exact List.forall₂_same.mpr (fun _ _ => Or.inl rfl)
  · intro r hMem
    rw [List.mem_singleton.mp hMem]
    exact hNew

/- Rows that an update changes, with no new ones. -/
theorem grows_updateWhere
    {ρ : Type}
    {kept : ρ → ρ → Prop}
    {new : ρ → Prop}
    {p : ρ → Bool}
    {f : ρ → ρ}
    {rows : List ρ}
    (hRefl : ∀ r, kept r r)
    (hKept : ∀ r ∈ rows, p r = true → kept r (f r)) :
    ReadCommitted.Grows kept new rows
      (updateWhere p f rows) := by
  have hNone : ∀ r ∈ ([] : List ρ), new r := by
    intro r hMem
    cases hMem
  have hGrows := Grows.of_updateWhere hRefl hKept hNone
  rw [List.append_nil] at hGrows
  exact hGrows

end PigBook

------------------------------------------------------------
-- One Change of a Row at a Time
------------------------------------------------------------

namespace PigBook

open ReadCommitted

variable {rid : Uuid} {log : List (Action inventory)}
variable {s s' : Cell}

/- An entry of a hold ends its membership. -/
def WaitlistEntry.Ends (e e' : WaitlistEntry) : Prop :=
  e' = e ∨
    (e'.id = e.id ∧ e'.version = e.version + 1 ∧
      e.status = .offered ∧ e'.status.active = false)

/- A waiting entry is offered its window, or expires. -/
def WaitlistEntry.Leaves (e e' : WaitlistEntry) : Prop :=
  e' = e ∨
    (e'.id = e.id ∧ e'.version = e.version + 1 ∧
      e.status = .waiting ∧ e'.status ≠ .waiting)

/- The booking is as it was. -/
def Booking.Stays (b b' : Booking) : Prop :=
  b' = b

/- A booking frees its window. -/
def Booking.Ends (b b' : Booking) : Prop :=
  b' = b ∨
    (b'.id = b.id ∧ b'.version = b.version + 1 ∧
      b.status.active = true ∧ b'.status.active = false)

theorem WaitlistEntry.Ends.refl (e : WaitlistEntry) :
    e.Ends e :=
  Or.inl rfl

theorem WaitlistEntry.Leaves.refl (e : WaitlistEntry) :
    e.Leaves e :=
  Or.inl rfl

theorem Booking.Stays.refl (b : Booking) :
    b.Stays b :=
  Eq.refl b

theorem Booking.Ends.refl (b : Booking) :
    b.Ends b :=
  Or.inl rfl

theorem WaitlistEntry.Ends.trans
    {e e' e'' : WaitlistEntry}
    (hFirst : e.Ends e')
    (hSecond : e'.Ends e'') :
    e.Ends e'' := by
  rcases hFirst with rfl | ⟨hId, hVersion, hWas, hIs⟩
  · exact hSecond
  · rcases hSecond with rfl | ⟨-, -, hOffered, -⟩
    · exact Or.inr ⟨hId, hVersion, hWas, hIs⟩
    · rw [hOffered] at hIs
      cases hIs

theorem WaitlistEntry.Leaves.trans
    {e e' e'' : WaitlistEntry}
    (hFirst : e.Leaves e')
    (hSecond : e'.Leaves e'') :
    e.Leaves e'' := by
  rcases hFirst with rfl | ⟨hId, hVersion, hWas, hIs⟩
  · exact hSecond
  · rcases hSecond with rfl | ⟨-, -, hWaiting, -⟩
    · exact Or.inr ⟨hId, hVersion, hWas, hIs⟩
    · exact absurd hWaiting hIs

theorem Booking.Ends.trans
    {b b' b'' : Booking}
    (hFirst : b.Ends b')
    (hSecond : b'.Ends b'') :
    b.Ends b'' := by
  rcases hFirst with rfl | ⟨hId, hVersion, hWas, hIs⟩
  · exact hSecond
  · rcases hSecond with rfl | ⟨-, -, hActive, -⟩
    · exact Or.inr ⟨hId, hVersion, hWas, hIs⟩
    · rw [hIs] at hActive
      cases hActive

theorem Booking.Ends.raised
    {b b' : Booking}
    (hEnds : b.Ends b') :
    Raised Booking.id Booking.version b b' :=
  hEnds.imp_right (fun h => ⟨h.1, h.2.1⟩)

/- An entry that ended has no place in the queue to leave. -/
theorem WaitlistEntry.Ends.leaves
    {e e' e'' : WaitlistEntry}
    (hEnds : e.Ends e')
    (hLeaves : e'.Leaves e'') :
    Raised WaitlistEntry.id WaitlistEntry.version e e'' := by
  rcases hEnds with rfl | ⟨hId, hVersion, -, hIs⟩
  · exact hLeaves.imp_right (fun h => ⟨h.1, h.2.1⟩)
  · rcases hLeaves with rfl | ⟨-, -, hWaiting, -⟩
    · exact Or.inr ⟨hId, hVersion⟩
    · rw [hWaiting] at hIs
      cases hIs

/- The update of one booking that the cell has. -/
theorem Cell.Valid.grows_booking
    (hCell : s.Valid)
    {b : Booking}
    (hRow : b ∈ s.bookings)
    {f : Booking → Booking}
    {kept : Booking → Booking → Prop}
    {new : Booking → Prop}
    (hRefl : ∀ x, kept x x)
    (hKept : kept b (f b)) :
    ReadCommitted.Grows kept new s.bookings
      (updateWhere b.current f s.bookings) := by
  apply grows_updateWhere hRefl
  intro x hx hCase
  have hId :=
    (Booking.current_iff hCell.bookings.ids hRow x hx).mp
      hCase
  rw [hCell.bookings.ids.eq_of_key hx hRow hId]
  exact hKept

theorem Cell.Valid.grows_entry
    (hCell : s.Valid)
    {e : WaitlistEntry}
    (hRow : e ∈ s.entries)
    {f : WaitlistEntry → WaitlistEntry}
    {kept : WaitlistEntry → WaitlistEntry → Prop}
    {new : WaitlistEntry → Prop}
    (hRefl : ∀ x, kept x x)
    (hKept : kept e (f e)) :
    ReadCommitted.Grows kept new s.entries
      (updateWhere e.current f s.entries) := by
  apply grows_updateWhere hRefl
  intro x hx hCase
  have hId :=
    (WaitlistEntry.current_iff hCell.entries.ids hRow x
      hx).mp hCase
  rw [hCell.entries.ids.eq_of_key hx hRow hId]
  exact hKept

theorem Hold.activeB
    {e : WaitlistEntry}
    {b : Booking}
    (hHold : Hold s e b) :
    b.status.active = true := by
  rw [hHold.holds.offered]
  rfl

/- Overdue holds expire, each with its entry. -/
theorem expiries_grow
    (hCell : s.Consistent)
    (hExpiries :
      Relation.ReflTransGen (Expiry rid log) s s') :
    ReadCommitted.Grows Booking.Ends (fun _ => False)
        s.bookings s'.bookings ∧
      ReadCommitted.Grows WaitlistEntry.Ends
        (fun _ => False) s.entries s'.entries ∧
      s'.resource = s.resource := by
  induction hExpiries with
  | refl =>
      exact
        ⟨.refl Booking.Ends.refl _,
          .refl WaitlistEntry.Ends.refl _, rfl⟩
  | @tail t u hBefore hExpiry ih =>
      rcases ih with ⟨hBookings, hEntries, hResource⟩
      have hMiddle :=
        (Release.expire hBefore).consistent hCell
      cases hExpiry with
      | @intro e b now id hHold hSampled hLate =>
          refine ⟨?_, ?_, hResource⟩
          · refine hBookings.trans
              (fun h h' => Booking.Ends.trans h h')
              (fun _ h => h) ?_
            apply hMiddle.grows_booking hHold.rowB
              Booking.Ends.refl
            exact
              Or.inr ⟨rfl, rfl, hHold.activeB, rfl⟩
          · refine hEntries.trans
              (fun h h' => WaitlistEntry.Ends.trans h h')
              (fun _ h => h) ?_
            apply hMiddle.grows_entry hHold.row
              WaitlistEntry.Ends.refl
            exact Or.inr ⟨rfl, rfl, hHold.status, rfl⟩

/- What a release does before the promotion. -/
theorem Release.grow
    (hCell : s.Consistent)
    (hRelease : Release rid log s s') :
    ReadCommitted.Grows Booking.Ends (fun _ => False)
        s.bookings s'.bookings ∧
      ReadCommitted.Grows WaitlistEntry.Ends
        (fun _ => False) s.entries s'.entries ∧
      s'.resource = s.resource := by
  have hStays :
      ReadCommitted.Grows WaitlistEntry.Ends
        (fun _ => False) s.entries s.entries :=
    .refl WaitlistEntry.Ends.refl _
  cases hRelease with
  | expire hExpiries => exact expiries_grow hCell hExpiries
  | decline hHold | cancelHold hHold hCheck =>
      refine
        ⟨hCell.grows_booking hHold.rowB Booking.Ends.refl
            (Or.inr ⟨rfl, rfl, hHold.activeB, rfl⟩),
          hCell.grows_entry hHold.row WaitlistEntry.Ends.refl
            (Or.inr ⟨rfl, rfl, hHold.status, rfl⟩), rfl⟩
  | cancelConfirmed hRow hKind hStatus hCheck =>
      exact
        ⟨hCell.grows_booking hRow Booking.Ends.refl
            (Or.inr ⟨rfl, rfl, by rw [hStatus]; rfl, rfl⟩),
          hStays, rfl⟩
  | cancelBlackout hRow hKind hStatus =>
      exact
        ⟨hCell.grows_booking hRow Booking.Ends.refl
            (Or.inr ⟨rfl, rfl, by rw [hStatus]; rfl, rfl⟩),
          hStays, rfl⟩

/- What the promotion does. -/
theorem promoteFold_grow
    (hCell : s.Valid)
    {vs : List (WaitlistEntry × Sample)}
    (hVisits : Visits rid s vs) :
    ReadCommitted.Grows Booking.Stays
        (·.version = 1) s.bookings
        (promoteFold rid s vs).bookings ∧
      ReadCommitted.Grows WaitlistEntry.Leaves
        (fun _ => False) s.entries
        (promoteFold rid s vs).entries ∧
      (promoteFold rid s vs).resource = s.resource := by
  induction vs generalizing s with
  | nil =>
      exact
        ⟨.refl Booking.Stays.refl _,
          .refl WaitlistEntry.Leaves.refl _, rfl⟩
  | cons v vs ih =>
      rcases ih (hVisits.1.valid hCell) hVisits.2 with
        ⟨hBookings, hEntries, hResource⟩
      have hRow := hVisits.1.row
      have hWaiting := hVisits.1.waiting
      have hStep :
          ReadCommitted.Grows Booking.Stays
              (·.version = 1) s.bookings
              (promoteStep rid s v).bookings ∧
            ReadCommitted.Grows WaitlistEntry.Leaves
              (fun _ => False) s.entries
              (promoteStep rid s v).entries ∧
            (promoteStep rid s v).resource = s.resource := by
        unfold promoteStep
        split
        · refine ⟨.refl Booking.Stays.refl _, ?_, rfl⟩
          apply hCell.grows_entry hRow
            WaitlistEntry.Leaves.refl
          exact
            Or.inr ⟨rfl, rfl, hWaiting,
              by simp [WaitlistEntry.transition]⟩
        · split
          · exact
              ⟨.refl Booking.Stays.refl _,
                .refl WaitlistEntry.Leaves.refl _, rfl⟩
          · refine ⟨?_, ?_, rfl⟩
            · apply Grows.of_forall₂
              · exact List.forall₂_same.mpr
                  (fun b _ => Booking.Stays.refl b)
              · intro b hNew
                rw [List.mem_singleton.mp hNew]
                rfl
            · apply hCell.grows_entry hRow
                WaitlistEntry.Leaves.refl
              exact
                Or.inr ⟨rfl, rfl, hWaiting,
                  by simp [WaitlistEntry.offer]⟩
      rw [promoteFold_cons]
      refine ⟨?_, ?_, hResource.trans hStep.2.2⟩
      · exact
          hStep.1.comp hBookings
            (fun h h' => Eq.trans h' h)
            (fun h hNew => by
              rw [Booking.Stays] at h
              rw [h]
              exact hNew)
            (fun hNew => hNew)
      · exact
          hStep.2.1.trans
            (fun h h' => WaitlistEntry.Leaves.trans h h')
            (fun _ h => h) hEntries

theorem Gain.versioned
    (hCell : s.Consistent)
    (hGain : Gain rid log s s') :
    Versioned s s' := by
  have hStart := Versioned.refl s
  cases hGain with
  | reserve hResource hActive hNew hKind hStatus hVersion
  | blackout hResource hActive hNew hKind hStatus
      hVersion =>
      exact
        ⟨grows_append hVersion, hStart.entries, Or.inl rfl⟩
  | enqueue hResource hActive hNew hStatus hLink hVersion =>
      exact
        ⟨hStart.bookings, grows_append hVersion, Or.inl rfl⟩
  | withdraw hRow hWaiting =>
      exact
        ⟨hStart.bookings,
          hCell.grows_entry hRow Raised.refl
            (Or.inr ⟨rfl, rfl⟩),
          Or.inl rfl⟩
  | accept hHold hSampled hEarly =>
      exact
        ⟨hCell.grows_booking hHold.rowB Raised.refl
            (Or.inr ⟨rfl, rfl⟩),
          hCell.grows_entry hHold.row Raised.refl
            (Or.inr ⟨rfl, rfl⟩),
          Or.inl rfl⟩
  | patch hResource hVersion hSampled hUnused =>
      exact
        ⟨hStart.bookings, hStart.entries,
          Or.inr ⟨_, _, hResource, rfl, hVersion⟩⟩

/- Whatever a request does, each change raises a version. -/
theorem Outcome.versioned
    (hCell : s.Consistent)
    (hOutcome : Outcome rid log s s') :
    Versioned s s' := by
  cases hOutcome with
  | quiet => exact .refl s
  | gain hGain => exact hGain.versioned hCell
  | release hPromoted =>
      cases hPromoted with
      | intro hDone hLength hVisits hAsked =>
          rcases hDone.grow hCell with
            ⟨hBookings, hEntries, hResource⟩
          rcases
            promoteFold_grow (hDone.consistent hCell).toValid
              hVisits with
            ⟨hBookings', hEntries', hResource'⟩
          refine
            ⟨?_, ?_, Or.inl (hResource'.trans hResource)⟩
          · exact
              hBookings.comp hBookings'
                (fun h h' => by
                  rw [Booking.Stays] at h'
                  rw [h']
                  exact h.raised)
                (fun _ h => False.elim h) (fun hNew => hNew)
          · exact
              hEntries.comp hEntries'
                (fun h h' => WaitlistEntry.Ends.leaves h h')
                (fun _ h => False.elim h) False.elim

end PigBook

------------------------------------------------------------
-- Pinned Requests
------------------------------------------------------------

namespace PigBook

open ReadCommitted

/- A row that a request names. -/
inductive Target
  | resource
  | booking (bookingId : Uuid)
  | entry (entryId : Uuid)
deriving DecidableEq

/- The cell has the row at the version. -/
def Target.At (s : Cell) (version : ℕ) : Target → Prop
| resource => ∃ r, s.resource = some r ∧ r.version = version
| booking bookingId =>
    ∃ b ∈ s.bookings, b.id = bookingId ∧ b.version = version
| entry entryId =>
    ∃ e ∈ s.entries, e.id = entryId ∧ e.version = version

/- The row and the version that a request is pinned to. -/
def Request.pin : Request → Option (Target × ℕ)
| cancelBooking _ bookingId expectedVersion _ =>
    some (.booking bookingId, expectedVersion)
| cancelBlackout _ blackoutId expectedVersion =>
    some (.booking blackoutId, expectedVersion)
| acceptOffer _ entryId expectedVersion =>
    some (.entry entryId, expectedVersion)
| declineEntry _ entryId expectedVersion =>
    some (.entry entryId, expectedVersion)
| updateResource _ expectedVersion _ =>
    some (.resource, expectedVersion)
| archiveResource _ expectedVersion =>
    some (.resource, expectedVersion)
| createBooking _ _ _ => none
| createBlackout _ _ _ => none
| joinWaitlist _ _ _ => none
| expireAndPromote => none

variable {rid : Uuid} {log : List (Action inventory)}
variable {s s' : Cell}
variable {target : Target} {v v' : ℕ}

/- A row has one version at a time. -/
theorem Target.At.unique
    (hCell : s.Valid)
    (hAt : target.At s v)
    (hAt' : target.At s v') :
    v = v' := by
  cases target with
  | resource =>
      rcases hAt with ⟨r, hResource, rfl⟩
      rcases hAt' with ⟨r', hResource', rfl⟩
      rw [hResource] at hResource'
      cases hResource'
      rfl
  | booking bookingId =>
      rcases hAt with ⟨b, hRow, hId, rfl⟩
      rcases hAt' with ⟨b', hRow', hId', rfl⟩
      rw [hCell.bookings.ids.eq_of_key hRow hRow'
        (hId.trans hId'.symm)]
  | entry entryId =>
      rcases hAt with ⟨e, hRow, hId, rfl⟩
      rcases hAt' with ⟨e', hRow', hId', rfl⟩
      rw [hCell.entries.ids.eq_of_key hRow hRow'
        (hId.trans hId'.symm)]

theorem Raised.version_le
    {ρ : Type}
    {id : ρ → Uuid}
    {version : ρ → ℕ}
    {r r' : ρ}
    (hRaised : Raised id version r r') :
    id r' = id r ∧ version r ≤ version r' := by
  rcases hRaised with rfl | ⟨hId, hVersion⟩
  · exact ⟨rfl, le_refl _⟩
  · refine ⟨hId, ?_⟩
    omega

/- No version is taken back. -/
theorem Target.At.later
    (hVersioned : Versioned s s')
    (hAt : target.At s v) :
    ∃ v', target.At s' v' ∧ v ≤ v' := by
  cases target with
  | resource =>
      rcases hAt with ⟨r, hResource, rfl⟩
      rcases hVersioned.resource with
        hSame | ⟨r₀, r', hResource₀, hResource', hVersion⟩
      · exact
          ⟨r.version, ⟨r, hSame.trans hResource, rfl⟩,
            le_refl _⟩
      · rw [hResource] at hResource₀
        cases hResource₀
        refine ⟨r'.version, ⟨r', hResource', rfl⟩, ?_⟩
        omega
  | booking bookingId =>
      rcases hAt with ⟨b, hRow, hId, rfl⟩
      rcases hVersioned.bookings.later hRow with
        ⟨b', hRow', hRaised⟩
      rcases hRaised.version_le with ⟨hId', hLe⟩
      exact
        ⟨b'.version, ⟨b', hRow', hId'.trans hId, rfl⟩, hLe⟩
  | entry entryId =>
      rcases hAt with ⟨e, hRow, hId, rfl⟩
      rcases hVersioned.entries.later hRow with
        ⟨e', hRow', hRaised⟩
      rcases hRaised.version_le with ⟨hId', hLe⟩
      exact
        ⟨e'.version, ⟨e', hRow', hId'.trans hId, rfl⟩, hLe⟩

/- The promotion leaves a row alone that does not wait. -/
theorem promoteFold_at_booking
    {vs : List (WaitlistEntry × Sample)}
    {bookingId : Uuid}
    (hAt : (Target.booking bookingId).At s v) :
    (Target.booking bookingId).At
      (promoteFold rid s vs) v := by
  rcases hAt with ⟨b, hRow, hId, hVersion⟩
  exact ⟨b, promoteFold_keeps hRow, hId, hVersion⟩

theorem promoteFold_at_entry
    (hCell : s.Valid)
    {vs : List (WaitlistEntry × Sample)}
    (hVisits : Visits rid s vs)
    {e : WaitlistEntry}
    (hRow : e ∈ s.entries)
    (hGone : e.status ≠ .waiting) :
    e ∈ (promoteFold rid s vs).entries := by
  rcases (promoteFold_grow hCell hVisits).2.1.later hRow with
    ⟨e', hRow', rfl | ⟨-, -, hWaiting, -⟩⟩
  · exact hRow'
  · exact absurd hWaiting hGone

/- The entry of a closed hold, after the promotion. -/
theorem Hold.closed_at
    (hCell : s.Consistent)
    {e : WaitlistEntry}
    {b : Booking}
    (hHold : Hold s e b)
    {f : Booking → Booking}
    {status : EntryStatus}
    {now : ℤ}
    (hStatus : status ≠ .waiting)
    {t : Cell}
    (hEntries :
      t.entries = (s.close e b f status now).entries)
    (hValid : t.Valid)
    {vs : List (WaitlistEntry × Sample)}
    (hVisits : Visits rid t vs) :
    (Target.entry e.id).At (promoteFold rid t vs)
      (e.version + 1) := by
  refine ⟨e.transition status now, ?_, rfl, rfl⟩
  refine promoteFold_at_entry hValid hVisits ?_ hStatus
  rw [hEntries]
  exact
    (hCell.mem_setEntry hHold.row).mpr (Or.inl rfl)

/- The cancelled booking, after the promotion. -/
theorem Cancellation.at_booking
    (hCell : s.Consistent)
    {b : Booking}
    (hRow : b ∈ s.bookings)
    {reason : String}
    (hCancellation : Cancellation rid b reason s s') :
    (Target.booking b.id).At s' (b.version + 1) := by
  cases hCancellation with
  | @hold e now id as hHold hCheck =>
      exact
        ⟨b.cancel reason now,
          (hCell.mem_setBooking hRow).mpr (Or.inl rfl), rfl,
          rfl⟩
  | @confirmed now id as hStatus hCheck =>
      exact
        ⟨b.cancel reason now,
          (hCell.mem_setBooking hRow).mpr (Or.inl rfl), rfl,
          rfl⟩

/-
  A pinned request changes nothing, or it finds its row at
  the version that it names and leaves the next version.
-/
theorem Effect.pins
    (hCell : s.Consistent)
    {request : Request}
    (hEffect : Effect rid log s request s')
    (hPin : request.pin = some (target, v)) :
    s' = s ∨ (target.At s v ∧ target.At s' (v + 1)) := by
  cases hEffect with
  | notBooked | notBlocked | alreadyCancelled
  | alreadyUnblocked | alreadyWithdrawn | skipped =>
      exact Or.inl rfl
  | booked | blocked | joined | expired => cases hPin
  | @cancelled scope b reason s' hRow hKind hPromoted =>
      cases hPin
      refine Or.inr ⟨⟨b, hRow, rfl, rfl⟩, ?_⟩
      cases hPromoted with
      | intro hDone hLength hVisits hAsked =>
          exact
            promoteFold_at_booking
              (hDone.at_booking hCell hRow)
  | @unblocked scope b s' hRow hKind hStatus hPromoted =>
      cases hPin
      refine Or.inr ⟨⟨b, hRow, rfl, rfl⟩, ?_⟩
      cases hPromoted with
      | intro hDone hLength hVisits hAsked =>
          rcases hDone with ⟨now, a, rfl⟩
          exact
            promoteFold_at_booking
              ⟨_, (hCell.mem_setBooking hRow).mpr
                (Or.inl rfl), rfl, rfl⟩
  | @accepted scope e b now id hHold hSampled hEarly =>
      cases hPin
      refine
        Or.inr ⟨⟨e, hHold.row, rfl, rfl⟩,
          e.transition .accepted now, ?_, rfl, rfl⟩
      exact (hCell.mem_setEntry hHold.row).mpr (Or.inl rfl)
  | @tooLate scope e b now id s' hHold hSampled hLate
      hPromoted =>
      cases hPin
      refine Or.inr ⟨⟨e, hHold.row, rfl, rfl⟩, ?_⟩
      cases hPromoted with
      | intro hDone hLength hVisits hAsked =>
          have hExpiry :
              Expiry rid log s (s.afterExpiry rid e b now id) :=
            .intro hHold (hSampled.mono (by simp)) hLate
          have hValid := (hExpiry.consistent hCell).toValid
          subst hDone
          exact
            hHold.closed_at (t := s.afterExpiry rid e b now id)
              hCell
              (show EntryStatus.expired ≠ .waiting by decide)
              rfl hValid hVisits
  | @withdrawn scope e now hRow hWaiting =>
      cases hPin
      refine
        Or.inr ⟨⟨e, hRow, rfl, rfl⟩,
          e.transition .cancelled now, ?_, rfl, rfl⟩
      exact (hCell.mem_setEntry hRow).mpr (Or.inl rfl)
  | @declined scope e b s' hHold hPromoted =>
      cases hPin
      refine Or.inr ⟨⟨e, hHold.row, rfl, rfl⟩, ?_⟩
      cases hPromoted with
      | intro hDone hLength hVisits hAsked =>
          have hRelease : Release rid log s _ :=
            hDone.release hHold
          have hValid := (hRelease.consistent hCell).toValid
          rcases hDone with ⟨now, rfl⟩
          exact
            hHold.closed_at hCell
              (show EntryStatus.cancelled ≠ .waiting by
                decide)
              rfl hValid hVisits
  | patched hResource hSampled hUnused =>
      cases hPin
      exact
        Or.inr ⟨⟨_, hResource, rfl⟩, ⟨_, rfl, rfl⟩⟩
  | archived hResource hSampled hUnused =>
      cases hPin
      exact
        Or.inr ⟨⟨_, hResource, rfl⟩, ⟨_, rfl, rfl⟩⟩

end PigBook

------------------------------------------------------------
-- Answers of Pinned Requests
------------------------------------------------------------

namespace PigBook

open ReadCommitted

/- The request locks its row, which has the version. -/
def Request.Locks (s : Cell) (version : ℕ) : Request → Prop
| cancelBooking scope bookingId _ _ =>
    ∃ b ∈ s.bookings,
      scope.selectsBooking bookingId b = true ∧
        b.version = version
| cancelBlackout _ blackoutId _ =>
    ∃ b ∈ s.bookings,
      (b.id = blackoutId ∧ b.kind = .blackout) ∧
        b.version = version
| acceptOffer scope entryId _ =>
    ∃ e ∈ s.entries,
      scope.selectsEntry entryId e = true ∧
        e.version = version
| declineEntry scope entryId _ =>
    ∃ e ∈ s.entries,
      scope.selectsEntry entryId e = true ∧
        e.version = version
| updateResource _ _ _ =>
    ∃ r, s.resource = some r ∧ r.version = version
| archiveResource _ _ =>
    ∃ r, s.resource = some r ∧ r.version = version
| createBooking _ _ _ => False
| createBlackout _ _ _ => False
| joinWaitlist _ _ _ => False
| expireAndPromote => False

/-
  The request cancels, at its current version, a row that is
  cancelled already; the answer shows the row.
-/
def Request.Repeats
    (rid : Uuid)
    (s : Cell)
    (reply : Reply) : Request → Prop
| cancelBooking scope bookingId expectedVersion _ =>
    ∃ b ∈ s.bookings,
      scope.selectsBooking bookingId b = true ∧
        b.version = expectedVersion ∧
        b.status = .cancelled ∧
        reply = .booking (b.schema rid)
| cancelBlackout _ blackoutId expectedVersion =>
    ∃ b ∈ s.bookings,
      (b.id = blackoutId ∧ b.kind = .blackout) ∧
        b.version = expectedVersion ∧
        b.status = .cancelled ∧
        reply = .booking (b.schema rid)
| declineEntry scope entryId expectedVersion =>
    ∃ e ∈ s.entries,
      scope.selectsEntry entryId e = true ∧
        e.version = expectedVersion ∧
        e.status = .cancelled ∧
        reply = .entry (e.schema rid)
| _ => False

/- The error of a request whose version is out of date. -/
def IsMismatch (_ : List (Action inventory)) (e : Error) :
    Prop :=
  ∃ message, e = .versionMismatch message

/- No error at all. -/
def noError (_ : List (Action inventory)) (_ : Error) :
    Prop :=
  False

variable {rid : Uuid} {s : Cell}

/- The one row of a table that a selection by key meets. -/
theorem filter_selected
    {ρ κ : Type}
    {key : ρ → κ}
    {rows : List ρ}
    (hKeyed : Keyed key rows)
    {p : ρ → Bool}
    {r : ρ}
    (hRow : r ∈ rows)
    (hSelected : p r = true)
    (hKey : ∀ x, p x = true → key x = key r) :
    rows.filter p = [r] := by
  refine hKeyed.filter_eq_singleton hRow ?_
  intro x hx
  refine ⟨hKey x, ?_⟩
  intro hSame
  rw [hKeyed.eq_of_key hx hRow hSame]
  exact hSelected

theorem Scope.selectsBooking_filter
    (hCell : s.Valid)
    {scope : Scope}
    {bookingId : Uuid}
    {b : Booking}
    (hRow : b ∈ s.bookings)
    (hSelected : scope.selectsBooking bookingId b = true) :
    s.bookings.filter (scope.selectsBooking bookingId) =
      [b] := by
  refine
    filter_selected hCell.bookings.ids hRow hSelected ?_
  intro x hx
  exact
    (of_decide_eq_true hx).1.trans
      (of_decide_eq_true hSelected).1.symm

theorem selectsBlackout_filter
    (hCell : s.Valid)
    {blackoutId : Uuid}
    {b : Booking}
    (hRow : b ∈ s.bookings)
    (hSelected : b.id = blackoutId ∧ b.kind = .blackout) :
    s.bookings.filter (fun x =>
      x.id = blackoutId ∧ x.kind = .blackout) = [b] := by
  refine
    filter_selected hCell.bookings.ids hRow
      (decide_eq_true hSelected) ?_
  intro x hx
  exact (of_decide_eq_true hx).1.trans hSelected.1.symm

theorem Scope.selectsEntry_filter
    (hCell : s.Valid)
    {scope : Scope}
    {entryId : Uuid}
    {e : WaitlistEntry}
    (hRow : e ∈ s.entries)
    (hSelected : scope.selectsEntry entryId e = true) :
    s.entries.filter (scope.selectsEntry entryId) = [e] := by
  refine filter_selected hCell.entries.ids hRow hSelected ?_
  intro x hx
  exact
    (of_decide_eq_true hx).1.trans
      (of_decide_eq_true hSelected).1.symm

/-
  A request that finds another version fails for that reason,
  whatever the state of the row and the time are.
-/
theorem Request.mismatches
    (hCell : s.Valid)
    {request : Request}
    {target : Target}
    {expectedVersion version : ℕ}
    (hPin : request.pin = some (target, expectedVersion))
    (hLocks : request.Locks s version)
    (hStale : version ≠ expectedVersion) :
    (request.program rid).wp (fun _ _ _ => False)
      IsMismatch [] s := by
  cases request with
  | createBooking | createBlackout | joinWaitlist
  | expireAndPromote =>
      cases hPin
  | cancelBooking scope bookingId expected reason =>
      cases hPin
      rcases hLocks with ⟨b, hRow, hSelected, rfl⟩
      simp only [program, PigBook.cancelBooking, Prog.bind_eq,
        Prog.wp_bind, wp_selectResourceForUpdate,
        wp_selectBookingsForUpdate,
        Scope.selectsBooking_filter hCell hRow hSelected,
        scalarOneOrNone, Prog.wp_done, wp_clockTimestamp,
        if_pos hStale]
      exact fun _ => ⟨_, rfl⟩
  | cancelBlackout scope blackoutId expected =>
      cases hPin
      rcases hLocks with ⟨b, hRow, hSelected, rfl⟩
      simp only [program, PigBook.cancelBlackout,
        Prog.bind_eq, Prog.wp_bind,
        wp_selectResourceForUpdate,
        wp_selectBookingsForUpdate,
        selectsBlackout_filter hCell hRow hSelected,
        scalarOneOrNone, Prog.wp_done, wp_clockTimestamp,
        if_pos hStale]
      exact fun _ => ⟨_, rfl⟩
  | acceptOffer scope entryId expected =>
      cases hPin
      rcases hLocks with ⟨e, hRow, hSelected, rfl⟩
      simp only [program, PigBook.acceptOffer, Prog.bind_eq,
        Prog.wp_bind, wp_selectResourceForUpdate,
        wp_selectEntriesForUpdate,
        Scope.selectsEntry_filter hCell hRow hSelected,
        scalarOneOrNone, Prog.wp_done, if_pos hStale]
      exact ⟨_, rfl⟩
  | declineEntry scope entryId expected =>
      cases hPin
      rcases hLocks with ⟨e, hRow, hSelected, rfl⟩
      simp only [program, PigBook.declineEntry, Prog.bind_eq,
        Prog.wp_bind, wp_selectResourceForUpdate,
        wp_selectEntriesForUpdate,
        Scope.selectsEntry_filter hCell hRow hSelected,
        scalarOneOrNone, Prog.wp_done, if_pos hStale]
      exact ⟨_, rfl⟩
  | updateResource scope expected patch =>
      cases hPin
      rcases hLocks with ⟨r, hResource, rfl⟩
      simp only [program, PigBook.updateResource,
        Prog.bind_eq, Prog.wp_bind,
        wp_selectResourceForUpdate, hResource,
        if_pos hStale]
      exact ⟨_, rfl⟩
  | archiveResource scope expected =>
      cases hPin
      rcases hLocks with ⟨r, hResource, rfl⟩
      simp only [program, PigBook.archiveResource,
        Prog.bind_eq, Prog.wp_bind,
        wp_selectResourceForUpdate, hResource,
        if_pos hStale]
      exact ⟨_, rfl⟩

/- A repeated cancellation succeeds and changes nothing. -/
theorem Request.repeats
    (hCell : s.Valid)
    {request : Request}
    {reply : Reply}
    (hRepeats : request.Repeats rid s reply) :
    (request.program rid).wp
      (fun _ s' answer => s' = s ∧ answer = reply)
      noError [] s := by
  cases request with
  | createBooking | createBlackout | joinWaitlist
  | expireAndPromote | acceptOffer | updateResource
  | archiveResource =>
      exact hRepeats.elim
  | cancelBooking scope bookingId expected reason =>
      rcases hRepeats with
        ⟨b, hRow, hSelected, rfl, hStatus, rfl⟩
      simp only [program, PigBook.cancelBooking, Prog.bind_eq,
        Prog.wp_bind, wp_selectResourceForUpdate,
        wp_selectBookingsForUpdate,
        Scope.selectsBooking_filter hCell hRow hSelected,
        scalarOneOrNone, Prog.wp_done, wp_clockTimestamp,
        ne_eq, not_true_eq_false, if_false, if_pos hStatus]
      exact fun _ => ⟨rfl, rfl⟩
  | cancelBlackout scope blackoutId expected =>
      rcases hRepeats with
        ⟨b, hRow, hSelected, rfl, hStatus, rfl⟩
      simp only [program, PigBook.cancelBlackout,
        Prog.bind_eq, Prog.wp_bind,
        wp_selectResourceForUpdate,
        wp_selectBookingsForUpdate,
        selectsBlackout_filter hCell hRow hSelected,
        scalarOneOrNone, Prog.wp_done, wp_clockTimestamp,
        ne_eq, not_true_eq_false, if_false, if_pos hStatus]
      exact fun _ => ⟨rfl, rfl⟩
  | declineEntry scope entryId expected =>
      rcases hRepeats with
        ⟨e, hRow, hSelected, rfl, hStatus, rfl⟩
      simp only [program, PigBook.declineEntry, Prog.bind_eq,
        Prog.wp_bind, wp_selectResourceForUpdate,
        wp_selectEntriesForUpdate,
        Scope.selectsEntry_filter hCell hRow hSelected,
        scalarOneOrNone, Prog.wp_done,
        ne_eq, not_true_eq_false, if_false, if_pos hStatus]
      exact ⟨rfl, rfl⟩

end PigBook

------------------------------------------------------------
-- Versions over Whole Runs
------------------------------------------------------------

namespace PigBook

open ReadCommitted

variable {c : InventoryCommit} {rid : Uuid}
variable {target : Target} {v : ℕ}

/-
  A request that is pinned to the version of the row has
  committed a change.
-/
def ChangesPinned
    (rid : Uuid)
    (target : Target)
    (v : ℕ)
    (c : InventoryCommit) : Prop :=
  (∃ request, CommitOf c rid request ∧
    request.pin = some (target, v)) ∧
    c.after ≠ c.before

theorem CommitOf.eq_of_same
    {request : Request}
    (hCommit : CommitOf c rid request)
    (hSame : c.after rid = c.before rid) :
    c.after = c.before := by
  funext i
  by_cases hCase : i = rid
  · rw [hCase]
    exact hSame
  · exact hCommit.other i hCase

/- A pinned change takes its row to the next version. -/
theorem ChangesPinned.raises
    (hEffective : Effective c)
    (hChanges : ChangesPinned rid target v c) :
    target.At (c.before rid) v ∧
      target.At (c.after rid) (v + 1) := by
  rcases hChanges with ⟨⟨request, hCommit, hPin⟩, hNe⟩
  have hCell := hEffective.consistent rid
  rcases (hCommit.effect hCell).pins hCell hPin with
    hSame | hRaised
  · exact absurd (hCommit.eq_of_same hSame) hNe
  · exact hRaised

/- The row has left the version for good. -/
def Target.Past
    (target : Target)
    (v : ℕ)
    (s : Cell) : Prop :=
  ∃ v', target.At s v' ∧ v < v'

theorem Target.Past.later
    {s s' : Cell}
    (hVersioned : Versioned s s')
    (hPast : target.Past v s) :
    target.Past v s' := by
  rcases hPast with ⟨v', hAt, hLt⟩
  rcases hAt.later hVersioned with ⟨v'', hAt', hLe⟩
  exact ⟨v'', hAt', hLt.trans_le hLe⟩

/- No pinned change meets a version that is past. -/
theorem ChangesPinned.not_past
    (hEffective : Effective c)
    (hChanges : ChangesPinned rid target v c) :
    ¬ target.Past v (c.before rid) := by
  rintro ⟨v', hAt, hLt⟩
  have hSame :=
    hAt.unique (hEffective.consistent rid).toValid
      (hChanges.raises hEffective).1
  omega

/- A request that finds another version commits nothing. -/
theorem CommitOf.not_stale
    {request : Request}
    (hCommit : CommitOf c rid request)
    (hCell : (c.before rid).Valid)
    {expectedVersion version : ℕ}
    (hPin : request.pin = some (target, expectedVersion))
    (hLocks : request.Locks (c.before rid) version) :
    version = expectedVersion := by
  by_contra hStale
  rcases hCommit.runs with ⟨w, reply, run, -, -⟩
  exact
    run.post_of_done
      (Request.mismatches hCell hPin hLocks hStale)

/- A repeated cancellation commits and changes nothing. -/
theorem CommitOf.repeated
    {request : Request}
    (hCommit : CommitOf c rid request)
    (hCell : (c.before rid).Valid)
    {reply : Reply}
    (hRepeats : request.Repeats rid (c.before rid) reply) :
    c.after = c.before ∧ c.answer = some reply := by
  rcases hCommit.runs with ⟨w, answer, run, hAfter, hAnswer⟩
  rcases run.post_of_done (Request.repeats hCell hRepeats)
    with ⟨hSame, rfl⟩
  exact
    ⟨hCommit.eq_of_same (hAfter.trans hSame), hAnswer⟩

/-
  Every commit raises the version of each row that it changes
  by one and begins new rows with version 1.  Of the requests
  that are pinned to one version of one row, one at most has
  committed a change.  A client whose request finds its row
  at another version can only end with the version mismatch,
  and no such request commits.  A client that cancels a row
  again at its current version never fails, answers with the
  row, and changes nothing.
-/
theorem optimistic_versions
    {X : Circumstances}
    {resources : Uuid → Option Resource}
    {env : Surroundings}
    {s : Sys X.world (Uuid → Cell) Reply}
    (hRun : InventoryRun X resources env s) :
    (∀ c ∈ commits s.trace, ∀ rid,
      Versioned (c.before rid) (c.after rid)) ∧
    (∀ rid target v,
      (commits s.trace).Pairwise (fun c c' =>
        ¬ (ChangesPinned rid target v c ∧
          ChangesPinned rid target v c'))) ∧
    (∀ rid request target expectedVersion version,
      request.pin = some (target, expectedVersion) →
      version ≠ expectedVersion →
        (∀ c ∈ commits s.trace, CommitOf c rid request →
          ¬ request.Locks (c.before rid) version) ∧
        ∀ pid pr, s.procs pid = some pr →
          pr.start = (request.program rid).atCell rid →
          request.Locks (s.db rid) version →
            (∀ reply, pr.prog ≠ .done reply) ∧
            ∀ e, pr.prog = .fail e →
              ∃ message, e = .versionMismatch message) ∧
    (∀ rid request reply,
      (∀ c ∈ commits s.trace, CommitOf c rid request →
        request.Repeats rid (c.before rid) reply →
          c.after = c.before ∧ c.answer = some reply) ∧
      ∀ pid pr, s.procs pid = some pr →
        pr.start = (request.program rid).atCell rid →
        request.Repeats rid (s.db rid) reply →
          (∀ e, pr.prog ≠ .fail e) ∧
          ∀ answer, pr.prog = .done answer →
            answer = reply ∧ pr.view s.db = s.db) := by
  have hEffective := hRun.effective
  refine ⟨?_, ?_, ?_, ?_⟩
  · intro c hc rid
    exact
      ((hEffective c hc).outcome rid).versioned
        ((hEffective c hc).consistent rid)
  · intro rid target v
    -- once a pinned change is committed, its version is past
    have hInv :
        (commits s.trace).Pairwise (fun c c' =>
          ¬ (ChangesPinned rid target v c ∧
            ChangesPinned rid target v c')) ∧
        ((∃ c ∈ commits s.trace,
            ChangesPinned rid target v c) →
          target.Past v (s.db rid)) := by
      refine
        hRun.effects
          (fun db hist =>
            hist.Pairwise (fun c c' =>
              ¬ (ChangesPinned rid target v c ∧
                ChangesPinned rid target v c')) ∧
            ((∃ c ∈ hist, ChangesPinned rid target v c) →
              target.Past v (db rid))) ⟨.nil, ?_⟩ ?_
      · rintro ⟨c, hc, -⟩
        cases hc
      · rintro c hist hNow ⟨hOnce, hPast⟩
        refine ⟨List.pairwise_cons.mpr ⟨?_, hOnce⟩, ?_⟩
        · rintro c' hc' ⟨hChanges, hChanges'⟩
          exact
            hChanges.not_past hNow
              (hPast ⟨c', hc', hChanges'⟩)
        · rintro ⟨c', hc', hChanges⟩
          rcases List.mem_cons.mp hc' with rfl | hOld
          · exact
              ⟨v + 1, (hChanges.raises hNow).2,
                Nat.lt_succ_self v⟩
          · exact
              (hPast ⟨c', hOld, hChanges⟩).later
                ((hNow.outcome rid).versioned
                  (hNow.consistent rid))
    exact hInv.1
  · intro rid request target expectedVersion version hPin
      hStale
    refine ⟨?_, ?_⟩
    · intro c hc hCommit hLocks
      exact
        hStale
          (hCommit.not_stale
            ((hEffective c hc).consistent rid).toValid hPin
            hLocks)
    · intro pid pr hProc hStart hLocks
      rcases hRun.running hProc hStart with
        ⟨p', w, hRunning⟩
      have hRule :=
        hRunning.serial.wp_sound
          (Request.mismatches (hRun.consistent rid).toValid
            hPin hLocks hStale)
      rw [hRunning.prog]
      cases p' with
      | done reply => exact hRule.elim
      | fail e =>
          refine ⟨fun reply hProg => (by cases hProg), ?_⟩
          intro e' hProg
          cases hProg
          exact hRule
      | stmt q need write next =>
          exact
            ⟨fun reply hProg => (by cases hProg),
              fun e hProg => (by cases hProg)⟩
      | commit next => exact hRule.elim
      | rollback next => exact hRule.elim
  · intro rid request reply
    refine ⟨?_, ?_⟩
    · intro c hc hCommit hRepeats
      exact
        hCommit.repeated
          ((hEffective c hc).consistent rid).toValid hRepeats
    · intro pid pr hProc hStart hRepeats
      rcases hRun.running hProc hStart with
        ⟨p', w, hRunning⟩
      have hRule :=
        hRunning.serial.wp_sound
          (Request.repeats (hRun.consistent rid).toValid
            hRepeats)
      rw [hRunning.prog]
      cases p' with
      | done answer =>
          refine ⟨fun e hProg => (by cases hProg), ?_⟩
          intro answer' hProg
          cases hProg
          refine ⟨hRule.2, ?_⟩
          rw [Proc.view, hRunning.writes]
          exact onCell_eq_self hRule.1
      | fail e => exact hRule.elim
      | stmt q need write next =>
          exact
            ⟨fun e hProg => (by cases hProg),
              fun answer hProg => (by cases hProg)⟩
      | commit next => exact hRule.elim
      | rollback next => exact hRule.elim

/- The first booking is cancelled once more, as it was. -/
def cancelAgain (expectedVersion : ℕ) : Request :=
  .cancelBooking (.owner 101) 1 expectedVersion ""

/-
  Four requests have changed their rows in turn.  Another
  cancellation fails at the version before the first one; at
  the version after it, the answer shows the row.
-/
theorem optimistic_versions_scenario :
    ((commits (scenario 4).trace).length = 4 ∧
      ∀ c ∈ commits (scenario 4).trace, ∀ rid,
        Versioned (c.before rid) (c.after rid)) ∧
    (∃ pr err message,
      (scenarioWith 4 (cancelAgain 1) 3).procs 0 = some pr ∧
        pr.prog = .fail err ∧
          err = .versionMismatch message) ∧
    ∃ pr reply b,
      (scenarioWith 4 (cancelAgain 2) 3).procs 0 = some pr ∧
        pr.prog = .done reply ∧
        b ∈ ((scenarioWith 4 (cancelAgain 2) 3).db 7).bookings ∧
        reply = .booking (b.schema 7) ∧
        pr.view (scenarioWith 4 (cancelAgain 2) 3).db =
          (scenarioWith 4 (cancelAgain 2) 3).db := by
  have hIdle : ((scenario 4).procs 0).isNone := by
    decide +kernel
  refine ⟨⟨?_, ?_⟩, ?_, ?_⟩
  · decide +kernel
  · exact (optimistic_versions (scenario_run 4)).1
  · have hFails :
        (lastWord (scenarioWith 4 (cancelAgain 1) 3)).any
          Sum.isLeft = true := by
      decide +kernel
    have hLocked :
        ∃ b ∈ ((scenarioWith 4 (cancelAgain 1) 3).db 7).bookings,
          (Scope.owner 101).selectsBooking 1 b = true ∧
            b.version = 2 := by
      decide +kernel
    rcases failing_of_lastWord hFails with
      ⟨pr, err, hProc, hProg, -⟩
    have hStale :=
      (optimistic_versions
        (scenarioWith_run 4 (cancelAgain 1) 3)).2.2.1 7
          (cancelAgain 1) (.booking 1) 1 2 rfl (by decide)
    rcases (hStale.2 0 pr hProc
        (scenarioWith_start 4 _ 3 hIdle hProc) hLocked).2 err
        hProg with
      ⟨message, hMessage⟩
    exact ⟨pr, err, message, hProc, hProg, hMessage⟩
  · have hAnswers :
        (lastWord (scenarioWith 4 (cancelAgain 2) 3)).any
          Sum.isRight = true := by
      decide +kernel
    have hCancelled :
        ∃ b ∈ ((scenarioWith 4 (cancelAgain 2) 3).db 7).bookings,
          (Scope.owner 101).selectsBooking 1 b = true ∧
            b.version = 2 ∧ b.status = .cancelled := by
      decide +kernel
    rcases answering_of_lastWord hAnswers with
      ⟨pr, reply, hProc, hProg, -⟩
    rcases hCancelled with
      ⟨b, hRow, hSelected, hVersion, hStatus⟩
    have hAgain :=
      (optimistic_versions
        (scenarioWith_run 4 (cancelAgain 2) 3)).2.2.2 7
          (cancelAgain 2) (.booking (b.schema 7))
    rcases (hAgain.2 0 pr hProc
        (scenarioWith_start 4 _ 3 hIdle hProc)
        ⟨b, hRow, hSelected, hVersion, hStatus, rfl⟩).2 reply
        hProg with
      ⟨hReply, hSame⟩
    exact
      ⟨pr, reply, b, hProc, hProg, hRow, hReply, hSame⟩

end PigBook
