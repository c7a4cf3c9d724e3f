import PigBook.Inventory.Promotion

/-
  What the tables of a resource satisfy between statements
  that belong together.

  The constraints of the schema are one part.  The other is
  the linkage of holds: an offered entry and an offered
  booking come in pairs.

  Key definitions include:
    * `BookingsOk`, `EntriesOk`
    * `WaitlistEntry.Holds`
    * `Cell.References`
    * `Cell.Consistent`
    * `Cell.Settled`

  Key theorems include:
    * `Cell.Consistent.reserve`, `Cell.Consistent.enqueue`
    * `Cell.Consistent.offer`
    * `Cell.Consistent.closeHold`
    * `Cell.Consistent.cancelConfirmed`
-/

------------------------------------------------------------
-- Constraints of Each Table
------------------------------------------------------------

namespace PigBook

open ReadCommitted

/- The constraints on bookings of one resource. -/
structure BookingsOk (bs : List Booking) : Prop where
  ids : Keyed Booking.id bs
  apart : bs.Pairwise Booking.Apart
  checks : ∀ b ∈ bs, b.Check

/- The constraints on entries of one resource. -/
structure EntriesOk (es : List WaitlistEntry) : Prop where
  ids : Keyed WaitlistEntry.id es
  apart : es.Pairwise WaitlistEntry.Apart
  linkedApart : es.Pairwise WaitlistEntry.LinkedApart
  checks : ∀ e ∈ es, e.Check

theorem Booking.Apart.symm
    {b b' : Booking}
    (hApart : b.Apart b') :
    b'.Apart b :=
  fun hActive' hActive hOverlap =>
    hApart hActive hActive' hOverlap.symm

theorem WaitlistEntry.LinkedApart.symm
    {e e' : WaitlistEntry}
    (hApart : e.LinkedApart e') :
    e'.LinkedApart e := by
  intro hSome hEq
  rw [hEq] at hSome
  exact hApart hSome hEq.symm

/- In a keyed table `current` selects exactly the row. -/
theorem Booking.current_iff
    {bs : List Booking}
    (hIds : Keyed Booking.id bs)
    {b : Booking}
    (hRow : b ∈ bs) :
    ∀ b' ∈ bs, b.current b' = true ↔ b'.id = b.id := by
  intro b' hRow'
  unfold Booking.current
  rw [decide_eq_true_iff]
  constructor
  · exact And.left
  · intro hId
    rw [hIds.eq_of_key hRow' hRow hId]
    exact ⟨rfl, rfl⟩

theorem WaitlistEntry.current_iff
    {es : List WaitlistEntry}
    (hIds : Keyed WaitlistEntry.id es)
    {e : WaitlistEntry}
    (hRow : e ∈ es) :
    ∀ e' ∈ es, e.current e' = true ↔ e'.id = e.id := by
  intro e' hRow'
  unfold WaitlistEntry.current
  rw [decide_eq_true_iff]
  constructor
  · exact And.left
  · intro hId
    rw [hIds.eq_of_key hRow' hRow hId]
    exact ⟨rfl, rfl⟩

/- A new booking whose window is free fits in. -/
theorem BookingsOk.append
    {bs : List Booking}
    (hOk : BookingsOk bs)
    {b : Booking}
    (hFresh : ∀ b' ∈ bs, b'.id ≠ b.id)
    (hFree : ∀ b' ∈ bs, ¬ b'.Occupies b.timeRange)
    (hCheck : b.Check) :
    BookingsOk (bs ++ [b]) where
  ids := hOk.ids.append_singleton hFresh
  apart := by
    refine List.pairwise_append.mpr
      ⟨hOk.apart, by simp, ?_⟩
    intro b' hRow x hx
    rw [List.mem_singleton.mp hx]
    intro hActive _ hOverlap
    exact hFree b' hRow ⟨hActive, hOverlap⟩
  checks := by
    intro x hx
    rcases List.mem_append.mp hx with hOld | hNew
    · exact hOk.checks x hOld
    · rw [List.mem_singleton.mp hNew]
      exact hCheck

/- Status changes that free windows keep the constraints. -/
theorem BookingsOk.update
    {bs : List Booking}
    (hOk : BookingsOk bs)
    {p : Booking → Bool}
    {f : Booking → Booking}
    (hId : ∀ b, (f b).id = b.id)
    (hRange : ∀ b, (f b).timeRange = b.timeRange)
    (hActive :
      ∀ b ∈ bs, p b = true →
        (f b).status.active = true → b.status.active = true)
    (hCheck : ∀ b ∈ bs, p b = true → (f b).Check) :
    BookingsOk (updateWhere p f bs) where
  ids := hOk.ids.updateWhere (fun b _ _ => hId b)
  apart := by
    have hAny :
        ∀ b ∈ bs,
          (if p b then f b else b).timeRange =
              b.timeRange ∧
            ((if p b then f b else b).status.active = true →
              b.status.active = true) := by
      intro b hRow
      by_cases hCase : p b = true
      · rw [if_pos hCase]
        exact ⟨hRange b, hActive b hRow hCase⟩
      · rw [if_neg hCase]
        exact ⟨rfl, fun h => h⟩
    refine pairwise_updateWhere hOk.apart ?_
    intro b hRow b' hRow' hApart hb hb'
    rcases hAny b hRow with ⟨hR, hA⟩
    rcases hAny b' hRow' with ⟨hR', hA'⟩
    rw [hR, hR']
    exact hApart (hA hb) (hA' hb')
  checks := by
    intro x hx
    rcases mem_updateWhere.mp hx with
      ⟨b, hRow, hCase, rfl⟩ | ⟨hRow, -⟩
    · exact hCheck b hRow hCase
    · exact hOk.checks x hRow

/- A new entry fits in. -/
theorem EntriesOk.append
    {es : List WaitlistEntry}
    (hOk : EntriesOk es)
    {e : WaitlistEntry}
    (hFresh : ∀ e' ∈ es, e'.id ≠ e.id)
    (hApart : ∀ e' ∈ es, e'.Apart e)
    (hLinked : e.offeredBookingId = none)
    (hCheck : e.Check) :
    EntriesOk (es ++ [e]) where
  ids := hOk.ids.append_singleton hFresh
  apart := by
    refine List.pairwise_append.mpr
      ⟨hOk.apart, by simp, ?_⟩
    intro e' hRow x hx
    rw [List.mem_singleton.mp hx]
    exact hApart e' hRow
  linkedApart := by
    refine List.pairwise_append.mpr
      ⟨hOk.linkedApart, by simp, ?_⟩
    intro e' hRow x hx
    rw [List.mem_singleton.mp hx]
    intro hSome hEq
    rw [hEq, hLinked] at hSome
    cases hSome
  checks := by
    intro x hx
    rcases List.mem_append.mp hx with hOld | hNew
    · exact hOk.checks x hOld
    · rw [List.mem_singleton.mp hNew]
      exact hCheck

/- Status changes that end memberships are allowed. -/
theorem EntriesOk.update
    {es : List WaitlistEntry}
    (hOk : EntriesOk es)
    {p : WaitlistEntry → Bool}
    {f : WaitlistEntry → WaitlistEntry}
    (hId : ∀ e, (f e).id = e.id)
    (hUser : ∀ e, (f e).userId = e.userId)
    (hRange : ∀ e, (f e).timeRange = e.timeRange)
    (hActive :
      ∀ e ∈ es, p e = true →
        (f e).status.active = true → e.status.active = true)
    (hLinked :
      ∀ e ∈ es, ∀ e' ∈ es, e.id ≠ e'.id →
        e.LinkedApart e' →
          (if p e then f e else e).LinkedApart
            (if p e' then f e' else e'))
    (hCheck : ∀ e ∈ es, p e = true → (f e).Check) :
    EntriesOk (updateWhere p f es) where
  ids := hOk.ids.updateWhere (fun e _ _ => hId e)
  apart := by
    have hAny :
        ∀ e ∈ es,
          (if p e then f e else e).userId = e.userId ∧
            (if p e then f e else e).timeRange =
              e.timeRange ∧
            ((if p e then f e else e).status.active = true →
              e.status.active = true) := by
      intro e hRow
      by_cases hCase : p e = true
      · rw [if_pos hCase]
        exact ⟨hUser e, hRange e, hActive e hRow hCase⟩
      · rw [if_neg hCase]
        exact ⟨rfl, rfl, fun h => h⟩
    refine pairwise_updateWhere hOk.apart ?_
    intro e hRow e' hRow' hApart he he'
    rcases hAny e hRow with ⟨hU, hR, hA⟩
    rcases hAny e' hRow' with ⟨hU', hR', hA'⟩
    rw [hU, hR, hU', hR']
    exact hApart (hA he) (hA' he')
  linkedApart := by
    have hBoth := hOk.ids.and hOk.linkedApart
    unfold updateWhere
    rw [List.pairwise_map]
    exact hBoth.imp_of_mem (fun he he' h =>
      hLinked _ he _ he' h.1 h.2)
  checks := by
    intro x hx
    rcases mem_updateWhere.mp hx with
      ⟨e, hRow, hCase, rfl⟩ | ⟨hRow, -⟩
    · exact hCheck e hRow hCase
    · exact hOk.checks x hRow

/- Changes that keep the link keep links apart. -/
theorem linkedApart_of_same
    {p : WaitlistEntry → Bool}
    {f : WaitlistEntry → WaitlistEntry}
    (hSame :
      ∀ e, (f e).offeredBookingId = e.offeredBookingId)
    (e e' : WaitlistEntry)
    (hApart : e.LinkedApart e') :
    (if p e then f e else e).LinkedApart
      (if p e' then f e' else e') := by
  have hAny :
      ∀ x : WaitlistEntry,
        (if p x then f x else x).offeredBookingId =
          x.offeredBookingId := by
    intro x
    by_cases hCase : p x = true
    · rw [if_pos hCase, hSame]
    · rw [if_neg hCase]
  unfold WaitlistEntry.LinkedApart
  rw [hAny e, hAny e']
  exact hApart

end PigBook

------------------------------------------------------------
-- Consistent Cells
------------------------------------------------------------

namespace PigBook

open ReadCommitted

/- The entry is the one that the offered booking is for. -/
structure WaitlistEntry.Holds
    (e : WaitlistEntry)
    (b : Booking) : Prop where
  link : e.offeredBookingId = some b.id
  offered : b.status = .offered
  user : b.userId = some e.userId
  window : b.timeRange = e.timeRange

/- The users that the booking refers to are registered. -/
structure Booking.Owned
    (users : List Uuid)
    (b : Booking) : Prop where
  owner : b.HasOwner users
  creator : b.createdBy ∈ users

/- Changes of other columns keep the users of bookings. -/
theorem owned_updateWhere
    {users : List Uuid}
    {bs : List Booking}
    {p : Booking → Bool}
    {f : Booking → Booking}
    (hUsers :
      ∀ b ∈ bs, p b = true →
        (f b).userId = b.userId ∧
          (f b).createdBy = b.createdBy)
    (hOwned : ∀ b ∈ bs, b.Owned users) :
    ∀ b ∈ updateWhere p f bs, b.Owned users := by
  intro x hx
  rcases mem_updateWhere.mp hx with
    ⟨b, hRow, hCase, rfl⟩ | ⟨hRow, -⟩
  · rcases hOwned b hRow with ⟨hOwner, hCreator⟩
    refine ⟨?_, ?_⟩
    · unfold Booking.HasOwner
      rw [(hUsers b hRow hCase).1]
      exact hOwner
    · rw [(hUsers b hRow hCase).2]
      exact hCreator
  · exact hOwned x hRow

/- Changes of other columns keep the users of entries. -/
theorem users_updateWhere
    {users : List Uuid}
    {es : List WaitlistEntry}
    {p : WaitlistEntry → Bool}
    {f : WaitlistEntry → WaitlistEntry}
    (hUser : ∀ e, (f e).userId = e.userId)
    (hUsers : ∀ e ∈ es, e.userId ∈ users) :
    ∀ e ∈ updateWhere p f es, e.userId ∈ users := by
  intro x hx
  rcases mem_updateWhere.mp hx with
    ⟨e, hRow, -, rfl⟩ | ⟨hRow, -⟩
  · rw [hUser e]
    exact hUsers e hRow
  · exact hUsers x hRow

namespace Cell

/-
  The constraints of the schema and its foreign keys: every
  row belongs to a resource, and refers to registered users
  and to bookings that exist.
-/
structure Valid (s : Cell) : Prop where
  foreign : s.resource = none → s = opening s.users none
  bookings : BookingsOk s.bookings
  entries : EntriesOk s.entries
  owners : ∀ b ∈ s.bookings, b.Owned s.users
  members : ∀ e ∈ s.entries, e.userId ∈ s.users
  linkedExists :
    ∀ e ∈ s.entries, ∀ id ∈ e.offeredBookingId,
      ∃ b ∈ s.bookings, b.id = id
  outboxExists :
    ∀ ev ∈ s.outbox, ∃ b ∈ s.bookings,
      b.id = ev.aggregateId

/- The foreign keys of bookings and entries. -/
structure References (s : Cell) : Prop where
  rooms :
    s.resource = none → s.bookings = [] ∧ s.entries = []
  owners : ∀ b ∈ s.bookings, b.Owned s.users
  members : ∀ e ∈ s.entries, e.userId ∈ s.users
  links : ∀ e ∈ s.entries, s.HasLink e

/- Other tables may change. -/
theorem References.of_same
    {s s' : Cell}
    (hRefer : s.References)
    (hUsers : s'.users = s.users)
    (hRoom : s'.resource = none → s.resource = none)
    (hBookings : s'.bookings = s.bookings)
    (hEntries : s'.entries = s.entries) :
    s'.References := by
  rcases hRefer with ⟨hRooms, hOwners, hMembers, hLinks⟩
  refine ⟨?_, ?_, ?_, ?_⟩
  · intro hNone
    rw [hBookings, hEntries]
    exact hRooms (hRoom hNone)
  · rw [hBookings, hUsers]
    exact hOwners
  · rw [hEntries, hUsers]
    exact hMembers
  · unfold HasLink
    rw [hEntries, hBookings]
    exact hLinks

/- Changes that keep the ids and the users of bookings. -/
theorem References.setBookings
    {s : Cell}
    (hRefer : s.References)
    {p : Booking → Bool}
    {f : Booking → Booking}
    (hId : ∀ b, (f b).id = b.id)
    (hUsers :
      ∀ b ∈ s.bookings, p b = true →
        (f b).userId = b.userId ∧
          (f b).createdBy = b.createdBy) :
    (s.setBookings p f).References where
  rooms := by
    intro hNone
    rcases hRefer.rooms hNone with ⟨hBookings, hEntries⟩
    rw [setBookings_bookings, hBookings]
    exact ⟨rfl, hEntries⟩
  owners := owned_updateWhere hUsers hRefer.owners
  members := hRefer.members
  links := by
    intro e hRow id hLink
    rcases hRefer.links e hRow id hLink with ⟨b, hb, rfl⟩
    by_cases hCase : p b = true
    · exact ⟨f b,
        mem_updateWhere.mpr (Or.inl ⟨b, hb, hCase, rfl⟩),
        hId b⟩
    · exact ⟨b,
        mem_updateWhere.mpr
          (Or.inr ⟨hb, by simpa using hCase⟩), rfl⟩

/- Changes that keep the links and the users of entries. -/
theorem References.setEntries
    {s : Cell}
    (hRefer : s.References)
    {p : WaitlistEntry → Bool}
    {f : WaitlistEntry → WaitlistEntry}
    (hUser : ∀ e, (f e).userId = e.userId)
    (hSame :
      ∀ e, (f e).offeredBookingId = e.offeredBookingId) :
    (s.setEntries p f).References where
  rooms := by
    intro hNone
    rcases hRefer.rooms hNone with ⟨hBookings, hEntries⟩
    rw [setEntries_entries, hEntries]
    exact ⟨hBookings, rfl⟩
  owners := hRefer.owners
  members := users_updateWhere hUser hRefer.members
  links := by
    intro x hx id hLink
    rcases mem_updateWhere.mp hx with
      ⟨e, hRow, -, rfl⟩ | ⟨hRow, -⟩
    · rw [hSame e] at hLink
      exact hRefer.links e hRow id hLink
    · exact hRefer.links x hRow id hLink

theorem References.addBooking
    {s : Cell}
    (hRefer : s.References)
    {b : Booking}
    (hRoom : s.resource.isSome)
    (hOwned : b.Owned s.users) :
    (s.addBooking b).References where
  rooms := fun hNone =>
    absurd hNone (Option.isSome_iff_ne_none.mp hRoom)
  owners := by
    intro x hx
    rcases List.mem_append.mp hx with hOld | hNew
    · exact hRefer.owners x hOld
    · rw [List.mem_singleton.mp hNew]
      exact hOwned
  members := hRefer.members
  links := by
    intro e hRow id hLink
    rcases hRefer.links e hRow id hLink with ⟨b, hb, hId⟩
    exact ⟨b, List.mem_append_left _ hb, hId⟩

theorem References.addEntry
    {s : Cell}
    (hRefer : s.References)
    {e : WaitlistEntry}
    (hRoom : s.resource.isSome)
    (hUser : e.userId ∈ s.users)
    (hLink : s.HasLink e) :
    (s.addEntry e).References where
  rooms := fun hNone =>
    absurd hNone (Option.isSome_iff_ne_none.mp hRoom)
  owners := hRefer.owners
  members := by
    intro x hx
    rcases List.mem_append.mp hx with hOld | hNew
    · exact hRefer.members x hOld
    · rw [List.mem_singleton.mp hNew]
      exact hUser
  links := by
    intro x hx
    rcases List.mem_append.mp hx with hOld | hNew
    · exact hRefer.links x hOld
    · rw [List.mem_singleton.mp hNew]
      exact hLink

theorem Valid.references
    {s : Cell}
    (hCell : s.Valid) :
    s.References where
  rooms := by
    intro hNone
    rw [hCell.foreign hNone]
    exact ⟨rfl, rfl⟩
  owners := hCell.owners
  members := hCell.members
  links := hCell.linkedExists

/- A valid cell in which holds and entries come in pairs. -/
structure Consistent (s : Cell) : Prop extends s.Valid where
  offeredLinked :
    ∀ e ∈ s.entries, e.status = .offered →
      ∃ b ∈ s.bookings, e.Holds b
  holdLinked :
    ∀ b ∈ s.bookings, b.status = .offered →
      ∃ e ∈ s.entries, e.status = .offered ∧ e.Holds b

/- Every waiting entry is blocked by an active booking. -/
def Settled (s : Cell) : Prop :=
  ∀ e ∈ s.entries, e.status = .waiting →
    s.Occupied e.timeRange

theorem consistent_opening
    (users : List Uuid)
    (resource : Option Resource) :
    (opening users resource).Consistent where
  foreign := by
    intro hNone
    simp only [opening] at hNone ⊢
    rw [hNone]
  bookings := ⟨.nil, .nil, by simp [opening]⟩
  entries := ⟨.nil, .nil, .nil, by simp [opening]⟩
  owners := by simp [opening]
  members := by simp [opening]
  linkedExists := by simp [opening]
  outboxExists := by simp [opening]
  offeredLinked := by simp [opening]
  holdLinked := by simp [opening]

theorem settled_opening
    (users : List Uuid)
    (resource : Option Resource) :
    (opening users resource).Settled := by
  simp [Settled, opening]

namespace Valid

variable {s : Cell}

/- A cell with a row has a resource. -/
theorem resource_isSome_of_booking
    (hCell : s.Valid)
    {b : Booking}
    (hRow : b ∈ s.bookings) :
    s.resource.isSome := by
  cases hCase : s.resource with
  | some r => rfl
  | none =>
      rw [hCell.foreign hCase] at hRow
      cases hRow

theorem resource_isSome_of_entry
    (hCell : s.Valid)
    {e : WaitlistEntry}
    (hRow : e ∈ s.entries) :
    s.resource.isSome := by
  cases hCase : s.resource with
  | some r => rfl
  | none =>
      rw [hCell.foreign hCase] at hRow
      cases hRow

/- A booking is held for at most one entry. -/
theorem eq_of_link
    (hCell : s.Valid)
    {e e' : WaitlistEntry}
    (hRow : e ∈ s.entries)
    (hRow' : e' ∈ s.entries)
    {id : Uuid}
    (hLink : e.offeredBookingId = some id)
    (hLink' : e'.offeredBookingId = some id) :
    e = e' := by
  by_contra hNe
  have : Std.Symm WaitlistEntry.LinkedApart :=
    ⟨fun _ _ h => h.symm⟩
  refine
    hCell.entries.linkedApart.forall hRow hRow' hNe ?_ ?_
  · rw [hLink]
    rfl
  · rw [hLink, hLink']

end Valid

end Cell

end PigBook

------------------------------------------------------------
-- Events, Audit Records, and Resources
------------------------------------------------------------

namespace PigBook

open ReadCommitted

namespace Cell

/- An event about a booking of the cell. -/
theorem Valid.addEvent
    {s : Cell}
    (hCell : s.Valid)
    {ev : OutboxEvent}
    (hExists : ∃ b ∈ s.bookings, b.id = ev.aggregateId) :
    (s.addEvent ev).Valid where
  foreign := by
    intro hNone
    rcases hExists with ⟨b, hRow, -⟩
    have hSome := hCell.resource_isSome_of_booking hRow
    rw [addEvent_resource] at hNone
    rw [hNone] at hSome
    cases hSome
  bookings := hCell.bookings
  entries := hCell.entries
  owners := hCell.owners
  members := hCell.members
  linkedExists := hCell.linkedExists
  outboxExists := by
    intro x hx
    rcases List.mem_append.mp hx with hOld | hNew
    · exact hCell.outboxExists x hOld
    · rw [List.mem_singleton.mp hNew]
      exact hExists

namespace Consistent

variable {s : Cell}

theorem addEvent
    (hCell : s.Consistent)
    {ev : OutboxEvent}
    (hExists : ∃ b ∈ s.bookings, b.id = ev.aggregateId) :
    (s.addEvent ev).Consistent where
  toValid := hCell.toValid.addEvent hExists
  offeredLinked := hCell.offeredLinked
  holdLinked := hCell.holdLinked

theorem addAudit
    (hCell : s.Consistent)
    (hResource : s.resource.isSome)
    (a : AuditRecord) :
    (s.addAudit a).Consistent where
  foreign := by
    intro hNone
    rw [addAudit_resource] at hNone
    rw [hNone] at hResource
    cases hResource
  bookings := hCell.bookings
  entries := hCell.entries
  owners := hCell.owners
  members := hCell.members
  linkedExists := hCell.linkedExists
  outboxExists := hCell.outboxExists
  offeredLinked := hCell.offeredLinked
  holdLinked := hCell.holdLinked

theorem setResource
    (hCell : s.Consistent)
    (r : Resource) :
    (s.setResource r).Consistent where
  foreign := by
    intro hNone
    cases hNone
  bookings := hCell.bookings
  entries := hCell.entries
  owners := hCell.owners
  members := hCell.members
  linkedExists := hCell.linkedExists
  outboxExists := hCell.outboxExists
  offeredLinked := hCell.offeredLinked
  holdLinked := hCell.holdLinked

end Consistent

end Cell

end PigBook

------------------------------------------------------------
-- New Bookings and Entries
------------------------------------------------------------

namespace PigBook

open ReadCommitted

namespace Cell

namespace Consistent

variable {s : Cell}

/- A confirmed booking of a free window. -/
theorem reserve
    (hCell : s.Consistent)
    {b : Booking}
    (hResource : s.resource.isSome)
    (hFresh : ∀ b' ∈ s.bookings, b'.id ≠ b.id)
    (hFree : ¬ s.Occupied b.timeRange)
    (hStatus : b.status = .confirmed)
    (hCheck : b.Check)
    (hOwned : b.Owned s.users) :
    (s.addBooking b).Consistent where
  foreign := by
    intro hNone
    rw [addBooking_resource] at hNone
    rw [hNone] at hResource
    cases hResource
  bookings := by
    refine hCell.bookings.append hFresh ?_ hCheck
    intro b' hRow hOccupies
    exact hFree ⟨b', hRow, hOccupies⟩
  entries := hCell.entries
  owners := by
    intro x hx
    rcases List.mem_append.mp hx with hOld | hNew
    · exact hCell.owners x hOld
    · rw [List.mem_singleton.mp hNew]
      exact hOwned
  members := hCell.members
  linkedExists := by
    intro e hRow id hLink
    rcases hCell.linkedExists e hRow id hLink with
      ⟨b', hRow', hId⟩
    exact ⟨b', List.mem_append_left _ hRow', hId⟩
  outboxExists := by
    intro ev hRow
    rcases hCell.outboxExists ev hRow with ⟨b', hRow', hId⟩
    exact ⟨b', List.mem_append_left _ hRow', hId⟩
  offeredLinked := by
    intro e hRow hOffered
    rcases hCell.offeredLinked e hRow hOffered with
      ⟨b', hRow', hHolds⟩
    exact ⟨b', List.mem_append_left _ hRow', hHolds⟩
  holdLinked := by
    intro x hx hOffered
    rcases List.mem_append.mp hx with hOld | hNew
    · exact hCell.holdLinked x hOld hOffered
    · rw [List.mem_singleton.mp hNew, hStatus] at hOffered
      cases hOffered

/- A waiting entry without a link. -/
theorem enqueue
    (hCell : s.Consistent)
    {e : WaitlistEntry}
    (hResource : s.resource.isSome)
    (hFresh : ∀ e' ∈ s.entries, e'.id ≠ e.id)
    (hApart : ∀ e' ∈ s.entries, e'.Apart e)
    (hStatus : e.status = .waiting)
    (hLink : e.offeredBookingId = none)
    (hCheck : e.Check)
    (hUser : e.userId ∈ s.users) :
    (s.addEntry e).Consistent where
  foreign := by
    intro hNone
    rw [addEntry_resource] at hNone
    rw [hNone] at hResource
    cases hResource
  bookings := hCell.bookings
  entries := hCell.entries.append hFresh hApart hLink hCheck
  owners := hCell.owners
  members := by
    intro x hx
    rcases List.mem_append.mp hx with hOld | hNew
    · exact hCell.members x hOld
    · rw [List.mem_singleton.mp hNew]
      exact hUser
  linkedExists := by
    intro x hx id hSome
    rcases List.mem_append.mp hx with hOld | hNew
    · exact hCell.linkedExists x hOld id hSome
    · rw [List.mem_singleton.mp hNew, hLink] at hSome
      cases hSome
  outboxExists := hCell.outboxExists
  offeredLinked := by
    intro x hx hOffered
    rcases List.mem_append.mp hx with hOld | hNew
    · exact hCell.offeredLinked x hOld hOffered
    · rw [List.mem_singleton.mp hNew, hStatus] at hOffered
      cases hOffered
  holdLinked := by
    intro b hRow hOffered
    rcases hCell.holdLinked b hRow hOffered with
      ⟨e', hRow', hHolds⟩
    exact ⟨e', List.mem_append_left _ hRow', hHolds⟩

end Consistent

end Cell

end PigBook

------------------------------------------------------------
-- Entries that Leave the Queue
------------------------------------------------------------

namespace PigBook

open ReadCommitted

namespace Cell

variable {s : Cell}

/- The rows after a change of one entry. -/
theorem Valid.mem_setEntry
    (hCell : s.Valid)
    {e : WaitlistEntry}
    (hRow : e ∈ s.entries)
    {f : WaitlistEntry → WaitlistEntry}
    {x : WaitlistEntry} :
    x ∈ updateWhere e.current f s.entries ↔
      x = f e ∨ (x ∈ s.entries ∧ x.id ≠ e.id) :=
  mem_updateWhere_key hCell.entries.ids hRow
    (WaitlistEntry.current_iff hCell.entries.ids hRow)

/- A waiting entry expires or is withdrawn. -/
theorem Valid.leaveQueue
    (hCell : s.Valid)
    {e : WaitlistEntry}
    {status : EntryStatus}
    {now : ℤ}
    (hRow : e ∈ s.entries)
    (hStatus : status = .expired ∨ status = .cancelled) :
    (s.setEntries e.current
      (.transition status now)).Valid where
  foreign := by
    intro hNone
    have hSome := hCell.resource_isSome_of_entry hRow
    rw [setEntries_resource] at hNone
    rw [hNone] at hSome
    cases hSome
  bookings := hCell.bookings
  entries := by
    refine hCell.entries.update (fun _ => rfl)
      (fun _ => rfl) (fun _ => rfl) ?_ ?_ ?_
    · intro x _ _ hActive
      rcases hStatus with rfl | rfl <;> cases hActive
    · intro x _ x' _ _ hApart
      exact
        linkedApart_of_same (p := e.current)
          (f := .transition status now) (fun _ => rfl)
          x x' hApart
    · intro x hx _
      refine ⟨Nat.succ_pos _, ?_⟩
      intro hLinked
      rcases hStatus with rfl | rfl <;>
        rcases hLinked with h | h <;> cases h
  owners := hCell.owners
  members := users_updateWhere (fun _ => rfl) hCell.members
  linkedExists := by
    intro x hx id hLink
    rcases (hCell.mem_setEntry hRow).mp hx with
      rfl | ⟨hOld, -⟩
    · exact hCell.linkedExists e hRow id hLink
    · exact hCell.linkedExists x hOld id hLink
  outboxExists := hCell.outboxExists

theorem Consistent.leaveQueue
    (hCell : s.Consistent)
    {e : WaitlistEntry}
    {status : EntryStatus}
    {now : ℤ}
    (hRow : e ∈ s.entries)
    (hWaiting : e.status = .waiting)
    (hStatus : status = .expired ∨ status = .cancelled) :
    (s.setEntries e.current
      (.transition status now)).Consistent where
  toValid := hCell.toValid.leaveQueue hRow hStatus
  offeredLinked := by
    intro x hx hOffered
    rcases (hCell.mem_setEntry hRow).mp hx with
      rfl | ⟨hOld, -⟩
    · rcases hStatus with rfl | rfl <;> cases hOffered
    · exact hCell.offeredLinked x hOld hOffered
  holdLinked := by
    intro b hb hOffered
    rcases hCell.holdLinked b hb hOffered with
      ⟨x, hx, hStatusX, hHolds⟩
    refine ⟨x, (hCell.mem_setEntry hRow).mpr
      (Or.inr ⟨hx, ?_⟩), hStatusX, hHolds⟩
    intro hId
    rw [hCell.entries.ids.eq_of_key hx hRow hId,
      hWaiting] at hStatusX
    cases hStatusX

end Cell

end PigBook

------------------------------------------------------------
-- Holds that Open and Close
------------------------------------------------------------

namespace PigBook

open ReadCommitted

/- The offered booking satisfies the CHECK constraints. -/
theorem WaitlistEntry.offeredBooking_check
    (e : WaitlistEntry)
    (bookingId : Uuid)
    (offerNow createdAt : ℤ) :
    (e.offeredBooking bookingId offerNow createdAt).Check := by
  refine ⟨?_, Nat.one_pos, Or.inl ⟨rfl, rfl⟩,
    Or.inl ⟨rfl, _, rfl, ?_⟩⟩
  · intro reason hReason
    cases hReason
  · change (if _ then _ else _) ≤ e.timeRange.lower
    split
    · exact le_refl _
    · exact not_lt.mp ‹_›

/- It is the member's own booking. -/
theorem WaitlistEntry.offeredBooking_owned
    {users : List Uuid}
    {e : WaitlistEntry}
    (hUser : e.userId ∈ users)
    (bookingId : Uuid)
    (offerNow createdAt : ℤ) :
    (e.offeredBooking bookingId offerNow createdAt).Owned
      users :=
  ⟨fun _ hId => Option.some.inj hId ▸ hUser, hUser⟩

namespace Cell

variable {s : Cell}

/- A waiting entry is offered a new booking of its window. -/
theorem Valid.offer
    (hCell : s.Valid)
    {e : WaitlistEntry}
    {bookingId : Uuid}
    {offerNow createdAt : ℤ}
    (hRow : e ∈ s.entries)
    (hWaiting : e.status = .waiting)
    (hFree : ¬ s.Occupied e.timeRange)
    (hFresh : ∀ b ∈ s.bookings, b.id ≠ bookingId) :
    ((s.addBooking
        (e.offeredBooking bookingId offerNow
          createdAt)).setEntries e.current
      (.offer bookingId offerNow)).Valid where
  foreign := by
    intro hNone
    have hSome := hCell.resource_isSome_of_entry hRow
    rw [setEntries_resource, addBooking_resource] at hNone
    rw [hNone] at hSome
    cases hSome
  bookings := by
    refine hCell.bookings.append hFresh ?_
      (e.offeredBooking_check bookingId offerNow createdAt)
    intro b hb hOccupies
    exact hFree ⟨b, hb, hOccupies⟩
  entries := by
    have hSelects :=
      WaitlistEntry.current_iff hCell.entries.ids hRow
    -- no entry refers to a booking yet to come
    have hUnlinked :
        ∀ x ∈ s.entries,
          x.offeredBookingId ≠ some bookingId := by
      intro x hx hLink
      rcases hCell.linkedExists x hx bookingId hLink with
        ⟨b, hb, hId⟩
      exact hFresh b hb hId
    refine hCell.entries.update (fun _ => rfl)
      (fun _ => rfl) (fun _ => rfl) ?_ ?_ ?_
    · intro x hx hCase _
      have hId := (hSelects x hx).mp hCase
      rw [hCell.entries.ids.eq_of_key hx hRow hId, hWaiting]
      rfl
    · intro x hx x' hx' hNe hApart
      by_cases hCase : e.current x = true
      · have hId := (hSelects x hx).mp hCase
        by_cases hCase' : e.current x' = true
        · have hId' := (hSelects x' hx').mp hCase'
          exact absurd (hId.trans hId'.symm) hNe
        · rw [if_pos hCase, if_neg hCase']
          intro _ hLink
          exact hUnlinked x' hx' hLink.symm
      · rw [if_neg hCase]
        by_cases hCase' : e.current x' = true
        · rw [if_pos hCase']
          intro _
          exact hUnlinked x hx
        · rw [if_neg hCase']
          exact hApart
    · intro x hx _
      exact ⟨Nat.succ_pos _, fun _ => rfl⟩
  owners := by
    intro x hx
    rcases List.mem_append.mp hx with hOld | hNew
    · exact hCell.owners x hOld
    · rw [List.mem_singleton.mp hNew]
      exact
        WaitlistEntry.offeredBooking_owned
          (hCell.members e hRow) bookingId offerNow createdAt
  members := users_updateWhere (fun _ => rfl) hCell.members
  linkedExists := by
    intro x hx id hLink
    rcases (hCell.mem_setEntry hRow).mp hx with
      rfl | ⟨hOld, -⟩
    · cases hLink
      exact ⟨_, List.mem_append_right _
        (List.mem_singleton.mpr rfl), rfl⟩
    · rcases hCell.linkedExists x hOld id hLink with
        ⟨b, hb, hId⟩
      exact ⟨b, List.mem_append_left _ hb, hId⟩
  outboxExists := by
    intro ev hev
    rcases hCell.outboxExists ev hev with ⟨b, hb, hId⟩
    exact ⟨b, List.mem_append_left _ hb, hId⟩

theorem Consistent.offer
    (hCell : s.Consistent)
    {e : WaitlistEntry}
    {bookingId : Uuid}
    {offerNow createdAt : ℤ}
    (hRow : e ∈ s.entries)
    (hWaiting : e.status = .waiting)
    (hFree : ¬ s.Occupied e.timeRange)
    (hFresh : ∀ b ∈ s.bookings, b.id ≠ bookingId) :
    ((s.addBooking
        (e.offeredBooking bookingId offerNow
          createdAt)).setEntries e.current
      (.offer bookingId offerNow)).Consistent := by
  have hHolds :
      (e.offer bookingId offerNow).Holds
        (e.offeredBooking bookingId offerNow createdAt) :=
    ⟨rfl, rfl, rfl, rfl⟩
  refine
    { toValid :=
        hCell.toValid.offer hRow hWaiting hFree hFresh
      offeredLinked := ?_, holdLinked := ?_ }
  · intro x hx hOffered
    rcases (hCell.mem_setEntry hRow).mp hx with
      rfl | ⟨hOld, -⟩
    · exact ⟨_, List.mem_append_right _
        (List.mem_singleton.mpr rfl), hHolds⟩
    · rcases hCell.offeredLinked x hOld hOffered with
        ⟨b, hb, hHoldsX⟩
      exact ⟨b, List.mem_append_left _ hb, hHoldsX⟩
  · intro b hb hOffered
    rcases List.mem_append.mp hb with hOld | hNew
    · rcases hCell.holdLinked b hOld hOffered with
        ⟨x, hx, hStatusX, hHoldsX⟩
      refine ⟨x, (hCell.mem_setEntry hRow).mpr
        (Or.inr ⟨hx, ?_⟩), hStatusX, hHoldsX⟩
      intro hId
      rw [hCell.entries.ids.eq_of_key hx hRow hId,
        hWaiting] at hStatusX
      cases hStatusX
    · rw [List.mem_singleton.mp hNew]
      exact ⟨_, (hCell.mem_setEntry hRow).mpr
        (Or.inl rfl), rfl, hHolds⟩

namespace Consistent

/-
  The two rows of a hold change together: the entry ends its
  membership, and the booking is no longer offered.  The
  predicates are those of the two UPDATE statements.
-/
theorem closeHold
    (hCell : s.Consistent)
    {e : WaitlistEntry}
    {b : Booking}
    {p : Booking → Bool}
    {q : WaitlistEntry → Bool}
    {f : Booking → Booking}
    {status : EntryStatus}
    {now : ℤ}
    (hRow : e ∈ s.entries)
    (hRowB : b ∈ s.bookings)
    (hHolds : e.Holds b)
    (hSelectsB : ∀ x ∈ s.bookings, p x = true ↔ x.id = b.id)
    (hSelects : ∀ x ∈ s.entries, q x = true ↔ x.id = e.id)
    (hEnds : status.active = false)
    (hId : ∀ x, (f x).id = x.id)
    (hRange : ∀ x, (f x).timeRange = x.timeRange)
    (hUsers :
      ∀ x, (f x).userId = x.userId ∧
        (f x).createdBy = x.createdBy)
    (hCloses : (f b).status ≠ .offered)
    (hCheck : (f b).Check) :
    ((s.setBookings p f).setEntries q
      (.transition status now)).Consistent := by
  have hMem :
      ∀ x,
        x ∈ updateWhere q (.transition status now)
            s.entries ↔
          x = e.transition status now ∨
            (x ∈ s.entries ∧ x.id ≠ e.id) :=
    fun x =>
      mem_updateWhere_key hCell.entries.ids hRow hSelects
  have hMemB :
      ∀ x,
        x ∈ updateWhere p f s.bookings ↔
          x = f b ∨ (x ∈ s.bookings ∧ x.id ≠ b.id) :=
    fun x =>
      mem_updateWhere_key hCell.bookings.ids hRowB hSelectsB
  have hOnly :
      ∀ x ∈ s.bookings, p x = true → x = b := by
    intro x hx hCase
    exact
      hCell.bookings.ids.eq_of_key hx hRowB
        ((hSelectsB x hx).mp hCase)
  -- a booking with an id of before has a successor
  have hExists :
      ∀ id, (∃ x ∈ s.bookings, x.id = id) →
        ∃ x ∈ updateWhere p f s.bookings, x.id = id := by
    rintro id ⟨x, hx, rfl⟩
    by_cases hSame : x.id = b.id
    · exact ⟨f b, (hMemB _).mpr (Or.inl rfl),
        (hId b).trans hSame.symm⟩
    · exact ⟨x, (hMemB x).mpr (Or.inr ⟨hx, hSame⟩), rfl⟩
  refine
    { foreign := ?_, bookings := ?_, entries := ?_,
      owners := owned_updateWhere (fun b _ _ => hUsers b) hCell.owners,
      members :=
        users_updateWhere (fun _ => rfl) hCell.members,
      linkedExists := ?_, outboxExists := ?_,
      offeredLinked := ?_, holdLinked := ?_ }
  · intro hNone
    have hSome := hCell.resource_isSome_of_entry hRow
    rw [setEntries_resource, setBookings_resource] at hNone
    rw [hNone] at hSome
    cases hSome
  · refine hCell.bookings.update hId hRange ?_ ?_
    · intro x hx hCase _
      rw [hOnly x hx hCase, hHolds.offered]
      rfl
    · intro x hx hCase
      rw [hOnly x hx hCase]
      exact hCheck
  · refine hCell.entries.update (fun _ => rfl)
      (fun _ => rfl) (fun _ => rfl) ?_ ?_ ?_
    · intro x _ _ hActive
      change status.active = true at hActive
      rw [hEnds] at hActive
      cases hActive
    · intro x _ x' _ _ hApart
      exact
        linkedApart_of_same (p := q)
          (f := .transition status now) (fun _ => rfl)
          x x' hApart
    · intro x hx hCase
      refine ⟨Nat.succ_pos _, fun _ => ?_⟩
      have hEq :=
        hCell.entries.ids.eq_of_key hx hRow
          ((hSelects x hx).mp hCase)
      change x.offeredBookingId.isSome
      rw [hEq, hHolds.link]
      rfl
  · intro x hx id hLink
    refine hExists id ?_
    rcases (hMem x).mp hx with rfl | ⟨hOld, -⟩
    · exact hCell.linkedExists e hRow id hLink
    · exact hCell.linkedExists x hOld id hLink
  · intro ev hev
    exact hExists _ (hCell.outboxExists ev hev)
  · intro x hx hOffered
    rcases (hMem x).mp hx with rfl | ⟨hOld, hNe⟩
    · change status = .offered at hOffered
      rw [hOffered] at hEnds
      cases hEnds
    · rcases hCell.offeredLinked x hOld hOffered with
        ⟨y, hy, hHoldsX⟩
      refine ⟨y, (hMemB y).mpr (Or.inr ⟨hy, ?_⟩), hHoldsX⟩
      intro hSame
      -- two entries would hold one booking
      have hLink := hHoldsX.link
      rw [hSame] at hLink
      have hEq :=
        hCell.eq_of_link hOld hRow hLink hHolds.link
      rw [hEq] at hNe
      exact hNe rfl
  · intro y hy hOffered
    rcases (hMemB y).mp hy with rfl | ⟨hOld, hNe⟩
    · exact absurd hOffered hCloses
    · rcases hCell.holdLinked y hOld hOffered with
        ⟨x, hx, hStatusX, hHoldsX⟩
      refine ⟨x, (hMem x).mpr (Or.inr ⟨hx, ?_⟩), hStatusX,
        hHoldsX⟩
      intro hSame
      have hEq :=
        hCell.entries.ids.eq_of_key hx hRow hSame
      have hLink := hHoldsX.link
      rw [hEq, hHolds.link] at hLink
      exact hNe (Option.some.inj hLink).symm

/- A confirmed booking is cancelled. -/
theorem cancelConfirmed
    (hCell : s.Consistent)
    {b : Booking}
    {p : Booking → Bool}
    {f : Booking → Booking}
    (hRow : b ∈ s.bookings)
    (hStatus : b.status = .confirmed)
    (hSelects : ∀ x ∈ s.bookings, p x = true ↔ x.id = b.id)
    (hId : ∀ x, (f x).id = x.id)
    (hRange : ∀ x, (f x).timeRange = x.timeRange)
    (hUsers :
      ∀ x, (f x).userId = x.userId ∧
        (f x).createdBy = x.createdBy)
    (hCancels : (f b).status = .cancelled)
    (hCheck : (f b).Check) :
    (s.setBookings p f).Consistent := by
  have hMem :
      ∀ x,
        x ∈ updateWhere p f s.bookings ↔
          x = f b ∨ (x ∈ s.bookings ∧ x.id ≠ b.id) :=
    fun x =>
      mem_updateWhere_key hCell.bookings.ids hRow hSelects
  have hOnly :
      ∀ x ∈ s.bookings, p x = true → x = b := by
    intro x hx hCase
    exact
      hCell.bookings.ids.eq_of_key hx hRow
        ((hSelects x hx).mp hCase)
  have hExists :
      ∀ id, (∃ x ∈ s.bookings, x.id = id) →
        ∃ x ∈ updateWhere p f s.bookings, x.id = id := by
    rintro id ⟨x, hx, rfl⟩
    by_cases hSame : x.id = b.id
    · exact ⟨f b, (hMem _).mpr (Or.inl rfl),
        (hId b).trans hSame.symm⟩
    · exact ⟨x, (hMem x).mpr (Or.inr ⟨hx, hSame⟩), rfl⟩
  refine
    { foreign := ?_, bookings := ?_,
      entries := hCell.entries,
      owners := owned_updateWhere (fun b _ _ => hUsers b) hCell.owners,
      members := hCell.members, linkedExists := ?_,
      outboxExists := ?_, offeredLinked := ?_,
      holdLinked := ?_ }
  · intro hNone
    have hSome := hCell.resource_isSome_of_booking hRow
    rw [setBookings_resource] at hNone
    rw [hNone] at hSome
    cases hSome
  · refine hCell.bookings.update hId hRange ?_ ?_
    · intro x hx hCase hActive
      rw [hOnly x hx hCase, hCancels] at hActive
      cases hActive
    · intro x hx hCase
      rw [hOnly x hx hCase]
      exact hCheck
  · intro x hx id hLink
    exact hExists id (hCell.linkedExists x hx id hLink)
  · intro ev hev
    exact hExists _ (hCell.outboxExists ev hev)
  · intro x hx hOffered
    rcases hCell.offeredLinked x hx hOffered with
      ⟨y, hy, hHolds⟩
    refine ⟨y, (hMem y).mpr (Or.inr ⟨hy, ?_⟩), hHolds⟩
    intro hSame
    have hEq := hCell.bookings.ids.eq_of_key hy hRow hSame
    have hOfferedY := hHolds.offered
    rw [hEq, hStatus] at hOfferedY
    cases hOfferedY
  · intro y hy hOffered
    rcases (hMem y).mp hy with rfl | ⟨hOld, -⟩
    · rw [hCancels] at hOffered
      cases hOffered
    · exact hCell.holdLinked y hOld hOffered

end Consistent

end Cell

end PigBook
