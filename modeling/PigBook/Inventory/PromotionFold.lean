import PigBook.Inventory.Consistency
import PigBook.ReadCommitted.Keyset

/-
  Promotion is a left fold over the waiting entries.

  The scan samples the clock and draws identifiers as it
  goes.  Given these samples, its effect is that of one pass
  over the queue, whatever the page size.

  Key definitions include:
    * `Sample`
    * `promoteStep`, `promoteFold`
    * `Cell.queue`
    * `Visit`, `Visits`
    * `asked`, `drawn`

  Key theorems include:
    * `promoteEntry_rule`
    * `promoteWaiters_rule`
    * `Visit.valid`, `Visit.consistent`
-/

------------------------------------------------------------
-- What a Log Tells
------------------------------------------------------------

namespace PigBook

open ReadCommitted

/- A question of a statement with its answer. -/
abbrev Asked := Σ q : Query, q.Answer

def asked? (act : Action inventory) : Option Asked :=
  if act.query = .plain then none
  else some ⟨act.query, act.answer⟩

/- The questions asked and the answers, in order. -/
def asked (log : List (Action inventory)) : List Asked :=
  log.filterMap asked?

def Asked.drawn? : Asked → Option Uuid
| ⟨.uuid, id⟩ => some id
| _ => none

/- The identifiers drawn, in order. -/
def drawn (questions : List Asked) : List Uuid :=
  questions.filterMap Asked.drawn?

@[simp] theorem asked_nil :
    asked [] = [] :=
  rfl

@[simp] theorem asked_append
    (log log' : List (Action inventory)) :
    asked (log ++ log') = asked log ++ asked log' := by
  simp [asked]

section Asked

variable (log : List (Action inventory)) (keys : List Key)

@[simp] theorem asked_cons_plain :
    asked (⟨.plain, (), keys⟩ :: log) = asked log :=
  rfl

@[simp] theorem asked_cons_clock
    (t : ℤ) :
    asked (⟨.clock, t, keys⟩ :: log) =
      ⟨.clock, t⟩ :: asked log :=
  rfl

@[simp] theorem asked_cons_transactionTime
    (t : ℤ) :
    asked (⟨.transactionTime, t, keys⟩ :: log) =
      ⟨.transactionTime, t⟩ :: asked log :=
  rfl

@[simp] theorem asked_cons_uuid
    (id : Uuid) :
    asked (⟨.uuid, id, keys⟩ :: log) =
      ⟨.uuid, id⟩ :: asked log :=
  rfl

@[simp] theorem asked_cons_ownerEnabled
    (userId : Uuid)
    (enabled : Option Bool) :
    asked (⟨.ownerEnabled userId, enabled, keys⟩ :: log) =
      ⟨.ownerEnabled userId, enabled⟩ :: asked log :=
  rfl

end Asked

@[simp] theorem drawn_nil :
    drawn [] = [] :=
  rfl

@[simp] theorem drawn_append
    (qs qs' : List Asked) :
    drawn (qs ++ qs') = drawn qs ++ drawn qs' := by
  simp [drawn]

@[simp] theorem drawn_cons_clock
    (t : ℤ)
    (qs : List Asked) :
    drawn (⟨.clock, t⟩ :: qs) = drawn qs :=
  rfl

@[simp] theorem drawn_cons_transactionTime
    (t : ℤ)
    (qs : List Asked) :
    drawn (⟨.transactionTime, t⟩ :: qs) = drawn qs :=
  rfl

@[simp] theorem drawn_cons_uuid
    (id : Uuid)
    (qs : List Asked) :
    drawn (⟨.uuid, id⟩ :: qs) = id :: drawn qs :=
  rfl

@[simp] theorem drawn_cons_ownerEnabled
    (userId : Uuid)
    (enabled : Option Bool)
    (qs : List Asked) :
    drawn (⟨.ownerEnabled userId, enabled⟩ :: qs) =
      drawn qs :=
  rfl

end PigBook

------------------------------------------------------------
-- The Fold
------------------------------------------------------------

namespace PigBook

open ReadCommitted

/- What the scan learns from outside for one entry. -/
structure Sample where
  dbNow : ℤ
  ownerEnabled : Option Bool
  offerNow : ℤ
  bookingId : Uuid
  createdAt : ℤ
  eventId : Uuid

/- The entry can no longer be offered its window. -/
def Sample.Lapses
    (x : Sample)
    (e : WaitlistEntry) : Prop :=
  x.ownerEnabled ≠ some true ∨
    e.timeRange.lower < x.dbNow + minutes 15

instance (x : Sample) (e : WaitlistEntry) :
    Decidable (x.Lapses e) :=
  inferInstanceAs (Decidable (_ ∨ _))

/- The booking that an offer to the entry inserts. -/
def Sample.booking
    (x : Sample)
    (e : WaitlistEntry) : Booking :=
  e.offeredBooking x.bookingId x.offerNow x.createdAt

/- The cell after an offer to the entry. -/
def Cell.offerTo
    (rid : Uuid)
    (e : WaitlistEntry)
    (x : Sample)
    (s : Cell) : Cell :=
  ((s.addBooking (x.booking e)).setEntries e.current
    (.offer x.bookingId x.offerNow)).addEvent
      (eventOf rid .waitlistOffered (x.booking e) x.offerNow
        x.eventId)

/-
  One step of the promotion.  An entry whose owner is
  disabled or whose window starts too soon expires; one whose
  window is free is offered it; any other stays waiting.
-/
def promoteStep
    (rid : Uuid)
    (s : Cell)
    (visit : WaitlistEntry × Sample) : Cell :=
  if visit.2.Lapses visit.1 then
    s.setEntries visit.1.current
      (.transition .expired visit.2.dbNow)
  else if s.Occupied visit.1.timeRange then
    s
  else
    s.offerTo rid visit.1 visit.2

/- Promotion as one pass over the entries. -/
def promoteFold
    (rid : Uuid)
    (s : Cell)
    (visits : List (WaitlistEntry × Sample)) : Cell :=
  visits.foldl (promoteStep rid) s

@[simp] theorem promoteFold_nil
    (rid : Uuid)
    (s : Cell) :
    promoteFold rid s [] = s :=
  rfl

@[simp] theorem promoteFold_cons
    (rid : Uuid)
    (s : Cell)
    (visit : WaitlistEntry × Sample)
    (visits : List (WaitlistEntry × Sample)) :
    promoteFold rid s (visit :: visits) =
      promoteFold rid (promoteStep rid s visit) visits :=
  rfl

/- The booking that a step offers, if it offers one. -/
def offeredInStep
    (s : Cell)
    (visit : WaitlistEntry × Sample) : List Uuid :=
  if visit.2.Lapses visit.1 ∨
      s.Occupied visit.1.timeRange then
    []
  else
    [visit.2.bookingId]

def offeredInFold
    (rid : Uuid) :
    Cell → List (WaitlistEntry × Sample) → List Uuid
| _, [] => []
| s, visit :: visits =>
    offeredInStep s visit ++
      offeredInFold rid (promoteStep rid s visit) visits

/- The questions that a step asks, with their answers. -/
def askedInStep
    (s : Cell)
    (visit : WaitlistEntry × Sample) : List Asked :=
  [⟨.clock, visit.2.dbNow⟩,
    ⟨.ownerEnabled visit.1.userId, visit.2.ownerEnabled⟩] ++
  if visit.2.Lapses visit.1 ∨
      s.Occupied visit.1.timeRange then
    []
  else
    [⟨.clock, visit.2.offerNow⟩,
      ⟨.uuid, visit.2.bookingId⟩,
      ⟨.transactionTime, visit.2.createdAt⟩,
      ⟨.uuid, visit.2.eventId⟩]

def askedInFold
    (rid : Uuid) :
    Cell → List (WaitlistEntry × Sample) → List Asked
| _, [] => []
| s, visit :: visits =>
    askedInStep s visit ++
      askedInFold rid (promoteStep rid s visit) visits

/- The waiting entries in order of created_at and id. -/
def Cell.queue (s : Cell) : List WaitlistEntry :=
  (s.entries.filter (·.status = .waiting)).insertionSort
    (fun e e' => e.position ≤ e'.position)

end PigBook

------------------------------------------------------------
-- Satisfied Constraints
------------------------------------------------------------

namespace PigBook

open ReadCommitted

/- An UPDATE that leads to proper entries is accepted. -/
theorem entriesUpdateViolation_eq_none
    {s : Cell}
    {p : WaitlistEntry → Bool}
    {f : WaitlistEntry → WaitlistEntry}
    (hOk : EntriesOk (updateWhere p f s.entries))
    (hRefer : (s.setEntries p f).References) :
    s.entriesUpdateViolation p f = none := by
  have hChecks : ∀ e ∈ s.entries, p e → (f e).Check := by
    intro e hRow hCase
    exact
      hOk.checks (f e)
        (mem_updateWhere.mpr (Or.inl ⟨e, hRow, hCase, rfl⟩))
  have hLinked : (s.setEntries p f).LinkedUnique :=
    hOk.linkedApart
  have hActive : (s.setEntries p f).ActiveUnique :=
    hOk.apart
  have hNew :
      ∀ e ∈ s.entries, p e → f e ∈ updateWhere p f s.entries :=
    fun e hRow hCase =>
      mem_updateWhere.mpr (Or.inl ⟨e, hRow, hCase, rfl⟩)
  have hUsers :
      ¬ ∃ e ∈ s.entries, p e ∧
        (f e).userId ≠ e.userId ∧ (f e).userId ∉ s.users := by
    rintro ⟨e, hRow, hCase, -, hStranger⟩
    exact hStranger (hRefer.members _ (hNew e hRow hCase))
  have hLinks :
      ¬ ∃ e ∈ s.entries, p e ∧
        (f e).offeredBookingId ≠ e.offeredBookingId ∧
        ¬ s.HasLink (f e) := by
    rintro ⟨e, hRow, hCase, -, hNoLink⟩
    exact hNoLink (hRefer.links _ (hNew e hRow hCase))
  unfold Cell.entriesUpdateViolation
  rw [if_neg (not_not.mpr hChecks),
    if_neg (not_not.mpr hLinked),
    if_neg (not_not.mpr hActive), if_neg hUsers,
    if_neg hLinks]

/- A guarded UPDATE that leads to proper bookings, too. -/
theorem bookingsUpdateViolation_eq_none
    {s : Cell}
    {p : Booking → Bool}
    {f : Booking → Booking}
    (hGuard : ∀ b ∈ s.bookings, p b → b.GuardUpdate (f b))
    (hOk : BookingsOk (updateWhere p f s.bookings)) :
    s.bookingsUpdateViolation p f = none := by
  have hChecks : ∀ b ∈ s.bookings, p b → (f b).Check := by
    intro b hRow hCase
    exact
      hOk.checks (f b)
        (mem_updateWhere.mpr (Or.inl ⟨b, hRow, hCase, rfl⟩))
  have hApart : (s.setBookings p f).NoOverlap := hOk.apart
  unfold Cell.bookingsUpdateViolation
  rw [if_neg (not_not.mpr hGuard),
    if_neg (not_not.mpr hChecks),
    if_neg (not_not.mpr hApart)]

/- The row that is inserted fits in with the others. -/
theorem bookingRowViolation_eq_none_iff
    {s : Cell}
    {b : Booking} :
    s.bookingRowViolation b = none ↔
      b.Check ∧ (∀ b' ∈ s.bookings, b'.id ≠ b.id) ∧
        ¬ (b.status.active ∧ s.Occupied b.timeRange) := by
  unfold Cell.bookingRowViolation
  constructor
  · intro hNone
    split at hNone
    · cases hNone
    · split at hNone
      · cases hNone
      · split at hNone
        · cases hNone
        · rename_i hCheck hFresh hFree
          exact ⟨not_not.mp hCheck,
            fun b' hRow hId => hFresh ⟨b', hRow, hId⟩,
            hFree⟩
  · rintro ⟨hCheck, hFresh, hFree⟩
    have hNew : ¬ ∃ b' ∈ s.bookings, b'.id = b.id := by
      rintro ⟨b', hRow, hId⟩
      exact hFresh b' hRow hId
    rw [if_neg (not_not.mpr hCheck), if_neg hNew,
      if_neg hFree]

/- What the row refers to exists. -/
theorem bookingForeignViolation_eq_none_iff
    {s : Cell}
    {b : Booking} :
    s.bookingForeignViolation b = none ↔
      s.resource.isSome ∧ b.Owned s.users := by
  unfold Cell.bookingForeignViolation
  constructor
  · intro hNone
    split at hNone
    · cases hNone
    · split at hNone
      · cases hNone
      · split at hNone
        · cases hNone
        · rename_i hRoom hOwner hCreator
          exact ⟨Option.isSome_iff_ne_none.mpr hRoom,
            not_not.mp hOwner, not_not.mp hCreator⟩
  · rintro ⟨hRoom, hOwned⟩
    rw [if_neg (Option.isSome_iff_ne_none.mp hRoom),
      if_neg (not_not.mpr hOwned.owner),
      if_neg (not_not.mpr hOwned.creator)]

/- What the INSERT of a booking has checked. -/
theorem bookingViolation_eq_none_iff
    {s : Cell}
    {b : Booking} :
    s.bookingViolation b = none ↔
      (b.Check ∧ (∀ b' ∈ s.bookings, b'.id ≠ b.id) ∧
        ¬ (b.status.active ∧ s.Occupied b.timeRange)) ∧
      s.resource.isSome ∧ b.Owned s.users := by
  rw [← bookingRowViolation_eq_none_iff,
    ← bookingForeignViolation_eq_none_iff]
  unfold Cell.bookingViolation
  split
  · rename_i c hRow
    simp [hRow]
  · rename_i hRow
    simp [hRow]

/-
  Where all references hold, only the row itself can keep an
  INSERT from going through.
-/
theorem bookingViolation_eq_row
    {s : Cell}
    {b : Booking}
    (hRoom : s.resource.isSome)
    (hOwned : b.Owned s.users) :
    s.bookingViolation b = s.bookingRowViolation b := by
  unfold Cell.bookingViolation
  split
  · rename_i c hRow
    exact hRow.symm
  · rename_i hRow
    rw [hRow]
    exact
      bookingForeignViolation_eq_none_iff.mpr ⟨hRoom, hOwned⟩

theorem entryRowViolation_eq_none_iff
    {s : Cell}
    {e : WaitlistEntry} :
    s.entryRowViolation e = none ↔
      e.Check ∧ (∀ e' ∈ s.entries, e'.id ≠ e.id) ∧
        (∀ e' ∈ s.entries, e'.LinkedApart e) ∧
        ∀ e' ∈ s.entries, e'.Apart e := by
  unfold Cell.entryRowViolation
  constructor
  · intro hNone
    split at hNone
    · cases hNone
    · split at hNone
      · cases hNone
      · split at hNone
        · cases hNone
        · split at hNone
          · cases hNone
          · rename_i hCheck hFresh hLinked hApart
            exact ⟨not_not.mp hCheck,
              fun e' hRow hId => hFresh ⟨e', hRow, hId⟩,
              not_not.mp hLinked, not_not.mp hApart⟩
  · rintro ⟨hCheck, hFresh, hLinked, hApart⟩
    have hNew : ¬ ∃ e' ∈ s.entries, e'.id = e.id := by
      rintro ⟨e', hRow, hId⟩
      exact hFresh e' hRow hId
    rw [if_neg (not_not.mpr hCheck), if_neg hNew,
      if_neg (not_not.mpr hLinked),
      if_neg (not_not.mpr hApart)]

theorem entryForeignViolation_eq_none_iff
    {s : Cell}
    {e : WaitlistEntry} :
    s.entryForeignViolation e = none ↔
      e.userId ∈ s.users ∧ s.resource.isSome ∧
        s.HasLink e := by
  unfold Cell.entryForeignViolation
  constructor
  · intro hNone
    split at hNone
    · cases hNone
    · split at hNone
      · cases hNone
      · split at hNone
        · cases hNone
        · rename_i hUser hRoom hLink
          exact ⟨not_not.mp hUser,
            Option.isSome_iff_ne_none.mpr hRoom,
            not_not.mp hLink⟩
  · rintro ⟨hUser, hRoom, hLink⟩
    rw [if_neg (not_not.mpr hUser),
      if_neg (Option.isSome_iff_ne_none.mp hRoom),
      if_neg (not_not.mpr hLink)]

/- What the INSERT of an entry has checked. -/
theorem entryViolation_eq_none_iff
    {s : Cell}
    {e : WaitlistEntry} :
    s.entryViolation e = none ↔
      (e.Check ∧ (∀ e' ∈ s.entries, e'.id ≠ e.id) ∧
        (∀ e' ∈ s.entries, e'.LinkedApart e) ∧
        ∀ e' ∈ s.entries, e'.Apart e) ∧
      e.userId ∈ s.users ∧ s.resource.isSome ∧
        s.HasLink e := by
  rw [← entryRowViolation_eq_none_iff,
    ← entryForeignViolation_eq_none_iff]
  unfold Cell.entryViolation
  split
  · rename_i c hRow
    simp [hRow]
  · rename_i hRow
    simp [hRow]

/- What can be wrong with a booking that passes the CHECKs. -/
theorem bookingViolation_eq_some
    {s : Cell}
    {b : Booking}
    {c : Constraint}
    (hCheck : b.Check)
    (hRoom : s.resource.isSome)
    (hSome : s.bookingViolation b = some c) :
    (c = .bookingsPkey ∧ ∃ b' ∈ s.bookings, b'.id = b.id) ∨
      (c = .bookingsNoOverlap ∧ s.Occupied b.timeRange) ∨
      ((c = .bookingsUserIdFkey ∨ c = .bookingsCreatedByFkey) ∧
        ¬ b.Owned s.users) := by
  unfold Cell.bookingViolation at hSome
  split at hSome
  · rename_i c' hRow
    cases hSome
    unfold Cell.bookingRowViolation at hRow
    rw [if_neg (not_not.mpr hCheck)] at hRow
    split at hRow
    · rename_i hUses
      cases hRow
      exact Or.inl ⟨rfl, hUses⟩
    · split at hRow
      · rename_i hOccupied
        cases hRow
        exact Or.inr (Or.inl ⟨rfl, hOccupied.2⟩)
      · cases hRow
  · unfold Cell.bookingForeignViolation at hSome
    rw [if_neg (Option.isSome_iff_ne_none.mp hRoom)] at hSome
    split at hSome
    · rename_i hNoOwner
      cases hSome
      exact
        Or.inr (Or.inr ⟨Or.inl rfl,
          fun hOwned => hNoOwner hOwned.owner⟩)
    · split at hSome
      · rename_i hNoCreator
        cases hSome
        exact
          Or.inr (Or.inr ⟨Or.inr rfl,
            fun hOwned => hNoCreator hOwned.creator⟩)
      · cases hSome

/- What can be wrong with an entry that nothing forbids. -/
theorem entryViolation_eq_some
    {s : Cell}
    {e : WaitlistEntry}
    {c : Constraint}
    (hCheck : e.Check)
    (hLink : e.offeredBookingId = none)
    (hApart : ∀ e' ∈ s.entries, e'.Apart e)
    (hRoom : s.resource.isSome)
    (hSome : s.entryViolation e = some c) :
    (c = .waitlistEntriesPkey ∧
        ∃ e' ∈ s.entries, e'.id = e.id) ∨
      (c = .waitlistEntriesUserIdFkey ∧
        e.userId ∉ s.users) := by
  have hLinked : ∀ e' ∈ s.entries, e'.LinkedApart e := by
    intro e' _ hSome hEq
    rw [hEq, hLink] at hSome
    cases hSome
  have hHasLink : s.HasLink e := by
    intro id hId
    rw [hLink] at hId
    cases hId
  unfold Cell.entryViolation at hSome
  split at hSome
  · rename_i c' hRow
    cases hSome
    unfold Cell.entryRowViolation at hRow
    rw [if_neg (not_not.mpr hCheck)] at hRow
    split at hRow
    · rename_i hUses
      cases hRow
      exact Or.inl ⟨rfl, hUses⟩
    · cases hRow
  · unfold Cell.entryForeignViolation at hSome
    split at hSome
    · rename_i hNoUser
      cases hSome
      exact Or.inr ⟨rfl, hNoUser⟩
    · rw [if_neg (Option.isSome_iff_ne_none.mp hRoom)]
        at hSome
      cases hSome

end PigBook

------------------------------------------------------------
-- One Visit
------------------------------------------------------------

namespace PigBook

open ReadCommitted

/- The identifiers in use as bookings or as events. -/
def Cell.Uses (s : Cell) (id : Uuid) : Prop :=
  (∃ b ∈ s.bookings, b.id = id) ∨
    (∃ ev ∈ s.outbox, ev.id = id)

/-
  A drawn identifier was drawn twice or was in use before;
  with `used` the identifiers in use at the start.
-/
def Clash
    (used : Uuid → Prop)
    (log : List (Action inventory)) : Prop :=
  (∃ id ∈ drawn (asked log), used id) ∨
    ¬ (drawn (asked log)).Nodup

/- Identifiers now in use were in use before or are drawn. -/
def Cell.Accounted
    (used : Uuid → Prop)
    (log : List (Action inventory))
    (s : Cell) : Prop :=
  ∀ id, s.Uses id → used id ∨ id ∈ drawn (asked log)

variable {err : List (Action inventory) → Error → Prop}
variable {log : List (Action inventory)} {s : Cell}

/- The UPDATE that lets a waiting entry expire succeeds. -/
theorem expireWaiting_rule
    {post : List (Action inventory) → Cell → ℕ → Prop}
    (hCell : s.Valid)
    {e : WaitlistEntry}
    {dbNow : ℤ}
    (hRow : e ∈ s.entries)
    (hPost :
      ∀ keys : List Key,
        post (log ++ [⟨.plain, (), keys⟩])
          (s.setEntries e.current
            (.transition .expired dbNow)) 1) :
    (updateEntries e.current
      (.transition .expired dbNow)).wp post err log s := by
  have hLeft :
      (s.setEntries e.current
        (.transition .expired dbNow)).Valid :=
    hCell.leaveQueue hRow (Or.inl rfl)
  have hNone :=
    entriesUpdateViolation_eq_none hLeft.entries
      hLeft.references
  have hOne :
      (s.entries.filter e.current).length = 1 := by
    rw [hCell.entries.ids.filter_eq_singleton hRow
      (WaitlistEntry.current_iff hCell.entries.ids hRow)]
    rfl
  refine wp_updateEntries ?_ ?_
  · intro _
    rw [hOne]
    exact hPost _
  · intro c log hSome
    rw [hNone] at hSome
    cases hSome

end PigBook

------------------------------------------------------------
-- The Body of the Scan
------------------------------------------------------------

namespace PigBook

open ReadCommitted

variable {s : Cell}

/-
  The scan can take the step: it visits a waiting entry, and
  offers no booking under an identifier in use.
-/
structure Visit
    (s : Cell)
    (visit : WaitlistEntry × Sample) : Prop where
  row : visit.1 ∈ s.entries
  waiting : visit.1.status = .waiting
  fresh :
    ∀ id ∈ offeredInStep s visit, ∀ b ∈ s.bookings,
      b.id ≠ id

/- The scan can take the steps one after the other. -/
def Visits (rid : Uuid) :
    Cell → List (WaitlistEntry × Sample) → Prop
| _, [] => True
| s, visit :: visits =>
    Visit s visit ∧ Visits rid (promoteStep rid s visit) visits

theorem Visits.append
    {rid : Uuid}
    {vs vs' : List (WaitlistEntry × Sample)}
    (hFirst : Visits rid s vs)
    (hRest : Visits rid (promoteFold rid s vs) vs') :
    Visits rid s (vs ++ vs') := by
  induction vs generalizing s with
  | nil => exact hRest
  | cons v vs ih => exact ⟨hFirst.1, ih hFirst.2 hRest⟩

/- What every step preserves holds after the fold. -/
theorem Visits.induction
    {rid : Uuid}
    {Inv : Cell → Prop}
    (hStep :
      ∀ {s visit}, Inv s → Visit s visit →
        Inv (promoteStep rid s visit))
    {vs : List (WaitlistEntry × Sample)}
    (hVisits : Visits rid s vs)
    (hInv : Inv s) :
    Inv (promoteFold rid s vs) := by
  induction vs generalizing s with
  | nil => exact hInv
  | cons v vs ih =>
      exact ih hVisits.2 (hStep hInv hVisits.1)

/- A step that offers has a fresh identifier. -/
theorem Visit.fresh_of_offer
    {e : WaitlistEntry}
    {x : Sample}
    (hVisit : Visit s (e, x))
    (hStays : ¬ x.Lapses e)
    (hFree : ¬ s.Occupied e.timeRange) :
    ∀ b ∈ s.bookings, b.id ≠ x.bookingId := by
  refine hVisit.fresh x.bookingId ?_
  simp [offeredInStep, hStays, hFree]

/- A step keeps the tables valid. -/
theorem Visit.valid
    {rid : Uuid}
    {visit : WaitlistEntry × Sample}
    (hCell : s.Valid)
    (hVisit : Visit s visit) :
    (promoteStep rid s visit).Valid := by
  rcases visit with ⟨e, x⟩
  have hRow : e ∈ s.entries := hVisit.row
  unfold promoteStep
  by_cases hLapses : x.Lapses e
  · rw [if_pos hLapses]
    exact hCell.leaveQueue hRow (Or.inl rfl)
  · rw [if_neg hLapses]
    by_cases hOccupied : s.Occupied e.timeRange
    · rw [if_pos hOccupied]
      exact hCell
    · rw [if_neg hOccupied]
      have hOffered :
          ((s.addBooking (x.booking e)).setEntries e.current
            (.offer x.bookingId x.offerNow)).Valid :=
        hCell.offer hRow hVisit.waiting hOccupied
          (hVisit.fresh_of_offer hLapses hOccupied)
      refine hOffered.addEvent ⟨x.booking e, ?_, rfl⟩
      exact List.mem_append_right _
        (List.mem_singleton.mpr rfl)

/- A step keeps holds and entries in pairs. -/
theorem Visit.consistent
    {rid : Uuid}
    {visit : WaitlistEntry × Sample}
    (hCell : s.Consistent)
    (hVisit : Visit s visit) :
    (promoteStep rid s visit).Consistent := by
  rcases visit with ⟨e, x⟩
  have hRow : e ∈ s.entries := hVisit.row
  unfold promoteStep
  by_cases hLapses : x.Lapses e
  · rw [if_pos hLapses]
    exact
      hCell.leaveQueue hRow hVisit.waiting (Or.inl rfl)
  · rw [if_neg hLapses]
    by_cases hOccupied : s.Occupied e.timeRange
    · rw [if_pos hOccupied]
      exact hCell
    · rw [if_neg hOccupied]
      have hOffered :
          ((s.addBooking (x.booking e)).setEntries e.current
            (.offer x.bookingId x.offerNow)).Consistent :=
        hCell.offer hRow hVisit.waiting hOccupied
          (hVisit.fresh_of_offer hLapses hOccupied)
      refine hOffered.addEvent ⟨x.booking e, ?_, rfl⟩
      exact List.mem_append_right _
        (List.mem_singleton.mpr rfl)

variable {err : List (Action inventory) → Error → Prop}
variable {log : List (Action inventory)}
variable {used : Uuid → Prop}

/- A drawn identifier that is in use clashes. -/
theorem Cell.Accounted.clash
    (hAccounted : s.Accounted used log)
    {id : Uuid}
    (hUses : s.Uses id)
    {rest : List (Action inventory)}
    (hDrawn : id ∈ drawn (asked rest)) :
    Clash used (log ++ rest) := by
  rcases hAccounted id hUses with hUsed | hBefore
  · refine Or.inl ⟨id, ?_, hUsed⟩
    rw [asked_append, drawn_append]
    exact List.mem_append_right _ hDrawn
  · refine Or.inr ?_
    intro hNodup
    rw [asked_append, drawn_append] at hNodup
    exact
      (List.nodup_append.mp hNodup).2.2 id hBefore id hDrawn
        rfl

/- Accounts grow with the log. -/
theorem Cell.Accounted.extend
    {s' : Cell}
    (hAccounted : s.Accounted used log)
    {rest : List (Action inventory)}
    (hNew :
      ∀ id, s'.Uses id →
        s.Uses id ∨ id ∈ drawn (asked rest)) :
    s'.Accounted used (log ++ rest) := by
  intro id hUses
  rw [asked_append, drawn_append, List.mem_append]
  rcases hNew id hUses with hOld | hDrawn
  · rcases hAccounted id hOld with hUsed | hBefore
    · exact Or.inl hUsed
    · exact Or.inr (Or.inl hBefore)
  · exact Or.inr (Or.inr hDrawn)

/- The row of a waiting entry, with and without its status. -/
theorem WaitlistEntry.current_waiting
    {es : List WaitlistEntry}
    (hIds : Keyed WaitlistEntry.id es)
    {e : WaitlistEntry}
    (hRow : e ∈ es)
    (hWaiting : e.status = .waiting) :
    ∀ e' ∈ es,
      decide (e.current e' = true ∧ e'.status = .waiting) =
        e.current e' := by
  intro e' hRow'
  by_cases hCase : e.current e' = true
  · have hEq :=
      hIds.eq_of_key hRow' hRow
        ((WaitlistEntry.current_iff hIds hRow e' hRow').mp
          hCase)
    rw [hEq] at hCase ⊢
    simp [hCase, hWaiting]
  · simp [hCase]

/- The offer of a free window succeeds with fresh names. -/
theorem attemptOffer_rule
    {post :
      List (Action inventory) → Cell → Option Uuid → Prop}
    {rid : Uuid}
    {e : WaitlistEntry}
    {bookingId : Uuid}
    {offerNow createdAt : ℤ}
    (hCell : s.Valid)
    (hRow : e ∈ s.entries)
    (hWaiting : e.status = .waiting)
    (hFree : ¬ s.Occupied e.timeRange)
    (hUsed :
      s.Uses bookingId →
        ∀ rest c, err (log ++ rest) (.integrityError c))
    (hEvent :
      ∀ eventId rest, s.Uses eventId ∨ eventId = bookingId →
        eventId ∈ drawn (asked rest) →
          ∀ c, err (log ++ rest) (.integrityError c))
    (hPost :
      ∀ eventId rest,
        asked rest = [⟨.uuid, eventId⟩] →
        (∀ b ∈ s.bookings, b.id ≠ bookingId) →
          post (log ++ rest)
            (s.offerTo rid e
              { dbNow := 0
                ownerEnabled := some true
                offerNow := offerNow
                bookingId := bookingId
                createdAt := createdAt
                eventId := eventId })
            (some bookingId)) :
    (attemptOffer rid e bookingId offerNow createdAt).wp
      post err log s := by
  unfold attemptOffer
  simp only [Prog.bind_eq, Prog.wp_bind]
  have hCheck :=
    e.offeredBooking_check bookingId offerNow createdAt
  refine wp_insertBooking ?_ ?_
  · intro hInserted
    rcases bookingViolation_eq_none_iff.mp hInserted with
      ⟨⟨-, hNew, -⟩, -⟩
    have hFresh : ∀ b ∈ s.bookings, b.id ≠ bookingId := hNew
    have hOffered :
        ((s.addBooking
            (e.offeredBooking bookingId offerNow
              createdAt)).setEntries e.current
          (.offer bookingId offerNow)).Valid :=
      hCell.offer hRow hWaiting hFree hFresh
    have hSelects :=
      WaitlistEntry.current_iff hCell.entries.ids hRow
    -- the UPDATE's condition on the status changes nothing
    have hSame :=
      WaitlistEntry.current_waiting hCell.entries.ids hRow
        hWaiting
    have hUpdate :
        (s.addBooking
            (e.offeredBooking bookingId offerNow
              createdAt)).setEntries
          (fun e' => e.current e' ∧ e'.status = .waiting)
          (.offer bookingId offerNow) =
        (s.addBooking
            (e.offeredBooking bookingId offerNow
              createdAt)).setEntries e.current
          (.offer bookingId offerNow) := by
      unfold Cell.setEntries
      rw [Cell.addBooking_entries, updateWhere_congr hSame]
    have hCount :
        (s.entries.filter
          (fun e' => e.current e' ∧
            e'.status = .waiting)).length = 1 := by
      rw [List.filter_congr hSame,
        hCell.entries.ids.filter_eq_singleton hRow hSelects]
      rfl
    simp only [Prog.wp_bind]
    refine wp_updateEntries ?_ ?_
    · intro _
      rw [Cell.addBooking_entries, hCount, if_neg (by simp),
        Prog.wp_bind, hUpdate]
      refine wp_appendEvent ?_ ?_
      · intro eventId _
        simp only [Prog.pure_eq_done, Prog.wp_done,
          List.append_assoc]
        exact hPost eventId _ (by simp) hFresh
      · intro eventId c hViolated
        simp only [List.append_assoc]
        refine hEvent eventId _ ?_ (by simp) c
        unfold Cell.eventViolation at hViolated
        split at hViolated
        · exact Or.inl (Or.inr ‹_›)
        · split at hViolated
          · -- no event is about a booking yet to come
            rename_i hAggregate
            rcases hAggregate with ⟨ev, hEv, hId, -⟩
            rcases hCell.outboxExists ev hEv with
              ⟨b, hb, hIdB⟩
            exact absurd (hIdB.trans hId) (hFresh b hb)
          · cases hViolated
    · intro c log' hViolated
      have hOk := hOffered
      rw [← hUpdate] at hOk
      rw [entriesUpdateViolation_eq_none hOk.entries
        hOk.references] at hViolated
      cases hViolated
  · intro c hViolated
    -- the owner of the entry is a user, and the room exists
    rw [bookingViolation_eq_row
      (hCell.resource_isSome_of_entry hRow)
      (WaitlistEntry.offeredBooking_owned
        (hCell.members e hRow) bookingId offerNow createdAt)]
      at hViolated
    unfold Cell.bookingRowViolation at hViolated
    rw [if_neg (not_not.mpr hCheck)] at hViolated
    split at hViolated
    · cases hViolated
      rename_i hUses
      exact hUsed (Or.inl hUses) _ _
    · rw [if_neg (fun h => hFree h.2)] at hViolated
      cases hViolated

/- The identifiers in use after a step. -/
theorem promoteStep_uses
    {rid : Uuid}
    {e : WaitlistEntry}
    {x : Sample}
    {id : Uuid}
    (hUses : (promoteStep rid s (e, x)).Uses id) :
    s.Uses id ∨ id ∈ drawn (askedInStep s (e, x)) := by
  unfold promoteStep at hUses
  unfold askedInStep
  by_cases hLapses : x.Lapses e
  · rw [if_pos hLapses] at hUses
    exact Or.inl hUses
  · by_cases hOccupied : s.Occupied e.timeRange
    · rw [if_neg hLapses, if_pos hOccupied] at hUses
      exact Or.inl hUses
    · rw [if_neg hLapses, if_neg hOccupied] at hUses
      rw [if_neg (by simp [hLapses, hOccupied])]
      rcases hUses with ⟨b, hb, rfl⟩ | ⟨ev, hev, rfl⟩
      · rcases List.mem_append.mp hb with hOld | hNew
        · exact Or.inl (Or.inl ⟨b, hOld, rfl⟩)
        · rw [List.mem_singleton.mp hNew]
          right
          simp [Sample.booking,
            WaitlistEntry.offeredBooking]
      · rcases List.mem_append.mp hev with hOld | hNew
        · exact Or.inl (Or.inr ⟨ev, hOld, rfl⟩)
        · rw [List.mem_singleton.mp hNew]
          right
          simp [eventOf]

/-
  A visit has the effect of a step of the fold, for some
  sample, and asks the questions of that step.
-/
theorem promoteEntry_rule
    {post :
      List (Action inventory) → Cell → Option Uuid → Prop}
    {rid : Uuid}
    {e : WaitlistEntry}
    (hCell : s.Valid)
    (hRow : e ∈ s.entries)
    (hWaiting : e.status = .waiting)
    (hAccounted : s.Accounted used log)
    (hErr :
      ∀ log c, Clash used log → err log (.integrityError c))
    (hPost :
      ∀ x rest offered,
        asked rest = askedInStep s (e, x) →
        Visit s (e, x) →
        offered.toList = offeredInStep s (e, x) →
          post (log ++ rest) (promoteStep rid s (e, x))
            offered) :
    (promoteEntry rid e).wp post err log s := by
  unfold promoteEntry
  simp only [Prog.bind_eq, Prog.wp_bind, wp_clockTimestamp,
    wp_selectOwnerEnabled, Prog.pure_eq_done]
  intro dbNow enabled
  -- both ways to lapse end in the same step
  have hLapse :
      ∀ x : Sample, x.dbNow = dbNow →
        x.ownerEnabled = enabled → x.Lapses e →
          (Prog.bind
            (updateEntries e.current
              (.transition .expired dbNow))
            (fun _ => Prog.done none)).wp post err
            (log ++ [⟨.clock, dbNow, []⟩] ++
              [⟨.ownerEnabled e.userId, enabled, []⟩]) s := by
    intro x hNow hEnabled hLapses
    subst hNow hEnabled
    have hStep :
        promoteStep rid s (e, x) =
          s.setEntries e.current
            (.transition .expired x.dbNow) :=
      if_pos hLapses
    rw [Prog.wp_bind]
    refine expireWaiting_rule hCell hRow ?_
    intro keys
    rw [Prog.wp_done, List.append_assoc, List.append_assoc,
      ← hStep]
    refine hPost x _ none ?_ ?_ ?_
    · simp [askedInStep, hLapses]
    · exact ⟨hRow, hWaiting, by simp [offeredInStep, hLapses]⟩
    · simp [offeredInStep, hLapses]
  split
  · refine hLapse ⟨dbNow, enabled, 0, 0, 0, 0⟩ rfl rfl ?_
    exact Or.inl ‹_›
  · split
    · refine hLapse ⟨dbNow, enabled, 0, 0, 0, 0⟩ rfl rfl ?_
      exact Or.inr ‹_›
    · rename_i hEnabled hSoon
      have hStays :
          ∀ x : Sample, x.dbNow = dbNow →
            x.ownerEnabled = enabled → ¬ x.Lapses e := by
        intro x hNow hOwner hLapses
        subst hNow hOwner
        rcases hLapses with h | h
        · exact hEnabled h
        · exact hSoon h
      rw [Prog.wp_bind, wp_selectRows]
      by_cases hOccupied : s.Occupied e.timeRange
      · rw [if_pos (decide_eq_true hOccupied), Prog.wp_done,
          List.append_assoc, List.append_assoc]
        have hNot :=
          hStays ⟨dbNow, enabled, 0, 0, 0, 0⟩ rfl rfl
        have hStep :
            promoteStep rid s
              (e, ⟨dbNow, enabled, 0, 0, 0, 0⟩) = s := by
          unfold promoteStep
          rw [if_neg hNot, if_pos hOccupied]
        have hDone :=
          hPost ⟨dbNow, enabled, 0, 0, 0, 0⟩
            ([⟨.clock, dbNow, []⟩] ++
              ([⟨.ownerEnabled e.userId, enabled, []⟩] ++
                [⟨.plain, (), []⟩])) none
            (by simp [askedInStep, hOccupied])
            ⟨hRow, hWaiting,
              by simp [offeredInStep, hOccupied]⟩
            (by simp [offeredInStep, hOccupied])
        rw [hStep] at hDone
        exact hDone
      · rw [if_neg (by simpa using hOccupied)]
        simp only [Prog.wp_bind, wp_clockTimestamp, wp_uuid4,
          wp_transactionTime]
        intro offerNow bookingId createdAt
        have hQuestions :
            ∀ eventId,
              askedInStep s
                (e, ⟨dbNow, enabled, offerNow, bookingId,
                  createdAt, eventId⟩) =
                [⟨.clock, dbNow⟩,
                  ⟨.ownerEnabled e.userId, enabled⟩,
                  ⟨.clock, offerNow⟩, ⟨.uuid, bookingId⟩,
                  ⟨.transactionTime, createdAt⟩,
                  ⟨.uuid, eventId⟩] := by
          intro eventId
          have hNot :=
            hStays ⟨dbNow, enabled, offerNow, bookingId,
              createdAt, eventId⟩ rfl rfl
          simp [askedInStep, hNot, hOccupied]
        refine attemptOffer_rule hCell hRow hWaiting
          hOccupied ?_ ?_ ?_
        · intro hUses rest c
          refine hErr _ c ?_
          simp only [List.append_assoc]
          exact hAccounted.clash hUses (by simp)
        · intro eventId rest hUses hDrawn c
          refine hErr _ c ?_
          simp only [List.append_assoc]
          rcases hUses with hUses | rfl
          · exact hAccounted.clash hUses (by simp [hDrawn])
          · refine Or.inr ?_
            intro hNodup
            simp only [asked_append, drawn_append,
              asked_cons_clock, asked_cons_ownerEnabled,
              asked_cons_plain, asked_cons_uuid,
              asked_cons_transactionTime, asked_nil,
              drawn_cons_clock, drawn_cons_ownerEnabled,
              drawn_cons_uuid, drawn_cons_transactionTime,
              drawn_nil, List.nil_append] at hNodup
            have hRest := (List.nodup_append.mp hNodup).2.1
            exact
              (List.nodup_cons.mp hRest).1 hDrawn
        · intro eventId rest hAsked hFresh
          have hNot :=
            hStays ⟨dbNow, enabled, offerNow, bookingId,
              createdAt, eventId⟩ rfl rfl
          have hStep :
              promoteStep rid s
                (e, ⟨dbNow, enabled, offerNow, bookingId,
                  createdAt, eventId⟩) =
                s.offerTo rid e
                  ⟨0, some true, offerNow, bookingId,
                    createdAt, eventId⟩ := by
            unfold promoteStep
            rw [if_neg hNot, if_neg hOccupied]
            rfl
          rw [← hStep]
          simp only [List.append_assoc]
          refine hPost _ _ (some bookingId) ?_ ?_ ?_
          · rw [hQuestions eventId]
            simp [hAsked]
          · exact ⟨hRow, hWaiting,
              by simpa [offeredInStep, hNot, hOccupied]
                using hFresh⟩
          · simp [offeredInStep, hNot, hOccupied]

end PigBook

------------------------------------------------------------
-- The Scan
------------------------------------------------------------

namespace PigBook

open ReadCommitted

/- The status condition of the scan. -/
def WaitlistEntry.isWaiting (e : WaitlistEntry) : Bool :=
  e.status = .waiting

/- The entries that the scan has still to visit. -/
abbrev Cell.Unvisited
    (s : Cell)
    (cursor : Option (ℤ ×ₗ Uuid))
    (rest : List WaitlistEntry) : Prop :=
  Remaining WaitlistEntry.position WaitlistEntry.isWaiting
    cursor s.entries rest

/- The keyset condition is the order of the positions. -/
theorem WaitlistEntry.after_iff
    {cursor : Option (ℤ ×ₗ Uuid)}
    {e : WaitlistEntry} :
    e.After cursor ↔
      Behind WaitlistEntry.position cursor e := by
  unfold WaitlistEntry.After Behind
  refine forall₂_congr (fun c _ => ?_)
  exact
    (Prod.Lex.lt_iff (x := c) (y := e.position)).symm

theorem Cell.waitingPage_eq_page
    (s : Cell)
    (cursor : Option (ℤ ×ₗ Uuid))
    (pageSize : ℕ) :
    s.waitingPage cursor pageSize =
      page WaitlistEntry.position WaitlistEntry.isWaiting
        cursor pageSize s.entries := by
  unfold Cell.waitingPage page
  refine congrArg (List.take pageSize) ?_
  refine congrArg _ ?_
  refine List.filter_congr ?_
  intro e _
  rw [Bool.decide_and]
  simp only [WaitlistEntry.isWaiting,
    WaitlistEntry.after_iff]

variable {s : Cell}

/- After a step the rest of the queue is unchanged. -/
theorem promoteStep_unvisited
    (hCell : s.Valid)
    {rid : Uuid}
    {cursor : Option (ℤ ×ₗ Uuid)}
    {e : WaitlistEntry}
    {rest : List WaitlistEntry}
    (x : Sample)
    (hRest : s.Unvisited cursor (e :: rest)) :
    (promoteStep rid s (e, x)).Unvisited (some e.position)
      rest := by
  have hRow := (hRest.mem_iff.mp List.mem_cons_self).1
  have hUpdate :
      ∀ f : WaitlistEntry → WaitlistEntry,
        (∀ y, (f y).position = y.position) →
          (updateWhere e.current f s.entries).filter
              (fun y => y.isWaiting &&
                decide (e.position < y.position)) =
            s.entries.filter
              (fun y => y.isWaiting &&
                decide (e.position < y.position)) := by
    intro f hPosition
    refine filter_updateWhere ?_
    intro y hy hCase
    have hId :=
      (WaitlistEntry.current_iff hCell.entries.ids hRow y
        hy).mp hCase
    rw [hPosition,
      hCell.entries.ids.eq_of_key hy hRow hId]
    simp
  refine hRest.visit ?_
  unfold promoteStep
  split
  · exact hUpdate _ (fun _ => rfl)
  · split
    · rfl
    · exact hUpdate _ (fun _ => rfl)

/- Folds over a longer pass go step by step. -/
theorem promoteFold_append
    (rid : Uuid)
    (s : Cell)
    (vs vs' : List (WaitlistEntry × Sample)) :
    promoteFold rid s (vs ++ vs') =
      promoteFold rid (promoteFold rid s vs) vs' :=
  List.foldl_append

theorem askedInFold_append
    (rid : Uuid)
    (s : Cell)
    (vs vs' : List (WaitlistEntry × Sample)) :
    askedInFold rid s (vs ++ vs') =
      askedInFold rid s vs ++
        askedInFold rid (promoteFold rid s vs) vs' := by
  induction vs generalizing s with
  | nil => rfl
  | cons v vs ih =>
      simp only [List.cons_append, askedInFold, ih,
        List.append_assoc]
      rfl

theorem offeredInFold_append
    (rid : Uuid)
    (s : Cell)
    (vs vs' : List (WaitlistEntry × Sample)) :
    offeredInFold rid s (vs ++ vs') =
      offeredInFold rid s vs ++
        offeredInFold rid (promoteFold rid s vs) vs' := by
  induction vs generalizing s with
  | nil => rfl
  | cons v vs ih =>
      simp only [List.cons_append, offeredInFold, ih,
        List.append_assoc]
      rfl

/- The cursor after a page. -/
def cursorAfter
    (cursor : Option (ℤ ×ₗ Uuid))
    (es : List WaitlistEntry) : Option (ℤ ×ₗ Uuid) :=
  match es.getLast? with
  | none => cursor
  | some last => some last.position

theorem cursorAfter_cons
    (cursor : Option (ℤ ×ₗ Uuid))
    (e : WaitlistEntry)
    (es : List WaitlistEntry) :
    cursorAfter cursor (e :: es) =
      cursorAfter (some e.position) es := by
  unfold cursorAfter
  rw [List.getLast?_cons]
  cases es.getLast? with
  | none => rfl
  | some last => rfl

variable {err : List (Action inventory) → Error → Prop}
variable {log : List (Action inventory)}
variable {used : Uuid → Prop}

/- A page has the effect of a fold over its entries. -/
theorem promotePage_rule
    {post :
      List (Action inventory) → Cell → List Uuid → Prop}
    {rid : Uuid}
    {es rest : List WaitlistEntry}
    {cursor : Option (ℤ ×ₗ Uuid)}
    {promoted : List Uuid}
    (hCell : s.Valid)
    (hRest : s.Unvisited cursor (es ++ rest))
    (hAccounted : s.Accounted used log)
    (hErr :
      ∀ log c, Clash used log → err log (.integrityError c))
    (hPost :
      ∀ xs acts, xs.length = es.length →
        asked acts = askedInFold rid s (es.zip xs) →
        Visits rid s (es.zip xs) →
        (promoteFold rid s (es.zip xs)).Accounted used
          (log ++ acts) →
        (promoteFold rid s (es.zip xs)).Unvisited
          (cursorAfter cursor es) rest →
          post (log ++ acts) (promoteFold rid s (es.zip xs))
            (promoted ++
              offeredInFold rid s (es.zip xs))) :
    (promotePage rid es promoted).wp post err log s := by
  induction es generalizing s log cursor promoted with
  | nil =>
      have hDone :=
        hPost [] [] rfl rfl trivial
          (by simpa using hAccounted) hRest
      simpa [promotePage, offeredInFold] using hDone
  | cons e es ih =>
      have hHead := hRest.mem_iff.mp List.mem_cons_self
      have hWaiting : e.status = .waiting := by
        simpa [WaitlistEntry.isWaiting] using hHead.2.1
      unfold promotePage
      rw [Prog.bind_eq, Prog.wp_bind]
      refine
        promoteEntry_rule hCell hHead.1 hWaiting hAccounted
          hErr ?_
      intro x acts offered hAsked hVisit hOffered
      have hNext :
          (promoteStep rid s (e, x)).Accounted used
            (log ++ acts) := by
        refine hAccounted.extend ?_
        intro id hUses
        rw [hAsked]
        exact promoteStep_uses hUses
      refine
        ih (hVisit.valid hCell)
          (promoteStep_unvisited hCell x hRest) hNext ?_
      intro xs acts' hLength hAsked' hVisits hAccounted' hRest'
      rw [← cursorAfter_cons cursor] at hRest'
      have hDone :=
        hPost (x :: xs) (acts ++ acts')
          (by simp [hLength])
          (by simp [hAsked, hAsked', askedInFold])
          ⟨hVisit, hVisits⟩
          (by simpa using hAccounted')
          hRest'
      simpa [offeredInFold, hOffered] using hDone

/-
  The scan has the effect of a fold over what remains, by
  induction on the bound of its loop.
-/
theorem scanWaiting_rule
    {post :
      List (Action inventory) → Cell → List Uuid → Prop}
    {rid : Uuid}
    {pageSize bound : ℕ}
    {rest : List WaitlistEntry}
    {cursor : Option (ℤ ×ₗ Uuid)}
    {promoted : List Uuid}
    (hSize : 1 ≤ pageSize)
    (hBound : rest.length < bound)
    (hCell : s.Valid)
    (hRest : s.Unvisited cursor rest)
    (hAccounted : s.Accounted used log)
    (hErr :
      ∀ log c, Clash used log → err log (.integrityError c))
    (hPost :
      ∀ xs acts, xs.length = rest.length →
        asked acts = askedInFold rid s (rest.zip xs) →
        Visits rid s (rest.zip xs) →
        (promoteFold rid s (rest.zip xs)).Accounted used
          (log ++ acts) →
          post (log ++ acts)
            (promoteFold rid s (rest.zip xs))
            (promoted ++
              offeredInFold rid s (rest.zip xs))) :
    (scanWaiting rid pageSize bound cursor promoted).wp
      post err log s := by
  induction bound generalizing s log rest cursor promoted with
  | zero => exact absurd hBound (Nat.not_lt_zero _)
  | succ bound ih =>
      unfold scanWaiting
      rw [Prog.bind_eq, Prog.wp_bind, wp_selectRows,
        Cell.waitingPage_eq_page, hRest.page_eq]
      have hSplit :
          rest.take pageSize ++ rest.drop pageSize = rest :=
        List.take_append_drop pageSize rest
      cases hLast : (rest.take pageSize).getLast? with
      | none =>
          -- an empty page: nothing was left
          have hNil : rest = [] := by
            have hTake := List.getLast?_eq_none_iff.mp hLast
            rcases List.take_eq_nil_iff.mp hTake with h | h
            · omega
            · exact h
          subst hNil
          have hDone :=
            hPost [] [⟨.plain, (), []⟩] rfl rfl trivial
              (by
                refine hAccounted.extend ?_
                intro id hUses
                exact Or.inl hUses)
          simpa [offeredInFold] using hDone
      | some last =>
          have hPage :
              s.Unvisited cursor
                (rest.take pageSize ++ rest.drop pageSize) := by
            rw [hSplit]
            exact hRest
          have hNow :
              s.Accounted used
                (log ++ [⟨.plain, (), []⟩]) := by
            refine hAccounted.extend ?_
            intro id hUses
            exact Or.inl hUses
          simp only [Prog.bind_eq, Prog.wp_bind]
          refine promotePage_rule hCell hPage hNow hErr ?_
          intro xs acts hLength hAsked hVisits hAccounted'
            hRest'
          by_cases hShort :
              (rest.take pageSize).length < pageSize
          · -- a short page is the last one
            have hWhole : rest.take pageSize = rest := by
              rw [List.length_take] at hShort
              exact List.take_of_length_le (by omega)
            rw [if_pos hShort]
            rw [hWhole] at hLength hAsked hVisits hAccounted' ⊢
            have hDone :=
              hPost xs ([⟨.plain, (), []⟩] ++ acts) hLength
                (by simp [hAsked]) hVisits
                (by simpa using hAccounted')
            simpa using hDone
          · rw [if_neg hShort]
            have hCursor :
                cursorAfter cursor (rest.take pageSize) =
                  some last.position := by
              unfold cursorAfter
              rw [hLast]
            rw [hCursor] at hRest'
            refine
              ih ?_
                (hVisits.induction (fun h hVisit => hVisit.valid h) hCell)
                hRest' hAccounted' ?_
            · rw [List.length_take] at hShort
              rw [List.length_drop]
              omega
            · intro xs' acts' hLength' hAsked' hVisits'
                hAccounted''
              have hZip :
                  rest.zip (xs ++ xs') =
                    (rest.take pageSize).zip xs ++
                      (rest.drop pageSize).zip xs' := by
                rw [← List.zip_append hLength.symm, hSplit]
              have hTotal :
                  (xs ++ xs').length = rest.length := by
                rw [← hSplit, List.length_append, hLength,
                  hLength', List.length_append]
              have hDone :=
                hPost (xs ++ xs')
                  ([⟨.plain, (), []⟩] ++ (acts ++ acts'))
                  hTotal
                  (by
                    rw [hZip, askedInFold_append]
                    simp [hAsked, hAsked'])
                  (by
                    rw [hZip]
                    exact hVisits.append hVisits')
                  (by
                    rw [hZip, promoteFold_append]
                    simpa using hAccounted'')
              rw [hZip, promoteFold_append,
                offeredInFold_append] at hDone
              simpa using hDone

/- The promotion has the effect of a fold over the queue. -/
theorem promoteWaiters_rule
    {post :
      List (Action inventory) → Cell → List Uuid → Prop}
    {rid : Uuid}
    {pageSize : ℕ}
    (hSize : 1 ≤ pageSize)
    (hCell : s.Valid)
    (hAccounted : s.Accounted used log)
    (hErr :
      ∀ log c, Clash used log → err log (.integrityError c))
    (hPost :
      ∀ xs acts, xs.length = s.queue.length →
        asked acts = askedInFold rid s (s.queue.zip xs) →
        Visits rid s (s.queue.zip xs) →
          post (log ++ acts)
            (promoteFold rid s (s.queue.zip xs))
            (offeredInFold rid s (s.queue.zip xs))) :
    (promoteWaiters pageSize rid).wp post err log s := by
  unfold promoteWaiters
  rw [Prog.bind_eq, Prog.wp_bind, wp_select_plain]
  have hKeyed : Keyed WaitlistEntry.position s.entries := by
    refine hCell.entries.ids.imp ?_
    intro e e' hNe hEq
    exact hNe (congrArg (fun c => (ofLex c).2) hEq)
  have hStart : s.Unvisited none s.queue :=
    Remaining.start hKeyed
  have hBound : s.queue.length < s.entries.length + 1 := by
    unfold Cell.queue
    rw [List.length_insertionSort]
    exact Nat.lt_succ_of_le (List.length_filter_le _ _)
  refine
    scanWaiting_rule hSize hBound hCell hStart ?_ hErr ?_
  · refine hAccounted.extend ?_
    intro id hUses
    exact Or.inl hUses
  · intro xs acts hLength hAsked hVisits _
    have hDone :=
      hPost xs
        ([⟨.plain, (),
            s.resourceKeys (.resourceUpdate rid)⟩] ++ acts)
        hLength (by simp [hAsked]) hVisits
    simpa using hDone

end PigBook
