import PigBook.Inventory.Guarantees

/-
  Admission to the waitlist: how long the waitlist gets, and
  what each request to join it is answered.

  Key definitions include:
    * `Cell.waitlistLength`
    * `Cell.refusal`
    * `Turned` and `Joined`

  Key theorems include:
    * `Outcome.waitlistLength`
    * `joinWaitlist_answered`
    * `waitlist_admission`
-/

------------------------------------------------------------
-- The Length of the Waitlist
------------------------------------------------------------

namespace PigBook

open ReadCommitted

/- The entries of the resource that wait or are on offer. -/
def Cell.waitlistLength (s : Cell) : ℕ :=
  (s.entries.filter (·.status.active)).length

/- Entries that an UPDATE brings in were in before. -/
theorem waitlistLength_setEntries
    {s : Cell}
    {p : WaitlistEntry → Bool}
    {f : WaitlistEntry → WaitlistEntry}
    (hLeaves :
      ∀ e ∈ s.entries, p e = true →
        (f e).status.active = true →
          e.status.active = true) :
    (s.setEntries p f).waitlistLength ≤ s.waitlistLength :=
  length_filter_updateWhere_le hLeaves

theorem waitlistLength_transition
    {s : Cell}
    {p : WaitlistEntry → Bool}
    {status : EntryStatus}
    {now : ℤ}
    (hOut : status.active = false) :
    (s.setEntries p (.transition status now)).waitlistLength ≤
      s.waitlistLength := by
  apply waitlistLength_setEntries
  intro e _ _ hActive
  change status.active = true at hActive
  rw [hOut] at hActive
  cases hActive

theorem waitlistLength_close
    {s : Cell}
    {e : WaitlistEntry}
    {b : Booking}
    {f : Booking → Booking}
    {status : EntryStatus}
    {now : ℤ}
    (hOut : status.active = false) :
    (s.close e b f status now).waitlistLength ≤
      s.waitlistLength :=
  waitlistLength_transition
    (s := s.setBookings b.current f) hOut

/- A step of the promotion moves entries, and drops some. -/
theorem Visit.waitlistLength
    {s : Cell}
    {rid : Uuid}
    {visit : WaitlistEntry × Sample}
    (hCell : s.Valid)
    (hVisit : Visit s visit) :
    (promoteStep rid s visit).waitlistLength ≤
      s.waitlistLength := by
  unfold promoteStep
  by_cases hLapses : visit.2.Lapses visit.1
  · rw [if_pos hLapses]
    exact waitlistLength_transition rfl
  · rw [if_neg hLapses]
    by_cases hOccupied : s.Occupied visit.1.timeRange
    · rw [if_pos hOccupied]
    · rw [if_neg hOccupied]
      -- the entry that gets the offer was waiting for it
      refine waitlistLength_setEntries (s := s.addBooking _) ?_
      intro e hRow hSelects _
      have hId :=
        (WaitlistEntry.current_iff hCell.entries.ids
          hVisit.row e hRow).mp hSelects
      rw [hCell.entries.ids.eq_of_key hRow hVisit.row hId,
        hVisit.waiting]
      rfl

theorem Visits.waitlistLength
    {s : Cell}
    {rid : Uuid}
    {visits : List (WaitlistEntry × Sample)}
    (hCell : s.Valid)
    (hVisits : Visits rid s visits) :
    (promoteFold rid s visits).waitlistLength ≤
      s.waitlistLength := by
  -- the step moves what it finds by its key
  have hStep :
      ∀ {t : Cell} {visit : WaitlistEntry × Sample},
        (t.Valid ∧ t.waitlistLength ≤ s.waitlistLength) →
          Visit t visit →
            ((promoteStep rid t visit).Valid ∧
              (promoteStep rid t visit).waitlistLength ≤
                s.waitlistLength) := by
    intro t visit hInv hVisit
    exact ⟨hVisit.valid hInv.1,
      le_trans (hVisit.waitlistLength hInv.1) hInv.2⟩
  exact (hVisits.induction hStep ⟨hCell, le_refl _⟩).2

section Outcomes

variable {rid : Uuid} {log : List (Action inventory)}
variable {s s' : Cell}

theorem Release.waitlistLength
    (hRelease : Release rid log s s') :
    s'.waitlistLength ≤ s.waitlistLength := by
  cases hRelease with
  | expire hExpiries =>
      induction hExpiries with
      | refl => exact le_refl _
      | tail _ hExpiry ih =>
          cases hExpiry with
          | intro hHold hSampled hLate =>
              exact le_trans (waitlistLength_close rfl) ih
  | decline hHold => exact waitlistLength_close rfl
  | cancelHold hHold hCheck => exact waitlistLength_close rfl
  | cancelConfirmed hRow => exact le_refl _
  | cancelBlackout hRow => exact le_refl _

theorem Gain.waitlistLength
    (hGain : Gain rid log s s') :
    s'.waitlistLength ≤
      max s.waitlistLength waitlistCapacity := by
  cases hGain with
  | reserve | blackout | patch => exact le_max_left _ _
  | @enqueue r e _ _ _ _ _ _ _ hRoom =>
      -- one more than what left room for it
      refine le_trans ?_ (le_max_right _ _)
      unfold Cell.waitlistLength
      simp only [Cell.addEntry, List.filter_append,
        List.length_append]
      have hOne := List.length_filter_le
        (fun e : WaitlistEntry => e.status.active) [e]
      exact le_trans (Nat.add_le_add_left hOne _) hRoom
  | withdraw hRow hWaiting =>
      exact
        le_trans (waitlistLength_transition rfl)
          (le_max_left _ _)
  | accept hHold =>
      exact
        le_trans (waitlistLength_close rfl) (le_max_left _ _)

/- No outcome brings the waitlist above its capacity. -/
theorem Outcome.waitlistLength
    (hCell : s.Consistent)
    (hOutcome : Outcome rid log s s') :
    s'.waitlistLength ≤
      max s.waitlistLength waitlistCapacity := by
  cases hOutcome with
  | quiet => exact le_max_left _ _
  | gain hGain => exact hGain.waitlistLength
  | release hPromoted =>
      refine le_trans ?_ (le_max_left _ _)
      cases hPromoted with
      | intro hDone hLength hVisits hAsked =>
          have hReleased := hDone.consistent hCell
          exact
            le_trans (hVisits.waitlistLength hReleased.toValid)
              hDone.waitlistLength

end Outcomes

end PigBook

------------------------------------------------------------
-- The Answers to a Join
------------------------------------------------------------

namespace PigBook

open ReadCommitted

/- The user owns an active reservation in the window. -/
def Cell.Reserves
    (userId : Uuid)
    (r : TimeRange)
    (s : Cell) : Prop :=
  ∃ b ∈ s.bookings, b.Occupies r ∧ b.kind = .reservation ∧
    b.userId = some userId

instance
    (userId : Uuid)
    (r : TimeRange)
    (s : Cell) : Decidable (s.Reserves userId r) :=
  inferInstanceAs (Decidable (∃ b ∈ s.bookings, _))

/- The user is on the waitlist for the very window. -/
def Cell.Awaits
    (userId : Uuid)
    (r : TimeRange)
    (s : Cell) : Prop :=
  ∃ e ∈ s.entries, e.userId = userId ∧ e.timeRange = r ∧
    e.status.active = true

instance
    (userId : Uuid)
    (r : TimeRange)
    (s : Cell) : Decidable (s.Awaits userId r) :=
  inferInstanceAs (Decidable (∃ e ∈ s.entries, _))

/-
  Why nobody who asks for the window may join now: the first
  reason that applies, if any.
-/
def Cell.refusal
    (userId : Uuid)
    (r : TimeRange)
    (s : Cell) : Option Error :=
  if ¬ s.Occupied r then
    some (.slotAvailable
      "Requested slot is available for direct booking")
  else if s.Reserves userId r then
    some (.alreadyBooked
      "User already owns an active reservation overlapping this interval")
  else if s.Awaits userId r then
    some (.alreadyWaitlisted
      "User is already on the waitlist for this window")
  else if waitlistCapacity ≤ s.waitlistLength then
    some (.waitlistFull
      "The waitlist for this resource is currently full (maximum 500 active entries)")
  else
    none

/- The identifier was drawn in the transaction. -/
def Drew
    (log : List (Action inventory))
    (id : Uuid) : Prop :=
  ⟨.uuid, id, []⟩ ∈ log

/- The transaction has begun by reading the clock. -/
def Clocked (log : List (Action inventory)) : Prop :=
  ∃ now : ℤ, log.head? = some ⟨.clock, now, []⟩

/-
  How a join of the window fails in a cell whose resource is
  active: with the reason for its refusal, before it draws an
  identifier, or for an identifier that is taken, or for a
  user that is not registered.
-/
def Turned
    (userId : Uuid)
    (r : TimeRange)
    (s : Cell)
    (log : List (Action inventory))
    (err : Error) : Prop :=
  (s.refusal userId r = some err ∧ ∀ id, ¬ Drew log id) ∨
  (s.refusal userId r = none ∧
    err = .integrityError .waitlistEntriesPkey ∧
    ∃ id, Drew log id ∧ ∃ e ∈ s.entries, e.id = id) ∨
  (s.refusal userId r = none ∧
    err = .integrityError .waitlistEntriesUserIdFkey ∧
    userId ∉ s.users)

/-
  What a join that has passed its checks can still fail with:
  an identifier that is taken, or an unregistered user.
-/
def Unforeseen
    (userId : Uuid)
    (s : Cell)
    (err : Error) : Prop :=
  err = .integrityError .waitlistEntriesPkey ∨
    (err = .integrityError .waitlistEntriesUserIdFkey ∧
      userId ∉ s.users)

/- A join adds a waiting entry for the window. -/
def Joined
    (rid : Uuid)
    (userId : Uuid)
    (r : TimeRange)
    (s s' : Cell)
    (reply : Reply) : Prop :=
  s.refusal userId r = none ∧
    ∃ e : WaitlistEntry, e.userId = userId ∧
      e.timeRange = r ∧ e.status = .waiting ∧
      s' = s.addEntry e ∧ reply = .entry (e.schema rid)

end PigBook

namespace PigBook

open ReadCommitted

variable {s : Cell} {rid userId : Uuid} {r : TimeRange}

theorem mem_occupying
    {b : Booking} :
    b ∈ s.bookings.filter (fun b => b.Occupies r) ↔
      b ∈ s.bookings ∧ b.Occupies r := by
  rw [List.mem_filter, decide_eq_true_iff]

theorem not_occupied_of_nil
    (hNone :
      s.bookings.filter (fun b => b.Occupies r) = []) :
    ¬ s.Occupied r := by
  rintro ⟨b, hRow, hOccupies⟩
  have hIn := mem_occupying.mpr ⟨hRow, hOccupies⟩
  rw [hNone] at hIn
  cases hIn

theorem occupied_of_ne_nil
    (hSome :
      s.bookings.filter (fun b => b.Occupies r) ≠ []) :
    s.Occupied r := by
  rcases List.exists_mem_of_ne_nil _ hSome with ⟨b, hRow⟩
  exact ⟨b, mem_occupying.mp hRow⟩

theorem reserves_iff :
    (∃ b ∈ s.bookings.filter (fun b => b.Occupies r),
      b.kind = .reservation ∧ b.userId = some userId) ↔
      s.Reserves userId r := by
  constructor
  · intro ⟨b, hIn, hOwn⟩
    have hRow := mem_occupying.mp hIn
    exact ⟨b, hRow.1, hRow.2, hOwn⟩
  · intro ⟨b, hRow, hOccupies, hOwn⟩
    exact ⟨b, mem_occupying.mpr ⟨hRow, hOccupies⟩, hOwn⟩

/- The rows that the check for a duplicate selects. -/
def Cell.duplicates
    (userId : Uuid)
    (r : TimeRange)
    (s : Cell) : List WaitlistEntry :=
  s.entries.filter (fun e =>
    e.userId = userId ∧ e.timeRange = r ∧ e.status.active)

theorem mem_duplicates
    {e : WaitlistEntry} :
    e ∈ s.duplicates userId r ↔
      e ∈ s.entries ∧ e.userId = userId ∧
        e.timeRange = r ∧ e.status.active = true := by
  unfold Cell.duplicates
  rw [List.mem_filter, decide_eq_true_iff]

/- The unique index leaves one duplicate at most. -/
theorem duplicates_length
    (hCell : s.Valid) :
    (s.duplicates userId r).length ≤ 1 := by
  have hApart :
      (s.duplicates userId r).Pairwise WaitlistEntry.Apart :=
    hCell.entries.apart.filter _
  match hRows : s.duplicates userId r with
  | [] => exact Nat.zero_le 1
  | [e] => exact le_refl 1
  | e :: e' :: rest =>
      rw [hRows] at hApart
      have hAway :=
        (List.pairwise_cons.mp hApart).1 e' (by simp)
      have hRow : e ∈ s.duplicates userId r := by
        rw [hRows]
        simp
      have hRow' : e' ∈ s.duplicates userId r := by
        rw [hRows]
        simp
      rcases mem_duplicates.mp hRow with
        ⟨-, hUser, hWindow, hActive⟩
      rcases mem_duplicates.mp hRow' with
        ⟨-, hUser', hWindow', hActive'⟩
      exact
        absurd ⟨hUser.trans hUser'.symm,
          hWindow.trans hWindow'.symm⟩ (hAway hActive hActive')

/- No row or one: the check for a duplicate cannot fail. -/
theorem wp_duplicates
    (hCell : s.Valid)
    {log : List (Action inventory)}
    {err : List (Action inventory) → Error → Prop}
    {post :
      List (Action inventory) → Cell →
        Option WaitlistEntry → Prop}
    (hNone : ¬ s.Awaits userId r → post log s none)
    (hSome : ∀ e, s.Awaits userId r → post log s (some e)) :
    (scalarOneOrNone (s.duplicates userId r)).wp post err log
      s := by
  have hLength : (s.duplicates userId r).length ≤ 1 :=
    duplicates_length hCell
  match hRows : s.duplicates userId r with
  | [] =>
      refine hNone ?_
      intro ⟨e, hRow⟩
      have hIn := mem_duplicates.mpr hRow
      rw [hRows] at hIn
      cases hIn
  | [e] =>
      refine hSome e ⟨e, mem_duplicates.mp ?_⟩
      rw [hRows]
      simp
  | e :: e' :: rest =>
      rw [hRows] at hLength
      simp at hLength

end PigBook

------------------------------------------------------------
-- The Rule for a Join
------------------------------------------------------------

namespace PigBook

open ReadCommitted

variable {s : Cell} {rid : Uuid}

/- Where nobody waits yet, the unique index is no obstacle. -/
theorem entryViolation_of_not_awaits
    {e : WaitlistEntry}
    {c : Constraint}
    (hCheck : e.Check)
    (hLink : e.offeredBookingId = none)
    (hNew : ¬ s.Awaits e.userId e.timeRange)
    (hRoom : s.resource.isSome)
    (hSome : s.entryViolation e = some c) :
    (c = .waitlistEntriesPkey ∧
        ∃ e' ∈ s.entries, e'.id = e.id) ∨
      (c = .waitlistEntriesUserIdFkey ∧
        e.userId ∉ s.users) := by
  have hApart : ∀ e' ∈ s.entries, e'.Apart e := by
    intro e' hRow hActive _ hSame
    exact hNew ⟨e', hRow, hSame.1, hSame.2, hActive⟩
  exact
    entryViolation_eq_some hCheck hLink hApart hRoom hSome

/- The row of an entry that has just been inserted. -/
theorem refreshInserted_rule
    {e : WaitlistEntry}
    {log : List (Action inventory)}
    {err : List (Action inventory) → Error → Prop}
    {post :
      List (Action inventory) → Cell → WaitlistEntry → Prop}
    (hNew : s.entryViolation e = none)
    (hPost :
      post (log ++ [⟨.plain, (), []⟩]) (s.addEntry e) e) :
    (refreshEntry e).wp post err log (s.addEntry e) := by
  have hFresh := (entryViolation_eq_none_iff.mp hNew).1.2.1
  have hRows :
      (s.addEntry e).entries.filter (fun e' => e'.id = e.id) =
        [e] := by
    have hOld :
        s.entries.filter (fun e' => e'.id = e.id) = [] := by
      apply List.filter_eq_nil_iff.mpr
      intro e' hRow
      simp [hFresh e' hRow]
    simp [Cell.addEntry, List.filter_append, hOld]
  unfold refreshEntry
  simp only [Prog.bind_eq, Prog.wp_bind, wp_selectRows, hRows]
  exact hPost

/- What holds of a join once the clock, row and window do. -/
def OnceAdmissible
    (startsAt endsAt : Datetime)
    (s : Cell)
    (log : List (Action inventory))
    (P : TimeRange → Prop) : Prop :=
  ∀ now r resource,
    log.head? = some ⟨.clock, now, []⟩ →
    validateBookingWindow startsAt endsAt now = .ok r →
    s.resource = some resource →
    resource.active = true →
      P r

/- The sampled clock and the window are what they are. -/
theorem OnceAdmissible.of_head
    {startsAt endsAt : Datetime}
    {log : List (Action inventory)}
    {P : TimeRange → Prop}
    {now : ℤ}
    {r : TimeRange}
    (hHead : log.head? = some ⟨.clock, now, []⟩)
    (hValid :
      validateBookingWindow startsAt endsAt now = .ok r)
    (hHolds : P r) :
    OnceAdmissible startsAt endsAt s log P := by
  intro now' r' resource hNow hValid' _ _
  rw [hHead] at hNow
  cases hNow
  rw [hValid] at hValid'
  cases hValid'
  exact hHolds

/- A join that is refused has drawn no identifier yet. -/
theorem turned_of_refusal
    {startsAt endsAt : Datetime}
    {log : List (Action inventory)}
    {now : ℤ}
    (userId : Uuid)
    {r : TimeRange}
    {err : Error}
    (hHead : log.head? = some ⟨.clock, now, []⟩)
    (hValid :
      validateBookingWindow startsAt endsAt now = .ok r)
    (hRefusal : s.refusal userId r = some err)
    (hUndrawn : ∀ id, ¬ Drew log id) :
    Clocked log ∧
      OnceAdmissible startsAt endsAt s log (fun r =>
        Turned userId r s log err) ∧
      ((∃ id, Drew log id) → Unforeseen userId s err) := by
  refine ⟨⟨now, hHead⟩, ?_, ?_⟩
  · exact .of_head hHead hValid (Or.inl ⟨hRefusal, hUndrawn⟩)
  · intro ⟨id, hDrew⟩
    exact absurd hDrew (hUndrawn id)

/-
  A join of a window that may be booked, on an active
  resource, is turned away or adds its entry, as the checks
  in their order say.  Once it has drawn the identifier of
  its entry, only that or its user may be in its way.
-/
theorem joinWaitlist_answered
    (hCell : s.Valid)
    (scope : Scope)
    (startsAt endsAt : Datetime) :
    (joinWaitlist rid scope startsAt endsAt).wp
      (fun log s' reply =>
        Clocked log ∧
          OnceAdmissible startsAt endsAt s log (fun r =>
            Joined rid scope.principalId r s s' reply))
      (fun log err =>
        Clocked log ∧
          OnceAdmissible startsAt endsAt s log (fun r =>
            Turned scope.principalId r s log err) ∧
          ((∃ id, Drew log id) →
            Unforeseen scope.principalId s err))
      [] s := by
  unfold joinWaitlist
  simp only [Prog.bind_eq, Prog.wp_bind, wp_clockTimestamp]
  intro dbNow
  split
  · rename_i err hInvalid
    refine ⟨⟨dbNow, rfl⟩, ?_, by simp [Drew]⟩
    intro now r resource hNow hValid
    cases hNow
    rw [hInvalid] at hValid
    cases hValid
  rename_i r hValid
  simp only [Prog.wp_bind, wp_selectResourceForUpdate]
  split
  · rename_i hNone
    refine ⟨⟨dbNow, rfl⟩, ?_, by simp [Drew]⟩
    intro now r' resource _ _ hResource
    rw [hNone] at hResource
    cases hResource
  rename_i resource hResource
  split
  · rename_i hInactive
    refine ⟨⟨dbNow, rfl⟩, ?_, by simp [Drew]⟩
    intro now r' resource' _ _ hResource' hActive
    rw [hResource] at hResource'
    cases hResource'
    rw [hActive] at hInactive
    cases hInactive
  simp only [Prog.wp_bind, wp_selectRows]
  split
  · rename_i hNone
    have hFree : ¬ s.Occupied r := not_occupied_of_nil hNone
    exact
      turned_of_refusal scope.principalId rfl hValid
        (if_pos hFree) (by simp [Drew])
  rename_i hSome
  have hOccupied : s.Occupied r := occupied_of_ne_nil hSome
  split
  · rename_i hOwn
    have hReserves := reserves_iff.mp hOwn
    refine
      turned_of_refusal scope.principalId rfl hValid ?_
        (by simp [Drew])
    unfold Cell.refusal
    rw [if_neg (not_not.mpr hOccupied), if_pos hReserves]
  rename_i hNotOwn
  have hReserves : ¬ s.Reserves scope.principalId r :=
    fun hOwn => hNotOwn (reserves_iff.mpr hOwn)
  simp only [Prog.wp_bind, wp_selectRows]
  refine wp_duplicates hCell ?_ ?_
  case refine_2 =>
    intro e hAwaits
    simp only [Option.isSome_some, if_true]
    refine
      turned_of_refusal scope.principalId rfl hValid ?_
        (by simp [Drew])
    unfold Cell.refusal
    rw [if_neg (not_not.mpr hOccupied), if_neg hReserves,
      if_pos hAwaits]
  intro hNew
  simp only [Option.isSome_none, Bool.false_eq_true, if_false,
    Prog.wp_bind, wp_selectRows]
  split
  · rename_i hFull
    refine
      turned_of_refusal scope.principalId rfl hValid ?_
        (by simp [Drew])
    unfold Cell.refusal
    rw [if_neg (not_not.mpr hOccupied), if_neg hReserves,
      if_neg hNew]
    exact if_pos hFull
  rename_i hRoom
  have hAdmitted : s.refusal scope.principalId r = none := by
    unfold Cell.refusal
    rw [if_neg (not_not.mpr hOccupied), if_neg hReserves,
      if_neg hNew]
    exact if_neg hRoom
  simp only [Prog.wp_bind, wp_uuid4, wp_transactionTime]
  intro entryId createdAt
  refine wp_insertEntry ?_ ?_
  · intro hNone a
    simp only [Prog.wp_bind]
    refine refreshInserted_rule hNone ?_
    refine ⟨⟨dbNow, rfl⟩, ?_⟩
    exact .of_head rfl hValid
      ⟨hAdmitted, _, rfl, rfl, rfl, rfl, rfl⟩
  · intro c hViolated a
    have hRoom' : s.resource.isSome := by
      rw [hResource]
      rfl
    -- the checks leave the unique index nothing to reject
    rcases
      entryViolation_of_not_awaits ⟨Nat.one_pos, by simp⟩
        rfl hNew hRoom' hViolated with
      ⟨rfl, hTaken⟩ | ⟨rfl, hStranger⟩
    · refine ⟨⟨dbNow, rfl⟩, ?_, fun _ => Or.inl rfl⟩
      refine .of_head rfl hValid (Or.inr (Or.inl
        ⟨hAdmitted, rfl, entryId, ?_, hTaken⟩))
      simp [Drew]
    · refine
        ⟨⟨dbNow, rfl⟩, ?_, fun _ =>
          Or.inr ⟨rfl, hStranger⟩⟩
      exact
        .of_head rfl hValid
          (Or.inr (Or.inr ⟨hAdmitted, rfl, hStranger⟩))

end PigBook

------------------------------------------------------------
-- Admission
------------------------------------------------------------

namespace PigBook

open ReadCommitted

/- No commit brings a waitlist above its capacity. -/
theorem InventoryRun.waitlistLength
    {X : Circumstances}
    {resources : Uuid → Option Resource}
    {env : Surroundings}
    {s : Sys X.world (Uuid → Cell) Reply}
    (hRun : InventoryRun X resources env s) :
    ∀ rid, (s.db rid).waitlistLength ≤ waitlistCapacity := by
  refine
    hRun.effects
      (fun db _ =>
        ∀ rid, (db rid).waitlistLength ≤ waitlistCapacity)
      ?_ ?_
  · intro rid
    exact Nat.zero_le _
  · intro c hist hEffective hBefore rid
    have hAfter :=
      (hEffective.outcome rid).waitlistLength
        (hEffective.consistent rid)
    exact le_trans hAfter (max_le (hBefore rid) (le_refl _))

/-
  In every committed state a resource has at most 500 entries
  that wait or are on offer, and at most one of a user for a
  window.  A client that joins an active resource for a valid
  window is refused for the first reason that applies to the
  tables it has locked, and adds a waiting entry if there is
  none.  Once a join has drawn its identifier, the unique
  index of the waitlist never rejects its entry.
-/
theorem waitlist_admission
    {X : Circumstances}
    {resources : Uuid → Option Resource}
    {env : Surroundings}
    {s : Sys X.world (Uuid → Cell) Reply}
    (hRun : InventoryRun X resources env s) :
    (∀ rid, (s.db rid).waitlistLength ≤ waitlistCapacity) ∧
    (∀ rid userId r,
      ((s.db rid).duplicates userId r).length ≤ 1) ∧
    ∀ pid pr, s.procs pid = some pr →
      ∀ rid scope startsAt endsAt,
        pr.start =
            (joinWaitlist rid scope startsAt endsAt).atCell
              rid →
          (∀ reply, pr.prog = .done reply →
            Clocked pr.log ∧
            OnceAdmissible startsAt endsAt (s.db rid) pr.log
              (fun r =>
                Joined rid scope.principalId r (s.db rid)
                  (pr.view s.db rid) reply)) ∧
          ∀ err, pr.prog = .fail err →
            Clocked pr.log ∧
            OnceAdmissible startsAt endsAt (s.db rid) pr.log
              (fun r =>
                Turned scope.principalId r (s.db rid) pr.log
                  err) ∧
            ((∃ id, Drew pr.log id) →
              Unforeseen scope.principalId (s.db rid) err) := by
  have hCells := hRun.consistent
  refine ⟨hRun.waitlistLength, ?_, ?_⟩
  · intro rid userId r
    exact duplicates_length (hCells rid).toValid
  · intro pid pr hProc rid scope startsAt endsAt hStart
    have hRequest :
        pr.start =
          ((Request.joinWaitlist scope startsAt
            endsAt).program rid).atCell rid := hStart
    rcases hRun.running hProc hRequest with
      ⟨p', w, hRunning⟩
    have hAnswered :=
      hRunning.serial.wp_sound
        (joinWaitlist_answered (hCells rid).toValid scope
          startsAt endsAt)
    have hView : pr.view s.db rid = w (s.db rid) := by
      simp [Proc.view, hRunning.writes]
    have hProg := hRunning.prog
    constructor
    · intro reply hDone
      rw [hDone] at hProg
      cases p' with
      | done a =>
          cases hProg
          rw [hView]
          exact hAnswered
      | _ => simp [Prog.atCell] at hProg
    · intro err hFail
      rw [hFail] at hProg
      cases p' with
      | fail e =>
          cases hProg
          exact hAnswered
      | _ => simp [Prog.atCell] at hProg

end PigBook

namespace PigBook

open ReadCommitted

/- The time that a transaction has begun by reading. -/
def openingTime : List (Action inventory) → Option ℤ
| ⟨.clock, now, _⟩ :: _ => some now
| _ => none

theorem Clocked.head
    {log : List (Action inventory)}
    {now : ℤ}
    (hClocked : Clocked log)
    (hTime : openingTime log = some now) :
    log.head? = some ⟨.clock, now, []⟩ := by
  rcases hClocked with ⟨now', hHead⟩
  cases log with
  | nil => cases hHead
  | cons act rest =>
      rw [List.head?_cons] at hHead ⊢
      cases hHead
      cases hTime
      rfl

/- A user joins the waitlist for the window that is booked. -/
def joining (userId : Uuid) : Request :=
  .joinWaitlist (.owner userId) (.utc (hours 2))
    (.utc (hours 3))

/-
  The second user waits, on the list for the window once.  If
  the user joins again, the request is turned away as a
  duplicate; the third user joins with an entry.
-/
theorem waitlist_admission_scenario :
    (((scenario 2).db 7).waitlistLength = 1 ∧
      ((scenario 2).db 7).waitlistLength ≤ 500 ∧
      ∀ userId r,
        (((scenario 2).db 7).duplicates userId r).length ≤
          1) ∧
    (∃ pr err,
      (scenarioWith 2 (joining 102) 4).procs 0 = some pr ∧
        pr.prog = .fail err ∧
        Turned 102 ⟨hours 2, hours 3, by decide⟩
          ((scenarioWith 2 (joining 102) 4).db 7) pr.log err) ∧
    ∃ pr reply,
      (scenarioWith 2 (joining 103) 9).procs 0 = some pr ∧
        pr.prog = .done reply ∧
        Joined 7 103 ⟨hours 2, hours 3, by decide⟩
          ((scenarioWith 2 (joining 103) 9).db 7)
          (pr.view (scenarioWith 2 (joining 103) 9).db 7)
          reply := by
  have hIdle : ((scenario 2).procs 0).isNone := by
    decide +kernel
  have hWindow :
      validateBookingWindow (.utc (hours 2)) (.utc (hours 3))
          0 =
        .ok ⟨hours 2, hours 3, by decide⟩ := by
    decide +kernel
  refine ⟨⟨?_, ?_, ?_⟩, ?_, ?_⟩
  · decide +kernel
  · exact (waitlist_admission (scenario_run 2)).1 7
  · exact (waitlist_admission (scenario_run 2)).2.1 7
  · have hFails :
        (lastWord (scenarioWith 2 (joining 102) 4)).any
          Sum.isLeft = true := by
      decide +kernel
    have hTime :
        ∀ pr ∈ (scenarioWith 2 (joining 102) 4).procs 0,
          openingTime pr.log = some 0 := by
      decide +kernel
    have hRoom :
        ((scenarioWith 2 (joining 102) 4).db 7).resource =
          some meetingRoom := by
      decide +kernel
    rcases failing_of_lastWord hFails with
      ⟨pr, err, hProc, hProg, -⟩
    rcases
      ((waitlist_admission
        (scenarioWith_run 2 (joining 102) 4)).2.2 0 pr hProc 7
          (.owner 102) (.utc (hours 2)) (.utc (hours 3))
          (scenarioWith_start 2 _ 4 hIdle hProc)).2 err
          hProg with
      ⟨hClocked, hTurned, -⟩
    have hHead := hClocked.head (hTime pr hProc)
    exact
      ⟨pr, err, hProc, hProg,
        hTurned 0 _ meetingRoom hHead hWindow hRoom rfl⟩
  · have hAnswers :
        (lastWord (scenarioWith 2 (joining 103) 9)).any
          Sum.isRight = true := by
      decide +kernel
    have hTime :
        ∀ pr ∈ (scenarioWith 2 (joining 103) 9).procs 0,
          openingTime pr.log = some 0 := by
      decide +kernel
    have hRoom :
        ((scenarioWith 2 (joining 103) 9).db 7).resource =
          some meetingRoom := by
      decide +kernel
    rcases answering_of_lastWord hAnswers with
      ⟨pr, reply, hProc, hProg, -⟩
    rcases
      ((waitlist_admission
        (scenarioWith_run 2 (joining 103) 9)).2.2 0 pr hProc 7
          (.owner 103) (.utc (hours 2)) (.utc (hours 3))
          (scenarioWith_start 2 _ 9 hIdle hProc)).1 reply
          hProg with
      ⟨hClocked, hJoined⟩
    have hHead := hClocked.head (hTime pr hProc)
    exact
      ⟨pr, reply, hProc, hProg,
        hJoined 0 _ meetingRoom hHead hWindow hRoom rfl⟩

end PigBook
