import PigBook.Inventory.Guarantees
import PigBook.Inventory.Lawfulness

/-
  The constraints of the tables in every run, under any
  interleaving of admitted requests.

  Key definitions include:
    * `AdmittedRun`
    * `drawnUuid`
    * `Obeys`

  Key theorems include:
    * `AdmittedRun.commit_induction`
    * `AdmittedRun.lawfully`
    * `constraints_obeyed`
-/

------------------------------------------------------------
-- Events that Follow Their Bookings
------------------------------------------------------------

namespace PigBook

open ReadCommitted

variable {rid : Uuid} {log : List (Action inventory)}
variable {s s' : Cell}

/- A booking changes, with or without an event about it. -/
theorem Cell.Recorded.change
    (hCell : s.Valid)
    (hRecorded : s.Recorded)
    {b : Booking}
    (hRow : b ∈ s.bookings)
    {f : Booking → Booking}
    (hId : (f b).id = b.id)
    (hVersion : (f b).version = b.version + 1)
    (hBookings :
      s'.bookings = updateWhere b.current f s.bookings)
    (hOutbox :
      ∀ ev ∈ s'.outbox,
        ev ∈ s.outbox ∨
          (ev.aggregateId = (f b).id ∧
            ev.aggregateVersion = (f b).version)) :
    s'.Recorded := by
  intro ev hEv
  rw [hBookings]
  rcases hOutbox ev hEv with hOld | ⟨hAbout, hAt⟩
  · rcases hRecorded ev hOld with ⟨x, hx, hIdX, hLe⟩
    rcases hCell.booking_after hRow hId hx with
      ⟨x', hx', hId', rfl | ⟨rfl, rfl⟩⟩
    · exact ⟨x', hx', hIdX, hLe⟩
    · refine ⟨_, hx', hId'.trans hIdX, ?_⟩
      rw [hVersion]
      exact Nat.le_succ_of_le hLe
  · exact
      ⟨f b, (hCell.mem_setBooking hRow).mpr (Or.inl rfl),
        hAbout.symm, hAt.le⟩

/- A booking is added, with an event about it or without. -/
theorem Cell.Recorded.add
    (hRecorded : s.Recorded)
    {b : Booking}
    (hBookings : s'.bookings = s.bookings ++ [b])
    (hOutbox :
      ∀ ev ∈ s'.outbox,
        ev ∈ s.outbox ∨
          (ev.aggregateId = b.id ∧
            ev.aggregateVersion = b.version)) :
    s'.Recorded := by
  intro ev hEv
  rw [hBookings]
  rcases hOutbox ev hEv with hOld | ⟨hAbout, hAt⟩
  · rcases hRecorded ev hOld with ⟨x, hx, hId, hLe⟩
    exact ⟨x, List.mem_append_left _ hx, hId, hLe⟩
  · exact
      ⟨b, List.mem_append_right _ (List.mem_singleton_self b),
        hAbout.symm, hAt.le⟩

/- The events of a list with one more at its end. -/
theorem mem_append_event
    {evs : List OutboxEvent}
    {ev new : OutboxEvent}
    (hEv : ev ∈ evs ++ [new]) :
    ev ∈ evs ∨
      (ev.aggregateId = new.aggregateId ∧
        ev.aggregateVersion = new.aggregateVersion) := by
  rcases List.mem_append.mp hEv with hOld | hNew
  · exact Or.inl hOld
  · rw [List.mem_singleton.mp hNew]
    exact Or.inr ⟨rfl, rfl⟩

theorem Gain.recorded
    (hCell : s.Consistent)
    (hRecorded : s.Recorded)
    (hGain : Gain rid log s s') :
    s'.Recorded := by
  cases hGain with
  | reserve =>
      exact hRecorded.add rfl (fun _ => mem_append_event)
  | blackout =>
      exact hRecorded.add rfl (fun _ hOld => Or.inl hOld)
  | enqueue | withdraw | patch => exact hRecorded
  | accept hHold hSampled hEarly =>
      exact
        hRecorded.change hCell.toValid hHold.rowB rfl rfl rfl
          (fun _ => mem_append_event)

theorem Release.recorded
    (hCell : s.Consistent)
    (hRecorded : s.Recorded)
    (hRelease : Release rid log s s') :
    s'.Recorded := by
  cases hRelease with
  | expire hExpiries =>
      induction hExpiries with
      | refl => exact hRecorded
      | tail hBefore hExpiry ih =>
          have hMiddle :=
            (Release.expire hBefore).consistent hCell
          exact hExpiry.recorded hMiddle.toValid ih
  | decline hHold =>
      exact
        hRecorded.change hCell.toValid hHold.rowB rfl rfl rfl
          (fun _ hOld => Or.inl hOld)
  | cancelHold hHold hCheck =>
      exact
        hRecorded.change hCell.toValid hHold.rowB rfl rfl rfl
          (fun _ => mem_append_event)
  | cancelConfirmed hRow hKind hStatus hCheck =>
      exact
        hRecorded.change hCell.toValid hRow rfl rfl rfl
          (fun _ => mem_append_event)
  | cancelBlackout hRow hKind hStatus =>
      exact
        hRecorded.change hCell.toValid hRow rfl rfl rfl
          (fun _ hOld => Or.inl hOld)

theorem Visit.recorded
    {visit : WaitlistEntry × Sample}
    (hRecorded : s.Recorded) :
    (promoteStep rid s visit).Recorded := by
  unfold promoteStep
  split
  · exact hRecorded
  · split
    · exact hRecorded
    · exact hRecorded.add rfl (fun _ => mem_append_event)

/- Whatever a request does, events follow their bookings. -/
theorem Outcome.recorded
    (hCell : s.Consistent)
    (hRecorded : s.Recorded)
    (hOutcome : Outcome rid log s s') :
    s'.Recorded := by
  cases hOutcome with
  | quiet => exact hRecorded
  | gain hGain => exact hGain.recorded hCell hRecorded
  | release hPromoted =>
      cases hPromoted with
      | intro hDone hLength hVisits hAsked =>
          exact
            hVisits.induction (fun h _ => Visit.recorded h)
              (hDone.recorded hCell hRecorded)

theorem InventoryRun.recorded
    {X : Circumstances}
    {resources : Uuid → Option Resource}
    {env : Surroundings}
    {s : Sys X.world (Uuid → Cell) Reply}
    (hRun : InventoryRun X resources env s) :
    ∀ rid, (s.db rid).Recorded := by
  refine
    hRun.effects (fun db _ => ∀ rid, (db rid).Recorded) ?_ ?_
  · intro rid ev hEv
    cases hEv
  · intro c hist hEffective hBefore rid
    exact
      (hEffective.outcome rid).recorded
        (hEffective.consistent rid) (hBefore rid)

end PigBook

------------------------------------------------------------
-- Runs of Admitted Requests
------------------------------------------------------------

namespace PigBook

open ReadCommitted

/- Processes run requests that the schemas admit. -/
def admittedPrograms
    (rid : Uuid)
    (p : Tx Reply) : Prop :=
  ∃ request : Request,
    request.Admitted ∧ p = request.program rid

def AdmittedRun
    (X : Circumstances)
    (resources : Uuid → Option Resource)
    (env : Surroundings)
    (s : Sys X.world (Uuid → Cell) Reply) : Prop :=
  Reachable (cellPrograms admittedPrograms)
    (Sys.initial
      (fun rid => Cell.opening X.users (resources rid))
      env) s

/- The identifier that a statement draws. -/
def drawnUuid : Action inventory → Option Uuid
| ⟨.uuid, id, _⟩ => some id
| _ => none

theorem filterMap_drawnUuid
    (log : List (Action inventory)) :
    log.filterMap drawnUuid = drawn (asked log) := by
  have hSame :
      ∀ act : Action inventory,
        drawnUuid act = (asked? act).bind Asked.drawn? := by
    rintro ⟨q, a, keys⟩
    cases q <;> rfl
  unfold drawn asked
  rw [List.filterMap_filterMap]
  exact List.filterMap_congr (fun act _ => hSame act)

section Runs

variable {X : Circumstances}
variable {resources : Uuid → Option Resource}
variable {env : Surroundings}
variable {s : Sys X.world (Uuid → Cell) Reply}

theorem admittedPrograms_disciplined
    (rid : Uuid)
    (p : Tx Reply)
    (hProgram : admittedPrograms rid p) :
    ∃ m, Disciplined cellLocks rid m p := by
  rcases hProgram with ⟨request, -, rfl⟩
  exact ⟨request.access, request.disciplined rid⟩

/- The rule for commits, with admitted requests. -/
theorem AdmittedRun.commit_induction
    (hRun : AdmittedRun X resources env s)
    (Inv : (Uuid → Cell) → List InventoryCommit → Prop)
    (hInit :
      Inv (fun rid => Cell.opening X.users (resources rid))
        [])
    (hCommit :
      ∀ c hist rid request, CommitOf c rid request →
        request.Admitted →
        (∀ i, (c.before i).Consistent) →
        Inv c.before hist → Inv c.after (c :: hist)) :
    (∀ rid, (s.db rid).Consistent) ∧
      Inv s.db (commits s.trace) := by
  have hStart := opening_valid X.users resources
  refine
    ⟨(Reachable.phased admittedPrograms_disciplined hStart
      hRun).1, ?_⟩
  refine
    Reachable.commit_induction admittedPrograms_disciplined
      hStart hInit ?_ hRun
  rintro t hist rid p log w reply ⟨request, hAdmitted, rfl⟩
    hValid hInv run
  refine
    hCommit ⟨log, t, onCell rid w t, some reply⟩ hist rid
      request ⟨?_, ?_⟩ hAdmitted hValid hInv
  · intro i hNe
    exact onCell_of_ne hNe w t
  · exact ⟨w, reply, run, onCell_self rid w t, rfl⟩

/- The identifiers in use after a commit. -/
theorem CommitOf.names
    {c : InventoryCommit}
    {rid : Uuid}
    {request : Request}
    (hCommit : CommitOf c rid request)
    (hAdmitted : request.Admitted)
    (hCell : (c.before rid).Consistent)
    (hRecorded : (c.before rid).Recorded) :
    ∀ id, (c.after rid).Names id →
      (c.before rid).Names id ∨ id ∈ drawn (asked c.log) := by
  rcases hCommit.runs with ⟨w, reply, run, hAfter, -⟩
  rw [hAfter]
  have hOrderly :
      (request.program rid).wp
        (fun log s' _ =>
          Orderly (c.before rid).Names log s')
        anyError [] (c.before rid) := by
    apply (request.lawfully hCell hRecorded rid
      hAdmitted).orderly (.start hCell.toValid)
    exact
      Prog.wp_mono _ (fun _ _ _ _ h => h) (fun _ _ h => h)
        (request.outcome hCell rid)
  exact (run.post_of_done hOrderly).names

/-
  Events follow their bookings in every committed state, and
  all identifiers in use were drawn by committed requests.
-/
theorem AdmittedRun.recorded
    (hRun : AdmittedRun X resources env s) :
    (∀ rid, (s.db rid).Recorded) ∧
      ∀ rid id, (s.db rid).Names id →
        ∃ c ∈ commits s.trace, id ∈ drawn (asked c.log) := by
  refine
    (hRun.commit_induction
      (fun db hist =>
        (∀ rid, (db rid).Recorded) ∧
          ∀ rid id, (db rid).Names id →
            ∃ c ∈ hist, id ∈ drawn (asked c.log)) ?_ ?_).2
  · constructor
    · intro rid ev hEv
      cases hEv
    · intro rid id hName
      simp [Cell.Names, Cell.opening] at hName
  · rintro c hist rid request hCommit hAdmitted hCells
      ⟨hRecorded, hNames⟩
    have hEffective := hCommit.effective hCells
    constructor
    · intro i
      exact
        (hEffective.outcome i).recorded (hCells i)
          (hRecorded i)
    · intro i id hName
      have hBefore :
          (c.before i).Names id ∨
            id ∈ drawn (asked c.log) := by
        by_cases hSame : i = rid
        · subst hSame
          exact
            hCommit.names hAdmitted (hCells i) (hRecorded i)
              id hName
        · rw [hCommit.other i hSame] at hName
          exact Or.inl hName
      rcases hBefore with hOld | hDrawn
      · rcases hNames i id hOld with ⟨c', hc', hIn⟩
        exact ⟨c', List.mem_cons_of_mem _ hc', hIn⟩
      · exact ⟨c, List.mem_cons_self, hDrawn⟩

/-
  Where no identifier is drawn twice, it names rows of one
  resource only.
-/
theorem AdmittedRun.names_apart
    (hRun : AdmittedRun X resources env s)
    (hOnce : (picks drawnUuid s.trace).Nodup)
    {rid rid' : Uuid}
    {id : Uuid}
    (hName : (s.db rid).Names id)
    (hName' : (s.db rid').Names id) :
    rid = rid' := by
  have hApart :
      (commits s.trace).Pairwise (fun c c' =>
        ∀ id ∈ drawn (asked c.log),
          id ∉ drawn (asked c'.log)) := by
    have hPairs := Reachable.commits_apart hRun hOnce
    simp only [filterMap_drawnUuid] at hPairs
    exact hPairs
  have hNames :=
    (hRun.commit_induction
      (fun db hist =>
        hist.Pairwise (fun c c' =>
          ∀ id ∈ drawn (asked c.log),
            id ∉ drawn (asked c'.log)) →
        (∀ rid, (db rid).Recorded) ∧
          (∀ rid id, (db rid).Names id →
            ∃ c ∈ hist, id ∈ drawn (asked c.log)) ∧
          ∀ rid rid' id, (db rid).Names id →
            (db rid').Names id → rid = rid') ?_ ?_).2
  · exact (hNames hApart).2.2 rid rid' id hName hName'
  · intro _
    refine ⟨?_, ?_, ?_⟩
    · intro rid ev hEv
      cases hEv
    · intro rid id hName
      simp [Cell.Names, Cell.opening] at hName
    · intro rid rid' id hName
      simp [Cell.Names, Cell.opening] at hName
  · intro c hist i request hCommit hAdmitted hCells hInv hPairs
    rcases List.pairwise_cons.mp hPairs with ⟨hHead, hTail⟩
    rcases hInv hTail with ⟨hRecorded, hDrawn, hSame⟩
    have hEffective := hCommit.effective hCells
    -- a name is an old one, or drawn by this commit for `i`
    have hCases :
        ∀ rid id, (c.after rid).Names id →
          (c.before rid).Names id ∨
            (rid = i ∧ id ∈ drawn (asked c.log)) := by
      intro rid id hName
      by_cases hHere : rid = i
      · subst hHere
        exact
          (hCommit.names hAdmitted (hCells rid)
            (hRecorded rid) id hName).imp_right
              (fun hNew => ⟨rfl, hNew⟩)
      · rw [hCommit.other rid hHere] at hName
        exact Or.inl hName
    have hOld :
        ∀ rid id, (c.before rid).Names id →
          id ∉ drawn (asked c.log) := by
      intro rid id hName hNow
      rcases hDrawn rid id hName with ⟨c', hc', hThen⟩
      exact hHead c' hc' id hNow hThen
    refine ⟨?_, ?_, ?_⟩
    · intro rid
      exact
        (hEffective.outcome rid).recorded (hCells rid)
          (hRecorded rid)
    · intro rid id hName
      rcases hCases rid id hName with hBefore | ⟨-, hNow⟩
      · rcases hDrawn rid id hBefore with ⟨c', hc', hIn⟩
        exact ⟨c', List.mem_cons_of_mem _ hc', hIn⟩
      · exact ⟨c, List.mem_cons_self, hNow⟩
    · intro rid rid' id hName hName'
      rcases hCases rid id hName with
        hBefore | ⟨hHere, hNow⟩
      · rcases hCases rid' id hName' with
          hBefore' | ⟨-, hNow'⟩
        · exact hSame rid rid' id hBefore hBefore'
        · exact absurd hNow' (hOld rid id hBefore)
      · rcases hCases rid' id hName' with
          hBefore' | ⟨hHere', -⟩
        · exact absurd hNow (hOld rid' id hBefore')
        · exact hHere.trans hHere'.symm

/- Where no identifier is drawn twice, no client clashes. -/
theorem AdmittedRun.no_clash
    (hRun : AdmittedRun X resources env s)
    (hOnce : (picks drawnUuid s.trace).Nodup)
    {pid : ℕ}
    {pr : Proc inventory (Uuid → Cell) Reply}
    (hProc : s.procs pid = some pr)
    (rid : Uuid) :
    ¬ Clash (s.db rid).Names pr.log := by
  have hOwned := Reachable.owned hRun hOnce
  rintro (⟨id, hDrawn, hName⟩ | hTwice)
  · rcases hRun.recorded.2 rid id hName with ⟨c, hc, hIn⟩
    rw [← filterMap_drawnUuid] at hDrawn hIn
    exact hOwned.fresh pid pr hProc id hDrawn c hc hIn
  · apply hTwice
    rw [← filterMap_drawnUuid]
    exact hOwned.once pid pr hProc

theorem AdmittedRun.users
    (hRun : AdmittedRun X resources env s) :
    ∀ rid, (s.db rid).users = X.users := by
  refine
    (hRun.commit_induction
      (fun db _ => ∀ rid, (db rid).users = X.users)
      (fun _ => rfl) ?_).2
  intro c hist rid request hCommit _ hCells hBefore i
  have hEffective := hCommit.effective hCells
  exact (hEffective.outcome i).users.trans (hBefore i)

/- Each client has begun with an admitted request. -/
theorem AdmittedRun.started
    (hRun : AdmittedRun X resources env s)
    {pid : ℕ}
    {pr : Proc inventory (Uuid → Cell) Reply}
    (hProc : s.procs pid = some pr) :
    ∃ (rid : Uuid) (request : Request),
      request.Admitted ∧
        pr.start = (request.program rid).atCell rid := by
  rcases Reachable.running admittedPrograms_disciplined
      (opening_valid X.users resources) hRun hProc with
    ⟨rid, p, p', w, ⟨request, hAdmitted, rfl⟩, hRunning⟩
  exact ⟨rid, request, hAdmitted, hRunning.start⟩

/- What remains of each client is lawful. -/
theorem AdmittedRun.lawfully
    (hRun : AdmittedRun X resources env s)
    {pid : ℕ}
    {pr : Proc inventory (Uuid → Cell) Reply}
    (hProc : s.procs pid = some pr)
    {rid : Uuid}
    {request : Request}
    (hAdmitted : request.Admitted)
    (hStart : pr.start = (request.program rid).atCell rid) :
    ∃ (p' : Tx Reply) (w : Cell → Cell),
      pr.Running rid (request.program rid) p' w s.db ∧
      Lawfully (request.Registered X.users) (s.db rid).Names
        request.refusal p' pr.log (w (s.db rid)) := by
  rcases Reachable.running admittedPrograms_disciplined
      (opening_valid X.users resources) hRun hProc with
    ⟨i, p, p₀, w₀, -, hBegun⟩
  rcases hBegun.of_start hStart with ⟨p', w, hRunning⟩
  have hCell :=
    (hRun.commit_induction (fun _ _ => True) trivial
      (fun _ _ _ _ _ _ _ _ => trivial)).1 rid
  refine ⟨p', w, hRunning, ?_⟩
  rw [← hRun.users rid]
  exact
    hRunning.serial.each_sound
      (request.lawfully hCell (hRun.recorded.1 rid) rid
        hAdmitted)

end Runs

end PigBook

------------------------------------------------------------
-- The Constraints Are Obeyed
------------------------------------------------------------

namespace PigBook

open ReadCommitted

/-
  A statement on the view `s` with the keys `ks` obeys the
  constraints of bookings and waitlist entries.  Each UPDATE
  passes the trigger, both tables satisfy their constraints
  afterwards, and each INSERT goes through, but for that of a
  creating request: there a conflict leaves the view as it
  is, and the conflict is all that is left to answer.  The
  primary key of a new row is not `taken` by any other, and
  no entry has a link from `elsewhere`.
-/
structure Obeys
    (taken elsewhere : Uuid → Prop)
    (request : Request)
    (s : Cell)
    (ks : List Key)
    (s' : Cell)
    (rest : Tx Reply) : Prop where
  lawful : Lawful s s'
  entry :
    ∀ id, .unique (.waitlistEntriesPkey id) ∈ ks →
      InsertsEntry s s' id
  booking :
    ∀ id, .unique (.bookingsPkey id) ∈ ks →
      InsertsBooking s s' id ∨
        (request.access = .shared ∧ s' = s ∧
          slotConflicts rest)
  new :
    ∀ id,
      .unique (.bookingsPkey id) ∈ ks ∨
          .unique (.waitlistEntriesPkey id) ∈ ks →
        ¬ taken id
  linked :
    ∀ e ∈ s'.entries, ∀ id ∈ e.offeredBookingId,
      ¬ elsewhere id

/- The identifier is that of a row of some resource. -/
def Taken (db : Uuid → Cell) (id : Uuid) : Prop :=
  ∃ rid, (db rid).Names id

/- An entry of another resource is linked with the booking. -/
def LinkedElsewhere
    (db : Uuid → Cell)
    (rid id : Uuid) : Prop :=
  ∃ rid', rid' ≠ rid ∧
    ∃ e ∈ (db rid').entries, e.offeredBookingId = some id

/- A booking that an entry is linked with has its name. -/
theorem Cell.References.names
    {s : Cell}
    (hRefer : s.References)
    {e : WaitlistEntry}
    (hRow : e ∈ s.entries)
    {id : Uuid}
    (hLink : e.offeredBookingId = some id) :
    s.Names id := by
  rcases hRefer.links e hRow id hLink with ⟨b, hb, hId⟩
  exact Or.inl ⟨b, hb, hId⟩

/-
  In every run of admitted requests in which no identifier is
  drawn twice, active bookings of one resource are disjoint,
  all foreign keys refer to rows that exist, and no two
  entries of any resources are linked with one booking.
  Every statement that a client with an admitted request of
  a registered user may run next obeys the constraints, and
  no such client fails by violating one of them.
-/
theorem constraints_obeyed
    {X : Circumstances}
    {resources : Uuid → Option Resource}
    {env : Surroundings}
    {s : Sys X.world (Uuid → Cell) Reply}
    (hRun : AdmittedRun X resources env s)
    (hOnce : (picks drawnUuid s.trace).Nodup) :
    (∀ rid,
      (s.db rid).bookings.Pairwise (fun b b' =>
        (b.status = .confirmed ∨ b.status = .offered) →
        (b'.status = .confirmed ∨ b'.status = .offered) →
          ¬ b.timeRange.Overlaps b'.timeRange)) ∧
    (∀ rid, (s.db rid).References) ∧
    (∀ rid rid', ∀ e ∈ (s.db rid).entries,
      ∀ e' ∈ (s.db rid').entries, ∀ id,
        e.offeredBookingId = some id →
        e'.offeredBookingId = some id →
          rid = rid' ∧ e = e') ∧
    ∀ pid pr, s.procs pid = some pr →
      ∀ (rid : Uuid) (request : Request),
        pr.start = (request.program rid).atCell rid →
        request.Admitted → request.Registered X.users →
          ∃ p' : Tx Reply, pr.prog = p'.atCell rid ∧
            (∀ q need write next,
              p' = .stmt q need write next → ∀ a,
                Obeys (Taken s.db) (LinkedElsewhere s.db rid)
                  request (pr.view s.db rid)
                  (need (pr.view s.db rid) a)
                  (write (pr.view s.db rid) a
                    (pr.view s.db rid))
                  (next (pr.view s.db rid) a)) ∧
            ∀ c, p' = .fail (.integrityError c) →
              c = .resourcesCheck := by
  have hCells :=
    (hRun.commit_induction (fun _ _ => True) trivial
      (fun _ _ _ _ _ _ _ _ => trivial)).1
  refine ⟨?_, fun rid => (hCells rid).references, ?_, ?_⟩
  · intro rid
    apply (hCells rid).bookings.apart.imp
    intro b b' hApart hActive hActive'
    exact
      hApart (BookingStatus.active_iff.mpr hActive)
        (BookingStatus.active_iff.mpr hActive')
  · -- the linked booking tells the resource
    intro rid rid' e hRow e' hRow' id hLink hLink'
    have hSame : rid = rid' :=
      hRun.names_apart hOnce
        ((hCells rid).references.names hRow hLink)
        ((hCells rid').references.names hRow' hLink')
    subst hSame
    exact
      ⟨rfl, (hCells rid).eq_of_link hRow hRow' hLink hLink'⟩
  · intro pid pr hProc rid request hStart hAdmitted hKnown
    rcases hRun.lawfully hProc hAdmitted hStart with
      ⟨p', w, hRunning, hLawfully⟩
    have hNone := hRun.no_clash hOnce hProc
    have hNo := hNone rid
    have hView : pr.view s.db rid = w (s.db rid) := by
      simp [Proc.view, hRunning.writes]
    rw [← hView] at hLawfully
    refine ⟨p', hRunning.prog, ?_, ?_⟩
    · rintro q need write next rfl a
      have hOk := (hLawfully a).1
      refine
        ⟨hOk.lawful, hOk.entry hKnown hNo, ?_, ?_, ?_⟩
      · intro id hKey
        apply (hOk.booking hKnown hNo id hKey).imp_right
        rintro ⟨hSame, hRefused⟩
        unfold Request.refusal at hRefused
        cases hAccess : request.access with
        | exclusive =>
            rw [hAccess] at hRefused
            cases hRefused
        | shared =>
            rw [hAccess] at hRefused
            exact ⟨rfl, hSame, hRefused⟩
      · rintro id hKey ⟨rid', hName⟩
        exact
          hNone rid' (Or.inl ⟨id, hOk.new id hKey, hName⟩)
      · rintro e hRow id hLink ⟨rid', hNe, e', hRow', hLink'⟩
        have hThere :=
          (hCells rid').references.names hRow' hLink'
        -- the booking is an old one, or drawn by the client
        rcases hOk.names id
          (hOk.lawful.references.names hRow hLink) with
          hHere | hDrawn
        · exact hNe (hRun.names_apart hOnce hThere hHere)
        · exact
            hNone rid' (Or.inl ⟨id, hDrawn, hThere⟩)
    · rintro c rfl
      exact (hLawfully c rfl).2 hKnown hNo

end PigBook

namespace PigBook

open ReadCommitted

/- The schemas admit the requests of the scenario. -/
theorem scenarioRequests_admitted :
    ∀ request ∈ scenarioRequests, request.Admitted := by
  intro request hRequest
  simp only [scenarioRequests, List.mem_cons,
    List.not_mem_nil, or_false] at hRequest
  rcases hRequest with rfl | rfl | rfl | rfl
  · trivial
  · trivial
  · exact Nat.zero_le 500
  · trivial

theorem scenarioWith_admitted
    (k : ℕ)
    {request : Request}
    (n : ℕ)
    (hAdmitted : request.Admitted) :
    AdmittedRun forwardClock (fun _ => some meetingRoom)
      ⟨0, []⟩ (scenarioWith k request n) := by
  unfold AdmittedRun scenarioWith scenario Sys.exec
  rw [← List.foldl_append]
  refine Sys.exec_reachable (fun _ _ => rfl) ?_
  intro m hm
  rcases List.mem_append.mp hm with hBefore | hLast
  · rcases List.mem_flatMap.mp hBefore with
      ⟨request', hRequest, hMove⟩
    have hAdmitted' :=
      scenarioRequests_admitted request'
        (List.mem_of_mem_take hRequest)
    exact
      Move.allowed_of_begun
        ⟨7, _, ⟨request', hAdmitted', rfl⟩, rfl⟩ hMove
  · exact
      Move.allowed_of_begun
        ⟨7, _, ⟨request, hAdmitted, rfl⟩, rfl⟩ hLast

/-
  A request to book the window that a member of the waitlist
  is offered, about to insert its booking.
-/
def conflicting :
    Sys forwardClock.world (Uuid → Cell) Reply :=
  scenarioWith 3
    (.createBooking (.owner 103) (.utc (hours 2))
      (.utc (hours 3))) 4

/-
  The member's entry is linked with the booking on offer, and
  no other is.  The INSERT that meets the offer obeys the
  constraints: it leaves the view as it is.
-/
theorem constraints_obeyed_conflicting :
    (∃ e ∈ (conflicting.db 7).entries,
      e.status = .offered ∧ e.offeredBookingId = some 5 ∧
        ∀ rid, ∀ e' ∈ (conflicting.db rid).entries,
          e'.offeredBookingId = some 5 → 7 = rid ∧ e = e') ∧
    ∃ pr, conflicting.procs 0 = some pr ∧
      (pr.view conflicting.db 7).Occupied
        ⟨hours 2, hours 3, by decide⟩ ∧
      ∃ p' : Tx Reply, pr.prog = p'.atCell 7 ∧
        (∀ q need write next,
          p' = .stmt q need write next → ∀ a,
            Obeys (Taken conflicting.db)
              (LinkedElsewhere conflicting.db 7)
              (.createBooking (.owner 103) (.utc (hours 2))
                (.utc (hours 3)))
              (pr.view conflicting.db 7)
              (need (pr.view conflicting.db 7) a)
              (write (pr.view conflicting.db 7) a
                (pr.view conflicting.db 7))
              (next (pr.view conflicting.db 7) a)) ∧
        ∀ c, p' = .fail (.integrityError c) →
          c = .resourcesCheck := by
  have hSome : (conflicting.procs 0).isSome = true := by
    decide +kernel
  have hIdle : ((scenario 3).procs 0).isNone := by
    decide +kernel
  have hOnce : (picks drawnUuid conflicting.trace).Nodup := by
    decide +kernel
  have hEntry :
      ∃ e ∈ (conflicting.db 7).entries,
        e.status = .offered ∧
          e.offeredBookingId = some 5 := by
    decide +kernel
  rcases Option.isSome_iff_exists.mp hSome with ⟨pr, hProc⟩
  have hRun :
      AdmittedRun forwardClock (fun _ => some meetingRoom)
        ⟨0, []⟩ conflicting := by
    apply scenarioWith_admitted
    trivial
  rcases constraints_obeyed hRun hOnce with
    ⟨-, -, hLinks, hClients⟩
  constructor
  · rcases hEntry with ⟨e, hRow, hStatus, hLink⟩
    exact
      ⟨e, hRow, hStatus, hLink, fun rid e' hRow' hLink' =>
        hLinks 7 rid e hRow e' hRow' 5 hLink hLink'⟩
  · have hKnown : (103 : Uuid) ∈ forwardClock.users := by
      decide
    refine ⟨pr, hProc, ?_, ?_⟩
    · have hView :
          ∀ pr ∈ conflicting.procs 0,
            (pr.view conflicting.db 7).Occupied
              ⟨hours 2, hours 3, by decide⟩ := by
        decide +kernel
      exact hView pr hProc
    · refine hClients 0 pr hProc 7 _ ?_ trivial hKnown
      unfold conflicting at hProc
      exact scenarioWith_start 3 _ 4 hIdle hProc

end PigBook
