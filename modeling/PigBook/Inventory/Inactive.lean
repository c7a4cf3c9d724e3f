import PigBook.Inventory.Versions
import PigBook.ReadCommitted.Clock

/-
  Inactive resources gain nothing.

  Key definitions include:
    * `Cell.Inactive`
    * `Deactivates`, `InactiveSince`
    * `forwardSamples`

  Key theorems include:
    * `Outcome.inactive`
    * `Effect.deactivates`
    * `inactive_resources`
-/

------------------------------------------------------------
-- Transactions on an Inactive Resource
------------------------------------------------------------

namespace PigBook

open ReadCommitted

variable {rid : Uuid} {log : List (Action inventory)}
variable {s s' : Cell}

/- The resource of the cell is not active. -/
def Cell.Inactive (s : Cell) : Prop :=
  ∃ r, s.resource = some r ∧ r.active = false

/- The cell has no waiting entry. -/
def Cell.NoWaiter (s : Cell) : Prop :=
  ∀ e ∈ s.entries, e.status ≠ .waiting

/- What is booked has ended by then. -/
def Cell.EndedBy (s : Cell) (t : ℤ) : Prop :=
  ∀ b ∈ s.bookings, b.status.active = true →
    b.timeRange.upper ≤ t

theorem Cell.Inactive.not_active
    (hInactive : s.Inactive)
    {r : Resource}
    (hResource : s.resource = some r) :
    r.active ≠ true := by
  rcases hInactive with ⟨r', hResource', hActive⟩
  rw [hResource] at hResource'
  cases hResource'
  rw [hActive]
  exact Bool.false_ne_true

theorem Cell.NoWaiter.queue_eq_nil
    (hNone : s.NoWaiter) :
    s.queue = [] := by
  apply List.eq_nil_iff_forall_not_mem.mpr
  intro e hQueue
  rcases Cell.mem_queue.mp hQueue with ⟨hRow, hWaiting⟩
  exact hNone e hRow hWaiting

/- A release leaves no waiter behind where there was none. -/
theorem Release.noWaiter
    (hCell : s.Consistent)
    (hRelease : Release rid log s s')
    (hNone : s.NoWaiter) :
    s'.NoWaiter := by
  intro e' hRow' hWaiting
  rcases (hRelease.grow hCell).2.1.origin hRow' with
    ⟨e, hRow, hEnds⟩ | hNew
  · rcases hEnds with rfl | ⟨-, -, -, hGone⟩
    · exact hNone _ hRow hWaiting
    · rw [hWaiting] at hGone
      cases hGone
  · exact hNew

/- What is booked after a release was booked before it. -/
theorem Release.booked
    (hCell : s.Consistent)
    (hRelease : Release rid log s s')
    {b : Booking}
    (hRow : b ∈ s'.bookings)
    (hActive : b.status.active = true) :
    b ∈ s.bookings := by
  rcases (hRelease.grow hCell).1.origin hRow with
    ⟨b₀, hRow₀, hEnds⟩ | hNew
  · rcases hEnds with rfl | ⟨-, -, -, hGone⟩
    · exact hRow₀
    · rw [hActive] at hGone
      cases hGone
  · exact hNew.elim

/- The hold of a booking that has ended is overdue. -/
theorem Hold.overdue
    (hCell : s.Consistent)
    {e : WaitlistEntry}
    {b : Booking}
    (hHold : Hold s e b)
    {now : ℤ}
    (hEnded : b.timeRange.upper ≤ now) :
    ∃ deadline ∈ b.expiresAt, deadline ≤ now := by
  rcases (hCell.bookings.checks b hHold.rowB).2.2.2 with
    ⟨-, deadline, hSome, hStart⟩ | ⟨hNot, -⟩
  · refine ⟨deadline, hSome, ?_⟩
    have hWindow := b.timeRange.nonempty
    omega
  · exact absurd hHold.holds.offered hNot

/-
  While the resource is inactive and what is booked has ended
  by the time that the transaction samples, nobody begins to
  wait and nothing is created, confirmed, or promoted.
-/
theorem Outcome.inactive
    (hCell : s.Consistent)
    (hOutcome : Outcome rid log s s')
    (hInactive : s.Inactive)
    (hNone : s.NoWaiter)
    (hEnded :
      ∀ now, SampledUnder log [.resourceUpdate rid] now →
        s.EndedBy now) :
    s'.NoWaiter ∧
      ∀ b ∈ s'.bookings, b.status.active = true →
        b ∈ s.bookings := by
  cases hOutcome with
  | quiet => exact ⟨hNone, fun b hRow _ => hRow⟩
  | gain hGain =>
      cases hGain with
      | reserve hResource hActive
      | blackout hResource hActive
      | enqueue hResource hActive =>
          exact absurd hActive (hInactive.not_active hResource)
      | withdraw hRow hWaiting =>
          refine ⟨?_, fun b hRow _ => hRow⟩
          intro x hx
          rcases (hCell.mem_setEntry hRow).mp hx with
            rfl | ⟨hOld, -⟩
          · simp [WaitlistEntry.transition]
          · exact hNone x hOld
      | @accept e b now id hHold hSampled hEarly =>
          have hOver :=
            hEnded now (hSampled.mono (by simp)) b hHold.rowB
              hHold.activeB
          rcases hHold.overdue hCell hOver with
            ⟨deadline, hSome, hLate⟩
          have hInTime := hEarly deadline hSome
          omega
      | patch hResource hVersion hSampled hUnused =>
          exact ⟨hNone, fun b hRow _ => hRow⟩
  | release hPromoted =>
      cases hPromoted with
      | intro hDone hLength hVisits hAsked =>
          have hStill := hDone.noWaiter hCell hNone
          rw [hStill.queue_eq_nil]
          exact ⟨hStill, fun b => hDone.booked hCell⟩

end PigBook

------------------------------------------------------------
-- Transactions that Deactivate
------------------------------------------------------------

namespace PigBook

open ReadCommitted

variable {rid : Uuid} {log : List (Action inventory)}
variable {s s' : Cell}

/- Releases and promotions leave the resource alone. -/
theorem Promoted.resource
    (hCell : s.Consistent)
    (hPromoted : Promoted rid log (Release rid log) s s') :
    s'.resource = s.resource := by
  cases hPromoted with
  | intro hDone hLength hVisits hAsked =>
      exact
        (promoteFold_grow (hDone.consistent hCell).toValid
          hVisits).2.2.trans (hDone.grow hCell).2.2

/- Only a patch and an archival change the resource. -/
theorem Effect.resource_cases
    (hCell : s.Consistent)
    {request : Request}
    (hEffect : Effect rid log s request s') :
    s'.resource = s.resource ∨
      ∃ r r', s.resource = some r ∧ s'.resource = some r' ∧
        s'.bookings = s.bookings ∧ s'.entries = s.entries ∧
        SampledUnder log [.resourceUpdate rid] r'.updatedAt ∧
        (r.active = true → r'.active = false →
          s.EndedBy r'.updatedAt ∧ s.NoWaiter) := by
  cases hEffect with
  | notBooked | notBlocked | alreadyCancelled
  | alreadyUnblocked | alreadyWithdrawn | skipped
  | booked | blocked | joined | accepted | withdrawn =>
      exact Or.inl rfl
  | cancelled hRow hKind hPromoted =>
      refine Or.inl (Promoted.resource hCell
        (hPromoted.mono ?_))
      exact fun _ h => h.release hRow hKind
  | unblocked hRow hKind hStatus hPromoted =>
      refine Or.inl (Promoted.resource hCell
        (hPromoted.mono ?_))
      exact fun _ h => h.release hRow hKind hStatus
  | tooLate hHold hSampled hLate hPromoted =>
      refine Or.inl (Promoted.resource hCell
        (hPromoted.mono ?_))
      rintro t rfl
      exact .expire (.single (.intro hHold
        (hSampled.mono (by simp)) hLate))
  | declined hHold hPromoted =>
      refine Or.inl (Promoted.resource hCell
        (hPromoted.mono ?_))
      exact fun _ h => h.release hHold
  | expired hPromoted =>
      refine Or.inl (Promoted.resource hCell
        (hPromoted.mono ?_))
      exact fun _ h => .expire h
  | @patched scope patch r a now hResource hSampled
      hUnused =>
      refine Or.inr ⟨r, patch.apply now r, hResource, rfl,
        rfl, rfl, hSampled, ?_⟩
      intro hActive hInactive
      exact
        hUnused
          (ResourcePatch.deactivates hActive hInactive)
          hActive
  | archived hResource hSampled hUnused =>
      exact
        Or.inr ⟨_, _, hResource, rfl, rfl, rfl, hSampled,
          fun _ _ => hUnused⟩

/-
  A transaction that deactivates the resource has sampled the
  clock under its lock, and found the resource unused.
-/
theorem Effect.deactivates
    (hCell : s.Consistent)
    {request : Request}
    (hEffect : Effect rid log s request s')
    (hActive : ¬ s.Inactive)
    (hInactive : s'.Inactive) :
    ∃ r r', s.resource = some r ∧ r.active = true ∧
      s'.resource = some r' ∧ r'.active = false ∧
      SampledUnder log [.resourceUpdate rid] r'.updatedAt ∧
      s'.EndedBy r'.updatedAt ∧ s'.NoWaiter := by
  rcases hEffect.resource_cases hCell with
    hSame | ⟨r, r', hResource, hResource', hBookings,
      hEntries, hSampled, hUnused⟩
  · refine absurd ?_ hActive
    rcases hInactive with ⟨r, hResource, hNot⟩
    exact ⟨r, hSame.symm.trans hResource, hNot⟩
  · have hWas : r.active = true := by
      by_contra hNot
      exact
        hActive ⟨r, hResource, Bool.not_eq_true _ ▸ hNot⟩
    have hIs : r'.active = false := by
      simpa using hInactive.not_active hResource'
    rcases hUnused hWas hIs with ⟨hEnded, hNone⟩
    refine ⟨r, r', hResource, hWas, hResource', hIs, hSampled,
      ?_, ?_⟩
    · unfold Cell.EndedBy
      rw [hBookings]
      exact hEnded
    · unfold Cell.NoWaiter
      rw [hEntries]
      exact hNone

end PigBook

------------------------------------------------------------
-- Samples of the Database Clock
------------------------------------------------------------

namespace PigBook

open ReadCommitted

/- The database clock, where it does not run backwards. -/
def forwardSamples
    {X : Circumstances}
    (hClock : ∀ t t', X.clockMoves t t' → t ≤ t') :
    Clock X.world ℤ where
  time := Surroundings.clock
  reads := fun act t => act = ⟨.clock, t, []⟩
  answered := by
    intro env env' q a hAnswer
    cases hAnswer <;> exact le_refl _
  current := by
    intro env env' q a keys t hAnswer hReads
    cases hReads
    cases hAnswer
    rfl
  advanced := fun hAdvance => hClock _ _ hAdvance.1

theorem SampledUnder.forward
    {X : Circumstances}
    (hClock : ∀ t t', X.clockMoves t t' → t ≤ t')
    {rid : Uuid}
    {log : List (Action inventory)}
    {t : ℤ}
    (hSampled : SampledUnder log [.resourceUpdate rid] t) :
    (forwardSamples hClock).SampledUnder (.resourceUpdate rid)
      log t := by
  rcases hSampled with ⟨before, after, hLog, hHeld⟩
  exact
    ⟨before, _, after, hLog, rfl,
      hHeld _ (List.mem_singleton.mpr rfl)⟩

end PigBook

------------------------------------------------------------
-- Inactive Resources
------------------------------------------------------------

namespace PigBook

open ReadCommitted

/-
  The commit deactivates the resource, at the time that it
  has sampled under the lock and stored with the resource.
-/
structure Deactivates
    (rid : Uuid)
    (t : ℤ)
    (c : InventoryCommit) : Prop where
  active :
    ∃ r, (c.before rid).resource = some r ∧ r.active = true
  inactive :
    ∃ r, (c.after rid).resource = some r ∧
      r.active = false ∧ r.updatedAt = t
  sampled : SampledUnder c.log [.resourceUpdate rid] t

/-
  The latest deactivation of the resource was at `t`, and the
  resource has been inactive since.
-/
def InactiveSince
    (rid : Uuid)
    (t : ℤ)
    (hist : List InventoryCommit) : Prop :=
  ∃ later c earlier,
    hist = later ++ c :: earlier ∧ Deactivates rid t c ∧
      ∀ c' ∈ later,
        (c'.before rid).Inactive ∧ (c'.after rid).Inactive

variable {rid : Uuid} {t : ℤ} {c : InventoryCommit}
variable {hist : List InventoryCommit}

theorem InactiveSince.cons
    (hSince : InactiveSince rid t hist)
    (hBefore : (c.before rid).Inactive)
    (hAfter : (c.after rid).Inactive) :
    InactiveSince rid t (c :: hist) := by
  rcases hSince with ⟨later, c₀, earlier, rfl, hDone, hStays⟩
  refine ⟨c :: later, c₀, earlier, rfl, hDone, ?_⟩
  intro c' hc'
  rcases List.mem_cons.mp hc' with rfl | hLater
  · exact ⟨hBefore, hAfter⟩
  · exact hStays c' hLater

theorem InactiveSince.sampled
    (hSince : InactiveSince rid t hist) :
    ∃ c₀ ∈ hist, SampledUnder c₀.log [.resourceUpdate rid] t := by
  rcases hSince with ⟨later, c₀, earlier, rfl, hDone, -⟩
  exact
    ⟨c₀, List.mem_append_right _ List.mem_cons_self,
      hDone.sampled⟩

/- A commit that makes the resource inactive deactivates it. -/
theorem Effective.deactivates
    (hEffective : Effective c)
    (hActive : ¬ (c.before rid).Inactive)
    (hInactive : (c.after rid).Inactive) :
    ∃ t, Deactivates rid t c ∧ (c.after rid).EndedBy t ∧
      (c.after rid).NoWaiter := by
  rcases hEffective.request with ⟨rid', request, hCommit⟩
  by_cases hSame : rid = rid'
  · subst hSame
    have hCell := hEffective.consistent rid
    rcases (hCommit.effect hCell).deactivates hCell hActive
        hInactive with
      ⟨r, r', hResource, hWas, hResource', hIs, hSampled,
        hEnded, hNone⟩
    exact
      ⟨r'.updatedAt,
        ⟨⟨r, hResource, hWas⟩, ⟨r', hResource', hIs, rfl⟩,
          hSampled⟩, hEnded, hNone⟩
  · rw [hCommit.other rid hSame] at hInactive
    exact absurd hInactive hActive

/-
  What a history makes of an inactive resource: nobody waits
  for it, and what is booked on it has ended by the time of
  its latest deactivation.
-/
def Unused
    (rid : Uuid)
    (s : Cell)
    (hist : List InventoryCommit) : Prop :=
  s.Inactive →
    s.NoWaiter ∧
      ∀ b ∈ s.bookings, b.status.active = true →
        ∃ t, InactiveSince rid t hist ∧
          b.timeRange.upper ≤ t

/- One more commit, sampling no earlier than the others. -/
theorem Unused.commit
    {X : Circumstances}
    (hClock : ∀ t t', X.clockMoves t t' → t ≤ t')
    (hEffective : Effective c)
    (hOrdered :
      ∀ c' ∈ hist,
        (forwardSamples hClock).Ordered (.resourceUpdate rid)
          c c')
    (hUnused : Unused rid (c.before rid) hist) :
    Unused rid (c.after rid) (c :: hist) ∧
      ((c.before rid).Inactive →
        ∀ b ∈ (c.after rid).bookings,
          b.status.active = true →
            b ∈ (c.before rid).bookings) := by
  by_cases hBefore : (c.before rid).Inactive
  · rcases hUnused hBefore with ⟨hNone, hEnded⟩
    have hStill :=
      (hEffective.outcome rid).inactive
        (hEffective.consistent rid) hBefore hNone (by
          intro now hSampled b hRow hActive
          rcases hEnded b hRow hActive with ⟨t, hSince, hLe⟩
          rcases hSince.sampled with ⟨c₀, hc₀, hSampled₀⟩
          exact
            hLe.trans
              (hOrdered c₀ hc₀ now t
                (hSampled.forward hClock)
                (hSampled₀.forward hClock)))
    refine ⟨?_, fun _ => hStill.2⟩
    intro hAfter
    refine ⟨hStill.1, ?_⟩
    intro b hRow hActive
    rcases hEnded b (hStill.2 b hRow hActive) hActive with
      ⟨t, hSince, hLe⟩
    exact ⟨t, hSince.cons hBefore hAfter, hLe⟩
  · refine ⟨?_, fun hInactive => absurd hInactive hBefore⟩
    intro hAfter
    rcases hEffective.deactivates hBefore hAfter with
      ⟨t, hDone, hEnded, hNone⟩
    refine ⟨hNone, ?_⟩
    intro b hRow hActive
    refine ⟨t, ⟨[], c, hist, rfl, hDone, ?_⟩,
      hEnded b hRow hActive⟩
    intro c' hc'
    cases hc'

/-
  With a clock that does not run backwards, nobody waits for
  an inactive resource, every confirmed or offered booking of
  it had ended by the time that the deactivating transaction
  sampled, and no commit creates, confirms, or promotes one
  while the resource is inactive.
-/
theorem inactive_resources
    {X : Circumstances}
    {resources : Uuid → Option Resource}
    {env : Surroundings}
    {s : Sys X.world (Uuid → Cell) Reply}
    (hClock : ∀ t t', X.clockMoves t t' → t ≤ t')
    (hRun : InventoryRun X resources env s) :
    (∀ rid, (s.db rid).Inactive →
      (∀ e ∈ (s.db rid).entries, e.status ≠ .waiting) ∧
      ∀ b ∈ (s.db rid).bookings, b.status.active = true →
        ∃ t, InactiveSince rid t (commits s.trace) ∧
          b.timeRange.upper ≤ t) ∧
    ∀ c ∈ commits s.trace, ∀ rid,
      (c.before rid).Inactive →
        ∀ b ∈ (c.after rid).bookings,
          b.status.active = true →
            b ∈ (c.before rid).bookings := by
  have hInv :
      ∀ rid,
        (commits s.trace).Pairwise
            ((forwardSamples hClock).Ordered
              (.resourceUpdate rid)) →
          Unused rid (s.db rid) (commits s.trace) ∧
            ∀ c ∈ commits s.trace,
              (c.before rid).Inactive →
                ∀ b ∈ (c.after rid).bookings,
                  b.status.active = true →
                    b ∈ (c.before rid).bookings := by
    intro rid
    refine
      hRun.effects
        (fun db hist =>
          hist.Pairwise
              ((forwardSamples hClock).Ordered
                (.resourceUpdate rid)) →
            Unused rid (db rid) hist ∧
              ∀ c ∈ hist, (c.before rid).Inactive →
                ∀ b ∈ (c.after rid).bookings,
                  b.status.active = true →
                    b ∈ (c.before rid).bookings) ?_ ?_
    · intro _
      refine ⟨fun _ => ⟨?_, ?_⟩, ?_⟩
      · intro e hRow
        cases hRow
      · intro b hRow
        cases hRow
      · intro c hc
        cases hc
    · intro c hist hNow hBefore hPairwise
      rcases List.pairwise_cons.mp hPairwise with
        ⟨hOrdered, hRest⟩
      rcases hBefore hRest with ⟨hUnused, hHist⟩
      rcases hUnused.commit hClock hNow hOrdered with
        ⟨hAfter, hNothing⟩
      refine ⟨hAfter, ?_⟩
      intro c' hc'
      rcases List.mem_cons.mp hc' with rfl | hOld
      · exact hNothing
      · exact hHist c' hOld
  have hOrder :=
    fun rid =>
      hInv rid
        (Reachable.samples_ordered (forwardSamples hClock)
          (show Key.Conflict (.resourceUpdate rid)
            (.resourceUpdate rid) from rfl) hRun)
  exact
    ⟨fun rid => (hOrder rid).1,
      fun c hc rid => (hOrder rid).2 c hc⟩

end PigBook

namespace PigBook

open ReadCommitted

/-
  A user books a window, and an administrator archives the
  resource when the window is over.
-/
def retirement :
    Sys forwardClock.world (Uuid → Cell) Reply :=
  (Sys.initial (W := forwardClock.world)
    (fun _ =>
      Cell.opening forwardClock.users (some meetingRoom))
    ⟨0, []⟩).exec simulator [0]
    (.spawn 0
      ((Request.program 7
        (.createBooking (.owner 101) (.utc (hours 2))
          (.utc (hours 3)))).atCell 7) ::
      List.replicate 20 (.step 0) ++
      List.replicate 3 .pass ++
      .spawn 0
        ((Request.program 7
          (.archiveResource (.admin 100 (some 1)) 1)).atCell
            7) ::
      List.replicate 20 (.step 0))

theorem retirement_run :
    InventoryRun forwardClock (fun _ => some meetingRoom)
      ⟨0, []⟩ retirement := by
  unfold InventoryRun retirement
  refine Sys.exec_reachable (fun _ _ => rfl) ?_
  intro m hm
  simp only [List.cons_append, List.mem_cons,
    List.mem_append, List.mem_replicate] at hm
  rcases hm with rfl | (⟨-, rfl⟩ | ⟨-, rfl⟩) | rfl | ⟨-, rfl⟩
  · exact ⟨7, _, ⟨_, rfl⟩, rfl⟩
  · trivial
  · trivial
  · exact ⟨7, _, ⟨_, rfl⟩, rfl⟩
  · trivial

/- The confirmed booking was over when the archival came. -/
theorem inactive_resources_retirement :
    ∃ b ∈ (retirement.db 7).bookings,
      b.status.active = true ∧
        ∃ t, InactiveSince 7 t (commits retirement.trace) ∧
          b.timeRange.upper ≤ t := by
  have hInactive :
      ∃ r ∈ (retirement.db 7).resource, r.active = false := by
    decide +kernel
  have hBooked :
      ∃ b ∈ (retirement.db 7).bookings,
        b.status.active = true := by
    decide +kernel
  rcases hBooked with ⟨b, hRow, hActive⟩
  exact ⟨b, hRow, hActive,
    ((inactive_resources (fun _ _ hForward => hForward)
      retirement_run).1 7 hInactive).2 b hRow hActive⟩

end PigBook
