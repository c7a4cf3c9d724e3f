import PigBook.Inventory.Requests

/-
  What holds of bookings and the waitlist in every committed
  state, whatever the interleaving.

  Key theorems include:
    * `no_stranded_waiter`
    * `holds_linked`
-/

------------------------------------------------------------
-- Histories
------------------------------------------------------------

namespace PigBook

open ReadCommitted

abbrev InventoryCommit :=
  Commit inventory (Uuid → Cell) Reply

/- What a committed request does to each cell. -/
structure Effective (c : InventoryCommit) : Prop where
  consistent : ∀ rid, (c.before rid).Consistent
  outcome :
    ∀ rid, Outcome rid c.log (c.before rid) (c.after rid)
  request : ∃ rid request, CommitOf c rid request

theorem CommitOf.effective
    {c : InventoryCommit}
    {rid : Uuid}
    {request : Request}
    (hCommit : CommitOf c rid request)
    (hCells : ∀ i, (c.before i).Consistent) :
    Effective c where
  consistent := hCells
  outcome := by
    intro i
    by_cases hSame : i = rid
    · subst hSame
      exact hCommit.outcome (hCells i)
    · rw [hCommit.other i hSame]
      exact .quiet
  request := ⟨rid, request, hCommit⟩

/- The rule again, for invariants that see effects only. -/
theorem InventoryRun.effects
    {X : Circumstances}
    {resources : Uuid → Option Resource}
    {env : Surroundings}
    {s : Sys X.world (Uuid → Cell) Reply}
    (hRun : InventoryRun X resources env s)
    (Inv : (Uuid → Cell) → List InventoryCommit → Prop)
    (hInit :
      Inv (fun rid => Cell.opening X.users (resources rid))
        [])
    (hEffect :
      ∀ c hist, Effective c → Inv c.before hist →
        Inv c.after (c :: hist)) :
    Inv s.db (commits s.trace) :=
  (hRun.commit_induction Inv hInit
    (fun c hist _ _ hCommit hCells hInv =>
      hEffect c hist (hCommit.effective hCells) hInv)).2

section Runs

variable {X : Circumstances}
variable {resources : Uuid → Option Resource}
variable {env : Surroundings}
variable {s : Sys X.world (Uuid → Cell) Reply}

theorem InventoryRun.consistent
    (hRun : InventoryRun X resources env s) :
    ∀ rid, (s.db rid).Consistent :=
  (hRun.commit_induction (fun _ _ => True) trivial
    (fun _ _ _ _ _ _ _ => trivial)).1

/- Every commit of a run has its effects. -/
theorem InventoryRun.effective
    (hRun : InventoryRun X resources env s) :
    ∀ c ∈ commits s.trace, Effective c := by
  refine
    hRun.effects
      (fun _ hist => ∀ c ∈ hist, Effective c) ?_ ?_
  · intro c hc
    cases hc
  · intro c hist hEffective hInv c' hc'
    rcases List.mem_cons.mp hc' with rfl | hOld
    · exact hEffective
    · exact hInv c' hOld

/- The users of a run are the same throughout. -/
theorem InventoryRun.users
    (hRun : InventoryRun X resources env s) :
    ∀ rid, (s.db rid).users = X.users := by
  refine
    hRun.effects
      (fun db _ => ∀ rid, (db rid).users = X.users) ?_ ?_
  · exact fun _ => rfl
  · intro c hist hEffective hBefore rid
    exact
      (hEffective.outcome rid).users.trans (hBefore rid)

/- No waiter is stranded before or after any commit. -/
theorem InventoryRun.settled
    (hRun : InventoryRun X resources env s) :
    (∀ rid, (s.db rid).Settled) ∧
      ∀ c ∈ commits s.trace, ∀ rid,
        (c.before rid).Settled := by
  refine
    hRun.effects
      (fun db hist =>
        (∀ rid, (db rid).Settled) ∧
          ∀ c ∈ hist, ∀ rid, (c.before rid).Settled)
      ⟨fun rid =>
        Cell.settled_opening X.users (resources rid), ?_⟩ ?_
  · intro c hc
    cases hc
  · rintro c hist hEffective ⟨hBefore, hHist⟩
    refine ⟨fun rid => ?_, ?_⟩
    · exact
        (hEffective.outcome rid).settled
          (hEffective.consistent rid) (hBefore rid)
    · intro c' hc'
      rcases List.mem_cons.mp hc' with rfl | hOld
      · exact hBefore
      · exact hHist c' hOld

end Runs

end PigBook

------------------------------------------------------------
-- No Stranded Waiter
------------------------------------------------------------

namespace PigBook

open ReadCommitted

theorem BookingStatus.active_iff
    {status : BookingStatus} :
    status.active = true ↔
      status = .confirmed ∨ status = .offered := by
  cases status <;> simp [BookingStatus.active]

/-
  In every committed state each waiting entry is blocked by a
  confirmed or offered booking, and no commit has inserted a
  confirmed booking that takes a whole window for which an
  entry was waiting.
-/
theorem no_stranded_waiter
    {X : Circumstances}
    {resources : Uuid → Option Resource}
    {env : Surroundings}
    {s : Sys X.world (Uuid → Cell) Reply}
    (hRun : InventoryRun X resources env s) :
    (∀ rid, ∀ e ∈ (s.db rid).entries, e.status = .waiting →
      ∃ b ∈ (s.db rid).bookings,
        (b.status = .confirmed ∨ b.status = .offered) ∧
        b.timeRange.Overlaps e.timeRange) ∧
    ∀ c ∈ commits s.trace, ∀ rid,
      ∀ b ∈ (c.after rid).bookings,
        (∀ b' ∈ (c.before rid).bookings, b'.id ≠ b.id) →
        b.status = .confirmed →
        ∀ e ∈ (c.before rid).entries, e.status = .waiting →
          ¬ b.timeRange.Covers e.timeRange := by
  rcases hRun.settled with ⟨hNow, hBefore⟩
  constructor
  · intro rid e hRow hWaiting
    rcases hNow rid e hRow hWaiting with
      ⟨b, hRowB, hActive, hOverlap⟩
    exact ⟨b, hRowB, BookingStatus.active_iff.mp hActive,
      hOverlap⟩
  · intro c hCommit rid b hRow hNew hConfirmed e hRowE
      hWaiting hCovers
    have hEffective := hRun.effective c hCommit
    rcases
      (hEffective.outcome rid).origin
        (hEffective.consistent rid) hRow with
      ⟨b', hRow', hId⟩ | hOrigin
    · exact hNew b' hRow' hId
    · cases hOrigin with
      | confirmed hStatus hFree =>
          -- what blocks the waiter blocks the new booking
          rcases hBefore c hCommit rid e hRowE hWaiting with
            ⟨b', hRow', hActive, hOverlap⟩
          exact
            hFree ⟨b', hRow', hActive,
              (hCovers.overlaps hOverlap.symm).symm⟩
      | offered hBooking hAsked =>
          rw [hBooking] at hConfirmed
          cases hConfirmed

end PigBook

namespace PigBook

open ReadCommitted

/- The second user waits, blocked by the first one. -/
theorem no_stranded_waiter_scenario :
    ∃ e ∈ ((scenario 2).db 7).entries, e.status = .waiting ∧
      ∃ b ∈ ((scenario 2).db 7).bookings,
        (b.status = .confirmed ∨ b.status = .offered) ∧
        b.timeRange.Overlaps e.timeRange := by
  have hWaits :
      ∃ e ∈ ((scenario 2).db 7).entries,
        e.status = .waiting := by
    decide +kernel
  rcases hWaits with ⟨e, hRow, hWaiting⟩
  exact ⟨e, hRow, hWaiting,
    (no_stranded_waiter (scenario_run 2)).1 7 e hRow
      hWaiting⟩

end PigBook

------------------------------------------------------------
-- Holds and Their Entries
------------------------------------------------------------

namespace PigBook

open ReadCommitted

/-
  An entry is offered exactly when the booking that it refers
  to is on offer for it.  Each offered booking is referred to
  by one entry, which is offered, and no reference leaves the
  resource.  Each accepted entry was accepted by a commit
  that moved its booking from offered to confirmed.
-/
theorem holds_linked
    {X : Circumstances}
    {resources : Uuid → Option Resource}
    {env : Surroundings}
    {s : Sys X.world (Uuid → Cell) Reply}
    (hRun : InventoryRun X resources env s) :
    (∀ rid, ∀ e ∈ (s.db rid).entries,
      e.status = .offered ↔
        ∃ b ∈ (s.db rid).bookings,
          e.offeredBookingId = some b.id ∧
          b.status = .offered ∧
          b.userId = some e.userId ∧
          b.timeRange = e.timeRange) ∧
    (∀ rid, ∀ b ∈ (s.db rid).bookings,
      b.status = .offered →
        ∃ e, e.status = .offered ∧
          (s.db rid).entries.filter
            (·.offeredBookingId = some b.id) = [e]) ∧
    (∀ rid, ∀ e ∈ (s.db rid).entries,
      ∀ id ∈ e.offeredBookingId,
        ∃ b ∈ (s.db rid).bookings, b.id = id) ∧
    ∀ rid, ∀ e ∈ (s.db rid).entries, e.status = .accepted →
      ∃ c ∈ commits s.trace,
        AcceptedBetween (c.before rid) (c.after rid) e := by
  have hCells := hRun.consistent
  refine ⟨?_, ?_, fun rid => (hCells rid).linkedExists, ?_⟩
  · intro rid e hRow
    constructor
    · intro hOffered
      rcases (hCells rid).offeredLinked e hRow hOffered with
        ⟨b, hRowB, hHolds⟩
      exact ⟨b, hRowB, hHolds.link, hHolds.offered,
        hHolds.user, hHolds.window⟩
    · rintro ⟨b, hRowB, hLink, hOffered, -, -⟩
      rcases (hCells rid).hold_of_booking hRowB hOffered with
        ⟨e', hHold⟩
      rw [(hCells rid).eq_of_link hRow hHold.row hLink
        hHold.holds.link]
      exact hHold.status
  · intro rid b hRowB hOffered
    rcases (hCells rid).hold_of_booking hRowB hOffered with
      ⟨e, hHold⟩
    refine ⟨e, hHold.status, ?_⟩
    refine
      (hCells rid).entries.ids.filter_eq_singleton hHold.row
        ?_
    intro x hx
    rw [decide_eq_true_iff]
    constructor
    · intro hLink
      exact congrArg WaitlistEntry.id
        ((hCells rid).eq_of_link hx hHold.row hLink
          hHold.holds.link)
    · intro hId
      rw [(hCells rid).entries.ids.eq_of_key hx hHold.row hId]
      exact hHold.holds.link
  · refine
      hRun.effects
        (fun db hist =>
          ∀ rid, ∀ e ∈ (db rid).entries,
            e.status = .accepted →
              ∃ c ∈ hist,
                AcceptedBetween (c.before rid) (c.after rid)
                  e) ?_ ?_
    · intro rid e hRow
      cases hRow
    · intro c hist hEffective hInv rid e hRow hAccepted
      rcases
        (hEffective.outcome rid).accepted
          (hEffective.consistent rid) hRow hAccepted with
        hOld | hNow
      · rcases hInv rid e hOld hAccepted with
          ⟨c', hc', hBetween⟩
        exact ⟨c', List.mem_cons_of_mem c hc', hBetween⟩
      · exact ⟨c, List.mem_cons_self, hNow⟩

end PigBook

namespace PigBook

open ReadCommitted

/- The second user's entry is accepted with its booking. -/
theorem holds_linked_scenario :
    ∃ e ∈ ((scenario 4).db 7).entries,
      e.status = .accepted ∧
        ∃ c ∈ commits (scenario 4).trace,
          AcceptedBetween (c.before 7) (c.after 7) e := by
  have hAccepted :
      ∃ e ∈ ((scenario 4).db 7).entries,
        e.status = .accepted := by
    decide +kernel
  rcases hAccepted with ⟨e, hRow, hStatus⟩
  exact ⟨e, hRow, hStatus,
    (holds_linked (scenario_run 4)).2.2.2 7 e hRow hStatus⟩

end PigBook
