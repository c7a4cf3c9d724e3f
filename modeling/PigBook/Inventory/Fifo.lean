import PigBook.Inventory.PromotionFold
import PigBook.ReadCommitted.Schedule

/-
  The waitlist is served in order.

  Key theorems include:
    * `promoteFold_settled`
    * `promoteFold_fifo`
    * `promoteWaiters_fifo`
-/

------------------------------------------------------------
-- Rows and Windows During the Fold
------------------------------------------------------------

namespace PigBook

open ReadCommitted

variable {s : Cell} {rid : Uuid}

/- A step frees no window. -/
theorem promoteStep_occupied
    {r : TimeRange}
    (visit : WaitlistEntry × Sample)
    (hOccupied : s.Occupied r) :
    (promoteStep rid s visit).Occupied r := by
  rcases hOccupied with ⟨b, hRow, hOccupies⟩
  unfold promoteStep
  split
  · exact ⟨b, hRow, hOccupies⟩
  · split
    · exact ⟨b, hRow, hOccupies⟩
    · exact ⟨b, List.mem_append_left _ hRow, hOccupies⟩

/- A step changes the entry that it visits and no other. -/
theorem promoteStep_entry
    (hCell : s.Valid)
    {visit : WaitlistEntry × Sample}
    (hVisit : Visit s visit)
    {y : WaitlistEntry}
    (hOther : y.id ≠ visit.1.id) :
    y ∈ (promoteStep rid s visit).entries ↔
      y ∈ s.entries := by
  have hUpdate :
      ∀ f : WaitlistEntry → WaitlistEntry,
        (∀ e, (f e).id = e.id) →
          (y ∈ updateWhere visit.1.current f s.entries ↔
            y ∈ s.entries) := by
    intro f hId
    rw [hCell.mem_setEntry hVisit.row]
    constructor
    · rintro (rfl | ⟨hRow, -⟩)
      · exact absurd (hId visit.1) hOther
      · exact hRow
    · intro hRow
      exact Or.inr ⟨hRow, hOther⟩
  unfold promoteStep
  split
  · exact hUpdate _ (fun _ => rfl)
  · split
    · rfl
    · exact hUpdate _ (fun _ => rfl)

/- The row of the entry after its own step. -/
theorem promoteStep_visited
    (hCell : s.Valid)
    {e : WaitlistEntry}
    {x : Sample}
    (hVisit : Visit s (e, x))
    {y : WaitlistEntry}
    (hRow : y ∈ (promoteStep rid s (e, x)).entries)
    (hId : y.id = e.id) :
    (y.status = .waiting → s.Occupied e.timeRange) ∧
      (y.status = .offered → ¬ s.Occupied e.timeRange) := by
  unfold promoteStep at hRow
  split at hRow
  · rcases (hCell.mem_setEntry hVisit.row).mp hRow with
      rfl | ⟨-, hNe⟩
    · exact ⟨fun h => (by cases h), fun h => (by cases h)⟩
    · exact absurd hId hNe
  · split at hRow
    · have hSame :=
        hCell.entries.ids.eq_of_key hRow hVisit.row hId
      refine ⟨fun _ => ‹_›, fun hOffered => ?_⟩
      rw [hSame, hVisit.waiting] at hOffered
      cases hOffered
    · rcases (hCell.mem_setEntry hVisit.row).mp hRow with
        rfl | ⟨-, hNe⟩
      · exact ⟨fun h => (by cases h), fun _ => ‹_›⟩
      · exact absurd hId hNe

theorem promoteFold_occupied
    {r : TimeRange}
    (vs : List (WaitlistEntry × Sample))
    (hOccupied : s.Occupied r) :
    (promoteFold rid s vs).Occupied r := by
  induction vs generalizing s with
  | nil => exact hOccupied
  | cons v vs ih => exact ih (promoteStep_occupied v hOccupied)

theorem promoteFold_entry
    (hCell : s.Valid)
    {vs : List (WaitlistEntry × Sample)}
    (hVisits : Visits rid s vs)
    {y : WaitlistEntry}
    (hOther : ∀ v ∈ vs, y.id ≠ v.1.id) :
    y ∈ (promoteFold rid s vs).entries ↔ y ∈ s.entries := by
  induction vs generalizing s with
  | nil => rfl
  | cons v vs ih =>
      rw [promoteFold_cons,
        ih (hVisits.1.valid hCell) hVisits.2
          (fun v' hv' =>
            hOther v' (List.mem_cons_of_mem _ hv')),
        promoteStep_entry hCell hVisits.1
          (hOther v List.mem_cons_self)]

theorem Visits.split
    {vs vs' : List (WaitlistEntry × Sample)}
    (hVisits : Visits rid s (vs ++ vs')) :
    Visits rid s vs ∧
      Visits rid (promoteFold rid s vs) vs' := by
  induction vs generalizing s with
  | nil => exact ⟨trivial, hVisits⟩
  | cons v vs ih =>
      rcases ih hVisits.2 with ⟨hFirst, hRest⟩
      exact ⟨⟨hVisits.1, hFirst⟩, hRest⟩

end PigBook

------------------------------------------------------------
-- Every Waiter Is Blocked
------------------------------------------------------------

namespace PigBook

open ReadCommitted

variable {s : Cell} {rid : Uuid}

/-
  After a pass the entries that still wait are blocked, if
  those that the pass does not visit are blocked before.
-/
theorem promoteFold_blocked
    (hCell : s.Valid)
    {es : List WaitlistEntry}
    {xs : List Sample}
    (hLength : xs.length = es.length)
    (hVisits : Visits rid s (es.zip xs))
    (hBlocked :
      ∀ y ∈ s.entries, y.status = .waiting →
        y ∈ es ∨ s.Occupied y.timeRange) :
    (promoteFold rid s (es.zip xs)).Settled := by
  induction es generalizing s xs with
  | nil =>
      intro y hRow hWaiting
      rcases hBlocked y hRow hWaiting with hNil | hOccupied
      · cases hNil
      · exact hOccupied
  | cons e es ih =>
      cases xs with
      | nil => cases hLength
      | cons x xs =>
          have hVisit := hVisits.1
          refine
            ih (hVisit.valid hCell)
              (Nat.succ.inj hLength) hVisits.2 ?_
          intro y hRow hWaiting
          by_cases hId : y.id = e.id
          · -- the entry just visited still waits
            have hNow :=
              promoteStep_visited hCell hVisit hRow hId
            have hWindow : y.timeRange = e.timeRange := by
              unfold promoteStep at hRow
              split at hRow
              · rcases
                  (hCell.mem_setEntry hVisit.row).mp hRow with
                  rfl | ⟨-, hNe⟩
                · rfl
                · exact absurd hId hNe
              · split at hRow
                · rw [hCell.entries.ids.eq_of_key hRow
                    hVisit.row hId]
                · rcases
                    (hCell.mem_setEntry hVisit.row).mp hRow
                    with rfl | ⟨-, hNe⟩
                  · rfl
                  · exact absurd hId hNe
            right
            rw [hWindow]
            exact promoteStep_occupied _ (hNow.1 hWaiting)
          · have hOld :=
              (promoteStep_entry hCell hVisit hId).mp hRow
            rcases hBlocked y hOld hWaiting with
              hVisited | hOccupied
            · rcases List.mem_cons.mp hVisited with
                rfl | hLater
              · exact absurd rfl hId
              · exact Or.inl hLater
            · exact
                Or.inr (promoteStep_occupied _ hOccupied)

/- The queue holds exactly the waiting entries. -/
theorem Cell.mem_queue
    {e : WaitlistEntry} :
    e ∈ s.queue ↔ e ∈ s.entries ∧ e.status = .waiting := by
  unfold Cell.queue
  rw [List.mem_insertionSort, List.mem_filter,
    decide_eq_true_eq]

theorem Cell.Valid.queue_sorted
    (hCell : s.Valid) :
    s.queue.Pairwise
      (fun e e' => e.position < e'.position) := by
  have hKeyed : Keyed WaitlistEntry.position s.entries := by
    refine hCell.entries.ids.imp ?_
    intro e e' hNe hEq
    exact hNe (congrArg (fun c => (ofLex c).2) hEq)
  exact
    (Remaining.start (p := WaitlistEntry.isWaiting)
      hKeyed).sorted

/- A pass over the queue leaves no stranded waiter. -/
theorem promoteFold_settled
    (hCell : s.Valid)
    {xs : List Sample}
    (hLength : xs.length = s.queue.length)
    (hVisits : Visits rid s (s.queue.zip xs)) :
    (promoteFold rid s (s.queue.zip xs)).Settled :=
  promoteFold_blocked hCell hLength hVisits
    (fun _ hRow hWaiting =>
      Or.inl (Cell.mem_queue.mpr ⟨hRow, hWaiting⟩))

end PigBook

------------------------------------------------------------
-- First Come, First Served
------------------------------------------------------------

namespace PigBook

open ReadCommitted

variable {s : Cell} {rid : Uuid}

/-
  An entry that is still waiting after the pass has found its
  window taken, and so has every later entry of that window.
-/
theorem promoteFold_fifo
    (hCell : s.Valid)
    {before between after : List (WaitlistEntry × Sample)}
    {e e' : WaitlistEntry}
    {x x' : Sample}
    (hKeyed :
      Keyed (fun v : WaitlistEntry × Sample => v.1.id)
        (before ++ (e, x) :: (between ++ (e', x') :: after)))
    (hVisits :
      Visits rid s
        (before ++ (e, x) :: (between ++ (e', x') :: after)))
    (hWindow : e.timeRange = e'.timeRange)
    {y y' : WaitlistEntry}
    (hRow :
      y ∈ (promoteFold rid s
        (before ++
          (e, x) :: (between ++ (e', x') :: after))).entries)
    (hId : y.id = e.id)
    (hRow' :
      y' ∈ (promoteFold rid s
        (before ++
          (e, x) :: (between ++ (e', x') :: after))).entries)
    (hId' : y'.id = e'.id)
    (hOffered : y'.status = .offered) :
    y.status ≠ .waiting := by
  intro hWaiting
  rw [promoteFold_append, promoteFold_cons,
    promoteFold_append, promoteFold_cons] at hRow hRow'
  rcases hVisits.split with ⟨hBefore, hVisit, hLater⟩
  rcases hLater.split with ⟨hBetween, hVisit', hAfter⟩
  have hCell₁ :=
    hBefore.induction (fun h hv => hv.valid h) hCell
  have hCell₂ :
      (promoteStep rid (promoteFold rid s before)
        (e, x)).Valid :=
    hVisit.valid hCell₁
  have hCell₃ :=
    hBetween.induction (fun h hv => hv.valid h) hCell₂
  have hCell₄ :
      (promoteStep rid
        (promoteFold rid
          (promoteStep rid (promoteFold rid s before) (e, x))
          between) (e', x')).Valid :=
    hVisit'.valid hCell₃
  rcases List.pairwise_append.mp hKeyed with ⟨-, hTail, -⟩
  rcases List.pairwise_cons.mp hTail with ⟨hFirst, hRest⟩
  rcases List.pairwise_append.mp hRest with ⟨-, hEnd, -⟩
  rcases List.pairwise_cons.mp hEnd with ⟨hSecond, -⟩
  -- neither row changes after its own visit
  have hThen :
      y ∈ (promoteStep rid (promoteFold rid s before)
        (e, x)).entries := by
    have hOther : y.id ≠ e'.id := by
      rw [hId]
      exact hFirst (e', x') (by simp)
    rw [promoteFold_entry hCell₄ hAfter
        (fun v hv => by
          rw [hId]
          exact hFirst v (by simp [hv])),
      promoteStep_entry hCell₃ hVisit' hOther,
      promoteFold_entry hCell₂ hBetween
        (fun v hv => by
          rw [hId]
          exact hFirst v (by simp [hv]))] at hRow
    exact hRow
  have hThen' := by
    rw [promoteFold_entry hCell₄ hAfter
      (fun v hv => by
        rw [hId']
        exact hSecond v hv)] at hRow'
    exact hRow'
  have hTaken :=
    (promoteStep_visited hCell₁ hVisit hThen hId).1 hWaiting
  have hFree :=
    (promoteStep_visited hCell₃ hVisit' hThen' hId').2
      hOffered
  refine hFree ?_
  rw [← hWindow]
  exact
    promoteFold_occupied between
      (promoteStep_occupied _ hTaken)

/- Two positions of the queue split the pass in three. -/
theorem split_visits
    {queue : List WaitlistEntry}
    {xs : List Sample}
    (hSorted :
      queue.Pairwise (fun e e' => e.position < e'.position))
    (hLength : xs.length = queue.length)
    {e e' : WaitlistEntry}
    (hRow : e ∈ queue)
    (hRow' : e' ∈ queue)
    (hBefore : e.position < e'.position) :
    ∃ before between after x x',
      queue.zip xs =
        before ++ (e, x) :: (between ++ (e', x') :: after) := by
  rcases List.append_of_mem hRow with ⟨l, l', rfl⟩
  rcases List.pairwise_append.mp hSorted with ⟨-, -, hCross⟩
  have hLater : e' ∈ l' := by
    rcases List.mem_append.mp hRow' with hEarlier | hRest
    · have hLt := hCross e' hEarlier e List.mem_cons_self
      exact absurd hBefore (lt_asymm hLt)
    · rcases List.mem_cons.mp hRest with rfl | hLater
      · exact absurd hBefore (lt_irrefl _)
      · exact hLater
  rcases List.append_of_mem hLater with ⟨m, m', rfl⟩
  have hFst :
      ((l ++ e :: (m ++ e' :: m')).zip xs).map Prod.fst =
        l ++ e :: (m ++ e' :: m') :=
    List.map_fst_zip (le_of_eq hLength.symm)
  rcases List.map_eq_append_iff.mp hFst with
    ⟨before, rest, hZip, -, hRest⟩
  rcases List.map_eq_cons_iff.mp hRest with
    ⟨⟨_, x⟩, tail, rfl, rfl, hTail⟩
  rcases List.map_eq_append_iff.mp hTail with
    ⟨between, rest', rfl, -, hRest'⟩
  rcases List.map_eq_cons_iff.mp hRest' with
    ⟨⟨_, x'⟩, after, rfl, rfl, -⟩
  exact ⟨before, between, after, x, x', hZip⟩

end PigBook

------------------------------------------------------------
-- The Promotion Run Alone
------------------------------------------------------------

namespace PigBook

open ReadCommitted

variable {s : Cell} {rid : Uuid}

/-
  A run of the promotion under the lock of its resource.  It
  fails only when a drawn identifier is not new; otherwise it
  is the fold over the queue, which visits each waiting entry
  once.  No entry is offered its window before an earlier one
  that waits for the same, and at the end each waiting entry
  is blocked.
-/
theorem promoteWaiters_fifo
    {pageSize : ℕ}
    (hSize : 1 ≤ pageSize)
    (hCell : s.Valid)
    {log : List (Action inventory)}
    {w : Cell → Cell}
    {p' : Tx (List Uuid)}
    (run :
      Prog.Serial (promoteWaiters pageSize rid) s log w p') :
    (∀ err, p' = .fail err → Clash s.Uses log) ∧
    ∀ promoted, p' = .done promoted →
      s.queue.Pairwise
        (fun e e' => e.position < e'.position) ∧
      (∀ e, e ∈ s.queue ↔
        e ∈ s.entries ∧ e.status = .waiting) ∧
      (∃ xs, xs.length = s.queue.length ∧
        asked log = askedInFold rid s (s.queue.zip xs) ∧
        w s = promoteFold rid s (s.queue.zip xs) ∧
        promoted = offeredInFold rid s (s.queue.zip xs)) ∧
      (∀ e ∈ s.queue, ∀ e' ∈ s.queue,
        e.position < e'.position →
        e.timeRange = e'.timeRange →
        (∃ y ∈ (w s).entries,
          y.id = e'.id ∧ y.status = .offered) →
        ∀ y ∈ (w s).entries, y.id = e.id →
          y.status ≠ .waiting) ∧
      (w s).Settled := by
  have hRule :
      (promoteWaiters pageSize rid).wp
        (fun log t promoted =>
          ∃ xs, xs.length = s.queue.length ∧
            asked log = askedInFold rid s (s.queue.zip xs) ∧
            Visits rid s (s.queue.zip xs) ∧
            t = promoteFold rid s (s.queue.zip xs) ∧
            promoted =
              offeredInFold rid s (s.queue.zip xs))
        (fun log _ => Clash s.Uses log) [] s := by
    have hAccounted : s.Accounted s.Uses [] :=
      fun _ hUses => Or.inl hUses
    refine
      promoteWaiters_rule hSize hCell hAccounted
        (fun _ _ hClash => hClash) ?_
    intro xs acts hLength hAsked hVisits
    exact ⟨xs, hLength, hAsked, hVisits, rfl, rfl⟩
  constructor
  · intro err hFail
    subst hFail
    exact run.err_of_fail hRule
  · intro promoted hDone
    subst hDone
    rcases run.post_of_done hRule with
      ⟨xs, hLength, hAsked, hVisits, hCellEq, hPromoted⟩
    have hSorted := hCell.queue_sorted
    refine ⟨hSorted, fun e => Cell.mem_queue,
      ⟨xs, hLength, hAsked, hCellEq, hPromoted⟩, ?_, ?_⟩
    · intro e hRow e' hRow' hBefore hWindow hOffered y hy hId
      rcases hOffered with ⟨y', hy', hId', hStatus⟩
      rcases
        split_visits hSorted hLength hRow hRow' hBefore with
        ⟨before, between, after, x, x', hZip⟩
      have hKeyed :
          Keyed (fun v : WaitlistEntry × Sample => v.1.id)
            (s.queue.zip xs) := by
        have hQueue : Keyed WaitlistEntry.id s.queue := by
          have hFilter :
              Keyed WaitlistEntry.id
                (s.entries.filter (·.status = .waiting)) :=
            List.Pairwise.filter _ hCell.entries.ids
          exact
            (List.perm_insertionSort
              (fun e e' : WaitlistEntry =>
                e.position ≤ e'.position) _).symm.pairwise
              hFilter (fun h => Ne.symm h)
        have hFst :
            (s.queue.zip xs).map Prod.fst = s.queue :=
          List.map_fst_zip (le_of_eq hLength.symm)
        rw [← hFst] at hQueue
        unfold Keyed at hQueue ⊢
        rw [List.pairwise_map] at hQueue
        exact hQueue
      rw [hCellEq, hZip] at hy hy'
      rw [hZip] at hKeyed hVisits
      exact
        promoteFold_fifo hCell hKeyed hVisits hWindow hy hId
          hy' hId' hStatus
    · rw [hCellEq]
      exact promoteFold_settled hCell hLength hVisits

/- Two users wait for a window that is free. -/
def twoWaiters : Cell where
  users := [1, 2]
  resource := some {
    name := "Meeting room"
    description := ""
    location := "Ground floor"
    active := true
    version := 1
    createdAt := 0
    updatedAt := 0
  }
  bookings := []
  entries :=
    [1, 2].map (fun n =>
      { id := n
        userId := n
        timeRange := ⟨hours 2, hours 3, by decide⟩
        status := .waiting
        offeredBookingId := none
        version := 1
        createdAt := 0
        updatedAt := 0 })
  outbox := []
  audit := []

/- The promotion of the two, with pages of one entry. -/
def twoWaitersRun :
    Prog.Progress inventory Cell (List Uuid) :=
  Prog.follow twoWaiters
    ((List.range 40).map (fun n q =>
      match q with
      | .plain => ()
      | .clock => 0
      | .transactionTime => 0
      | .uuid => Fin.ofNat (2 ^ 128) n
      | .ownerEnabled _ => some true
      | .rowLocked _ => false))
    ⟨[], id, promoteWaiters 1 7⟩

theorem twoWaiters_valid :
    twoWaiters.Valid where
  foreign := by
    intro hNone
    cases hNone
  bookings := ⟨.nil, .nil, by simp [twoWaiters]⟩
  entries :=
    ⟨by unfold Keyed; decide +kernel, by decide +kernel,
      by decide +kernel, by decide +kernel⟩
  owners := by simp [twoWaiters]
  members := by decide +kernel
  linkedExists := by simp [twoWaiters]
  outboxExists := by simp [twoWaiters]

/- The first is offered the window, the second waits on. -/
theorem promoteWaiters_fifo_two :
    ∃ promoted,
      twoWaitersRun.rest = .done promoted ∧
      (∃ xs, xs.length = twoWaiters.queue.length ∧
        twoWaitersRun.writes twoWaiters =
          promoteFold 7 twoWaiters
            (twoWaiters.queue.zip xs)) ∧
      (twoWaitersRun.writes twoWaiters).Settled := by
  have hDone : ∃ promoted,
      twoWaitersRun.answer? = some promoted := by
    refine Option.isSome_iff_exists.mp ?_
    decide +kernel
  rcases hDone with ⟨promoted, hAnswer⟩
  have hRest := Prog.Progress.rest_of_answer hAnswer
  rcases
    (promoteWaiters_fifo (le_refl 1)
      twoWaiters_valid (Prog.follow_serial .start)).2
      promoted hRest with
    ⟨-, -, ⟨xs, hLength, -, hFold, -⟩, -, hSettled⟩
  exact ⟨promoted, hRest, ⟨xs, hLength, hFold⟩, hSettled⟩

end PigBook
