import Mathlib.Data.List.Sort
import PigBook.Inventory.Operations
import PigBook.Scheduler.Sweep

/-
  The hold expiry scheduler: discovery of the resources that
  have something to do, and the cycle that examines them.

  Key definitions include:
    * `Snapshot`, `candidates`
    * `discoverCandidateResources`
    * `HoldExpiryScheduler`, `CycleM`, `runCycle`
    * `calls`, `examined`

  Key theorems include:
    * `query_eq_page`
    * `examineAll_eq`, `runCycle_eq`
    * `examined_eq_run`
    * `scheduler_coverage`
-/

------------------------------------------------------------
-- Discovery
------------------------------------------------------------

namespace PigBook.Scheduler

open PigBook

/-
  What a discovery query sees: the rows of both tables with
  their `resource_id`, and `clock_timestamp()`, which is read
  anew for every booking that the query looks at.
-/
structure Snapshot where
  bookings : List (Uuid × Booking)
  waitlistEntries : List (Uuid × WaitlistEntry)
  clockTimestamp : Uuid → ℤ

namespace Snapshot

def qBookings (snapshot : Snapshot) : List Uuid :=
  (snapshot.bookings.filter fun row =>
    Booking.due (snapshot.clockTimestamp row.2.id) row.2).map
      Prod.fst

def qWaitlist (snapshot : Snapshot) : List Uuid :=
  (snapshot.waitlistEntries.filter fun row =>
    decide (row.2.status = .waiting)).map Prod.fst

/- The rows of the union, which are distinct. -/
def unionSubq (snapshot : Snapshot) : List Uuid :=
  (snapshot.qBookings ++ snapshot.qWaitlist).dedup

end Snapshot

/- The condition `in_(resource_ids)`, when there is one. -/
def inResourceIds
    (resourceIds : Option (List Uuid))
    (resourceId : Uuid) : Bool :=
  match resourceIds with
  | none => true
  | some ids => ids.contains resourceId

/- The condition `resource_id > after_cursor`, if any. -/
def afterCursor
    (cursor : Option Uuid)
    (resourceId : Uuid) : Bool :=
  match cursor with
  | none => true
  | some c => decide (c < resourceId)

def query
    (limit : ℕ)
    (resourceIds : Option (List Uuid))
    (cursor : Option Uuid)
    (snapshot : Snapshot) : List Uuid :=
  (((snapshot.unionSubq.filter (inResourceIds resourceIds)).filter
    (afterCursor cursor)).insertionSort (· ≤ ·)).take limit

/-
  The second snapshot is the one of the query that wraps to
  the beginning, when it is made.
-/
def discoverCandidateResources
    (cursor : Option Uuid)
    (limit : ℕ)
    (resourceIds : Option (List Uuid))
    (first wrapped : Snapshot) : List Uuid × Bool :=
  let found := query limit resourceIds cursor first
  if found.isEmpty ∧ cursor.isSome then
    let found := query limit resourceIds none wrapped
    (found, decide (found.length < limit))
  else
    (found, decide (found.length < limit))

end PigBook.Scheduler

------------------------------------------------------------
-- Cycles
------------------------------------------------------------

namespace PigBook.Scheduler

open PigBook

structure HoldExpiryScheduler where
  batchSize : ℕ
  resourceIds : Option (List Uuid)
  cursor : Option Uuid

/-
  What one cycle meets: the two snapshots, and how many holds
  each call of `expire_and_promote` reports.  A call that does
  not get the lock of its resource reports none.
-/
structure Cycle where
  first : Snapshot
  wrapped : Snapshot
  expireAndPromote : Uuid → ℕ

/- A call of `expire_and_promote`, and what it returned. -/
structure Call where
  resourceId : Uuid
  expired : ℕ
deriving DecidableEq

/-
  The scheduler and the calls that it has made, in order.
  Nothing but a call of `expireAndPromote` adds to them.
-/
structure Working where
  scheduler : HoldExpiryScheduler
  calls : List Call

abbrev CycleM := StateM Working

def setCursor (cursor : Option Uuid) : CycleM Unit :=
  modify (fun s =>
    { s with scheduler := { s.scheduler with cursor } })

/- One transaction, which others may have locked out. -/
def expireAndPromote
    (cycle : Cycle)
    (resourceId : Uuid) : CycleM ℕ := do
  let expired := cycle.expireAndPromote resourceId
  modify (fun s =>
    { s with calls := s.calls ++ [⟨resourceId, expired⟩] })
  return expired

/- The loop over the candidates. -/
def examineAll
    (cycle : Cycle) : List Uuid → ℕ → CycleM ℕ
| [], totalExpired => return totalExpired
| resourceId :: rest, totalExpired => do
    setCursor (some resourceId)
    let expired ← expireAndPromote cycle resourceId
    examineAll cycle rest (totalExpired + expired)

/- One cycle that completes. -/
def runCycle (cycle : Cycle) : CycleM ℕ := do
  let s ← get
  let discovered :=
    discoverCandidateResources s.scheduler.cursor
      s.scheduler.batchSize s.scheduler.resourceIds
      cycle.first cycle.wrapped
  let totalExpired ← examineAll cycle discovered.1 0
  if discovered.2 then
    setCursor none
  return totalExpired

/- Consecutive cycles, and what each of them returned. -/
def runCycles : List Cycle → CycleM (List ℕ)
| [] => return []
| cycle :: cycles => do
    let totalExpired ← runCycle cycle
    let rest ← runCycles cycles
    return totalExpired :: rest

/- The calls that consecutive cycles make, in order. -/
def calls
    (scheduler : HoldExpiryScheduler)
    (cycles : List Cycle) : List Call :=
  ((runCycles cycles).run ⟨scheduler, []⟩).2.calls

/- The resources for which a call is made. -/
def examined
    (scheduler : HoldExpiryScheduler)
    (cycles : List Cycle) : List Uuid :=
  (calls scheduler cycles).map (·.resourceId)

end PigBook.Scheduler

------------------------------------------------------------
-- Candidates
------------------------------------------------------------

namespace PigBook.Scheduler

open PigBook

/- The candidate resources that the scheduler looks after. -/
def candidates
    (resourceIds : Option (List Uuid))
    (snapshot : Snapshot) : Finset Uuid :=
  (snapshot.unionSubq.filter (inResourceIds resourceIds)).toFinset

def candidateSets
    (resourceIds : Option (List Uuid))
    (cycle : Cycle) : Finset Uuid × Finset Uuid :=
  (candidates resourceIds cycle.first,
    candidates resourceIds cycle.wrapped)

/- From query to query, no new candidate appears. -/
def NoneAppears
    (resourceIds : Option (List Uuid))
    (known : Finset Uuid)
    (cycles : List Cycle) : Prop :=
  Sweep.Shrinks known (cycles.map (candidateSets resourceIds))

/- The resource is a candidate at every query. -/
def StaysCandidate
    (resourceIds : Option (List Uuid))
    (resourceId : Uuid)
    (cycles : List Cycle) : Prop :=
  ∀ cycle ∈ cycles,
    resourceId ∈ candidates resourceIds cycle.first ∧
      resourceId ∈ candidates resourceIds cycle.wrapped

theorem afterCursor_iff
    {cursor : Option Uuid}
    {resourceId : Uuid} :
    afterCursor cursor resourceId = true ↔
      Sweep.Behind cursor resourceId := by
  cases cursor with
  | none => simp [afterCursor, Sweep.behind_none]
  | some c => simp [afterCursor, Sweep.behind_some]

/- The query reads one page of the candidates. -/
theorem query_eq_page
    (limit : ℕ)
    (resourceIds : Option (List Uuid))
    (cursor : Option Uuid)
    (snapshot : Snapshot) :
    query limit resourceIds cursor snapshot =
      Sweep.page limit cursor
        (candidates resourceIds snapshot) := by
  unfold query Sweep.page
  congr 1
  generalize hRows :
    snapshot.unionSubq.filter (inResourceIds resourceIds) = rows
  have hNodup : rows.Nodup := by
    rw [← hRows]
    exact (List.nodup_dedup _).filter _
  have hSet : candidates resourceIds snapshot = rows.toFinset := by
    unfold candidates
    rw [hRows]
  have hFilter :
      rows.toFinset.filter (Sweep.Behind cursor) =
        (rows.filter (afterCursor cursor)).toFinset := by
    ext x
    rw [Finset.mem_filter, List.mem_toFinset,
      List.mem_toFinset, List.mem_filter, afterCursor_iff]
  rw [hSet, hFilter]
  have hPerm :=
    List.perm_insertionSort (· ≤ ·)
      (rows.filter (afterCursor cursor))
  have hSame :
      (rows.filter (afterCursor cursor)).toFinset =
        ((rows.filter (afterCursor cursor)).insertionSort
          (· ≤ ·)).toFinset :=
    (List.toFinset_eq_of_perm _ _ hPerm).symm
  rw [hSame]
  symm
  rw [List.toFinset_sort]
  · exact List.pairwise_insertionSort (· ≤ ·) _
  · exact hPerm.nodup_iff.mpr (hNodup.filter _)

/- The calls that a cycle makes for what it has found. -/
def callsFor
    (cycle : Cycle)
    (found : List Uuid) : List Call :=
  found.map (fun resourceId =>
    ⟨resourceId, cycle.expireAndPromote resourceId⟩)

/-
  The loop makes one call for each candidate, returns the sum
  of what they return, and stops at the last one.
-/
theorem examineAll_eq
    (cycle : Cycle)
    (found : List Uuid)
    (totalExpired : ℕ)
    (s : Working) :
    (examineAll cycle found totalExpired).run s =
      (totalExpired + (found.map cycle.expireAndPromote).sum,
        { scheduler :=
            { s.scheduler with
              cursor := found.getLast?.or s.scheduler.cursor }
          calls := s.calls ++ callsFor cycle found }) := by
  induction found generalizing totalExpired s with
  | nil =>
      change (totalExpired, s) = _
      simp [callsFor]
  | cons resourceId found ih =>
      change
        (examineAll cycle found
            (totalExpired + cycle.expireAndPromote resourceId)).run
          ⟨{ s.scheduler with cursor := some resourceId },
            s.calls ++
              [⟨resourceId,
                cycle.expireAndPromote resourceId⟩]⟩ = _
      rw [ih]
      have hLast :
          found.getLast?.or (some resourceId) =
            ((resourceId :: found).getLast?).or
              s.scheduler.cursor := by
        rw [List.getLast?_cons]
        cases found.getLast? with
        | none => rfl
        | some c => rfl
      rw [hLast]
      simp [callsFor, Nat.add_assoc]

/- The pages of both queries, and whether the end is reached. -/
theorem discover_eq
    (cursor : Option Uuid)
    (limit : ℕ)
    (resourceIds : Option (List Uuid))
    (first wrapped : Snapshot) :
    discoverCandidateResources cursor limit resourceIds
        first wrapped =
      ((Sweep.cycle limit cursor
          (candidates resourceIds first)
          (candidates resourceIds wrapped)).1,
        decide
          ((Sweep.cycle limit cursor
            (candidates resourceIds first)
            (candidates resourceIds wrapped)).1.length <
              limit)) := by
  unfold discoverCandidateResources Sweep.cycle
  simp only [query_eq_page, List.isEmpty_iff,
    Option.isSome_iff_ne_none]
  split
  · rfl
  · rfl

/- One cycle of the scheduler is a cycle of the sweep. -/
theorem runCycle_eq
    (cycle : Cycle)
    (s : Working) :
    let found :=
      Sweep.cycle s.scheduler.batchSize s.scheduler.cursor
        (candidates s.scheduler.resourceIds cycle.first)
        (candidates s.scheduler.resourceIds cycle.wrapped)
    (runCycle cycle).run s =
      ((found.1.map cycle.expireAndPromote).sum,
        { scheduler := { s.scheduler with cursor := found.2 }
          calls := s.calls ++ callsFor cycle found.1 }) := by
  intro found
  have hDiscovered :=
    discover_eq s.scheduler.cursor s.scheduler.batchSize
      s.scheduler.resourceIds cycle.first cycle.wrapped
  have hLoop := examineAll_eq cycle found.1 0 s
  rw [Nat.zero_add] at hLoop
  have hCursor :
      found.2 =
        if found.1.length < s.scheduler.batchSize then
          none
        else
          found.1.getLast?.or s.scheduler.cursor := by
    rw [← Sweep.advance_eq]
    rfl
  rw [hCursor]
  unfold runCycle
  rw [StateT.run_bind, StateT.run_get, pure_bind]
  dsimp only
  rw [hDiscovered, StateT.run_bind]
  dsimp only
  rw [hLoop]
  by_cases hShort : found.1.length < s.scheduler.batchSize
  · rw [decide_eq_true hShort, if_pos hShort]
    rfl
  · rw [decide_eq_false hShort, if_neg hShort]
    rfl

/- Earlier calls are kept, and matter to nothing. -/
theorem runCycles_calls
    (scheduler : HoldExpiryScheduler)
    (made : List Call)
    (cycles : List Cycle) :
    ((runCycles cycles).run ⟨scheduler, made⟩).2.calls =
      made ++ calls scheduler cycles := by
  unfold calls
  induction cycles generalizing scheduler made with
  | nil => exact (List.append_nil made).symm
  | cons cycle cycles ih =>
      have hStep :
          ∀ s : Working,
            ((runCycles (cycle :: cycles)).run s).2.calls =
              ((runCycles cycles).run
                ((runCycle cycle).run s).2).2.calls :=
        fun _ => rfl
      rw [hStep, hStep, runCycle_eq, runCycle_eq]
      dsimp only
      rw [ih, ih _ ([] ++ _), List.append_assoc,
        List.nil_append]

/- The calls of one cycle are followed by those of the rest. -/
theorem calls_cons
    (scheduler : HoldExpiryScheduler)
    (cycle : Cycle)
    (cycles : List Cycle) :
    calls scheduler (cycle :: cycles) =
      callsFor cycle
          (Sweep.cycle scheduler.batchSize scheduler.cursor
            (candidates scheduler.resourceIds cycle.first)
            (candidates scheduler.resourceIds
              cycle.wrapped)).1 ++
        calls
          { scheduler with
            cursor :=
              (Sweep.cycle scheduler.batchSize scheduler.cursor
                (candidates scheduler.resourceIds cycle.first)
                (candidates scheduler.resourceIds
                  cycle.wrapped)).2 } cycles := by
  have hStep :
      calls scheduler (cycle :: cycles) =
        ((runCycles cycles).run
          ((runCycle cycle).run ⟨scheduler, []⟩).2).2.calls :=
    rfl
  rw [hStep, runCycle_eq]
  dsimp only
  rw [runCycles_calls, List.nil_append]

/- The examinations of a run are the visits of the sweep. -/
theorem examined_eq_run
    (scheduler : HoldExpiryScheduler)
    (cycles : List Cycle) :
    examined scheduler cycles =
      Sweep.run scheduler.batchSize scheduler.cursor
        (cycles.map (candidateSets scheduler.resourceIds)) := by
  unfold examined
  induction cycles generalizing scheduler with
  | nil => rfl
  | cons cycle cycles ih =>
      rw [calls_cons, List.map_append, ih, List.map_cons]
      unfold candidateSets callsFor
      rw [Sweep.run_cons, List.map_map]
      congr 1
      exact List.map_id _

theorem stays_map
    {resourceIds : Option (List Uuid)}
    {resourceId : Uuid}
    {cycles : List Cycle}
    (hStays : StaysCandidate resourceIds resourceId cycles) :
    Sweep.Stays resourceId
      (cycles.map (candidateSets resourceIds)) := by
  intro p hp
  rcases List.mem_map.mp hp with ⟨cycle, hCycle, rfl⟩
  exact hStays cycle hCycle

end PigBook.Scheduler

------------------------------------------------------------
-- Coverage
------------------------------------------------------------

namespace PigBook.Scheduler

open PigBook

/-
  Over consecutive cycles in which no new candidate appears, a
  resource that stays a candidate is examined soon: a call of
  `expire_and_promote` is made for it, wherever the cursor
  stands and whatever the calls achieve.  No resource is
  examined twice before every other one that stays a
  candidate.
-/
theorem scheduler_coverage
    (scheduler : HoldExpiryScheduler)
    (known : Finset Uuid)
    (cycles : List Cycle)
    (hLimit : 1 ≤ scheduler.batchSize)
    (hNone : NoneAppears scheduler.resourceIds known cycles) :
    (∀ resourceId ∈ known,
      known.card ⌈/⌉ scheduler.batchSize + 1 ≤ cycles.length →
      StaysCandidate scheduler.resourceIds resourceId cycles →
        resourceId ∈
          examined scheduler
            (cycles.take
              (known.card ⌈/⌉ scheduler.batchSize + 1))) ∧
      ∀ resourceId other before between after,
        other ≠ resourceId →
        StaysCandidate scheduler.resourceIds other cycles →
        examined scheduler cycles =
          before ++ resourceId ::
            (between ++ resourceId :: after) →
          other ∈ between := by
  constructor
  · intro resourceId hKnown hEnough hStays
    rw [examined_eq_run]
    apply Sweep.mem_run hLimit _ _ hKnown
    · rw [List.length_map, List.length_take]
      omega
    · rw [List.map_take]
      exact hNone.take _
    · apply stays_map
      intro cycle hCycle
      exact hStays cycle (List.mem_of_mem_take hCycle)
  · intro resourceId other before between after hNe hStays hRun
    rw [examined_eq_run] at hRun
    exact
      Sweep.mem_between hLimit (stays_map hStays) hNe hRun

def waitingEntry (id : Uuid) : WaitlistEntry :=
  { id
    userId := 1
    timeRange := ⟨minutes 60, minutes 90, by decide⟩
    status := .waiting
    offeredBookingId := none
    version := 1
    createdAt := 0
    updatedAt := 0 }

/- Four rooms with a waiter each, all of them locked. -/
def lockedRooms : Cycle :=
  let snapshot : Snapshot :=
    { bookings := []
      waitlistEntries :=
        [(1, waitingEntry 11), (4, waitingEntry 14),
          (2, waitingEntry 12), (3, waitingEntry 13)]
      clockTimestamp := fun _ => 0 }
  ⟨snapshot, snapshot, fun _ => 0⟩

/- The cursor's own room is not a candidate any more. -/
def pairScheduler : HoldExpiryScheduler :=
  ⟨2, none, some 9⟩

/-
  The last room is called for within three cycles, and between
  the two calls for the first one there is one for the third.
-/
theorem lockedRooms_covered :
    (4 : Uuid) ∈
        examined pairScheduler
          (List.replicate 3 lockedRooms) ∧
      ∃ before between after,
        examined pairScheduler (List.replicate 3 lockedRooms) =
            before ++ 1 :: (between ++ 1 :: after) ∧
          3 ∈ between := by
  have hCard :
      (candidates none lockedRooms.first).card = 4 := by
    decide +kernel
  have hFour : 4 ∈ candidates none lockedRooms.first := by
    decide +kernel
  have hThree : 3 ∈ candidates none lockedRooms.first := by
    decide +kernel
  have hStays :
      ∀ resourceId ∈ candidates none lockedRooms.first,
        StaysCandidate none resourceId
          (List.replicate 3 lockedRooms) := by
    intro resourceId hMem cycle hCycle
    rw [List.eq_of_mem_replicate hCycle]
    exact ⟨hMem, hMem⟩
  have hSame := Finset.Subset.refl
    (candidates none lockedRooms.first)
  rcases
    scheduler_coverage pairScheduler
      (candidates none lockedRooms.first)
      (List.replicate 3 lockedRooms) (by decide)
      ⟨hSame, hSame, hSame, hSame, hSame, hSame, trivial⟩ with
    ⟨hSoon, hBetween⟩
  rw [hCard] at hSoon
  constructor
  · apply hSoon 4
    · exact hFour
    · decide
    · exact hStays 4 hFour
  · have hRun :
        examined pairScheduler (List.replicate 3 lockedRooms) =
          [] ++ 1 :: ([2, 3, 4] ++ 1 :: [2]) := by
      decide +kernel
    refine ⟨[], [2, 3, 4], [2], hRun, ?_⟩
    exact
      hBetween 1 3 [] [2, 3, 4] [2] (by decide)
        (hStays 3 hThree) hRun

end PigBook.Scheduler
