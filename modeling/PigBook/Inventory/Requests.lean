import PigBook.Inventory.Outcomes
import PigBook.Inventory.Singles
import PigBook.ReadCommitted.Schedule

/-
  The inventory as a system: requests and scheduler cycles of
  any number of processes, interleaved statement by statement
  over the cells of all resources.

  Key definitions include:
    * `Request.access`, `cellLocks`
    * `InventoryRun`
    * `forwardClock`, `scenario`, `scenarioWith`

  Key theorems include:
    * `Request.disciplined`
    * `InventoryRun.commit_induction`
-/

------------------------------------------------------------
-- Requests
------------------------------------------------------------

namespace PigBook

open ReadCommitted

namespace Request

/- How a request locks the row of its resource. -/
def access : Request → Access
| createBooking .. => .shared
| createBlackout .. => .shared
| _ => .exclusive

variable {s : Cell}

/- Whatever the request, its commit has its effect. -/
theorem effect
    (hCell : s.Consistent)
    (rid : Uuid)
    (request : Request) :
    (request.program rid).wp
      (fun log s' _ => Effect rid log s request s')
      anyError [] s := by
  cases request with
  | createBooking scope startsAt endsAt =>
      exact
        Prog.wp_mono _ (fun _ _ _ h => h.1) (fun _ _ h => h)
          (createBooking_effect rid scope startsAt endsAt)
  | createBlackout scope startsAt endsAt =>
      exact
        Prog.wp_mono _ (fun _ _ _ h => h.1) (fun _ _ h => h)
          (createBlackout_effect rid scope startsAt endsAt)
  | cancelBooking scope bookingId expectedVersion reason =>
      exact
        cancelBooking_effect hCell rid scope bookingId
          expectedVersion reason
  | cancelBlackout scope blackoutId expectedVersion =>
      exact
        cancelBlackout_effect hCell rid scope blackoutId
          expectedVersion
  | joinWaitlist scope startsAt endsAt =>
      exact joinWaitlist_effect rid scope startsAt endsAt
  | acceptOffer scope entryId expectedVersion =>
      exact
        acceptOffer_effect hCell rid scope entryId
          expectedVersion
  | declineEntry scope entryId expectedVersion =>
      exact
        declineEntry_effect hCell rid scope entryId
          expectedVersion
  | expireAndPromote =>
      exact expireAndPromote_effect hCell rid
  | updateResource scope expectedVersion patch =>
      exact
        updateResource_effect rid scope expectedVersion patch
  | archiveResource scope expectedVersion =>
      exact archiveResource_effect rid scope expectedVersion

/- An effect is an outcome. -/
theorem outcome
    (hCell : s.Consistent)
    (rid : Uuid)
    (request : Request) :
    (request.program rid).wp
      (fun log s' _ => Outcome rid log s s')
      anyError [] s :=
  Prog.wp_mono _ (fun _ _ _ h => h.outcome) (fun _ _ h => h)
    (request.effect hCell rid)

/- A creating request grows the cell that it shares. -/
theorem grows
    (rid : Uuid)
    {request : Request}
    (hShared : request.access = .shared) :
    (request.program rid).wp
      (fun log s' _ => Cell.Grows rid (held log) s s')
      anyError [] s := by
  cases request with
  | createBooking scope startsAt endsAt =>
      exact
        Prog.wp_mono _ (fun _ _ _ h => h.2) (fun _ _ h => h)
          (createBooking_effect rid scope startsAt endsAt)
  | createBlackout scope startsAt endsAt =>
      exact
        Prog.wp_mono _ (fun _ _ _ h => h.2) (fun _ _ h => h)
          (createBlackout_effect rid scope startsAt endsAt)
  | _ => cases hShared

theorem steady
    {rid : Uuid}
    {request : Request}
    (hShared : request.access = .shared)
    {ks : List Key}
    {s' : Cell}
    (hGrows : Cell.Grows rid ks s s') :
    (request.program rid).Steady ks s s' := by
  cases request with
  | createBooking scope startsAt endsAt =>
      exact createBooking_steady hGrows scope startsAt endsAt
  | createBlackout scope startsAt endsAt =>
      exact createBlackout_steady hGrows scope startsAt endsAt
  | _ => cases hShared

end Request

end PigBook

------------------------------------------------------------
-- The Locks of the Cells
------------------------------------------------------------

namespace PigBook

open ReadCommitted

/-
  The resource row is the lock of its cell.  A cell without a
  resource row is inert: there is nothing to lock, and the
  foreign keys keep its tables empty.
-/
def cellLocks : Discipline inventory Uuid Cell where
  key
    | .exclusive, rid => .resourceUpdate rid
    | .shared, rid => .resourceShare rid
  conflict := by
    intro m rid
    cases m
    · exact (rfl : rid = rid)
    · exact (rfl : rid = rid)
  valid := Cell.Consistent
  inert := fun s => s = Cell.opening s.users none
  grows := Cell.Grows

/- A release finds nothing in a cell without a resource. -/
theorem Release.of_inert
    {rid : Uuid}
    {log : List (Action inventory)}
    {users : List Uuid}
    {s' : Cell}
    (hRelease :
      Release rid log (Cell.opening users none) s') :
    s' = Cell.opening users none := by
  cases hRelease with
  | expire hExpiries =>
      induction hExpiries with
      | refl => rfl
      | tail _ hExpiry ih =>
          subst ih
          cases hExpiry with
          | intro hHold hSampled hLate => cases hHold.row
  | decline hHold => cases hHold.row
  | cancelHold hHold hCheck => cases hHold.row
  | cancelConfirmed hRow => cases hRow
  | cancelBlackout hRow => cases hRow

theorem Outcome.of_inert
    {rid : Uuid}
    {log : List (Action inventory)}
    {users : List Uuid}
    {s' : Cell}
    (hOutcome :
      Outcome rid log (Cell.opening users none) s') :
    s' = Cell.opening users none := by
  cases hOutcome with
  | quiet => rfl
  | gain hGain =>
      cases hGain with
      | reserve hResource | blackout hResource
      | enqueue hResource | patch hResource =>
          cases hResource
      | withdraw hRow => cases hRow
      | accept hHold => cases hHold.row
  | release hPromoted =>
      cases hPromoted with
      | intro hDone hLength hVisits hAsked =>
          rw [hDone.of_inert]
          rfl

/- A statement that locks the resource, or finds none. -/
theorem resourceKeys_or_inert
    {key : Key}
    {s : Cell}
    (hCell : s.Consistent) :
    key ∈ s.resourceKeys key ∨
      s = Cell.opening s.users none := by
  cases hCase : s.resource with
  | none => exact Or.inr (hCell.foreign hCase)
  | some r =>
      refine Or.inl ?_
      simp [Cell.resourceKeys, hCase]

section Guarded

variable {key : Key} {β : Type}

theorem guarded_clock
    {f : ℤ → Tx β}
    (hRest :
      ∀ t, (f t).Guarded key cellLocks.valid
        cellLocks.inert) :
    (clockTimestamp.bind f).Guarded key cellLocks.valid
      cellLocks.inert :=
  fun t => Or.inr ⟨fun _ => rfl, fun _ => rfl,
    fun _ _ => rfl, fun _ => hRest t⟩

theorem guarded_lock
    {γ : Type}
    {rows : Cell → γ}
    {f : γ → Tx β} :
    ((Prog.select (S := inventory) .plain
      (Cell.resourceKeys key) rows).bind f).Guarded key
        cellLocks.valid cellLocks.inert :=
  fun _ => Or.inl (fun _ hCell =>
    resourceKeys_or_inert hCell)

end Guarded

/- Before its lock a request only samples the clock. -/
theorem Request.guarded
    (rid : Uuid)
    (request : Request) :
    (request.program rid).Guarded
      (cellLocks.key request.access rid) cellLocks.valid
      cellLocks.inert := by
  cases request with
  | createBooking scope startsAt endsAt =>
      refine guarded_clock (fun dbNow => ?_)
      split
      · trivial
      · unfold insertConfirmed
        simp only [Prog.bind_eq, Prog.bind_assoc]
        exact guarded_lock
  | createBlackout scope startsAt endsAt =>
      refine guarded_clock (fun dbNow => ?_)
      unfold insertBlackout
      simp only [Prog.bind_eq, Prog.bind_assoc]
      exact guarded_lock
  | joinWaitlist scope startsAt endsAt =>
      refine guarded_clock (fun dbNow => ?_)
      split
      · trivial
      · exact guarded_lock
  | expireAndPromote =>
      intro locked
      cases locked with
      | true =>
          refine Or.inr ⟨fun _ => rfl, fun _ => rfl,
            fun _ _ => rfl, fun _ => trivial⟩
      | false =>
          exact
            Or.inl (fun _ hCell =>
              resourceKeys_or_inert hCell)
  | cancelBooking | cancelBlackout | acceptOffer
  | declineEntry | updateResource | archiveResource =>
      exact guarded_lock

/- Every request follows the discipline of the locks. -/
theorem Request.disciplined
    (rid : Uuid)
    (request : Request) :
    Disciplined cellLocks rid request.access
      (request.program rid) where
  guarded := request.guarded rid
  valid := fun hCell =>
    Prog.wp_mono _
      (fun _ _ _ hOutcome => hOutcome.consistent hCell)
      (fun _ _ h => h) (request.outcome hCell rid)
  inert := by
    intro s hInert
    have hCell : s.Consistent := by
      rw [show s = Cell.opening s.users none from hInert]
      exact Cell.consistent_opening s.users none
    refine
      Prog.wp_mono _ ?_ (fun _ _ h => h)
        (request.outcome hCell rid)
    intro log s' reply hOutcome
    rw [show s = Cell.opening s.users none from hInert]
      at hOutcome
    exact hOutcome.of_inert.trans hInert.symm
  grows := fun hShared _ _ => Request.grows rid hShared
  steady := fun hShared _ _ _ _ hGrows =>
    Request.steady hShared hGrows

end PigBook

------------------------------------------------------------
-- The System
------------------------------------------------------------

namespace PigBook

open ReadCommitted

/- Processes run any requests on any resources. -/
def requestPrograms
    (rid : Uuid)
    (p : Tx Reply) : Prop :=
  ∃ request : Request, p = request.program rid

/-
  The states of the system: processes begin with a store in
  which nobody has booked yet, whatever its resources and its
  users are.
-/
def InventoryRun
    (X : Circumstances)
    (resources : Uuid → Option Resource)
    (env : Surroundings)
    (s : Sys X.world (Uuid → Cell) Reply) : Prop :=
  Reachable (cellPrograms requestPrograms)
    (Sys.initial
      (fun rid => Cell.opening X.users (resources rid))
      env) s

theorem requestPrograms_disciplined :
    ∀ rid p, requestPrograms rid p →
      ∃ m, Disciplined cellLocks rid m p := by
  rintro rid p ⟨request, rfl⟩
  exact ⟨request.access, request.disciplined rid⟩

theorem opening_valid
    (users : List Uuid)
    (resources : Uuid → Option Resource) :
    ∀ rid,
      cellLocks.valid
        (Cell.opening users (resources rid)) :=
  fun rid => Cell.consistent_opening users (resources rid)

/- A client with a request runs it against its own cell. -/
theorem InventoryRun.running
    {X : Circumstances}
    {resources : Uuid → Option Resource}
    {env : Surroundings}
    {s : Sys X.world (Uuid → Cell) Reply}
    (hRun : InventoryRun X resources env s)
    {pid : ℕ}
    {pr : Proc inventory (Uuid → Cell) Reply}
    (hProc : s.procs pid = some pr)
    {rid : Uuid}
    {request : Request}
    (hStart : pr.start = (request.program rid).atCell rid) :
    ∃ p' w,
      pr.Running rid (request.program rid) p' w s.db := by
  rcases
    Reachable.running requestPrograms_disciplined
      (opening_valid X.users resources) hRun hProc with
    ⟨i, p, p', w, -, hRunning⟩
  exact hRunning.of_start hStart

/- The commit is that of a request on the resource. -/
structure CommitOf
    (c : Commit inventory (Uuid → Cell) Reply)
    (rid : Uuid)
    (request : Request) : Prop where
  other : ∀ i, i ≠ rid → c.after i = c.before i
  runs :
    ∃ w reply,
      Prog.Serial (request.program rid) (c.before rid) c.log
        w (.done reply) ∧
      c.after rid = w (c.before rid) ∧
      c.answer = some reply

/- The effect of a committed request. -/
theorem CommitOf.effect
    {c : Commit inventory (Uuid → Cell) Reply}
    {rid : Uuid}
    {request : Request}
    (hCommit : CommitOf c rid request)
    (hCell : (c.before rid).Consistent) :
    Effect rid c.log (c.before rid) request (c.after rid) := by
  rcases hCommit.runs with ⟨w, reply, run, hAfter, -⟩
  rw [hAfter]
  exact run.post_of_done (request.effect hCell rid)

theorem CommitOf.outcome
    {c : Commit inventory (Uuid → Cell) Reply}
    {rid : Uuid}
    {request : Request}
    (hCommit : CommitOf c rid request)
    (hCell : (c.before rid).Consistent) :
    Outcome rid c.log (c.before rid) (c.after rid) :=
  (hCommit.effect hCell).outcome

/-
  The rule for the committed states of the system.  What
  holds at the start and is preserved by the commit of each
  request holds of the committed store and its history.
-/
theorem InventoryRun.commit_induction
    {X : Circumstances}
    {resources : Uuid → Option Resource}
    {env : Surroundings}
    {s : Sys X.world (Uuid → Cell) Reply}
    (hRun : InventoryRun X resources env s)
    (Inv :
      (Uuid → Cell) →
        List (Commit inventory (Uuid → Cell) Reply) → Prop)
    (hInit :
      Inv (fun rid => Cell.opening X.users (resources rid))
        [])
    (hCommit :
      ∀ c hist rid request, CommitOf c rid request →
        (∀ i, (c.before i).Consistent) →
        Inv c.before hist → Inv c.after (c :: hist)) :
    (∀ rid, (s.db rid).Consistent) ∧
      Inv s.db (commits s.trace) := by
  refine
    ⟨(Reachable.phased requestPrograms_disciplined
      (opening_valid X.users resources) hRun).1, ?_⟩
  refine
    Reachable.commit_induction requestPrograms_disciplined
      (opening_valid X.users resources) hInit ?_ hRun
  rintro t hist rid p log w reply ⟨request, rfl⟩ hValid hInv
    run
  refine
    hCommit ⟨log, t, onCell rid w t, some reply⟩ hist rid
      request ⟨?_, ?_⟩ hValid hInv
  · intro i hNe
    exact onCell_of_ne hNe w t
  · exact ⟨w, reply, run, onCell_self rid w t, rfl⟩

end PigBook

------------------------------------------------------------
-- A Scenario
------------------------------------------------------------

namespace PigBook

open ReadCommitted

instance : DecidableRel Key.Conflict := by
  intro k k'
  cases k <;> cases k' <;> unfold Key.Conflict <;>
    infer_instance

instance : DecidableRel inventory.Conflict :=
  inferInstanceAs (DecidableRel Key.Conflict)

/- The clock does not run backwards. -/
def forwardClock : Circumstances where
  users := [100, 101, 102, 103]
  clockMoves := fun t t' => t ≤ t'
  mayDraw := fun _ _ => True

/- An hour passes at a time. -/
def forwardClock.hourLater
    (env : forwardClock.world.Carrier) :
    forwardClock.world.Carrier :=
  { env with clock := env.clock + hours 1 }

theorem forwardClock.advance_hourLater
    (env : forwardClock.world.Carrier) :
    forwardClock.world.advance env (hourLater env) := by
  refine ⟨?_, rfl⟩
  change env.clock ≤ env.clock + hours 1
  unfold hours minutes seconds
  omega

/-
  Owners are enabled, no resource is skipped and identifiers
  are drawn in turn.
-/
def forwardClock.respond
    (env : forwardClock.world.Carrier)
    (q : Query) :
    q.Answer × forwardClock.world.Carrier :=
  match q with
  | .plain => ((), env)
  | .clock => (env.clock, env)
  | .transactionTime => (env.clock, env)
  | .uuid =>
      (Fin.ofNat (2 ^ 128) (env.drawn.length + 1),
        { env with
          drawn :=
            Fin.ofNat (2 ^ 128) (env.drawn.length + 1) ::
              env.drawn })
  | .ownerEnabled _ => (some true, env)
  | .rowLocked _ => (false, env)

theorem forwardClock.answers_respond
    (env : forwardClock.world.Carrier)
    (q : Query) :
    forwardClock.world.answers env q (respond env q).1
      (respond env q).2 := by
  cases q with
  | plain => exact .plain
  | clock => exact .clock
  | transactionTime => exact .transactionTime _
  | uuid => exact .uuid trivial
  | ownerEnabled userId => exact .ownerEnabled _
  | rowLocked resourceId => exact .rowLocked _

def simulator : Simulator forwardClock.world where
  respond := forwardClock.respond
  answers := forwardClock.answers_respond
  pass := forwardClock.hourLater
  advance := forwardClock.advance_hourLater

end PigBook

namespace PigBook

open ReadCommitted

/- The resource of the scenario. -/
def meetingRoom : Resource where
  name := "Meeting room"
  description := ""
  location := "Ground floor"
  active := true
  version := 1
  createdAt := 0
  updatedAt := 0

/-
  One user books a window, another waits for it, the booking
  is cancelled, and the offer is accepted.
-/
def scenarioRequests : List Request :=
  [.createBooking (.owner 101) (.utc (hours 2))
      (.utc (hours 3)),
    .joinWaitlist (.owner 102) (.utc (hours 2))
      (.utc (hours 3)),
    .cancelBooking (.owner 101) 1 1 "",
    .acceptOffer (.owner 102) 3 2]

/- The first `n` requests, run one after the other. -/
def scenario
    (n : ℕ) : Sys forwardClock.world (Uuid → Cell) Reply :=
  (Sys.initial (W := forwardClock.world)
    (fun _ =>
      Cell.opening forwardClock.users (some meetingRoom))
    ⟨0, []⟩).exec simulator [0]
    ((scenarioRequests.take n).flatMap (fun request =>
      .spawn 0 ((request.program 7).atCell 7) ::
        List.replicate 40 (.step 0)))

theorem scenario_run
    (n : ℕ) :
    InventoryRun forwardClock (fun _ => some meetingRoom)
      ⟨0, []⟩ (scenario n) := by
  unfold InventoryRun scenario
  refine Sys.exec_reachable (fun _ _ => rfl) ?_
  intro m hm
  rcases List.mem_flatMap.mp hm with ⟨request, -, hMove⟩
  exact
    Move.allowed_of_begun ⟨7, _, ⟨request, rfl⟩, rfl⟩ hMove

/- The scenario, and the first steps of one more request. -/
def scenarioWith
    (k : ℕ)
    (request : Request)
    (n : ℕ) : Sys forwardClock.world (Uuid → Cell) Reply :=
  (scenario k).exec simulator [0]
    (.spawn 0 ((request.program 7).atCell 7) ::
      List.replicate n (.step 0))

theorem scenarioWith_run
    (k : ℕ)
    (request : Request)
    (n : ℕ) :
    InventoryRun forwardClock (fun _ => some meetingRoom)
      ⟨0, []⟩ (scenarioWith k request n) := by
  unfold InventoryRun scenarioWith scenario Sys.exec
  rw [← List.foldl_append]
  refine Sys.exec_reachable (fun _ _ => rfl) ?_
  intro m hm
  rcases List.mem_append.mp hm with hBefore | hLast
  · rcases List.mem_flatMap.mp hBefore with
      ⟨request', -, hMove⟩
    exact
      Move.allowed_of_begun ⟨7, _, ⟨request', rfl⟩, rfl⟩
        hMove
  · exact
      Move.allowed_of_begun ⟨7, _, ⟨request, rfl⟩, rfl⟩ hLast

/- The client that is there at the end runs that request. -/
theorem scenarioWith_start
    (k : ℕ)
    (request : Request)
    (n : ℕ)
    {pr : Proc inventory (Uuid → Cell) Reply}
    (hIdle : ((scenario k).procs 0).isNone)
    (hProc : (scenarioWith k request n).procs 0 = some pr) :
    pr.start = (request.program 7).atCell 7 :=
  (Sys.amid_spawned n hIdle List.mem_cons_self
    (single_atCell 7 (Request.single 7 request)) pr hProc).1

/- What the client is about to fail with, or to answer. -/
def lastWord
    (s : Sys forwardClock.world (Uuid → Cell) Reply) :
    Option (Error ⊕ Reply) :=
  match s.procs 0 with
  | some pr =>
      match pr.prog with
      | .fail err => some (.inl err)
      | .done reply => some (.inr reply)
      | _ => none
  | none => none

theorem failing_of_lastWord
    {s : Sys forwardClock.world (Uuid → Cell) Reply}
    (hWord : (lastWord s).any Sum.isLeft = true) :
    ∃ pr err, s.procs 0 = some pr ∧ pr.prog = .fail err ∧
      lastWord s = some (.inl err) := by
  unfold lastWord at hWord ⊢
  split at hWord
  · rename_i pr hProc
    split at hWord
    · rename_i err hProg
      exact ⟨pr, err, hProc, hProg, rfl⟩
    · cases hWord
    · cases hWord
  · cases hWord

theorem answering_of_lastWord
    {s : Sys forwardClock.world (Uuid → Cell) Reply}
    (hWord : (lastWord s).any Sum.isRight = true) :
    ∃ pr reply,
      s.procs 0 = some pr ∧ pr.prog = .done reply ∧
        lastWord s = some (.inr reply) := by
  unfold lastWord at hWord ⊢
  split at hWord
  · rename_i pr hProc
    split at hWord
    · cases hWord
    · rename_i reply hProg
      exact ⟨pr, reply, hProc, hProg, rfl⟩
    · cases hWord
  · cases hWord

end PigBook
