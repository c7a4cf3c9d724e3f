import PigBook.Inventory.Rows
import PigBook.ReadCommitted.System

/-
  The vocabulary of inventory transactions: their errors, the
  locks they take, and what they ask of their surroundings.

  Key definitions include:
    * `Error` and `Constraint`
    * `Key` and `Key.Conflict`
    * `Query`
    * `inventory`
    * `Circumstances.world`
-/

------------------------------------------------------------
-- Errors
------------------------------------------------------------

namespace PigBook

/- The constraints that a statement can violate. -/
inductive Constraint
  | resourcesCheck
  | bookingsPkey
  | bookingsCheck
  | bookingsUpdateGuard
  | bookingsNoOverlap
  | bookingsResourceIdFkey
  | bookingsUserIdFkey
  | bookingsCreatedByFkey
  | waitlistEntriesPkey
  | waitlistEntriesCheck
  | waitlistEntriesOfferedBookingIdKey
  | waitlistActiveUniqueIdx
  | waitlistEntriesUserIdFkey
  | waitlistEntriesResourceIdFkey
  | waitlistEntriesOfferedBookingIdFkey
  | outboxPkey
  | outboxAggregateKey
  | auditLogPkey
deriving DecidableEq

/-
  What ends a transaction with a rollback.  `exhausted` is
  the bound on the page loop of the promotion, which is
  never reached.
-/
inductive Error
  | notFound (message : String)
  | resourceInactive (message : String)
  | slotConflict (message : String)
  | invalidWindow (message : String)
  | versionMismatch (message : String)
  | tooLate (message : String)
  | invalidState (message : String)
  | slotAvailable (message : String)
  | alreadyWaitlisted (message : String)
  | alreadyBooked (message : String)
  | waitlistFull (message : String)
  | resourceInUse (message : String)
  | integrityError (constraint : Constraint)
  | overflowError
  | valueError (message : String)
  | runtimeError (message : String)
  | exhausted
deriving DecidableEq

end PigBook

------------------------------------------------------------
-- Locks
------------------------------------------------------------

namespace PigBook

/- The unique indexes into which statements insert. -/
inductive UniqueKey
  | bookingsPkey (id : Uuid)
  | waitlistEntriesPkey (id : Uuid)
  | offeredBookingId (id : Uuid)
  | waitlistActive (userId resourceId : Uuid) (r : TimeRange)
  | outboxPkey (id : Uuid)
  | outboxAggregate
      (id : Uuid) (version : ℕ) (eventType : EventType)
  | auditLogPkey (id : Uuid)
deriving DecidableEq

/-
  What a statement waits for: rows locked FOR UPDATE or FOR
  SHARE, unique index entries of transactions in flight, and
  the exclusion index on the windows of a resource.
-/
inductive Key
  | resourceUpdate (id : Uuid)
  | resourceShare (id : Uuid)
  | bookingUpdate (id : Uuid)
  | entryUpdate (id : Uuid)
  | unique (key : UniqueKey)
  | noOverlap (resourceId : Uuid) (r : TimeRange)
deriving DecidableEq

namespace Key

/- The two keys are not held by two transactions at once. -/
def Conflict : Key → Key → Prop
| resourceUpdate id, resourceUpdate id' => id = id'
| resourceUpdate id, resourceShare id' => id = id'
| resourceShare id, resourceUpdate id' => id = id'
| bookingUpdate id, bookingUpdate id' => id = id'
| entryUpdate id, entryUpdate id' => id = id'
| unique key, unique key' => key = key'
| noOverlap id r, noOverlap id' r' =>
    id = id' ∧ r.Overlaps r'
| _, _ => False

theorem Conflict.symm
    (k k' : Key)
    (hConflict : k.Conflict k') :
    k'.Conflict k := by
  cases k <;> cases k' <;>
    simp_all [Conflict, TimeRange.Overlaps]

end Key

end PigBook

------------------------------------------------------------
-- Queries and Surroundings
------------------------------------------------------------

namespace PigBook

open ReadCommitted

/-
  What a statement learns from outside the inventory tables:
  `clock` is `clock_timestamp()`, `transactionTime` is
  `now()`, `uuid` is `uuid4()`, `ownerEnabled` reads the
  column of `users`, and `rowLocked` tells SKIP LOCKED.
-/
inductive Query
  | plain
  | clock
  | transactionTime
  | uuid
  | ownerEnabled (userId : Uuid)
  | rowLocked (resourceId : Uuid)
deriving DecidableEq

abbrev Query.Answer : Query → Type
| plain => Unit
| clock => ℤ
| transactionTime => ℤ
| uuid => Uuid
| ownerEnabled _ => Option Bool
| rowLocked _ => Bool

/- The signature of the inventory transactions. -/
abbrev inventory : Sig where
  Key := Key
  Conflict := Key.Conflict
  symm := Key.Conflict.symm
  Query := Query
  Answer := Query.Answer
  Error := Error

/- The database clock and the identifiers drawn so far. -/
structure Surroundings where
  clock : ℤ
  drawn : List Uuid

/-
  The surroundings of a run: the users that are registered in
  it, how the database clock may move, and which identifiers
  may be drawn after others.  Nothing is assumed of whether
  users are enabled and of the locks that SKIP LOCKED sees.
-/
structure Circumstances where
  users : List Uuid
  clockMoves : ℤ → ℤ → Prop
  mayDraw : List Uuid → Uuid → Prop

namespace Circumstances

variable (X : Circumstances)

/- How the surroundings answer. -/
inductive Answers :
    Surroundings → (q : Query) → q.Answer →
      Surroundings → Prop
  | plain {env : Surroundings} :
      Answers env .plain () env
  | clock {env : Surroundings} :
      Answers env .clock env.clock env
  | transactionTime {env : Surroundings} (t : ℤ) :
      Answers env .transactionTime t env
  | uuid
      {env : Surroundings} {id : Uuid}
      (hDraw : X.mayDraw env.drawn id) :
      Answers env .uuid id
        { env with drawn := id :: env.drawn }
  | ownerEnabled
      {env : Surroundings} {userId : Uuid}
      (enabled : Option Bool) :
      Answers env (.ownerEnabled userId) enabled env
  | rowLocked
      {env : Surroundings} {resourceId : Uuid}
      (locked : Bool) :
      Answers env (.rowLocked resourceId) locked env

/- The world in which inventory transactions run. -/
def world : World inventory where
  Carrier := Surroundings
  answers := X.Answers
  advance := fun env env' =>
    X.clockMoves env.clock env'.clock ∧
      env'.drawn = env.drawn

end Circumstances

end PigBook
