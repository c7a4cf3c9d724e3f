import PigBook.Locking.Deadlock
import PigBook.Users.Operations

/-
  The locks that the transactions take, in program order.

  What a statement finds in the tables decides how many rows
  it locks and how its transaction goes on, so here it is read
  as anything.  A statement locks rows of its own accord, as
  an UPDATE, or through the foreign keys of what it inserts.
  That an error ends a transaction early is left to the system
  that runs it.

  Key definitions include:
    * `Object`, `Mode`, `Lock`
    * `promoteWaiters`, `executeCreate`
    * `Transaction` and `Transaction.program`
-/

------------------------------------------------------------
-- Locks
------------------------------------------------------------

namespace PigBook.LockOrder

/-
  What is locked: advisory keys and rows.  Bookings, entries
  and tokens are known with the rows that they belong to,
  which they never leave.
-/
inductive Object
  | advisory (key : ℤ)
  | user (id : Uuid)
  | idempotencyKey (userId key : Uuid)
  | refreshToken (userId familyId id : Uuid)
  | resource (id : Uuid)
  | booking (resourceId id : Uuid)
  | waitlistEntry (resourceId id : Uuid)
  | workerHeartbeat
deriving DecidableEq

/- The row locks of the database, the weakest first. -/
inductive Mode
  | keyShare
  | share
  | noKeyUpdate
  | update
deriving DecidableEq

namespace Mode

def Conflict : Mode → Mode → Prop
| keyShare, update => True
| share, noKeyUpdate => True
| share, update => True
| noKeyUpdate, share => True
| noKeyUpdate, noKeyUpdate => True
| noKeyUpdate, update => True
| update, _ => True
| _, _ => False

def strength : Mode → ℕ
| keyShare => 0
| share => 1
| noKeyUpdate => 2
| update => 3

theorem conflict_iff
    (m m' : Mode) :
    m.Conflict m' ↔ 3 ≤ m.strength + m'.strength := by
  cases m <;> cases m' <;> simp [Conflict, strength]

end Mode

structure Lock where
  object : Object
  mode : Mode
deriving DecidableEq

abbrev locks : Locking.Locks where
  Key := Lock
  Conflict := fun k k' =>
    k.object = k'.object ∧ k.mode.Conflict k'.mode
  symm := by
    rintro k k' ⟨hObject, hMode⟩
    refine ⟨hObject.symm, ?_⟩
    rw [Mode.conflict_iff] at *
    omega

abbrev LockM := Locking.Prog locks

end PigBook.LockOrder

------------------------------------------------------------
-- Statements
------------------------------------------------------------

namespace PigBook.LockOrder

open Locking (Prog)

/- SELECT ... FOR UPDATE, or the lock of an advisory key. -/
def forUpdate (o : Object) : LockM Unit :=
  Prog.acquire (L := locks) ⟨o, .update⟩

/- SELECT ... FOR SHARE. -/
def forShare (o : Object) : LockM Unit :=
  Prog.acquire (L := locks) ⟨o, .share⟩

/- UPDATE of a row, none of whose keys change. -/
def updateRow (o : Object) : LockM Unit :=
  Prog.acquire (L := locks) ⟨o, .noKeyUpdate⟩

/- The check of a foreign key of a row that is inserted. -/
def references (o : Object) : LockM Unit :=
  Prog.acquire (L := locks) ⟨o, .keyShare⟩

/- SELECT ... FOR UPDATE SKIP LOCKED. -/
def forUpdateSkipLocked (o : Object) : LockM Bool :=
  Prog.acquireSkipLocked (L := locks) ⟨o, .update⟩

/- INSERT INTO bookings. -/
def insertBooking
    (resourceId : Uuid)
    (userId : Option Uuid)
    (createdBy : Uuid) : LockM Unit := do
  references (.resource resourceId)
  match userId with
  | some userId => references (.user userId)
  | none => pure ()
  references (.user createdBy)

/- INSERT INTO outbox, about a booking. -/
def appendEvent (resourceId bookingId : Uuid) : LockM Unit :=
  references (.booking resourceId bookingId)

/- INSERT INTO audit_log. -/
def appendAuditLog (actorId : Uuid) : LockM Unit :=
  references (.user actorId)

end PigBook.LockOrder

------------------------------------------------------------
-- The Waitlist
------------------------------------------------------------

namespace PigBook.LockOrder

open Locking (Prog)

/- What the pass over the queue does with an entry. -/
inductive Visit
  | expired (entryId : Uuid)
  | blocked
  | offered (entryId userId bookingId : Uuid)

/-
  One entry of the queue.  An offer is made in a savepoint;
  it is undone when the window is taken or the entry moved.
-/
def visit (resourceId : Uuid) : Visit → LockM Unit
| .expired entryId =>
    updateRow (.waitlistEntry resourceId entryId)
| .blocked => pure ()
| .offered entryId userId bookingId => do
    let savepoint ← Prog.mark
    let overlaps ← Prog.select Bool
    if overlaps then
      Prog.releaseTo savepoint
    else
      insertBooking resourceId (some userId) userId
      let moved ← Prog.select Bool
      if moved then
        Prog.releaseTo savepoint
      else
        -- the column is unique, so that the row is locked
        -- as if a key of it changed
        forUpdate (.waitlistEntry resourceId entryId)
        references (.booking resourceId bookingId)
        appendEvent resourceId bookingId

def promoteWaiters (resourceId : Uuid) : LockM Unit := do
  forUpdate (.resource resourceId)
  let visits ← Prog.select (List Visit)
  Prog.each (visit resourceId) visits

/- In-transaction revalidation of the acting user. -/
def assertCurrent (userId : Uuid) : LockM Unit :=
  forShare (.user userId)

def joinWaitlist (resourceId userId : Uuid) : LockM Unit := do
  assertCurrent userId
  forUpdate (.resource resourceId)
  references (.user userId)
  references (.resource resourceId)

def acceptOffer
    (resourceId userId entryId bookingId : Uuid) :
    LockM Unit := do
  assertCurrent userId
  forUpdate (.resource resourceId)
  forUpdate (.waitlistEntry resourceId entryId)
  forUpdate (.booking resourceId bookingId)
  let expired ← Prog.select Bool
  if expired then
    updateRow (.waitlistEntry resourceId entryId)
    updateRow (.booking resourceId bookingId)
    appendEvent resourceId bookingId
    promoteWaiters resourceId
  else
    updateRow (.booking resourceId bookingId)
    updateRow (.waitlistEntry resourceId entryId)
    appendEvent resourceId bookingId

def declineEntry
    (resourceId userId entryId : Uuid) : LockM Unit := do
  assertCurrent userId
  forUpdate (.resource resourceId)
  forUpdate (.waitlistEntry resourceId entryId)
  let waiting ← Prog.select Bool
  if waiting then
    updateRow (.waitlistEntry resourceId entryId)
  else
    match ← Prog.select (Option Uuid) with
    | none => pure ()
    | some bookingId =>
        forUpdate (.booking resourceId bookingId)
        let offered ← Prog.select Bool
        if offered then
          updateRow (.booking resourceId bookingId)
    updateRow (.waitlistEntry resourceId entryId)
    promoteWaiters resourceId

end PigBook.LockOrder

------------------------------------------------------------
-- Bookings and Blackouts
------------------------------------------------------------

namespace PigBook.LockOrder

open Locking (Prog)

/-
  The attempts to acquire or replay a key, five at most.  An
  INSERT that finds the key locks nothing, and the row that it
  adds otherwise is its own.
-/
def executeCreate
    (userId key : Uuid)
    (operation : LockM Unit) : ℕ → LockM Unit
| 0 => pure ()
| n + 1 => do
    let acquired ← Prog.select Bool
    if acquired then
      forUpdate (.idempotencyKey userId key)
      references (.user userId)
      operation
      updateRow (.idempotencyKey userId key)
    else
      let found ← Prog.select Bool
      if found then
        forUpdate (.idempotencyKey userId key)
        let expired ← Prog.select Bool
        if expired then
          -- DELETE
          forUpdate (.idempotencyKey userId key)
          executeCreate userId key operation n
      else
        executeCreate userId key operation n

/- The insertion answers whether the window was free. -/
def insertConfirmed
    (resourceId : Uuid)
    (userId : Option Uuid)
    (createdBy : Uuid) : LockM Bool := do
  forShare (.resource resourceId)
  let savepoint ← Prog.mark
  let overlaps ← Prog.select Bool
  if overlaps then
    Prog.releaseTo savepoint
    return false
  else
    insertBooking resourceId userId createdBy
    return true

def createBooking
    (resourceId userId key bookingId : Uuid) :
    LockM Unit := do
  assertCurrent userId
  executeCreate userId key
    (do
      let inserted ←
        insertConfirmed resourceId (some userId) userId
      if inserted then
        appendEvent resourceId bookingId)
    5

def createBlackout
    (resourceId adminId key : Uuid) : LockM Unit := do
  assertCurrent adminId
  executeCreate adminId key
    (do
      let inserted ← insertConfirmed resourceId none adminId
      if inserted then
        appendAuditLog adminId)
    5

/- A cancellation by the owner, or by an administrator. -/
def cancelBooking
    (resourceId userId bookingId : Uuid)
    (audit : Bool) : LockM Unit := do
  assertCurrent userId
  forUpdate (.resource resourceId)
  forUpdate (.booking resourceId bookingId)
  updateRow (.booking resourceId bookingId)
  let entries ← Prog.select (List Uuid)
  Prog.each
    (fun entryId =>
      updateRow (.waitlistEntry resourceId entryId))
    entries
  appendEvent resourceId bookingId
  if audit then
    appendAuditLog userId
  promoteWaiters resourceId

def cancelBlackout
    (resourceId adminId blackoutId : Uuid) : LockM Unit := do
  assertCurrent adminId
  forUpdate (.resource resourceId)
  forUpdate (.booking resourceId blackoutId)
  updateRow (.booking resourceId blackoutId)
  appendAuditLog adminId
  promoteWaiters resourceId

/- A patch of a resource, or its archival. -/
def updateResource
    (resourceId adminId : Uuid) : LockM Unit := do
  assertCurrent adminId
  forUpdate (.resource resourceId)
  updateRow (.resource resourceId)
  appendAuditLog adminId

end PigBook.LockOrder

------------------------------------------------------------
-- The Scheduler
------------------------------------------------------------

namespace PigBook.LockOrder

open Locking (Prog)

/- An overdue booking, with the entry that is linked to it. -/
def expireHold
    (resourceId : Uuid)
    (hold : Uuid × Option Uuid) : LockM Unit := do
  match hold.2 with
  | some entryId =>
      forUpdate (.waitlistEntry resourceId entryId)
      updateRow (.waitlistEntry resourceId entryId)
  | none => pure ()
  updateRow (.booking resourceId hold.1)
  appendEvent resourceId hold.1

def expireAndPromote (resourceId : Uuid) : LockM Unit := do
  let locked ← forUpdateSkipLocked (.resource resourceId)
  if locked then
    let due ← Prog.select (List (Uuid × Option Uuid))
    Prog.each
      (fun hold => forUpdate (.booking resourceId hold.1))
      due
    Prog.each (expireHold resourceId) due
    promoteWaiters resourceId

def recordHeartbeat : LockM Unit :=
  updateRow .workerHeartbeat

end PigBook.LockOrder

------------------------------------------------------------
-- Accounts
------------------------------------------------------------

namespace PigBook.LockOrder

open Locking (Prog)

variable (X : Primitives)

def updateToken
    (userId : Uuid)
    (token : Uuid × Uuid) : LockM Unit :=
  updateRow (.refreshToken userId token.1 token.2)

/- The guarded patch: the actor and the target by UUID. -/
def updateUser (actorId targetId : Uuid) : LockM Unit := do
  forUpdate (.advisory 714001)
  if actorId = targetId then
    forUpdate (.user targetId)
  else if actorId < targetId then
    forShare (.user actorId)
    forUpdate (.user targetId)
  else
    forUpdate (.user targetId)
    forShare (.user actorId)
  forUpdate (.user targetId)
  updateRow (.user targetId)
  -- the tokens of a user who is disabled
  let tokens ← Prog.select (List (Uuid × Uuid))
  Prog.each (updateToken targetId) tokens
  appendAuditLog actorId

def revokeFamily
    (userId familyId tokenId : Uuid) : LockM Unit := do
  forShare (.user userId)
  forUpdate (.advisory (X.deriveFamilyAdvisoryKey familyId))
  forUpdate (.refreshToken userId familyId tokenId)
  let tokens ← Prog.select (List Uuid)
  Prog.each
    (fun id => updateToken userId (familyId, id)) tokens

/- A rotation, or the revocation that a reuse leads to. -/
def rotateRefresh
    (userId familyId tokenId : Uuid) : LockM Unit := do
  forShare (.user userId)
  forUpdate (.advisory (X.deriveFamilyAdvisoryKey familyId))
  forUpdate (.refreshToken userId familyId tokenId)
  let reused ← Prog.select Bool
  if reused then
    -- the independent session begins without a lock
    Prog.releaseTo 0
    revokeFamily X userId familyId tokenId
    appendAuditLog userId
  else
    updateRow (.refreshToken userId familyId tokenId)
    references (.user userId)
    references (.refreshToken userId familyId tokenId)

end PigBook.LockOrder

------------------------------------------------------------
-- Transactions
------------------------------------------------------------

namespace PigBook.LockOrder

/- The transactions of the requests and of the scheduler. -/
inductive Transaction
  | createBooking (resourceId userId key bookingId : Uuid)
  | createBlackout (resourceId adminId key : Uuid)
  | cancelBooking
      (resourceId userId bookingId : Uuid) (audit : Bool)
  | cancelBlackout (resourceId adminId blackoutId : Uuid)
  | joinWaitlist (resourceId userId : Uuid)
  | acceptOffer
      (resourceId userId entryId bookingId : Uuid)
  | declineEntry (resourceId userId entryId : Uuid)
  | updateResource (resourceId adminId : Uuid)
  | updateUser (actorId targetId : Uuid)
  | rotateRefresh (userId familyId tokenId : Uuid)
  | revokeFamily (userId familyId tokenId : Uuid)
  | expireAndPromote (resourceId : Uuid)
  | recordHeartbeat

def Transaction.program
    (X : Primitives) : Transaction → LockM Unit
| createBooking resourceId userId key bookingId =>
    LockOrder.createBooking resourceId userId key bookingId
| createBlackout resourceId adminId key =>
    LockOrder.createBlackout resourceId adminId key
| cancelBooking resourceId userId bookingId audit =>
    LockOrder.cancelBooking resourceId userId bookingId audit
| cancelBlackout resourceId adminId blackoutId =>
    LockOrder.cancelBlackout resourceId adminId blackoutId
| joinWaitlist resourceId userId =>
    LockOrder.joinWaitlist resourceId userId
| acceptOffer resourceId userId entryId bookingId =>
    LockOrder.acceptOffer resourceId userId entryId bookingId
| declineEntry resourceId userId entryId =>
    LockOrder.declineEntry resourceId userId entryId
| updateResource resourceId adminId =>
    LockOrder.updateResource resourceId adminId
| updateUser actorId targetId =>
    LockOrder.updateUser actorId targetId
| rotateRefresh userId familyId tokenId =>
    LockOrder.rotateRefresh X userId familyId tokenId
| revokeFamily userId familyId tokenId =>
    LockOrder.revokeFamily X userId familyId tokenId
| expireAndPromote resourceId =>
    LockOrder.expireAndPromote resourceId
| recordHeartbeat => LockOrder.recordHeartbeat

/- The family of tokens that the transaction locks. -/
def Transaction.familyId : Transaction → Option Uuid
| rotateRefresh _ familyId _ => some familyId
| revokeFamily _ familyId _ => some familyId
| _ => none

/- The transactions on some families of tokens. -/
def transactions
    (X : Primitives)
    (families : Set Uuid)
    (p : LockM Unit) : Prop :=
  ∃ t : Transaction,
    (∀ familyId ∈ t.familyId, familyId ∈ families) ∧
      p = t.program X

end PigBook.LockOrder
