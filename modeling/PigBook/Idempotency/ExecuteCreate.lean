import PigBook.Inventory.Operations
import PigBook.ReadCommitted.Embedding

/-
  Creating something once under an idempotency key.

  The operation is any transaction over the other tables.

  Key definitions include:
    * `IdempotencyKey`, `Desk`
    * `desk`
    * `executeCreate`, `purgeExpiredBatch`
    * `DeskRequest`, `deskPrograms`
-/

------------------------------------------------------------
-- Keys
------------------------------------------------------------

namespace PigBook.Idempotency

open ReadCommitted

/-
  A row of `idempotency_keys`; its three response columns are
  null together.
-/
structure IdempotencyKey where
  userId : Uuid
  key : Uuid
  requestHash : String
  response : Option StoredResponse
  createdAt : ℤ
  expiresAt : ℤ
deriving DecidableEq

/- The primary key. -/
def IdempotencyKey.slot (r : IdempotencyKey) : Uuid × Uuid :=
  (r.userId, r.key)

/- The table of keys beside the other tables. -/
abbrev Desk (σ : Type) := List IdempotencyKey × σ

/-
  What a statement waits for: a row locked FOR UPDATE, and a
  unique index entry that is inserted or deleted in flight.
-/
inductive DeskKey
  | row (slot : Uuid × Uuid)
  | entry (slot : Uuid × Uuid)
deriving DecidableEq

/- A purge also chooses rows, since it has no order. -/
inductive DeskQuery
  | plain
  | clock
  | expired
deriving DecidableEq

abbrev DeskQuery.Answer : DeskQuery → Type
| plain => Unit
| clock => ℤ
| expired => ℤ × List (Uuid × Uuid)

inductive DeskError
  | keyMismatch
  | incompleteRecord
  | responseCheck
deriving DecidableEq

abbrev keyTable : Sig where
  Key := DeskKey
  Conflict := fun k k' => k = k'
  symm := fun _ _ hEq => hEq.symm
  Query := DeskQuery
  Answer := DeskQuery.Answer
  Error := DeskError

abbrev KeyM := Prog keyTable (List IdempotencyKey)

/- `interval '24 hours'`. -/
def keyLifetime : ℤ := hours 24

/- The row that a key is inserted as. -/
def reservedKey
    (userId key : Uuid)
    (reqHash : String)
    (sampledAt : ℤ) : IdempotencyKey where
  userId := userId
  key := key
  requestHash := reqHash
  response := none
  createdAt := sampledAt
  expiresAt := sampledAt + keyLifetime

/- Some row is found under the primary key. -/
def taken
    (userId key : Uuid)
    (keys : List IdempotencyKey) : Bool :=
  keys.any (fun r => r.slot = (userId, key))

/-
  INSERT ... ON CONFLICT DO NOTHING RETURNING key.  The clock
  is read before the statement waits for anything.
-/
def insertKey
    (userId key : Uuid)
    (reqHash : String) : KeyM Bool := do
  let sampledAt : ℤ ← Prog.ask (S := keyTable) .clock
  .stmt .plain
    (fun keys _ =>
      if taken userId key keys then []
      else [.entry (userId, key)])
    (fun keys _ =>
      if taken userId key keys then id
      else
        fun t =>
          t ++ [reservedKey userId key reqHash sampledAt])
    (fun keys _ => .done (!taken userId key keys))

/-
  SELECT ... FOR UPDATE, with `is_expired`; it may be computed
  before the statement waits for the row.
-/
def selectKeyForUpdate
    (userId key : Uuid) :
    KeyM (Option (IdempotencyKey × Bool)) := do
  let now : ℤ ← Prog.ask (S := keyTable) .clock
  Prog.select .plain
    (fun keys =>
      (keys.filter (fun r => r.slot = (userId, key))).map
        (fun r => DeskKey.row r.slot))
    (fun keys =>
      (keys.find? (fun r => r.slot = (userId, key))).map
        (fun r => (r, decide (r.expiresAt ≤ now))))

/- DELETE of the row. -/
def deleteKey (userId key : Uuid) : KeyM Unit :=
  .stmt .plain
    (fun keys _ =>
      (keys.filter (fun r => r.slot = (userId, key))).flatMap
        (fun r => [DeskKey.row r.slot, DeskKey.entry r.slot]))
    (fun _ _ t => t.filter (fun r => r.slot ≠ (userId, key)))
    (fun _ _ => .done ())

/- The headers that are stored. -/
def persistedHeaders
    (headers : List (String × String)) :
    List (String × String) :=
  headers.filter (fun h =>
    h.1.toLower = "location" ∨ h.1.toLower = "etag")

/- An item of a dictionary of headers is set. -/
def setHeader
    (name value : String)
    (headers : List (String × String)) :
    List (String × String) :=
  if headers.any (fun h => h.1 = name) then
    headers.map (fun h => if h.1 = name then (name, value) else h)
  else
    headers ++ [(name, value)]

def markReplayed
    (replayed : Bool)
    (response : StoredResponse) : StoredResponse :=
  { response with
    headers :=
      setHeader "Idempotency-Replayed"
        (if replayed then "true" else "false")
        response.headers }

/- The response as it is stored. -/
def persisted (stored : StoredResponse) : StoredResponse :=
  { stored with headers := persistedHeaders stored.headers }

/- UPDATE of the response; the table checks its status. -/
def storeResponse
    (userId key : Uuid)
    (stored : StoredResponse) : KeyM Unit :=
  .stmt .plain
    (fun keys _ =>
      (keys.filter (fun r => r.slot = (userId, key))).map
        (fun r => DeskKey.row r.slot))
    (fun _ _ =>
      updateWhere (fun r => r.slot = (userId, key))
        (fun r => { r with response := some (persisted stored) }))
    (fun _ _ =>
      if 200 ≤ stored.status ∧ stored.status ≤ 499 then
        .done ()
      else
        .fail .responseCheck)

/- The row is expired, and among those that are chosen. -/
def IdempotencyKey.swept
    (now : ℤ)
    (chosen : List (Uuid × Uuid))
    (r : IdempotencyKey) : Bool :=
  r.expiresAt ≤ now ∧ r.slot ∈ chosen

/-
  A batch of the hourly purge, of 500 rows at most.  The rows
  are chosen before the statement waits for them.
-/
def purgeExpiredBatch (batchSize : ℕ) : KeyM ℕ := do
  let sample : ℤ × List (Uuid × Uuid) ←
    Prog.ask (S := keyTable) .expired
  .stmt .plain
    (fun keys _ =>
      (keys.filter (fun r =>
        r.swept sample.1 (sample.2.take batchSize))).flatMap
          (fun r => [DeskKey.row r.slot, DeskKey.entry r.slot]))
    (fun keys _ t =>
      t.filter (fun r =>
        r.slot ∉
          (keys.filter (fun r =>
            r.swept sample.1
              (sample.2.take batchSize))).map (·.slot)))
    (fun keys _ =>
      .done
        (keys.countP (fun r =>
          r.swept sample.1 (sample.2.take batchSize))))

end PigBook.Idempotency

------------------------------------------------------------
-- Creating Once
------------------------------------------------------------

namespace PigBook.Idempotency

open ReadCommitted

variable {S : Sig} {σ : Type}

/- The table of keys beside the tables of `S`. -/
abbrev desk (S : Sig) : Sig := keyTable.sum S

abbrev DeskM (S : Sig) (σ : Type) := Prog (desk S) (Desk σ)

/- A statement about the table of keys. -/
def onKeys {α : Type} (p : KeyM α) : DeskM S σ α :=
  p.embed (Embedding.inl keyTable S (List IdempotencyKey) σ)

/- A program over the other tables. -/
def onRest {α : Type} (p : Prog S σ α) : DeskM S σ α :=
  p.embed (Embedding.inr keyTable S (List IdempotencyKey) σ)

/- What `execute_create` does once it has acquired the key. -/
def executeFresh
    (userId key : Uuid)
    (operation : Prog S σ StoredResponse) :
    DeskM S σ StoredResponse := do
  let stored ← onRest operation
  onKeys (storeResponse userId key stored)
  return markReplayed false stored

/- The loop of `execute_create`, with the turns that are left. -/
def attemptCreate
    (userId key : Uuid)
    (reqHash : String)
    (operation : Prog S σ StoredResponse) :
    ℕ → DeskM S σ StoredResponse
| 0 => Prog.fail (Sum.inl DeskError.incompleteRecord)
| turns + 1 => do
    let acquired ← onKeys (insertKey userId key reqHash)
    if acquired then
      executeFresh userId key operation
    else
      match ← onKeys (selectKeyForUpdate userId key) with
      | none =>
          attemptCreate userId key reqHash operation turns
      | some (existingKey, isExpired) =>
          if isExpired then
            onKeys (deleteKey userId key)
            attemptCreate userId key reqHash operation turns
          else if existingKey.requestHash ≠ reqHash then
            Prog.fail (Sum.inl DeskError.keyMismatch)
          else
            match existingKey.response with
            | none =>
                Prog.fail (Sum.inl DeskError.incompleteRecord)
            | some stored => return markReplayed true stored

def executeCreate
    (userId key : Uuid)
    (reqHash : String)
    (operation : Prog S σ StoredResponse) :
    DeskM S σ StoredResponse :=
  attemptCreate userId key reqHash operation 5

/- Creations, purges, and whatever else uses other tables. -/
inductive DeskRequest (S : Sig) (σ : Type)
  | create
      (userId key : Uuid)
      (reqHash : String)
      (operation : Prog S σ StoredResponse)
  | purge (batchSize : ℕ)
  | other (p : Prog S σ Unit)

/- The answer to a creation is recorded with its request. -/
inductive DeskReply
  | created
      (userId key : Uuid)
      (reqHash : String)
      (response : StoredResponse)
  | purged (count : ℕ)
  | other
deriving DecidableEq

def DeskRequest.program :
    DeskRequest S σ → DeskM S σ DeskReply
| create userId key reqHash operation => do
    let response ← executeCreate userId key reqHash operation
    return .created userId key reqHash response
| purge batchSize => do
    let count ← onKeys (purgeExpiredBatch batchSize)
    return .purged count
| other p => do
    onRest p
    return .other

/- An operation does not end the transaction of its key. -/
def DeskRequest.Allowed : DeskRequest S σ → Prop
| create _ _ _ operation => operation.Single
| _ => True

def deskPrograms (p : DeskM S σ DeskReply) : Prop :=
  ∃ r : DeskRequest S σ, r.Allowed ∧ p = r.program

end PigBook.Idempotency
