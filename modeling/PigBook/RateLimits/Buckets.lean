import Mathlib.Data.List.Sort
import Mathlib.Data.Prod.Lex
import Mathlib.Data.String.Basic
import PigBook.Inventory.Rows
import PigBook.ReadCommitted.System

/-
  Rate limits: fixed windows of requests, counted in a table
  of their own.

  Key definitions include:
    * `BucketKey`, `RateLimitBucket`
    * `windowStartFor`
    * `limiter`, `limiterWorld`
    * `consumeRateLimits`
    * `purgeExpiredRateLimitsBatch`
    * `RateLimited`
-/

------------------------------------------------------------
-- Buckets
------------------------------------------------------------

namespace PigBook.RateLimits

/- The primary key of `rate_limits`. -/
structure BucketKey where
  scope : String
  identityHash : String
  windowStart : ℤ
deriving DecidableEq

structure RateLimitBucket where
  scope : String
  identityHash : String
  windowStart : ℤ
  limit : ℕ
  windowSeconds : ℕ
deriving DecidableEq

namespace RateLimitBucket

def key (b : RateLimitBucket) : BucketKey where
  scope := b.scope
  identityHash := b.identityHash
  windowStart := b.windowStart

/- The order in which buckets are locked. -/
def sortKey
    (b : RateLimitBucket) : String ×ₗ String ×ₗ ℤ :=
  toLex (b.scope, toLex (b.identityHash, b.windowStart))

end RateLimitBucket

/-
  The clock of the application shows microseconds since the
  epoch; `int(now.timestamp())` are its full seconds.
-/
def epochSeconds (now : ℕ) : ℕ :=
  now / 1000000

/- The start of the fixed window that contains `now`. -/
def windowStartFor
    (now windowSeconds : ℕ) : ℤ :=
  let timestamp := epochSeconds now
  let startEpoch := timestamp - timestamp % windowSeconds
  seconds startEpoch

/- The seconds until the window at `now` is over. -/
def retryAfterFor
    (now windowSeconds : ℕ) : ℕ :=
  let secondsLeft :=
    windowSeconds - epochSeconds now % windowSeconds
  max 1 secondsLeft

end PigBook.RateLimits

------------------------------------------------------------
-- The Table and Its Statements
------------------------------------------------------------

namespace PigBook.RateLimits

open ReadCommitted

/-
  What statements ask for.  An upsert is told when it runs.
  A purge is told which rows its subquery has selected, and
  the time.
-/
inductive LimiterQuery
  | applicationTime
  | upsert (b : RateLimitBucket)
  | purge (batchSize : ℕ)

def LimiterQuery.Answer : LimiterQuery → Type
| applicationTime => ℕ
| upsert _ => ℤ
| purge _ => List BucketKey × ℤ

inductive LimiterError
  | integerOutOfRange

/- A row is locked by its key. -/
def limiter : Sig where
  Key := BucketKey
  Conflict := fun k k' => k = k'
  symm := fun _ _ hEq => Eq.symm hEq
  Query := LimiterQuery
  Answer := LimiterQuery.Answer
  Error := LimiterError

/- The column `count` of the row with each key, if any. -/
abbrev Counters := BucketKey → Option ℕ

inductive Answers :
    ℤ → (q : LimiterQuery) → q.Answer → ℤ → Prop
  | applicationTime
      {clock : ℤ} (now : ℕ) :
      Answers clock .applicationTime now clock
  | upsert
      {clock : ℤ} {b : RateLimitBucket} :
      Answers clock (.upsert b) clock clock
  | purge
      {clock : ℤ} {batchSize : ℕ} {rows : List BucketKey}
      (hDistinct : rows.Nodup)
      (hLimit : rows.length ≤ batchSize) :
      Answers clock (.purge batchSize) (rows, clock) clock

/- The clock of the database does not run backwards. -/
def limiterWorld : World limiter where
  Carrier := ℤ
  answers := Answers
  advance := fun clock clock' => clock ≤ clock'

abbrev Tx (α : Type) := Prog limiter Counters α

/- datetime.now(timezone.utc) -/
def applicationNow : Tx ℕ :=
  @Prog.ask limiter Counters .applicationTime

/- The largest value of the column type `integer`. -/
def maxInteger : ℕ := 2147483647

/- The count of the row after one more request. -/
def nextCount
    (k : BucketKey)
    (s : Counters) : ℕ :=
  (s k).getD 0 + 1

/-
  INSERT ... VALUES (..., 1) ON CONFLICT DO UPDATE SET count =
  rate_limits.count + 1 RETURNING count, unless the count is
  too large for its type.
-/
def upsertCount (b : RateLimitBucket) : Tx (Option ℕ) :=
  .stmt (.upsert b)
    (fun _ _ => [b.key])
    (fun s _ t =>
      if nextCount b.key s ≤ maxInteger then
        Function.update t b.key (some (nextCount b.key s))
      else
        t)
    (fun s _ => .done
      (if nextCount b.key s ≤ maxInteger then
        some (nextCount b.key s)
      else
        none))

/- The selected rows that are still there and old enough. -/
def expiredRows
    (rows : List BucketKey)
    (clock : ℤ)
    (s : Counters) : List BucketKey :=
  rows.filter (fun k =>
    (s k).isSome ∧ k.windowStart < clock - hours 24)

/- DELETE of the rows; its answer is the row count. -/
def deleteExpired (batchSize : ℕ) : Tx ℕ :=
  .stmt (.purge batchSize)
    (fun s (rows, clock) => expiredRows rows clock s)
    (fun s (rows, clock) t k =>
      if k ∈ expiredRows rows clock s then none else t k)
    (fun s (rows, clock) =>
      .done (expiredRows rows clock s).length)

end PigBook.RateLimits

------------------------------------------------------------
-- Transactions
------------------------------------------------------------

namespace PigBook.RateLimits

open ReadCommitted

/- The larger of two waits, when there is one already. -/
def longerWait : Option ℕ → ℕ → Option ℕ
| none, retryAfter => some retryAfter
| some longest, retryAfter =>
    if longest < retryAfter then
      some retryAfter
    else
      some longest

/- The loop over the sorted buckets. -/
def consumeEach :
    List RateLimitBucket → Option ℕ → Tx (Option ℕ)
| [], maxRetryAfter => return maxRetryAfter
| b :: bs, maxRetryAfter => do
    match ← upsertCount b with
    | none => Prog.fail .integerOutOfRange
    | some currentCount =>
        if b.limit < currentCount then
          let now ← applicationNow
          let retryAfter := retryAfterFor now b.windowSeconds
          consumeEach bs (longerWait maxRetryAfter retryAfter)
        else
          consumeEach bs maxRetryAfter

/-
  A request is told that it was counted in the buckets, and
  after how many seconds to retry if it exceeds a limit.
-/
inductive LimiterReply
  | consumed
      (buckets : List RateLimitBucket)
      (retryAfter : Option ℕ)
  | purged (deleted : ℕ)

/-
  The counts are committed before the exception is raised: it
  is the answer of the transaction, not its failure.
-/
def consumeRateLimits
    (buckets : List RateLimitBucket) : Tx LimiterReply := do
  let sortedBuckets :=
    buckets.insertionSort (fun b b' =>
      b.sortKey ≤ b'.sortKey)
  let maxRetryAfter ← consumeEach sortedBuckets none
  return .consumed buckets maxRetryAfter

/- One batch of the purge is one transaction. -/
def purgeExpiredRateLimitsBatch
    (batchSize : ℕ) : Tx LimiterReply := do
  let deleted ← deleteExpired batchSize
  return .purged deleted

end PigBook.RateLimits

------------------------------------------------------------
-- Requests
------------------------------------------------------------

namespace PigBook.RateLimits

open ReadCommitted

/-
  A request that is limited: at each moment it has buckets of
  different keys, each in the current window, which is one
  hour long at most.
-/
structure RateLimited where
  buckets : ℕ → List RateLimitBucket
  distinct :
    ∀ now,
      (buckets now).Pairwise (fun b b' => b.key ≠ b'.key)
  current :
    ∀ now, ∀ b ∈ buckets now,
      b.windowStart = windowStartFor now b.windowSeconds
  positive : ∀ now, ∀ b ∈ buckets now, 0 < b.windowSeconds
  short : ∀ now, ∀ b ∈ buckets now, b.windowSeconds ≤ 3600

/- One bucket, with its window at any moment. -/
def RateLimited.single
    (scope identityHash : String)
    (limit windowSeconds : ℕ)
    (hPositive : 0 < windowSeconds)
    (hShort : windowSeconds ≤ 3600) : RateLimited where
  buckets := fun now =>
    [⟨scope, identityHash, windowStartFor now windowSeconds,
      limit, windowSeconds⟩]
  distinct := by simp
  current := by simp
  positive := by simpa using hPositive
  short := by simpa using hShort

/- The bucket of one user, for mutations and for reads. -/
def consumeUserBucket
    (userHash bucketScope : String)
    (limit : ℕ) : RateLimited :=
  .single bucketScope userHash limit 60 (by decide)
    (by decide)

def mutationLimit (raceProfile : Bool) : ℕ :=
  if raceProfile then 1000 else 120

def readLimit (raceProfile : Bool) : ℕ :=
  if raceProfile then 1000 else 600

def checkMutationRateLimit
    (raceProfile : Bool)
    (userHash : String) : RateLimited :=
  consumeUserBucket userHash "mutation:user"
    (mutationLimit raceProfile)

def checkReadRateLimit
    (raceProfile : Bool)
    (userHash : String) : RateLimited :=
  consumeUserBucket userHash "read:user"
    (readLimit raceProfile)

/- The buckets of registration, refresh and logout. -/
def checkRegisterRateLimit (ipHash : String) : RateLimited :=
  .single "register:ip" ipHash 5 3600 (by decide) (by decide)

def checkRefreshRateLimit (ipHash : String) : RateLimited :=
  .single "refresh:ip" ipHash 30 60 (by decide) (by decide)

def checkLogoutRateLimit (ipHash : String) : RateLimited :=
  .single "logout:ip" ipHash 30 60 (by decide) (by decide)

def checkLoginRateLimit
    (ipHash emailHash : String) : RateLimited where
  buckets := fun now =>
    [⟨"login:ip", ipHash, windowStartFor now 60, 10, 60⟩,
      ⟨"login:email", emailHash, windowStartFor now 60, 5,
        60⟩]
  distinct := by simp [RateLimitBucket.key]
  current := by simp
  positive := by simp
  short := by simp

/- The clock is read before the counters are. -/
def RateLimited.program
    (request : RateLimited) : Tx LimiterReply := do
  let now ← applicationNow
  consumeRateLimits (request.buckets now)

/- Requests, and purges of any batch size. -/
def limiterPrograms (p : Tx LimiterReply) : Prop :=
  (∃ request : RateLimited, p = request.program) ∨
    ∃ batchSize, p = purgeExpiredRateLimitsBatch batchSize

/- The states of the system, from any counters on. -/
def LimiterRun
    (db : Counters)
    (clock : ℤ)
    (s : Sys limiterWorld Counters LimiterReply) : Prop :=
  Reachable limiterPrograms (Sys.initial db clock) s

end PigBook.RateLimits
