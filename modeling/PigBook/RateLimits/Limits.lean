import PigBook.RateLimits.Buckets
import PigBook.ReadCommitted.Attempts
import PigBook.ReadCommitted.Clock
import PigBook.ReadCommitted.Course
import PigBook.ReadCommitted.Schedule

/-
  What the counters are worth, whatever the interleaving of
  requests and purges.

  Key definitions include:
    * `Consumed`, `Purged`
    * `Counted`
    * `limiterEvent`, `limiterContract`
    * `admits`, `Deletes`, `punctual`
    * `Concludes`

  Key theorems include:
    * `consumeEach_counted`
    * `limiterPrograms_keep`
    * `rate_limits_hold`
-/

------------------------------------------------------------
-- Windows of Time
------------------------------------------------------------

namespace PigBook.RateLimits

/- The end of the window that contains `now`. -/
def windowEnd (now windowSeconds : ℕ) : ℤ :=
  windowStartFor now windowSeconds + seconds windowSeconds

variable {now windowSeconds : ℕ}

/- A window has begun less than its length ago. -/
theorem lt_windowEnd
    (hPositive : 0 < windowSeconds) :
    now < windowEnd now windowSeconds := by
  have hRest :=
    Nat.mod_lt (epochSeconds now) hPositive
  have hLe := Nat.mod_le (epochSeconds now) windowSeconds
  have hFull : now < (epochSeconds now + 1) * 1000000 := by
    unfold epochSeconds
    omega
  unfold windowEnd windowStartFor seconds
  push_cast [hLe]
  omega

/- The wait that is reported outlasts the window. -/
theorem windowEnd_le_retry :
    windowEnd now windowSeconds ≤
      now + seconds (retryAfterFor now windowSeconds) := by
  have hLe := Nat.mod_le (epochSeconds now) windowSeconds
  have hFull : epochSeconds now * 1000000 ≤ now := by
    unfold epochSeconds
    omega
  have hWait :
      windowSeconds ≤
        retryAfterFor now windowSeconds +
          epochSeconds now % windowSeconds := by
    unfold retryAfterFor
    dsimp only
    omega
  unfold windowEnd windowStartFor seconds
  push_cast [hLe]
  omega

theorem one_le_retryAfterFor :
    1 ≤ retryAfterFor now windowSeconds :=
  le_max_left _ _

/- A longer wait covers both. -/
theorem longerWait_spec
    (longest : Option ℕ)
    (retryAfter : ℕ) :
    ∃ r, longerWait longest retryAfter = some r ∧
      retryAfter ≤ r ∧ ∀ m ∈ longest, m ≤ r := by
  cases longest with
  | none => exact ⟨retryAfter, rfl, le_refl _, by simp⟩
  | some longest =>
      by_cases hLess : longest < retryAfter
      · exact
          ⟨retryAfter, if_pos hLess, le_refl _,
            by simpa using hLess.le⟩
      · exact
          ⟨longest, if_neg hLess, not_lt.mp hLess, by simp⟩

end PigBook.RateLimits

------------------------------------------------------------
-- What Transactions Do
------------------------------------------------------------

namespace PigBook.RateLimits

open ReadCommitted

/- The buckets that a transaction has counted, in order. -/
def consumedBuckets
    (log : List (Action limiter)) : List RateLimitBucket :=
  log.filterMap (fun act =>
    match act.query with
    | .upsert b => some b
    | _ => none)

/- The clock that was read when the bucket was found full. -/
def RejectedAt
    (log : List (Action limiter))
    (b : RateLimitBucket)
    (now : ℕ) : Prop :=
  ∃ clock : ℤ,
    [⟨.upsert b, clock, [b.key]⟩,
      ⟨.applicationTime, now, []⟩] <:+: log

/-
  The wait that is reported, if any: there is one when some
  bucket is over its limit, and it outlasts the window of
  each such bucket.
-/
structure Verdict
    (log : List (Action limiter))
    (buckets : List RateLimitBucket)
    (s : Counters)
    (retryAfter : Option ℕ) : Prop where
  admitted :
    retryAfter = none ↔
      ∀ b ∈ buckets, nextCount b.key s ≤ b.limit
  outlasts :
    ∀ r ∈ retryAfter, 1 ≤ r ∧
      ∀ b ∈ buckets, b.limit < nextCount b.key s →
        ∃ now, RejectedAt log b now ∧
          windowEnd now b.windowSeconds ≤ now + seconds r

/- The row of the bucket was locked by its upsert. -/
def LockedBy
    (log : List (Action limiter))
    (b : RateLimitBucket) : Prop :=
  ∃ clock : ℤ, ⟨.upsert b, clock, [b.key]⟩ ∈ log

/- A request has read the clock and counted its buckets. -/
structure Consumed
    (log : List (Action limiter))
    (before after : Counters)
    (buckets : List RateLimitBucket)
    (retryAfter : Option ℕ) : Prop where
  request :
    ∃ (now : ℕ) (rest : List (Action limiter))
      (request : RateLimited),
      log = ⟨.applicationTime, now, []⟩ :: rest ∧
        buckets = request.buckets now
  counted : (consumedBuckets log).Perm buckets
  locked : ∀ b ∈ buckets, LockedBy log b
  counts :
    ∀ k,
      after k =
        if k ∈ buckets.map (·.key) then
          some (nextCount k before)
        else
          before k
  verdict : Verdict log buckets before retryAfter

/- A purge has deleted rows that were a day old. -/
def Purged
    (log : List (Action limiter))
    (before after : Counters) : Prop :=
  ∃ batchSize rows, ∃ clock : ℤ, ∃ deleted : List BucketKey,
    log = [⟨.purge batchSize, (rows, clock), deleted⟩] ∧
    (∀ k ∈ deleted, k.windowStart < clock - hours 24) ∧
    ∀ k, after k = if k ∈ deleted then none else before k

/-
  The client has begun with a request, and these are its
  buckets at the time that it has read first.
-/
def AsksFor
    (pid : ℕ)
    (older : List (Event limiter Counters LimiterReply))
    (log : List (Action limiter))
    (buckets : List RateLimitBucket) : Prop :=
  ∃ (request : RateLimited) (now : ℕ)
    (rest : List (Action limiter)),
    begunAs pid older = some request.program ∧
      log = ⟨.applicationTime, now, []⟩ :: rest ∧
      buckets = request.buckets now

/-
  The last statement of the client was to count in a bucket
  with the largest count that the column can hold.
-/
def Overflowed
    (db : Counters)
    (pid : ℕ)
    (older : List (Event limiter Counters LimiterReply)) :
    Prop :=
  ∃ (b : RateLimitBucket) (clock : ℤ)
    (before : List (Event limiter Counters LimiterReply)),
    lastRan pid (fun _ => true) older =
        some (⟨.upsert b, clock, [b.key]⟩, before) ∧
      maxInteger < nextCount b.key (latest db before)

/-
  What an event of a run is worth.  Whoever commits has done
  what it began for, and nothing but a full column ends a
  client with an error.
-/
def limiterEvent
    (db : Counters)
    (older : List (Event limiter Counters LimiterReply)) :
    Event limiter Counters LimiterReply → Prop
| .committed pid log before after answer =>
    match answer with
    | some (.consumed buckets retryAfter) =>
        Consumed log before after buckets retryAfter ∧
          AsksFor pid older log buckets
    | some (.purged _) =>
        Purged log before after ∧
          ∃ batchSize,
            begunAs pid older =
              some (purgeExpiredRateLimitsBatch batchSize)
    | none => False
| .aborted pid _ => Overflowed db pid older
| _ => True

/- Rows stay as they are while their keys are held. -/
def limiterContract
    (db : Counters) :
    Contract limiterWorld Counters LimiterReply where
  start := db
  later := fun _ _ => True
  valid := fun _ _ => True
  stable := fun ks s s' => ∀ k ∈ ks, s' k = s k
  outcome := limiterEvent db
  later_refl := fun _ => trivial
  later_trans := fun _ _ => trivial
  later_answers := fun _ => trivial
  later_advance := fun _ => trivial
  valid_later := fun _ _ => trivial
  stable_refl := fun _ _ _ _ => rfl
  stable_trans := fun hFirst hSecond k hKey =>
    (hSecond k hKey).trans (hFirst k hKey)
  outcome_quiet := by
    intro older e hQuiet
    cases e with
    | committed pid log before after answer => cases hQuiet
    | aborted pid e => cases hQuiet
    | _ => trivial

variable {db : Counters}

theorem limiterContract_silent
    (q : LimiterQuery) :
    (limiterContract db).rules.Silent (S := limiter) q :=
  Contract.silent (fun _ _ _ _ => trivial)

/-
  The error is explained when the statement before it found
  the count at its largest.
-/
theorem rwp_fail_of_overflow
    {pid : ℕ}
    {b : RateLimitBucket}
    {clock : ℤ}
    {ks : List BucketKey}
    {log : List (Action limiter)}
    {w : Counters → Counters}
    {c c' : Config limiterWorld Counters LimiterReply}
    {post :
      Option ℕ → List (Action limiter) →
        (Counters → Counters) →
          Config limiterWorld Counters LimiterReply → Prop}
    (hRan :
      (limiterContract db).rules.Ran pid ks
        ⟨.upsert b, clock, [b.key]⟩ c c')
    (hOver : maxInteger < nextCount b.key c'.db) :
    (Prog.fail .integerOutOfRange : Tx (Option ℕ)).rwp
      (limiterContract db).rules pid post log w c' := by
  intro c'' hGood hRely
  rcases Contract.ran_latest hRan with
    ⟨older, hTrace, -, hDb⟩
  refine ⟨b, clock, older, ?_, ?_⟩
  · rw [lastRan_rely hRely, hTrace]
    exact lastRan_ran rfl
  · rw [hDb] at hOver
    exact hOver

end PigBook.RateLimits

------------------------------------------------------------
-- The Loop over the Buckets
------------------------------------------------------------

namespace PigBook.RateLimits

open ReadCommitted

/-
  Between two iterations the buckets `bs` are counted, their
  rows are locked, and nothing else has changed.
-/
structure Counted
    (bs : List RateLimitBucket)
    (log : List (Action limiter))
    (w : Counters → Counters)
    (s : Counters) : Prop where
  locked : ∀ b ∈ bs, LockedBy log b
  logged : consumedBuckets log = bs
  writes :
    ∀ t k,
      w t k =
        if k ∈ bs.map (·.key) then
          some (nextCount k s)
        else
          t k

variable {bs : List RateLimitBucket} {b : RateLimitBucket}
variable {log : List (Action limiter)}
variable {w : Counters → Counters} {s s' : Counters}
variable {wait : Option ℕ}

theorem nextCount_congr
    {k : BucketKey}
    (hSame : s' k = s k) :
    nextCount k s' = nextCount k s := by
  unfold nextCount
  rw [hSame]

theorem RejectedAt.extend
    {now : ℕ}
    (hRejected : RejectedAt log b now)
    (rest : List (Action limiter)) :
    RejectedAt (log ++ rest) b now := by
  rcases hRejected with ⟨clock, before, after, hLog⟩
  refine ⟨clock, before, after ++ rest, ?_⟩
  rw [← hLog]
  simp

namespace Verdict

theorem extend
    (hVerdict : Verdict log bs s wait)
    (rest : List (Action limiter)) :
    Verdict (log ++ rest) bs s wait where
  admitted := hVerdict.admitted
  outlasts := by
    intro r hWait
    rcases hVerdict.outlasts r hWait with ⟨hOne, hFull⟩
    refine ⟨hOne, ?_⟩
    intro b hMem hOver
    rcases hFull b hMem hOver with ⟨now, hRejected, hEnd⟩
    exact ⟨now, hRejected.extend rest, hEnd⟩

theorem congr
    (hVerdict : Verdict log bs s wait)
    (hSame : ∀ b ∈ bs, s' b.key = s b.key) :
    Verdict log bs s' wait where
  admitted := by
    rw [hVerdict.admitted]
    constructor
    · intro hWithin b hMem
      rw [nextCount_congr (hSame b hMem)]
      exact hWithin b hMem
    · intro hWithin b hMem
      rw [← nextCount_congr (hSame b hMem)]
      exact hWithin b hMem
  outlasts := by
    intro r hWait
    rcases hVerdict.outlasts r hWait with ⟨hOne, hFull⟩
    refine ⟨hOne, ?_⟩
    intro b hMem hOver
    rw [nextCount_congr (hSame b hMem)] at hOver
    exact hFull b hMem hOver

theorem start
    (log : List (Action limiter))
    (s : Counters) :
    Verdict log [] s none where
  admitted := by simp
  outlasts := by simp

/- The order of the buckets does not matter. -/
theorem perm
    {bs' : List RateLimitBucket}
    (hVerdict : Verdict log bs s wait)
    (hPerm : bs.Perm bs') :
    Verdict log bs' s wait where
  admitted := by
    rw [hVerdict.admitted]
    constructor
    · intro hWithin b hMem
      exact hWithin b (hPerm.mem_iff.mpr hMem)
    · intro hWithin b hMem
      exact hWithin b (hPerm.mem_iff.mp hMem)
  outlasts := by
    intro r hWait
    rcases hVerdict.outlasts r hWait with ⟨hOne, hFull⟩
    refine ⟨hOne, ?_⟩
    intro b hMem hOver
    exact hFull b (hPerm.mem_iff.mpr hMem) hOver

/- A bucket within its limit changes no verdict. -/
theorem within
    (hVerdict : Verdict log bs s wait)
    (hWithin : nextCount b.key s ≤ b.limit) :
    Verdict log (bs ++ [b]) s wait where
  admitted := by
    rw [hVerdict.admitted]
    simp [or_imp, forall_and, hWithin]
  outlasts := by
    intro r hWait
    rcases hVerdict.outlasts r hWait with ⟨hOne, hFull⟩
    refine ⟨hOne, ?_⟩
    intro b' hMem hOver
    rcases List.mem_append.mp hMem with hOld | hNew
    · exact hFull b' hOld hOver
    · rw [List.mem_singleton.mp hNew] at hOver
      exact absurd hOver (not_lt.mpr hWithin)

/- A bucket over its limit may lengthen the wait. -/
theorem exceeded
    {now : ℕ}
    (hVerdict : Verdict log bs s wait)
    (hOver : b.limit < nextCount b.key s)
    (hRejected : RejectedAt log b now) :
    Verdict log (bs ++ [b]) s
      (longerWait wait
        (retryAfterFor now b.windowSeconds)) := by
  rcases
    longerWait_spec wait
      (retryAfterFor now b.windowSeconds) with
    ⟨r, hSome, hNew, hOld⟩
  rw [hSome]
  constructor
  · simp only [reduceCtorEq, false_iff]
    intro hAll
    exact absurd (hAll b (by simp)) (not_le.mpr hOver)
  · rintro r' ⟨⟩
    refine ⟨le_trans one_le_retryAfterFor hNew, ?_⟩
    intro b' hMem hOver'
    rcases List.mem_append.mp hMem with hBefore | hLast
    · -- then there was a wait before, and no longer one
      have hWait : wait ≠ none := by
        intro hNone
        exact
          absurd (hVerdict.admitted.mp hNone b' hBefore)
            (not_le.mpr hOver')
      rcases Option.ne_none_iff_exists'.mp hWait with
        ⟨m, rfl⟩
      rcases (hVerdict.outlasts m rfl).2 b' hBefore hOver'
        with ⟨now', hRejected', hEnd⟩
      refine ⟨now', hRejected', ?_⟩
      have hLonger := hOld m rfl
      unfold seconds at hEnd ⊢
      omega
    · rw [List.mem_singleton.mp hLast]
      refine ⟨now, hRejected, ?_⟩
      have hEnd : windowEnd now b.windowSeconds ≤ _ :=
        windowEnd_le_retry
      unfold seconds at hEnd ⊢
      omega

end Verdict

theorem LockedBy.held
    (hLocked : LockedBy log b) :
    b.key ∈ held log := by
  rcases hLocked with ⟨clock, hMem⟩
  exact List.mem_flatMap.mpr ⟨_, hMem, List.mem_cons_self⟩

theorem LockedBy.extend
    (hLocked : LockedBy log b)
    (rest : List (Action limiter)) :
    LockedBy (log ++ rest) b := by
  rcases hLocked with ⟨clock, hMem⟩
  exact ⟨clock, List.mem_append_left _ hMem⟩

namespace Counted

theorem start
    {log : List (Action limiter)}
    (hNone : consumedBuckets log = [])
    (s : Counters) :
    Counted [] log id s where
  locked := by simp
  logged := hNone
  writes := by simp

/- What others do leaves the counted rows alone. -/
theorem congr
    (hCounted : Counted bs log w s)
    (hSame : ∀ k ∈ held log, s' k = s k) :
    Counted bs log w s' where
  locked := hCounted.locked
  logged := hCounted.logged
  writes := by
    intro t k
    rw [hCounted.writes t k]
    by_cases hMem : k ∈ bs.map (·.key)
    · rw [if_pos hMem, if_pos hMem]
      rcases List.mem_map.mp hMem with ⟨b, hBucket, rfl⟩
      rw [nextCount_congr
        (hSame _ (hCounted.locked b hBucket).held)]
    · rw [if_neg hMem, if_neg hMem]

theorem ask
    (hCounted : Counted bs log w s)
    (now : ℕ) :
    Counted bs (log ++ [⟨.applicationTime, now, []⟩]) w s where
  locked := fun b hMem => (hCounted.locked b hMem).extend _
  logged := by
    rw [← hCounted.logged]
    simp [consumedBuckets]
  writes := hCounted.writes

theorem upsert
    (hCounted : Counted bs log w s)
    (hNew : b.key ∉ bs.map (·.key))
    (clock : ℤ) :
    nextCount b.key (w s) = nextCount b.key s ∧
    Counted (bs ++ [b])
      (log ++ [⟨.upsert b, clock, [b.key]⟩])
      (fun t =>
        Function.update (w t) b.key
          (some (nextCount b.key (w s))))
      s := by
  have hSame : nextCount b.key (w s) = nextCount b.key s := by
    apply nextCount_congr
    rw [hCounted.writes, if_neg hNew]
  refine ⟨hSame, ?_, ?_, ?_⟩
  · intro b' hMem
    rcases List.mem_append.mp hMem with hOld | hLast
    · exact (hCounted.locked b' hOld).extend _
    · rw [List.mem_singleton.mp hLast]
      exact
        ⟨clock, List.mem_append_right _ List.mem_cons_self⟩
  · rw [← hCounted.logged]
    simp [consumedBuckets]
  · intro t k
    rw [hSame]
    by_cases hKey : k = b.key
    · subst hKey
      simp
    · rw [Function.update_of_ne hKey, hCounted.writes]
      simp [hKey]

end Counted

end PigBook.RateLimits

namespace PigBook.RateLimits

open ReadCommitted

variable {db : Counters} {pid : ℕ}

/- The statements of the loop extend what has been run. -/
theorem consumeEach_counted
    {post :
      Option ℕ → List (Action limiter) →
        (Counters → Counters) →
          Config limiterWorld Counters LimiterReply → Prop}
    (rest : List RateLimitBucket)
    {bs : List RateLimitBucket}
    {log : List (Action limiter)}
    {w : Counters → Counters}
    {c : Config limiterWorld Counters LimiterReply}
    {wait : Option ℕ}
    (hDistinct :
      (bs ++ rest).Pairwise (fun b b' => b.key ≠ b'.key))
    (hCounted : Counted bs log w c.db)
    (hVerdict : Verdict log bs c.db wait)
    (hPost :
      ∀ wait' acts w' c',
        begunAs pid c'.trace = begunAs pid c.trace →
        Counted (bs ++ rest) (log ++ acts) w' c'.db →
          Verdict (log ++ acts) (bs ++ rest) c'.db wait' →
            post wait' (log ++ acts) w' c') :
    (consumeEach rest wait).rwp (limiterContract db).rules pid
      post log w c := by
  induction rest generalizing bs log w c wait with
  | nil =>
      have hDone := hPost wait [] w c rfl
      simp only [List.append_nil] at hDone
      exact hDone hCounted hVerdict
  | cons b rest ih =>
      unfold consumeEach
      simp only [Prog.bind_eq, Prog.rwp_bind]
      unfold upsertCount
      refine
        Prog.rwp_stmt_of_silent (limiterContract_silent _) ?_
      intro clock c' hRan
      have hSame : ∀ k ∈ held log, c'.db k = c.db k :=
        Contract.ran_stable hRan
      have hCounted' := hCounted.congr hSame
      have hVerdict' := hVerdict.congr (fun b hMem =>
        hSame _ (hCounted.locked b hMem).held)
      have hNew : b.key ∉ bs.map (·.key) := by
        intro hMem
        rcases List.mem_map.mp hMem with ⟨b', hOld, hKey⟩
        exact
          (List.pairwise_append.mp hDistinct).2.2 b' hOld b
            List.mem_cons_self hKey
      rcases hCounted'.upsert hNew clock with
        ⟨hCount, hUpserted⟩
      by_cases hFits : nextCount b.key (w c'.db) ≤ maxInteger
      case neg =>
        simp only [if_neg hFits, Prog.rwp_done]
        rw [hCount] at hFits
        exact rwp_fail_of_overflow hRan (not_le.mp hFits)
      simp only [if_pos hFits, Prog.rwp_done]
      have hShift : bs ++ [b] ++ rest = bs ++ b :: rest := by
        simp
      have hBegun := begunAs_ran hRan
      by_cases hOver : b.limit < nextCount b.key (w c'.db)
      · simp only [if_pos hOver, Prog.rwp_bind]
        refine
          Prog.rwp_ask_of_silent (limiterContract_silent _) ?_
        intro now c'' hRan'
        have hSame' := Contract.ran_stable hRan'
        rw [hCount] at hOver
        have hNext := (hUpserted.congr hSame').ask now
        have hRejected :
            RejectedAt
              (log ++ [⟨.upsert b, clock, [b.key]⟩] ++
                [⟨.applicationTime, now, []⟩]) b now :=
          ⟨clock, log, [], by simp⟩
        have hFull :=
          ((hVerdict'.extend _).extend _).exceeded hOver hRejected
        have hFull' := hFull.congr (fun b' hMem =>
          hSame' _ (hUpserted.locked b' hMem).held)
        apply ih (by rw [hShift]; exact hDistinct) hNext hFull'
        intro wait' acts w' c₃ hSame₃ hDone hEnd
        rw [hShift, List.append_assoc, List.append_assoc]
          at hDone hEnd
        rw [begunAs_ran hRan', hBegun] at hSame₃
        have hAll := hPost wait' _ w' c₃ hSame₃ hDone hEnd
        rw [List.append_assoc, List.append_assoc]
        exact hAll
      · simp only [if_neg hOver]
        rw [hCount] at hOver
        have hWithin :=
          (hVerdict'.extend [⟨.upsert b, clock, [b.key]⟩]
            ).within (not_lt.mp hOver)
        apply ih (by rw [hShift]; exact hDistinct) hUpserted
          hWithin
        intro wait' acts w' c₃ hSame₃ hDone hEnd
        rw [hShift, List.append_assoc] at hDone hEnd
        rw [hBegun] at hSame₃
        have hAll := hPost wait' _ w' c₃ hSame₃ hDone hEnd
        rw [List.append_assoc]
        exact hAll

end PigBook.RateLimits

------------------------------------------------------------
-- The Programs Keep the Contract
------------------------------------------------------------

namespace PigBook.RateLimits

open ReadCommitted

variable {db : Counters}

theorem perm_map_key
    {bs bs' : List RateLimitBucket}
    (hPerm : bs.Perm bs')
    (k : BucketKey) :
    k ∈ bs.map (·.key) ↔ k ∈ bs'.map (·.key) :=
  (hPerm.map _).mem_iff

/- A request leaves the rows that it did not lock. -/
theorem RateLimited.keeps
    (request : RateLimited) :
    (limiterContract db).rules.Keeps request.program := by
  intro pid c hGood
  unfold RateLimited.program
  simp only [Prog.bind_eq, Prog.rwp_bind]
  refine Prog.rwp_ask_of_silent (limiterContract_silent _) ?_
  intro now c' hRan
  unfold consumeRateLimits
  simp only [Prog.bind_eq, Prog.rwp_bind]
  have hPerm :=
    List.perm_insertionSort
      (fun b b' : RateLimitBucket => b.sortKey ≤ b'.sortKey)
      (request.buckets now)
  have hDistinct :
      (List.insertionSort
          (fun b b' : RateLimitBucket =>
            b.sortKey ≤ b'.sortKey)
          (request.buckets now)).Pairwise
        (fun b b' => b.key ≠ b'.key) := by
    refine (hPerm.pairwise_iff ?_).mpr (request.distinct now)
    intro b b' hNe
    exact hNe.symm
  refine
    consumeEach_counted _ hDistinct
      (.start rfl c'.db) (.start _ c'.db) ?_
  intro wait acts w c₂ hBegun hCounted hVerdict c₃ hGood' hRely
  have hSame := hRely.stable
  have hCounted' := hCounted.congr hSame
  have hVerdict' := hVerdict.congr (fun b hMem =>
    hSame _ (hCounted.locked b hMem).held)
  rw [begunAs_ran hRan] at hBegun
  have hAsks :
      begunAs pid c₃.trace = some request.program := by
    rw [begunAs_rely hRely, hBegun]
    exact begunAs_spawned _
  refine Contract.commits hGood' trivial ?_ ?_
  · refine ⟨?_, request, now, acts, hAsks, rfl, rfl⟩
    exact {
      request := ⟨now, acts, request, rfl, rfl⟩
      counted := by
        rw [hCounted'.logged]
        exact hPerm
      locked := fun b hMem =>
        hCounted'.locked b (hPerm.mem_iff.mpr hMem)
      counts := by
        intro k
        rw [hCounted'.writes]
        simp only [List.nil_append, perm_map_key hPerm k]
      verdict := hVerdict'.perm hPerm
    }
  · intro ks' hCompat k hKey
    refine (hCounted'.writes c₃.db k).trans (if_neg ?_)
    intro hMem
    rcases List.mem_map.mp hMem with ⟨b, hBucket, rfl⟩
    exact
      hCompat _ (hCounted.locked b hBucket).held b.key hKey
        rfl

/- A purge leaves the rows that it does not delete. -/
theorem purge_keeps
    (batchSize : ℕ) :
    (limiterContract db).rules.Keeps
      (purgeExpiredRateLimitsBatch batchSize) := by
  intro pid c hGood
  unfold purgeExpiredRateLimitsBatch deleteExpired
  simp only [Prog.bind_eq, Prog.rwp_bind]
  refine Prog.rwp_stmt_of_silent (limiterContract_silent _) ?_
  rintro ⟨rows, clock⟩ c' hRan
  intro c₂ hGood' hRely
  refine Contract.commits hGood' trivial ?_ ?_
  · refine
      ⟨⟨batchSize, rows, clock, _, rfl, ?_, fun k => rfl⟩,
        batchSize, ?_⟩
    case refine_2 =>
      rw [begunAs_rely hRely, begunAs_ran hRan]
      exact begunAs_spawned _
    intro k hMem
    unfold expiredRows at hMem
    rw [List.mem_filter, decide_eq_true_iff] at hMem
    exact hMem.2.2
  · intro ks' hCompat k hKey
    refine if_neg ?_
    intro hMem
    refine hCompat k ?_ k hKey rfl
    rw [List.nil_append, held_singleton]
    exact hMem

theorem limiterPrograms_keep :
    ∀ p, limiterPrograms p →
      (limiterContract db).rules.Keeps p := by
  rintro p (⟨request, rfl⟩ | ⟨batchSize, rfl⟩)
  · exact request.keeps
  · exact purge_keeps batchSize

end PigBook.RateLimits

------------------------------------------------------------
-- Commits
------------------------------------------------------------

namespace PigBook.RateLimits

open ReadCommitted

abbrev LimiterCommit :=
  Commit limiter Counters LimiterReply

/- What a committed transaction has done. -/
def Settled (c : LimiterCommit) : Prop :=
  match c.answer with
  | some (.consumed buckets retryAfter) =>
      Consumed c.log c.before c.after buckets retryAfter
  | some (.purged _) => Purged c.log c.before c.after
  | none => False

/- What a commit is worth shows in what it has done. -/
theorem Settled.of_event
    {db : Counters}
    {pid : ℕ}
    {older : List (Event limiter Counters LimiterReply)}
    {c : LimiterCommit}
    (hEvent :
      limiterEvent db older
        (.committed pid c.log c.before c.after c.answer)) :
    Settled c := by
  rcases c with ⟨log, before, after, answer⟩
  match answer, hEvent with
  | some (.consumed _ _), hEvent => exact hEvent.1
  | some (.purged _), hEvent => exact hEvent.1

/- The commit is that of a request with the bucket. -/
def Consumes (k : BucketKey) (c : LimiterCommit) : Prop :=
  ∃ buckets retryAfter,
    c.answer = some (.consumed buckets retryAfter) ∧
      ∃ b ∈ buckets, b.key = k

/- The request with the bucket and the limit is admitted. -/
def admits
    (k : BucketKey)
    (limit : ℕ)
    (c : LimiterCommit) : Bool :=
  match c.answer with
  | some (.consumed buckets none) =>
      buckets.any (fun b => b.key = k ∧ b.limit = limit)
  | _ => false

/- The commit deletes the row. -/
def Deletes (k : BucketKey) (c : LimiterCommit) : Prop :=
  (c.before k).isSome ∧ c.after k = none

/- The clocks differ by less than 23 hours. -/
def inTime (now : ℕ) (clock : ℤ) : Bool :=
  clock < now + hours 23

def punctualWith (now : ℕ) : Action limiter → Bool
| ⟨.upsert _, clock, _⟩ => inTime now clock
| _ => true

/-
  The request has counted its buckets before the clock of the
  database was 23 hours ahead of the time that it had read.
-/
def punctual : List (Action limiter) → Bool
| ⟨.applicationTime, now, _⟩ :: rest =>
    rest.all (punctualWith now)
| _ => true

variable {c c' : LimiterCommit} {k : BucketKey} {limit : ℕ}

theorem Consumes.of_admits
    (hAdmits : admits k limit c = true) :
    ∃ buckets, c.answer = some (.consumed buckets none) ∧
      ∃ b ∈ buckets, b.key = k ∧ b.limit = limit := by
  unfold admits at hAdmits
  split at hAdmits
  · rename_i buckets hAnswer
    rcases List.any_eq_true.mp hAdmits with ⟨b, hMem, hCase⟩
    exact
      ⟨buckets, hAnswer, b, hMem, of_decide_eq_true hCase⟩
  · cases hAdmits

/- A request counts its buckets, and deletes no row. -/
theorem Settled.counts
    (hSettled : Settled c)
    (hConsumes : Consumes k c) :
    c.after k = some (nextCount k c.before) := by
  rcases hConsumes with
    ⟨buckets, retryAfter, hAnswer, b, hMem, rfl⟩
  unfold Settled at hSettled
  rw [hAnswer] at hSettled
  rw [hSettled.counts, if_pos (List.mem_map_of_mem hMem)]

/- What deletes a row is a purge with its key. -/
theorem Settled.purges
    (hSettled : Settled c)
    (hDeletes : Deletes k c) :
    ∃ batchSize rows, ∃ clock : ℤ, ∃ deleted : List BucketKey,
      c.log = [⟨.purge batchSize, (rows, clock), deleted⟩] ∧
        k ∈ deleted ∧ k.windowStart < clock - hours 24 := by
  rcases hDeletes with ⟨hBefore, hAfter⟩
  unfold Settled at hSettled
  split at hSettled
  · have hCount := hSettled.counts k
    rw [hAfter] at hCount
    split at hCount
    · cases hCount
    · rw [← hCount] at hBefore
      cases hBefore
  · rcases hSettled with
      ⟨batchSize, rows, clock, deleted, hLog, hOld, hCount⟩
    have hRow := hCount k
    rw [hAfter] at hRow
    by_cases hMem : k ∈ deleted
    · exact
        ⟨batchSize, rows, clock, deleted, hLog, hMem,
          hOld k hMem⟩
    · rw [if_neg hMem] at hRow
      rw [← hRow] at hBefore
      cases hBefore
  · cases hSettled

/- A row is left as it is, counted, or deleted. -/
theorem Settled.cases
    (hSettled : Settled c)
    (k : BucketKey) :
    Consumes k c ∨ Deletes k c ∨ c.after k = c.before k := by
  unfold Settled at hSettled
  split at hSettled
  · rename_i buckets retryAfter hAnswer
    by_cases hMem : k ∈ buckets.map (·.key)
    · rcases List.mem_map.mp hMem with ⟨b, hBucket, hKey⟩
      exact
        Or.inl ⟨buckets, retryAfter, hAnswer, b, hBucket,
          hKey⟩
    · have hCount := hSettled.counts k
      rw [if_neg hMem] at hCount
      exact Or.inr (Or.inr hCount)
  · rcases hSettled with
      ⟨batchSize, rows, clock, deleted, -, -, hCount⟩
    have hRow := hCount k
    by_cases hMem : k ∈ deleted
    · rw [if_pos hMem] at hRow
      cases hBefore : c.before k with
      | none => exact Or.inr (Or.inr hRow)
      | some n =>
          exact Or.inr (Or.inl ⟨by rw [hBefore]; rfl, hRow⟩)
    · rw [if_neg hMem] at hRow
      exact Or.inr (Or.inr hRow)
  · cases hSettled

/- The statements that are told the time of the database. -/
def limiterReads : Action limiter → ℤ → Prop
| ⟨.upsert _, clock, _⟩, t => t = (clock : ℤ)
| ⟨.purge _, (_, clock), _⟩, t => t = clock
| ⟨.applicationTime, _, _⟩, _ => False

def limiterClock : Clock limiterWorld ℤ where
  time := fun clock => clock
  reads := limiterReads
  answered := by
    intro env env' q a hAnswer
    cases hAnswer <;> exact le_refl _
  current := by
    intro env env' q a keys t hAnswer hReads
    cases hAnswer with
    | applicationTime now => cases hReads
    | upsert => exact hReads
    | purge => exact hReads
  advanced := fun hAdvance => hAdvance

end PigBook.RateLimits

------------------------------------------------------------
-- Deleted Windows Are Over
------------------------------------------------------------

namespace PigBook.RateLimits

open ReadCommitted

variable {c c' : LimiterCommit} {k : BucketKey}

/- The window of a row that is a day old is out of reach. -/
theorem out_of_reach
    {now windowSeconds : ℕ}
    {clock later : ℤ}
    (hPositive : 0 < windowSeconds)
    (hShort : windowSeconds ≤ 3600)
    (hOld : k.windowStart < clock - hours 24)
    (hLater : clock ≤ later)
    (hSkew : later < now + hours 23) :
    windowStartFor now windowSeconds ≠ k.windowStart := by
  intro hCurrent
  have hEnd : now < windowEnd now windowSeconds :=
    lt_windowEnd hPositive
  unfold windowEnd at hEnd
  rw [hCurrent] at hEnd
  unfold hours minutes seconds at *
  omega

/- Punctual requests do not count on a deleted row. -/
theorem not_consumes_of_deletes
    (hSettled : Settled c)
    (hSettled' : Settled c')
    (hPunctual : punctual c.log = true)
    (hInOrder : limiterClock.InOrder k c c')
    (hDeletes : Deletes k c') :
    ¬ Consumes k c := by
  rintro ⟨buckets, retryAfter, hAnswer, b, hMem, rfl⟩
  rcases hSettled'.purges hDeletes with
    ⟨batchSize, rows, clock, deleted, hLog', hKey, hOld⟩
  unfold Settled at hSettled
  rw [hAnswer] at hSettled
  rcases hSettled.request with
    ⟨now, rest, request, hLog, hBuckets⟩
  rcases hSettled.locked b hMem with ⟨later, hUpsert⟩
  have hRest : ⟨.upsert b, later, [b.key]⟩ ∈ rest := by
    rw [hLog] at hUpsert
    rcases List.mem_cons.mp hUpsert with hFirst | hRest
    · cases hFirst
    · exact hRest
  have hSkew : later < now + hours 23 := by
    rw [hLog] at hPunctual
    exact
      of_decide_eq_true
        (List.all_eq_true.mp hPunctual _ hRest)
  -- the purge had read the clock when the row was free again
  have hLater : clock ≤ later := by
    refine hInOrder later clock ?_ ?_
    · rcases List.append_of_mem hUpsert with
        ⟨before, after, hSplit⟩
      refine ⟨before, _, after, hSplit, rfl, ?_⟩
      rw [held_append, held_singleton]
      exact List.mem_append_right _ List.mem_cons_self
    · refine ⟨[], _, [], hLog', rfl, ?_⟩
      rw [List.nil_append, held_singleton]
      exact hKey
  rw [hBuckets] at hMem
  exact
    out_of_reach (request.positive now b hMem)
      (request.short now b hMem) hOld hLater hSkew
      (request.current now b hMem).symm

end PigBook.RateLimits

------------------------------------------------------------
-- Rate Limits
------------------------------------------------------------

namespace PigBook.RateLimits

open ReadCommitted

variable {db : Counters} {clock : ℤ}
variable {s : Sys limiterWorld Counters LimiterReply}

theorem LimiterRun.good
    (hRun : LimiterRun db clock s) :
    (limiterContract db).Good s.toConfig :=
  Contract.good_of_reachable limiterPrograms_keep trivial hRun

theorem LimiterRun.settled
    (hRun : LimiterRun db clock s) :
    ∀ c ∈ commits s.trace, Settled c := by
  intro c hMem
  rcases exists_of_mem_commits hMem with
    ⟨newer, pid, older, hTrace⟩
  have hAudited := hRun.good.audited
  rw [hTrace] at hAudited
  have hEvent :
      limiterEvent db older
        (.committed pid c.log c.before c.after c.answer) :=
    hAudited.split.1
  exact Settled.of_event hEvent

/- The loop is part of one transaction. -/
theorem consumeEach_single
    (buckets : List RateLimitBucket)
    (wait : Option ℕ) :
    (consumeEach buckets wait).Single := by
  induction buckets generalizing wait with
  | nil => trivial
  | cons b buckets ih =>
      unfold consumeEach
      refine Prog.Single.bind (fun _ _ => trivial) ?_
      intro count
      split
      · trivial
      · split
        · exact
            Prog.Single.bind (fun _ _ => trivial)
              (fun _ => ih _)
        · exact ih _

theorem limiterPrograms_single :
    ∀ p, limiterPrograms p → p.Single := by
  rintro p (⟨request, rfl⟩ | ⟨batchSize, rfl⟩)
  · unfold RateLimited.program consumeRateLimits
    refine Prog.Single.bind (fun _ _ => trivial) ?_
    intro now
    exact
      Prog.Single.bind (consumeEach_single _ _)
        (fun _ => trivial)
  · exact fun _ _ => trivial

/- A request asks for the time first, and a purge does not. -/
theorem program_ne_purge
    (request : RateLimited)
    (batchSize : ℕ) :
    request.program ≠
      purgeExpiredRateLimitsBatch batchSize := by
  intro hSame
  cases hSame

/-
  How a client that has begun with a request comes to its
  end, unless it crashes:  with a commit that counts each of
  its buckets once, whatever the answer, or since one of the
  counts cannot grow.
-/
def Concludes
    (db : Counters)
    (older : List (Event limiter Counters LimiterReply)) :
    Event limiter Counters LimiterReply → Prop
| .committed pid log before after answer =>
    ∃ buckets retryAfter,
      answer = some (.consumed buckets retryAfter) ∧
      AsksFor pid older log buckets ∧
      Consumed log before after buckets retryAfter
| .aborted pid _ => Overflowed db pid older
| .rolledBack _ => False
| _ => True

theorem LimiterRun.concludes
    (hRun : LimiterRun db clock s)
    {newer older : List (Event limiter Counters LimiterReply)}
    {e : Event limiter Counters LimiterReply}
    {request : RateLimited}
    (hTrace : s.trace = newer ++ e :: older)
    (hBegun : begunAs e.pid older = some request.program) :
    Concludes db older e := by
  have hEvent := hRun.good.audited
  have hEnding :=
    Reachable.all_or_nothing limiterPrograms_single hRun
  rw [hTrace] at hEvent hEnding
  have hOutcome : limiterEvent db older e := hEvent.split.1
  cases e with
  | committed pid log before after answer =>
      match answer, hOutcome with
      | some (.consumed buckets retryAfter), hOutcome =>
          exact
            ⟨buckets, retryAfter, rfl, hOutcome.2, hOutcome.1⟩
      | some (.purged deleted), hOutcome =>
          rcases hOutcome.2 with ⟨batchSize, hPurge⟩
          have hSame :
              begunAs pid older = some request.program :=
            hBegun
          rw [hPurge] at hSame
          exact
            absurd (Option.some.inj hSame).symm
              (program_ne_purge request batchSize)
  | aborted pid e => exact hOutcome
  | rolledBack pid => exact hEnding.split.1
  | _ => trivial

/- One more commit, which finds the row as it was left. -/
theorem admitted_le_commit
    {c : LimiterCommit}
    {older : List LimiterCommit}
    {k : BucketKey}
    {limit : ℕ}
    (hSettled : Settled c)
    (hHead : ∀ c' ∈ older, Deletes k c' → ¬ Consumes k c)
    (hCount :
      older.countP (admits k limit) ≤ limit ∧
        ((∀ c ∈ older, ¬ Deletes k c) →
          older.countP (admits k limit) ≤
            (c.before k).getD 0)) :
    (c :: older).countP (admits k limit) ≤ limit ∧
      ((∀ c' ∈ c :: older, ¬ Deletes k c') →
        (c :: older).countP (admits k limit) ≤
          (c.after k).getD 0) := by
  by_cases hAdmits : admits k limit c = true
  · rw [List.countP_cons_of_pos hAdmits]
    rcases Consumes.of_admits hAdmits with
      ⟨buckets, hAnswer, b, hMem, hKey, hLimit⟩
    have hConsumes : Consumes k c :=
      ⟨buckets, none, hAnswer, b, hMem, hKey⟩
    -- a row that is counted now has not been deleted before
    have hBefore :=
      hCount.2 (fun c' hOld hDeletes =>
        hHead c' hOld hDeletes hConsumes)
    have hAfter := hSettled.counts hConsumes
    have hWithin : nextCount k c.before ≤ limit := by
      unfold Settled at hSettled
      rw [hAnswer] at hSettled
      have hAll := hSettled.verdict.admitted.mp rfl b hMem
      rw [hKey, hLimit] at hAll
      exact hAll
    unfold nextCount at hAfter hWithin
    refine ⟨by omega, fun _ => ?_⟩
    rw [hAfter, Option.getD_some]
    omega
  · rw [List.countP_cons_of_neg hAdmits]
    refine ⟨hCount.1, ?_⟩
    intro hNone
    have hBefore :=
      hCount.2 (fun c' hOld =>
        hNone c' (List.mem_cons_of_mem _ hOld))
    rcases hSettled.cases k with
      hConsumes | hDeletes | hSame
    · rw [hSettled.counts hConsumes, Option.getD_some]
      unfold nextCount
      omega
    · exact absurd hDeletes (hNone c List.mem_cons_self)
    · rw [hSame]
      exact hBefore

/-
  As many requests as the limit allows are admitted, each at
  a count of its own, as long as nobody deletes the row.
-/
theorem admitted_le
    {trace : List (Event limiter Counters LimiterReply)}
    (hLinked : Audited (Event.Follows db) trace)
    (hSettled : ∀ c ∈ commits trace, Settled c)
    (k : BucketKey)
    (limit : ℕ)
    (hOnce :
      (commits trace).Pairwise (fun c c' =>
        Deletes k c' → ¬ Consumes k c)) :
    (commits trace).countP (admits k limit) ≤ limit ∧
      ((∀ c ∈ commits trace, ¬ Deletes k c) →
        (commits trace).countP (admits k limit) ≤
          (latest db trace k).getD 0) := by
  induction trace with
  | nil => exact ⟨Nat.zero_le _, fun _ => Nat.zero_le _⟩
  | cons e older ih =>
      cases e with
      | committed pid log before after answer =>
          have hBefore : before = latest db older := hLinked.1
          rcases List.pairwise_cons.mp hOnce with
            ⟨hHead, hTail⟩
          have hCount :=
            ih hLinked.2
              (fun c hMem =>
                hSettled c (List.mem_cons_of_mem _ hMem))
              hTail
          rw [← hBefore] at hCount
          exact
            admitted_le_commit
              (c := ⟨log, before, after, answer⟩)
              (hSettled _ List.mem_cons_self) hHead hCount
      | _ => exact ih hLinked.2 hSettled hOnce

/-
  In every run in which requests are counted within 23 hours
  of the clock that they have read:  in each window at most
  `limit` of the requests with that limit are admitted.  Each
  request that commits is counted once in all its buckets,
  whether it exceeds a limit or not, and in no other; it is
  admitted just when all of them are within their limits; and
  the wait that is reported otherwise outlasts the window of
  each bucket over its limit.  A purge deletes rows whose
  window is out of reach from then on, and no request that
  commits later counts on such a row.  A request that comes
  to its end has committed these counts, also when it is
  refused, unless it has crashed or found a count that its
  column cannot increase.
-/
theorem rate_limits_hold
    (hRun : LimiterRun db clock s)
    (hPunctual :
      ∀ c ∈ commits s.trace, punctual c.log = true) :
    (∀ k limit,
      (commits s.trace).countP (admits k limit) ≤ limit) ∧
    (∀ c ∈ commits s.trace, Settled c) ∧
    (∀ c ∈ commits s.trace, ∀ k, Deletes k c →
      ∃ clock : ℤ, limiterClock.TakenUnder k c.log clock ∧
        ∀ later (now windowSeconds : ℕ),
          clock ≤ later → later < now + hours 23 →
          0 < windowSeconds → windowSeconds ≤ 3600 →
            windowStartFor now windowSeconds ≠
              k.windowStart) ∧
    (commits s.trace).Pairwise (fun c c' =>
      ∀ k, Deletes k c' → ¬ Consumes k c) ∧
    ∀ newer e older, ∀ request : RateLimited,
      s.trace = newer ++ e :: older →
      begunAs e.pid older = some request.program →
        Concludes db older e := by
  have hSettled := hRun.settled
  have hOnce :
      (commits s.trace).Pairwise (fun c c' =>
        ∀ k, Deletes k c' → ¬ Consumes k c) := by
    have hInOrder :
        (commits s.trace).Pairwise (fun c c' =>
          ∀ k, limiterClock.InOrder k c c') := by
      rw [List.pairwise_iff_getElem]
      intro i j hi hj hLess k
      have hKey :=
        Reachable.samples_in_order limiterClock
          (k := k) rfl hRun
      exact
        List.pairwise_iff_getElem.mp hKey i j hi hj hLess
    refine hInOrder.imp_of_mem ?_
    intro c c' hMem hMem' hOrder k
    exact
      not_consumes_of_deletes (hSettled c hMem)
        (hSettled c' hMem') (hPunctual c hMem) (hOrder k)
  refine
    ⟨?_, hSettled, ?_, hOnce,
      fun _ _ _ _ hTrace hBegun =>
        hRun.concludes hTrace hBegun⟩
  · intro k limit
    have hKey := hOnce.imp (fun hAll => hAll k)
    exact
      (admitted_le hRun.good.linked hSettled k limit hKey).1
  · intro c hMem k hDeletes
    rcases (hSettled c hMem).purges hDeletes with
      ⟨batchSize, rows, clock, deleted, hLog, hKey, hOld⟩
    refine ⟨clock, ⟨[], _, [], hLog, rfl, ?_⟩, ?_⟩
    · rw [List.nil_append, held_singleton]
      exact hKey
    · intro later now windowSeconds hLater hSkew hPositive
        hShort
      exact
        out_of_reach hPositive hShort hOld hLater hSkew

end PigBook.RateLimits

namespace PigBook.RateLimits

open ReadCommitted

instance : DecidableRel limiter.Conflict :=
  inferInstanceAs (DecidableEq BucketKey)

/- Clocks agree, nothing is purged, and time stands still. -/
def limiterSimulator : Simulator limiterWorld where
  respond := fun clock q =>
    match q with
    | .applicationTime => (clock.toNat, clock)
    | .upsert _ => (clock, clock)
    | .purge _ => (([], clock), clock)
  answers := by
    intro clock q
    cases q with
    | applicationTime => exact .applicationTime _
    | upsert b => exact .upsert
    | purge batchSize =>
        exact .purge List.nodup_nil (Nat.zero_le _)
  pass := fun clock => clock
  advance := fun clock => Int.le_refl clock

/- Six registrations from one address, within one hour. -/
def registrations :
    Sys limiterWorld Counters LimiterReply :=
  (Sys.initial (W := limiterWorld) (fun _ => none)
    (hours 1)).exec limiterSimulator [0]
    ((List.replicate 6
        (checkRegisterRateLimit "address")).flatMap
      (fun request =>
        .spawn 0 request.program ::
          List.replicate 4 (.step 0)))

theorem registrations_run :
    LimiterRun (fun _ => none) (hours 1) registrations := by
  unfold LimiterRun registrations
  refine Sys.exec_reachable (fun _ _ => rfl) ?_
  intro m hm
  rcases List.mem_flatMap.mp hm with ⟨request, -, hMove⟩
  exact Move.allowed_of_begun (Or.inl ⟨request, rfl⟩) hMove

/- The only row that they count in. -/
def registrationKey : BucketKey :=
  ⟨"register:ip", "address", hours 1⟩

/-
  Five of them are admitted, and no more could be; the sixth
  is refused, and counted all the same.
-/
theorem rate_limits_hold_registrations :
    (commits registrations.trace).countP
        (admits registrationKey 5) = 5 ∧
      (commits registrations.trace).map
          (fun c => c.after registrationKey) =
        [some 6, some 5, some 4, some 3, some 2, some 1] ∧
      (∀ k limit,
        (commits registrations.trace).countP
          (admits k limit) ≤ limit) ∧
      ∀ newer e older, ∀ request : RateLimited,
        registrations.trace = newer ++ e :: older →
        begunAs e.pid older = some request.program →
          Concludes (fun _ => none) older e := by
  have hPunctual :
      ∀ c ∈ commits registrations.trace,
        punctual c.log = true := by
    decide +kernel
  have hHold := rate_limits_hold registrations_run hPunctual
  refine ⟨?_, ?_, hHold.1, hHold.2.2.2.2⟩
  · decide +kernel
  · decide +kernel

end PigBook.RateLimits
