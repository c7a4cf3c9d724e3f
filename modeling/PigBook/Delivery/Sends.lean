import PigBook.Delivery.Receipts

/-
  How often the adapter is called for one event.

  Each claim of a row pays for one message at most, so that
  between two retries an event is sent eight times at most;
  and it is sent twice with success only if a lease has been
  recovered from the worker that sent under it.

  Key definitions include:
    * `moves`, `claimedTokens`
    * `Recovered`

  Key theorems include:
    * `send_place`
    * `moves_le_attempts`
    * `sends_bounded`
    * `duplicate_send_needs_recovery`
-/

------------------------------------------------------------
-- One Message for a Claim
------------------------------------------------------------

namespace PigBook.Delivery

open ReadCommitted

variable {db : Mailroom} {trace : MailTrace}
variable {lease lease' : OutboxLease} {pid pid' : ℕ}

/- Who has prepared a message has not sent it yet. -/
theorem Prepared.undertaken
    {recipientId : Uuid}
    {message : EmailMessage}
    (hPrepared :
      Prepared pid lease recipientId message trace) :
    Undertaken pid lease trace := by
  rcases hPrepared with
    ⟨newer, log, before, after, older, rfl, hOthers, hTaken, -⟩
  have hCommitted :
      Undertaken pid lease
        ([.committed pid log before after none] ++ older) := by
    apply hTaken.append
    intro act hMem
    cases List.mem_singleton.mp hMem
  refine Undertaken.append ?_ hCommitted
  intro act hMem
  exact absurd rfl (hOthers _ hMem)

theorem MailRun.undertaken
    {newer older : MailTrace}
    {message : EmailMessage}
    {result : SendResult}
    {ks : List MailKey}
    (hRun :
      MailRun db
        (newer ++
          .ran pid ⟨.send lease message, result, ks⟩ ::
            older)) :
    Undertaken pid lease older := by
  rcases hRun.statement.send lease message rfl with
    ⟨recipientId, -, hPrepared⟩
  exact hPrepared.undertaken

/- A claim is not followed by two messages of its client. -/
theorem not_sent_since
    {middle older : MailTrace}
    {message : EmailMessage}
    {result : SendResult}
    {ks : List MailKey}
    (hRun :
      MailRun db
        (middle ++
          .ran pid' ⟨.send lease' message, result, ks⟩ ::
            older))
    (hTaken :
      Undertaken pid lease
        (middle ++
          .ran pid' ⟨.send lease' message, result, ks⟩ ::
            older)) :
    lease.leaseToken ≠ lease'.leaseToken := by
  intro hToken
  rcases hRun.undertaken with
    ⟨newer', log', before', after', older', hSplit', -,
      hClaims'⟩
  rcases hTaken with
    ⟨newer, log, before, after, older'', hSplit, hNone,
      hClaims⟩
  have hSplit'' :
      middle ++
          .ran pid' ⟨.send lease' message, result, ks⟩ ::
            older =
        (middle ++
          .ran pid' ⟨.send lease' message, result, ks⟩ ::
            newer') ++
          .committed pid' log' before' after' none ::
            older' := by
    rw [hSplit', List.append_assoc, List.cons_append]
  have hPlace :=
    claim_place hRun hSplit hSplit'' hClaims hClaims' hToken
  rw [hPlace.1, hPlace.2.2.1] at hNone
  have hQuiet :=
    hNone ⟨.send lease' message, result, ks⟩
      (List.mem_append_right _ List.mem_cons_self)
  cases hQuiet

/- The messages of one token are one. -/
theorem send_place
    (hRun : MailRun db trace)
    {newer newer' older older' : MailTrace}
    {message message' : EmailMessage}
    {result result' : SendResult}
    {ks ks' : List MailKey}
    (hSplit :
      trace =
        newer ++
          .ran pid ⟨.send lease message, result, ks⟩ :: older)
    (hSplit' :
      trace =
        newer' ++
          .ran pid' ⟨.send lease' message', result', ks'⟩ ::
            older')
    (hToken : lease.leaseToken = lease'.leaseToken) :
    newer = newer' ∧ result = result' := by
  rcases split_cases (hSplit.symm.trans hSplit') with
    ⟨hNewer, hEvent, -⟩ | ⟨zs, -, hRest⟩ | ⟨zs, -, hRest⟩
  · refine ⟨hNewer, ?_⟩
    cases hEvent
    rfl
  · rw [hSplit, hRest] at hRun
    have hTaken := hRun.undertaken
    have hHere :
        MailRun db
          ([_] ++
            (zs ++
              .ran pid'
                ⟨.send lease' message', result', ks'⟩ ::
                  older')) :=
      hRun.suffix
    exact absurd hToken (not_sent_since hHere.suffix hTaken)
  · rw [hSplit', hRest] at hRun
    have hTaken := hRun.undertaken
    have hHere :
        MailRun db
          ([_] ++
            (zs ++
              .ran pid ⟨.send lease message, result, ks⟩ ::
                older)) :=
      hRun.suffix
    exact
      absurd hToken.symm (not_sent_since hHere.suffix hTaken)

theorem answered_unique
    {result result' : SendResult}
    (hRun : MailRun db trace)
    (hAnswered : Answered pid lease result trace)
    (hAnswered' : Answered pid' lease' result' trace)
    (hToken : lease.leaseToken = lease'.leaseToken) :
    result = result' := by
  rcases hAnswered with ⟨newer, message, ks, older, hSplit⟩
  rcases hAnswered' with
    ⟨newer', message', ks', older', hSplit'⟩
  exact (send_place hRun hSplit hSplit' hToken).2

end PigBook.Delivery

------------------------------------------------------------
-- Counting
------------------------------------------------------------

namespace PigBook.Delivery

open ReadCommitted

def statusOf (id : Uuid) (s : Mailroom) : Option OutboxStatus :=
  (s.row id).map (·.status)

/- The commits that take the event from one status to another. -/
def moves
    (id : Uuid)
    (a b : OutboxStatus)
    (trace : MailTrace) : List (Commit mail Mailroom MailReply) :=
  (commits trace).filter (fun c =>
    statusOf id c.before = some a ∧
      statusOf id c.after = some b)

/- The tokens that the event was claimed with. -/
def claimedTokens
    (id : Uuid)
    (trace : MailTrace) : List Uuid :=
  (moves id .pending .processing trace).filterMap (fun c =>
    (c.after.row id).bind (·.leaseToken))

theorem row_eq_some_iff
    {s : Mailroom}
    {id : Uuid}
    {r : OutboxRow}
    (hValid : MailValid s) :
    s.row id = some r ↔ r ∈ s.outbox ∧ r.id = id := by
  unfold Mailroom.row
  constructor
  · intro hFind
    have hId := List.find?_some hFind
    exact
      ⟨List.mem_of_find?_eq_some hFind, of_decide_eq_true hId⟩
  · rintro ⟨hRow, hId⟩
    cases hFind : s.outbox.find? (fun r => r.id = id) with
    | none =>
        have hNone := List.find?_eq_none.mp hFind r hRow
        exact absurd (decide_eq_true hId) hNone
    | some r' =>
        have hRow' := List.mem_of_find?_eq_some hFind
        have hFound := List.find?_some hFind
        have hId' : r'.id = id := of_decide_eq_true hFound
        rw [hValid.ids.eq_of_key hRow' hRow (hId'.trans hId.symm)]

variable {db : Mailroom} {trace : MailTrace} {id : Uuid}

theorem sentTokens_nodup
    (hRun : MailRun db trace) :
    (sentTokens id trace).Nodup := by
  induction trace with
  | nil => exact List.nodup_nil
  | cons e older ih =>
      have hHere : MailRun db ([e] ++ older) := hRun
      have hOlder := ih hHere.suffix
      unfold sentTokens
      rw [List.filterMap_cons]
      split
      · exact hOlder
      · rename_i token hToken
        apply List.nodup_cons.mpr
        refine ⟨?_, hOlder⟩
        intro hMem
        unfold sentToken at hToken
        split at hToken
        · rename_i pid lease message result ks
          by_cases hId : lease.id = id
          · rw [if_pos hId] at hToken
            rcases mem_sentTokens hMem with
              ⟨newer, pid', lease', message', result', ks',
                older', rfl, -, hToken'⟩
            have hPlace :=
              send_place hRun (List.nil_append _).symm
                (List.cons_append).symm
                ((Option.some.inj hToken).trans hToken'.symm)
            cases hPlace.1
          · rw [if_neg hId] at hToken
            cases hToken
        · cases hToken

/- A claim takes the row from pending to processing. -/
theorem claimed_token_mem
    {pid : ℕ}
    {lease : OutboxLease}
    (hRun : MailRun db trace)
    (hClaimed : ClaimedBy pid lease trace) :
    lease.leaseToken ∈ claimedTokens lease.id trace := by
  rcases hClaimed with
    ⟨newer, log, before, after, older, hSplit, hClaims⟩
  rcases hClaims.row with ⟨now, hStep, r, hRow, hAffects, hAfter⟩
  rw [hSplit] at hRun
  have hHere : MailRun db ([_] ++ older) := hRun.suffix
  have hBefore : MailValid before := by
    rw [hRun.transaction.1]
    exact hHere.suffix.valid
  have hId : r.id = lease.id :=
    congrArg OutboxLease.id hAffects.2.1
  have hRowBefore :=
    (row_eq_some_iff hBefore).mpr ⟨hRow, hId⟩
  have hRowAfter :=
    (row_eq_some_iff (hStep.valid hBefore)).mpr
      ⟨hAfter, show _ = lease.id from hId⟩
  apply List.mem_filterMap.mpr
  refine ⟨⟨log, before, after, none⟩, ?_, ?_⟩
  · apply List.mem_filter.mpr
    constructor
    · rw [hSplit]
      exact mem_commits_of_split
    · apply decide_eq_true
      unfold statusOf
      dsimp only
      rw [hRowBefore, hRowAfter]
      exact ⟨congrArg some hAffects.1, rfl⟩
  · dsimp only
    rw [hRowAfter]
    rfl

theorem sentTokens_claimed
    (hRun : MailRun db trace) :
    ∀ token ∈ sentTokens id trace,
      token ∈ claimedTokens id trace := by
  intro token hMem
  rcases mem_sentTokens hMem with
    ⟨newer, pid, lease, message, result, ks, older, rfl, hId,
      hToken⟩
  have hClaimed :
      ClaimedBy pid lease
        ((newer ++ [_]) ++ older) :=
    hRun.undertaken.claimed.append
      (newer ++ [.ran pid ⟨.send lease message, result, ks⟩])
  rw [List.append_assoc, List.singleton_append] at hClaimed
  rw [← hId, ← hToken]
  exact claimed_token_mem hRun hClaimed

/- The attempts of the event, if there is one. -/
def attemptsOf (id : Uuid) (s : Mailroom) : ℕ :=
  ((s.row id).map (·.attempts)).getD 0

/- A claim raises the attempts, and a retry gives eight back. -/
theorem RowStep.paid
    {charge : Charge}
    {ks : List MailKey}
    {r r' : OutboxRow}
    (hStep : RowStep charge ks r r')
    (hCounted : r.Counted) :
    (if r.status = .pending ∧ r'.status = .processing then 1
      else 0) + r.attempts ≤
    (if r.status = .dead ∧ r'.status = .pending then 8
      else 0) + r'.attempts := by
  rcases hStep with rfl | ⟨-, hAffects, rfl⟩
  · rw [if_neg, if_neg]
    · rintro ⟨hDead, hPending⟩
      rw [hDead] at hPending
      cases hPending
    · rintro ⟨hPending, hProcessing⟩
      rw [hPending] at hProcessing
      cases hProcessing
  have hProcessed :
      r.status = .processing →
        r.attempts ≤ (charge.effect r).attempts →
        (if r.status = .pending ∧
            (charge.effect r).status = .processing then 1
          else 0) + r.attempts ≤
        (if r.status = .dead ∧
            (charge.effect r).status = .pending then 8
          else 0) + (charge.effect r).attempts := by
    intro hStatus hSame
    rw [if_neg, if_neg]
    · omega
    · rintro ⟨hDead, -⟩
      rw [hStatus] at hDead
      cases hDead
    · rintro ⟨hPending, -⟩
      rw [hStatus] at hPending
      cases hPending
  cases charge with
  | nothing => cases hAffects
  | append e => cases hAffects
  | recovery now =>
      apply hProcessed (OutboxRow.expired_iff.mp hAffects).1
      unfold Charge.effect
      dsimp only
      split
      · exact le_rfl
      · exact le_rfl
  | renewal lease now =>
      apply hProcessed (OutboxLease.holds_iff.mp hAffects).2.2
      exact le_rfl
  | acknowledgment lease now =>
      apply hProcessed (OutboxLease.holds_iff.mp hAffects).2.2
      exact le_rfl
  | failure lease category now =>
      apply hProcessed (OutboxLease.holds_iff.mp hAffects).2.2
      exact le_rfl
  | claim lease now =>
      have hAttempts : r.attempts + 1 = lease.attempts :=
        congrArg OutboxLease.attempts hAffects.2.1
      change _ ≤ _ + lease.attempts
      split
      · omega
      · omega
  | retry id now =>
      have hDead := hAffects.2
      have hEight : r.attempts = 8 := by
        unfold OutboxRow.Counted at hCounted
        rw [hDead] at hCounted
        exact hCounted
      rw [if_neg, if_pos ⟨hDead, rfl⟩]
      · omega
      · rintro ⟨hPending, -⟩
        rw [hDead] at hPending
        cases hPending

/- The event in the store before a step and after it. -/
theorem OutboxStep.row
    {charge : Charge}
    {ks : List MailKey}
    {before after : Mailroom}
    {r : OutboxRow}
    (hBefore : MailValid before)
    (hAfter : MailValid after)
    (hStep : OutboxStep charge ks before.outbox after.outbox)
    (hRow : before.row id = some r) :
    ∃ r', after.row id = some r' ∧ RowStep charge ks r r' := by
  rcases (row_eq_some_iff hBefore).mp hRow with ⟨hMem, hId⟩
  rcases hStep.later hMem with ⟨r', hMem', hMove⟩
  refine ⟨r', (row_eq_some_iff hAfter).mpr ⟨hMem', ?_⟩, hMove⟩
  exact hMove.same.id.trans hId

theorem moves_committed
    {a b : OutboxStatus}
    {pid : ℕ}
    {log : List (Action mail)}
    {before after : Mailroom}
    {answer : Option MailReply}
    {older : MailTrace} :
    (moves id a b
      (.committed pid log before after answer ::
        older)).length =
    (if statusOf id before = some a ∧
        statusOf id after = some b then 1 else 0) +
      (moves id a b older).length := by
  unfold moves
  rw [commits_committed, List.filter_cons]
  by_cases hMove :
      statusOf id before = some a ∧ statusOf id after = some b
  · rw [if_pos (decide_eq_true hMove), if_pos hMove,
      List.length_cons, Nat.add_comm]
  · rw [if_neg (by simpa using hMove), if_neg hMove,
      Nat.zero_add]

/- Claims are paid for by retries and by attempts. -/
theorem moves_le_attempts
    (hCounted : ∀ r ∈ db.outbox, r.Counted)
    (hRun : MailRun db trace) :
    (moves id .pending .processing trace).length ≤
      8 * (moves id .dead .pending trace).length +
        attemptsOf id (latest db trace) := by
  refine
    MailRun.induction
      (P := fun older t =>
        (moves id .pending .processing older).length ≤
          8 * (moves id .dead .pending older).length +
            attemptsOf id t) (Nat.zero_le _) ?_ ?_ hRun
  · intro e older t hNone hBefore
    have hSame : ∀ a b, moves id a b (e :: older) =
        moves id a b older := by
      intro a b
      unfold moves commits
      rw [List.filterMap_cons_none
        (Option.eq_none_iff_forall_ne_some.mpr hNone)]
    rw [hSame, hSame]
    exact hBefore
  · intro pid log before after answer older charge hHere hLink
      hTransaction hBefore
    have hOlder : MailRun db ([_] ++ older) := hHere
    have hValid : MailValid before := by
      rw [hLink]
      exact hOlder.suffix.valid
    rw [moves_committed, moves_committed]
    cases hRow : before.row id with
    | none =>
        have hAbsent : statusOf id before = none := by
          unfold statusOf
          rw [hRow]
          rfl
        have hZero : attemptsOf id before = 0 := by
          unfold attemptsOf
          rw [hRow]
          rfl
        rw [if_neg (by rw [hAbsent]; simp),
          if_neg (by rw [hAbsent]; simp)]
        omega
    | some r =>
        rcases hTransaction.step.outbox.row hValid
            (hTransaction.step.valid hValid) hRow with
          ⟨r', hRow', hMove⟩
        have hOld :=
          (row_eq_some_iff hValid).mp hRow
        have hRowCounted : r.Counted := by
          apply counted_latest hCounted hOlder.suffix
          rw [← hLink]
          exact hOld.1
        have hPaid := hMove.paid hRowCounted
        have hStatus : statusOf id before = some r.status := by
          unfold statusOf
          rw [hRow]
          rfl
        have hStatus' : statusOf id after = some r'.status := by
          unfold statusOf
          rw [hRow']
          rfl
        have hAttempts : attemptsOf id before = r.attempts := by
          unfold attemptsOf
          rw [hRow]
          rfl
        have hAttempts' : attemptsOf id after = r'.attempts := by
          unfold attemptsOf
          rw [hRow']
          rfl
        rw [hStatus, hStatus', hAttempts']
        rw [hAttempts] at hBefore
        simp only [Option.some.injEq]
        split_ifs at hPaid ⊢ <;> omega

theorem attemptsOf_le
    (hCounted : ∀ r ∈ db.outbox, r.Counted)
    (hRun : MailRun db trace) :
    attemptsOf id (latest db trace) ≤ 8 := by
  unfold attemptsOf
  cases hRow : (latest db trace).row id with
  | none => exact Nat.zero_le 8
  | some r =>
      have hMem := ((row_eq_some_iff hRun.valid).mp hRow).1
      have hRowCounted := counted_latest hCounted hRun r hMem
      change r.attempts ≤ 8
      unfold OutboxRow.Counted at hRowCounted
      split at hRowCounted <;> omega

/-
  The messages of an event go out under tokens that are all
  different, and with each of which the event was claimed.
  There are at most eight of them, and eight more for each
  time that the dead event was retried.
-/
theorem sends_bounded
    {W : World mail}
    {db : Mailroom}
    {env : W.Carrier}
    {s : Sys W Mailroom MailReply}
    (hValid : MailValid db)
    (hCounted : ∀ r ∈ db.outbox, r.Counted)
    (hReach : Reachable mailPrograms (Sys.initial db env) s)
    (hDistinct : Distinct db s.trace)
    (id : Uuid) :
    (sentTokens id s.trace).Nodup ∧
    (∀ token ∈ sentTokens id s.trace,
      token ∈ claimedTokens id s.trace) ∧
    (sentTokens id s.trace).length ≤
      8 * ((moves id .dead .pending s.trace).length + 1) := by
  have hRun := MailRun.of_reachable hValid hReach hDistinct
  have hNodup : (sentTokens id s.trace).Nodup :=
    sentTokens_nodup hRun
  have hClaimed :
      ∀ token ∈ sentTokens id s.trace,
        token ∈ claimedTokens id s.trace :=
    sentTokens_claimed hRun
  refine ⟨hNodup, hClaimed, ?_⟩
  calc (sentTokens id s.trace).length
      ≤ (claimedTokens id s.trace).length :=
        (hNodup.subperm hClaimed).length_le
    _ ≤ (moves id .pending .processing s.trace).length :=
        List.length_filterMap_le _ _
    _ ≤ 8 * (moves id .dead .pending s.trace).length +
          attemptsOf id (latest db s.trace) :=
        moves_le_attempts hCounted hRun
    _ ≤ 8 * ((moves id .dead .pending s.trace).length + 1) := by
        have hAttempts : attemptsOf id (latest db s.trace) ≤ 8 :=
          attemptsOf_le hCounted hRun
        omega

/- Two claims of the event paid for its two messages. -/
theorem sends_bounded_slow :
    (sentTokens 1 slow.trace).length = 2 ∧
      (sentTokens 1 slow.trace).length ≤
        8 * ((moves 1 .dead .pending slow.trace).length + 1) :=
  ⟨by decide +kernel,
    (sends_bounded oneEvent_valid oneEvent_counted
      slow_reachable slow_distinct 1).2.2⟩

end PigBook.Delivery

------------------------------------------------------------
-- Duplicates
------------------------------------------------------------

namespace PigBook.Delivery

open ReadCommitted

variable {db : Mailroom} {trace newer older : MailTrace}
variable {lease lease' : OutboxLease}

/-
  A commit without the lease has ended it: one that asked for
  the time, found the row processed under the lease when that
  had run out, and released or buried it.
-/
def Recovered
    (lease : OutboxLease)
    (trace : MailTrace) : Prop :=
  ∃ c ∈ commits trace, ∃ now r ends,
    AskedNow now c.log ∧
    r ∈ c.before.outbox ∧ lease.holds r = true ∧
    r.leaseUntil = some ends ∧ ends ≤ now ∧
    (if 8 ≤ r.attempts then buriedRow r
      else releasedRow now r) ∈ c.after.outbox ∧
    (∀ r ∈ c.after.outbox, lease.holds r = false) ∧
    ¬ FencedBy lease c.log

/- The event is still under the lease, or is delivered. -/
def Kept (lease : OutboxLease) (s : Mailroom) : Prop :=
  ∃ r ∈ s.outbox, r.id = lease.id ∧
    (lease.holds r = true ∨ r.status = .delivered)

/- Each call of the adapter for the lease has succeeded. -/
def Succeeded
    (lease : OutboxLease)
    (trace : MailTrace) : Prop :=
  ∀ pid result, Answered pid lease result trace →
    ∃ providerId, result = .sent providerId

theorem Recovered.append
    (newer : MailTrace)
    (hRecovered : Recovered lease older) :
    Recovered lease (newer ++ older) := by
  rcases hRecovered with ⟨c, hc, hEnded⟩
  refine ⟨c, ?_, hEnded⟩
  rw [commits_append]
  exact List.mem_append_right _ hc

theorem Succeeded.suffix
    (hSucceeded : Succeeded lease (newer ++ older)) :
    Succeeded lease older := by
  intro pid result hAnswered
  exact hSucceeded pid result (hAnswered.append newer)

/-
  A lease that is not recovered ends with the delivery, when
  its message was sent.
-/
theorem Kept.committed
    {pid pid' : ℕ}
    {log : List (Action mail)}
    {before after : Mailroom}
    {answer : Option MailReply}
    (hRun :
      MailRun db
        (.committed pid log before after answer :: older))
    (hClaimed : ClaimedBy pid' lease older)
    (hSucceeded : Succeeded lease older)
    (hNot :
      ¬ Recovered lease
        (.committed pid log before after answer :: older))
    (hKept : Kept lease before) :
    Kept lease after := by
  have hHere :
      MailRun db
        ([] ++
          .committed pid log before after answer :: older) :=
    hRun
  have hOlder : MailRun db ([_] ++ older) := hRun
  rcases hHere.transaction with ⟨hLink, charge, hTransaction⟩
  rcases hKept with ⟨r, hRow, hId, hState⟩
  rcases hTransaction.step.outbox.later hRow with
    ⟨r', hRow', hMove⟩
  have hId' : r'.id = lease.id := hMove.same.id.trans hId
  have hAfter : MailValid after := hRun.valid
  rcases hState with hHolds | hDelivered
  · rcases hMove with rfl | ⟨-, hAffects, rfl⟩
    · exact ⟨r', hRow', hId', Or.inl hHolds⟩
    have hFields := OutboxLease.holds_iff.mp hHolds
    cases charge with
    | nothing => cases hAffects
    | append e => cases hAffects
    | claim lease₂ now =>
        have hStatus := hAffects.1
        rw [hFields.2.2] at hStatus
        cases hStatus
    | retry id now =>
        have hStatus := hAffects.2
        rw [hFields.2.2] at hStatus
        cases hStatus
    | renewal lease₂ now =>
        refine ⟨_, hRow', hId', Or.inl ?_⟩
        apply OutboxLease.holds_iff.mpr
        exact ⟨hId', hFields.2.1, hFields.2.2⟩
    | acknowledgment lease₂ now =>
        exact ⟨_, hRow', hId', Or.inr rfl⟩
    | failure lease₂ category now =>
        -- the client has seen the message of the lease fail
        rcases hTransaction.warranted with
          ⟨-, hClaimed₂, -, result, hAnswered, hFailed⟩
        have hFields₂ := OutboxLease.holds_iff.mp hAffects
        have hToken :=
          Option.some.inj
            (hFields₂.2.1.symm.trans hFields.2.1)
        have hSame :=
          (claimed_unique hOlder.suffix hClaimed₂ hClaimed
            hToken).2
        rw [hSame] at hAnswered
        rcases hSucceeded pid result hAnswered with
          ⟨providerId, hSent⟩
        exact absurd hSent (hFailed providerId)
    | recovery now =>
        exfalso
        apply hNot
        rcases ends_of_any (OutboxRow.expired_iff.mp hAffects).2
          with ⟨ends, hUntil, hStale⟩
        refine
          ⟨⟨log, before, after, answer⟩, List.mem_cons_self,
            now, r, ends, hTransaction.warranted, hRow, hHolds,
            hUntil, hStale, hRow', ?_, ?_⟩
        · intro r₂ hRow₂
          rw [Bool.eq_false_iff]
          intro hHolds₂
          have hFields₂ := OutboxLease.holds_iff.mp hHolds₂
          have hSame :=
            hAfter.ids.eq_of_key hRow₂ hRow'
              (hFields₂.1.trans hId'.symm)
          have hToken := hFields₂.2.1
          rw [hSame] at hToken
          unfold Charge.effect at hToken
          dsimp only at hToken
          split at hToken
          · cases hToken
          · cases hToken
        · intro hFenced
          exact hTransaction.fenced lease hFenced
  · rw [hMove.delivered hDelivered] at hRow'
    exact ⟨r, hRow', hId, Or.inr hDelivered⟩

theorem Kept.append
    {pid : ℕ}
    (hRun : MailRun db (newer ++ older))
    (hClaimed : ClaimedBy pid lease older)
    (hSucceeded : Succeeded lease (newer ++ older))
    (hNot : ¬ Recovered lease (newer ++ older))
    (hKept : Kept lease (latest db older)) :
    Kept lease (latest db (newer ++ older)) := by
  induction newer with
  | nil => exact hKept
  | cons e newer ih =>
      have hHere : MailRun db ([e] ++ (newer ++ older)) := hRun
      have hRest :
          Succeeded lease ([e] ++ (newer ++ older)) :=
        hSucceeded
      have hBefore :=
        ih hHere.suffix hRest.suffix
          (fun hOld => hNot (hOld.append [e]))
      cases e with
      | committed pid' log before after answer =>
          have hSelf :
              MailRun db
                ([] ++
                  .committed pid' log before after answer ::
                    (newer ++ older)) :=
            hRun
          rw [← hSelf.transaction.1] at hBefore
          exact
            Kept.committed hRun (hClaimed.append newer)
              hRest.suffix hNot hBefore
      | _ => exact hBefore

/- The row that a claim finds pending is then under it. -/
theorem Claims.kept
    {log : List (Action mail)}
    {before after : Mailroom}
    (hClaims : Claims lease log before after) :
    Kept lease after := by
  rcases hClaims.row with ⟨now, -, r, -, hAffects, hAfter⟩
  have hId : r.id = lease.id :=
    congrArg OutboxLease.id hAffects.2.1
  refine ⟨_, hAfter, hId, Or.inl ?_⟩
  apply OutboxLease.holds_iff.mpr
  exact ⟨hId, rfl, rfl⟩

theorem Claims.not_kept
    {log : List (Action mail)}
    {before after : Mailroom}
    (hValid : MailValid before)
    (hClaims : Claims lease log before after)
    (hId : lease'.id = lease.id) :
    ¬ Kept lease' before := by
  intro hKept
  rcases hClaims.row with ⟨now, -, r, hRow, hAffects, -⟩
  rcases hKept with ⟨r', hRow', hId', hState⟩
  have hRowId : r.id = lease.id :=
    congrArg OutboxLease.id hAffects.2.1
  have hSame :=
    hValid.ids.eq_of_key hRow' hRow
      ((hId'.trans hId).trans hRowId.symm)
  rw [hSame] at hState
  rcases hState with hHolds | hDelivered
  · have hStatus := (OutboxLease.holds_iff.mp hHolds).2.2
    rw [hAffects.1] at hStatus
    cases hStatus
  · rw [hAffects.1] at hDelivered
    cases hDelivered

/- One commit claims an event once. -/
theorem Claims.same_token
    {log log' : List (Action mail)}
    {before before' after : Mailroom}
    (hValid : MailValid after)
    (hClaims : Claims lease log before after)
    (hClaims' : Claims lease' log' before' after)
    (hId : lease.id = lease'.id) :
    lease.leaseToken = lease'.leaseToken := by
  rcases hClaims.row with ⟨now, -, r, -, hAffects, hAfter⟩
  rcases hClaims'.row with
    ⟨now', -, r', -, hAffects', hAfter'⟩
  have hRowId : r.id = lease.id :=
    congrArg OutboxLease.id hAffects.2.1
  have hRowId' : r'.id = lease'.id :=
    congrArg OutboxLease.id hAffects'.2.1
  have hSame :=
    hValid.ids.eq_of_key hAfter hAfter'
      ((hRowId.trans hId).trans hRowId'.symm)
  exact Option.some.inj (congrArg OutboxRow.leaseToken hSame)

/-
  While a lease is neither recovered nor given up, its event
  is not claimed again.
-/
theorem claimed_again
    {middle : MailTrace}
    {pid pid' : ℕ}
    {log log' : List (Action mail)}
    {before before' after after' : Mailroom}
    (hRun : MailRun db trace)
    (hSplit :
      trace =
        newer ++
          .committed pid log before after none ::
            (middle ++
              .committed pid' log' before' after' none ::
                older))
    (hClaims : Claims lease log before after)
    (hClaims' : Claims lease' log' before' after')
    (hId : lease'.id = lease.id)
    (hSucceeded : Succeeded lease' trace) :
    Recovered lease' trace := by
  by_contra hNot
  rw [hSplit] at hRun hSucceeded hNot
  have hLater :
      MailRun db
        ([_] ++
          (middle ++
            .committed pid' log' before' after' none ::
              older)) :=
    hRun.suffix
  have hValid : MailValid before := by
    rw [hRun.transaction.1]
    exact hLater.suffix.valid
  have hClaimed :
      ClaimedBy pid' lease'
        (.committed pid' log' before' after' none :: older) :=
    ⟨[], log', before', after', older, rfl, hClaims'⟩
  have hTail :
      Succeeded lease'
        ([_] ++
          (middle ++
            .committed pid' log' before' after' none ::
              older)) :=
    hSucceeded.suffix
  apply hClaims.not_kept hValid hId
  rw [hRun.transaction.1]
  apply Kept.append hLater.suffix hClaimed hTail.suffix _
    hClaims'.kept
  intro hRecovered
  apply hNot
  apply Recovered.append
  exact
    hRecovered.append [.committed pid log before after none]

/-
  When the adapter has taken two messages of one event, one of
  the two leases had run out and was ended by a recovery, while
  the event was still processed under it.
-/
theorem duplicate_send_needs_recovery
    {W : World mail}
    {db : Mailroom}
    {env : W.Carrier}
    {s : Sys W Mailroom MailReply}
    {newer middle older : MailTrace}
    {pid pid' : ℕ}
    {lease lease' : OutboxLease}
    {message message' : EmailMessage}
    {providerId providerId' : String}
    {ks ks' : List MailKey}
    (hValid : MailValid db)
    (hReach : Reachable mailPrograms (Sys.initial db env) s)
    (hDistinct : Distinct db s.trace)
    (hTrace :
      s.trace =
        newer ++
          .ran pid ⟨.send lease message, .sent providerId, ks⟩ ::
            (middle ++
              .ran pid'
                ⟨.send lease' message', .sent providerId',
                  ks'⟩ :: older))
    (hId : lease.id = lease'.id) :
    lease.leaseToken ≠ lease'.leaseToken ∧
    (Recovered lease s.trace ∨ Recovered lease' s.trace) := by
  have hRun := MailRun.of_reachable hValid hReach hDistinct
  have hTrace' :
      s.trace =
        (newer ++
          .ran pid ⟨.send lease message, .sent providerId, ks⟩ ::
            middle) ++
          .ran pid'
            ⟨.send lease' message', .sent providerId', ks'⟩ ::
              older := by
    rw [hTrace, List.append_assoc, List.cons_append]
  have hToken : lease.leaseToken ≠ lease'.leaseToken := by
    intro hSame
    have hPlace := (send_place hRun hTrace hTrace' hSame).1
    have hLength := congrArg List.length hPlace
    rw [List.length_append, List.length_cons] at hLength
    omega
  refine ⟨hToken, ?_⟩
  have hSucceeded : Succeeded lease s.trace := by
    intro p result hAnswered
    have hSent :
        Answered pid lease (.sent providerId) s.trace :=
      ⟨newer, message, ks, _, hTrace⟩
    exact
      ⟨providerId, answered_unique hRun hAnswered hSent rfl⟩
  have hSucceeded' : Succeeded lease' s.trace := by
    intro p result hAnswered
    have hSent :
        Answered pid' lease' (.sent providerId') s.trace :=
      ⟨_, message', ks', older, hTrace'⟩
    exact
      ⟨providerId', answered_unique hRun hAnswered hSent rfl⟩
  have hClaimed : ClaimedBy pid lease s.trace := by
    rw [hTrace] at hRun ⊢
    exact (hRun.undertaken.claimed.append [_]).append newer
  have hClaimed' : ClaimedBy pid' lease' s.trace := by
    rw [hTrace'] at hRun ⊢
    exact (hRun.undertaken.claimed.append [_]).append _
  rcases hClaimed with
    ⟨n, log, before, after, o, hSplit, hClaims⟩
  rcases hClaimed' with
    ⟨n', log', before', after', o', hSplit', hClaims'⟩
  rcases split_cases (hSplit.symm.trans hSplit') with
    ⟨-, hEvent, -⟩ | ⟨zs, -, hRest⟩ | ⟨zs, -, hRest⟩
  · exfalso
    injection hEvent with hPid hLog hBefore hAfter
    rw [← hAfter] at hClaims'
    have hHere :
        MailRun db (.committed pid log before after none :: o) := by
      rw [hSplit] at hRun
      exact hRun.suffix
    have hStore : MailValid after := hHere.valid
    exact hToken (hClaims.same_token hStore hClaims' hId)
  · rw [hRest] at hSplit
    exact
      Or.inr
        (claimed_again hRun hSplit hClaims hClaims' hId.symm
          hSucceeded')
  · rw [hRest] at hSplit'
    exact
      Or.inl
        (claimed_again hRun hSplit' hClaims' hClaims hId
          hSucceeded)

/- The adapter took each message of the history. -/
def takesAll (trace : MailTrace) : Bool :=
  trace.all (fun e =>
    match e with
    | .ran _ ⟨.send _ _, .sent _, _⟩ => true
    | .ran _ ⟨.send _ _, _, _⟩ => false
    | _ => true)

theorem sent_of_takesAll
    {pid : ℕ}
    {message : EmailMessage}
    {result : SendResult}
    {ks : List MailKey}
    (hTakes :
      takesAll
        (newer ++
          .ran pid ⟨.send lease message, result, ks⟩ ::
            older) = true) :
    ∃ providerId, result = .sent providerId := by
  have hHere :=
    List.all_eq_true.mp hTakes
      (.ran pid ⟨.send lease message, result, ks⟩)
      (List.mem_append_right _ List.mem_cons_self)
  cases result with
  | sent providerId => exact ⟨providerId, rfl⟩
  | _ => cases hHere

/- The lease of one of the two workers was recovered. -/
theorem duplicate_send_needs_recovery_slow :
    ∃ lease, Recovered lease slow.trace := by
  have hFirst : 10 ∈ sentTokens 1 slow.trace := by
    decide +kernel
  have hSecond : 12 ∈ sentTokens 1 slow.trace := by
    decide +kernel
  have hTakes : takesAll slow.trace = true := by
    decide +kernel
  rcases mem_sentTokens hFirst with
    ⟨newer, pid, lease, message, result, ks, older, hSplit, hId,
      hToken⟩
  rcases mem_sentTokens hSecond with
    ⟨newer', pid', lease', message', result', ks', older',
      hSplit', hId', hToken'⟩
  have hTakesFirst := hTakes
  rw [hSplit] at hTakesFirst
  rcases sent_of_takesAll hTakesFirst with ⟨providerId, rfl⟩
  have hTakesSecond := hTakes
  rw [hSplit'] at hTakesSecond
  rcases sent_of_takesAll hTakesSecond with
    ⟨providerId', rfl⟩
  have hSame : lease.id = lease'.id := hId.trans hId'.symm
  rcases split_cases (hSplit.symm.trans hSplit') with
    ⟨-, hEvent, -⟩ | ⟨zs, -, hRest⟩ | ⟨zs, -, hRest⟩
  · injection hEvent with hPid hAct
    injection hAct with hQuery
    injection hQuery with hLease
    rw [hLease, hToken'] at hToken
    cases hToken
  · rw [hRest] at hSplit
    rcases
        (duplicate_send_needs_recovery oneEvent_valid
          slow_reachable slow_distinct hSplit hSame).2 with
      hLost | hLost
    · exact ⟨_, hLost⟩
    · exact ⟨_, hLost⟩
  · rw [hRest] at hSplit'
    rcases
        (duplicate_send_needs_recovery oneEvent_valid
          slow_reachable slow_distinct hSplit' hSame.symm).2 with
      hLost | hLost
    · exact ⟨_, hLost⟩
    · exact ⟨_, hLost⟩

end PigBook.Delivery
