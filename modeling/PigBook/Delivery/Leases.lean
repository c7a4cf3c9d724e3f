import PigBook.Delivery.Handlers
import PigBook.ReadCommitted.Schedule

/-
  Leases over whole runs of the outbox.

  Key definitions include:
    * `MailRun`
    * `HeldBy`, `Transition`, `RowMove`
    * `OutboxRow.Counted`
    * `slow`
    * `Superseded`

  Key theorems include:
    * `MailRun.of_reachable`
    * `lease_of_row`
    * `outbox_lease_machine`
    * `superseded_lease_inert`
-/

------------------------------------------------------------
-- Runs
------------------------------------------------------------

namespace PigBook.Delivery

open ReadCommitted

/-
  The identifiers that the run has drawn are all different,
  and no row had one of them as its token before.
-/
structure Distinct
    (db : Mailroom)
    (trace : MailTrace) : Prop where
  once : (picks drawn trace).Nodup
  fresh :
    ∀ r ∈ db.outbox, ∀ token, r.leaseToken = some token →
      token ∉ picks drawn trace

/- What the history of a run is like. -/
structure MailRun
    (db : Mailroom)
    (trace : MailTrace) : Prop where
  start : MailValid db
  linked : Audited (Event.Follows db) trace
  audited : Audited (mailEvent db) trace
  apart :
    (commits trace).Pairwise (fun x x' =>
      ∀ v ∈ x.log.filterMap drawn,
        v ∉ x'.log.filterMap drawn)
  fresh :
    ∀ r ∈ db.outbox, ∀ token, r.leaseToken = some token →
      ∀ c ∈ commits trace, token ∉ c.log.filterMap drawn

theorem MailRun.of_reachable
    {W : World mail}
    {db : Mailroom}
    {env : W.Carrier}
    {s : Sys W Mailroom MailReply}
    (hValid : MailValid db)
    (hReach : Reachable mailPrograms (Sys.initial db env) s)
    (hDistinct : Distinct db s.trace) :
    MailRun db s.trace := by
  have hGood := mail_good hValid hReach
  exact {
    start := hValid
    linked := hGood.linked
    audited := hGood.audited
    apart := hReach.commits_apart hDistinct.once
    fresh := by
      intro r hRow token hToken c hc hDrawn
      have hOwned := hReach.owned hDistinct.once
      exact
        hDistinct.fresh r hRow token hToken
          (hOwned.committed c hc token hDrawn)
  }

theorem commits_append
    (newer older : MailTrace) :
    commits (newer ++ older) = commits newer ++ commits older :=
  List.filterMap_append

/- The history of a run is that of a run at any time. -/
theorem MailRun.suffix
    {db : Mailroom}
    {newer older : MailTrace}
    (hRun : MailRun db (newer ++ older)) :
    MailRun db older where
  start := hRun.start
  linked := hRun.linked.of_suffix ⟨newer, rfl⟩
  audited := hRun.audited.of_suffix ⟨newer, rfl⟩
  apart := by
    have hApart := hRun.apart
    rw [commits_append] at hApart
    exact (List.pairwise_append.mp hApart).2.1
  fresh := by
    intro r hRow token hToken c hc
    apply hRun.fresh r hRow token hToken c
    rw [commits_append]
    exact List.mem_append_right _ hc

/- A commit of a run is a transaction from its last store. -/
theorem MailRun.transaction
    {db : Mailroom}
    {newer older : MailTrace}
    {pid : ℕ}
    {log : List (Action mail)}
    {before after : Mailroom}
    {answer : Option MailReply}
    (hRun :
      MailRun db
        (newer ++
          .committed pid log before after answer :: older)) :
    before = latest db older ∧
      ∃ charge,
        Transaction pid older log before after answer charge :=
  ⟨hRun.linked.split.1, hRun.audited.split.1⟩

theorem MailRun.statement
    {db : Mailroom}
    {newer older : MailTrace}
    {pid : ℕ}
    {act : Action mail}
    (hRun : MailRun db (newer ++ .ran pid act :: older)) :
    StatementOk db pid older act :=
  hRun.audited.split.1

/-
  What every transaction keeps holds at any time.
-/
theorem MailRun.induction
    {db : Mailroom}
    {trace : MailTrace}
    {P : MailTrace → Mailroom → Prop}
    (hStart : P [] db)
    (hEvent :
      ∀ e older t, (∀ c, e.commit? ≠ some c) → P older t →
        P (e :: older) t)
    (hCommit :
      ∀ pid log before after answer older charge,
        MailRun db
          (.committed pid log before after answer :: older) →
        before = latest db older →
        Transaction pid older log before after answer charge →
        P older before →
          P (.committed pid log before after answer :: older)
            after)
    (hRun : MailRun db trace) :
    P trace (latest db trace) := by
  induction trace with
  | nil => exact hStart
  | cons e older ih =>
      have hOlder : MailRun db older :=
        MailRun.suffix (show MailRun db ([e] ++ older) from hRun)
      have hBefore := ih hOlder
      cases e with
      | committed pid log before after answer =>
          rcases MailRun.transaction
              (show
                MailRun db
                  ([] ++
                    .committed pid log before after answer ::
                      older) from hRun) with
            ⟨hLink, charge, hTransaction⟩
          rw [← hLink] at hBefore
          exact
            hCommit pid log before after answer older charge
              hRun hLink hTransaction hBefore
      | _ =>
          exact hEvent _ _ _ (fun _ hEq => by cases hEq) hBefore

theorem MailRun.valid
    {db : Mailroom}
    {trace : MailTrace}
    (hRun : MailRun db trace) :
    MailValid (latest db trace) := by
  refine
    MailRun.induction (P := fun _ t => MailValid t) hRun.start
      ?_ ?_ hRun
  · exact fun _ _ _ _ hValid => hValid
  · intro pid log before after answer older charge _ _
      hTransaction hValid
    exact hTransaction.step.valid hValid

end PigBook.Delivery

------------------------------------------------------------
-- Tokens
------------------------------------------------------------

namespace PigBook.Delivery

open ReadCommitted

variable {db : Mailroom} {trace : MailTrace}
variable {lease lease' : OutboxLease} {pid pid' : ℕ}

/- The lease was made of this row, at this attempt. -/
structure MadeOf (lease : OutboxLease) (r : OutboxRow) : Prop where
  token : r.leaseToken = some lease.leaseToken
  id : r.id = lease.id
  attempts : r.attempts = lease.attempts
  eventType : r.eventType = lease.eventType
  payload : r.payload = lease.payload

/-
  A token on a row has been there from the beginning, or some
  client has claimed the row with it.
-/
theorem token_origin
    (hRun : MailRun db trace) :
    ∀ r ∈ (latest db trace).outbox, ∀ token,
      r.leaseToken = some token →
        (∃ r₀ ∈ db.outbox, r₀.leaseToken = some token) ∨
          ∃ pid lease, ClaimedBy pid lease trace ∧
            lease.leaseToken = token ∧ MadeOf lease r := by
  refine
    MailRun.induction
      (P := fun older t =>
        ∀ r ∈ t.outbox, ∀ token, r.leaseToken = some token →
          (∃ r₀ ∈ db.outbox, r₀.leaseToken = some token) ∨
            ∃ pid lease, ClaimedBy pid lease older ∧
              lease.leaseToken = token ∧ MadeOf lease r)
      ?_ ?_ ?_ hRun
  · exact fun r hRow token hToken => Or.inl ⟨r, hRow, hToken⟩
  · intro e older t _ hBefore r hRow token hToken
    rcases hBefore r hRow token hToken with
      hOld | ⟨pid, lease, hClaimed, hRest⟩
    · exact Or.inl hOld
    · exact Or.inr ⟨pid, lease, hClaimed.append [e], hRest⟩
  · intro pid log before after answer older charge hHere _
      hTransaction hBefore r hRow token hToken
    have hKept :
        ∀ r₀ ∈ before.outbox, r₀.leaseToken = some token →
          (∀ lease, MadeOf lease r₀ → MadeOf lease r) →
          (∃ r₀ ∈ db.outbox, r₀.leaseToken = some token) ∨
            ∃ pid' lease,
              ClaimedBy pid' lease
                (.committed pid log before after answer ::
                  older) ∧
              lease.leaseToken = token ∧ MadeOf lease r := by
      intro r₀ hRow₀ hToken₀ hMade
      rcases hBefore r₀ hRow₀ token hToken₀ with
        hOld | ⟨pid', lease, hClaimed, hSame, hMade₀⟩
      · exact Or.inl hOld
      · exact
          Or.inr
            ⟨pid', lease, hClaimed.append [_], hSame,
              hMade lease hMade₀⟩
    rcases hTransaction.step.outbox.origin hRow with
      ⟨r₀, hRow₀, rfl | ⟨-, hAffects, rfl⟩⟩ | ⟨e, -, rfl, -⟩
    · exact hKept _ hRow₀ hToken (fun _ hMade => hMade)
    · cases charge with
      | nothing => cases hAffects
      | append e => cases hAffects
      | recovery now =>
          unfold Charge.effect at hToken
          dsimp only at hToken
          split at hToken
          · cases hToken
          · cases hToken
      | claim lease now =>
          rcases hTransaction.warranted with
            ⟨hDrawn, hAnswer, -⟩
          rcases hAffects with ⟨hPending, hLease, hDue⟩
          have hSame : lease.leaseToken = token :=
            Option.some.inj hToken
          refine Or.inr ⟨pid, lease, ?_, hSame, ?_⟩
          · rw [hAnswer]
            refine
              ⟨[], log, before, after, older, rfl, hDrawn, now,
                hTransaction.step, r₀, hRow₀,
                ⟨hPending, hLease, hDue⟩, hRow⟩
          · constructor
            · rfl
            · exact congrArg OutboxLease.id hLease
            · rfl
            · exact congrArg OutboxLease.eventType hLease
            · exact congrArg OutboxLease.payload hLease
      | renewal lease now =>
          apply hKept r₀ hRow₀ hToken
          exact fun _ hMade =>
            ⟨hMade.token, hMade.id, hMade.attempts,
              hMade.eventType, hMade.payload⟩
      | acknowledgment lease now => cases hToken
      | failure lease category now => cases hToken
      | retry id now => cases hToken
    · cases hToken

/- One commit makes one lease. -/
theorem Claims.unique
    {log : List (Action mail)}
    {before after : Mailroom}
    (hValid : MailValid before)
    (hClaims : Claims lease log before after)
    (hClaims' : Claims lease' log before after)
    (hToken : lease.leaseToken = lease'.leaseToken) :
    lease = lease' := by
  rcases hClaims.row with ⟨now, hStep, r, hRow, hAffects, -⟩
  rcases hClaims'.row with
    ⟨now', -, r', hRow', hAffects', hAfter'⟩
  rcases hStep.outbox.origin hAfter' with
    ⟨r₀, hRow₀, hMove⟩ | ⟨e, hAppend, -⟩
  · have hId : r₀.id = r'.id := hMove.same.id.symm
    have hSame : r₀ = r' :=
      hValid.ids.eq_of_key hRow₀ hRow' hId
    rw [hSame] at hMove
    rcases hMove with hEq | ⟨-, hBoth, -⟩
    · have hStatus := congrArg OutboxRow.status hEq
      rw [hAffects'.1] at hStatus
      cases hStatus
    · rw [← hBoth.2.1, ← hAffects'.2.1, hToken]
  · cases hAppend

/- A token is claimed at one place of the history. -/
theorem claim_place
    (hRun : MailRun db trace)
    {newer newer' older older' : MailTrace}
    {log log' : List (Action mail)}
    {before before' after after' : Mailroom}
    (hSplit :
      trace =
        newer ++ .committed pid log before after none :: older)
    (hSplit' :
      trace =
        newer' ++
          .committed pid' log' before' after' none :: older')
    (hClaims : Claims lease log before after)
    (hClaims' : Claims lease' log' before' after')
    (hToken : lease.leaseToken = lease'.leaseToken) :
    newer = newer' ∧ older = older' ∧ pid = pid' ∧
      lease = lease' := by
  have hBehind :
      ∀ {xs ys : MailTrace} {p p' : ℕ}
          {l l' : List (Action mail)} {b b' a a' : Mailroom},
        xs ++ .committed p l b a none ::
            (ys ++ .committed p' l' b' a' none :: older') =
          trace ∨
        xs ++ .committed p l b a none ::
            (ys ++ .committed p' l' b' a' none :: older) =
          trace →
        ∀ v ∈ l.filterMap drawn, v ∉ l'.filterMap drawn := by
    intro xs ys p p' l l' b b' a a' hTrace
    have hApart := hRun.apart
    rcases hTrace with hTrace | hTrace
    · rw [← hTrace, commits_append] at hApart
      have hTail := (List.pairwise_append.mp hApart).2.1
      apply (List.pairwise_cons.mp hTail).1 ⟨l', b', a', none⟩
      exact mem_commits_of_split
    · rw [← hTrace, commits_append] at hApart
      have hTail := (List.pairwise_append.mp hApart).2.1
      apply (List.pairwise_cons.mp hTail).1 ⟨l', b', a', none⟩
      exact mem_commits_of_split
  rcases split_cases (hSplit.symm.trans hSplit') with
    ⟨hNewer, hEvent, hOlder⟩ | ⟨zs, -, hRest⟩ | ⟨zs, -, hRest⟩
  · injection hEvent with hPid hLog hBefore hAfter
    refine ⟨hNewer, hOlder, hPid, ?_⟩
    have hValid : MailValid before := by
      rw [hSplit] at hRun
      rw [hRun.transaction.1]
      have hHere : MailRun db ([_] ++ older) := hRun.suffix
      exact hHere.suffix.valid
    rw [← hLog, ← hBefore, ← hAfter] at hClaims'
    exact hClaims.unique hValid hClaims' hToken
  · rw [hRest] at hSplit
    exfalso
    apply hBehind (Or.inl hSplit.symm) _ hClaims.token
    rw [hToken]
    exact hClaims'.token
  · rw [hRest] at hSplit'
    exfalso
    apply hBehind (Or.inr hSplit'.symm) _ hClaims'.token
    rw [← hToken]
    exact hClaims.token

theorem claimed_unique
    (hRun : MailRun db trace)
    (hClaimed : ClaimedBy pid lease trace)
    (hClaimed' : ClaimedBy pid' lease' trace)
    (hToken : lease.leaseToken = lease'.leaseToken) :
    pid = pid' ∧ lease = lease' := by
  rcases hClaimed with
    ⟨newer, log, before, after, older, hSplit, hClaims⟩
  rcases hClaimed' with
    ⟨newer', log', before', after', older', hSplit', hClaims'⟩
  exact
    (claim_place hRun hSplit hSplit' hClaims hClaims'
      hToken).2.2

/- The token of a claimed lease is found on its row only. -/
theorem lease_of_row
    (hRun : MailRun db trace)
    (hClaimed : ClaimedBy pid lease trace)
    {r : OutboxRow}
    (hRow : r ∈ (latest db trace).outbox)
    (hToken : r.leaseToken = some lease.leaseToken) :
    MadeOf lease r := by
  rcases token_origin hRun r hRow _ hToken with
    ⟨r₀, hRow₀, hOld⟩ | ⟨pid', lease', hClaimed', hSame, hMade⟩
  · rcases hClaimed with
      ⟨newer, log, before, after, older, rfl, hClaims⟩
    exact
      absurd hClaims.token
        (hRun.fresh r₀ hRow₀ _ hOld ⟨log, before, after, none⟩
          mem_commits_of_split)
  · rw [(claimed_unique hRun hClaimed hClaimed' hSame.symm).2]
    exact hMade

end PigBook.Delivery

------------------------------------------------------------
-- Attempts
------------------------------------------------------------

namespace PigBook.Delivery

open ReadCommitted

/- The attempts that a row of each status has had. -/
def OutboxRow.Counted (r : OutboxRow) : Prop :=
  match r.status with
  | .pending => r.attempts ≤ 7
  | .processing => 1 ≤ r.attempts ∧ r.attempts ≤ 8
  | .delivered => 1 ≤ r.attempts ∧ r.attempts ≤ 8
  | .dead => r.attempts = 8

instance (r : OutboxRow) : Decidable r.Counted := by
  unfold OutboxRow.Counted
  split <;> infer_instance

theorem counted_pending
    {r : OutboxRow}
    (hStatus : r.status = .pending) :
    r.Counted ↔ r.attempts ≤ 7 := by
  unfold OutboxRow.Counted
  rw [hStatus]

theorem counted_processing
    {r : OutboxRow}
    (hStatus : r.status = .processing) :
    r.Counted ↔ 1 ≤ r.attempts ∧ r.attempts ≤ 8 := by
  unfold OutboxRow.Counted
  rw [hStatus]

theorem counted_dead
    {r : OutboxRow}
    (hStatus : r.status = .dead) :
    r.Counted ↔ r.attempts = 8 := by
  unfold OutboxRow.Counted
  rw [hStatus]

/- A charge counts the attempts of the rows it changes. -/
theorem Charge.counted_effect
    {charge : Charge}
    {r : OutboxRow}
    (hAffects : charge.Affects r)
    (hCounted : r.Counted)
    (hLease :
      ∀ lease category now, charge = .failure lease category now →
        lease.attempts = r.attempts) :
    (charge.effect r).Counted := by
  cases charge with
  | nothing => cases hAffects
  | append e => cases hAffects
  | recovery now =>
      have hStatus := (OutboxRow.expired_iff.mp hAffects).1
      have hBounds := (counted_processing hStatus).mp hCounted
      unfold Charge.effect
      dsimp only
      split
      · apply (counted_dead rfl).mpr
        change r.attempts = 8
        omega
      · apply (counted_pending rfl).mpr
        change r.attempts ≤ 7
        omega
  | claim lease now =>
      rcases hAffects with ⟨hStatus, hLeaseOf, -⟩
      have hBound := (counted_pending hStatus).mp hCounted
      have hAttempts := congrArg OutboxLease.attempts hLeaseOf
      change r.attempts + 1 = lease.attempts at hAttempts
      apply (counted_processing rfl).mpr
      change 1 ≤ lease.attempts ∧ lease.attempts ≤ 8
      omega
  | renewal lease now =>
      have hStatus := (OutboxLease.holds_iff.mp hAffects).2.2
      apply (counted_processing hStatus).mpr
      exact (counted_processing hStatus).mp hCounted
  | acknowledgment lease now =>
      have hStatus := (OutboxLease.holds_iff.mp hAffects).2.2
      exact (counted_processing hStatus).mp hCounted
  | failure lease category now =>
      have hStatus := (OutboxLease.holds_iff.mp hAffects).2.2
      have hBounds := (counted_processing hStatus).mp hCounted
      have hSame := hLease lease category now rfl
      by_cases hLast : 8 ≤ lease.attempts
      · apply (counted_dead (if_pos hLast)).mpr
        change r.attempts = 8
        omega
      · apply (counted_pending (if_neg hLast)).mpr
        change r.attempts ≤ 7
        omega
  | retry id now =>
      apply (counted_pending rfl).mpr
      exact Nat.zero_le 7

variable {db : Mailroom} {trace : MailTrace}

/- A lease that is used has been claimed by the client. -/
theorem claimed_of_uses
    {pid : ℕ}
    {older : MailTrace}
    {log : List (Action mail)}
    {before after : Mailroom}
    {answer : Option MailReply}
    {charge : Charge}
    {lease : OutboxLease}
    (hTransaction :
      Transaction pid older log before after answer charge)
    (hUses : charge.Uses lease) :
    ClaimedBy pid lease older := by
  have hWarranted := hTransaction.warranted
  cases charge with
  | renewal lease' now =>
      have hSame : lease' = lease := hUses
      rw [hSame] at hWarranted
      exact hWarranted.2.1
  | acknowledgment lease' now =>
      have hSame : lease' = lease := hUses
      rw [hSame] at hWarranted
      exact hWarranted.2.1
  | failure lease' category now =>
      have hSame : lease' = lease := hUses
      rw [hSame] at hWarranted
      exact hWarranted.2.1
  | _ => cases hUses

/- A lease that is used carries the attempts of its row. -/
theorem lease_attempts
    {pid : ℕ}
    {older : MailTrace}
    {log : List (Action mail)}
    {before after : Mailroom}
    {answer : Option MailReply}
    {charge : Charge}
    {lease : OutboxLease}
    {r : OutboxRow}
    (hRun :
      MailRun db
        (.committed pid log before after answer :: older))
    (hLink : before = latest db older)
    (hTransaction :
      Transaction pid older log before after answer charge)
    (hUses : charge.Uses lease)
    (hRow : r ∈ before.outbox)
    (hToken : r.leaseToken = some lease.leaseToken) :
    MadeOf lease r := by
  have hOlder : MailRun db ([_] ++ older) := hRun
  have hClaimed : ClaimedBy pid lease older :=
    claimed_of_uses hTransaction hUses
  rw [hLink] at hRow
  exact lease_of_row hOlder.suffix hClaimed hRow hToken

/- Every row is counted at any time. -/
theorem counted_latest
    (hCounted : ∀ r ∈ db.outbox, r.Counted)
    (hRun : MailRun db trace) :
    ∀ r ∈ (latest db trace).outbox, r.Counted := by
  refine
    MailRun.induction
      (P := fun _ t => ∀ r ∈ t.outbox, r.Counted) hCounted
      (fun _ _ _ _ hBefore => hBefore) ?_ hRun
  intro pid log before after answer older charge hHere hLink
    hTransaction hBefore r hRow
  rcases hTransaction.step.outbox.origin hRow with
    ⟨r₀, hRow₀, rfl | ⟨-, hAffects, rfl⟩⟩ | ⟨e, -, rfl, -⟩
  · exact hBefore _ hRow₀
  · apply charge.counted_effect hAffects (hBefore r₀ hRow₀)
    intro lease category now hCharge
    rw [hCharge] at hAffects hTransaction
    have hHolds := OutboxLease.holds_iff.mp hAffects
    exact
      (lease_attempts hHere hLink hTransaction rfl hRow₀
        hHolds.2.1).attempts.symm
  · exact Nat.zero_le 7

end PigBook.Delivery

------------------------------------------------------------
-- A Slow Worker
------------------------------------------------------------

namespace PigBook.Delivery

open ReadCommitted

instance : DecidableRel mail.Conflict :=
  fun k k' => inferInstanceAs (Decidable (k = k'))

/- A clock, and how many identifiers have been drawn. -/
structure Post where
  clock : ℤ
  count : ℕ

def mailWorld : World mail where
  Carrier := Post
  answers := fun _ _ _ _ => True
  advance := fun _ _ => True

/- The adapter takes every message. -/
def respond (env : Post) (q : MailQuery) : q.Answer × Post :=
  match q with
  | .plain => ((), env)
  | .now => (env.clock, env)
  | .clock => (env.clock, env)
  | .uuid =>
      (Fin.ofNat (2 ^ 128) (env.count + 10),
        { env with count := env.count + 1 })
  | .skipLocked => ([], env)
  | .fenced _ => ((), env)
  | .user _ =>
      (some { email := "user", enabled := true }, env)
  | .booking _ => (none, env)
  | .resource _ => (some "Room", env)
  | .assertCurrent _ => (true, env)
  | .send _ _ => (.sent "taken", env)

def twoMinutesLater (env : Post) : Post :=
  { env with clock := env.clock + seconds 120 }

def postman : Simulator mailWorld where
  respond := respond
  answers := fun _ _ => trivial
  pass := twoMinutesLater
  advance := fun _ => trivial

def confirmation : OutboxEvent where
  id := 1
  eventType := .bookingConfirmed
  aggregateId := 3
  aggregateVersion := 1
  payload := {
    schemaVersion := 1
    bookingId := 3
    recipientId := some 2
    resourceId := 4
    startsAt := 0
    endsAt := 0
    expiresAt := none
  }
  occurredAt := 0
  availableAt := 0

def oneEvent : Mailroom where
  outbox := [insertedRow confirmation]
  receipts := []
  audit := []

def utc : OrgTimezone where
  offset := fun _ => 0
  abbreviation := fun _ => "UTC"

def worker : MailRequest :=
  .cycle { emailEnabled := true, appOrigin := "", zone := utc }

/-
  A worker prepares a message and stops for two minutes.
  Another recovers the event and sends it, and then the first
  goes on and sends it as well.
-/
def slowMoves : List (Move mail Mailroom MailReply) :=
  [[.spawn 0 worker.program],
    List.replicate 18 (.step 0),
    [.pass, .spawn 1 worker.program],
    List.replicate 30 (.step 1),
    List.replicate 20 (.step 0)].flatten

def slow : Sys mailWorld Mailroom MailReply :=
  (Sys.initial (W := mailWorld) oneEvent ⟨0, 0⟩).exec postman
    [0, 1] slowMoves

theorem slow_reachable :
    Reachable mailPrograms
      (Sys.initial (W := mailWorld) oneEvent ⟨0, 0⟩) slow := by
  refine Sys.exec_reachable (fun _ _ => rfl) ?_
  intro m hm
  cases m with
  | spawn pid p =>
      simp only [slowMoves, List.flatten_cons,
        List.mem_append, List.mem_cons, List.mem_replicate,
        Move.spawn.injEq, reduceCtorEq, and_false,
        List.flatten_nil, List.not_mem_nil, or_false,
        false_or] at hm
      refine ⟨worker, ?_⟩
      rcases hm with hm | hm
      · exact hm.2
      · exact hm.2
  | step pid => trivial
  | pass => trivial

theorem slow_distinct : Distinct oneEvent slow.trace where
  once := by decide +kernel
  fresh := by
    intro r hRow token hToken
    rw [List.mem_singleton.mp hRow] at hToken
    cases hToken

theorem oneEvent_valid : MailValid oneEvent where
  ids := List.pairwise_singleton _ _
  aggregates := List.pairwise_singleton _ _
  receipts := .nil
  sound := by
    intro r hRow
    rw [List.mem_singleton.mp hRow]
    exact insertedRow_sound confirmation

theorem oneEvent_counted :
    ∀ r ∈ oneEvent.outbox, r.Counted := by
  intro r hRow
  rw [List.mem_singleton.mp hRow]
  exact Nat.zero_le 7

end PigBook.Delivery

------------------------------------------------------------
-- The Lease Machine
------------------------------------------------------------

namespace PigBook.Delivery

open ReadCommitted

/-
  The commit uses a lease that its client has claimed, and
  that the row is processed under.
-/
structure HeldBy
    (pid : ℕ)
    (older : MailTrace)
    (log : List (Action mail))
    (lease : OutboxLease)
    (r : OutboxRow) : Prop where
  fenced : FencedBy lease log
  claimed : ClaimedBy pid lease older
  status : r.status = .processing
  made : MadeOf lease r

/-
  The transitions of the machine, as commits of a client make
  them: each with what it takes, and with the whole row that
  it leaves.
-/
inductive Transition
    (pid : ℕ)
    (older : MailTrace)
    (log : List (Action mail))
    (answer : Option MailReply)
    (r : OutboxRow) : OutboxRow → Prop
  | kept : Transition pid older log answer r r
  | claimed
      {token : Uuid} {now : ℤ}
      (hPending : r.status = .pending)
      (hDue : r.availableAt ≤ now)
      (hClocked : Clocked pid now older)
      (hDrawn : token ∈ log.filterMap drawn) :
      Transition pid older log answer r
        { r with
          status := .processing
          attempts := r.attempts + 1
          leaseToken := some token
          leaseUntil := some (now + seconds 60) }
  | renewed
      {lease : OutboxLease} {now : ℤ}
      (hHeld : HeldBy pid older log lease r)
      (hClocked : Clocked pid now older) :
      Transition pid older log answer r
        { r with leaseUntil := some (now + seconds 60) }
  | delivered
      {lease : OutboxLease} {now : ℤ}
      (hHeld : HeldBy pid older log lease r)
      (hClocked : Clocked pid now older) :
      Transition pid older log answer r
        { r with
          status := .delivered
          deliveredAt := some now
          leaseToken := none
          leaseUntil := none }
  | postponed
      {lease : OutboxLease} {category : String} {now : ℤ}
      {result : SendResult}
      (hHeld : HeldBy pid older log lease r)
      (hClocked : Clocked pid now older)
      (hAnswered : Answered pid lease result older)
      (hFailed : ∀ providerId, result ≠ .sent providerId)
      (hAttempts : r.attempts < 8) :
      Transition pid older log answer r
        { r with
          status := .pending
          availableAt :=
            now +
              seconds
                (min 3600 (5 * 2 ^ (max 1 r.attempts - 1)) +
                  r.id.val % 5 : ℕ)
          leaseToken := none
          leaseUntil := none
          lastError := some (sanitizeErrorCategory category) }
  | exhausted
      {lease : OutboxLease} {category : String} {now : ℤ}
      {result : SendResult}
      (hHeld : HeldBy pid older log lease r)
      (hClocked : Clocked pid now older)
      (hAnswered : Answered pid lease result older)
      (hFailed : ∀ providerId, result ≠ .sent providerId)
      (hAttempts : 8 ≤ r.attempts) :
      Transition pid older log answer r
        { r with
          status := .dead
          availableAt := now
          leaseToken := none
          leaseUntil := none
          lastError := some (sanitizeErrorCategory category) }
  | released
      {now ends : ℤ}
      (hProcessing : r.status = .processing)
      (hUntil : r.leaseUntil = some ends)
      (hStale : ends ≤ now)
      (hAsked : AskedNow now log)
      (hAttempts : r.attempts < 8) :
      Transition pid older log answer r
        { r with
          status := .pending
          availableAt := now
          leaseToken := none
          leaseUntil := none }
  | buried
      {now ends : ℤ}
      (hProcessing : r.status = .processing)
      (hUntil : r.leaseUntil = some ends)
      (hStale : ends ≤ now)
      (hAsked : AskedNow now log)
      (hAttempts : 8 ≤ r.attempts) :
      Transition pid older log answer r
        { r with
          status := .dead
          leaseToken := none
          leaseUntil := none }
  | retried
      {now : ℤ} {view : OutboxView}
      (hDead : r.status = .dead)
      (hAnswer : answer = some (.retried view))
      (hClocked : Clocked pid now older) :
      Transition pid older log answer r
        { r with
          status := .pending
          attempts := 0
          availableAt := now
          leaseToken := none
          leaseUntil := none
          lastError := none }

section Transitions

variable {db : Mailroom} {pid : ℕ} {older : MailTrace}
variable {log : List (Action mail)}
variable {before after : Mailroom}
variable {answer : Option MailReply} {charge : Charge}
variable {lease : OutboxLease} {r r' : OutboxRow}

theorem ends_of_any
    {leaseUntil : Option ℤ}
    {now : ℤ}
    (hPast : leaseUntil.any (· ≤ now) = true) :
    ∃ ends, leaseUntil = some ends ∧ ends ≤ now := by
  cases leaseUntil with
  | none => cases hPast
  | some ends => exact ⟨ends, rfl, of_decide_eq_true hPast⟩

/- A row that has changed was held or has run out. -/
theorem RowStep.transition
    (hRun :
      MailRun db
        (.committed pid log before after answer :: older))
    (hLink : before = latest db older)
    (hTransaction :
      Transaction pid older log before after answer charge)
    (hRow : r ∈ before.outbox)
    (hStep : RowStep charge (held log) r r') :
    Transition pid older log answer r r' := by
  rcases hStep with rfl | ⟨-, hAffects, rfl⟩
  · exact .kept
  have hWarranted := hTransaction.warranted
  -- what is changed under a lease is held by the client
  have hHeld :
      ∀ lease, charge.Uses lease → FencedBy lease log →
        lease.holds r = true →
          HeldBy pid older log lease r := by
    intro lease hUses hFenced hHolds
    have hFields := OutboxLease.holds_iff.mp hHolds
    exact {
      fenced := hFenced
      claimed := claimed_of_uses hTransaction hUses
      status := hFields.2.2
      made :=
        lease_attempts hRun hLink hTransaction hUses hRow
          hFields.2.1
    }
  cases charge with
  | nothing => cases hAffects
  | append e => cases hAffects
  | claim lease now =>
      rcases hAffects with ⟨hPending, hLease, hDue⟩
      rcases hWarranted with ⟨hDrawn, -, hClocked⟩
      have hAttempts : r.attempts + 1 = lease.attempts :=
        congrArg OutboxLease.attempts hLease
      change
        Transition pid older log answer r
          (claimedRow lease.leaseToken lease.attempts now r)
      rw [← hAttempts]
      exact .claimed hPending hDue hClocked hDrawn
  | renewal lease now =>
      rcases hWarranted with ⟨hFenced, -, hClocked⟩
      exact .renewed (hHeld lease rfl hFenced hAffects) hClocked
  | acknowledgment lease now =>
      rcases hWarranted with ⟨hFenced, -, hClocked, -⟩
      exact
        .delivered (hHeld lease rfl hFenced hAffects) hClocked
  | failure lease category now =>
      rcases hWarranted with
        ⟨hFenced, -, hClocked, result, hAnswered, hFailed⟩
      have hHere := hHeld lease rfl hFenced hAffects
      have hAttempts := hHere.made.attempts
      have hId := hHere.made.id
      change
        Transition pid older log answer r
          (failedRow lease category now r)
      unfold failedRow
      rw [← hAttempts, ← hId]
      by_cases hLast : 8 ≤ r.attempts
      · rw [if_pos hLast, if_pos hLast]
        exact
          .exhausted hHere hClocked hAnswered hFailed hLast
      · rw [if_neg hLast, if_neg hLast]
        exact
          .postponed hHere hClocked hAnswered hFailed
            (Nat.lt_of_not_le hLast)
  | recovery now =>
      have hAsked : AskedNow now log := hWarranted
      rcases OutboxRow.expired_iff.mp hAffects with
        ⟨hStatus, hPast⟩
      rcases ends_of_any hPast with ⟨ends, hUntil, hStale⟩
      unfold Charge.effect
      dsimp only
      by_cases hLast : 8 ≤ r.attempts
      · rw [if_pos hLast]
        exact .buried hStatus hUntil hStale hAsked hLast
      · rw [if_neg hLast]
        exact
          .released hStatus hUntil hStale hAsked
            (Nat.lt_of_not_le hLast)
  | retry id now =>
      rcases hWarranted with ⟨⟨view, hAnswer⟩, hClocked⟩
      exact .retried hAffects.2 hAnswer hClocked

end Transitions

/- A delivered row stays as it is. -/
theorem RowStep.delivered
    {charge : Charge}
    {ks : List MailKey}
    {r r' : OutboxRow}
    (hStep : RowStep charge ks r r')
    (hDelivered : r.status = .delivered) :
    r' = r := by
  rcases hStep with hSame | ⟨-, hAffects, -⟩
  · exact hSame
  have hImpossible : ¬ charge.Affects r := by
    intro hAffects
    cases charge with
    | nothing => cases hAffects
    | append e => cases hAffects
    | recovery now =>
        have hStatus := (OutboxRow.expired_iff.mp hAffects).1
        rw [hDelivered] at hStatus
        cases hStatus
    | claim lease now =>
        have hStatus := hAffects.1
        rw [hDelivered] at hStatus
        cases hStatus
    | retry id now =>
        have hStatus := hAffects.2
        rw [hDelivered] at hStatus
        cases hStatus
    | _ =>
        have hStatus := (OutboxLease.holds_iff.mp hAffects).2.2
        rw [hDelivered] at hStatus
        cases hStatus
  exact absurd hAffects hImpossible

/-
  What a commit does to a row: one transition at most, and
  none if the row is delivered.  If a lease is used that the
  row is processed under, the lease is that of the row.
-/
structure RowMove
    (pid : ℕ)
    (older : MailTrace)
    (log : List (Action mail))
    (answer : Option MailReply)
    (r r' : OutboxRow) : Prop where
  same : Charge.Same r r'
  transition : Transition pid older log answer r r'
  delivered : r.status = .delivered → r' = r
  lease :
    ∀ lease, FencedBy lease log → lease.holds r = true →
      MadeOf lease r

/-
  In every run the leases, the attempts, and the times of
  delivery fit the status of every row, and rows move along
  the transitions of the machine only.
-/
theorem outbox_lease_machine
    {W : World mail}
    {db : Mailroom}
    {env : W.Carrier}
    {s : Sys W Mailroom MailReply}
    (hValid : MailValid db)
    (hCounted : ∀ r ∈ db.outbox, r.Counted)
    (hReach : Reachable mailPrograms (Sys.initial db env) s)
    (hDistinct : Distinct db s.trace) :
    (∀ t ∈ states db s.trace, ∀ r ∈ t.outbox,
      r.Sound ∧ r.Counted) ∧
    ∀ newer pid log before after answer older,
      s.trace =
          newer ++
            .committed pid log before after answer :: older →
        ∀ r ∈ before.outbox, ∃ r' ∈ after.outbox,
          RowMove pid older log answer r r' := by
  have hRun := MailRun.of_reachable hValid hReach hDistinct
  constructor
  · intro t hMem r hRow
    rcases exists_of_mem_states hMem with
      ⟨newer, older, hTrace, rfl⟩
    rw [hTrace] at hRun
    exact
      ⟨hRun.suffix.valid.sound r hRow,
        counted_latest hCounted hRun.suffix r hRow⟩
  · intro newer pid log before after answer older hTrace r hRow
    rw [hTrace] at hRun
    have hHere := hRun.suffix
    rcases hRun.transaction with ⟨hLink, charge, hTransaction⟩
    rcases hTransaction.step.outbox.later hRow with
      ⟨r', hRow', hMove⟩
    refine ⟨r', hRow', ?_⟩
    exact {
      same := hMove.same
      transition :=
        hMove.transition hHere hLink hTransaction hRow
      delivered := hMove.delivered
      lease := by
        intro lease hFenced hHolds
        exact
          lease_attempts hHere hLink hTransaction
            (hTransaction.fenced lease hFenced) hRow
            (OutboxLease.holds_iff.mp hHolds).2.1
    }

/- The statuses that the rows had at each commit. -/
def statuses (s : Mailroom) : List (OutboxStatus × ℕ) :=
  s.outbox.map (fun r => (r.status, r.attempts))

/-
  The slow worker's event is claimed and renewed, released
  and claimed again, and delivered by the other worker.
-/
theorem outbox_lease_machine_slow :
    (states oneEvent slow.trace).map statuses =
      [[(.delivered, 2)], [(.delivered, 2)],
        [(.processing, 2)], [(.processing, 2)],
        [(.processing, 2)], [(.pending, 1)],
        [(.processing, 1)], [(.processing, 1)],
        [(.processing, 1)], [(.pending, 0)],
        [(.pending, 0)]] ∧
    (∀ t ∈ states oneEvent slow.trace, ∀ r ∈ t.outbox,
      r.Sound ∧ r.Counted) ∧
    ∀ newer pid log before after answer older,
      slow.trace =
          newer ++
            .committed pid log before after answer :: older →
        ∀ r ∈ before.outbox, ∃ r' ∈ after.outbox,
          RowMove pid older log answer r r' :=
  ⟨by decide +kernel,
    outbox_lease_machine oneEvent_valid oneEvent_counted
      slow_reachable slow_distinct⟩

end PigBook.Delivery

------------------------------------------------------------
-- Superseded Leases
------------------------------------------------------------

namespace PigBook.Delivery

open ReadCommitted

variable {db : Mailroom} {trace newer older : MailTrace}
variable {lease : OutboxLease} {pid : ℕ}

/- The lease has been claimed, and its row is not under it. -/
structure Superseded
    (db : Mailroom)
    (lease : OutboxLease)
    (trace : MailTrace) : Prop where
  claimed : ∃ pid, ClaimedBy pid lease trace
  lost :
    ∀ r ∈ (latest db trace).outbox, lease.holds r = false

/- A row is under a lease that was there or is claimed now. -/
theorem RowStep.holds
    {charge : Charge}
    {ks : List MailKey}
    {r r' : OutboxRow}
    (hStep : RowStep charge ks r r')
    (hHolds : lease.holds r' = true) :
    lease.holds r = true ∨
      ∃ lease' now, charge = .claim lease' now ∧
        charge.Affects r ∧ r' = charge.effect r ∧
        lease'.leaseToken = lease.leaseToken := by
  rcases hStep with rfl | ⟨-, hAffects, rfl⟩
  · exact Or.inl hHolds
  have hFields := OutboxLease.holds_iff.mp hHolds
  cases charge with
  | nothing => cases hAffects
  | append e => cases hAffects
  | claim lease' now =>
      exact
        Or.inr
          ⟨lease', now, rfl, hAffects, rfl,
            Option.some.inj hFields.2.1⟩
  | renewal lease' now =>
      apply Or.inl
      apply OutboxLease.holds_iff.mpr
      exact ⟨hFields.1, hFields.2.1, hFields.2.2⟩
  | recovery now =>
      have hToken := hFields.2.1
      unfold Charge.effect at hToken
      dsimp only at hToken
      split at hToken
      · cases hToken
      · cases hToken
  | acknowledgment lease' now => cases hFields.2.1
  | failure lease' category now => cases hFields.2.1
  | retry id now => cases hFields.2.1

/- A lease that has been lost is never held again. -/
theorem Superseded.event
    {e : Event mail Mailroom MailReply}
    (hRun : MailRun db (e :: older))
    (hLost : Superseded db lease older) :
    Superseded db lease (e :: older) where
  claimed := by
    rcases hLost.claimed with ⟨pid, hClaimed⟩
    exact ⟨pid, hClaimed.append [e]⟩
  lost := by
    cases e with
    | committed pid log before after answer =>
        have hHere :
            MailRun db
              ([] ++
                .committed pid log before after answer ::
                  older) :=
          hRun
        rcases hHere.transaction with
          ⟨hLink, charge, hTransaction⟩
        intro r hRow
        rw [Bool.eq_false_iff]
        intro hHolds
        rcases hTransaction.step.outbox.origin hRow with
          ⟨r₀, hRow₀, hMove⟩ | ⟨e, -, rfl, -⟩
        · rcases hMove.holds hHolds with
            hOld | ⟨lease', now, rfl, hAffects, hEffect, hToken⟩
          · rw [hLink] at hRow₀
            rw [hLost.lost r₀ hRow₀] at hOld
            cases hOld
          · -- a second claim with the same token
            rcases hTransaction.warranted with
              ⟨hDrawn, hAnswer, -⟩
            rcases hLost.claimed with ⟨pid', hClaimed⟩
            rcases hClaimed with
              ⟨rest, log', before', after', older', rfl,
                hClaims'⟩
            have hClaims : Claims lease' log before after := {
              token := hDrawn
              row :=
                ⟨now, hTransaction.step, r₀, hRow₀, hAffects,
                  hEffect ▸ hRow⟩
            }
            rw [hAnswer] at hRun
            have hPlace :=
              claim_place hRun (List.nil_append _).symm
                (List.cons_append).symm hClaims hClaims' hToken
            cases hPlace.1
        · have hFields := OutboxLease.holds_iff.mp hHolds
          cases hFields.2.2
    | _ => exact hLost.lost

theorem Superseded.append
    (hRun : MailRun db (newer ++ older))
    (hLost : Superseded db lease older) :
    Superseded db lease (newer ++ older) := by
  induction newer with
  | nil => exact hLost
  | cons e newer ih =>
      have hRest : MailRun db ([e] ++ (newer ++ older)) := hRun
      exact Superseded.event hRun (ih hRest.suffix)

/- A charge that uses a lost lease changes no row. -/
theorem Superseded.outbox_eq
    {charge : Charge}
    {ks : List MailKey}
    {rows rows' : List OutboxRow}
    (hStep : OutboxStep charge ks rows rows')
    (hUses : charge.Uses lease)
    (hLost : ∀ r ∈ rows, lease.holds r = false) :
    rows' = rows := by
  have hNone : ∀ r ∈ rows, ¬ charge.Affects r := by
    intro r hRow hAffects
    have hNot := hLost r hRow
    cases charge with
    | renewal lease' now =>
        have hSame : lease' = lease := hUses
        rw [hSame] at hAffects
        rw [show lease.holds r = true from hAffects] at hNot
        cases hNot
    | acknowledgment lease' now =>
        have hSame : lease' = lease := hUses
        rw [hSame] at hAffects
        rw [show lease.holds r = true from hAffects] at hNot
        cases hNot
    | failure lease' category now =>
        have hSame : lease' = lease := hUses
        rw [hSame] at hAffects
        rw [show lease.holds r = true from hAffects] at hNot
        cases hNot
    | _ => cases hUses
  rcases hStep.parts with ⟨kept, added, rfl, hKept, hAdded⟩
  have hSame : kept = rows := by
    clear hLost hStep hAdded
    induction hKept with
    | nil => rfl
    | cons hHead hTail ih =>
        rw [ih (fun r hRow =>
          hNone r (List.mem_cons_of_mem _ hRow))]
        rcases hHead with hEq | ⟨-, hAffects, -⟩
        · rw [hEq]
        · exact absurd hAffects (hNone _ List.mem_cons_self)
  rcases hAdded with rfl | ⟨e, rfl, -⟩
  · rw [hSame, List.append_nil]
  · cases hUses

/-
  Once the row of a claimed lease is no longer processed
  under it, every statement with that lease finds no row, so
  that it returns `False`, and every commit of such a
  statement leaves the outbox as it was.
-/
theorem superseded_lease_inert
    {W : World mail}
    {db : Mailroom}
    {env : W.Carrier}
    {s : Sys W Mailroom MailReply}
    {lease : OutboxLease}
    {newer older : MailTrace}
    (hValid : MailValid db)
    (hReach : Reachable mailPrograms (Sys.initial db env) s)
    (hDistinct : Distinct db s.trace)
    (hTrace : s.trace = newer ++ older)
    (hLost : Superseded db lease older) :
    Superseded db lease s.trace ∧
    (∀ later pid act earlier,
      newer = later ++ .ran pid act :: earlier →
        act.query = .fenced lease → act.keys = []) ∧
    ∀ later pid log before after answer earlier,
      newer =
          later ++
            .committed pid log before after answer ::
              earlier →
        FencedBy lease log → after.outbox = before.outbox := by
  have hRun := MailRun.of_reachable hValid hReach hDistinct
  rw [hTrace] at hRun ⊢
  refine ⟨hLost.append hRun, ?_, ?_⟩
  · intro later pid act earlier hNewer hQuery
    rw [hNewer, List.append_assoc, List.cons_append] at hRun
    have hEarlier : MailRun db ([_] ++ (earlier ++ older)) :=
      hRun.suffix
    have hNow := hLost.append hEarlier.suffix
    rw [(hRun.statement.fenced lease hQuery).2]
    apply List.map_eq_nil_iff.mpr
    apply List.filter_eq_nil_iff.mpr
    intro r hRow
    rw [hNow.lost r hRow]
    simp
  · intro later pid log before after answer earlier hNewer
      hFenced
    rw [hNewer, List.append_assoc, List.cons_append] at hRun
    have hEarlier : MailRun db ([_] ++ (earlier ++ older)) :=
      hRun.suffix
    have hNow := hLost.append hEarlier.suffix
    rcases hRun.transaction with ⟨hLink, charge, hTransaction⟩
    apply
      Superseded.outbox_eq hTransaction.step.outbox
        (hTransaction.fenced lease hFenced)
    rw [hLink]
    exact hNow.lost

/- The statement of the event is fenced with the token. -/
def usesToken (token : Uuid) :
    Event mail Mailroom MailReply → Bool
| .ran _ ⟨.fenced lease, _, _⟩ => lease.leaseToken = token
| _ => false

/-
  The slow worker has lost its lease for good; it goes on to
  acknowledge the event, and nothing happens.
-/
theorem superseded_lease_inert_slow :
    ∃ pid lease act newer older,
      slow.trace = newer ++ older ∧
      lease.leaseToken = 10 ∧
      .ran pid act ∈ newer ∧ act.query = .fenced lease ∧
      Superseded oneEvent lease slow.trace ∧
      act.keys = [] ∧
      ∀ later pid log before after answer earlier,
        newer =
            later ++
              .committed pid log before after answer ::
                earlier →
          FencedBy lease log →
            after.outbox = before.outbox := by
  have hRun :=
    MailRun.of_reachable oneEvent_valid slow_reachable
      slow_distinct
  have hSplit := List.take_append_drop 22 slow.trace
  have hSplit' :=
    List.take_append_drop 15 (slow.trace.drop 22)
  have hParts := hRun
  rw [← hSplit, ← hSplit'] at hParts
  have hClaim := hParts.suffix.suffix
  have hRow :
      ∃ r ∈ (latest oneEvent
          ((slow.trace.drop 22).drop 15)).outbox,
        r.leaseToken = some 10 := by
    decide +kernel
  rcases hRow with ⟨r, hMem, hToken⟩
  rcases token_origin hClaim r hMem 10 hToken with
    ⟨r₀, hRow₀, hOld⟩ | ⟨pid', lease', hClaimed', hLease', -⟩
  · rw [List.mem_singleton.mp hRow₀] at hOld
    cases hOld
  have hLater : ClaimedBy pid' lease' (slow.trace.drop 22) := by
    have hAppend :=
      hClaimed'.append ((slow.trace.drop 22).take 15)
    rw [hSplit'] at hAppend
    exact hAppend
  have hAll : ClaimedBy pid' lease' slow.trace := by
    have hAppend := hLater.append (slow.trace.take 22)
    rw [hSplit] at hAppend
    exact hAppend
  -- the acknowledgment comes when the lease has been lost
  have hUses :
      (slow.trace.take 22).any (usesToken 10) = true := by
    decide +kernel
  rcases List.any_eq_true.mp hUses with ⟨e, hLate, hEvent⟩
  rcases List.append_of_mem hLate with ⟨later, earlier, hTake⟩
  unfold usesToken at hEvent
  split at hEvent
  swap
  · cases hEvent
  rename_i pid lease a ks
  have hLease : lease.leaseToken = 10 :=
    of_decide_eq_true hEvent
  have hHere :
      MailRun oneEvent
        (later ++
          .ran pid ⟨.fenced lease, a, ks⟩ ::
            (earlier ++ slow.trace.drop 22)) := by
    rw [← List.cons_append, ← List.append_assoc, ← hTake,
      hSplit]
    exact hRun
  have hSame : lease = lease' := by
    have hClaimed :=
      (hHere.statement.fenced lease rfl).1.append
        (later ++ [.ran pid ⟨.fenced lease, a, ks⟩])
    rw [List.append_assoc, List.singleton_append,
      ← List.cons_append, ← List.append_assoc, ← hTake,
      hSplit] at hClaimed
    exact
      (claimed_unique hRun hClaimed hAll
        (hLease.trans hLease'.symm)).2
  have hNone :
      (latest oneEvent (slow.trace.drop 22)).outbox.all
        (fun r => r.leaseToken.isNone) = true := by
    decide +kernel
  have hLost : Superseded oneEvent lease (slow.trace.drop 22) := {
    claimed := ⟨pid', hSame ▸ hLater⟩
    lost := by
      intro r' hRow'
      rw [Bool.eq_false_iff]
      intro hHolds
      have hFree := List.all_eq_true.mp hNone r' hRow'
      rw [(OutboxLease.holds_iff.mp hHolds).2.1] at hFree
      cases hFree
  }
  rcases
      superseded_lease_inert oneEvent_valid slow_reachable
        slow_distinct hSplit.symm hLost with
    ⟨hSuperseded, hInert, hCommits⟩
  exact
    ⟨pid, lease, _, _, _, hSplit.symm, hLease, hLate, rfl,
      hSuperseded, hInert later pid _ earlier hTake rfl,
      hCommits⟩

end PigBook.Delivery
