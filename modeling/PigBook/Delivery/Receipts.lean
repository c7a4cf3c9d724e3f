import PigBook.Delivery.Leases

/-
  Receipts and messages over whole runs of the outbox.

  Key definitions include:
    * `OutboxRow.Accounted`
    * `SentFor`
    * `sentTokens`, `Unsettled`

  Key theorems include:
    * `accounted_latest`
    * `receipts_account_for_deliveries`
    * `no_send_after_settlement`
-/

------------------------------------------------------------
-- Settled Receipts
------------------------------------------------------------

namespace PigBook.Delivery

open ReadCommitted

variable {db : Mailroom} {trace : MailTrace}

/- A delivered event has a settled receipt of its recipient. -/
def OutboxRow.Accounted
    (s : Mailroom)
    (r : OutboxRow) : Prop :=
  r.status = .delivered →
    ∀ recipientId, r.payload.recipientId = some recipientId →
      ∃ d ∈ s.receipts, d.key = (r.id, recipientId) ∧
        d.state ≠ .pending

/- Only an acknowledgment makes a row delivered. -/
theorem Charge.delivered_effect
    {charge : Charge}
    {r : OutboxRow}
    (hAffects : charge.Affects r)
    (hDelivered : (charge.effect r).status = .delivered) :
    ∃ lease now, charge = .acknowledgment lease now := by
  cases charge with
  | nothing => cases hAffects
  | append e => cases hAffects
  | acknowledgment lease now => exact ⟨lease, now, rfl⟩
  | claim lease now => cases hDelivered
  | retry id now => cases hDelivered
  | renewal lease now =>
      have hStatus := (OutboxLease.holds_iff.mp hAffects).2.2
      have hSame : r.status = .delivered := hDelivered
      rw [hStatus] at hSame
      cases hSame
  | recovery now =>
      unfold Charge.effect at hDelivered
      dsimp only at hDelivered
      split at hDelivered
      · cases hDelivered
      · cases hDelivered
  | failure lease category now =>
      unfold Charge.effect failedRow at hDelivered
      dsimp only at hDelivered
      split at hDelivered
      · cases hDelivered
      · cases hDelivered

/- A settled receipt is found in the next store, settled. -/
theorem ReceiptsStep.settled
    {ks : List MailKey}
    {receipts receipts' : List NotificationDelivery}
    {key : Uuid × Uuid}
    (hStep : ReceiptsStep ks receipts receipts')
    (hSettled :
      ∃ d ∈ receipts, d.key = key ∧ d.state ≠ .pending) :
    ∃ d ∈ receipts', d.key = key ∧ d.state ≠ .pending := by
  rcases hSettled with ⟨d, hRow, hKey, hState⟩
  rcases hStep.later hRow with ⟨d', hRow', hMove⟩
  exact
    ⟨d', hRow', hMove.same_key.trans hKey,
      hMove.settled hState⟩

theorem accounted_latest
    (hStart : ∀ r ∈ db.outbox, r.Accounted db)
    (hRun : MailRun db trace) :
    ∀ r ∈ (latest db trace).outbox,
      r.Accounted (latest db trace) := by
  refine
    MailRun.induction
      (P := fun _ t => ∀ r ∈ t.outbox, r.Accounted t) hStart
      (fun _ _ _ _ hBefore => hBefore) ?_ hRun
  intro pid log before after answer older charge hHere hLink
    hTransaction hBefore r hRow hDelivered recipientId
    hRecipient
  rcases hTransaction.step.outbox.origin hRow with
    ⟨r₀, hRow₀, rfl | ⟨-, hAffects, rfl⟩⟩ | ⟨e, -, rfl, -⟩
  · apply hTransaction.step.receipts.settled
    exact hBefore _ hRow₀ hDelivered recipientId hRecipient
  · rcases charge.delivered_effect hAffects hDelivered with
      ⟨lease, now, rfl⟩
    have hToken := (OutboxLease.holds_iff.mp hAffects).2.1
    have hMade : MadeOf lease r₀ :=
      lease_attempts hHere hLink hTransaction rfl hRow₀ hToken
    have hSettled := hTransaction.warranted.2.2.2
    rcases hSettled recipientId (hMade.payload ▸ hRecipient) with
      ⟨d, hMem, hKey, hState⟩
    exact
      ⟨d, hMem, hKey.trans (by rw [← hMade.id]; rfl), hState⟩
  · cases hDelivered

/- The adapter took a message for the receipt. -/
def SentFor
    (d : NotificationDelivery)
    (trace : MailTrace) : Prop :=
  ∃ pid lease providerId, lease.id = d.eventId ∧
    lease.payload.recipientId = some d.recipientId ∧
    d.providerMessageId = some providerId ∧
    Answered pid lease (.sent providerId) trace

theorem SentFor.append
    {d : NotificationDelivery}
    (newer : MailTrace)
    (hSent : SentFor d trace) :
    SentFor d (newer ++ trace) := by
  rcases hSent with
    ⟨pid, lease, providerId, hId, hRecipient, hProvider,
      hAnswered⟩
  exact
    ⟨pid, lease, providerId, hId, hRecipient, hProvider,
      hAnswered.append newer⟩

theorem sent_latest
    (hRun : MailRun db trace) :
    ∀ d ∈ (latest db trace).receipts, d.state = .sent →
      d ∈ db.receipts ∨ SentFor d trace := by
  refine
    MailRun.induction
      (P := fun older t =>
        ∀ d ∈ t.receipts, d.state = .sent →
          d ∈ db.receipts ∨ SentFor d older)
      (fun d hRow _ => Or.inl hRow) ?_ ?_ hRun
  · intro e older t _ hBefore d hRow hState
    rcases hBefore d hRow hState with hOld | hSent
    · exact Or.inl hOld
    · exact Or.inr (hSent.append [e])
  · intro pid log before after answer older charge _ _
      hTransaction hBefore d hRow hState
    rcases hTransaction.sent d hRow hState with hOld | hSent
    · rcases hBefore d hOld hState with hFirst | hSent
      · exact Or.inl hFirst
      · exact Or.inr (hSent.append [_])
    · rcases hSent with ⟨lease, providerId, hSent⟩
      apply Or.inr
      apply SentFor.append [_]
      exact ⟨pid, lease, providerId, hSent⟩

/- The receipt is still there, and is not less settled. -/
structure ReceiptMove (d d' : NotificationDelivery) : Prop where
  key : d'.key = d.key
  settled : d.state ≠ .pending → d'.state ≠ .pending
  sent : d.state = .sent → d'.state = .sent

theorem ReceiptStep.move
    {ks : List MailKey}
    {d d' : NotificationDelivery}
    (hStep : ReceiptStep ks d d') :
    ReceiptMove d d' where
  key := hStep.same_key
  settled := hStep.settled
  sent := by
    intro hSent
    rcases hStep.state with rfl | ⟨-, hState | ⟨hPending, -⟩⟩
    · exact hSent
    · exact hState
    · rw [hSent] at hPending
      cases hPending

/-
  In every run an event has one receipt at most for each
  recipient, a delivered event has a settled one, and a
  receipt says `sent` only if the adapter took the message.
  Receipts are never lost, reopened, or unsent.
-/
theorem receipts_account_for_deliveries
    {W : World mail}
    {db : Mailroom}
    {env : W.Carrier}
    {s : Sys W Mailroom MailReply}
    (hValid : MailValid db)
    (hStart : ∀ r ∈ db.outbox, r.Accounted db)
    (hReach : Reachable mailPrograms (Sys.initial db env) s)
    (hDistinct : Distinct db s.trace) :
    (∀ t ∈ states db s.trace,
      Keyed NotificationDelivery.key t.receipts ∧
      (∀ r ∈ t.outbox, r.Accounted t) ∧
      ∀ d ∈ t.receipts, d.state = .sent →
        d ∈ db.receipts ∨ SentFor d s.trace) ∧
    ∀ c ∈ commits s.trace, ∀ d ∈ c.before.receipts,
      ∃ d' ∈ c.after.receipts, ReceiptMove d d' := by
  have hRun := MailRun.of_reachable hValid hReach hDistinct
  constructor
  · intro t hMem
    rcases exists_of_mem_states hMem with
      ⟨newer, older, hTrace, rfl⟩
    rw [hTrace] at hRun ⊢
    refine
      ⟨hRun.suffix.valid.receipts,
        accounted_latest hStart hRun.suffix, ?_⟩
    intro d hRow hState
    rcases sent_latest hRun.suffix d hRow hState with
      hOld | hSent
    · exact Or.inl hOld
    · exact Or.inr (hSent.append newer)
  · intro c hc d hRow
    rcases exists_of_mem_commits hc with
      ⟨newer, pid, older, hTrace⟩
    rw [hTrace] at hRun
    rcases hRun.transaction with ⟨-, charge, hTransaction⟩
    rcases hTransaction.step.receipts.later hRow with
      ⟨d', hRow', hMove⟩
    exact ⟨d', hRow', hMove.move⟩

/- The receipt of the slow worker's event was earned. -/
theorem receipts_account_for_deliveries_slow :
    ∃ d ∈ (latest oneEvent slow.trace).receipts,
      d.state = .sent ∧ SentFor d slow.trace := by
  have hStart : ∀ r ∈ oneEvent.outbox, r.Accounted oneEvent := by
    intro r hRow hDelivered
    rw [List.mem_singleton.mp hRow] at hDelivered
    cases hDelivered
  have hSent :
      ∃ d ∈ (latest oneEvent slow.trace).receipts,
        d.state = .sent := by
    decide +kernel
  rcases hSent with ⟨d, hRow, hState⟩
  refine ⟨d, hRow, hState, ?_⟩
  have hAll :=
    (receipts_account_for_deliveries oneEvent_valid hStart
      slow_reachable slow_distinct).1
  rcases
      (hAll _ (latest_mem_states _ _)).2.2 d hRow hState with
    hOld | hTaken
  · cases hOld
  · exact hTaken

end PigBook.Delivery

------------------------------------------------------------
-- Messages
------------------------------------------------------------

namespace PigBook.Delivery

open ReadCommitted

/- The token under which an event of the history is sent. -/
def sentToken (id : Uuid) :
    Event mail Mailroom MailReply → Option Uuid
| .ran _ ⟨.send lease _, _, _⟩ =>
    if lease.id = id then some lease.leaseToken else none
| _ => none

/- The tokens of the messages of an event, the latest first. -/
def sentTokens (id : Uuid) (trace : MailTrace) : List Uuid :=
  trace.filterMap (sentToken id)

theorem mem_sentTokens
    {id token : Uuid}
    {trace : MailTrace}
    (hMem : token ∈ sentTokens id trace) :
    ∃ newer pid lease message result ks older,
      trace =
        newer ++
          .ran pid ⟨.send lease message, result, ks⟩ ::
            older ∧
      lease.id = id ∧ lease.leaseToken = token := by
  rcases List.mem_filterMap.mp hMem with ⟨e, hEvent, hToken⟩
  rcases List.append_of_mem hEvent with ⟨newer, older, rfl⟩
  unfold sentToken at hToken
  split at hToken
  · rename_i pid lease message result ks
    by_cases hId : lease.id = id
    · rw [if_pos hId] at hToken
      exact
        ⟨newer, pid, lease, message, result, ks, older, rfl,
          hId, Option.some.inj hToken⟩
    · rw [if_neg hId] at hToken
      cases hToken
  · cases hToken

end PigBook.Delivery

------------------------------------------------------------
-- No Message After Settlement
------------------------------------------------------------

namespace PigBook.Delivery

open ReadCommitted

variable {db : Mailroom} {newer older : MailTrace}

/- No receipt of the key is settled in the store. -/
def Unsettled (key : Uuid × Uuid) (s : Mailroom) : Prop :=
  ∀ d ∈ s.receipts, d.key = key → d.state = .pending

/- What is settled once is settled ever after. -/
theorem settled_append
    {key : Uuid × Uuid}
    (hRun : MailRun db (newer ++ older))
    (hSettled :
      ∃ d ∈ (latest db older).receipts, d.key = key ∧
        d.state ≠ .pending) :
    ∃ d ∈ (latest db (newer ++ older)).receipts, d.key = key ∧
      d.state ≠ .pending := by
  induction newer with
  | nil => exact hSettled
  | cons e newer ih =>
      have hHere : MailRun db ([e] ++ (newer ++ older)) := hRun
      have hBefore := ih hHere.suffix
      cases e with
      | committed pid log before after answer =>
          have hSelf :
              MailRun db
                ([] ++
                  .committed pid log before after answer ::
                    (newer ++ older)) :=
            hRun
          rcases hSelf.transaction with
            ⟨hLink, charge, hTransaction⟩
          rw [← hLink] at hBefore
          exact hTransaction.step.receipts.settled hBefore
      | _ => exact hBefore

/- So what is pending now has never been settled. -/
theorem unsettled_states
    {trace : MailTrace}
    {key : Uuid × Uuid}
    {d : NotificationDelivery}
    (hRun : MailRun db trace)
    (hRow : d ∈ (latest db trace).receipts)
    (hKey : d.key = key)
    (hPending : d.state = .pending) :
    ∀ t ∈ states db trace, Unsettled key t := by
  intro t hMem d' hRow' hKey'
  rcases exists_of_mem_states hMem with
    ⟨newer, older, rfl, rfl⟩
  by_contra hSettled
  rcases settled_append hRun ⟨d', hRow', hKey', hSettled⟩ with
    ⟨d'', hRow'', hKey'', hState''⟩
  have hSame :=
    hRun.valid.receipts.eq_of_key hRow'' hRow
      (hKey''.trans hKey.symm)
  rw [hSame] at hState''
  exact hState'' hPending

/-
  A message goes out only for a claimed lease.  It is made of
  what the last commit of the client had read: it goes to the
  address of the recipient, who was enabled, and carries the
  stable identifier of the receipt and the rendered text.  No
  receipt of the event and the recipient had been settled in
  any store up to that commit.
-/
theorem no_send_after_settlement
    {W : World mail}
    {db : Mailroom}
    {env : W.Carrier}
    {s : Sys W Mailroom MailReply}
    {newer older : MailTrace}
    {pid : ℕ}
    {lease : OutboxLease}
    {message : EmailMessage}
    {result : SendResult}
    {ks : List MailKey}
    (hValid : MailValid db)
    (hReach : Reachable mailPrograms (Sys.initial db env) s)
    (hDistinct : Distinct db s.trace)
    (hTrace :
      s.trace =
        newer ++
          .ran pid ⟨.send lease message, result, ks⟩ ::
            older) :
    ∃ recipientId,
      lease.payload.recipientId = some recipientId ∧
      message.messageId =
        stableMessageId lease.id recipientId ∧
      ClaimedBy pid lease older ∧
      ∃ others log before after earlier,
        older =
          others ++
            .committed pid log before after none :: earlier ∧
        (∀ e ∈ others, e.pid ≠ pid) ∧
        (∃ user ks, ⟨.user recipientId, some user, ks⟩ ∈ log ∧
          user.enabled = true ∧
          message.toAddress = user.email) ∧
        Composed lease recipientId message log ∧
        ∀ t ∈ states db
            (.committed pid log before after none :: earlier),
          Unsettled (lease.id, recipientId) t := by
  have hRun := MailRun.of_reachable hValid hReach hDistinct
  rw [hTrace] at hRun
  rcases hRun.statement.send lease message rfl with
    ⟨recipientId, hRecipient, hPrepared⟩
  rcases hPrepared with
    ⟨others, log, before, after, earlier, rfl, hOthers, hTaken,
      hComposed, d, hRow, hKey, hPending⟩
  refine ⟨recipientId, hRecipient, hComposed.messageId, ?_⟩
  refine
    ⟨(hTaken.claimed.append [_]).append others, others, log,
      before, after, earlier, rfl, hOthers, ?_, hComposed, ?_⟩
  · rcases hComposed.text with ⟨settings, name, hAddressed, -⟩
    exact hAddressed.user
  · have hSent :
        MailRun db
          ([_] ++
            (others ++
              .committed pid log before after none ::
                earlier)) :=
      hRun.suffix
    have hCommitted := hSent.suffix.suffix
    exact unsettled_states hCommitted hRow hKey hPending

/- The slow worker had prepared its message, and sent it. -/
theorem no_send_after_settlement_slow :
    ∃ pid lease message older recipientId,
      lease.leaseToken = 10 ∧
      lease.payload.recipientId = some recipientId ∧
      message.messageId =
        stableMessageId lease.id recipientId ∧
      ClaimedBy pid lease older ∧
      ∃ others log before after earlier,
        older =
          others ++
            .committed pid log before after none :: earlier ∧
        (∃ user ks, ⟨.user recipientId, some user, ks⟩ ∈ log ∧
          user.enabled = true ∧
          message.toAddress = user.email) ∧
        Composed lease recipientId message log ∧
        ∀ t ∈ states oneEvent
            (.committed pid log before after none :: earlier),
          Unsettled (lease.id, recipientId) t := by
  have hSent : 10 ∈ sentTokens 1 slow.trace := by
    decide +kernel
  rcases mem_sentTokens hSent with
    ⟨newer, pid, lease, message, result, ks, older, hSplit, -,
      hToken⟩
  rcases
      no_send_after_settlement oneEvent_valid slow_reachable
        slow_distinct hSplit with
    ⟨recipientId, hRecipient, hMessage, hClaimed, others, log,
      before, after, earlier, hOlder, -, hRest⟩
  exact
    ⟨pid, lease, message, older, recipientId, hToken,
      hRecipient, hMessage, hClaimed, others, log, before,
      after, earlier, hOlder, hRest⟩

end PigBook.Delivery
