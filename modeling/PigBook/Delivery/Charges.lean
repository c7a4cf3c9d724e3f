import Mathlib.Data.List.Forall2
import PigBook.Delivery.Dispatch

/-
  What transactions do to the outbox and to the receipts.

  A transaction has one charge at most: it recovers leases,
  claims a row, retries one, appends one, or does with a
  lease what the lease is for.

  Key definitions include:
    * `Charge`, `Charge.Affects`, `Charge.effect`
    * `OutboxStep`, `ReceiptsStep`, `AuditStep`, `MailStep`
    * `OutboxRow.Sound`, `MailValid`, `MailStable`

  Key theorems include:
    * `MailStep.valid`
    * `MailStep.stable`
-/

------------------------------------------------------------
-- Charges
------------------------------------------------------------

namespace PigBook.Delivery

inductive Charge
  | nothing
  | recovery (now : ℤ)
  | claim (lease : OutboxLease) (now : ℤ)
  | renewal (lease : OutboxLease) (now : ℤ)
  | acknowledgment (lease : OutboxLease) (now : ℤ)
  | failure
      (lease : OutboxLease)
      (category : String)
      (now : ℤ)
  | retry (id : Uuid) (now : ℤ)
  | append (e : OutboxEvent)

namespace Charge

/- The rows that a transaction with the charge may change. -/
def Affects : Charge → OutboxRow → Prop
| nothing, _ => False
| recovery now, r => r.expired now = true
| claim lease now, r =>
    r.status = .pending ∧
      leaseOf lease.leaseToken r = lease ∧ r.availableAt ≤ now
| renewal lease _, r => lease.holds r = true
| acknowledgment lease _, r => lease.holds r = true
| failure lease _ _, r => lease.holds r = true
| retry id _, r => r.id = id ∧ r.status = .dead
| append _, _ => False

/- And what they become. -/
def effect : Charge → OutboxRow → OutboxRow
| nothing, r => r
| recovery now, r =>
    if 8 ≤ r.attempts then buriedRow r else releasedRow now r
| claim lease now, r =>
    claimedRow lease.leaseToken lease.attempts now r
| renewal _ now, r => renewedRow now r
| acknowledgment _ now, r => deliveredRow now r
| failure lease category now, r =>
    failedRow lease category now r
| retry _ now, r => retriedRow now r
| append _, r => r

/- What stays as it was appended. -/
structure Same (r r' : OutboxRow) : Prop where
  id : r'.id = r.id
  eventType : r'.eventType = r.eventType
  aggregateId : r'.aggregateId = r.aggregateId
  aggregateVersion : r'.aggregateVersion = r.aggregateVersion
  payload : r'.payload = r.payload
  occurredAt : r'.occurredAt = r.occurredAt

theorem same_effect (charge : Charge) (r : OutboxRow) :
    Same r (charge.effect r) := by
  cases charge with
  | recovery now =>
      unfold effect
      dsimp only
      split
      · exact ⟨rfl, rfl, rfl, rfl, rfl, rfl⟩
      · exact ⟨rfl, rfl, rfl, rfl, rfl, rfl⟩
  | _ => exact ⟨rfl, rfl, rfl, rfl, rfl, rfl⟩

end Charge

/- The row stays, or is changed under its lock. -/
def RowStep
    (charge : Charge)
    (ks : List MailKey)
    (r r' : OutboxRow) : Prop :=
  r' = r ∨
    .outboxUpdate r.id ∈ ks ∧ charge.Affects r ∧
      r' = charge.effect r

theorem RowStep.same
    {charge : Charge}
    {ks : List MailKey}
    {r r' : OutboxRow}
    (hStep : RowStep charge ks r r') :
    Charge.Same r r' := by
  rcases hStep with rfl | ⟨-, -, rfl⟩
  · exact ⟨rfl, rfl, rfl, rfl, rfl, rfl⟩
  · exact charge.same_effect r

/- The unique keys of an event. -/
def OutboxEvent.aggregateKey
    (e : OutboxEvent) : Uuid × ℕ × EventType :=
  (e.aggregateId, e.aggregateVersion, e.eventType)

/- Rows are kept in their places; one may be appended. -/
structure OutboxStep
    (charge : Charge)
    (ks : List MailKey)
    (rows rows' : List OutboxRow) : Prop where
  parts :
    ∃ kept added, rows' = kept ++ added ∧
      List.Forall₂ (RowStep charge ks) rows kept ∧
      (added = [] ∨
        ∃ e, charge = .append e ∧ added = [insertedRow e] ∧
          .outboxPkey e.id ∈ ks ∧
          .outboxAggregate e.aggregateId e.aggregateVersion
            e.eventType ∈ ks ∧
          (∀ r ∈ rows, r.id ≠ e.id) ∧
          ∀ r ∈ rows,
            OutboxEvent.aggregateKey r.toOutboxEvent ≠
              OutboxEvent.aggregateKey e)

/- The receipt stays, is sent, or is skipped while pending. -/
structure ReceiptStep
    (ks : List MailKey)
    (d d' : NotificationDelivery) : Prop where
  id : d'.id = d.id
  eventId : d'.eventId = d.eventId
  recipientId : d'.recipientId = d.recipientId
  state :
    d' = d ∨
      .receiptUpdate d.eventId d.recipientId ∈ ks ∧
        (d'.state = .sent ∨
          d.state = .pending ∧ d'.state = .skipped)

/- Receipts are kept in their places; one may be created. -/
structure ReceiptsStep
    (ks : List MailKey)
    (receipts receipts' : List NotificationDelivery) : Prop where
  parts :
    ∃ kept added, receipts' = kept ++ added ∧
      List.Forall₂ (ReceiptStep ks) receipts kept ∧
      (added = [] ∨
        ∃ d, added = [d] ∧
          .receiptEntry d.eventId d.recipientId ∈ ks ∧
          ∀ d' ∈ receipts,
            d'.isFor d.eventId d.recipientId = false)

/- A retry is recorded, and nothing else is. -/
inductive AuditStep
    (before : Mailroom) :
    Charge → List OutboxAudit → Prop
  | retried
      {id : Uuid} {now : ℤ} {a : OutboxAudit} {r : OutboxRow}
      (hRow : r ∈ before.outbox)
      (hAffects : (Charge.retry id now).Affects r)
      (hAction : a.action = "admin.outbox_retry")
      (hTarget : a.targetId = some id)
      (hActor : a.actorId.isSome) :
      AuditStep before (.retry id now) [a]
  | silent
      {charge : Charge}
      (hCharge : ∀ id now, charge ≠ .retry id now) :
      AuditStep before charge []

/- A whole transaction. -/
structure MailStep
    (charge : Charge)
    (ks : List MailKey)
    (before after : Mailroom) : Prop where
  outbox : OutboxStep charge ks before.outbox after.outbox
  receipts : ReceiptsStep ks before.receipts after.receipts
  audit :
    ∃ added, after.audit = before.audit ++ added ∧
      AuditStep before charge added

end PigBook.Delivery

------------------------------------------------------------
-- Rows of a Step
------------------------------------------------------------

namespace PigBook.Delivery

open ReadCommitted

section Rows

variable {charge : Charge} {ks : List MailKey}
variable {rows rows' : List OutboxRow} {r : OutboxRow}

theorem OutboxStep.grows
    (hStep : OutboxStep charge ks rows rows') :
    Grows (RowStep charge ks)
      (fun r => ∃ e, charge = .append e ∧ r = insertedRow e ∧
        .outboxPkey e.id ∈ ks ∧
        .outboxAggregate e.aggregateId e.aggregateVersion
          e.eventType ∈ ks)
      rows rows' := by
  rcases hStep.parts with ⟨kept, added, rfl, hKept, hAdded⟩
  apply Grows.of_forall₂ hKept
  intro r hMem
  rcases hAdded with rfl | ⟨e, hAppend, rfl, hId, hKey, -⟩
  · cases hMem
  · rw [List.mem_singleton.mp hMem]
    exact ⟨e, hAppend, rfl, hId, hKey⟩

/- Each row is found later on. -/
theorem OutboxStep.later
    (hStep : OutboxStep charge ks rows rows')
    (hRow : r ∈ rows) :
    ∃ r' ∈ rows', RowStep charge ks r r' :=
  hStep.grows.later hRow

/- Each row was there before, or is new. -/
theorem OutboxStep.origin
    (hStep : OutboxStep charge ks rows rows')
    (hRow : r ∈ rows') :
    (∃ r₀ ∈ rows, RowStep charge ks r₀ r) ∨
      ∃ e, charge = .append e ∧ r = insertedRow e ∧
        .outboxPkey e.id ∈ ks ∧
        .outboxAggregate e.aggregateId e.aggregateVersion
          e.eventType ∈ ks :=
  hStep.grows.origin hRow

/- A key that no step changes keeps its table keyed. -/
theorem keyed_of_parts
    {ρ κ : Type}
    {key : ρ → κ}
    {step : ρ → ρ → Prop}
    {rows kept added : List ρ}
    (hKeyed : Keyed key rows)
    (hKept : List.Forall₂ step rows kept)
    (hSame : ∀ {r r'}, step r r' → key r' = key r)
    (hAdded :
      added = [] ∨
        ∃ r, added = [r] ∧ ∀ r' ∈ rows, key r' ≠ key r) :
    Keyed key (kept ++ added) := by
  have hKeys : kept.map key = rows.map key := by
    clear hKeyed hAdded
    induction hKept with
    | nil => rfl
    | cons hHead hTail ih =>
        rw [List.map_cons, List.map_cons, hSame hHead, ih]
  have hFirst : Keyed key kept := by
    have hPairwise : (kept.map key).Pairwise (· ≠ ·) := by
      rw [hKeys]
      exact List.pairwise_map.mpr hKeyed
    exact List.pairwise_map.mp hPairwise
  rcases hAdded with rfl | ⟨r, rfl, hFresh⟩
  · rw [List.append_nil]
    exact hFirst
  · apply hFirst.append_singleton
    intro r' hRow
    have hMem : key r' ∈ rows.map key := by
      rw [← hKeys]
      exact List.mem_map_of_mem hRow
    rcases List.mem_map.mp hMem with ⟨r₀, hRow₀, hKey⟩
    rw [← hKey]
    exact hFresh r₀ hRow₀

theorem OutboxStep.keyed_id
    (hStep : OutboxStep charge ks rows rows')
    (hKeyed : Keyed (fun r : OutboxRow => r.id) rows) :
    Keyed (fun r : OutboxRow => r.id) rows' := by
  rcases hStep.parts with ⟨kept, added, rfl, hKept, hAdded⟩
  apply keyed_of_parts hKeyed hKept (fun hRow => hRow.same.id)
  rcases hAdded with rfl | ⟨e, -, rfl, -, -, hFresh, -⟩
  · exact Or.inl rfl
  · exact Or.inr ⟨insertedRow e, rfl, hFresh⟩

theorem OutboxStep.keyed_aggregate
    (hStep : OutboxStep charge ks rows rows')
    (hKeyed :
      Keyed (fun r : OutboxRow =>
        OutboxEvent.aggregateKey r.toOutboxEvent) rows) :
    Keyed (fun r : OutboxRow =>
      OutboxEvent.aggregateKey r.toOutboxEvent) rows' := by
  rcases hStep.parts with ⟨kept, added, rfl, hKept, hAdded⟩
  refine keyed_of_parts hKeyed hKept ?_ ?_
  · intro r r' hRow
    unfold OutboxEvent.aggregateKey
    rw [hRow.same.aggregateId, hRow.same.aggregateVersion,
      hRow.same.eventType]
  · rcases hAdded with rfl | ⟨e, -, rfl, -, -, -, hFresh⟩
    · exact Or.inl rfl
    · exact Or.inr ⟨insertedRow e, rfl, hFresh⟩

/- The rows that nobody may change are there before and after. -/
theorem OutboxStep.mem_of_not_locked
    (hStep : OutboxStep charge ks rows rows')
    (hRow : r ∈ rows)
    (hFree : .outboxUpdate r.id ∉ ks) :
    r ∈ rows' := by
  rcases hStep.later hRow with ⟨r', hRow', hMove⟩
  rcases hMove with rfl | ⟨hKey, -, -⟩
  · exact hRow'
  · exact absurd hKey hFree

/- More keys do no harm. -/
theorem OutboxStep.mono
    {ks' : List MailKey}
    (hSubset : ∀ k ∈ ks, k ∈ ks')
    (hStep : OutboxStep charge ks rows rows') :
    OutboxStep charge ks' rows rows' := by
  rcases hStep.parts with ⟨kept, added, hRows, hKept, hAdded⟩
  refine ⟨kept, added, hRows, hKept.imp ?_, ?_⟩
  · intro r r' hMove
    rcases hMove with hSame | ⟨hKey, hAffects, hEffect⟩
    · exact Or.inl hSame
    · exact Or.inr ⟨hSubset _ hKey, hAffects, hEffect⟩
  · rcases hAdded with
      hNone | ⟨e, hAppend, hNew, hId, hKey, hFresh⟩
    · exact Or.inl hNone
    · exact
        Or.inr
          ⟨e, hAppend, hNew, hSubset _ hId, hSubset _ hKey, hFresh⟩

theorem OutboxStep.refl
    (charge : Charge)
    (ks : List MailKey)
    (rows : List OutboxRow) :
    OutboxStep charge ks rows rows where
  parts :=
    ⟨rows, [], (List.append_nil rows).symm,
      List.forall₂_same.mpr (fun _ _ => Or.inl rfl),
      Or.inl rfl⟩

end Rows

section Receipts

variable {ks : List MailKey}
variable {receipts receipts' : List NotificationDelivery}
variable {d : NotificationDelivery}

theorem ReceiptsStep.grows
    (hStep : ReceiptsStep ks receipts receipts') :
    Grows (ReceiptStep ks)
      (fun d => .receiptEntry d.eventId d.recipientId ∈ ks ∧
        ∀ d' ∈ receipts,
          d'.isFor d.eventId d.recipientId = false)
      receipts receipts' := by
  rcases hStep.parts with ⟨kept, added, rfl, hKept, hAdded⟩
  apply Grows.of_forall₂ hKept
  intro d hMem
  rcases hAdded with rfl | ⟨d', rfl, hKey, hNone⟩
  · cases hMem
  · rw [List.mem_singleton.mp hMem]
    exact ⟨hKey, hNone⟩

theorem ReceiptsStep.later
    (hStep : ReceiptsStep ks receipts receipts')
    (hRow : d ∈ receipts) :
    ∃ d' ∈ receipts', ReceiptStep ks d d' :=
  hStep.grows.later hRow

theorem ReceiptsStep.origin
    (hStep : ReceiptsStep ks receipts receipts')
    (hRow : d ∈ receipts') :
    (∃ d₀ ∈ receipts, ReceiptStep ks d₀ d) ∨
      .receiptEntry d.eventId d.recipientId ∈ ks ∧
        ∀ d' ∈ receipts,
          d'.isFor d.eventId d.recipientId = false :=
  hStep.grows.origin hRow

/- What a receipt is for. -/
def NotificationDelivery.key
    (d : NotificationDelivery) : Uuid × Uuid :=
  (d.eventId, d.recipientId)

theorem NotificationDelivery.isFor_iff
    {eventId recipientId : Uuid} :
    d.isFor eventId recipientId = true ↔
      d.key = (eventId, recipientId) := by
  unfold NotificationDelivery.isFor NotificationDelivery.key
  rw [decide_eq_true_eq, Prod.mk.injEq]

theorem ReceiptsStep.keyed
    (hStep : ReceiptsStep ks receipts receipts')
    (hKeyed : Keyed NotificationDelivery.key receipts) :
    Keyed NotificationDelivery.key receipts' := by
  rcases hStep.parts with ⟨kept, added, rfl, hKept, hAdded⟩
  refine keyed_of_parts hKeyed hKept ?_ ?_
  · intro d d' hMove
    unfold NotificationDelivery.key
    rw [hMove.eventId, hMove.recipientId]
  · rcases hAdded with rfl | ⟨d, rfl, -, hNone⟩
    · exact Or.inl rfl
    · refine Or.inr ⟨d, rfl, ?_⟩
      intro d' hRow hSame
      have hFor :=
        NotificationDelivery.isFor_iff.mpr hSame
      rw [hNone d' hRow] at hFor
      cases hFor

theorem ReceiptsStep.mem_of_not_locked
    (hStep : ReceiptsStep ks receipts receipts')
    (hRow : d ∈ receipts)
    (hFree : .receiptUpdate d.eventId d.recipientId ∉ ks) :
    d ∈ receipts' := by
  rcases hStep.later hRow with ⟨d', hRow', hMove⟩
  rcases hMove.state with rfl | ⟨hKey, -⟩
  · exact hRow'
  · exact absurd hKey hFree

theorem ReceiptsStep.refl
    (ks : List MailKey)
    (receipts : List NotificationDelivery) :
    ReceiptsStep ks receipts receipts where
  parts :=
    ⟨receipts, [], (List.append_nil receipts).symm,
      List.forall₂_same.mpr
        (fun _ _ => ⟨rfl, rfl, rfl, Or.inl rfl⟩),
      Or.inl rfl⟩

theorem ReceiptsStep.mono
    {ks' : List MailKey}
    (hSubset : ∀ k ∈ ks, k ∈ ks')
    (hStep : ReceiptsStep ks receipts receipts') :
    ReceiptsStep ks' receipts receipts' := by
  rcases hStep.parts with ⟨kept, added, hRows, hKept, hAdded⟩
  refine ⟨kept, added, hRows, hKept.imp ?_, ?_⟩
  · intro d d' hMove
    refine ⟨hMove.id, hMove.eventId, hMove.recipientId, ?_⟩
    rcases hMove.state with hSame | ⟨hKey, hState⟩
    · exact Or.inl hSame
    · exact Or.inr ⟨hSubset _ hKey, hState⟩
  · rcases hAdded with hNone | ⟨d, hNew, hKey, hFresh⟩
    · exact Or.inl hNone
    · exact Or.inr ⟨d, hNew, hSubset _ hKey, hFresh⟩

end Receipts

end PigBook.Delivery

------------------------------------------------------------
-- Validity and Stability
------------------------------------------------------------

namespace PigBook.Delivery

open ReadCommitted

/- The lease and the time of delivery fit the status. -/
structure OutboxRow.Sound (r : OutboxRow) : Prop where
  leaseToken :
    r.leaseToken.isSome = true ↔ r.status = .processing
  leaseUntil :
    r.leaseUntil.isSome = true ↔ r.status = .processing
  deliveredAt :
    r.deliveredAt.isSome = true ↔ r.status = .delivered

/- The unique keys of the tables, and sound rows. -/
structure MailValid (s : Mailroom) : Prop where
  ids : Keyed (fun r : OutboxRow => r.id) s.outbox
  aggregates :
    Keyed (fun r : OutboxRow =>
      OutboxEvent.aggregateKey r.toOutboxEvent) s.outbox
  receipts : Keyed NotificationDelivery.key s.receipts
  sound : ∀ r ∈ s.outbox, r.Sound

theorem insertedRow_sound (e : OutboxEvent) :
    (insertedRow e).Sound where
  leaseToken := by simp [insertedRow]
  leaseUntil := by simp [insertedRow]
  deliveredAt := by simp [insertedRow]

theorem OutboxLease.holds_iff
    {lease : OutboxLease}
    {r : OutboxRow} :
    lease.holds r = true ↔
      r.id = lease.id ∧
        r.leaseToken = some lease.leaseToken ∧
        r.status = .processing := by
  unfold OutboxLease.holds
  rw [decide_eq_true_eq]

theorem OutboxRow.expired_iff
    {now : ℤ}
    {r : OutboxRow} :
    r.expired now = true ↔
      r.status = .processing ∧
        r.leaseUntil.any (· ≤ now) = true := by
  unfold OutboxRow.expired
  rw [decide_eq_true_eq]

/- A charge turns sound rows into sound rows. -/
theorem Charge.sound_effect
    {charge : Charge}
    {r : OutboxRow}
    (hAffects : charge.Affects r)
    (hSound : r.Sound) :
    (charge.effect r).Sound := by
  have hNotDelivered :
      r.status ≠ .delivered → r.deliveredAt = none := by
    intro hStatus
    have hNone := mt hSound.deliveredAt.mp hStatus
    simpa using hNone
  cases charge with
  | nothing => cases hAffects
  | recovery now =>
      have hStatus := (OutboxRow.expired_iff.mp hAffects).1
      have hNone := hNotDelivered (by simp [hStatus])
      unfold Charge.effect
      dsimp only
      split
      · constructor <;> simp [buriedRow, hNone]
      · constructor <;> simp [releasedRow, hNone]
  | claim lease now =>
      have hNone := hNotDelivered (by simp [hAffects.1])
      constructor <;> simp [Charge.effect, claimedRow, hNone]
  | renewal lease now =>
      have hHolds := OutboxLease.holds_iff.mp hAffects
      have hNone := hNotDelivered (by simp [hHolds.2.2])
      constructor <;>
        simp [Charge.effect, renewedRow, hNone, hHolds.2]
  | acknowledgment lease now =>
      constructor <;> simp [Charge.effect, deliveredRow]
  | failure lease category now =>
      have hHolds := OutboxLease.holds_iff.mp hAffects
      have hNone := hNotDelivered (by simp [hHolds.2.2])
      constructor
      · simp only [Charge.effect, failedRow]
        split <;> simp
      · simp only [Charge.effect, failedRow]
        split <;> simp
      · simp only [Charge.effect, failedRow, hNone]
        split <;> simp
  | retry id now =>
      have hNone := hNotDelivered (by simp [hAffects.2])
      constructor <;> simp [Charge.effect, retriedRow, hNone]
  | append e => cases hAffects

theorem MailStep.valid
    {charge : Charge}
    {ks : List MailKey}
    {before after : Mailroom}
    (hStep : MailStep charge ks before after)
    (hValid : MailValid before) :
    MailValid after where
  ids := hStep.outbox.keyed_id hValid.ids
  aggregates := hStep.outbox.keyed_aggregate hValid.aggregates
  receipts := hStep.receipts.keyed hValid.receipts
  sound := by
    intro r hRow
    rcases hStep.outbox.origin hRow with
      ⟨r₀, hRow₀, rfl | ⟨-, hAffects, rfl⟩⟩ | ⟨e, -, rfl, -⟩
    · exact hValid.sound r hRow₀
    · exact charge.sound_effect hAffects (hValid.sound r₀ hRow₀)
    · exact insertedRow_sound e

/-
  What the holder of some keys may rely on: locked rows stay
  as they are, and what is not there does not appear while
  its index entry is in flight.
-/
structure MailStable
    (ks : List MailKey)
    (s s' : Mailroom) : Prop where
  row :
    ∀ r ∈ s.outbox, .outboxUpdate r.id ∈ ks → r ∈ s'.outbox
  id :
    ∀ id, .outboxPkey id ∈ ks →
      (∀ r ∈ s.outbox, r.id ≠ id) → ∀ r ∈ s'.outbox, r.id ≠ id
  aggregate :
    ∀ id version eventType,
      .outboxAggregate id version eventType ∈ ks →
        (∀ r ∈ s.outbox,
          OutboxEvent.aggregateKey r.toOutboxEvent ≠
            (id, version, eventType)) →
          ∀ r ∈ s'.outbox,
            OutboxEvent.aggregateKey r.toOutboxEvent ≠
              (id, version, eventType)
  receipt :
    ∀ d ∈ s.receipts,
      .receiptUpdate d.eventId d.recipientId ∈ ks →
        d ∈ s'.receipts
  entry :
    ∀ eventId recipientId,
      .receiptEntry eventId recipientId ∈ ks →
        (∀ d ∈ s.receipts,
          d.isFor eventId recipientId = false) →
          ∀ d ∈ s'.receipts,
            d.isFor eventId recipientId = false
  kept :
    ∀ d ∈ s.receipts, ∃ d' ∈ s'.receipts, d'.key = d.key ∧
      (d.state ≠ .pending → d'.state ≠ .pending)

theorem MailStable.refl
    (ks : List MailKey)
    (s : Mailroom) :
    MailStable ks s s where
  row := fun _ hRow _ => hRow
  id := fun _ _ hNone => hNone
  aggregate := fun _ _ _ _ hNone => hNone
  receipt := fun _ hRow _ => hRow
  entry := fun _ _ _ hNone => hNone
  kept := fun d hRow => ⟨d, hRow, rfl, fun hState => hState⟩

theorem MailStable.trans
    {ks : List MailKey}
    {s s' s'' : Mailroom}
    (hFirst : MailStable ks s s')
    (hSecond : MailStable ks s' s'') :
    MailStable ks s s'' where
  row := fun r hRow hKey =>
    hSecond.row r (hFirst.row r hRow hKey) hKey
  id := fun id hKey hNone =>
    hSecond.id id hKey (hFirst.id id hKey hNone)
  aggregate := fun id version eventType hKey hNone =>
    hSecond.aggregate id version eventType hKey
      (hFirst.aggregate id version eventType hKey hNone)
  receipt := fun d hRow hKey =>
    hSecond.receipt d (hFirst.receipt d hRow hKey) hKey
  entry := fun eventId recipientId hKey hNone =>
    hSecond.entry eventId recipientId hKey
      (hFirst.entry eventId recipientId hKey hNone)
  kept := by
    intro d hRow
    rcases hFirst.kept d hRow with ⟨d', hRow', hKey, hState⟩
    rcases hSecond.kept d' hRow' with
      ⟨d'', hRow'', hKey', hState'⟩
    exact
      ⟨d'', hRow'', hKey'.trans hKey,
        fun hSettled => hState' (hState hSettled)⟩

/- Fewer keys promise less. -/
theorem MailStable.mono
    {ks ks' : List MailKey}
    {s s' : Mailroom}
    (hSubset : ∀ k ∈ ks, k ∈ ks')
    (hStable : MailStable ks' s s') :
    MailStable ks s s' where
  row := fun r hRow hKey =>
    hStable.row r hRow (hSubset _ hKey)
  id := fun id hKey => hStable.id id (hSubset _ hKey)
  aggregate := fun id version eventType hKey =>
    hStable.aggregate id version eventType (hSubset _ hKey)
  receipt := fun d hRow hKey =>
    hStable.receipt d hRow (hSubset _ hKey)
  entry := fun eventId recipientId hKey =>
    hStable.entry eventId recipientId (hSubset _ hKey)
  kept := hStable.kept

/- A settled receipt stays settled. -/
theorem ReceiptStep.settled
    {ks : List MailKey}
    {d d' : NotificationDelivery}
    (hStep : ReceiptStep ks d d')
    (hSettled : d.state ≠ .pending) :
    d'.state ≠ .pending := by
  rcases hStep.state with rfl | ⟨-, hSent | ⟨hPending, -⟩⟩
  · exact hSettled
  · rw [hSent]
    simp
  · exact absurd hPending hSettled

theorem ReceiptStep.same_key
    {ks : List MailKey}
    {d d' : NotificationDelivery}
    (hStep : ReceiptStep ks d d') :
    d'.key = d.key := by
  unfold NotificationDelivery.key
  rw [hStep.eventId, hStep.recipientId]

/- Those who hold other keys see nothing of a transaction. -/
theorem MailStep.stable
    {charge : Charge}
    {ks ks' : List MailKey}
    {before after : Mailroom}
    (hStep : MailStep charge ks before after)
    (hCompat : Compatible (S := mail) ks ks') :
    MailStable ks' before after where
  row := by
    intro r hRow hKey
    exact
      hStep.outbox.mem_of_not_locked hRow
        (fun hOwn => hCompat _ hOwn _ hKey rfl)
  id := by
    intro id hKey hNone r hRow
    rcases hStep.outbox.origin hRow with
      ⟨r₀, hRow₀, hMove⟩ | ⟨e, -, rfl, hOwn, -⟩
    · rw [hMove.same.id]
      exact hNone r₀ hRow₀
    · intro hSame
      change e.id = id at hSame
      rw [hSame] at hOwn
      exact hCompat _ hOwn _ hKey rfl
  aggregate := by
    intro id version eventType hKey hNone r hRow
    rcases hStep.outbox.origin hRow with
      ⟨r₀, hRow₀, hMove⟩ | ⟨e, -, rfl, -, hOwn⟩
    · have hSame := hNone r₀ hRow₀
      unfold OutboxEvent.aggregateKey at hSame ⊢
      rw [hMove.same.aggregateId, hMove.same.aggregateVersion,
        hMove.same.eventType]
      exact hSame
    · intro hSame
      change (_, _, _) = _ at hSame
      simp only [Prod.mk.injEq] at hSame
      rcases hSame with ⟨hId, hVersion, hType⟩
      change e.aggregateId = id at hId
      change e.aggregateVersion = version at hVersion
      change e.eventType = eventType at hType
      rw [hId, hVersion, hType] at hOwn
      exact hCompat _ hOwn _ hKey rfl
  receipt := by
    intro d hRow hKey
    exact
      hStep.receipts.mem_of_not_locked hRow
        (fun hOwn => hCompat _ hOwn _ hKey rfl)
  entry := by
    intro eventId recipientId hKey hNone d hRow
    rcases hStep.receipts.origin hRow with
      ⟨d₀, hRow₀, hMove⟩ | ⟨hOwn, -⟩
    · have hSame := hNone d₀ hRow₀
      unfold NotificationDelivery.isFor at hSame ⊢
      rw [hMove.eventId, hMove.recipientId]
      exact hSame
    · rw [Bool.eq_false_iff]
      intro hFor
      have hKeys := NotificationDelivery.isFor_iff.mp hFor
      unfold NotificationDelivery.key at hKeys
      rw [Prod.mk.injEq] at hKeys
      rw [hKeys.1, hKeys.2] at hOwn
      exact hCompat _ hOwn _ hKey rfl
  kept := by
    intro d hRow
    rcases hStep.receipts.later hRow with ⟨d', hRow', hMove⟩
    exact ⟨d', hRow', hMove.same_key, hMove.settled⟩

end PigBook.Delivery
