import PigBook.Delivery.Workers

/-
  The handler, the dispatcher, and the other requests keep
  the contract of the outbox.

  Key definitions include:
    * `Pinned`

  Key theorems include:
    * `lockReceipt_rwp`
    * `prepare_rwp`, `deliver_rwp`, `dispatchEvent_rwp`
    * `MailRequest.keeps`
-/

------------------------------------------------------------
-- Receipts
------------------------------------------------------------

namespace PigBook.Delivery

open ReadCommitted

theorem receipt_some
    {eventId recipientId : Uuid}
    {s : Mailroom}
    {d : NotificationDelivery}
    (hFound : s.receipt eventId recipientId = some d) :
    d ∈ s.receipts ∧ d.key = (eventId, recipientId) := by
  unfold Mailroom.receipt at hFound
  refine ⟨List.mem_of_find?_eq_some hFound, ?_⟩
  exact
    NotificationDelivery.isFor_iff.mp
      (List.find?_some hFound)

theorem receipt_none
    {eventId recipientId : Uuid}
    {s : Mailroom}
    (hNone : (s.receipt eventId recipientId).isSome = false) :
    ∀ d ∈ s.receipts, d.isFor eventId recipientId = false := by
  intro d hRow
  have hFind :
      s.receipt eventId recipientId = none := by
    simpa using hNone
  unfold Mailroom.receipt at hFind
  have hNot := List.find?_eq_none.mp hFind d hRow
  simpa using hNot

theorem receipt_isSome
    {eventId recipientId : Uuid}
    {s : Mailroom}
    {d : NotificationDelivery}
    (hRow : d ∈ s.receipts)
    (hKey : d.key = (eventId, recipientId)) :
    (s.receipt eventId recipientId).isSome = true := by
  unfold Mailroom.receipt
  rw [List.find?_isSome]
  exact ⟨d, hRow, NotificationDelivery.isFor_iff.mpr hKey⟩

/- The keys of a receipt that is found. -/
theorem receiptUpdate_mem
    {eventId recipientId : Uuid}
    {s : Mailroom}
    {d : NotificationDelivery}
    (hRow : d ∈ s.receipts)
    (hKey : d.key = (eventId, recipientId)) :
    .receiptUpdate eventId recipientId ∈
      (s.receipts.filter
        (NotificationDelivery.isFor eventId recipientId)).map
          (fun _ =>
            MailKey.receiptUpdate eventId recipientId) := by
  apply List.mem_map.mpr
  refine ⟨d, List.mem_filter.mpr ⟨hRow, ?_⟩, rfl⟩
  exact NotificationDelivery.isFor_iff.mpr hKey

/- The changes of a locked receipt make a step. -/
theorem ReceiptsStep.update
    {ks : List MailKey}
    {receipts receipts' : List NotificationDelivery}
    {eventId recipientId : Uuid}
    {f : NotificationDelivery → NotificationDelivery}
    (hStep : ReceiptsStep ks receipts receipts')
    (hKey : .receiptUpdate eventId recipientId ∈ ks)
    (hSame : ∀ d, (f d).id = d.id ∧ (f d).key = d.key)
    (hState :
      ∀ d ∈ receipts', d.key = (eventId, recipientId) →
        (f d).state = .sent ∨
          d.state = .pending ∧ (f d).state = .skipped) :
    ReceiptsStep ks receipts
      (updateWhere
        (NotificationDelivery.isFor eventId recipientId) f
        receipts') where
  parts := by
    rcases hStep.parts with ⟨kept, added, rfl, hKept, hAdded⟩
    refine
      ⟨updateWhere _ f kept, updateWhere _ f added,
        updateWhere_append _, ?_, ?_⟩
    · have hOld :
          ∀ d ∈ kept, d.key = (eventId, recipientId) →
            (f d).state = .sent ∨
              d.state = .pending ∧ (f d).state = .skipped :=
        fun d hRow =>
          hState d (List.mem_append_left _ hRow)
      clear hState hAdded hStep
      induction hKept with
      | nil => exact .nil
      | @cons d d' rest rest' hMove hRest ih =>
          apply List.Forall₂.cons
          · change ReceiptStep ks d (if _ then f d' else d')
            split
            · rename_i hFor
              have hKeys :=
                NotificationDelivery.isFor_iff.mp hFor
              have hFields := hSame d'
              have hNew := hFields.2
              unfold NotificationDelivery.key at hNew
              rw [Prod.mk.injEq] at hNew
              refine
                ⟨hFields.1.trans hMove.id,
                  hNew.1.trans hMove.eventId,
                  hNew.2.trans hMove.recipientId, Or.inr ?_⟩
              constructor
              · have hOldKey := hMove.same_key
                rw [hKeys] at hOldKey
                unfold NotificationDelivery.key at hOldKey
                rw [Prod.mk.injEq] at hOldKey
                rw [← hOldKey.1, ← hOldKey.2]
                exact hKey
              · rcases hOld d' List.mem_cons_self hKeys with
                  hSent | ⟨hPending, hSkipped⟩
                · exact Or.inl hSent
                · refine Or.inr ⟨?_, hSkipped⟩
                  by_contra hSettled
                  exact hMove.settled hSettled hPending
            · exact hMove
          · exact
              ih (fun x hx =>
                hOld x (List.mem_cons_of_mem _ hx))
    · rcases hAdded with rfl | ⟨d, rfl, hEntry, hFresh⟩
      · exact Or.inl rfl
      · refine
          Or.inr ⟨if _ then f d else d, rfl, ?_⟩
        have hKeys :
            (if NotificationDelivery.isFor eventId recipientId
                d = true then f d else d).key = d.key := by
          split
          · exact (hSame d).2
          · rfl
        unfold NotificationDelivery.key at hKeys
        rw [Prod.mk.injEq] at hKeys
        rw [hKeys.1, hKeys.2]
        exact ⟨hEntry, hFresh⟩

/-
  The transaction has the receipt, locked or its own, and
  has changed nothing else.
-/
structure Pinned
    (eventId recipientId : Uuid)
    (d : NotificationDelivery)
    (log : List (Action mail))
    (w : Mailroom → Mailroom)
    (s : Mailroom) : Prop where
  working : Working .nothing log w s
  unfenced : Unfenced log
  key : d.key = (eventId, recipientId)
  locked : .receiptUpdate eventId recipientId ∈ held log
  row :
    ∀ t, MailValid t → MailStable (held log) s t →
      d ∈ (w t).receipts
  rest :
    ∀ t, ∀ d' ∈ (w t).receipts,
      d' ∈ t.receipts ∨ d'.state = .pending
  outbox : ∀ t, (w t).outbox = t.outbox

section Pinned

variable {W : World mail} {db : Mailroom} {pid : ℕ}
variable {eventId recipientId : Uuid}
variable {d : NotificationDelivery}
variable {log : List (Action mail)} {w : Mailroom → Mailroom}
variable {c c' : Config W Mailroom MailReply}
variable {act : Action mail}

theorem Pinned.ran
    (hPinned : Pinned eventId recipientId d log w c.db)
    (hRan :
      (mailContract W db).rules.Ran pid (held log) act c c')
    (hOrdinary : act.query.isOrdinary = true) :
    Pinned eventId recipientId d (log ++ [act]) w c'.db where
  working := hPinned.working.ran hRan
  unfenced := hPinned.unfenced.append hOrdinary
  key := hPinned.key
  locked := held_subset_append _ _ _ hPinned.locked
  row := by
    intro t hValid hStable
    apply hPinned.row t hValid
    exact
      (Contract.ran_stable hRan).trans
        (hStable.mono (held_subset_append _ _))
  rest := hPinned.rest
  outbox := hPinned.outbox

/- What the transaction leaves is keyed. -/
theorem Pinned.eq_of_key
    (hPinned : Pinned eventId recipientId d log w c.db)
    {t : Mailroom}
    (hValid : MailValid t)
    (hStable : MailStable (held log) c.db t)
    {d' : NotificationDelivery}
    (hRow : d' ∈ (w t).receipts)
    (hKey : d'.key = (eventId, recipientId)) :
    d' = d := by
  have hKeyed :=
    (hPinned.working.receipts t hValid hStable).keyed
      hValid.receipts
  apply hKeyed.eq_of_key hRow (hPinned.row t hValid hStable)
  rw [hKey, hPinned.key]

end Pinned

end PigBook.Delivery

------------------------------------------------------------
-- Locking a Receipt
------------------------------------------------------------

namespace PigBook.Delivery

open ReadCommitted

variable {W : World mail} {db : Mailroom} {pid : ℕ}

/- A receipt that is found is locked. -/
theorem Pinned.of_found
    {eventId recipientId : Uuid}
    {d : NotificationDelivery}
    {log : List (Action mail)}
    {act : Action mail}
    {s : Mailroom}
    (hUnfenced : Unfenced (log ++ [act]))
    (hFound : s.receipt eventId recipientId = some d)
    (hKeys :
      .receiptUpdate eventId recipientId ∈ act.keys) :
    Pinned eventId recipientId d (log ++ [act]) id s := by
  rcases receipt_some hFound with ⟨hRow, hKey⟩
  have hLocked :
      .receiptUpdate eventId recipientId ∈
        held (log ++ [act]) := by
    rw [held_append, held_singleton]
    exact List.mem_append_right _ hKeys
  exact {
    working := Working.idle _ _
    unfenced := hUnfenced
    key := hKey
    locked := hLocked
    row := by
      intro t hValid hStable
      apply hStable.receipt d hRow
      unfold NotificationDelivery.key at hKey
      rw [Prod.mk.injEq] at hKey
      rw [hKey.1, hKey.2]
      exact hLocked
    rest := fun t d' hMem => Or.inl hMem
    outbox := fun _ => rfl
  }

/- A receipt that is created is the transaction's own. -/
theorem Pinned.of_created
    {d : NotificationDelivery}
    {log : List (Action mail)}
    {act : Action mail}
    {s : Mailroom}
    (hUnfenced : Unfenced (log ++ [act]))
    (hPending : d.state = .pending)
    (hEntry :
      .receiptEntry d.eventId d.recipientId ∈ held log)
    (hFresh :
      ∀ d' ∈ s.receipts,
        d'.isFor d.eventId d.recipientId = false)
    (hKeys :
      .receiptUpdate d.eventId d.recipientId ∈ act.keys) :
    Pinned d.eventId d.recipientId d (log ++ [act])
      (Mailroom.addReceipt d) s := by
  have hSubset := held_subset_append log [act]
  exact {
    working := {
      outbox := fun _ _ _ => .refl _ _ _
      receipts := by
        intro t hValid hStable
        refine
          ⟨t.receipts, [d], rfl, ?_,
            Or.inr ⟨d, rfl, hSubset _ hEntry, ?_⟩⟩
        · exact
            List.forall₂_same.mpr
              (fun _ _ => ⟨rfl, rfl, rfl, Or.inl rfl⟩)
        · exact
            hStable.entry _ _ (hSubset _ hEntry) hFresh
      audit := fun _ _ _ =>
        ⟨[], (List.append_nil _).symm,
          .silent (fun _ _ hEq => by cases hEq)⟩
    }
    unfenced := hUnfenced
    key := rfl
    locked := by
      rw [held_append, held_singleton]
      exact List.mem_append_right _ hKeys
    row := fun t _ _ =>
      List.mem_append_right _ List.mem_cons_self
    rest := by
      intro t d' hMem
      rcases List.mem_append.mp hMem with hOld | hNew
      · exact Or.inl hOld
      · rw [List.mem_singleton.mp hNew]
        exact Or.inr hPending
    outbox := fun _ => rfl
  }

theorem lockReceipt_rwp
    {d : NotificationDelivery}
    {log : List (Action mail)}
    {c : Config W Mailroom MailReply}
    {post :
      Option NotificationDelivery → List (Action mail) →
        (Mailroom → Mailroom) →
        Config W Mailroom MailReply → Prop}
    (hPending : d.state = .pending)
    (hUnfenced : Unfenced log)
    (hNone : ∀ log' w' c', post none log' w' c')
    (hSome :
      ∀ d' act₁ act₂ w' c₁ c₂,
        (mailContract W db).rules.Ran pid (held log) act₁ c
          c₁ →
        (mailContract W db).rules.Ran pid
          (held (log ++ [act₁])) act₂ c₁ c₂ →
        act₁.query = .plain →
        act₂.query = .plain →
        Pinned d.eventId d.recipientId d'
          (log ++ [act₁] ++ [act₂]) w' c₂.db →
        post (some d') (log ++ [act₁] ++ [act₂]) w' c₂) :
    ((insertReceiptIfAbsent d).bind
      (fun _ =>
        selectReceiptForUpdate d.eventId d.recipientId)).rwp
      (mailContract W db).rules pid post log id c := by
  rw [Prog.rwp_bind]
  apply Prog.rwp_stmt_of_silent (mailContract_silent rfl)
  intro a c₁ hRan₁
  simp only [id_eq] at hRan₁ ⊢
  by_cases hPresent :
      (c₁.db.receipt d.eventId d.recipientId).isSome = true
  · simp only [hPresent, if_true] at hRan₁ ⊢
    rw [Prog.rwp_done]
    apply Prog.rwp_select_of_silent (mailContract_silent rfl)
    intro a' c₂ hRan₂
    simp only [id_eq] at hRan₂ ⊢
    cases hFound :
        c₂.db.receipt d.eventId d.recipientId with
    | none => exact hNone _ _ _
    | some d' =>
        refine hSome d' _ _ id c₁ c₂ hRan₁ hRan₂ rfl rfl ?_
        rcases receipt_some hFound with ⟨hRow, hKey⟩
        apply Pinned.of_found _ hFound
        · exact receiptUpdate_mem hRow hKey
        · exact (hUnfenced.append rfl).append rfl
  · simp only [hPresent, Bool.false_eq_true, if_false]
      at hRan₁ ⊢
    split
    · exact Prog.rwp_fail_of_lenient mailContract_lenient _
    rw [Prog.rwp_done]
    apply Prog.rwp_select_of_silent (mailContract_silent rfl)
    intro a' c₂ hRan₂
    have hEntry :
        .receiptEntry d.eventId d.recipientId ∈
          held (log ++ [(⟨.plain, a,
            [.receiptEntry d.eventId d.recipientId,
              .receiptsPkey d.id]⟩ : Action mail)]) := by
      rw [held_append, held_singleton]
      exact List.mem_append_right _ List.mem_cons_self
    have hFresh :
        ∀ d' ∈ c₂.db.receipts,
          d'.isFor d.eventId d.recipientId = false :=
      (Contract.ran_stable hRan₂).entry _ _ hEntry
        (receipt_none (Bool.eq_false_iff.mpr hPresent))
    have hOwn : d.isFor d.eventId d.recipientId = true :=
      NotificationDelivery.isFor_iff.mpr rfl
    have hFound :
        (Mailroom.addReceipt d c₂.db).receipt d.eventId
          d.recipientId = some d := by
      unfold Mailroom.receipt
      rw [Mailroom.addReceipt_receipts, List.find?_append,
        List.find?_eq_none.mpr]
      · simp [hOwn]
      · intro d' hRow
        rw [hFresh d' hRow]
        simp
    rw [hFound]
    refine hSome d _ _ _ c₁ c₂ hRan₁ hRan₂ rfl rfl ?_
    apply Pinned.of_created _ hPending hEntry hFresh
    · apply receiptUpdate_mem _ rfl
      rw [Mailroom.addReceipt_receipts]
      exact List.mem_append_right _ List.mem_cons_self
    · exact (hUnfenced.append rfl).append rfl

end PigBook.Delivery

------------------------------------------------------------
-- Settling an Event
------------------------------------------------------------

namespace PigBook.Delivery

open ReadCommitted

variable {W : World mail} {db : Mailroom} {pid : ℕ}
variable {log : List (Action mail)} {w : Mailroom → Mailroom}
variable {c c' : Config W Mailroom MailReply}
variable {lease : OutboxLease} {now : ℤ}

theorem SettledFor.of_same
    {s s' : Mailroom}
    (hSame : s'.receipts = s.receipts)
    (hSettled : SettledFor lease s) :
    SettledFor lease s' := by
  intro recipientId hRecipient
  rw [hSame]
  exact hSettled recipientId hRecipient

theorem SentTruly.of_receipts
    {older : MailTrace}
    {before after after' : Mailroom}
    (hSame : after'.receipts = after.receipts)
    (hSent : SentTruly pid older before after) :
    SentTruly pid older before after' := by
  intro d hRow hState
  rw [hSame] at hRow
  exact hSent d hRow hState

/- The last statement of a transaction acknowledges. -/
theorem acknowledge_ends
    (hIdle : Working .nothing log w c.db)
    (hSame : ∀ t, (w t).outbox = t.outbox)
    (hUnfenced : Unfenced log)
    (hClaimed : ClaimedBy pid lease c.trace)
    (hClocked : Clocked pid now c.trace)
    (hSettled :
      ∀ t, MailValid t → MailStable (held log) c.db t →
        SettledFor lease (w t))
    (hSent :
      ∀ newer t, SentTruly pid (newer ++ c.trace) t (w t)) :
    (acknowledge lease now).rwp (mailContract W db).rules pid
      (fun _ => (mailContract W db).rules.Finishes pid .cycled)
      log w c := by
  apply acknowledge_rwp hIdle hSame hUnfenced hClaimed
  intro b act w' c₁ hRan hQuery hFenced
  refine
    WillBe.finishes
      (?_ : WillBe W db pid _ (.acknowledgment lease now) _ _ _)
  apply hFenced.working.willBe
  · intro c₂ hGood hRely
    refine
      ⟨hFenced.by_lease, (hClaimed.ran hRan).rely hRely,
        (hClocked.ran hRan).rely hRely, ?_⟩
    apply SettledFor.of_same (hFenced.receipts c₂.db)
    apply hSettled c₂.db hGood.valid
    exact
      (Contract.ran_stable hRan).trans
        (hRely.stable.mono (held_subset_append _ _))
  · intro lease' hBy
    have hUses :
        (Charge.acknowledgment lease now).Uses lease :=
      rfl
    rw [hFenced.only lease' hBy]
    exact hUses
  · intro c₂ hGood hRely
    apply SentTruly.of_receipts (hFenced.receipts c₂.db)
    rcases Contract.ran_history hRan with
      ⟨newer, hTrace, -⟩
    rcases hRely.events with ⟨newer', hTrace', -⟩
    rw [hTrace', hTrace, ← List.cons_append,
      ← List.append_assoc]
    exact hSent _ c₂.db

/- The last statement of a transaction fails the event. -/
theorem failLease_ends
    {category : String}
    {result : SendResult}
    (hUnfenced : Unfenced log)
    (hClaimed : ClaimedBy pid lease c.trace)
    (hClocked : Clocked pid now c.trace)
    (hAnswered : Answered pid lease result c.trace)
    (hFailed : ∀ providerId, result ≠ .sent providerId) :
    (failLease lease category now).rwp
      (mailContract W db).rules pid
      (fun _ => (mailContract W db).rules.Finishes pid .cycled)
      log id c := by
  apply failLease_rwp (Working.idle _ _) (fun _ => rfl)
    hUnfenced hClaimed
  intro b act w' c₁ hRan hQuery hFenced
  refine
    WillBe.finishes
      (?_ : WillBe W db pid _ (.failure lease category now)
        _ _ _)
  apply hFenced.working.willBe
  · intro c₂ hGood hRely
    exact
      ⟨hFenced.by_lease, (hClaimed.ran hRan).rely hRely,
        (hClocked.ran hRan).rely hRely, result, (hAnswered.ran hRan).rely hRely, hFailed⟩
  · intro lease' hBy
    have hUses :
        (Charge.failure lease category now).Uses lease :=
      rfl
    rw [hFenced.only lease' hBy]
    exact hUses
  · intro c₂ _ _
    exact SentTruly.of_same (hFenced.receipts c₂.db)

/- An update of the receipt that the transaction has. -/
theorem updateReceipt_rwp
    {eventId recipientId : Uuid}
    {f : NotificationDelivery → NotificationDelivery}
    {post :
      Unit → List (Action mail) → (Mailroom → Mailroom) →
        Config W Mailroom MailReply → Prop}
    (hIdle : Working .nothing log w c.db)
    (hUnfenced : Unfenced log)
    (hFound :
      ∀ t, MailValid t → MailStable (held log) c.db t →
        ∃ d ∈ (w t).receipts, d.key = (eventId, recipientId))
    (hSame : ∀ d, (f d).id = d.id ∧ (f d).key = d.key)
    (hState :
      ∀ t, MailValid t → MailStable (held log) c.db t →
        ∀ d ∈ (w t).receipts, d.key = (eventId, recipientId) →
          (f d).state = .sent ∨
            d.state = .pending ∧ (f d).state = .skipped)
    (hPost :
      ∀ act c',
        (mailContract W db).rules.Ran pid (held log) act c c' →
        act.query = .plain →
        Unfenced (log ++ [act]) →
        Working .nothing (log ++ [act])
          (fun t =>
            Mailroom.setReceipts
              (NotificationDelivery.isFor eventId recipientId)
              f (w t)) c'.db →
        post () (log ++ [act])
          (fun t =>
            Mailroom.setReceipts
              (NotificationDelivery.isFor eventId recipientId)
              f (w t)) c') :
    (updateReceipt eventId recipientId f).rwp
      (mailContract W db).rules pid post log w c := by
  apply Prog.rwp_stmt_of_silent (mailContract_silent rfl)
  intro a c' hRan
  have hStable := Contract.ran_stable hRan
  rcases hFound c'.db hRan.good.valid hStable with
    ⟨d, hRow, hKey⟩
  have hSome := receipt_isSome hRow hKey
  simp only [hSome, if_true]
  rw [Prog.rwp_done]
  have hKeys := receiptUpdate_mem hRow hKey
  apply hPost _ c' hRan rfl (hUnfenced.append rfl)
  have hWorking := hIdle.ran hRan
  constructor
  · exact hWorking.outbox
  · intro t hValid hNext
    rw [Mailroom.setReceipts_receipts]
    apply ReceiptsStep.update
      (hWorking.receipts t hValid hNext) _ hSame
    · exact
        hState t hValid
          (hStable.trans
            (hNext.mono (held_subset_append _ _)))
    · rw [held_append, held_singleton]
      exact List.mem_append_right _ hKeys
  · exact hWorking.audit

end PigBook.Delivery

------------------------------------------------------------
-- The First Transaction
------------------------------------------------------------

namespace PigBook.Delivery

open ReadCommitted

variable {W : World mail} {db : Mailroom} {pid : ℕ}
variable {log : List (Action mail)} {w : Mailroom → Mailroom}
variable {c c' : Config W Mailroom MailReply}
variable {lease : OutboxLease} {recipientId : Uuid}
variable {d : NotificationDelivery} {dbNow : ℤ}

/- Receipts of the transaction are not marked as sent. -/
theorem Pinned.sent
    (hPinned : Pinned lease.id recipientId d log w c.db)
    (older : MailTrace)
    (t : Mailroom) :
    SentTruly pid older t (w t) := by
  intro d' hRow hState
  rcases hPinned.rest t d' hRow with hOld | hPending
  · exact Or.inl hOld
  · rw [hPending] at hState
    cases hState

/- What the first transaction is about to leave. -/
def PreparedPost
    (W : World mail)
    (db : Mailroom)
    (pid : ℕ)
    (lease : OutboxLease)
    (recipientId : Uuid)
    (dbNow : ℤ)
    (preparation : Preparation)
    (log : List (Action mail))
    (w : Mailroom → Mailroom)
    (c : Config W Mailroom MailReply) : Prop :=
  match preparation with
  | .settled =>
      (mailContract W db).rules.Finishes pid .cycled log w c
  | .ready userEmail resourceName =>
      Undertaken pid lease c.trace ∧
        Clocked pid dbNow c.trace ∧
        Addressed lease recipientId userEmail resourceName
          log ∧
        ∃ d, d.state = .pending ∧
          Pinned lease.id recipientId d log w c.db

theorem skipReceipt_rwp
    (hRecipient :
      lease.payload.recipientId = some recipientId)
    (hPending : d.state = .pending)
    (hPinned : Pinned lease.id recipientId d log w c.db)
    (hTaken : Undertaken pid lease c.trace)
    (hClocked : Clocked pid dbNow c.trace) :
    (skipReceipt lease recipientId dbNow).rwp
      (mailContract W db).rules pid
      (PreparedPost W db pid lease recipientId dbNow) log w c := by
  unfold skipReceipt
  simp only [Prog.bind_eq, Prog.rwp_bind]
  apply updateReceipt_rwp hPinned.working hPinned.unfenced
  · intro t hValid hStable
    exact ⟨d, hPinned.row t hValid hStable, hPinned.key⟩
  · exact fun _ => ⟨rfl, rfl⟩
  · intro t hValid hStable d' hRow hKey
    rw [hPinned.eq_of_key hValid hStable hRow hKey]
    exact Or.inr ⟨hPending, rfl⟩
  · intro act c₁ hRan hQuery hUnfenced hWorking
    apply Prog.rwp_mono (acknowledge lease dbNow) _
      (acknowledge_ends hWorking hPinned.outbox hUnfenced
        (hTaken.claimed.ran hRan) (hClocked.ran hRan) _ _)
    · exact fun _ _ _ _ hFinishes => hFinishes
    · intro t hValid hStable recipientId' hRecipient'
      rw [hRecipient] at hRecipient'
      injection hRecipient' with hSame
      rw [← hSame]
      have hRow :=
        hPinned.row t hValid
          ((Contract.ran_stable hRan).trans
            (hStable.mono (held_subset_append _ _)))
      refine ⟨{ d with state := .skipped }, ?_, hPinned.key, ?_⟩
      · rw [Mailroom.setReceipts_receipts]
        refine
          mem_updateWhere.mpr (Or.inl ⟨d, hRow, ?_, rfl⟩)
        exact NotificationDelivery.isFor_iff.mpr hPinned.key
      · exact fun hEq => by cases hEq
    · intro newer t d' hRow hState
      rw [Mailroom.setReceipts_receipts] at hRow
      rcases mem_updateWhere.mp hRow with
        ⟨y, -, -, rfl⟩ | ⟨hOld, -⟩
      · cases hState
      · exact hPinned.sent _ t d' hOld hState

theorem prepare_rwp
    (hRecipient :
      lease.payload.recipientId = some recipientId)
    (hUnfenced : Unfenced log)
    (hTaken : Undertaken pid lease c.trace)
    (hClocked : Clocked pid dbNow c.trace) :
    (prepare lease recipientId dbNow).rwp
      (mailContract W db).rules pid
      (PreparedPost W db pid lease recipientId dbNow) log id c := by
  unfold prepare
  simp only [Prog.bind_eq, Prog.rwp_bind]
  apply Prog.rwp_ask_of_silent (mailContract_silent rfl)
  intro receiptId c₀ hRan₀
  have hTaken₀ := hTaken.ran hRan₀ rfl
  rw [← Prog.rwp_bind]
  apply lockReceipt_rwp rfl (hUnfenced.append rfl)
  · exact fun _ _ _ =>
      Prog.rwp_fail_of_lenient mailContract_lenient _
  intro d act₁ act₂ w' c₁ c₂ hRan₁ hRan₂ hQuery₁ hQuery₂
    hPinned
  have hTaken₂ : Undertaken pid lease c₂.trace := by
    apply (hTaken₀.ran hRan₁ _).ran hRan₂
    · rw [hQuery₂]
      rfl
    · rw [hQuery₁]
      rfl
  have hClocked₂ : Clocked pid dbNow c₂.trace :=
    ((hClocked.ran hRan₀).ran hRan₁).ran hRan₂
  dsimp only
  split
  · -- the receipt has been settled before
    rename_i hSettled
    simp only [Prog.rwp_bind]
    apply Prog.rwp_mono (acknowledge lease dbNow) _
      (acknowledge_ends hPinned.working hPinned.outbox
        hPinned.unfenced hTaken₂.claimed hClocked₂ _ _)
    · exact fun _ _ _ _ hFinishes => hFinishes
    · intro t hValid hStable recipientId' hRecipient'
      rw [hRecipient] at hRecipient'
      injection hRecipient' with hSame
      rw [← hSame]
      refine
        ⟨d, hPinned.row t hValid hStable, hPinned.key, ?_⟩
      intro hPending
      rw [hPending] at hSettled
      rcases hSettled with hEq | hEq
      · cases hEq
      · cases hEq
    · exact fun _ _ => hPinned.sent _ _
  · rename_i hOpen
    have hPending : d.state = .pending := by
      cases hCase : d.state with
      | pending => rfl
      | sent => exact absurd (Or.inl hCase) hOpen
      | skipped => exact absurd (Or.inr hCase) hOpen
    simp only [Prog.rwp_bind]
    apply Prog.rwp_ask_of_silent (mailContract_silent rfl)
    intro user c₃ hRan₃
    have hPinned₃ := hPinned.ran hRan₃ rfl
    have hTaken₃ := hTaken₂.ran hRan₃ rfl
    have hClocked₃ := hClocked₂.ran hRan₃
    cases user with
    | none =>
        exact
          skipReceipt_rwp hRecipient hPending hPinned₃ hTaken₃
            hClocked₃
    | some user =>
        dsimp only
        split
        · exact
            skipReceipt_rwp hRecipient hPending hPinned₃
              hTaken₃ hClocked₃
        rename_i hEnabled
        simp only [Prog.rwp_bind]
        -- the booking is read for an offer only
        have hRest :
            ∀ gone log₄ (c₄ : Config W Mailroom MailReply),
              Pinned lease.id recipientId d log₄ w' c₄.db →
              Undertaken pid lease c₄.trace →
              Clocked pid dbNow c₄.trace →
              ⟨.user recipientId, some user, []⟩ ∈ log₄ →
              Prog.rwp (mailContract W db).rules pid
                (PreparedPost W db pid lease recipientId dbNow)
                (if gone = true then
                  skipReceipt lease recipientId dbNow
                else
                  (getResource lease.payload.resourceId).bind
                    (fun resource =>
                      pure
                        (.ready user.email
                          (resource.getD "Resource"))))
                log₄ w' c₄ := by
          intro gone log₄ c₄ hPinned₄ hTaken₄ hClocked₄ hUser
          split
          · exact
              skipReceipt_rwp hRecipient hPending hPinned₄
                hTaken₄ hClocked₄
          · simp only [Prog.rwp_bind]
            apply
              Prog.rwp_ask_of_silent (mailContract_silent rfl)
            intro resource c₅ hRan₅
            refine
              ⟨hTaken₄.ran hRan₅ rfl, hClocked₄.ran hRan₅, ?_, d,
                hPending, hPinned₄.ran hRan₅ rfl⟩
            constructor
            · exact
                ⟨user, [], List.mem_append_left _ hUser,
                  Bool.of_not_eq_false hEnabled, rfl⟩
            · exact ⟨resource, [], by simp, rfl⟩
        split
        · simp only [Prog.rwp_bind]
          apply
            Prog.rwp_ask_of_silent (mailContract_silent rfl)
          intro booking c₄ hRan₄
          exact
            hRest _ _ c₄ (hPinned₃.ran hRan₄ rfl)
              (hTaken₃.ran hRan₄ rfl) (hClocked₃.ran hRan₄)
              (by simp)
        · exact
            hRest _ _ c₃ hPinned₃ hTaken₃ hClocked₃ (by simp)

end PigBook.Delivery

------------------------------------------------------------
-- The Call and the Last Transaction
------------------------------------------------------------

namespace PigBook.Delivery

open ReadCommitted

variable {W : World mail} {db : Mailroom} {pid : ℕ}
variable {c c' : Config W Mailroom MailReply}
variable {lease : OutboxLease} {recipientId : Uuid}
variable {dbNow : ℤ}

/- The event has a receipt for the recipient. -/
def HasReceipt
    (lease : OutboxLease)
    (recipientId : Uuid)
    (s : Mailroom) : Prop :=
  ∃ d ∈ s.receipts, d.key = (lease.id, recipientId)

theorem HasReceipt.stable
    {ks : List MailKey}
    {s s' : Mailroom}
    (hStable : MailStable ks s s')
    (hReceipt : HasReceipt lease recipientId s) :
    HasReceipt lease recipientId s' := by
  rcases hReceipt with ⟨d, hRow, hKey⟩
  rcases hStable.kept d hRow with ⟨d', hRow', hSame, -⟩
  exact ⟨d', hRow', hSame.trans hKey⟩

/- The receipt is marked as sent, and the event settled. -/
theorem sent_ends
    {log : List (Action mail)}
    {providerId : String}
    (hRecipient :
      lease.payload.recipientId = some recipientId)
    (hUnfenced : Unfenced log)
    (hClaimed : ClaimedBy pid lease c.trace)
    (hClocked : Clocked pid dbNow c.trace)
    (hReceipt : HasReceipt lease recipientId c.db)
    (hAnswered :
      Answered pid lease (.sent providerId) c.trace) :
    ((updateReceipt lease.id recipientId
        (sentReceipt providerId dbNow)).bind
      (fun _ => acknowledge lease dbNow)).rwp
      (mailContract W db).rules pid
      (fun _ => (mailContract W db).rules.Finishes pid .cycled)
      log id c := by
  rw [Prog.rwp_bind]
  apply updateReceipt_rwp (Working.idle _ _) hUnfenced
  · exact fun t _ hStable => hReceipt.stable hStable
  · exact fun _ => ⟨rfl, rfl⟩
  · exact fun _ _ _ _ _ _ => Or.inl rfl
  · intro act c₁ hRan hQuery hUnfenced₁ hWorking
    have hReceipt₁ := hReceipt.stable (Contract.ran_stable hRan)
    apply acknowledge_ends hWorking (fun _ => rfl) hUnfenced₁
      (hClaimed.ran hRan) (hClocked.ran hRan)
    · intro t hValid hStable recipientId' hRecipient'
      rw [hRecipient] at hRecipient'
      injection hRecipient' with hSame
      rw [← hSame]
      rcases hReceipt₁.stable hStable with ⟨d, hRow, hKey⟩
      refine ⟨sentReceipt providerId dbNow d, ?_, hKey, ?_⟩
      · rw [Mailroom.setReceipts_receipts]
        refine
          mem_updateWhere.mpr (Or.inl ⟨d, hRow, ?_, rfl⟩)
        exact NotificationDelivery.isFor_iff.mpr hKey
      · exact fun hEq => by cases hEq
    · intro newer t d hRow hState
      rw [Mailroom.setReceipts_receipts] at hRow
      rcases mem_updateWhere.mp hRow with
        ⟨y, -, hFor, rfl⟩ | ⟨hOld, -⟩
      · have hKey := NotificationDelivery.isFor_iff.mp hFor
        unfold NotificationDelivery.key at hKey
        rw [Prod.mk.injEq] at hKey
        refine
          Or.inr ⟨lease, providerId, hKey.1.symm, ?_, rfl, ?_⟩
        · rw [hRecipient]
          exact congrArg some hKey.2.symm
        · exact (hAnswered.ran hRan).append newer
      · exact Or.inl hOld

theorem deliver_rwp
    {message : EmailMessage}
    (hRecipient :
      lease.payload.recipientId = some recipientId)
    (hPrepared :
      Prepared pid lease recipientId message c.trace)
    (hClaimed : ClaimedBy pid lease c.trace)
    (hClocked : Clocked pid dbNow c.trace)
    (hReceipt : HasReceipt lease recipientId c.db) :
    (deliver lease recipientId message dbNow).rwp
      (mailContract W db).rules pid
      (fun _ => (mailContract W db).rules.Finishes pid .cycled)
      [] id c := by
  unfold deliver
  simp only [Prog.bind_eq, Prog.rwp_bind]
  apply Contract.rwp_stmt_of_outcome
  · intro a c' hGood hRely
    constructor
    · exact fun lease' hQuery => by cases hQuery
    · intro lease' message' hQuery
      injection hQuery with hLease hSame
      rw [← hLease, ← hSame]
      exact
        ⟨recipientId, hRecipient, hPrepared.rely hRely⟩
  · intro result c₁ hRan
    have hClaimed₁ := hClaimed.ran hRan
    have hClocked₁ := hClocked.ran hRan
    have hReceipt₁ :=
      hReceipt.stable (Contract.ran_stable hRan)
    have hUnfenced :
        Unfenced ([] ++ [(⟨.send lease message, result, []⟩ :
          Action mail)]) := by
      intro lease' hBy
      rcases fencedBy_append.mp hBy with hOld | hNew
      · exact unfenced_nil lease' hOld
      · cases hNew
    have hAnswered :
        Answered pid lease result c₁.trace := by
      rcases Contract.ran_history hRan with
        ⟨newer, hTrace, -⟩
      exact ⟨[], message, [], newer ++ c.trace, hTrace⟩
    rw [Prog.rwp_done]
    cases result with
    | deliveryError category =>
        simp only [Prog.rwp_bind]
        exact
          failLease_ends hUnfenced hClaimed₁ hClocked₁
            hAnswered
            (fun _ hEq => by cases hEq)
    | exception =>
        simp only [Prog.rwp_bind]
        exact
          failLease_ends hUnfenced hClaimed₁ hClocked₁
            hAnswered
            (fun _ hEq => by cases hEq)
    | sent providerId =>
        simp only [Prog.rwp_bind]
        rw [← Prog.rwp_bind]
        exact
          sent_ends hRecipient hUnfenced hClaimed₁ hClocked₁
            hReceipt₁ hAnswered

theorem dispatchEvent_rwp
    {settings : Settings}
    {now : ℤ}
    (hTaken : Undertaken pid lease c.trace)
    (hClocked : Clocked pid now c.trace) :
    (dispatchEvent settings lease now).rwp
      (mailContract W db).rules pid
      (fun _ => (mailContract W db).rules.Finishes pid .cycled)
      [] id c := by
  unfold dispatchEvent
  cases hRecipient : lease.payload.recipientId with
  | none =>
      simp only [Prog.bind_eq, Prog.rwp_bind]
      apply acknowledge_ends (Working.idle _ _) (fun _ => rfl)
        unfenced_nil hTaken.claimed hClocked
      · intro t _ _ recipientId hSome
        rw [hRecipient] at hSome
        cases hSome
      · exact fun _ _ => SentTruly.of_same rfl
  | some recipientId =>
      simp only [Prog.bind_eq, Prog.rwp_bind]
      apply Prog.rwp_ask_of_silent (mailContract_silent rfl)
      intro dbNow c₁ hRan₁
      apply Prog.rwp_mono (prepare lease recipientId dbNow) _
        (prepare_rwp hRecipient (unfenced_nil.append rfl)
          (hTaken.ran hRan₁ rfl) (Clocked.of_clock hRan₁))
      intro preparation log w c₂ hPost
      cases preparation with
      | settled => exact hPost
      | ready userEmail resourceName =>
          rcases hPost with
            ⟨hTaken₂, hClocked₂, hAddressed, d, hPending,
              hPinned⟩
          simp only [Prog.rwp_bind]
          refine
            WillBe.saves (?_ : WillBe W db pid _ .nothing _ _ _)
              ?_
          · apply hPinned.working.willBe
            · exact fun _ _ _ => trivial
            · exact fun lease' hBy =>
                absurd hBy (hPinned.unfenced lease')
            · exact fun _ _ _ => hPinned.sent _ _
          · intro c₃ hGood hRely hTransaction
            have hRow :=
              hPinned.row c₃.db hGood.valid hRely.stable
            have hTaken₃ := hTaken₂.rely hRely
            apply deliver_rwp hRecipient
            · refine
                ⟨[], log, c₃.db, w c₃.db, c₃.trace, rfl,
                  fun e hMem => (by cases hMem), hTaken₃, ?_, d,
                  hRow, hPinned.key, hPending⟩
              exact
                ⟨rfl, settings, resourceName, hAddressed, rfl⟩
            · exact hTaken₃.commit.claimed
            · exact (hClocked₂.rely hRely).commit
            · exact ⟨d, hRow, hPinned.key⟩

end PigBook.Delivery

------------------------------------------------------------
-- Requests
------------------------------------------------------------

namespace PigBook.Delivery

open ReadCommitted

variable {W : World mail} {db : Mailroom} {pid : ℕ}

theorem cycle_rwp
    {settings : Settings}
    {c : Config W Mailroom MailReply} :
    (cycle settings).rwp (mailContract W db).rules pid
      (fun _ => (mailContract W db).rules.Finishes pid .cycled)
      [] id c := by
  unfold cycle
  simp only [Prog.bind_eq, Prog.rwp_bind]
  apply Prog.rwp_ask_of_silent (mailContract_silent rfl)
  intro now c₁ hRan₁
  apply recoverStaleLeases_rwp (unfenced_nil.append rfl)
    ⟨[], by simp⟩ (Clocked.of_now hRan₁)
  intro n log w c₂ hWorking hUnfenced hAsked hClocked hReceipts
  have hWill :
      ∀ answer, WillBe W db pid answer (.recovery now) log w
        c₂ := by
    intro answer
    apply hWorking.willBe
    · exact fun _ _ _ => hAsked
    · exact fun lease hBy => absurd hBy (hUnfenced lease)
    · exact fun c' _ _ =>
        SentTruly.of_same (hReceipts c'.db)
  split
  · exact (hWill _).finishes
  simp only [Prog.rwp_bind]
  apply (hWill none).saves
  intro c₃ _ hRely₃ _
  apply claimBatch_rwp (hClocked.rely hRely₃).commit
  · intro c₄
    exact (willBe_nothing unfenced_nil).finishes
  · intro lease c₄ hTaken
    dsimp only
    simp only [Prog.rwp_bind]
    apply Prog.rwp_ask_of_silent (mailContract_silent rfl)
    intro renewNow c₅ hRan₅
    have hTaken₅ := hTaken.ran hRan₅ rfl
    have hClocked₅ := Clocked.of_now hRan₅
    apply renewLease_rwp (Working.idle _ _) (fun _ => rfl)
      (unfenced_nil.append rfl) hTaken₅.claimed
    intro renewed act w' c₆ hRan₆ hQuery hFenced
    have hTaken₆ : Undertaken pid lease c₆.trace := by
      apply hTaken₅.ran hRan₆
      rw [hQuery]
      rfl
    have hClocked₆ := hClocked₅.ran hRan₆
    have hUses :
        (Charge.renewal lease renewNow).Uses lease :=
      rfl
    have hRenewal :
        ∀ answer,
          WillBe W db pid answer (.renewal lease renewNow)
            ([] ++ [⟨.now, renewNow, []⟩] ++ [act]) w' c₆ := by
      intro answer
      apply hFenced.working.willBe
      · intro c' _ hRely
        exact
          ⟨hFenced.by_lease, hTaken₆.claimed.rely hRely,
            hClocked₆.rely hRely⟩
      · intro lease' hBy
        rw [hFenced.only lease' hBy]
        exact hUses
      · exact fun c' _ _ =>
          SentTruly.of_same (hFenced.receipts c'.db)
    split
    · exact (hRenewal _).finishes
    · simp only [Prog.rwp_bind]
      apply (hRenewal none).saves
      intro c₇ _ hRely₇ _
      exact
        dispatchEvent_rwp (hTaken₆.rely hRely₇).commit
          (hClocked₆.rely hRely₇).commit

/- An insertion whose index entries are in flight. -/
theorem appendEvent_rwp
    {e : OutboxEvent}
    {c : Config W Mailroom MailReply} :
    (appendEvent e).rwp (mailContract W db).rules pid
      (fun id =>
        (mailContract W db).rules.Finishes pid (.appended id))
      [] id c := by
  unfold appendEvent
  simp only [Prog.bind_eq, Prog.rwp_bind]
  apply Prog.rwp_stmt_of_silent (mailContract_silent rfl)
  intro a c₁ hRan
  cases hCase : rowViolation e c₁.db with
  | some constraint =>
      simp only [id_eq, hCase]
      exact Prog.rwp_fail_of_lenient mailContract_lenient _
  | none =>
      simp only [id_eq, hCase, Prog.rwp_done,
        Prog.pure_eq_done]
      unfold rowViolation at hCase
      have hId : ∀ r ∈ c₁.db.outbox, r.id ≠ e.id := by
        intro r hRow hSame
        rw [if_pos ⟨r, hRow, hSame⟩] at hCase
        cases hCase
      have hAggregate :
          ∀ r ∈ c₁.db.outbox,
            OutboxEvent.aggregateKey r.toOutboxEvent ≠
              OutboxEvent.aggregateKey e := by
        intro r hRow hSame
        unfold OutboxEvent.aggregateKey at hSame
        rw [Prod.mk.injEq, Prod.mk.injEq] at hSame
        rw [if_neg (fun hEx => by
            rcases hEx with ⟨r', hRow', hSame'⟩
            exact hId r' hRow' hSame'),
          if_pos ⟨r, hRow, hSame⟩] at hCase
        cases hCase
      refine
        WillBe.finishes (?_ : WillBe W db pid _ (.append e) _ _ _)
      apply Working.willBe
      · constructor
        · intro t hValid hStable
          refine
            ⟨t.outbox, [insertedRow e], rfl, ?_,
              Or.inr ⟨e, rfl, rfl, ?_, ?_, ?_, ?_⟩⟩
          · exact
              List.forall₂_same.mpr (fun _ _ => Or.inl rfl)
          · simp [held]
          · simp [held]
          · exact hStable.id e.id (by simp [held]) hId
          · exact
              hStable.aggregate _ _ _ (by simp [held])
                hAggregate
        · exact fun _ _ _ => .refl _ _
        · exact fun _ _ _ =>
            ⟨[], (List.append_nil _).symm,
              .silent (fun _ _ hEq => by cases hEq)⟩
      · exact fun _ _ _ => rfl
      · intro lease hBy
        rcases fencedBy_append.mp hBy with hOld | hNew
        · exact absurd hOld (unfenced_nil lease)
        · cases hNew
      · exact fun _ _ _ => SentTruly.of_same rfl

theorem row_some
    {id : Uuid}
    {s : Mailroom}
    {r : OutboxRow}
    (hFound : s.row id = some r) :
    r ∈ s.outbox ∧ r.id = id := by
  unfold Mailroom.row at hFound
  refine ⟨List.mem_of_find?_eq_some hFound, ?_⟩
  simpa using List.find?_some hFound

/- A dead event is retried, and that is recorded. -/
theorem retried_willBe
    {log : List (Action mail)}
    {act act₁ act₂ : Action mail}
    {s s' : Mailroom}
    {event : OutboxRow}
    {now : ℤ}
    {a : OutboxAudit}
    {c : Config W Mailroom MailReply}
    {view : OutboxView}
    (hUnfenced : Unfenced (log ++ [act] ++ [act₁] ++ [act₂]))
    (hEvent : event ∈ s.outbox)
    (hDead : event.status = .dead)
    (hLocked : .outboxUpdate event.id ∈ held log)
    (hKeys : act.keys = seenKeys (fun r => r.id = event.id) s)
    (hValid : MailValid s)
    (hStable : MailStable (held (log ++ [act])) s s')
    (hDb : MailStable (held (log ++ [act] ++ [act₁])) s' c.db)
    (hAction : a.action = "admin.outbox_retry")
    (hTarget : a.targetId = some event.id)
    (hActor : a.actorId.isSome = true)
    (hClocked : Clocked pid now c.trace) :
    WillBe W db pid (some (.retried view))
      (.retry event.id now)
      (log ++ [act] ++ [act₁] ++ [act₂])
      (fun t =>
        Mailroom.addAudit a
          (Mailroom.setRows
            (fun r =>
              r.id ∈ seen (fun r => r.id = event.id) s)
            (retriedRow now) t)) c := by
  have hSubset :
      ∀ k ∈ held (log ++ [act]),
        k ∈ held (log ++ [act] ++ [act₁] ++ [act₂]) :=
    fun k hKey =>
      held_subset_append _ _ _ (held_subset_append _ _ _ hKey)
  have hFrom :
      ∀ t, MailStable
          (held (log ++ [act] ++ [act₁] ++ [act₂])) c.db t →
        MailStable (held (log ++ [act])) s t := by
    intro t hNext
    apply hStable.trans
    apply (hDb.mono (held_subset_append _ _)).trans
    exact hNext.mono hSubset
  apply Working.willBe
  · constructor
    · intro t hValid' hNext
      rw [Mailroom.addAudit_outbox]
      apply OutboxStep.mono hSubset
      apply OutboxStep.of_seen _ _ (hFrom t hNext) hValid'
      · intro k hKey
        rw [held_append, held_singleton, hKeys]
        exact List.mem_append_right _ hKey
      · intro r hRow hp
        have hSame :=
          hValid.ids.eq_of_key hRow hEvent
            (of_decide_eq_true hp)
        rw [hSame]
        exact ⟨⟨rfl, hDead⟩, rfl⟩
    · exact fun _ _ _ => .refl _ _
    · intro t hValid' hNext
      refine ⟨[a], rfl, ?_⟩
      refine
        AuditStep.retried ?_ ⟨rfl, hDead⟩ hAction hTarget
          hActor
      apply (hFrom t hNext).row event hEvent
      exact held_subset_append _ _ _ hLocked
  · intro c' _ hRely
    exact ⟨⟨view, rfl⟩, hClocked.rely hRely⟩
  · exact fun lease hBy => absurd hBy (hUnfenced lease)
  · exact fun _ _ _ => SentTruly.of_same rfl

theorem retryOutboxEndpoint_rwp
    {principalId eventId requestId : Uuid}
    {c : Config W Mailroom MailReply} :
    (retryOutboxEndpoint principalId eventId requestId).rwp
      (mailContract W db).rules pid
      (fun view =>
        (mailContract W db).rules.Finishes pid (.retried view))
      [] id c := by
  unfold retryOutboxEndpoint
  simp only [Prog.bind_eq, Prog.rwp_bind]
  apply Prog.rwp_ask_of_silent (mailContract_silent rfl)
  intro now c₁ hRan₁
  apply Prog.rwp_ask_of_silent (mailContract_silent rfl)
  intro current c₂ hRan₂
  split
  swap
  · exact Prog.rwp_fail_of_lenient mailContract_lenient _
  unfold retryEvent
  simp only [Prog.bind_eq, Prog.rwp_bind]
  apply Prog.rwp_select_of_silent (mailContract_silent rfl)
  intro a₃ c₃ hRan₃
  cases hFound : c₃.db.row eventId with
  | none =>
      simp only [id_eq, hFound]
      exact Prog.rwp_fail_of_lenient mailContract_lenient _
  | some event =>
      rcases row_some hFound with ⟨hRow₃, hId⟩
      simp only [id_eq, hFound]
      split
      · exact Prog.rwp_fail_of_lenient mailContract_lenient _
      rename_i hStatus
      have hDead : event.status = .dead := not_not.mp hStatus
      simp only [Prog.rwp_bind]
      generalize hLog₃ :
        [] ++ [(⟨.now, now, []⟩ : Action mail)] ++
            [⟨.assertCurrent principalId, current, []⟩] ++
          [(⟨.plain, a₃,
            (c₃.db.outbox.filter (fun r => r.id = eventId)).map
              (MailKey.outboxUpdate ·.id)⟩ : Action mail)] =
          log₃
      have hLocked : .outboxUpdate event.id ∈ held log₃ := by
        rw [← hLog₃, held_append, held_singleton]
        apply List.mem_append_right
        apply List.mem_map.mpr
        refine ⟨event, List.mem_filter.mpr ⟨hRow₃, ?_⟩, rfl⟩
        exact decide_eq_true hId
      have hUnfenced₃ : Unfenced log₃ := by
        rw [← hLog₃]
        exact
          ((unfenced_nil.append rfl).append rfl).append rfl
      apply updateOutbox_rwp rfl
      intro act₄ c₄ hRan₄ hQuery₄ hKeys₄
      have hRow₄ : event ∈ c₄.db.outbox :=
        (Contract.ran_stable hRan₄).row event hRow₃ hLocked
      apply Prog.rwp_ask_of_silent (mailContract_silent rfl)
      intro auditId c₅ hRan₅
      apply Prog.rwp_stmt_of_silent (mailContract_silent rfl)
      intro a₆ c₆ hRan₆
      split
      · exact Prog.rwp_fail_of_lenient mailContract_lenient _
      rw [Prog.rwp_done, Prog.pure_eq_done, Prog.rwp_done]
      have hClocked₄ : Clocked pid now c₄.trace :=
        (((Clocked.of_now hRan₁).ran hRan₂).ran hRan₃).ran
          hRan₄
      apply WillBe.finishes
      apply retried_willBe _ hRow₄ hDead hLocked hKeys₄
        hRan₄.good.valid (Contract.ran_stable hRan₅)
        (Contract.ran_stable hRan₆) rfl rfl rfl
        ((hClocked₄.ran hRan₅).ran hRan₆)
      apply Unfenced.append _ rfl
      apply Unfenced.append _ rfl
      apply hUnfenced₃.append
      rw [hQuery₄]
      rfl

/- Whatever runs against the outbox keeps its contract. -/
theorem MailRequest.keeps
    (r : MailRequest) :
    (mailContract W db).rules.Keeps r.program := by
  intro pid c hGood
  cases r with
  | cycle settings =>
      unfold MailRequest.program
      simp only [Prog.bind_eq, Prog.rwp_bind]
      apply Prog.rwp_mono _ _ cycle_rwp
      exact fun _ _ _ _ hFinishes => hFinishes
  | retryOutbox principalId eventId requestId =>
      unfold MailRequest.program
      simp only [Prog.bind_eq, Prog.rwp_bind]
      apply Prog.rwp_mono _ _ retryOutboxEndpoint_rwp
      exact fun _ _ _ _ hFinishes => hFinishes
  | append e =>
      unfold MailRequest.program
      simp only [Prog.bind_eq, Prog.rwp_bind]
      apply Prog.rwp_mono _ _ appendEvent_rwp
      exact fun _ _ _ _ hFinishes => hFinishes

/- What every run of the system satisfies. -/
theorem mail_good
    {db : Mailroom}
    {env : W.Carrier}
    {s : Sys W Mailroom MailReply}
    (hValid : MailValid db)
    (hReach :
      Reachable mailPrograms (Sys.initial db env) s) :
    (mailContract W db).Good s.toConfig := by
  refine
    Contract.good_of_reachable (K := mailContract W db) ?_
      hValid hReach
  intro p hProgram
  rcases hProgram with ⟨r, rfl⟩
  exact r.keeps

end PigBook.Delivery
