import PigBook.Delivery.Contract

/-
  The operations of a worker keep the contract of the outbox.

  Each of them is one rule: what it needs to have happened
  before, and what the open transaction amounts to after it.

  Key definitions include:
    * `Unfenced`, `Fenced`
    * `recovered`

  Key theorems include:
    * `Working.willBe`
    * `fencedOperation_rwp`
    * `renewLease_rwp`, `acknowledge_rwp`, `failLease_rwp`
    * `recoverStaleLeases_rwp`, `claimBatch_rwp`
-/

------------------------------------------------------------
-- Fences
------------------------------------------------------------

namespace PigBook.Delivery

open ReadCommitted

/- No statement of the log is fenced by a lease. -/
def Unfenced (log : List (Action mail)) : Prop :=
  ∀ lease, ¬ FencedBy lease log

theorem unfenced_nil : Unfenced [] := by
  intro lease hFenced
  rcases hFenced with ⟨act, hMem, -⟩
  cases hMem

/-
  A log is fenced by what it was fenced by, or by its last
  statement.
-/
theorem fencedBy_append
    {lease : OutboxLease}
    {log : List (Action mail)}
    {act : Action mail} :
    FencedBy lease (log ++ [act]) ↔
      FencedBy lease log ∨ act.query = .fenced lease := by
  unfold FencedBy
  constructor
  · intro hFenced
    rcases hFenced with ⟨x, hMem, hQuery⟩
    rcases List.mem_append.mp hMem with hOld | hNew
    · exact Or.inl ⟨x, hOld, hQuery⟩
    · rw [List.mem_singleton.mp hNew] at hQuery
      exact Or.inr hQuery
  · intro hFenced
    rcases hFenced with ⟨x, hMem, hQuery⟩ | hQuery
    · exact ⟨x, List.mem_append_left _ hMem, hQuery⟩
    · exact
        ⟨act, List.mem_append_right _ (by simp), hQuery⟩

/-
  Clocks, identifiers, and plain statements do not fence a
  log.
-/
theorem Unfenced.append
    {log : List (Action mail)}
    {act : Action mail}
    (hUnfenced : Unfenced log)
    (hOrdinary : act.query.isOrdinary = true) :
    Unfenced (log ++ [act]) := by
  intro lease hFenced
  rcases fencedBy_append.mp hFenced with hOld | hNew
  · exact hUnfenced lease hOld
  · rw [hNew] at hOrdinary
    cases hOrdinary

/- After a first fenced statement there is one lease. -/
theorem Unfenced.only
    {log : List (Action mail)}
    {act : Action mail}
    {lease lease' : OutboxLease}
    (hUnfenced : Unfenced log)
    (hQuery : act.query = .fenced lease)
    (hFenced : FencedBy lease' (log ++ [act])) :
    lease' = lease := by
  rcases fencedBy_append.mp hFenced with hOld | hNew
  · exact absurd hOld (hUnfenced lease')
  · rw [hQuery] at hNew
    injection hNew with hSame
    exact hSame.symm

end PigBook.Delivery

------------------------------------------------------------
-- Histories among Others
------------------------------------------------------------

namespace PigBook.Delivery

open ReadCommitted

variable {W : World mail} {db : Mailroom} {pid : ℕ}
variable {ks : List MailKey} {act : Action mail}
variable {c c' : Config W Mailroom MailReply}
variable {lease : OutboxLease}

/- What others do is no call of this client. -/
theorem SendsNothing.of_others
    {newer : MailTrace}
    (hOthers : ∀ e ∈ newer, e.pid ≠ pid) :
    SendsNothing pid newer :=
  fun _ hMem => absurd rfl (hOthers _ hMem)

/- What a client has done stays done while others work. -/
theorem ClaimedBy.rely
    (hRely : (mailContract W db).Rely pid ks c c')
    (hClaimed : ClaimedBy pid lease c.trace) :
    ClaimedBy pid lease c'.trace := by
  rcases hRely.events with ⟨newer, hTrace, -⟩
  rw [hTrace]
  exact hClaimed.append newer

theorem Undertaken.rely
    (hRely : (mailContract W db).Rely pid ks c c')
    (hTaken : Undertaken pid lease c.trace) :
    Undertaken pid lease c'.trace := by
  rcases hRely.events with ⟨newer, hTrace, hOthers⟩
  rw [hTrace]
  exact
    hTaken.append
      (SendsNothing.of_others
        (fun e hMem => (hOthers e hMem).1))

theorem Answered.rely
    {result : SendResult}
    (hRely : (mailContract W db).Rely pid ks c c')
    (hAnswered : Answered pid lease result c.trace) :
    Answered pid lease result c'.trace := by
  rcases hRely.events with ⟨newer, hTrace, -⟩
  rw [hTrace]
  exact hAnswered.append newer

/- A time that has been read has been read for good. -/
theorem Clocked.rely
    {now : ℤ}
    (hRely : (mailContract W db).Rely pid ks c c')
    (hClocked : Clocked pid now c.trace) :
    Clocked pid now c'.trace := by
  rcases hRely.events with ⟨newer, hTrace, -⟩
  rw [hTrace]
  exact hClocked.append newer

/- A prepared message stays the last thing the client did. -/
theorem Prepared.rely
    {recipientId : Uuid}
    {message : EmailMessage}
    (hRely : (mailContract W db).Rely pid ks c c')
    (hPrepared :
      Prepared pid lease recipientId message c.trace) :
    Prepared pid lease recipientId message c'.trace := by
  rcases hRely.events with ⟨newer, hTrace, hOthers⟩
  rw [hTrace]
  exact hPrepared.append (fun e hMem => (hOthers e hMem).1)

/- Statements of the client itself but for calls. -/
theorem Undertaken.ran
    (hRan : (mailContract W db).rules.Ran pid ks act c c')
    (hQuiet : act.query.isSend = false)
    (hTaken : Undertaken pid lease c.trace) :
    Undertaken pid lease c'.trace := by
  rcases Contract.ran_history hRan with
    ⟨newer, hTrace, hOthers⟩
  rw [hTrace, ← List.cons_append]
  apply hTaken.append
  intro act' hMem
  rcases List.mem_cons.mp hMem with hOwn | hOther
  · injection hOwn with _ hSame
    rw [hSame]
    exact hQuiet
  · exact absurd rfl (hOthers _ hOther)

/- The same holds after another statement of the client. -/
theorem ClaimedBy.ran
    (hRan : (mailContract W db).rules.Ran pid ks act c c')
    (hClaimed : ClaimedBy pid lease c.trace) :
    ClaimedBy pid lease c'.trace := by
  rcases Contract.ran_history hRan with ⟨newer, hTrace, -⟩
  rw [hTrace, ← List.cons_append]
  exact hClaimed.append _

theorem Answered.ran
    {result : SendResult}
    (hRan : (mailContract W db).rules.Ran pid ks act c c')
    (hAnswered : Answered pid lease result c.trace) :
    Answered pid lease result c'.trace := by
  rcases Contract.ran_history hRan with ⟨newer, hTrace, -⟩
  rw [hTrace, ← List.cons_append]
  exact hAnswered.append _

theorem Clocked.ran
    {now : ℤ}
    (hRan : (mailContract W db).rules.Ran pid ks act c c')
    (hClocked : Clocked pid now c.trace) :
    Clocked pid now c'.trace := by
  rcases Contract.ran_history hRan with ⟨newer, hTrace, -⟩
  rw [hTrace, ← List.cons_append]
  exact hClocked.append _

/- The answer of a clock is a time that has been read. -/
theorem Clocked.of_now
    {now : ℤ}
    (hRan :
      (mailContract W db).rules.Ran pid ks ⟨.now, now, []⟩ c
        c') :
    Clocked pid now c'.trace := by
  rcases Contract.ran_history hRan with ⟨newer, hTrace, -⟩
  rw [hTrace]
  exact ⟨[], Or.inl List.mem_cons_self⟩

theorem Clocked.of_clock
    {now : ℤ}
    (hRan :
      (mailContract W db).rules.Ran pid ks ⟨.clock, now, []⟩ c
        c') :
    Clocked pid now c'.trace := by
  rcases Contract.ran_history hRan with ⟨newer, hTrace, -⟩
  rw [hTrace]
  exact ⟨[], Or.inr List.mem_cons_self⟩

theorem Clocked.commit
    {now : ℤ}
    {log : List (Action mail)}
    {w : Mailroom → Mailroom}
    {answer : Option MailReply}
    (hClocked : Clocked pid now c.trace) :
    Clocked pid now (c.commit pid log w answer).trace := by
  rw [Config.commit_trace]
  exact hClocked.append [_]

theorem AskedNow.append
    {now : ℤ}
    {log : List (Action mail)}
    (rest : List (Action mail))
    (hAsked : AskedNow now log) :
    AskedNow now (log ++ rest) := by
  rcases hAsked with ⟨ks, hMem⟩
  exact ⟨ks, List.mem_append_left _ hMem⟩

/- A commit calls no adapter. -/
theorem Undertaken.commit
    {log : List (Action mail)}
    {w : Mailroom → Mailroom}
    {answer : Option MailReply}
    (hTaken : Undertaken pid lease c.trace) :
    Undertaken pid lease
      (c.commit pid log w answer).trace := by
  rw [Config.commit_trace]
  change Undertaken pid lease ([_] ++ c.trace)
  apply hTaken.append
  intro act hMem
  cases List.mem_singleton.mp hMem

end PigBook.Delivery

------------------------------------------------------------
-- Ends of Transactions
------------------------------------------------------------

namespace PigBook.Delivery

open ReadCommitted

variable {W : World mail} {db : Mailroom} {pid : ℕ}
variable {log : List (Action mail)} {w : Mailroom → Mailroom}
variable {c c' : Config W Mailroom MailReply}
variable {charge : Charge} {answer : Option MailReply}

/-
  An open transaction whose row changes amount to the charge,
  and that is entitled to it, will commit as one with the
  charge.
-/
theorem Working.willBe
    (hWorking : Working charge log w c.db)
    (hWarranted :
      ∀ c', (mailContract W db).Good c' →
        (mailContract W db).Rely pid (held log) c c' →
        charge.Warranted pid c'.trace log (w c'.db) answer)
    (hFenced : ∀ lease, FencedBy lease log → charge.Uses lease)
    (hSent :
      ∀ c', (mailContract W db).Good c' →
        (mailContract W db).Rely pid (held log) c c' →
        SentTruly pid c'.trace c'.db (w c'.db)) :
    WillBe W db pid answer charge log w c := by
  intro c' hGood hRely
  exact {
    step := hWorking.step hGood.valid hRely.stable
    warranted := hWarranted c' hGood hRely
    fenced := hFenced
    sent := hSent c' hGood hRely
  }

/- Receipts that are left alone are not marked as sent. -/
theorem SentTruly.of_same
    {older : MailTrace}
    {before after : Mailroom}
    (hSame : after.receipts = before.receipts) :
    SentTruly pid older before after := by
  intro d hRow _
  rw [hSame] at hRow
  exact Or.inl hRow

/- A transaction that has only read. -/
theorem willBe_nothing
    (hUnfenced : Unfenced log) :
    WillBe W db pid answer .nothing log id c := by
  apply (Working.idle log c.db).willBe
  · exact fun _ _ _ => trivial
  · exact fun lease hFenced => absurd hFenced (hUnfenced lease)
  · exact fun _ _ _ => SentTruly.of_same rfl

end PigBook.Delivery

------------------------------------------------------------
-- Updates of the Outbox
------------------------------------------------------------

namespace PigBook.Delivery

open ReadCommitted

variable {W : World mail} {db : Mailroom} {pid : ℕ}
variable {log : List (Action mail)} {w : Mailroom → Mailroom}
variable {c : Config W Mailroom MailReply}
variable {p : OutboxRow → Bool} {f : OutboxRow → OutboxRow}

/-
  An update locks the rows that it has seen, and changes
  them.
-/
theorem updateOutbox_rwp
    {q : MailQuery}
    {post :
      ℕ → List (Action mail) → (Mailroom → Mailroom) →
        Config W Mailroom MailReply → Prop}
    (hOrdinary : q.isOrdinary = true)
    (hPost :
      ∀ act c',
        (mailContract W db).rules.Ran pid (held log) act c c' →
        act.query = q →
        act.keys = seenKeys p (w c'.db) →
        post ((w c'.db).outbox.countP p) (log ++ [act])
          (fun t =>
            Mailroom.setRows (fun r => r.id ∈ seen p (w c'.db))
              f (w t)) c') :
    (updateOutbox q p f).rwp (mailContract W db).rules pid
      post log w c := by
  apply Prog.rwp_stmt_of_silent (mailContract_silent hOrdinary)
  intro a c' hRan
  exact hPost _ c' hRan rfl rfl

/-
  An update under a lease that the client has claimed, in a
  transaction that has not touched the outbox before.
-/
theorem fencedUpdate_rwp
    {lease : OutboxLease}
    {charge : Charge}
    {post :
      ℕ → List (Action mail) → (Mailroom → Mailroom) →
        Config W Mailroom MailReply → Prop}
    (hUses : charge.Uses lease)
    (hAffects :
      ∀ r, lease.holds r = true →
        charge.Affects r ∧ f r = charge.effect r)
    (hIdle : Working .nothing log w c.db)
    (hSame : ∀ t, (w t).outbox = t.outbox)
    (hClaimed : ClaimedBy pid lease c.trace)
    (hPost :
      ∀ n act ids c',
        (mailContract W db).rules.Ran pid (held log) act c c' →
        act.query = .fenced lease →
        Working charge (log ++ [act])
          (fun t =>
            Mailroom.setRows (fun r => r.id ∈ ids) f (w t))
          c'.db →
        post n (log ++ [act])
          (fun t =>
            Mailroom.setRows
              (fun r => r.id ∈ (ids : List Uuid)) f (w t)) c') :
    (updateOutbox (.fenced lease) lease.holds f).rwp
      (mailContract W db).rules pid post log w c := by
  apply Contract.rwp_stmt_of_outcome
  · intro a c' hGood hRely
    constructor
    · intro lease' hQuery
      injection hQuery with hLease
      rw [← hLease]
      refine ⟨hClaimed.rely hRely, ?_⟩
      change seenKeys lease.holds (w c'.db) = _
      unfold seenKeys
      rw [hSame, hGood.db]
      rfl
    · intro lease' message hQuery
      cases hQuery
  · intro a c' hRan
    apply hPost _ _ (seen lease.holds (w c'.db)) c' hRan rfl
    have hSeen : seen lease.holds (w c'.db) =
        seen lease.holds c'.db := by
      unfold seen
      rw [hSame]
    rw [hSeen]
    apply Working.update (hIdle.ran hRan) hSame
    · change seenKeys lease.holds (w c'.db) = _
      unfold seenKeys
      rw [hSame]
    · exact fun r _ hHolds => hAffects r hHolds
    · intro id now hEq
      rw [hEq] at hUses
      exact hUses

end PigBook.Delivery

------------------------------------------------------------
-- Leases
------------------------------------------------------------

namespace PigBook.Delivery

open ReadCommitted

variable {W : World mail} {db : Mailroom} {pid : ℕ}
variable {log : List (Action mail)} {w : Mailroom → Mailroom}
variable {c : Config W Mailroom MailReply}
variable {lease : OutboxLease} {now : ℤ}

/- What a fenced operation leaves behind. -/
structure Fenced
    (lease : OutboxLease)
    (charge : Charge)
    (log : List (Action mail))
    (w w' : Mailroom → Mailroom)
    (s : Mailroom) : Prop where
  working : Working charge log w' s
  by_lease : FencedBy lease log
  only : ∀ lease', FencedBy lease' log → lease' = lease
  receipts : ∀ t, (w' t).receipts = (w t).receipts

/-
  The three operations on a lease are one update each, which
  counts the rows that it has found.
-/
theorem fencedOperation_rwp
    {charge : Charge}
    {f : OutboxRow → OutboxRow}
    {post :
      Bool → List (Action mail) → (Mailroom → Mailroom) →
        Config W Mailroom MailReply → Prop}
    (hUses : charge.Uses lease)
    (hAffects :
      ∀ r, lease.holds r = true →
        charge.Affects r ∧ f r = charge.effect r)
    (hIdle : Working .nothing log w c.db)
    (hSame : ∀ t, (w t).outbox = t.outbox)
    (hUnfenced : Unfenced log)
    (hClaimed : ClaimedBy pid lease c.trace)
    (hPost :
      ∀ b act w' c',
        (mailContract W db).rules.Ran pid (held log) act c c' →
        act.query = .fenced lease →
        Fenced lease charge (log ++ [act]) w w' c'.db →
        post b (log ++ [act]) w' c') :
    ((updateOutbox (.fenced lease) lease.holds f).bind
      (fun rowcount =>
        (Prog.done (decide (rowcount = 1)) : MailM Bool))).rwp
      (mailContract W db).rules pid post log w c := by
  rw [Prog.rwp_bind]
  apply fencedUpdate_rwp hUses hAffects hIdle hSame hClaimed
  intro n act ids c' hRan hQuery hWorking
  rw [Prog.rwp_done]
  apply hPost _ act _ c' hRan hQuery
  exact {
    working := hWorking
    by_lease := fencedBy_append.mpr (Or.inr hQuery)
    only := fun lease' hFenced =>
      hUnfenced.only hQuery hFenced
    receipts := fun t => rfl
  }

/- Which is a renewal, -/
theorem renewLease_rwp
    {post :
      Bool → List (Action mail) → (Mailroom → Mailroom) →
        Config W Mailroom MailReply → Prop}
    (hIdle : Working .nothing log w c.db)
    (hSame : ∀ t, (w t).outbox = t.outbox)
    (hUnfenced : Unfenced log)
    (hClaimed : ClaimedBy pid lease c.trace)
    (hPost :
      ∀ b act w' c',
        (mailContract W db).rules.Ran pid (held log) act c c' →
        act.query = .fenced lease →
        Fenced lease (.renewal lease now) (log ++ [act]) w w'
          c'.db →
        post b (log ++ [act]) w' c') :
    (renewLease lease now).rwp (mailContract W db).rules pid
      post log w c := by
  apply fencedOperation_rwp _ _ hIdle hSame hUnfenced hClaimed
    hPost
  · exact rfl
  · exact fun r hHolds => ⟨hHolds, rfl⟩

/- an acknowledgment, -/
theorem acknowledge_rwp
    {post :
      Bool → List (Action mail) → (Mailroom → Mailroom) →
        Config W Mailroom MailReply → Prop}
    (hIdle : Working .nothing log w c.db)
    (hSame : ∀ t, (w t).outbox = t.outbox)
    (hUnfenced : Unfenced log)
    (hClaimed : ClaimedBy pid lease c.trace)
    (hPost :
      ∀ b act w' c',
        (mailContract W db).rules.Ran pid (held log) act c c' →
        act.query = .fenced lease →
        Fenced lease (.acknowledgment lease now) (log ++ [act])
          w w' c'.db →
        post b (log ++ [act]) w' c') :
    (acknowledge lease now).rwp (mailContract W db).rules pid
      post log w c := by
  apply fencedOperation_rwp _ _ hIdle hSame hUnfenced hClaimed
    hPost
  · exact rfl
  · exact fun r hHolds => ⟨hHolds, rfl⟩

/- or a failure. -/
theorem failLease_rwp
    {category : String}
    {post :
      Bool → List (Action mail) → (Mailroom → Mailroom) →
        Config W Mailroom MailReply → Prop}
    (hIdle : Working .nothing log w c.db)
    (hSame : ∀ t, (w t).outbox = t.outbox)
    (hUnfenced : Unfenced log)
    (hClaimed : ClaimedBy pid lease c.trace)
    (hPost :
      ∀ b act w' c',
        (mailContract W db).rules.Ran pid (held log) act c c' →
        act.query = .fenced lease →
        Fenced lease (.failure lease category now)
          (log ++ [act]) w w' c'.db →
        post b (log ++ [act]) w' c') :
    (failLease lease category now).rwp
      (mailContract W db).rules pid post log w c := by
  apply fencedOperation_rwp _ _ hIdle hSame hUnfenced hClaimed
    hPost
  · exact rfl
  · exact fun r hHolds => ⟨hHolds, rfl⟩

end PigBook.Delivery

------------------------------------------------------------
-- Recovery
------------------------------------------------------------

namespace PigBook.Delivery

open ReadCommitted

/- The two updates of a recovery, on one row. -/
def recovered
    (dead pending : List Uuid)
    (now : ℤ)
    (r : OutboxRow) : OutboxRow :=
  let r' := if r.id ∈ dead then buriedRow r else r
  if r'.id ∈ pending then releasedRow now r' else r'

/- The two updates are one change of each row. -/
theorem setRows_twice
    (dead pending : List Uuid)
    (now : ℤ)
    (t : Mailroom) :
    (Mailroom.setRows (fun r => r.id ∈ pending)
      (releasedRow now)
      (Mailroom.setRows (fun r => r.id ∈ dead) buriedRow
        t)).outbox =
      t.outbox.map (recovered dead pending now) := by
  simp only [Mailroom.setRows_outbox, updateWhere,
    List.map_map]
  apply List.map_congr_left
  intro r _
  simp [recovered]

/- What the second update sees was not buried by the first. -/
theorem mem_seen_pending
    {now : ℤ}
    {dead : List Uuid}
    {s : Mailroom}
    {x : OutboxRow}
    (hRow :
      x ∈ (Mailroom.setRows (fun r => r.id ∈ dead) buriedRow
        s).outbox)
    (hExpired : x.expired now = true) :
    x ∈ s.outbox ∧ x.id ∉ dead := by
  rw [Mailroom.setRows_outbox] at hRow
  rcases mem_updateWhere.mp hRow with
    ⟨y, -, -, rfl⟩ | ⟨hOld, hNot⟩
  · have hStatus := (OutboxRow.expired_iff.mp hExpired).1
    cases hStatus
  · exact ⟨hOld, by simpa using hNot⟩

/- The rows that a recovery buries, and those it releases. -/
def isExhausted (now : ℤ) (r : OutboxRow) : Bool :=
  r.expired now ∧ 8 ≤ r.attempts

def isReleasable (now : ℤ) (r : OutboxRow) : Bool :=
  r.expired now ∧ r.attempts < 8

/-
  A recovery changes expired rows only: what the second
  update has seen is locked and was not buried by the first.
-/
theorem Working.recover
    {now : ℤ}
    {log : List (Action mail)}
    {act₁ act₂ : Action mail}
    {s₁ s₂ view : Mailroom}
    {dead pending : List Uuid}
    (hStable : MailStable (held (log ++ [act₁])) s₁ s₂)
    (hDead : dead = seen (isExhausted now) s₁)
    (hView :
      view =
        Mailroom.setRows (fun r => r.id ∈ dead) buriedRow s₂)
    (hPending : pending = seen (isReleasable now) view)
    (hKeys₁ : act₁.keys = seenKeys (isExhausted now) s₁)
    (hKeys₂ : act₂.keys = seenKeys (isReleasable now) view) :
    Working (.recovery now) (log ++ [act₁] ++ [act₂])
      (fun t =>
        Mailroom.setRows (fun r => r.id ∈ pending)
          (releasedRow now)
          (Mailroom.setRows (fun r => r.id ∈ dead) buriedRow
            t))
      s₂ where
  outbox := by
    intro t hValid hNext
    rw [setRows_twice]
    apply OutboxStep.of_map
    intro r hRow
    have hFirst :
        ∀ k ∈ seenKeys (isExhausted now) s₁,
          k ∈ held (log ++ [act₁]) := by
      intro k hKey
      rw [held_append, held_singleton, hKeys₁]
      exact List.mem_append_right _ hKey
    -- a row that the second update has seen is this one
    have hSecond :
        r.id ∈ pending →
          r.id ∉ dead ∧ isReleasable now r = true ∧
            .outboxUpdate r.id ∈
              held (log ++ [act₁] ++ [act₂]) := by
      intro hSeen
      rw [hPending] at hSeen
      rcases List.mem_map.mp hSeen with ⟨x, hx, hId⟩
      have hKey :
          .outboxUpdate x.id ∈
            held (log ++ [act₁] ++ [act₂]) := by
        rw [held_append, held_singleton, hKeys₂]
        exact
          List.mem_append_right _
            (List.mem_map.mpr ⟨x, hx, rfl⟩)
      rcases List.mem_filter.mp hx with ⟨hx, hp⟩
      rw [hView] at hx
      rcases mem_seen_pending hx (of_decide_eq_true hp).1 with
        ⟨hOld, hNot⟩
      have hSame :=
        hValid.ids.eq_of_key (hNext.row x hOld hKey) hRow hId
      rw [← hSame]
      exact ⟨hNot, hp, hKey⟩
    unfold recovered
    dsimp only
    by_cases hSeen : r.id ∈ dead
    · have hSeen' := hSeen
      rw [hDead] at hSeen'
      rcases seen_row hFirst
          (hStable.trans (hNext.mono (held_subset_append _ _)))
          hValid hRow hSeen' with
        ⟨-, hp, hKey⟩
      have hExhausted := of_decide_eq_true hp
      rw [if_pos hSeen, if_neg]
      · refine
          Or.inr
            ⟨held_subset_append _ _ _ hKey, hExhausted.1, ?_⟩
        exact (if_pos hExhausted.2).symm
      · intro hAgain
        exact (hSecond hAgain).1 hSeen
    · rw [if_neg hSeen]
      by_cases hAgain : r.id ∈ pending
      · rcases hSecond hAgain with ⟨-, hp, hKey⟩
        have hReleasable := of_decide_eq_true hp
        rw [if_pos hAgain]
        refine Or.inr ⟨hKey, hReleasable.1, ?_⟩
        exact
          (if_neg (Nat.not_le.mpr hReleasable.2)).symm
      · rw [if_neg hAgain]
        exact Or.inl rfl
  receipts := fun _ _ _ => .refl _ _
  audit := fun _ _ _ =>
    ⟨[], (List.append_nil _).symm,
      .silent (fun _ _ hEq => by cases hEq)⟩

variable {W : World mail} {db : Mailroom} {pid : ℕ}

/-
  A recovery compares with the time that its transaction
  asked for.
-/
theorem recoverStaleLeases_rwp
    {now : ℤ}
    {log : List (Action mail)}
    {c : Config W Mailroom MailReply}
    {post :
      ℕ → List (Action mail) → (Mailroom → Mailroom) →
        Config W Mailroom MailReply → Prop}
    (hUnfenced : Unfenced log)
    (hAsked : AskedNow now log)
    (hClocked : Clocked pid now c.trace)
    (hPost :
      ∀ n log' w' c',
        Working (.recovery now) log' w' c'.db →
        Unfenced log' →
        AskedNow now log' →
        Clocked pid now c'.trace →
        (∀ t, (w' t).receipts = t.receipts) →
        post n log' w' c') :
    (recoverStaleLeases now).rwp (mailContract W db).rules pid
      post log id c := by
  unfold recoverStaleLeases
  simp only [Prog.bind_eq, Prog.rwp_bind]
  apply updateOutbox_rwp rfl
  intro act₁ c₁ hRan₁ hQuery₁ hKeys₁
  apply updateOutbox_rwp rfl
  intro act₂ c₂ hRan₂ hQuery₂ hKeys₂
  rw [Prog.pure_eq_done, Prog.rwp_done]
  apply hPost
  · exact
      Working.recover (Contract.ran_stable hRan₂) rfl rfl rfl
        hKeys₁ hKeys₂
  · apply Unfenced.append
    · apply hUnfenced.append
      rw [hQuery₁]
      rfl
    · rw [hQuery₂]
      rfl
  · exact (hAsked.append _).append _
  · exact (hClocked.ran hRan₁).ran hRan₂
  · exact fun _ => rfl

end PigBook.Delivery

------------------------------------------------------------
-- Claims
------------------------------------------------------------

namespace PigBook.Delivery

open ReadCommitted

variable {W : World mail} {db : Mailroom} {pid : ℕ}

/- A due row is pending, and its time has come. -/
theorem dueRow_spec
    {now : ℤ}
    {skipped : List Uuid}
    {s : Mailroom}
    {r : OutboxRow}
    (hDue : dueRow now skipped s = some r) :
    r ∈ s.outbox ∧ r.status = .pending ∧
      r.availableAt ≤ now := by
  unfold dueRow at hDue
  have hMem := List.mem_of_head? hDue
  rw [List.mem_insertionSort] at hMem
  rcases List.mem_filter.mp hMem with ⟨hRow, hp⟩
  rw [decide_eq_true_eq] at hp
  exact ⟨hRow, hp.1, hp.2.1⟩

/-
  A claim either finds nothing due and leaves no trace, or is
  committed; then the client holds a lease that it has not
  yet used for a message.
-/
theorem claimBatch_rwp
    {now : ℤ}
    {c : Config W Mailroom MailReply}
    {post :
      Option OutboxLease → List (Action mail) →
        (Mailroom → Mailroom) →
        Config W Mailroom MailReply → Prop}
    (hClocked : Clocked pid now c.trace)
    (hNone : ∀ c', post none [] id c')
    (hSome :
      ∀ lease c', Undertaken pid lease c'.trace →
        post (some lease) [] id c') :
    (claimBatch now).rwp (mailContract W db).rules pid post []
      id c := by
  unfold claimBatch
  simp only [Prog.bind_eq, Prog.rwp_bind]
  apply Prog.rwp_stmt_of_silent (mailContract_silent rfl)
  intro skipped c₁ hRan₁
  simp only [id_eq] at hRan₁ ⊢
  cases hDue : dueRow now skipped c₁.db with
  | none =>
      simp only [Prog.rwp_done, Prog.rwp_bind, Prog.rwp_undo,
        Prog.pure_eq_done]
      exact fun c' _ _ => hNone _
  | some row =>
      rw [hDue] at hRan₁
      rcases dueRow_spec hDue with ⟨hRow, hStatus, hTime⟩
      simp only [Prog.rwp_done, Prog.rwp_bind]
      apply
        Prog.rwp_ask_of_silent (mailContract_silent rfl)
      intro token c₂ hRan₂
      apply updateOutbox_rwp rfl
      intro act₃ c₃ hRan₃ hQuery₃ hKeys₃
      generalize hLog₃ :
        ([] ++ [(⟨.skipLocked, skipped,
          (some row).toList.map (MailKey.outboxUpdate ·.id)⟩ :
            Action mail)] ++
          [⟨.uuid, token, []⟩] ++ [act₃]) = log₃
      -- the row is locked from the first statement on
      have hKept : row ∈ c₃.db.outbox := by
        apply (Contract.ran_stable hRan₃).row
        · apply (Contract.ran_stable hRan₂).row row hRow
          simp [held]
        · simp [held]
      have hValid₃ := hRan₃.good.valid
      have hToken : token ∈ log₃.filterMap drawn := by
        rw [← hLog₃]
        simp [drawn]
      have hUnfenced : Unfenced log₃ := by
        rw [← hLog₃]
        apply Unfenced.append
        · exact (unfenced_nil.append rfl).append rfl
        · rw [hQuery₃]
          rfl
      have hIdle : Working .nothing log₃ id c₃.db :=
        Working.idle _ _
      have hWorking :
          Working (.claim (leaseOf token row) now) log₃
            (fun t =>
              Mailroom.setRows
                (fun r => r.id ∈ seen
                  (fun r => r.id = row.id ∧ r.status = .pending)
                  c₃.db)
                (claimedRow token (leaseOf token row).attempts
                  now) t)
            c₃.db := by
        rw [← hLog₃] at hIdle ⊢
        apply Working.update hIdle (fun _ => rfl) hKeys₃
        · intro r hMem hp
          rw [decide_eq_true_eq] at hp
          have hSame :=
            hValid₃.ids.eq_of_key hMem hKept hp.1
          rw [hSame]
          exact ⟨⟨hStatus, rfl, hTime⟩, rfl⟩
        · exact fun _ _ hEq => by cases hEq
      have hClocked₃ : Clocked pid now c₃.trace :=
        ((hClocked.ran hRan₁).ran hRan₂).ran hRan₃
      refine
        WillBe.saves
          (?_ :
            WillBe W db pid _
              (.claim (leaseOf token row) now) _ _ _)
          ?_
      · apply hWorking.willBe
        · intro c₄ _ hRely₄
          exact ⟨hToken, rfl, hClocked₃.rely hRely₄⟩
        · exact fun lease hFenced =>
            absurd hFenced (hUnfenced lease)
        · exact fun _ _ _ => SentTruly.of_same rfl
      · intro c₄ hGood₄ hRely₄ hTransaction
        rw [Prog.pure_eq_done, Prog.rwp_done]
        apply hSome
        refine
          ⟨[], log₃, c₄.db, _, c₄.trace, rfl,
            fun _ hMem => (by cases hMem), ?_⟩
        have hHeld : .outboxUpdate row.id ∈ held log₃ := by
          rw [← hLog₃]
          simp [held]
        have hRow₄ : row ∈ c₄.db.outbox :=
          hRely₄.stable.row row hKept hHeld
        constructor
        · exact hToken
        · refine
            ⟨now, hTransaction.step, row, hRow₄,
              ⟨hStatus, rfl, hTime⟩, ?_⟩
          rw [Mailroom.setRows_outbox]
          refine
            mem_updateWhere.mpr (Or.inl ⟨row, hRow₄, ?_, rfl⟩)
          apply decide_eq_true
          apply List.mem_map.mpr
          refine ⟨row, List.mem_filter.mpr ⟨hKept, ?_⟩, rfl⟩
          exact decide_eq_true ⟨rfl, hStatus⟩

end PigBook.Delivery
