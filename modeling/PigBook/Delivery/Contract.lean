import PigBook.Delivery.Charges
import PigBook.ReadCommitted.Course

/-
  The contract of everything that works on the outbox.

  Besides what a transaction does to the tables it says what
  its client has done before: who uses a lease has claimed
  it, who sends a message has prepared it, who fails an event
  has seen its message fail, and who writes a time has read
  it from a clock.

  Key definitions include:
    * `Claims`, `Undertaken`, `Composed`, `Prepared`
    * `Transaction`
    * `mailContract`
    * `WillBe`, `Working`

  Key theorems include:
    * `WillBe.finishes`, `WillBe.saves`
    * `Working.ran`, `Working.update`
-/

------------------------------------------------------------
-- What a Client Has Done
------------------------------------------------------------

namespace PigBook.Delivery

open ReadCommitted

/- A history of the outbox, the latest event first. -/
abbrev MailTrace := List (Event mail Mailroom MailReply)

/- The identifier that a statement has drawn. -/
def drawn : Action mail → Option Uuid
| ⟨.uuid, id, _⟩ => some id
| _ => none

/- A statement of the log is fenced by the lease. -/
def FencedBy
    (lease : OutboxLease)
    (log : List (Action mail)) : Prop :=
  ∃ act ∈ log, act.query = .fenced lease

def MailQuery.isSend : MailQuery → Bool
| send _ _ => true
| _ => false

/- The client has read the time from one of its clocks. -/
def Clocked
    (pid : ℕ)
    (now : ℤ)
    (trace : MailTrace) : Prop :=
  ∃ ks,
    .ran pid ⟨.now, now, ks⟩ ∈ trace ∨
      .ran pid ⟨.clock, now, ks⟩ ∈ trace

/- The transaction itself has asked for the time. -/
def AskedNow
    (now : ℤ)
    (log : List (Action mail)) : Prop :=
  ∃ ks, ⟨.now, now, ks⟩ ∈ log

/- The client calls no adapter in these events. -/
def SendsNothing (pid : ℕ) (events : MailTrace) : Prop :=
  ∀ act, .ran pid act ∈ events → act.query.isSend = false

/- The transaction claims a row and makes the lease of it. -/
structure Claims
    (lease : OutboxLease)
    (log : List (Action mail))
    (before after : Mailroom) : Prop where
  token : lease.leaseToken ∈ log.filterMap drawn
  row :
    ∃ now, MailStep (.claim lease now) (held log) before after ∧
      ∃ r ∈ before.outbox, (Charge.claim lease now).Affects r ∧
        (Charge.claim lease now).effect r ∈ after.outbox

/- The client has claimed the lease. -/
def ClaimedBy
    (pid : ℕ)
    (lease : OutboxLease)
    (trace : MailTrace) : Prop :=
  ∃ newer log before after older,
    trace =
      newer ++ .committed pid log before after none :: older ∧
      Claims lease log before after

/- And since then it has called no adapter. -/
def Undertaken
    (pid : ℕ)
    (lease : OutboxLease)
    (trace : MailTrace) : Prop :=
  ∃ newer log before after older,
    trace =
      newer ++ .committed pid log before after none :: older ∧
      SendsNothing pid newer ∧
      Claims lease log before after

/-
  What the transaction has read for the message: the address
  of a recipient who is enabled, and the name of the resource.
-/
structure Addressed
    (lease : OutboxLease)
    (recipientId : Uuid)
    (userEmail resourceName : String)
    (log : List (Action mail)) : Prop where
  user :
    ∃ user ks, ⟨.user recipientId, some user, ks⟩ ∈ log ∧
      user.enabled = true ∧ userEmail = user.email
  resource :
    ∃ resource ks,
      ⟨.resource lease.payload.resourceId, resource, ks⟩ ∈
          log ∧
        resourceName = resource.getD "Resource"

/- The message is made of what the transaction has read. -/
structure Composed
    (lease : OutboxLease)
    (recipientId : Uuid)
    (message : EmailMessage)
    (log : List (Action mail)) : Prop where
  messageId :
    message.messageId = stableMessageId lease.id recipientId
  text :
    ∃ (settings : Settings) (resourceName : String),
      Addressed lease recipientId message.toAddress
          resourceName log ∧
        (message.subject, message.textBody) =
          render settings.zone resourceName settings.appOrigin
            lease.eventType lease.payload

/-
  The last thing the client did left a pending receipt and
  read what the message is made of.
-/
def Prepared
    (pid : ℕ)
    (lease : OutboxLease)
    (recipientId : Uuid)
    (message : EmailMessage)
    (trace : MailTrace) : Prop :=
  ∃ newer log before after older,
    trace =
      newer ++ .committed pid log before after none :: older ∧
      (∀ e ∈ newer, e.pid ≠ pid) ∧
      Undertaken pid lease older ∧
      Composed lease recipientId message log ∧
      ∃ d ∈ after.receipts, d.key = (lease.id, recipientId) ∧
        d.state = .pending

/- The adapter has answered the client, for the lease. -/
def Answered
    (pid : ℕ)
    (lease : OutboxLease)
    (result : SendResult)
    (trace : MailTrace) : Prop :=
  ∃ newer message ks older,
    trace =
      newer ++
        .ran pid ⟨.send lease message, result, ks⟩ :: older

theorem Undertaken.claimed
    {pid : ℕ}
    {lease : OutboxLease}
    {trace : MailTrace}
    (hTaken : Undertaken pid lease trace) :
    ClaimedBy pid lease trace := by
  rcases hTaken with
    ⟨newer, log, before, after, older, hTrace, -, hClaims⟩
  exact ⟨newer, log, before, after, older, hTrace, hClaims⟩

theorem ClaimedBy.append
    {pid : ℕ}
    {lease : OutboxLease}
    {trace : MailTrace}
    (newer : MailTrace)
    (hClaimed : ClaimedBy pid lease trace) :
    ClaimedBy pid lease (newer ++ trace) := by
  rcases hClaimed with
    ⟨rest, log, before, after, older, rfl, hClaims⟩
  exact
    ⟨newer ++ rest, log, before, after, older,
      (List.append_assoc _ _ _).symm, hClaims⟩

theorem Undertaken.append
    {pid : ℕ}
    {lease : OutboxLease}
    {trace newer : MailTrace}
    (hNone : SendsNothing pid newer)
    (hTaken : Undertaken pid lease trace) :
    Undertaken pid lease (newer ++ trace) := by
  rcases hTaken with
    ⟨rest, log, before, after, older, rfl, hRest, hClaims⟩
  refine
    ⟨newer ++ rest, log, before, after, older,
      (List.append_assoc _ _ _).symm, ?_, hClaims⟩
  intro act hMem
  rcases List.mem_append.mp hMem with hNew | hOld
  · exact hNone act hNew
  · exact hRest act hOld

theorem Clocked.append
    {pid : ℕ}
    {now : ℤ}
    {trace : MailTrace}
    (newer : MailTrace)
    (hClocked : Clocked pid now trace) :
    Clocked pid now (newer ++ trace) := by
  rcases hClocked with ⟨ks, hNow | hClock⟩
  · exact ⟨ks, Or.inl (List.mem_append_right _ hNow)⟩
  · exact ⟨ks, Or.inr (List.mem_append_right _ hClock)⟩

theorem Prepared.append
    {pid : ℕ}
    {lease : OutboxLease}
    {recipientId : Uuid}
    {message : EmailMessage}
    {trace newer : MailTrace}
    (hOthers : ∀ e ∈ newer, e.pid ≠ pid)
    (hPrepared : Prepared pid lease recipientId message trace) :
    Prepared pid lease recipientId message
      (newer ++ trace) := by
  rcases hPrepared with
    ⟨rest, log, before, after, older, rfl, hRest, hTaken⟩
  refine
    ⟨newer ++ rest, log, before, after, older,
      (List.append_assoc _ _ _).symm, ?_, hTaken⟩
  intro e hMem
  rcases List.mem_append.mp hMem with hNew | hOld
  · exact hOthers e hNew
  · exact hRest e hOld

theorem Answered.append
    {pid : ℕ}
    {lease : OutboxLease}
    {result : SendResult}
    {trace : MailTrace}
    (newer : MailTrace)
    (hAnswered : Answered pid lease result trace) :
    Answered pid lease result (newer ++ trace) := by
  rcases hAnswered with ⟨rest, message, ks, older, rfl⟩
  exact
    ⟨newer ++ rest, message, ks, older,
      (List.append_assoc _ _ _).symm⟩

end PigBook.Delivery

------------------------------------------------------------
-- Transactions
------------------------------------------------------------

namespace PigBook.Delivery

open ReadCommitted

/- The event needs no receipt, or has one that is settled. -/
def SettledFor (lease : OutboxLease) (s : Mailroom) : Prop :=
  ∀ recipientId, lease.payload.recipientId = some recipientId →
    ∃ d ∈ s.receipts, d.key = (lease.id, recipientId) ∧
      d.state ≠ .pending

/- What entitles a transaction to its charge. -/
def Charge.Warranted
    (pid : ℕ)
    (older : MailTrace)
    (log : List (Action mail))
    (after : Mailroom)
    (answer : Option MailReply) : Charge → Prop
| nothing => True
| recovery now => AskedNow now log
| claim lease now =>
    lease.leaseToken ∈ log.filterMap drawn ∧ answer = none ∧
      Clocked pid now older
| renewal lease now =>
    FencedBy lease log ∧ ClaimedBy pid lease older ∧
      Clocked pid now older
| acknowledgment lease now =>
    FencedBy lease log ∧ ClaimedBy pid lease older ∧
      Clocked pid now older ∧ SettledFor lease after
| failure lease _ now =>
    FencedBy lease log ∧ ClaimedBy pid lease older ∧
      Clocked pid now older ∧
      ∃ result, Answered pid lease result older ∧
        ∀ providerId, result ≠ .sent providerId
| retry _ now =>
    (∃ view, answer = some (.retried view)) ∧
      Clocked pid now older
| append e => answer = some (.appended e.id)

/- The charge does with the lease what leases are for. -/
def Charge.Uses (lease : OutboxLease) : Charge → Prop
| renewal lease' _ => lease' = lease
| acknowledgment lease' _ => lease' = lease
| failure lease' _ _ => lease' = lease
| _ => False

/- A receipt is marked as sent when the message was. -/
def SentTruly
    (pid : ℕ)
    (older : MailTrace)
    (before after : Mailroom) : Prop :=
  ∀ d ∈ after.receipts, d.state = .sent →
    d ∈ before.receipts ∨
      ∃ lease providerId, lease.id = d.eventId ∧
        lease.payload.recipientId = some d.recipientId ∧
        d.providerMessageId = some providerId ∧
        Answered pid lease (.sent providerId) older

structure Transaction
    (pid : ℕ)
    (older : MailTrace)
    (log : List (Action mail))
    (before after : Mailroom)
    (answer : Option MailReply)
    (charge : Charge) : Prop where
  step : MailStep charge (held log) before after
  warranted : charge.Warranted pid older log after answer
  fenced : ∀ lease, FencedBy lease log → charge.Uses lease
  sent : SentTruly pid older before after

/- What a statement is worth after the events before it. -/
structure StatementOk
    (db : Mailroom)
    (pid : ℕ)
    (older : MailTrace)
    (act : Action mail) : Prop where
  fenced :
    ∀ lease, act.query = .fenced lease →
      ClaimedBy pid lease older ∧
        act.keys =
          ((latest db older).outbox.filter lease.holds).map
            (MailKey.outboxUpdate ·.id)
  send :
    ∀ lease message, act.query = .send lease message →
      ∃ recipientId,
        lease.payload.recipientId = some recipientId ∧
        Prepared pid lease recipientId message older

def mailEvent
    (db : Mailroom)
    (older : MailTrace) :
    Event mail Mailroom MailReply → Prop
| .ran pid act => StatementOk db pid older act
| .committed pid log before after answer =>
    ∃ charge,
      Transaction pid older log before after answer charge
| _ => True

def mailContract
    (W : World mail)
    (db : Mailroom) : Contract W Mailroom MailReply where
  start := db
  later := fun _ _ => True
  valid := fun s _ => MailValid s
  stable := MailStable
  outcome := mailEvent db
  later_refl := fun _ => trivial
  later_trans := fun _ _ => trivial
  later_answers := fun _ => trivial
  later_advance := fun _ => trivial
  valid_later := fun _ hValid => hValid
  stable_refl := .refl
  stable_trans := .trans
  outcome_quiet := by
    intro older e hQuiet
    cases e with
    | ran pid act => cases hQuiet
    | committed pid log before after answer => cases hQuiet
    | _ => trivial

section Contract

variable {W : World mail} {db : Mailroom}

/- Neither fenced by a lease nor a call of the adapter. -/
def MailQuery.isOrdinary : MailQuery → Bool
| fenced _ => false
| send _ _ => false
| _ => true

theorem mailContract_silent
    {q : MailQuery}
    (hOrdinary : q.isOrdinary = true) :
    (mailContract W db).rules.Silent (S := mail) q := by
  apply Contract.silent
  intro older pid a ks
  constructor
  · intro lease hQuery
    change q = _ at hQuery
    rw [hQuery] at hOrdinary
    cases hOrdinary
  · intro lease message hQuery
    change q = _ at hQuery
    rw [hQuery] at hOrdinary
    cases hOrdinary

theorem mailContract_lenient :
    (mailContract W db).rules.Lenient :=
  Contract.lenient (fun _ _ _ => trivial)

end Contract

end PigBook.Delivery

------------------------------------------------------------
-- Commits
------------------------------------------------------------

namespace PigBook.Delivery

open ReadCommitted

variable {W : World mail} {db : Mailroom} {pid : ℕ}
variable {log : List (Action mail)} {w : Mailroom → Mailroom}
variable {c c' : Config W Mailroom MailReply}

/-
  Whatever the others do first, the open transaction will be
  one with the charge when it is committed.
-/
def WillBe
    (W : World mail)
    (db : Mailroom)
    (pid : ℕ)
    (answer : Option MailReply)
    (charge : Charge)
    (log : List (Action mail))
    (w : Mailroom → Mailroom)
    (c : Config W Mailroom MailReply) : Prop :=
  ∀ c', (mailContract W db).Good c' →
    (mailContract W db).Rely pid (held log) c c' →
      Transaction pid c'.trace log c'.db (w c'.db) answer charge

theorem Transaction.commits
    {answer : Option MailReply}
    {charge : Charge}
    (hGood : (mailContract W db).Good c)
    (hTransaction :
      Transaction pid c.trace log c.db (w c.db) answer charge) :
    (mailContract W db).rules.Commits pid log w answer c := by
  apply Contract.commits hGood
  · exact hTransaction.step.valid hGood.valid
  · exact ⟨charge, hTransaction⟩
  · exact fun ks' hCompat => hTransaction.step.stable hCompat

theorem WillBe.finishes
    {reply : MailReply}
    {charge : Charge}
    (hWill : WillBe W db pid (some reply) charge log w c) :
    (mailContract W db).rules.Finishes pid reply log w c := by
  intro c' hGood hRely
  exact Transaction.commits hGood (hWill c' hGood hRely)

/- A client goes on after its commit. -/
theorem WillBe.saves
    {charge : Charge}
    {post :
      Unit → List (Action mail) → (Mailroom → Mailroom) →
        Config W Mailroom MailReply → Prop}
    (hWill : WillBe W db pid none charge log w c)
    (hPost :
      ∀ c', (mailContract W db).Good c' →
        (mailContract W db).Rely pid (held log) c c' →
        Transaction pid c'.trace log c'.db (w c'.db) none
          charge →
          post () [] id (c'.commit pid log w none)) :
    (Prog.save : MailM Unit).rwp (mailContract W db).rules pid
      post log w c := by
  rw [Prog.rwp_save]
  intro c' hGood hRely
  have hTransaction := hWill c' hGood hRely
  exact
    ⟨Transaction.commits hGood hTransaction,
      hPost c' hGood hRely hTransaction⟩

end PigBook.Delivery

------------------------------------------------------------
-- Open Transactions
------------------------------------------------------------

namespace PigBook.Delivery

open ReadCommitted

/-
  The row changes of an open transaction, which saw the store
  `db` last, amount to the charge.
-/
structure Working
    (charge : Charge)
    (log : List (Action mail))
    (w : Mailroom → Mailroom)
    (db : Mailroom) : Prop where
  outbox :
    ∀ s, MailValid s → MailStable (held log) db s →
      OutboxStep charge (held log) s.outbox (w s).outbox
  receipts :
    ∀ s, MailValid s → MailStable (held log) db s →
      ReceiptsStep (held log) s.receipts (w s).receipts
  audit :
    ∀ s, MailValid s → MailStable (held log) db s →
      ∃ added, (w s).audit = s.audit ++ added ∧
        AuditStep s charge added

section Working

variable {charge : Charge}
variable {log : List (Action mail)} {w : Mailroom → Mailroom}
variable {s s' : Mailroom}

theorem Working.step
    (hWorking : Working charge log w s)
    (hValid : MailValid s')
    (hStable : MailStable (held log) s s') :
    MailStep charge (held log) s' (w s') where
  outbox := hWorking.outbox s' hValid hStable
  receipts := hWorking.receipts s' hValid hStable
  audit := hWorking.audit s' hValid hStable

/- A transaction that has changed nothing. -/
theorem Working.idle
    (log : List (Action mail))
    (s : Mailroom) :
    Working .nothing log id s where
  outbox := fun _ _ _ => .refl _ _ _
  receipts := fun _ _ _ => .refl _ _
  audit := fun _ _ _ =>
    ⟨[], (List.append_nil _).symm,
      .silent (fun _ _ hEq => by cases hEq)⟩

theorem held_subset_append
    (log rest : List (Action mail)) :
    ∀ k ∈ held log, k ∈ held (log ++ rest) := by
  intro k hKey
  rw [held_append]
  exact List.mem_append_left _ hKey

/- Another statement that changes nothing. -/
theorem Working.later
    (hWorking : Working charge log w s)
    (act : Action mail)
    (hStable : MailStable (held log) s s') :
    Working charge (log ++ [act]) w s' := by
  have hSubset := held_subset_append log [act]
  have hFrom :
      ∀ s'', MailStable (held (log ++ [act])) s' s'' →
        MailStable (held log) s s'' :=
    fun s'' hNext => hStable.trans (hNext.mono hSubset)
  constructor
  · intro s'' hValid hNext
    exact
      (hWorking.outbox s'' hValid (hFrom s'' hNext)).mono
        hSubset
  · intro s'' hValid hNext
    exact
      (hWorking.receipts s'' hValid (hFrom s'' hNext)).mono
        hSubset
  · intro s'' hValid hNext
    exact hWorking.audit s'' hValid (hFrom s'' hNext)

variable {W : World mail} {db : Mailroom} {pid : ℕ}
variable {c c' : Config W Mailroom MailReply}
variable {act : Action mail}

theorem Working.ran
    (hWorking : Working charge log w c.db)
    (hRan :
      (mailContract W db).rules.Ran pid (held log) act c c') :
    Working charge (log ++ [act]) w c'.db :=
  hWorking.later act (Contract.ran_stable hRan)

end Working

/- Rows changed one by one. -/
theorem OutboxStep.of_map
    {charge : Charge}
    {ks : List MailKey}
    {rows : List OutboxRow}
    {g : OutboxRow → OutboxRow}
    (hStep : ∀ r ∈ rows, RowStep charge ks r (g r)) :
    OutboxStep charge ks rows (rows.map g) where
  parts := by
    refine
      ⟨rows.map g, [], (List.append_nil _).symm, ?_,
        Or.inl rfl⟩
    rw [List.forall₂_map_right_iff]
    exact List.forall₂_same.mpr hStep

/- The rows that an update has seen and locked. -/
def seen
    (p : OutboxRow → Bool)
    (s : Mailroom) : List Uuid :=
  (s.outbox.filter p).map (·.id)

def seenKeys
    (p : OutboxRow → Bool)
    (s : Mailroom) : List MailKey :=
  (s.outbox.filter p).map (MailKey.outboxUpdate ·.id)

/- A row that was seen is still the same at the commit. -/
theorem seen_row
    {p : OutboxRow → Bool}
    {ks : List MailKey}
    {s s' : Mailroom}
    {r : OutboxRow}
    (hKeys : ∀ k ∈ seenKeys p s, k ∈ ks)
    (hStable : MailStable ks s s')
    (hValid : MailValid s')
    (hRow : r ∈ s'.outbox)
    (hSeen : r.id ∈ seen p s) :
    r ∈ s.outbox ∧ p r = true ∧ .outboxUpdate r.id ∈ ks := by
  rcases List.mem_map.mp hSeen with ⟨x, hx, hId⟩
  rcases List.mem_filter.mp hx with ⟨hx, hp⟩
  have hKey : .outboxUpdate x.id ∈ ks :=
    hKeys _
      (List.mem_map.mpr
        ⟨x, List.mem_filter.mpr ⟨hx, hp⟩, rfl⟩)
  have hSame :=
    hValid.ids.eq_of_key (hStable.row x hx hKey) hRow hId
  rw [← hSame]
  exact ⟨hx, hp, hKey⟩

/- An update of rows that the charge affects. -/
theorem OutboxStep.of_seen
    {charge : Charge}
    {ks : List MailKey}
    {s t : Mailroom}
    {p : OutboxRow → Bool}
    {f : OutboxRow → OutboxRow}
    (hKeys : ∀ k ∈ seenKeys p s, k ∈ ks)
    (hAffects :
      ∀ r ∈ s.outbox, p r = true →
        charge.Affects r ∧ f r = charge.effect r)
    (hStable : MailStable ks s t)
    (hValid : MailValid t) :
    OutboxStep charge ks t.outbox
      (Mailroom.setRows (fun r => r.id ∈ seen p s) f
        t).outbox := by
  rw [Mailroom.setRows_outbox]
  apply OutboxStep.of_map
  intro r hRow
  by_cases hSeen : r.id ∈ seen p s
  · rcases seen_row hKeys hStable hValid hRow hSeen with
      ⟨hOld, hp, hKey⟩
    rcases hAffects r hOld hp with ⟨hRowAffected, hEffect⟩
    rw [if_pos (decide_eq_true hSeen)]
    exact Or.inr ⟨hKey, hRowAffected, hEffect⟩
  · rw [if_neg (by simpa using hSeen)]
    exact Or.inl rfl

theorem Working.update
    {charge : Charge}
    {log : List (Action mail)}
    {w : Mailroom → Mailroom}
    {s : Mailroom}
    {p : OutboxRow → Bool}
    {f : OutboxRow → OutboxRow}
    {act : Action mail}
    (hIdle : Working .nothing (log ++ [act]) w s)
    (hSame : ∀ t, (w t).outbox = t.outbox)
    (hKeys : act.keys = seenKeys p s)
    (hAffects :
      ∀ r ∈ s.outbox, p r = true →
        charge.Affects r ∧ f r = charge.effect r)
    (hCharge : ∀ id now, charge ≠ .retry id now) :
    Working charge (log ++ [act])
      (fun t => Mailroom.setRows (fun r => r.id ∈ seen p s) f
        (w t)) s where
  outbox := by
    intro t hValid hStable
    rw [Mailroom.setRows_outbox, hSame,
      ← Mailroom.setRows_outbox]
    apply OutboxStep.of_seen _ hAffects hStable hValid
    intro k hKey
    rw [held_append, held_singleton, hKeys]
    exact List.mem_append_right _ hKey
  receipts := by
    intro t hValid hStable
    exact hIdle.receipts t hValid hStable
  audit := by
    intro t hValid hStable
    rcases hIdle.audit t hValid hStable with
      ⟨added, hAudit, hStep⟩
    refine ⟨added, hAudit, ?_⟩
    cases hStep with
    | silent _ => exact .silent hCharge

end PigBook.Delivery
