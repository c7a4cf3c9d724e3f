import PigBook.Idempotency.ExecuteCreate
import PigBook.ReadCommitted.Clock
import PigBook.ReadCommitted.Course

/-
  What transactions do to the table of keys.

  Key definitions include:
    * `Timed`
    * `Executed`, `Replayed`
    * `KeysStep`
    * `DeskValid`, `DeskStable`
    * `deskContract`

  Key theorems include:
    * `Executed.step`
    * `KeysStep.valid`, `KeysStep.stable`
-/

------------------------------------------------------------
-- Time
------------------------------------------------------------

namespace PigBook.Idempotency

open ReadCommitted

variable {S : Sig} {σ : Type}

/- The time that a statement has sampled. -/
def sampled : Action (desk S) → Option ℤ
| ⟨.inl .clock, (t : ℤ), _⟩ => some t
| ⟨.inl .expired, (sample : ℤ × List (Uuid × Uuid)), _⟩ =>
    some sample.1
| _ => none

/- The clock of the database does not run backwards. -/
structure Timed (W : World (desk S)) where
  time : W.Carrier → ℤ
  answered :
    ∀ {env env' : W.Carrier} {q : (desk S).Query}
      {a : (desk S).Answer q},
      W.answers env q a env' → time env ≤ time env'
  current :
    ∀ {env env' : W.Carrier} {q : (desk S).Query}
      {a : (desk S).Answer q} {ks : List (desk S).Key} {t : ℤ},
      W.answers env q a env' →
        sampled ⟨q, a, ks⟩ = some t → t = time env
  advanced :
    ∀ {env env' : W.Carrier},
      W.advance env env' → time env ≤ time env'

def Timed.clock
    {W : World (desk S)}
    (K : Timed W) : Clock W ℤ where
  time := K.time
  reads := fun act t => sampled act = some t
  answered := K.answered
  current := K.current
  advanced := K.advanced

abbrev rowKey (slot : Uuid × Uuid) : (desk S).Key :=
  Sum.inl (DeskKey.row slot)

abbrev entryKey (slot : Uuid × Uuid) : (desk S).Key :=
  Sum.inl (DeskKey.entry slot)

/- The log samples `t` somewhere. -/
def Samples (log : List (Action (desk S))) (t : ℤ) : Prop :=
  ∃ act ∈ log, sampled act = some t

theorem Samples.append
    {log : List (Action (desk S))}
    {t : ℤ}
    (rest : List (Action (desk S)))
    (hSamples : Samples log t) :
    Samples (log ++ rest) t := by
  rcases hSamples with ⟨act, hMem, hSampled⟩
  exact ⟨act, List.mem_append_left _ hMem, hSampled⟩

theorem Samples.last
    {log : List (Action (desk S))}
    {act : Action (desk S)}
    {t : ℤ}
    (hSampled : sampled act = some t) :
    Samples (log ++ [act]) t := by
  refine ⟨act, ?_, hSampled⟩
  exact List.mem_append_right _ (List.mem_singleton.mpr rfl)

end PigBook.Idempotency

------------------------------------------------------------
-- Transactions
------------------------------------------------------------

namespace PigBook.Idempotency

open ReadCommitted

variable {S : Sig} {σ : Type}

/- The row is complete, and expires a day after its creation. -/
structure IdempotencyKey.Sound (r : IdempotencyKey) : Prop where
  response : r.response.isSome = true
  expires : r.expiresAt = r.createdAt + keyLifetime

/-
  The transaction has stored a row, with the response of its
  operation; there was none, or one that had expired.
-/
structure Executed
    (userId key : Uuid)
    (reqHash : String)
    (stored : StoredResponse)
    (row : IdempotencyKey)
    (log : List (Action (desk S)))
    (before after : Desk σ) : Prop where
  slot : row.slot = (userId, key)
  requestHash : row.requestHash = reqHash
  response : row.response = some (persisted stored)
  expires : row.expiresAt = row.createdAt + keyLifetime
  samples : Samples log row.createdAt
  entry : entryKey (userId, key) ∈ held log
  expired :
    ∀ r ∈ before.1, r.slot = (userId, key) →
      r.expiresAt ≤ row.createdAt ∧
        rowKey (userId, key) ∈ held log
  keys :
    after.1 =
      before.1.filter (fun r => r.slot ≠ (userId, key)) ++
        [row]

/- The transaction has found a row and changed nothing. -/
structure Replayed
    (userId key : Uuid)
    (reqHash : String)
    (stored : StoredResponse)
    (row : IdempotencyKey)
    (log : List (Action (desk S)))
    (before after : Desk σ) : Prop where
  same : after = before
  found : row ∈ before.1
  slot : row.slot = (userId, key)
  requestHash : row.requestHash = reqHash
  response : row.response = some stored
  live : ∃ t, Samples log t ∧ t < row.expiresAt

/-
  Rows go only when they have expired, and come only where
  none is left that has not.
-/
structure KeysStep
    (log : List (Action (desk S)))
    (before after : Desk σ) : Prop where
  keyed :
    Keyed IdempotencyKey.slot before.1 →
      Keyed IdempotencyKey.slot after.1
  gone :
    ∀ r ∈ before.1, r ∉ after.1 →
      (∃ t, Samples log t ∧ r.expiresAt ≤ t) ∧
        rowKey r.slot ∈ held log
  new :
    ∀ r ∈ after.1, r ∉ before.1 →
      r.Sound ∧ entryKey r.slot ∈ held log ∧
        ∀ r' ∈ before.1, r'.slot = r.slot →
          r'.expiresAt ≤ r.createdAt

theorem KeysStep.of_eq
    {log : List (Action (desk S))}
    {before after : Desk σ}
    (hSame : after.1 = before.1) :
    KeysStep log before after where
  keyed := by
    rw [hSame]
    exact fun hKeyed => hKeyed
  gone := by
    rw [hSame]
    exact fun r hRow hGone => absurd hRow hGone
  new := by
    rw [hSame]
    exact fun r hRow hNew => absurd hRow hNew

theorem Executed.step
    {userId key : Uuid}
    {reqHash : String}
    {stored : StoredResponse}
    {row : IdempotencyKey}
    {log : List (Action (desk S))}
    {before after : Desk σ}
    (hExecuted :
      Executed userId key reqHash stored row log before after) :
    KeysStep log before after where
  keyed := by
    intro hKeyed
    rw [hExecuted.keys]
    apply Keyed.append_singleton
    · exact hKeyed.filter _
    · intro r hRow hSame
      have hOther := (List.mem_filter.mp hRow).2
      rw [hSame, hExecuted.slot] at hOther
      simp at hOther
  gone := by
    intro r hRow hGone
    have hSlot : r.slot = (userId, key) := by
      by_contra hOther
      apply hGone
      rw [hExecuted.keys]
      apply List.mem_append_left
      exact List.mem_filter.mpr ⟨hRow, decide_eq_true hOther⟩
    have hExpired := hExecuted.expired r hRow hSlot
    rw [hSlot]
    exact
      ⟨⟨row.createdAt, hExecuted.samples, hExpired.1⟩,
        hExpired.2⟩
  new := by
    intro r hRow hNew
    rw [hExecuted.keys] at hRow
    rcases List.mem_append.mp hRow with hOld | hOwn
    · exact absurd (List.mem_of_mem_filter hOld) hNew
    · rw [List.mem_singleton.mp hOwn, hExecuted.slot]
      refine ⟨⟨?_, hExecuted.expires⟩, hExecuted.entry, ?_⟩
      · rw [hExecuted.response]
        rfl
      · intro r' hRow' hSlot
        exact (hExecuted.expired r' hRow' hSlot).1

/- A purge has taken rows away that had expired. -/
theorem KeysStep.of_filter
    {log : List (Action (desk S))}
    {before after : Desk σ}
    {gone : IdempotencyKey → Bool}
    (hKeys : after.1 = before.1.filter (fun r => !gone r))
    (hGone :
      ∀ r ∈ before.1, gone r = true →
        (∃ t, Samples log t ∧ r.expiresAt ≤ t) ∧
          rowKey r.slot ∈ held log) :
    KeysStep log before after where
  keyed := by
    intro hKeyed
    rw [hKeys]
    exact hKeyed.filter _
  gone := by
    intro r hRow hNot
    apply hGone r hRow
    by_contra hStays
    apply hNot
    rw [hKeys]
    apply List.mem_filter.mpr
    rw [Bool.eq_false_iff.mpr hStays]
    exact ⟨hRow, rfl⟩
  new := by
    intro r hRow hNew
    rw [hKeys] at hRow
    exact absurd (List.mem_of_mem_filter hRow) hNew

end PigBook.Idempotency

------------------------------------------------------------
-- The Contract
------------------------------------------------------------

namespace PigBook.Idempotency

open ReadCommitted

variable {S : Sig} {σ : Type}

/- One row for each key of a user, and every row is sound. -/
structure DeskValid (s : Desk σ) : Prop where
  keyed : Keyed IdempotencyKey.slot s.1
  sound : ∀ r ∈ s.1, r.Sound

/- Locked rows stay, and nothing new is in a locked place. -/
structure DeskStable
    (ks : List (desk S).Key)
    (s s' : Desk σ) : Prop where
  row :
    ∀ r ∈ s.1, rowKey r.slot ∈ ks → r ∈ s'.1
  entry :
    ∀ r ∈ s'.1, entryKey r.slot ∈ ks → r ∈ s.1

theorem DeskStable.refl
    (ks : List (desk S).Key)
    (s : Desk σ) :
    DeskStable ks s s where
  row := fun _ hRow _ => hRow
  entry := fun _ hRow _ => hRow

theorem DeskStable.trans
    {ks : List (desk S).Key}
    {s s' s'' : Desk σ}
    (hFirst : DeskStable ks s s')
    (hSecond : DeskStable ks s' s'') :
    DeskStable ks s s'' where
  row := fun r hRow hKey =>
    hSecond.row r (hFirst.row r hRow hKey) hKey
  entry := fun r hRow hKey =>
    hFirst.entry r (hSecond.entry r hRow hKey) hKey

theorem KeysStep.valid
    {log : List (Action (desk S))}
    {before after : Desk σ}
    (hStep : KeysStep log before after)
    (hValid : DeskValid before) :
    DeskValid after where
  keyed := hStep.keyed hValid.keyed
  sound := by
    intro r hRow
    by_cases hOld : r ∈ before.1
    · exact hValid.sound r hOld
    · exact (hStep.new r hRow hOld).1

theorem KeysStep.stable
    {log : List (Action (desk S))}
    {before after : Desk σ}
    {ks : List (desk S).Key}
    (hStep : KeysStep log before after)
    (hCompat : Compatible (held log) ks) :
    DeskStable ks before after where
  row := by
    intro r hRow hKey
    by_contra hGone
    have hOwn := (hStep.gone r hRow hGone).2
    exact hCompat _ hOwn _ hKey rfl
  entry := by
    intro r hRow hKey
    by_contra hNew
    have hOwn := (hStep.new r hRow hNew).2.1
    exact hCompat _ hOwn _ hKey rfl

/- What a commit does to the keys, by its answer. -/
def deskEvent : Event (desk S) (Desk σ) DeskReply → Prop
| .committed _ log before after answer =>
    KeysStep log before after ∧
    match answer with
    | some (.created userId key reqHash response) =>
        ∃ stored row,
          Executed userId key reqHash stored row log before
              after ∧
            response = markReplayed false stored ∨
          Replayed userId key reqHash stored row log before
              after ∧
            response = markReplayed true stored
    | some (.purged _) =>
        after.2 = before.2 ∧ ∀ r ∈ after.1, r ∈ before.1
    | _ => after.1 = before.1
| _ => True

def deskContract
    {W : World (desk S)}
    (K : Timed W)
    (db : Desk σ) : Contract W (Desk σ) DeskReply where
  start := db
  later := fun env env' => K.time env ≤ K.time env'
  valid := fun s _ => DeskValid s
  stable := DeskStable
  outcome := fun _ e => deskEvent e
  later_refl := fun _ => le_rfl
  later_trans := le_trans
  later_answers := K.answered
  later_advance := K.advanced
  valid_later := fun _ hValid => hValid
  stable_refl := .refl
  stable_trans := .trans
  outcome_quiet := by
    intro older e hQuiet
    cases e with
    | committed pid log before after answer => cases hQuiet
    | _ => trivial

variable {W : World (desk S)} {K : Timed W} {db : Desk σ}

theorem deskContract_silent (q : (desk S).Query) :
    (deskContract K db).rules.Silent q :=
  Contract.silent (fun _ _ _ _ => trivial)

theorem deskContract_lenient :
    (deskContract K db).rules.Lenient :=
  Contract.lenient (fun _ _ _ => trivial)

/- A commit is right by what it does to the keys. -/
theorem deskContract_commits
    {pid : ℕ}
    {log : List (Action (desk S))}
    {w : Desk σ → Desk σ}
    {answer : Option DeskReply}
    {c : Config W (Desk σ) DeskReply}
    (hGood : (deskContract K db).Good c)
    (hEvent :
      deskEvent
        (.committed pid log c.db (w c.db) answer)) :
    (deskContract K db).rules.Commits pid log w answer c :=
  Contract.commits hGood (hEvent.1.valid hGood.valid) hEvent
    (fun _ hCompat => hEvent.1.stable hCompat)

end PigBook.Idempotency
