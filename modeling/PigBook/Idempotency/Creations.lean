import PigBook.Idempotency.KeyRows

/-
  The programs of the desk keep the contract of its keys.

  A creation either finds a live row, or reserves the key,
  perhaps after it has deleted an expired row.

  Key definitions include:
    * `Vacated`, `Reserved`
    * `Meanwhile`

  Key theorems include:
    * `attemptCreate_rwp`
    * `desk_keeps`, `desk_good`
-/

------------------------------------------------------------
-- Phases of a Creation
------------------------------------------------------------

namespace PigBook.Idempotency

open ReadCommitted

variable {S : Sig} {σ : Type} {W : World (desk S)}
variable {K : Timed W} {db : Desk σ} {pid : ℕ}
variable {userId key : Uuid} {reqHash : String}
variable {log : List (Action (desk S))}
variable {w : Desk σ → Desk σ}
variable {c c' : Config W (Desk σ) DeskReply}
variable {act : Action (desk S)}

theorem ran_time
    (hRan :
      (deskContract K db).rules.Ran pid (held log) act c c') :
    K.time c.env ≤ K.time c'.env ∧
      ∀ t, sampled act = some t →
        K.time c.env ≤ t ∧ t ≤ K.time c'.env := by
  rcases hRan.step with ⟨c₀, -, hRely, hAnswer, -, -⟩
  have hLater : K.time c.env ≤ K.time c₀.env := hRely.later
  refine ⟨hLater.trans (K.answered hAnswer), ?_⟩
  intro t hSampled
  have hNow := K.current hAnswer hSampled
  rw [hNow]
  exact ⟨hLater, K.answered hAnswer⟩

theorem held_subset_append
    (log rest : List (Action (desk S))) :
    ∀ k ∈ held log, k ∈ held (log ++ rest) := by
  intro k hKey
  rw [held_append]
  exact List.mem_append_left _ hKey

/- The transaction has deleted the expired row of the key. -/
structure Vacated
    (K : Timed W)
    (userId key : Uuid)
    (log : List (Action (desk S)))
    (w : Desk σ → Desk σ)
    (c : Config W (Desk σ) DeskReply) : Prop where
  writes :
    ∀ s, w s = (s.1.filter (fun r => r.slot ≠ (userId, key)), s.2)
  row : rowKey (userId, key) ∈ held log
  entry : entryKey (userId, key) ∈ held log
  expired :
    ∀ r ∈ c.db.1, r.slot = (userId, key) →
      r.expiresAt ≤ K.time c.env

/- The transaction has inserted a row for the key. -/
structure Reserved
    (userId key : Uuid)
    (reqHash : String)
    (sampledAt : ℤ)
    (log : List (Action (desk S)))
    (w : Desk σ → Desk σ)
    (c : Config W (Desk σ) DeskReply) : Prop where
  writes :
    (∀ s, (w s).1 =
      s.1.filter (fun r => r.slot ≠ (userId, key)) ++
        [reservedKey userId key reqHash sampledAt]) ∨
    (∀ s, (w s).1 =
      s.1 ++ [reservedKey userId key reqHash sampledAt]) ∧
      ∀ r ∈ c.db.1, r.slot ≠ (userId, key)
  samples : Samples log sampledAt
  entry : entryKey (userId, key) ∈ held log
  expired :
    ∀ r ∈ c.db.1, r.slot = (userId, key) →
      r.expiresAt ≤ sampledAt ∧
        rowKey (userId, key) ∈ held log

/- No row of the key is left for the transaction. -/
theorem Vacated.not_taken
    (hVacated : Vacated K userId key log w c)
    (s : Desk σ) :
    taken userId key (w s).1 = false := by
  rw [hVacated.writes]
  apply List.any_eq_false.mpr
  intro r hRow
  have hOther := (List.mem_filter.mp hRow).2
  simpa using hOther

/- What happens elsewhere does not hurt a reservation. -/
theorem Reserved.later
    {sampledAt : ℤ}
    {w' : Desk σ → Desk σ}
    (hReserved :
      Reserved userId key reqHash sampledAt log w c)
    (hSame : ∀ s, (w' s).1 = (w s).1)
    (hStable : DeskStable (held log) c.db c'.db)
    (rest : List (Action (desk S))) :
    Reserved userId key reqHash sampledAt (log ++ rest) w' c' := by
  have hOld :
      ∀ r ∈ c'.db.1, r.slot = (userId, key) → r ∈ c.db.1 := by
    intro r hRow hSlot
    apply hStable.entry r hRow
    rw [hSlot]
    exact hReserved.entry
  constructor
  · rcases hReserved.writes with hFilter | ⟨hAppend, hNone⟩
    · apply Or.inl
      intro s
      rw [hSame]
      exact hFilter s
    · apply Or.inr
      constructor
      · intro s
        rw [hSame]
        exact hAppend s
      · intro r hRow hSlot
        exact hNone r (hOld r hRow hSlot) hSlot
  · exact hReserved.samples.append rest
  · exact held_subset_append log rest _ hReserved.entry
  · intro r hRow hSlot
    have hExpired :=
      hReserved.expired r (hOld r hRow hSlot) hSlot
    exact
      ⟨hExpired.1, held_subset_append log rest _ hExpired.2⟩

/- Only the rows of the key are given the response. -/
theorem updateWhere_reserved
    {sampledAt : ℤ}
    {stored : StoredResponse}
    (keys : List IdempotencyKey) :
    updateWhere (fun r => r.slot = (userId, key))
        (fun r => { r with response := some (persisted stored) })
        (keys.filter (fun r => r.slot ≠ (userId, key)) ++
          [reservedKey userId key reqHash sampledAt]) =
      keys.filter (fun r => r.slot ≠ (userId, key)) ++
        [{ reservedKey userId key reqHash sampledAt with
            response := some (persisted stored) }] := by
  rw [updateWhere_append, updateWhere_eq_self]
  · congr 1
    unfold updateWhere
    rw [List.map_singleton, if_pos]
    exact decide_eq_true rfl
  · intro r hRow
    have hOther := (List.mem_filter.mp hRow).2
    simpa using hOther

/- The row with its response, when the transaction ends. -/
theorem Reserved.executed
    {sampledAt : ℤ}
    {stored : StoredResponse}
    {w' : Desk σ → Desk σ}
    (hReserved :
      Reserved userId key reqHash sampledAt log w c)
    (hWrites :
      ∀ s, (w' s).1 =
        updateWhere (fun r => r.slot = (userId, key))
          (fun r =>
            { r with response := some (persisted stored) })
          (w s).1) :
    Executed userId key reqHash stored
      { reservedKey userId key reqHash sampledAt with
        response := some (persisted stored) }
      log c.db (w' c.db) where
  slot := rfl
  requestHash := rfl
  response := rfl
  expires := rfl
  samples := hReserved.samples
  entry := hReserved.entry
  expired := hReserved.expired
  keys := by
    rw [hWrites]
    rcases hReserved.writes with hFilter | ⟨hAppend, hNone⟩
    · rw [hFilter, updateWhere_reserved]
    · have hAll :
          c.db.1.filter (fun r => r.slot ≠ (userId, key)) =
            c.db.1 := by
        apply List.filter_eq_self.mpr
        intro r hRow
        exact decide_eq_true (hNone r hRow)
      rw [hAppend]
      conv_lhs => rw [← hAll]
      rw [updateWhere_reserved]

end PigBook.Idempotency

------------------------------------------------------------
-- Creations
------------------------------------------------------------

namespace PigBook.Idempotency

open ReadCommitted

variable {S : Sig} {σ : Type} {W : World (desk S)}
variable {K : Timed W} {db : Desk σ} {pid : ℕ}
variable {userId key : Uuid} {reqHash : String}
variable {log : List (Action (desk S))}
variable {w : Desk σ → Desk σ}
variable {c c' : Config W (Desk σ) DeskReply}

/- The commit with the answer will be right. -/
abbrev Answers
    (K : Timed W)
    (db : Desk σ)
    (pid : ℕ)
    (userId key : Uuid)
    (reqHash : String)
    (response : StoredResponse)
    (log : List (Action (desk S)))
    (w : Desk σ → Desk σ)
    (c : Config W (Desk σ) DeskReply) : Prop :=
  (deskContract K db).rules.Finishes pid
    (.created userId key reqHash response) log w c

/- Once the response is stored, the commit is right. -/
theorem Reserved.answers
    {stored : StoredResponse}
    {sampledAt : ℤ}
    {w' : Desk σ → Desk σ}
    (hReserved :
      Reserved userId key reqHash sampledAt log w c)
    (hWrites :
      ∀ s, (w' s).1 =
        updateWhere (fun r => r.slot = (userId, key))
          (fun r =>
            { r with response := some (persisted stored) })
          (w s).1) :
    Answers K db pid userId key reqHash
      (markReplayed false stored) log w' c := by
  intro c₀ hGood hRely
  have hHere :=
    hReserved.later (fun _ => rfl) hRely.stable []
  rw [List.append_nil] at hHere
  have hExecuted := hHere.executed hWrites
  apply deskContract_commits hGood
  exact
    ⟨hExecuted.step, stored, _, Or.inl ⟨hExecuted, rfl⟩⟩

theorem executeFresh_rwp
    {operation : Prog S σ StoredResponse}
    {sampledAt : ℤ}
    (hSingle : operation.Single)
    (hReserved :
      Reserved userId key reqHash sampledAt log w c) :
    (executeFresh userId key operation).rwp
      (deskContract K db).rules pid
      (Answers K db pid userId key reqHash) log w c := by
  unfold executeFresh
  rw [Prog.bind_eq, Prog.rwp_bind]
  apply
    hSingle.rwp_embed
      (I := fun log w c =>
        Reserved userId key reqHash sampledAt log w c)
      (fun q => deskContract_silent _) deskContract_lenient _ _
      hReserved
  · intro log w c act c' f hInv hRan
    apply hInv.later _ (Contract.ran_stable hRan)
    exact fun _ => rfl
  · intro stored log w c hInv
    rw [Prog.bind_eq, Prog.rwp_bind]
    apply Prog.rwp_embed_stmt (deskContract_silent _)
    intro a c' hRan
    by_cases hStatus : 200 ≤ stored.status ∧ stored.status ≤ 499
    · rw [if_pos hStatus]
      have hLater :=
        hInv.later (fun _ => rfl) (Contract.ran_stable hRan)
      exact (hLater _).answers (fun _ => rfl)
    · rw [if_neg hStatus]
      exact Prog.rwp_fail_of_lenient deskContract_lenient _

end PigBook.Idempotency

------------------------------------------------------------
-- Statements about the Keys
------------------------------------------------------------

namespace PigBook.Idempotency

open ReadCommitted

variable {S : Sig} {σ : Type} {W : World (desk S)}
variable {K : Timed W} {db : Desk σ} {pid : ℕ}
variable {userId key : Uuid} {reqHash : String}
variable {log log' : List (Action (desk S))}
variable {w w' : Desk σ → Desk σ}
variable {c c' c'' : Config W (Desk σ) DeskReply}

/- From `log` and `c` on, the client has run statements. -/
structure Meanwhile
    (K : Timed W)
    (db : Desk σ)
    (log : List (Action (desk S)))
    (c : Config W (Desk σ) DeskReply)
    (log' : List (Action (desk S)))
    (c' : Config W (Desk σ) DeskReply) : Prop where
  good : (deskContract K db).Good c'
  grown : ∃ rest, log' = log ++ rest
  stable : DeskStable (held log) c.db c'.db
  time : K.time c.env ≤ K.time c'.env

theorem Meanwhile.of_ran
    {act : Action (desk S)}
    (hRan :
      (deskContract K db).rules.Ran pid (held log) act c c') :
    Meanwhile K db log c (log ++ [act]) c' where
  good := hRan.good
  grown := ⟨[act], rfl⟩
  stable := Contract.ran_stable hRan
  time := (ran_time hRan).1

theorem Meanwhile.held
    (hMeanwhile : Meanwhile K db log c log' c') :
    ∀ k ∈ held log, k ∈ ReadCommitted.held log' := by
  rcases hMeanwhile.grown with ⟨rest, rfl⟩
  exact held_subset_append log rest

theorem Meanwhile.trans
    {log'' : List (Action (desk S))}
    (hFirst : Meanwhile K db log c log' c')
    (hSecond : Meanwhile K db log' c' log'' c'') :
    Meanwhile K db log c log'' c'' where
  good := hSecond.good
  grown := by
    rcases hFirst.grown with ⟨rest, rfl⟩
    rcases hSecond.grown with ⟨rest', rfl⟩
    exact ⟨rest ++ rest', List.append_assoc _ _ _⟩
  stable := by
    apply hFirst.stable.trans
    constructor
    · intro r hRow hKey
      exact hSecond.stable.row r hRow (hFirst.held _ hKey)
    · intro r hRow hKey
      exact hSecond.stable.entry r hRow (hFirst.held _ hKey)
  time := hFirst.time.trans hSecond.time

theorem insertKey_rwp
    {post :
      Bool → List (Action (desk S)) → (Desk σ → Desk σ) →
        Config W (Desk σ) DeskReply → Prop}
    (hTaken :
      ∀ log' c', Meanwhile K db log c log' c' →
        taken userId key (w c'.db).1 = true →
        post false log' w c')
    (hFree :
      ∀ log' t w' c', Meanwhile K db log c log' c' →
        taken userId key (w c'.db).1 = false →
        Samples log' t →
        K.time c.env ≤ t →
        entryKey (userId, key) ∈ held log' →
        (∀ s, (w' s).1 =
          (w s).1 ++ [reservedKey userId key reqHash t]) →
        post true log' w' c') :
    (onKeys (insertKey userId key reqHash)).rwp
      (deskContract K db).rules pid post log w c := by
  unfold onKeys insertKey
  rw [Prog.bind_eq, Prog.embed_bind, Prog.rwp_bind]
  apply Prog.rwp_embed_ask (deskContract_silent _)
  intro (t : ℤ) c₁ hAsked
  have hNow := (ran_time hAsked).2 t rfl
  apply Prog.rwp_embed_stmt (deskContract_silent _)
  intro a c' hRan
  have hMeanwhile :=
    (Meanwhile.of_ran hAsked).trans (.of_ran hRan)
  have hGet :
      (Embedding.inl keyTable S (List IdempotencyKey) σ).get
          (w c'.db) =
        (w c'.db).1 :=
    rfl
  by_cases hAny : taken userId key (w c'.db).1 = true
  · simp only [hGet, hAny, if_true] at hMeanwhile ⊢
    have hSame :
        (fun t =>
          (Embedding.inl keyTable S
            (List IdempotencyKey) σ).lift id (w t)) = w := by
      funext t
      rw [Embedding.lift_id]
      rfl
    rw [hSame]
    exact hTaken _ c' hMeanwhile hAny
  · rw [Bool.not_eq_true] at hAny
    simp only [hGet, hAny, Bool.false_eq_true,
      if_false] at hMeanwhile ⊢
    apply hFree _ t _ c' hMeanwhile hAny
    · exact (Samples.last rfl).append _
    · exact hNow.1
    · rw [held_append, held_singleton]
      apply List.mem_append_right
      exact List.mem_singleton.mpr rfl
    · exact fun _ => rfl

theorem selectKeyForUpdate_rwp
    {post :
      Option (IdempotencyKey × Bool) →
        List (Action (desk S)) → (Desk σ → Desk σ) →
        Config W (Desk σ) DeskReply → Prop}
    (hNone :
      ∀ log' c', Meanwhile K db log c log' c' →
        post none log' w c')
    (hSome :
      ∀ log' t row c', Meanwhile K db log c log' c' →
        row ∈ (w c'.db).1 →
        row.slot = (userId, key) →
        Samples log' t →
        t ≤ K.time c'.env →
        rowKey (userId, key) ∈ held log' →
        post (some (row, decide (row.expiresAt ≤ t)))
          log' w c') :
    (onKeys (selectKeyForUpdate userId key)).rwp
      (deskContract K db).rules pid post log w c := by
  unfold onKeys selectKeyForUpdate
  rw [Prog.bind_eq, Prog.embed_bind, Prog.rwp_bind]
  apply Prog.rwp_embed_ask (deskContract_silent _)
  intro (t : ℤ) c₁ hAsked
  have hNow := (ran_time hAsked).2 t rfl
  apply Prog.rwp_embed_select (deskContract_silent _)
  intro a c' hRan
  have hMeanwhile :=
    (Meanwhile.of_ran hAsked).trans (.of_ran hRan)
  change
    post
      (((w c'.db).1.find?
        (fun r => r.slot = (userId, key))).map
          (fun r => (r, decide (r.expiresAt ≤ t))))
      _ w c'
  rcases hFind :
      (w c'.db).1.find? (fun r => r.slot = (userId, key)) with
    - | row
  · rw [hFind]
    exact hNone _ c' hMeanwhile
  · rw [hFind]
    have hRow := List.mem_of_find?_eq_some hFind
    have hFound := List.find?_some hFind
    have hSlot : row.slot = (userId, key) :=
      of_decide_eq_true hFound
    apply hSome _ t row c' hMeanwhile hRow hSlot
    · exact (Samples.last rfl).append _
    · exact hNow.2.trans (ran_time hRan).1
    · rw [held_append, held_singleton]
      apply List.mem_append_right
      apply List.mem_map_of_mem (f := Sum.inl)
      apply List.mem_map.mpr
      refine ⟨row, List.mem_filter.mpr ⟨hRow, hFound⟩, ?_⟩
      rw [hSlot]

theorem deleteKey_rwp
    {post :
      Unit → List (Action (desk S)) → (Desk σ → Desk σ) →
        Config W (Desk σ) DeskReply → Prop}
    (hDone :
      ∀ log' w' c', Meanwhile K db log c log' c' →
        (∀ r ∈ (w c'.db).1, r.slot = (userId, key) →
          entryKey (userId, key) ∈ held log') →
        (∀ s, w' s =
          ((w s).1.filter (fun r => r.slot ≠ (userId, key)),
            (w s).2)) →
        post () log' w' c') :
    (onKeys (deleteKey userId key)).rwp
      (deskContract K db).rules pid post log w c := by
  apply Prog.rwp_embed_stmt (deskContract_silent _)
  intro a c' hRan
  apply hDone _ _ c' (.of_ran hRan)
  · intro r hRow hSlot
    rw [held_append, held_singleton]
    apply List.mem_append_right
    apply List.mem_map_of_mem (f := Sum.inl)
    apply List.mem_flatMap.mpr
    refine
      ⟨r, List.mem_filter.mpr ⟨hRow, decide_eq_true hSlot⟩, ?_⟩
    rw [hSlot]
    exact List.mem_cons_of_mem _ List.mem_cons_self
  · exact fun _ => rfl

end PigBook.Idempotency

------------------------------------------------------------
-- Turns
------------------------------------------------------------

namespace PigBook.Idempotency

open ReadCommitted

variable {S : Sig} {σ : Type} {W : World (desk S)}
variable {K : Timed W} {db : Desk σ} {pid : ℕ}
variable {userId key : Uuid} {reqHash : String}
variable {log log' : List (Action (desk S))}
variable {w w' : Desk σ → Desk σ}
variable {c c' c'' : Config W (Desk σ) DeskReply}

variable {t : ℤ}

/- The row has been inserted where there was none. -/
theorem Reserved.of_free
    (hWrites :
      ∀ s, (w' s).1 =
        s.1 ++ [reservedKey userId key reqHash t])
    (hFree : taken userId key c'.db.1 = false)
    (hSamples : Samples log' t)
    (hEntry : entryKey (userId, key) ∈ held log') :
    Reserved userId key reqHash t log' w' c' := by
  have hNone : ∀ r ∈ c'.db.1, r.slot ≠ (userId, key) := by
    intro r hRow hSlot
    have hAny := List.any_eq_false.mp hFree r hRow
    exact hAny (decide_eq_true hSlot)
  constructor
  · exact Or.inr ⟨hWrites, hNone⟩
  · exact hSamples
  · exact hEntry
  · intro r hRow hSlot
    exact absurd hSlot (hNone r hRow)

/- The row has been inserted where one was deleted. -/
theorem Vacated.reserved
    (hVacated : Vacated K userId key log w c)
    (hMeanwhile : Meanwhile K db log c log' c')
    (hWrites :
      ∀ s, (w' s).1 =
        (w s).1 ++ [reservedKey userId key reqHash t])
    (hSamples : Samples log' t)
    (hNow : K.time c.env ≤ t) :
    Reserved userId key reqHash t log' w' c' := by
  constructor
  · apply Or.inl
    intro s
    rw [hWrites, hVacated.writes]
  · exact hSamples
  · exact hMeanwhile.held _ hVacated.entry
  · intro r hRow hSlot
    have hOld : r ∈ c.db.1 := by
      apply hMeanwhile.stable.entry r hRow
      rw [hSlot]
      exact hVacated.entry
    exact
      ⟨(hVacated.expired r hOld hSlot).trans hNow,
        hMeanwhile.held _ hVacated.row⟩

/- A row that has not expired answers the request again. -/
theorem replayed_answers
    {row : IdempotencyKey}
    {stored : StoredResponse}
    (hClean : ∀ s, w s = s)
    (hRow : row ∈ c.db.1)
    (hSlot : row.slot = (userId, key))
    (hHash : row.requestHash = reqHash)
    (hResponse : row.response = some stored)
    (hHeld : rowKey (userId, key) ∈ held log)
    (hSamples : Samples log t)
    (hLive : t < row.expiresAt) :
    Answers K db pid userId key reqHash
      (markReplayed true stored) log w c := by
  intro c₀ hGood hRely
  have hStays : row ∈ c₀.db.1 := by
    apply hRely.stable.row row hRow
    rw [hSlot]
    exact hHeld
  have hReplayed :
      Replayed userId key reqHash stored row log c₀.db
        (w c₀.db) :=
    ⟨hClean _, hStays, hSlot, hHash, hResponse,
      t, hSamples, hLive⟩
  apply deskContract_commits hGood
  refine ⟨KeysStep.of_eq ?_, stored, row, Or.inr ⟨hReplayed, rfl⟩⟩
  rw [hClean]

/- An expired row is deleted, and the loop goes on. -/
theorem deleteExpired_rwp
    {row : IdempotencyKey}
    {p : DeskM S σ StoredResponse}
    (hClean : ∀ s, w s = s)
    (hRow : row ∈ c.db.1)
    (hSlot : row.slot = (userId, key))
    (hExpired : row.expiresAt ≤ K.time c.env)
    (hHeld : rowKey (userId, key) ∈ held log)
    (hNext :
      ∀ log w c,
        ((∀ s, w s = s) ∨ Vacated K userId key log w c) →
        p.rwp (deskContract K db).rules pid
          (Answers K db pid userId key reqHash) log w c) :
    (do
      onKeys (deleteKey userId key)
      p : DeskM S σ StoredResponse).rwp
      (deskContract K db).rules pid
      (Answers K db pid userId key reqHash) log w c := by
  rw [Prog.bind_eq, Prog.rwp_bind]
  refine deleteKey_rwp ?_
  intro log₁ w₁ c₁ hMeanwhile hEntry hWrites
  have hStays : row ∈ c₁.db.1 := by
    apply hMeanwhile.stable.row row hRow
    rw [hSlot]
    exact hHeld
  apply hNext
  apply Or.inr
  constructor
  · intro s
    rw [hWrites, hClean]
  · exact hMeanwhile.held _ hHeld
  · apply hEntry row _ hSlot
    rw [hClean]
    exact hStays
  · intro r hOther hSame
    have hEq : r = row := by
      apply
        Keyed.eq_of_key hMeanwhile.good.valid.keyed hOther hStays
      rw [hSame, hSlot]
    rw [hEq]
    exact hExpired.trans hMeanwhile.time

/- Each turn begins clean, or with the old row deleted. -/
theorem attemptCreate_rwp
    {operation : Prog S σ StoredResponse}
    (hSingle : operation.Single)
    (turns : ℕ) :
    ∀ log w c,
      ((∀ s, w s = s) ∨ Vacated K userId key log w c) →
      (attemptCreate userId key reqHash operation turns).rwp
        (deskContract K db).rules pid
        (Answers K db pid userId key reqHash) log w c := by
  induction turns with
  | zero =>
      intro log w c hPhase
      exact Prog.rwp_fail_of_lenient deskContract_lenient _
  | succ turns ih =>
      intro log w c hPhase
      unfold attemptCreate
      rw [Prog.bind_eq, Prog.rwp_bind]
      apply insertKey_rwp
      · intro log₁ c₁ hMeanwhile hTaken
        have hClean : ∀ s, w s = s := by
          rcases hPhase with hClean | hVacated
          · exact hClean
          · rw [hVacated.not_taken] at hTaken
            cases hTaken
        rw [if_neg Bool.false_ne_true, Prog.bind_eq,
          Prog.rwp_bind]
        apply selectKeyForUpdate_rwp
        · intro log₂ c₂ hMeanwhile'
          exact ih log₂ w c₂ (Or.inl hClean)
        · intro log₂ t row c₂ hMeanwhile' hRow hSlot hSamples
            hPast hHeld
          rw [hClean] at hRow
          by_cases hExpired : row.expiresAt ≤ t
          · simp only [hExpired, decide_true, if_true]
            exact
              deleteExpired_rwp hClean hRow hSlot
                (hExpired.trans hPast) hHeld ih
          · simp only [hExpired, decide_false,
              Bool.false_eq_true, if_false]
            by_cases hHash : row.requestHash ≠ reqHash
            · rw [if_pos hHash]
              exact
                Prog.rwp_fail_of_lenient deskContract_lenient _
            · rw [if_neg hHash]
              cases hResponse : row.response with
              | none =>
                  exact
                    Prog.rwp_fail_of_lenient
                      deskContract_lenient _
              | some stored =>
                  exact
                    replayed_answers hClean hRow hSlot
                      (not_not.mp hHash) hResponse hHeld
                      hSamples (not_le.mp hExpired)
      · intro log₁ t w₁ c₁ hMeanwhile hFree hSamples hNow
          hEntry hWrites
        rw [if_pos rfl]
        apply executeFresh_rwp hSingle
        rcases hPhase with hClean | hVacated
        · rw [hClean] at hFree
          apply Reserved.of_free _ hFree hSamples hEntry
          intro s
          rw [hWrites, hClean]
        · exact
            hVacated.reserved hMeanwhile hWrites hSamples hNow

end PigBook.Idempotency

------------------------------------------------------------
-- Other Programs
------------------------------------------------------------

namespace PigBook.Idempotency

open ReadCommitted

variable {S : Sig} {σ : Type} {W : World (desk S)}
variable {K : Timed W} {db : Desk σ} {pid : ℕ}
variable {userId key : Uuid} {reqHash : String}
variable {log log' : List (Action (desk S))}
variable {w w' : Desk σ → Desk σ}
variable {c c' c'' : Config W (Desk σ) DeskReply}

/- A purge takes only rows that it has found expired. -/
theorem purged_step
    {t : ℤ}
    {chosen : List (Uuid × Uuid)}
    {found before after : Desk σ}
    (hKeyed : Keyed IdempotencyKey.slot found.1)
    (hSamples : Samples log t)
    (hHeld :
      ∀ r ∈ found.1, r.swept t chosen = true →
        rowKey r.slot ∈ held log ∧ entryKey r.slot ∈ held log)
    (hStable : DeskStable (held log) found before)
    (hKeys :
      after.1 =
        before.1.filter (fun r =>
          r.slot ∉
            (found.1.filter (fun r => r.swept t chosen)).map
              (·.slot))) :
    KeysStep log before after := by
  have hFiltered :
      after.1 =
        before.1.filter (fun r =>
          !decide
            (r.slot ∈
              (found.1.filter (fun r => r.swept t chosen)).map
                (·.slot))) := by
    rw [hKeys]
    apply List.filter_congr
    intro r hRow
    exact decide_not
  apply KeysStep.of_filter hFiltered
  intro r hRow hGone
  rcases List.mem_map.mp (of_decide_eq_true hGone) with
    ⟨r', hFound, hSlot⟩
  rcases List.mem_filter.mp hFound with ⟨hOld, hSwept⟩
  have hBoth := hHeld r' hOld hSwept
  rw [hSlot] at hBoth
  have hEq : r = r' :=
    Keyed.eq_of_key hKeyed
      (hStable.entry r hRow hBoth.2) hOld hSlot.symm
  rw [← hEq] at hSwept
  have hExpired := (of_decide_eq_true hSwept).1
  exact ⟨⟨t, hSamples, hExpired⟩, hBoth.1⟩

theorem purgeExpiredBatch_rwp
    (batchSize : ℕ) :
    (onKeys (purgeExpiredBatch batchSize)).rwp
      (deskContract K db).rules pid
      (fun count log w c =>
        (deskContract K db).rules.Finishes pid
          (.purged count) log w c)
      [] id c := by
  unfold onKeys purgeExpiredBatch
  rw [Prog.bind_eq, Prog.embed_bind, Prog.rwp_bind]
  apply Prog.rwp_embed_ask (deskContract_silent _)
  intro (a : ℤ × List (Uuid × Uuid)) c₁ hAsked
  apply Prog.rwp_embed_stmt (deskContract_silent _)
  intro b c' hRan c₀ hGood hRely
  have hHeld :
      ∀ r ∈ c'.db.1,
        r.swept a.1 (a.2.take batchSize) = true →
        ∀ k ∈ [DeskKey.row r.slot, DeskKey.entry r.slot],
          (Sum.inl k : (desk S).Key) ∈
            ((c'.db.1.filter (fun r =>
              r.swept a.1 (a.2.take batchSize))).flatMap
                (fun r =>
                  [DeskKey.row r.slot,
                    DeskKey.entry r.slot])).map Sum.inl := by
    intro r hRow hSwept k hKey
    apply List.mem_map_of_mem
    apply List.mem_flatMap.mpr
    exact ⟨r, List.mem_filter.mpr ⟨hRow, hSwept⟩, hKey⟩
  apply deskContract_commits hGood
  refine ⟨?_, rfl, ?_⟩
  · apply
      purged_step hRan.good.valid.keyed
        ((Samples.last rfl).append _) _ hRely.stable rfl
    intro r hRow hSwept
    rw [held_append, held_singleton]
    constructor
    · apply List.mem_append_right
      exact hHeld r hRow hSwept _ List.mem_cons_self
    · apply List.mem_append_right
      exact
        hHeld r hRow hSwept _
          (List.mem_cons_of_mem _ List.mem_cons_self)
  · intro r hRow
    exact List.mem_of_mem_filter hRow

theorem other_rwp
    (p : Prog S σ Unit)
    (hWrites : ∀ s, (w s).1 = s.1) :
    (onRest p).rwp (deskContract K db).rules pid
      (fun _ log w c =>
        (deskContract K db).rules.Finishes pid .other log w c)
      log w c := by
  unfold onRest
  induction p generalizing log w c with
  | done a =>
      intro c₀ hGood hRely
      apply deskContract_commits hGood
      exact ⟨KeysStep.of_eq (hWrites _), hWrites _⟩
  | fail e =>
      exact Prog.rwp_fail_of_lenient deskContract_lenient _
  | stmt q need write next ih =>
      apply Prog.rwp_embed_stmt (deskContract_silent _)
      intro a c' hRan
      apply ih
      intro s
      exact hWrites s
  | commit next ih =>
      intro c₀ hGood hRely
      refine ⟨?_, ih (fun _ => rfl)⟩
      apply deskContract_commits hGood
      exact ⟨KeysStep.of_eq (hWrites _), hWrites _⟩
  | rollback next ih =>
      intro c₀ hGood hRely
      exact ih (fun _ => rfl)

/- Every program of the desk keeps the contract. -/
theorem desk_keeps
    {p : DeskM S σ DeskReply}
    (hProgram : deskPrograms p) :
    (deskContract K db).rules.Keeps p := by
  intro pid c hGood
  rcases hProgram with ⟨r, hAllowed, rfl⟩
  cases r with
  | create userId key reqHash operation =>
      apply (Prog.rwp_bind _ _).mpr
      exact
        attemptCreate_rwp hAllowed 5 [] id _
          (Or.inl (fun _ => rfl))
  | purge batchSize =>
      apply (Prog.rwp_bind _ _).mpr
      exact purgeExpiredBatch_rwp batchSize
  | other p =>
      apply (Prog.rwp_bind _ _).mpr
      exact other_rwp p (fun _ => rfl)

theorem desk_good
    {env : W.Carrier}
    {s : Sys W (Desk σ) DeskReply}
    (K : Timed W)
    (hValid : DeskValid db)
    (hReach : Reachable deskPrograms (Sys.initial db env) s) :
    (deskContract K db).Good s.toConfig :=
  Contract.good_of_reachable
    (K := deskContract K db)
    (fun _ hProgram => desk_keeps hProgram) hValid hReach

end PigBook.Idempotency
