import PigBook.Users.LastAdmin
import PigBook.Users.Scripts

/-
  Patches, password resets and retentions, run side by side.

  Every committed transaction revises some users whom it has
  locked; the contract says which, and from what.

  Key definitions include:
    * `OperatorRequest`, `OperatorReply`
    * `ResetSaw`, `RetentionListed`
    * `OperatorReply.Outcome`
    * `operatorContract`

  Key theorems include:
    * `OperatorRequest.keeps`
    * `operator_good`
-/

------------------------------------------------------------
-- Clients
------------------------------------------------------------

namespace PigBook

open ReadCommitted Users

/- An administrator's patch, or the run of a script. -/
inductive OperatorRequest (lax : Json → Option Bool)
  | patch (r : PatchRequest lax)
  | reset
      (userId : Uuid)
      (newPassword : String)
      (apply : Bool)
      (approval : Approval)
  | retention (r : RetentionRequest)

/- The answers, with what they answer. -/
inductive OperatorReply (lax : Json → Option Bool)
  | patched (reply : PatchReply lax)
  | reset (userId : Uuid) (apply : Bool) (count : ℕ)
  | retained (r : RetentionRequest) (result : RetentionResult)

def OperatorRequest.program
    (X : Primitives)
    {lax : Json → Option Bool} :
    OperatorRequest lax →
      Prog accounts Accounts (OperatorReply lax)
| patch r => do
    let reply ← patchProgram r
    return .patched reply
| reset userId newPassword apply approval => do
    let count ←
      Users.runReset X userId newPassword apply approval
    return .reset userId apply count
| retention r => do
    let result ← Users.runRetention X r
    return .retained r result

def operatorPrograms
    (X : Primitives)
    (lax : Json → Option Bool)
    (p : Prog accounts Accounts (OperatorReply lax)) :
    Prop :=
  ∃ request : OperatorRequest lax, p = request.program X

end PigBook

------------------------------------------------------------
-- Outcomes
------------------------------------------------------------

namespace PigBook

open ReadCommitted Users

variable {lax : Json → Option Bool}

/- The revision of a patch. -/
def patchRevision
    (r : PatchRequest lax)
    (target : User)
    (now : ℤ) : Revision where
  user := target
  result := r.data.apply target now
  same := fun _ => rfl

/- The row that a reset has seen first, in its history. -/
def ResetSaw
    (db : Accounts)
    (pid : ℕ)
    (older : List (Event accounts Accounts (OperatorReply lax)))
    (userId : Uuid)
    (row : Option User) : Prop :=
  ∃ earlier,
    lastRan pid isResetRead older =
      some (⟨.resetRead userId, (), []⟩, earlier) ∧
    userById userId (latest db earlier) = row

/- The users that a retention has listed, and its clock. -/
def RetentionListed
    (db : Accounts)
    (pid : ℕ)
    (older : List (Event accounts Accounts (OperatorReply lax)))
    (r : RetentionRequest)
    (now : ℤ)
    (list : List User) : Prop :=
  (∃ earlier,
    lastRan pid isClockRead older =
      some (⟨.now, now, []⟩, earlier)) ∧
  ∃ earlier,
    lastRan pid isRetentionRead older =
      some (⟨.retentionRead, (), []⟩, earlier) ∧
    list =
      eligibleUsers (now - days r.accountCutoffDays)
        (latest db earlier)

/-
  A retention anonymizes the listed users, but for those
  whose address is one of an anonymized user by now.
-/
structure Retained
    (now : ℤ)
    (list : List User)
    (vs : List Revision)
    (before after : Accounts) : Prop where
  revised : Revised vs before after
  results :
    ∀ v ∈ vs, deletedEmail v.user.email = false ∧
      ∃ newHash, v = anonymization v.user newHash now
  listed : ∀ v ∈ vs, v.user.id ∈ list.map (·.id)
  all :
    ∀ u ∈ list, ∀ row, userById u.id before = some row →
      deletedEmail row.email = false →
        ∃ v ∈ vs, v.user.id = u.id

/- What a transaction that answers has revised. -/
def OperatorReply.Outcome
    (db : Accounts)
    (pid : ℕ)
    (older : List (Event accounts Accounts (OperatorReply lax)))
    (before after : Accounts) : OperatorReply lax → Prop
| patched reply =>
    ∃ target now, target.id = reply.request.objectId ∧
      Revised [patchRevision reply.request target now]
        before after
| reset _ false _ => Revised [] before after
| reset userId true _ =>
    ∃ seen row newHash now, row.id = userId ∧
      ResetSaw db pid older userId (some seen) ∧
      Revised [resetRevision row seen newHash now]
        before after
| retained r _ =>
    if r.apply then
      ∃ now list vs, RetentionListed db pid older r now list ∧
        Retained now list vs before after
    else
      Revised [] before after

def operatorEvent
    (db : Accounts)
    (older :
      List (Event accounts Accounts (OperatorReply lax))) :
    Event accounts Accounts (OperatorReply lax) → Prop
| .committed pid _ before after (some reply) =>
    after.Valid ∧ reply.Outcome db pid older before after
| .committed _ _ _ _ none => False
| _ => True

theorem Revised.nothing
    (s : Accounts) :
    Revised [] s s where
  row := fun v hMem => by cases hMem
  others := fun _ _ => rfl

/- A patch revises its target. -/
theorem PatchOutcome.revised
    {r : PatchRequest lax}
    {authority : Authority}
    {before after : Accounts}
    (hOutcome : PatchOutcome r authority before after) :
    ∃ target now, target.id = r.objectId ∧
      Revised [patchRevision r target now] before after := by
  rcases hOutcome.changes with
    ⟨target, now, revoked, auditId, reqId, hTarget,
      hVersion, rfl, -⟩
  have hId := userById_id hTarget
  refine ⟨target, now, hId, ?_⟩
  exact {
    row := by
      intro v hMem
      rw [List.mem_singleton.mp hMem]
      change
        userById target.id before = some target ∧
          userById target.id _ = _
      rw [hId]
      exact
        ⟨hTarget, userById_patched_target hTarget hVersion⟩
    others := by
      intro id hNot
      apply userById_patched_of_ne
      rintro rfl
      exact hNot _ (List.mem_singleton.mpr rfl) hId
  }

theorem PatchOutcome.ids
    {r : PatchRequest lax}
    {authority : Authority}
    {before after : Accounts}
    (hOutcome : PatchOutcome r authority before after) :
    after.users.map (·.id) = before.users.map (·.id) := by
  rcases hOutcome.changes with
    ⟨target, now, revoked, auditId, reqId, -, -, rfl, -⟩
  exact map_id_updateWhere (fun _ => rfl)

end PigBook

------------------------------------------------------------
-- The Contract
------------------------------------------------------------

namespace PigBook

open ReadCommitted Users

section Contract

variable {lax : Json → Option Bool} {W : World accounts}
variable {X : Primitives} {db : Accounts}

/-
  Besides the locked rows, which users there are is stable
  for everyone.
-/
def operatorContract
    (W : World accounts)
    (lax : Json → Option Bool)
    (db : Accounts) :
    Contract W Accounts (OperatorReply lax) where
  start := db
  later := fun _ _ => True
  valid := fun s _ => s.Valid
  stable := fun ks s s' =>
    RowsStable (· ∈ ks) s s' ∧
      s'.users.map (·.id) = s.users.map (·.id)
  outcome := operatorEvent db
  later_refl := fun _ => trivial
  later_trans := fun _ _ => trivial
  later_answers := fun _ => trivial
  later_advance := fun _ => trivial
  valid_later := fun _ hValid => hValid
  stable_refl := fun _ s => ⟨.refl s, rfl⟩
  stable_trans := by
    intro ks s s' s'' hFirst hSecond
    exact
      ⟨hFirst.1.trans hSecond.1, hSecond.2.trans hFirst.2⟩
  outcome_quiet := by
    intro older e hQuiet
    cases e with
    | committed pid log before after answer => cases hQuiet
    | _ => trivial

theorem operatorContract_rules
    (W : World accounts)
    (lax : Json → Option Bool)
    (db : Accounts) :
    AccountRules (operatorContract W lax db).rules
      Embedding.refl (operatorContract W lax db).stable where
  silent := fun _ => Contract.silent (fun _ _ _ _ => trivial)
  mayAbort := fun _ => trivial
  begun := begunAs_rely
  stable_of_rely := fun hRely => hRely.stable
  refl := (operatorContract W lax db).stable_refl
  trans := (operatorContract W lax db).stable_trans
  mono := fun hKeys hStable =>
    ⟨hStable.1.mono hKeys, hStable.2⟩
  rows := fun hStable => hStable.1

/- A commit that revises what it has locked is right. -/
theorem Users.Revising.commits
    {pid : ℕ}
    {log : List (Action accounts)}
    {now : ℤ}
    {vs : List Revision}
    {revoked : List Uuid}
    {w : Accounts → Accounts}
    {reply : OperatorReply lax}
    {c : Config W Accounts (OperatorReply lax)}
    (hRevising : Revising now vs revoked (held log) w c)
    (hGood : (operatorContract W lax db).Good c)
    (hOutcome :
      reply.Outcome db pid c.trace c.db (w c.db)) :
    (operatorContract W lax db).rules.Commits pid log w
      (some reply) c := by
  have hValid : c.db.Valid := hGood.valid
  apply Contract.commits hGood
  · exact hRevising.valid hValid
  · exact ⟨hRevising.valid hValid, hOutcome⟩
  · intro ks' hCompat
    exact ⟨hRevising.rowsStable hValid hCompat, hRevising.ids⟩

/- Nothing is revised by a run without effects. -/
theorem dry_finishes
    {pid : ℕ}
    {reply : OperatorReply lax}
    {c : Config W Accounts (OperatorReply lax)}
    (hOutcome :
      ∀ older s, reply.Outcome db pid older s s) :
    (operatorContract W lax db).rules.Finishes pid reply []
      id c := by
  intro c' hGood hRely
  have hStart : Revising 0 [] [] [] id c' := .start
  exact hStart.commits hGood (hOutcome c'.trace c'.db)

theorem operatorPatch_keeps
    (r : PatchRequest lax) :
    (operatorContract W lax db).rules.Keeps
      ((OperatorRequest.patch r).program X) := by
  intro pid c hGood
  have hRules := operatorContract_rules W lax db
  simp only [OperatorRequest.program, Prog.bind_eq,
    Prog.rwp_bind, Prog.pure_eq_done, Prog.rwp_done]
  apply patchProgram_rwp hRules (fun _ _ _ _ _ => trivial)
  intro actor target view log w c₁ hPatching c₂ hGood₂ hRely
  have hNow :=
    hPatching.kept hRules hRely.stable (fun _ hKey => hKey)
  have hValid : c₂.db.Valid := hGood₂.valid
  have hOutcome := hNow.outcome
  apply Contract.commits hGood₂
  · exact hOutcome.valid hValid
  · exact ⟨hOutcome.valid hValid, hOutcome.revised⟩
  · intro ks' hCompat
    exact
      ⟨hNow.rowsStable hValid hCompat (fun _ _ h => h),
        hOutcome.ids⟩

theorem reset_keeps
    (userId : Uuid)
    (newPassword : String)
    (apply : Bool)
    (approval : Approval) :
    (operatorContract W lax db).rules.Keeps
      ((.reset userId newPassword apply approval :
        OperatorRequest lax).program X) := by
  intro pid c hGood
  have hRules := operatorContract_rules W lax db
  simp only [OperatorRequest.program, Prog.bind_eq,
    Prog.rwp_bind, Prog.pure_eq_done, Prog.rwp_done]
  apply runReset_rwp hRules
  · rintro rfl count c'
    exact dry_finishes (fun _ s => .nothing s)
  · rintro rfl count seen row newHash now revoked log w c₁
      hResetting c₂ hGood₂ hRely
    have hNow : Revising now _ revoked _ w c₂ :=
      hResetting.revising.kept hRules hRely.stable
        (fun _ hKey => hKey)
    apply hNow.commits hGood₂
    refine
      ⟨seen, row, newHash, now, hResetting.target, ?_,
        hNow.revised⟩
    rcases hResetting.read with
      ⟨ks, c₀, log₀, c', hRan, hSeen, hCourse⟩
    rcases Contract.ran_latest hRan with
      ⟨earlier, hTrace, -, hDb⟩
    refine ⟨earlier, ?_, ?_⟩
    · rw [lastRan_rely hRely,
        lastRan_course (fun _ hAct => hAct) hCourse, hTrace]
      exact lastRan_ran rfl
    · rw [← hSeen, hDb]
      rfl

theorem retention_keeps
    (r : RetentionRequest) :
    (operatorContract W lax db).rules.Keeps
      ((.retention r : OperatorRequest lax).program X) := by
  intro pid c hGood
  have hRules := operatorContract_rules W lax db
  simp only [OperatorRequest.program, Prog.bind_eq,
    Prog.rwp_bind, Prog.pure_eq_done, Prog.rwp_done]
  apply
    runRetention_rwp hRules (fun hStable => hStable.2)
      (fun hValid => hValid.users)
  · intro hOff result c'
    apply dry_finishes
    intro older s
    unfold OperatorReply.Outcome
    dsimp only
    rw [if_neg (by simp [hOff])]
    exact .nothing s
  · intro hOn result now vs revoked log w c₁ hRetaining c₂
      hGood₂ hRely
    rcases hRetaining.clock with ⟨before, hClock⟩
    rcases hRetaining.list with
      ⟨earlier, hList, hAnonymizing⟩
    have hNow : Anonymizing now _ vs revoked _ w c₂ :=
      hAnonymizing.kept hRules hRely.stable.2 hRely.stable
        (fun _ hKey => hKey)
    apply hNow.revising.commits hGood₂
    unfold OperatorReply.Outcome
    dsimp only
    rw [if_pos hOn]
    refine
      ⟨now, _, vs, ⟨⟨before, ?_⟩, earlier, ?_, rfl⟩, ?_⟩
    · rw [lastRan_rely hRely]
      exact hClock
    · rw [lastRan_rely hRely]
      exact hList
    · exact {
        revised := hNow.revising.revised
        results := hNow.results
        listed := hNow.listed
        all := by
          intro u hMem row hRow hNew
          rcases hNow.handled u hMem with
            hDone | hNone | ⟨row', -, hRow', hOld⟩
          · exact hDone
          · rw [hNone] at hRow
            cases hRow
          · rw [hRow'] at hRow
            cases hRow
            rw [hOld] at hNew
            cases hNew
      }

theorem OperatorRequest.keeps
    (request : OperatorRequest lax) :
    (operatorContract W lax db).rules.Keeps
      (request.program X) := by
  cases request with
  | patch r => exact operatorPatch_keeps r
  | reset userId newPassword apply approval =>
      exact reset_keeps userId newPassword apply approval
  | retention r => exact retention_keeps r

/- The contract holds in every run. -/
theorem operator_good
    {env : W.Carrier}
    {s : Sys W Accounts (OperatorReply lax)}
    (hValid : db.Valid)
    (hReach :
      Reachable (operatorPrograms X lax)
        (Sys.initial db env) s) :
    (operatorContract W lax db).Good s.toConfig := by
  apply Contract.good_of_reachable _ hValid hReach
  rintro p ⟨request, rfl⟩
  exact request.keeps

end Contract

/- The committed states of a run are valid. -/
theorem operator_latest_valid
    {lax : Json → Option Bool}
    {db : Accounts}
    (hValid : db.Valid)
    {trace : List (Event accounts Accounts (OperatorReply lax))}
    (hAudited : Audited (operatorEvent db) trace) :
    (latest db trace).Valid := by
  induction trace with
  | nil => exact hValid
  | cons e older ih =>
      cases e with
      | committed pid log before after answer =>
          cases answer with
          | none => cases hAudited.1
          | some reply => exact hAudited.1.1
      | _ => exact ih hAudited.2

end PigBook
