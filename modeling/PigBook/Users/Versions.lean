import Mathlib.Data.List.Infix
import PigBook.Users.Operators

/-
  The versions of users.

  Every writer adds one to the version that it has loaded.  A
  patch and a retention load the row as they lock it.  A reset
  loads it before, and its locking read does not refresh what
  is loaded: versions repeat exactly when a reset has been
  overtaken between the two.

  Key definitions include:
    * `Mutates`, `RaisesVersion`
    * `VersionsUnique`
    * `Overtaken`

  Key theorems include:
    * `user_versions_iff`
    * `user_versions_repeated`
-/

------------------------------------------------------------
-- Versions in a Run
------------------------------------------------------------

namespace PigBook

open ReadCommitted Users

variable {lax : Json → Option Bool}

/- The user that an answer is about, if it changed one. -/
def OperatorReply.Target : OperatorReply lax → Uuid → Prop
| patched reply, id => reply.request.objectId = id
| reset userId apply _, id => apply = true ∧ userId = id
| retained _ _, _ => False

/- The commit is about the user, or changes the row. -/
def Mutates
    (c : Commit accounts Accounts (OperatorReply lax))
    (id : Uuid) : Prop :=
  (∃ reply, c.answer = some reply ∧ reply.Target id) ∨
    userById id c.after ≠ userById id c.before

/- The version stored is the one before, plus one. -/
def RaisesVersion
    (before after : Accounts)
    (id : Uuid) : Prop :=
  ∃ u u', userById id before = some u ∧
    userById id after = some u' ∧ u'.version = u.version + 1

/-
  Each committed mutation raises the version by one, and no
  two different committed states of a user have one version.
-/
structure VersionsUnique
    (db : Accounts)
    (trace : List (Event accounts Accounts (OperatorReply lax))) :
    Prop where
  raised :
    ∀ c ∈ commits trace, ∀ id, Mutates c id →
      RaisesVersion c.before c.after id
  unique :
    ∀ t ∈ states db trace, ∀ t' ∈ states db trace,
      ∀ id u u', userById id t = some u →
        userById id t' = some u' →
          u'.version = u.version → u' = u

/-
  The row that a reset saw first is not the row that it
  changes.
-/
def Overtaken
    (db : Accounts)
    (pid : ℕ)
    (older : List (Event accounts Accounts (OperatorReply lax)))
    (userId : Uuid)
    (before : Accounts) : Prop :=
  ∃ row, ResetSaw db pid older userId row ∧
    row ≠ userById userId before

/- A user is as before, or has a later version. -/
def VersionsGrow (s s' : Accounts) : Prop :=
  ∀ id u, userById id s = some u →
    ∃ u', userById id s' = some u' ∧
      (u' = u ∨ u.version < u'.version)

theorem VersionsGrow.refl
    (s : Accounts) :
    VersionsGrow s s :=
  fun _ u hUser => ⟨u, hUser, Or.inl rfl⟩

theorem VersionsGrow.trans
    {s s' s'' : Accounts}
    (hFirst : VersionsGrow s s')
    (hSecond : VersionsGrow s' s'') :
    VersionsGrow s s'' := by
  intro id u hUser
  rcases hFirst id u hUser with ⟨u', hUser', hGrows⟩
  rcases hSecond id u' hUser' with ⟨u'', hUser'', hGrows'⟩
  refine ⟨u'', hUser'', ?_⟩
  rcases hGrows with rfl | hLater
  · exact hGrows'
  · rcases hGrows' with rfl | hLater'
    · exact Or.inr hLater
    · right
      omega

/- Where versions grow, a version belongs to one row. -/
theorem VersionsGrow.unique
    {s s' : Accounts}
    {id : Uuid}
    {u u' : User}
    (hGrow : VersionsGrow s s')
    (hUser : userById id s = some u)
    (hUser' : userById id s' = some u')
    (hSame : u'.version = u.version) :
    u' = u := by
  rcases hGrow id u hUser with ⟨x, hx, hGrows⟩
  rw [hUser'] at hx
  cases hx
  rcases hGrows with hEq | hLater
  · exact hEq
  · omega

end PigBook

------------------------------------------------------------
-- One Commit
------------------------------------------------------------

namespace PigBook

open ReadCommitted Users

variable {lax : Json → Option Bool}
variable {db before after : Accounts} {pid : ℕ}
variable
  {older : List (Event accounts Accounts (OperatorReply lax))}
variable {reply : OperatorReply lax}

/- The reset has one first read. -/
theorem ResetSaw.functional
    {userId : Uuid}
    {row row' : Option User}
    (hSaw : ResetSaw db pid older userId row)
    (hSaw' : ResetSaw db pid older userId row') :
    row = row' := by
  rcases hSaw with ⟨earlier, hRead, hRow⟩
  rcases hSaw' with ⟨earlier', hRead', hRow'⟩
  rw [hRead] at hRead'
  cases hRead'
  rw [← hRow, hRow']

/- A revision of each named user raises the version. -/
theorem OperatorReply.Outcome.raising
    (hOutcome : reply.Outcome db pid older before after)
    (hReset :
      ∀ userId count, reply = .reset userId true count →
        ¬ Overtaken db pid older userId before) :
    ∃ vs, Revised vs before after ∧
      (∀ v ∈ vs,
        (v.result v.user).version = v.user.version + 1) ∧
      ∀ id, reply.Target id → ∃ v ∈ vs, v.user.id = id := by
  cases reply with
  | patched reply =>
      rcases hOutcome with ⟨target, now, hId, hRevised⟩
      refine ⟨_, hRevised, ?_, ?_⟩
      · intro v hMem
        rw [List.mem_singleton.mp hMem]
        rfl
      · rintro id rfl
        exact ⟨_, List.mem_singleton.mpr rfl, hId⟩
  | reset userId apply count =>
      cases apply with
      | false =>
          refine ⟨[], hOutcome, ?_, ?_⟩
          · intro v hMem
            cases hMem
          · rintro id ⟨⟨⟩, -⟩
      | true =>
          rcases hOutcome with
            ⟨seen, row, newHash, now, hId, hSaw, hRevised⟩
          have hRow :=
            (hRevised.row _ (List.mem_singleton.mpr rfl)).1
          change userById row.id before = some row at hRow
          have hSeen : seen = row := by
            by_contra hNe
            apply hReset userId count rfl
            refine ⟨some seen, hSaw, ?_⟩
            rw [← hId, hRow]
            exact fun hSame => hNe (Option.some.inj hSame)
          refine ⟨_, hRevised, ?_, ?_⟩
          · intro v hMem
            rw [List.mem_singleton.mp hMem, hSeen]
            rfl
          · rintro id ⟨-, rfl⟩
            exact ⟨_, List.mem_singleton.mpr rfl, hId⟩
  | retained r result =>
      unfold OperatorReply.Outcome at hOutcome
      dsimp only at hOutcome
      split at hOutcome
      · rcases hOutcome with ⟨now, list, vs, -, hRetained⟩
        refine
          ⟨vs, hRetained.revised, ?_,
            fun id hTarget => hTarget.elim⟩
        intro v hMem
        rcases (hRetained.results v hMem).2 with
          ⟨newHash, hResult⟩
        rw [hResult]
        rfl
      · exact
          ⟨[], hOutcome, fun v hMem => (by cases hMem),
            fun id hTarget => hTarget.elim⟩

/- Where versions are raised, a row is kept or outgrown. -/
theorem versionsGrow_of_raises
    (hRaised :
      ∀ id, userById id after ≠ userById id before →
        RaisesVersion before after id) :
    VersionsGrow before after := by
  intro id u hUser
  by_cases hSame : userById id after = userById id before
  · exact ⟨u, hSame.trans hUser, Or.inl rfl⟩
  · rcases hRaised id hSame with ⟨x, u', hx, hUser', hRaise⟩
    rw [hUser] at hx
    cases hx
    refine ⟨u', hUser', Or.inr ?_⟩
    omega

end PigBook

------------------------------------------------------------
-- Runs
------------------------------------------------------------

namespace PigBook

open ReadCommitted Users

section Runs

variable {lax : Json → Option Bool} {W : World accounts}
variable {X : Primitives} {db : Accounts}
variable {trace : List (Event accounts Accounts (OperatorReply lax))}

/- What raises versions in every commit keeps them unique. -/
theorem versionsUnique_of_raised
    (hLinked : Audited (Event.Follows db) trace)
    (hRaised :
      ∀ c ∈ commits trace, ∀ id, Mutates c id →
        RaisesVersion c.before c.after id) :
    VersionsUnique db trace where
  raised := hRaised
  unique := by
    have hTotal :=
      states_total VersionsGrow.refl VersionsGrow.trans
        hLinked
        (fun c hc =>
          versionsGrow_of_raises
            (fun id hChanged =>
              hRaised c hc id (Or.inr hChanged)))
    intro t hMem t' hMem' id u u' hUser hUser' hSame
    rcases hTotal t hMem t' hMem' with hGrow | hGrow
    · exact hGrow.unique hUser hUser' hSame
    · exact (hGrow.unique hUser' hUser hSame.symm).symm

/- A reset that was overtaken repeats a version. -/
theorem overtaken_repeats
    (hLinked : Audited (Event.Follows db) trace)
    (hAudited : Audited (operatorEvent db) trace)
    (hUnique : VersionsUnique db trace)
    {newer older :
      List (Event accounts Accounts (OperatorReply lax))}
    {pid : ℕ}
    {log : List (Action accounts)}
    {before after : Accounts}
    {userId : Uuid}
    {count : ℕ}
    (hSplit :
      trace =
        newer ++
          .committed pid log before after
            (some (.reset userId true count)) :: older) :
    ¬ Overtaken db pid older userId before := by
  subst hSplit
  rintro ⟨row', hSaw', hNe⟩
  rcases hAudited.split.1.2 with
    ⟨seen, row, newHash, now, hId, hSaw, hRevised⟩
  rcases hRevised.row _ (List.mem_singleton.mpr rfl) with
    ⟨hBefore, hAfter⟩
  change userById row.id before = some row at hBefore
  change
    userById row.id after =
      some (resetRow seen newHash now row) at hAfter
  rw [hId] at hBefore hAfter
  rw [hSaw'.functional hSaw, hBefore] at hNe
  apply hNe
  -- the reset stores the successor of both versions
  have hRaise :=
    hUnique.raised _ mem_commits_of_split userId
      (Or.inl ⟨_, rfl, rfl, rfl⟩)
  rcases hRaise with ⟨u, u', hu, hu', hVersion⟩
  change userById userId before = some u at hu
  change userById userId after = some u' at hu'
  rw [hBefore] at hu
  cases hu
  rw [hAfter] at hu'
  cases hu'
  change seen.version + 1 = row.version + 1 at hVersion
  rcases hSaw with ⟨earlier, hRead, hSeen⟩
  rcases lastRan_split hRead with ⟨-, between, hOlder⟩
  have hEarlier :
      latest db earlier ∈
        states db
          (newer ++
            .committed pid log before after
              (some (.reset userId true count)) :: older) := by
    apply states_of_suffix _ _ (latest_mem_states db earlier)
    refine
      ⟨newer ++
        .committed pid log before after
            (some (.reset userId true count)) ::
          (between ++ [.ran pid ⟨.resetRead userId, (), []⟩]),
        ?_⟩
    rw [hOlder]
    simp
  have hStart :
      before ∈
        states db
          (newer ++
            .committed pid log before after
              (some (.reset userId true count)) :: older) := by
    have hFollows : before = latest db older :=
      hLinked.split.1
    rw [hFollows]
    apply states_of_suffix _ _ (latest_mem_states db older)
    exact
      ⟨newer ++
        [.committed pid log (latest db older) after
          (some (.reset userId true count))], by simp⟩
  rw [hUnique.unique _ hStart _ hEarlier userId row seen
    hBefore hSeen (by omega)]

/-
  In every run of patches, password resets and retentions,
  each committed mutation of a user stores the version before
  plus one, and no two different committed states of a user
  have the same version, if and only if no committed reset
  was overtaken: the row that it read first was still the
  committed row when it had locked it.
-/
theorem user_versions_iff
    {env : W.Carrier}
    {s : Sys W Accounts (OperatorReply lax)}
    (hValid : db.Valid)
    (hReach :
      Reachable (operatorPrograms X lax)
        (Sys.initial db env) s) :
    VersionsUnique db s.trace ↔
      ∀ newer pid log before after userId count older,
        s.trace =
          newer ++
            .committed pid log before after
              (some (.reset userId true count)) :: older →
          ¬ Overtaken db pid older userId before := by
  have hGood := operator_good hValid hReach
  constructor
  · intro hUnique newer pid log before after userId count
      older hSplit
    exact
      overtaken_repeats hGood.linked hGood.audited hUnique
        hSplit
  · intro hNone
    apply versionsUnique_of_raised hGood.linked
    intro c hc id hMutates
    rcases exists_of_mem_commits hc with
      ⟨newer, pid, older, hSplit⟩
    have hAudited := hGood.audited
    rw [show s.toConfig.trace = s.trace from rfl, hSplit]
      at hAudited
    have hEvent := hAudited.split.1
    rcases c with ⟨log, before, after, answer⟩
    cases answer with
    | none => cases hEvent
    | some reply =>
        have hReset :
            ∀ userId count, reply = .reset userId true count →
              ¬ Overtaken db pid older userId before := by
          rintro userId count rfl
          exact
            hNone newer pid log before after userId count
              older hSplit
        rcases hEvent.2.raising hReset with
          ⟨vs, hRevised, hRaised, hTargets⟩
        have hRevisedUser : ∃ v ∈ vs, v.user.id = id := by
          rcases hMutates with
            ⟨reply', hReply, hTarget⟩ | hChanged
          · cases hReply
            exact hTargets id hTarget
          · by_contra hNot
            push Not at hNot
            exact hChanged (hRevised.others id hNot)
        rcases hRevisedUser with ⟨v, hv, rfl⟩
        exact
          ⟨v.user, v.result v.user, (hRevised.row v hv).1,
            (hRevised.row v hv).2, hRaised v hv⟩

end Runs

end PigBook

------------------------------------------------------------
-- Two Runs
------------------------------------------------------------

namespace PigBook

open ReadCommitted Users

variable {lax : Json → Option Bool}

/- An operator resets the password of user 2. -/
def memberReset : OperatorRequest pydanticBool :=
  .reset 2 "correct horse" true
    (some ("approval", some (Uuid.str 2)))

/- A schedule of clients, from two administrators on. -/
def operatorRun
    (moves :
      List (Move accounts Accounts
        (OperatorReply pydanticBool))) :
    Sys accountsWorld Accounts (OperatorReply pydanticBool) :=
  (Sys.initial (W := accountsWorld)
    (accountsOf [adminRow 1, adminRow 2]) ⟨0, 0⟩).exec
    Users.simulator [0, 1] moves

def spawnMove
    (pid : ℕ)
    (request : OperatorRequest pydanticBool) :
    Move accounts Accounts (OperatorReply pydanticBool) :=
  .spawn pid (request.program plainPrimitives)

/- First user 2 is demoted, and then the password is reset. -/
def orderlyMoves :
    List (Move accounts Accounts
      (OperatorReply pydanticBool)) :=
  spawnMove 0 (.patch demotion) ::
      List.replicate 20 (.step 0) ++
    spawnMove 1 memberReset :: List.replicate 20 (.step 1)

/- The demotion comes after the first read of the reset. -/
def overtakingMoves :
    List (Move accounts Accounts
      (OperatorReply pydanticBool)) :=
  spawnMove 1 memberReset :: List.replicate 2 (.step 1) ++
    spawnMove 0 (.patch demotion) ::
      List.replicate 20 (.step 0) ++
    List.replicate 20 (.step 1)

theorem operatorRun_reachable
    {moves :
      List (Move accounts Accounts
        (OperatorReply pydanticBool))}
    (hMoves :
      ∀ m ∈ moves, (∃ pid, m = .step pid) ∨
        ∃ pid request, m = spawnMove pid request) :
    Reachable (operatorPrograms plainPrimitives pydanticBool)
      (Sys.initial (W := accountsWorld)
        (accountsOf [adminRow 1, adminRow 2]) ⟨0, 0⟩)
      (operatorRun moves) := by
  apply Sys.exec_reachable (fun _ _ => rfl)
  intro m hm
  rcases hMoves m hm with
    ⟨pid, rfl⟩ | ⟨pid, request, rfl⟩
  · trivial
  · exact ⟨request, rfl⟩

/- The reset that ends a history was not overtaken. -/
def keptPace
    (db : Accounts) :
    List (Event accounts Accounts (OperatorReply lax)) → Bool
| .committed pid _ before _ (some (.reset userId true _)) ::
    older =>
    (lastRan pid isResetRead older).all
      (fun (_, earlier) =>
        userById userId (latest db earlier) =
          userById userId before)
| _ => true

theorem not_overtaken_of_keptPace
    {db : Accounts}
    {trace : List (Event accounts Accounts (OperatorReply lax))}
    (hAll : trace.tails.all (keptPace db) = true)
    {newer older :
      List (Event accounts Accounts (OperatorReply lax))}
    {pid : ℕ}
    {log : List (Action accounts)}
    {before after : Accounts}
    {userId : Uuid}
    {count : ℕ}
    (hSplit :
      trace =
        newer ++
          .committed pid log before after
            (some (.reset userId true count)) :: older) :
    ¬ Overtaken db pid older userId before := by
  rintro ⟨row, ⟨earlier, hRead, hRow⟩, hNe⟩
  have hKept :=
    List.all_eq_true.mp hAll _
      ((List.mem_tails _ _).mpr ⟨newer, hSplit.symm⟩)
  simp only [keptPace, hRead, Option.all_some,
    decide_eq_true_eq] at hKept
  exact hNe (hRow.symm.trans hKept)

theorem user_versions_iff_orderly :
    (commits (operatorRun orderlyMoves).trace).length = 2 ∧
      VersionsUnique (accountsOf [adminRow 1, adminRow 2])
        (operatorRun orderlyMoves).trace := by
  refine ⟨by decide +kernel, ?_⟩
  apply
    (user_versions_iff (accountsOf_valid (by decide +kernel))
      (operatorRun_reachable (by
        simp [orderlyMoves]))).mpr
  intro newer pid log before after userId count older hSplit
  exact not_overtaken_of_keptPace (by decide +kernel) hSplit

/-
  The reset reads version 1, the demotion commits version 2,
  and the reset commits version 2 again.
-/
theorem user_versions_repeated :
    ¬ ∀ (db : Accounts) (env : Outside)
        (s : Sys accountsWorld Accounts
          (OperatorReply pydanticBool)),
        db.Valid →
        Reachable
          (operatorPrograms plainPrimitives pydanticBool)
          (Sys.initial db env) s →
        VersionsUnique db s.trace := by
  intro hClaim
  have hUnique :=
    hClaim (accountsOf [adminRow 1, adminRow 2]) ⟨0, 0⟩
      (operatorRun overtakingMoves)
      (accountsOf_valid (by decide +kernel))
      (operatorRun_reachable (by simp [overtakingMoves]))
  have hTwice :
      ∃ t ∈ states (accountsOf [adminRow 1, adminRow 2])
          (operatorRun overtakingMoves).trace,
        ∃ t' ∈ states (accountsOf [adminRow 1, adminRow 2])
            (operatorRun overtakingMoves).trace,
          (userById 2 t).map (·.version) = some 2 ∧
          (userById 2 t').map (·.version) = some 2 ∧
          userById 2 t' ≠ userById 2 t := by
    decide +kernel
  rcases hTwice with ⟨t, hMem, t', hMem', hu, hu', hNe⟩
  rcases Option.map_eq_some_iff.mp hu with ⟨u, hUser, hTwo⟩
  rcases Option.map_eq_some_iff.mp hu' with
    ⟨u', hUser', hTwo'⟩
  apply hNe
  rw [hUser, hUser',
    hUnique.unique t hMem t' hMem' 2 u u' hUser hUser'
      (hTwo'.trans hTwo.symm)]

end PigBook
