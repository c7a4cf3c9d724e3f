import Mathlib.Data.List.Infix
import PigBook.Users.Operators

/-
  Retentions and administrators.

  A retention lists users who are no administrators, and then
  anonymizes them in another transaction, which looks at
  their addresses again but not at their roles.

  Key definitions include:
    * `PromotedSince`
    * `SparesAdmins`, `LeavesAdmin`

  Key theorems include:
    * `retention_spares_iff`
    * `retention_disables_admins`
-/

------------------------------------------------------------
-- Promotions
------------------------------------------------------------

namespace PigBook

open ReadCommitted Users

variable {lax : Json → Option Bool}

/-
  A user whom the retention has listed is an administrator
  in the state that it changes, and not anonymized yet.
-/
def PromotedSince
    (db : Accounts)
    (pid : ℕ)
    (older : List (Event accounts Accounts (OperatorReply lax)))
    (r : RetentionRequest)
    (before : Accounts) : Prop :=
  ∃ now list, RetentionListed db pid older r now list ∧
    ∃ u ∈ list, ∃ row, userById u.id before = some row ∧
      row.role = .admin ∧ deletedEmail row.email = false

/- The rows of administrators are left alone. -/
def SparesAdmins (before after : Accounts) : Prop :=
  ∀ id row, userById id before = some row →
    row.role = .admin → userById id after = some row

/-
  If there was an enabled administrator at some time before
  the commit, and no other commit since then has taken the
  last one, there is one after it.
-/
def LeavesAdmin
    (db : Accounts)
    (older : List (Event accounts Accounts (OperatorReply lax)))
    (after : Accounts) : Prop :=
  ∀ between begun, older = between ++ begun →
    (∀ c ∈ commits between,
      HasAdmin c.before → HasAdmin c.after) →
    HasAdmin (latest db begun) → HasAdmin after

variable {db before after : Accounts} {pid : ℕ}
variable
  {older : List (Event accounts Accounts (OperatorReply lax))}
variable {r : RetentionRequest} {now now' : ℤ}
variable {list list' : List User} {vs : List Revision}

/- The retention has one list. -/
theorem RetentionListed.functional
    (hListed : RetentionListed db pid older r now list)
    (hListed' : RetentionListed db pid older r now' list') :
    list = list' := by
  rcases hListed with
    ⟨⟨clocked, hClock⟩, earlier, hRead, hList⟩
  rcases hListed' with
    ⟨⟨clocked', hClock'⟩, earlier', hRead', hList'⟩
  rw [hClock] at hClock'
  cases hClock'
  rw [hRead] at hRead'
  cases hRead'
  rw [hList, hList']

/-
  A retention spares the administrators unless one of those
  it has listed was promoted meanwhile.
-/
theorem Retained.sparesAdmins_iff
    (hRetained : Retained now list vs before after)
    (hListed : RetentionListed db pid older r now list) :
    SparesAdmins before after ↔
      ¬ PromotedSince db pid older r before := by
  constructor
  · rintro hSpares
      ⟨now', list', hListed', u, hMem, row, hRow, hAdmin,
        hNew⟩
    rw [hListed'.functional hListed] at hMem
    rcases hRetained.all u hMem row hRow hNew with
      ⟨v, hv, hId⟩
    rcases hRetained.revised.row v hv with
      ⟨hBefore, hAfter⟩
    rw [hId, hRow] at hBefore
    cases hBefore
    rw [hId, hSpares u.id v.user hRow hAdmin] at hAfter
    rcases (hRetained.results v hv).2 with
      ⟨newHash, hResult⟩
    -- the version of the row has been raised
    have hVersion :=
      congrArg User.version (Option.some.inj hAfter)
    rw [hResult] at hVersion
    change v.user.version = v.user.version + 1 at hVersion
    omega
  · intro hNot id row hRow hAdmin
    by_cases hRevised : ∃ v ∈ vs, v.user.id = id
    · rcases hRevised with ⟨v, hv, rfl⟩
      rw [(hRetained.revised.row v hv).1] at hRow
      cases hRow
      rcases List.mem_map.mp (hRetained.listed v hv) with
        ⟨u, hMem, hId⟩
      refine
        absurd
          ⟨now, list, hListed, u, hMem, v.user, ?_, hAdmin,
            (hRetained.results v hv).1⟩ hNot
      rw [hId]
      exact (hRetained.revised.row v hv).1
    · push Not at hRevised
      rw [hRetained.revised.others id hRevised]
      exact hRow

/- Where administrators are spared, one remains. -/
theorem SparesAdmins.hasAdmin
    (hSpares : SparesAdmins before after)
    (hKeyed : Keyed User.id before.users)
    (hAdmin : HasAdmin before) :
    HasAdmin after := by
  rcases hAdmin with ⟨u, hMem, hActive⟩
  have hRow := userById_of_mem hKeyed hMem
  have hKept :=
    hSpares u.id u hRow (User.isActiveAdmin_iff.mp hActive).1
  exact ⟨u, userById_mem hKept, hActive⟩

theorem SparesAdmins.leavesAdmin
    (hSpares : SparesAdmins before after)
    (hKeyed : Keyed User.id before.users)
    (hLinked : Audited (Event.Follows db) older)
    (hFollows : before = latest db older) :
    LeavesAdmin db older after := by
  rintro between begun rfl hKeep hAdmin
  apply hSpares.hasAdmin hKeyed
  rw [hFollows]
  exact latest_append hLinked hKeep hAdmin

end PigBook

------------------------------------------------------------
-- Runs
------------------------------------------------------------

namespace PigBook

open ReadCommitted Users

section Runs

variable {lax : Json → Option Bool} {W : World accounts}
variable {X : Primitives} {db : Accounts}

/-
  In every run of patches, password resets and retentions,
  the retentions spare every user who is an administrator
  when they lock the user, and leave an enabled administrator
  if there was one when they began to change users, if and
  only if no user whom a retention had listed was an
  administrator with an address of his own when it locked the
  user.
-/
theorem retention_spares_iff
    {env : W.Carrier}
    {s : Sys W Accounts (OperatorReply lax)}
    (hValid : db.Valid)
    (hReach :
      Reachable (operatorPrograms X lax)
        (Sys.initial db env) s) :
    (∀ newer pid log before after r result older,
      s.trace =
        newer ++
          .committed pid log before after
            (some (.retained r result)) :: older →
        r.apply = true →
          SparesAdmins before after ∧
            LeavesAdmin db older after) ↔
      ∀ newer pid log before after r result older,
        s.trace =
          newer ++
            .committed pid log before after
              (some (.retained r result)) :: older →
          r.apply = true →
            ¬ PromotedSince db pid older r before := by
  have hGood := operator_good hValid hReach
  have hCommit :
      ∀ newer pid log before after r result older,
        s.trace =
          newer ++
            .committed pid log before after
              (some (.retained r result)) :: older →
          r.apply = true →
            (SparesAdmins before after ↔
              ¬ PromotedSince db pid older r before) ∧
            Keyed User.id before.users ∧
            Audited (Event.Follows db) older ∧
            before = latest db older := by
    intro newer pid log before after r result older hSplit
      hApply
    have hAudited := hGood.audited
    have hLinked := hGood.linked
    rw [show s.toConfig.trace = s.trace from rfl, hSplit]
      at hAudited hLinked
    have hOutcome := hAudited.split.1.2
    unfold OperatorReply.Outcome at hOutcome
    dsimp only at hOutcome
    rw [if_pos hApply] at hOutcome
    rcases hOutcome with ⟨now, list, vs, hListed, hRetained⟩
    have hFollows : before = latest db older :=
      hLinked.split.1
    refine
      ⟨hRetained.sparesAdmins_iff hListed, ?_,
        hLinked.split.2, hFollows⟩
    rw [hFollows]
    exact
      (operator_latest_valid hValid hAudited.split.2).users
  constructor
  · intro hAll newer pid log before after r result older
      hSplit hApply
    exact
      (hCommit newer pid log before after r result older
        hSplit hApply).1.mp
        (hAll newer pid log before after r result older
          hSplit hApply).1
  · intro hNone newer pid log before after r result older
      hSplit hApply
    rcases
      hCommit newer pid log before after r result older
        hSplit hApply with
      ⟨hIff, hKeyed, hLinked, hFollows⟩
    have hSpares :=
      hIff.mpr
        (hNone newer pid log before after r result older
          hSplit hApply)
    exact
      ⟨hSpares,
        hSpares.leavesAdmin hKeyed hLinked hFollows⟩

end Runs

end PigBook

------------------------------------------------------------
-- Two Runs
------------------------------------------------------------

namespace PigBook

open ReadCommitted Users

variable {lax : Json → Option Bool}

def memberRow (id : Uuid) : User :=
  { adminRow id with role := .member }

/- Every user who is no administrator is old enough. -/
def fullRetention : RetentionRequest where
  targetScope := some "all"
  accountCutoffDays := 0
  feedbackCutoffDays := 0
  apply := true
  approval :=
    some ("approval", some "APPROVE_RETENTION:all")
  backupRef := some "backup"

/- User 1 makes user 2 an administrator. -/
def promotion : PatchRequest pydanticBool where
  principalId := 1
  objectId := 2
  expectedVersion := 1
  requestId := none
  body := [("role", .string "admin")]
  data := { role := some .admin, enabled := none }
  admitted := rfl

/- And user 2 demotes user 1. -/
def usurpation : PatchRequest pydanticBool where
  principalId := 2
  objectId := 1
  expectedVersion := 1
  requestId := none
  body := memberBody
  data := memberPatch
  admitted := memberBody_admitted

/- The reply is one of a retention that was to be applied. -/
def OperatorReply.retentionApplied
    {lax : Json → Option Bool} : OperatorReply lax → Bool
| retained r _ => r.apply
| patched _ => false
| reset _ _ _ => false

/- A schedule of clients, from one administrator on. -/
def retentionRun
    (moves :
      List (Move accounts Accounts
        (OperatorReply pydanticBool))) :
    Sys accountsWorld Accounts (OperatorReply pydanticBool) :=
  (Sys.initial (W := accountsWorld)
    (accountsOf [adminRow 1, memberRow 2, memberRow 3])
    ⟨0, 0⟩).exec
    Users.simulator [0, 1, 2] moves

def beginMove
    (pid : ℕ)
    (request : OperatorRequest pydanticBool) :
    Move accounts Accounts (OperatorReply pydanticBool) :=
  .spawn pid (request.program plainPrimitives)

/-
  The promotion comes before the retention makes its list, and
  the demotion while the retention is on its way.
-/
def betweenMoves :
    List (Move accounts Accounts
      (OperatorReply pydanticBool)) :=
  beginMove 1 (.patch promotion) ::
      List.replicate 20 (.step 1) ++
    beginMove 0 (.retention fullRetention) ::
      List.replicate 5 (.step 0) ++
    beginMove 2 (.patch usurpation) ::
      List.replicate 20 (.step 2) ++
    List.replicate 20 (.step 0)

/- Two patches come after the retention has made its list. -/
def meanwhileMoves :
    List (Move accounts Accounts
      (OperatorReply pydanticBool)) :=
  beginMove 0 (.retention fullRetention) ::
      List.replicate 5 (.step 0) ++
    beginMove 1 (.patch promotion) ::
      List.replicate 20 (.step 1) ++
    beginMove 2 (.patch usurpation) ::
      List.replicate 20 (.step 2) ++
    List.replicate 20 (.step 0)

theorem retentionRun_reachable
    {moves :
      List (Move accounts Accounts
        (OperatorReply pydanticBool))}
    (hMoves :
      ∀ m ∈ moves, (∃ pid, m = .step pid) ∨
        ∃ pid request, m = beginMove pid request) :
    Reachable (operatorPrograms plainPrimitives pydanticBool)
      (Sys.initial (W := accountsWorld)
        (accountsOf [adminRow 1, memberRow 2, memberRow 3])
        ⟨0, 0⟩)
      (retentionRun moves) := by
  apply Sys.exec_reachable (fun _ _ => rfl)
  intro m hm
  rcases hMoves m hm with
    ⟨pid, rfl⟩ | ⟨pid, request, rfl⟩
  · trivial
  · exact ⟨request, rfl⟩

/-
  The retention that ends a history changes a state in which
  whoever was no administrator at its listing is none.
-/
def unpromoted
    (db : Accounts) :
    List (Event accounts Accounts (OperatorReply lax)) → Bool
| .committed pid _ before _ (some (.retained _ _)) :: older =>
    (lastRan pid isRetentionRead older).all
      (fun (_, earlier) =>
        (latest db earlier).users.all
          (fun u => u.role = .admin ∨
            (userById u.id before).all
              (fun row => row.role ≠ .admin)))
| _ => true

theorem not_promotedSince_of_unpromoted
    {db : Accounts}
    {trace : List (Event accounts Accounts (OperatorReply lax))}
    (hAll : trace.tails.all (unpromoted db) = true)
    {newer older :
      List (Event accounts Accounts (OperatorReply lax))}
    {pid : ℕ}
    {log : List (Action accounts)}
    {before after : Accounts}
    {r : RetentionRequest}
    {result : RetentionResult}
    (hSplit :
      trace =
        newer ++
          .committed pid log before after
            (some (.retained r result)) :: older) :
    ¬ PromotedSince db pid older r before := by
  rintro
    ⟨now, list, ⟨-, earlier, hRead, rfl⟩, u, hMem, row, hRow,
      hAdmin, hNew⟩
  have hHere :=
    List.all_eq_true.mp hAll _
      ((List.mem_tails _ _).mpr ⟨newer, hSplit.symm⟩)
  rcases List.mem_filter.mp hMem with ⟨hUser, hListed⟩
  simp only [unpromoted, hRead, Option.all_some,
    List.all_eq_true, decide_eq_true_eq] at hHere
  simp only [decide_eq_true_eq] at hListed
  rcases hHere u hUser with hWas | hIs
  · exact hListed.2.1 hWas
  · rw [hRow] at hIs
    simp [hAdmin] at hIs

/-
  The third user alone is disabled.  User 1 is no administrator
  any more, and user 2 has become one before the list.
-/
theorem retention_spares_iff_between :
    ((latest (accountsOf [adminRow 1, memberRow 2, memberRow 3])
        (retentionRun betweenMoves).trace).users.map
          (fun u => (u.id, u.role, u.enabled))) =
        [(1, .member, true), (2, .admin, true),
          (3, .member, false)] ∧
      (commits (retentionRun betweenMoves).trace).any
        (fun c =>
          c.answer.any OperatorReply.retentionApplied) =
        true ∧
      ∀ newer pid log before after r result older,
        (retentionRun betweenMoves).trace =
          newer ++
            .committed pid log before after
              (some (.retained r result)) :: older →
          r.apply = true →
            SparesAdmins before after ∧
              LeavesAdmin
                (accountsOf
                  [adminRow 1, memberRow 2, memberRow 3])
                older after := by
  refine ⟨by decide +kernel, by decide +kernel, ?_⟩
  apply
    (retention_spares_iff
      (accountsOf_valid (by decide +kernel))
      (retentionRun_reachable (by simp [betweenMoves]))).mpr
  intro newer pid log before after r result older hSplit
    hApply
  exact
    not_promotedSince_of_unpromoted (by decide +kernel) hSplit

/-
  User 2 is listed, becomes the only administrator, and is
  disabled: no enabled administrator is left.
-/
theorem retention_disables_admins :
    ¬ ∀ (db : Accounts) (env : Outside)
        (s : Sys accountsWorld Accounts
          (OperatorReply pydanticBool)),
        db.Valid →
        Reachable
          (operatorPrograms plainPrimitives pydanticBool)
          (Sys.initial db env) s →
        ∀ newer pid log before after r result older,
          s.trace =
            newer ++
              .committed pid log before after
                (some (.retained r result)) :: older →
            r.apply = true →
              SparesAdmins before after ∧
                LeavesAdmin db older after := by
  intro hClaim
  have hAll :=
    hClaim (accountsOf [adminRow 1, memberRow 2, memberRow 3])
      ⟨0, 0⟩ (retentionRun meanwhileMoves)
      (accountsOf_valid (by decide +kernel))
      (retentionRun_reachable (by simp [meanwhileMoves]))
  have hLost :
      ∃ c ∈ commits (retentionRun meanwhileMoves).trace,
        (userById 2 c.before).any User.isActiveAdmin = true ∧
        activeAdmins c.after = 0 ∧
        c.answer.any OperatorReply.retentionApplied = true := by
    decide +kernel
  rcases hLost with ⟨c, hc, hBefore, hNone, hAnswer⟩
  rcases (Option.any_eq_true_iff_get _ _).mp hBefore with
    ⟨hSome, hActive⟩
  rcases exists_of_mem_commits hc with
    ⟨newer, pid, older, hSplit⟩
  rcases c with ⟨log, before, after, answer⟩
  cases answer with
  | none => cases hAnswer
  | some reply =>
      cases reply with
      | retained r result =>
          have hSpares :=
            (hAll newer pid log before after r result older
              hSplit hAnswer).1
          have hKept :=
            hSpares 2 _ (Option.some_get hSome).symm
              (User.isActiveAdmin_iff.mp hActive).1
          exact
            List.countP_eq_zero.mp hNone _
              (userById_mem hKept) hActive
      | _ => cases hAnswer

end PigBook
