import PigBook.ReadCommitted.Watch
import PigBook.Users.Families

/-
  How a rotation ends that has found its token used.

  After the locking read of a used token that is neither
  revoked nor expired, the client comes to the answer 401 and
  to no other one; only a clash of identifiers in the audit
  log can take its place.

  Key definitions include:
    * `Presented`, `presentedToken`
    * `RefreshToken.Live`
    * `reuseEvent`, `reuseContract`

  Key theorems include:
    * `revokeReused_ends`
    * `reuseProgram_keeps`
-/

------------------------------------------------------------
-- Tokens That Are Presented
------------------------------------------------------------

namespace PigBook

open ReadCommitted

variable {lax : Json → Option Bool}

/-
  The token that the locking read of a rotation has found,
  at the time `now` of the rotation.
-/
def Presented
    (db : Accounts)
    (pid : ℕ)
    (older : List (FamilyEvent lax))
    (tokenHash : String)
    (now : ℤ)
    (earlier : List (FamilyEvent lax))
    (t : RefreshToken) : Prop :=
  ∃ ks,
    lastRan pid isRotationLock older =
      some (⟨.rotationLock tokenHash now, (), ks⟩, earlier) ∧
    tokenByHash tokenHash (latest db earlier) = some t

/- The time of the rotation and the token, read off a run. -/
def presentedToken
    (db : Accounts)
    (pid : ℕ)
    (older : List (FamilyEvent lax)) :
    Option (ℤ × RefreshToken) :=
  match lastRan pid isRotationLock older with
  | some (⟨.rotationLock tokenHash now, _, _⟩, earlier) =>
      (tokenByHash tokenHash (latest db earlier)).map
        (fun t => (now, t))
  | _ => none

theorem presented_of_token
    {db : Accounts}
    {pid : ℕ}
    {older : List (FamilyEvent lax)}
    {now : ℤ}
    {t : RefreshToken}
    (hToken :
      presentedToken db pid older = some (now, t)) :
    ∃ tokenHash earlier,
      Presented db pid older tokenHash now earlier t := by
  unfold presentedToken at hToken
  split at hToken
  · rename_i tokenHash now' _ ks earlier hLast
    rcases Option.map_eq_some_iff.mp hToken with
      ⟨t', hFound, hSame⟩
    cases hSame
    exact ⟨tokenHash, earlier, ks, hLast, hFound⟩
  · cases hToken

/- The token is neither revoked nor expired. -/
def RefreshToken.Live
    (t : RefreshToken)
    (now : ℤ) : Prop :=
  t.revokedAt = none ∧ now < t.expiresAt ∧
    now < t.familyExpiresAt

/-
  The identifier drawn for an audit record is that of a
  record which the audit log had at some moment.
-/
def AuditClash
    (db : Accounts)
    (pid : ℕ)
    (older : List (FamilyEvent lax)) : Prop :=
  ∃ auditId middle,
    .ran pid ⟨.uuid, auditId, []⟩ ∈ older ∧
    middle <:+ older ∧
    ∃ a ∈ (latest db middle).audit, a.id = auditId

/-
  What an event of a client is worth whose locking read has
  found a used token: no commit answers, and only one error
  is raised.
-/
def reuseEvent
    (db : Accounts)
    (older : List (FamilyEvent lax))
    (e : FamilyEvent lax) : Prop :=
  ∀ tokenHash now earlier t,
    Presented db e.pid older tokenHash now earlier t →
    t.usedAt.isSome → t.Live now →
      match e with
      | .committed _ _ _ _ answer => answer = none
      | .aborted pid error =>
          error = Users.invalidRefresh ∨
            (error = .integrityError .auditLogPkey ∧
              AuditClash db pid older)
      | _ => True

section Events

variable {db : Accounts} {older : List (FamilyEvent lax)}
variable {e : FamilyEvent lax}

/- Where no token was locked, nothing is asked for. -/
theorem reuseEvent_of_none
    (hNone : lastRan e.pid isRotationLock older = none) :
    reuseEvent db older e := by
  intro tokenHash now earlier t hPresented
  rcases hPresented with ⟨ks, hLast, -⟩
  rw [hNone] at hLast
  cases hLast

/- Nor is it where the token was good or past use. -/
theorem reuseEvent_of_other
    {tokenHash : String}
    {now : ℤ}
    {ks : List AccountKey}
    {earlier : List (FamilyEvent lax)}
    (hLast :
      lastRan e.pid isRotationLock older =
        some (⟨.rotationLock tokenHash now, (), ks⟩, earlier))
    (hNot :
      ∀ t, tokenByHash tokenHash (latest db earlier) = some t →
        t.usedAt.isSome → ¬ t.Live now) :
    reuseEvent db older e := by
  intro tokenHash' now' earlier' t hPresented hUsed hLive
  rcases hPresented with ⟨ks', hLast', hFound⟩
  rw [hLast] at hLast'
  cases hLast'
  exact absurd hLive (hNot t hFound hUsed)

theorem reuseEvent_ran
    {pid : ℕ}
    {act : Action accounts} :
    reuseEvent db older (.ran pid act) :=
  fun _ _ _ _ _ _ _ => trivial

theorem reuseEvent_quiet
    (hQuiet : e.Quiet) :
    reuseEvent db older e := by
  intro tokenHash now earlier t _ _ _
  cases e with
  | spawned pid p => trivial
  | ran pid act => cases hQuiet
  | committed pid log before after answer => cases hQuiet
  | rolledBack pid => trivial
  | aborted pid error => cases hQuiet
  | crashed pid => trivial

end Events

def reuseContract
    (W : World accounts)
    (lax : Json → Option Bool)
    (db : Accounts) :
    Contract W Accounts (FamilyReply lax) :=
  Contract.watch W db (reuseEvent db)
    (fun _ _ hQuiet => reuseEvent_quiet hQuiet)

end PigBook

------------------------------------------------------------
-- Programs without Rotations
------------------------------------------------------------

namespace PigBook.Users

open ReadCommitted

variable {lax : Json → Option Bool}
variable {X : Primitives} {settings : Settings}
variable {mayFail : AccountError → Prop}

theorem checkCurrent_avoids
    (policy : Policy)
    (row : Option User) :
    (checkCurrent policy row).Avoids isRotationLock
      (fun _ => True) := by
  unfold checkCurrent
  split
  · trivial
  · split
    · trivial
    · unfold enforcePolicyRole
      refine Prog.Avoids.bind ?_ (fun _ => trivial)
      split <;> trivial

theorem lockActorAndTarget_avoids
    (actorId targetId : Uuid) :
    (lockActorAndTarget actorId targetId).Avoids
      isRotationLock mayFail := by
  unfold lockActorAndTarget
  split
  · exact
      Prog.Avoids.bind (Prog.Avoids.select rfl)
        (fun _ => trivial)
  · split
    · refine
        Prog.Avoids.bind (Prog.Avoids.select rfl)
          (fun _ => ?_)
      exact
        Prog.Avoids.bind (Prog.Avoids.select rfl)
          (fun _ => trivial)
    · refine
        Prog.Avoids.bind (Prog.Avoids.select rfl)
          (fun _ => ?_)
      exact
        Prog.Avoids.bind (Prog.Avoids.select rfl)
          (fun _ => trivial)

theorem assertCurrentUserE28_avoids
    (r : PatchRequest lax) :
    (assertCurrentUserE28 r).Avoids isRotationLock
      (fun _ => True) := by
  unfold assertCurrentUserE28
  refine
    Prog.Avoids.bind (Prog.Avoids.select rfl) (fun _ => ?_)
  refine
    Prog.Avoids.bind (lockActorAndTarget_avoids _ _) ?_
  intro (actor, target)
  dsimp only
  split
  · trivial
  split
  · trivial
  split
  · trivial
  split
  · trivial
  split
  · refine
      Prog.Avoids.bind (Prog.Avoids.select rfl) (fun _ => ?_)
    split <;> trivial
  · trivial

theorem insertRecord_avoids
    {a : AccountRecord}
    (hClash : mayFail (.integrityError .auditLogPkey)) :
    (insertRecord a).Avoids isRotationLock mayFail := by
  refine ⟨rfl, fun _ _ => ?_⟩
  dsimp only
  split
  · exact hClash
  · trivial

theorem appendAuditLog_avoids
    {action targetType : String}
    {targetId actorId : Option Uuid}
    {requestId : Uuid}
    {details : AccountDetails}
    {now : ℤ}
    (hClash : mayFail (.integrityError .auditLogPkey)) :
    (appendAuditLog action targetType targetId actorId
      requestId details now).Avoids isRotationLock
        mayFail := by
  unfold appendAuditLog
  refine Prog.Avoids.bind (Prog.Avoids.ask rfl) (fun _ => ?_)
  exact
    Prog.Avoids.bind (insertRecord_avoids hClash)
      (fun _ => trivial)

theorem revokeTokens_avoids
    {p : RefreshToken → Bool}
    {now : ℤ} :
    (revokeTokens p now).Avoids isRotationLock mayFail :=
  ⟨rfl, fun _ _ => trivial⟩

theorem updateUser_avoids
    (r : PatchRequest lax)
    (loaded : User)
    (now : ℤ) :
    (updateUser r loaded now).Avoids isRotationLock
      (fun _ => True) := by
  unfold updateUser
  refine
    Prog.Avoids.bind (Prog.Avoids.select rfl) (fun _ => ?_)
  split
  · trivial
  split
  · trivial
  split
  · trivial
  refine Prog.Avoids.bind ⟨rfl, fun _ _ => ?_⟩ (fun _ => ?_)
  · dsimp only
    split <;> trivial
  split
  · trivial
  refine Prog.Avoids.bind ?_ (fun _ => ?_)
  · unfold revokeOnDisable
    split
    · exact
        Prog.Avoids.bind revokeTokens_avoids
          (fun _ => trivial)
    · trivial
  · unfold auditPatch
    refine Prog.Avoids.bind ?_ (fun _ => ?_)
    · unfold requestIdOf
      split
      · trivial
      · exact Prog.Avoids.ask rfl
    · exact
        Prog.Avoids.bind (appendAuditLog_avoids trivial)
          (fun _ => trivial)

theorem patchProgram_avoids
    (r : PatchRequest lax) :
    (patchProgram r).Avoids isRotationLock
      (fun _ => True) := by
  unfold patchProgram updateUserEndpoint authorize
    resolveUserScope
  refine Prog.Avoids.bind ?_ (fun _ => trivial)
  refine Prog.Avoids.bind ?_ (fun _ => ?_)
  · refine
      Prog.Avoids.bind (Prog.Avoids.select rfl) (fun _ => ?_)
    refine Prog.Avoids.bind trivial (fun _ => ?_)
    exact
      Prog.Avoids.bind (checkCurrent_avoids _ _)
        (fun _ => trivial)
  refine Prog.Avoids.bind ?_ (fun _ => ?_)
  · refine
      Prog.Avoids.bind (Prog.Avoids.select rfl) (fun _ => ?_)
    refine Prog.Avoids.bind trivial (fun _ => ?_)
    split
    · trivial
    · split <;> trivial
  refine Prog.Avoids.bind (Prog.Avoids.ask rfl) (fun _ => ?_)
  refine
    Prog.Avoids.bind (assertCurrentUserE28_avoids r)
      (fun _ => ?_)
  exact
    Prog.Avoids.bind (updateUser_avoids _ _ _)
      (fun _ => trivial)

theorem mintAccess_avoids
    (user : User)
    (now : ℤ) :
    (mintAccess X settings user now).Avoids isRotationLock
      (fun _ => True) := by
  unfold mintAccess
  split
  · trivial
  split
  · trivial
  exact
    Prog.Avoids.bind (Prog.Avoids.ask rfl) (fun _ => trivial)

theorem insertToken_avoids
    (t : RefreshToken) :
    (insertToken t).Avoids isRotationLock
      (fun _ => True) := by
  refine ⟨rfl, fun _ _ => ?_⟩
  dsimp only
  split <;> trivial

theorem loginEndpoint_avoids
    (email password : String) :
    (loginEndpoint X settings email password).Avoids
      isRotationLock (fun _ => True) := by
  unfold loginEndpoint login
  refine Prog.Avoids.bind (Prog.Avoids.ask rfl) (fun _ => ?_)
  split
  · trivial
  refine
    Prog.Avoids.bind (Prog.Avoids.select rfl) (fun _ => ?_)
  split
  · trivial
  split
  · trivial
  refine
    Prog.Avoids.bind (Prog.Avoids.select rfl) (fun _ => ?_)
  split
  · trivial
  split
  · trivial
  refine
    Prog.Avoids.bind (mintAccess_avoids _ _) (fun _ => ?_)
  refine Prog.Avoids.bind (Prog.Avoids.ask rfl) (fun _ => ?_)
  refine Prog.Avoids.bind (Prog.Avoids.ask rfl) (fun _ => ?_)
  refine Prog.Avoids.bind (Prog.Avoids.ask rfl) (fun _ => ?_)
  exact
    Prog.Avoids.bind (insertToken_avoids _) (fun _ => trivial)

/- A revocation raises no error. -/
theorem revokeFamily_avoids
    (rawToken : String)
    (now : ℤ) :
    (revokeFamily X rawToken now).Avoids isRotationLock
      mayFail := by
  unfold revokeFamily
  refine
    Prog.Avoids.bind (Prog.Avoids.select rfl) (fun _ => ?_)
  split
  · trivial
  refine
    Prog.Avoids.bind (Prog.Avoids.select rfl) (fun _ => ?_)
  split
  · trivial
  refine
    Prog.Avoids.bind (Prog.Avoids.select rfl) (fun _ => ?_)
  refine
    Prog.Avoids.bind (Prog.Avoids.select rfl) (fun _ => ?_)
  split
  · trivial
  exact
    Prog.Avoids.bind revokeTokens_avoids (fun _ => trivial)

theorem logoutEndpoint_avoids
    (rawToken : Option String) :
    (logoutEndpoint X rawToken).Avoids isRotationLock
      (fun _ => True) := by
  unfold logoutEndpoint
  refine Prog.Avoids.bind (Prog.Avoids.ask rfl) (fun _ => ?_)
  split
  · trivial
  · exact revokeFamily_avoids _ _

end PigBook.Users

------------------------------------------------------------
-- Rotations
------------------------------------------------------------

namespace PigBook

open ReadCommitted
open Users

variable {lax : Json → Option Bool}
variable {W : World accounts}
variable {X : Primitives} {settings : Settings}
variable {db : Accounts}

theorem reuseContract_silent
    (q : AccountQuery) :
    (reuseContract W lax db).rules.Silent (S := accounts) q :=
  Contract.silent (fun _ _ _ _ => reuseEvent_ran)

/- A client that locks no token for a rotation. -/
theorem reuseKeeps_of_avoids
    {p : Prog accounts Accounts (FamilyReply lax)}
    (hAvoids : p.Avoids isRotationLock (fun _ => True)) :
    (reuseContract W lax db).rules.Keeps p := by
  intro pid c hGood
  have hNone :
      ∀ (older : List (FamilyEvent lax)) e, e.pid = pid →
        lastRan pid isRotationLock older = none →
          reuseEvent db older e := by
    rintro older e rfl hLast
    exact reuseEvent_of_none hLast
  refine
    Prog.Avoids.rwp (fun _ _ => hNone _ _ rfl)
      (fun _ _ hLast _ => hNone _ _ rfl hLast)
      (fun _ _ _ _ => hNone _ _ rfl) hAvoids
      (Prog.spares_const () p) (lastRan_spawned p)
      (fun _ => rfl) ?_
  intro a log w c' hLast _ c'' hGood'' hRely
  exact
    Contract.watch_commits hGood''
      (hNone _ _ rfl ((lastRan_rely hRely).trans hLast))

section Locked

variable {pid : ℕ} {tokenHash : String} {now : ℤ}
variable {ks : List AccountKey}
variable {earlier : List (FamilyEvent lax)}
variable {log : List (Action accounts)}
variable {w : Accounts → Accounts}
variable {c : Config W Accounts (FamilyReply lax)}

/- The rest of a rotation whose token need not be revoked. -/
theorem rwp_of_other
    {β : Type}
    {post :
      β → List (Action accounts) → (Accounts → Accounts) →
        Config W Accounts (FamilyReply lax) → Prop}
    (hLast :
      lastRan pid isRotationLock c.trace =
        some (⟨.rotationLock tokenHash now, (), ks⟩, earlier))
    (hNot :
      ∀ t, tokenByHash tokenHash (latest db earlier) = some t →
        t.usedAt.isSome → ¬ t.Live now)
    {p : AccountsM β}
    (hAvoids : p.Avoids isRotationLock (fun _ => True))
    (hPost :
      ∀ a log w c',
        (∀ older answer before after log,
          lastRan pid isRotationLock older =
              lastRan pid isRotationLock c'.trace →
            reuseEvent db older
              (.committed pid log before after answer)) →
          post a log w c') :
    p.rwp (reuseContract W lax db).rules pid post log w c := by
  have hOther :
      ∀ (older : List (FamilyEvent lax)) e, e.pid = pid →
        lastRan pid isRotationLock older =
          some
            (⟨.rotationLock tokenHash now, (), ks⟩, earlier) →
          reuseEvent db older e := by
    rintro older e rfl hSame
    exact reuseEvent_of_other hSame hNot
  refine
    Prog.Avoids.rwp (fun _ _ => hOther _ _ rfl)
      (fun _ _ hSame _ => hOther _ _ rfl hSame)
      (fun _ _ _ _ => hOther _ _ rfl) hAvoids
      (Prog.spares_const () p) hLast (fun _ => rfl) ?_
  intro a log w c' hLast' _
  refine hPost a log w c' ?_
  intro older answer before after log hSame
  exact hOther _ _ rfl (hSame.trans hLast')

/- A revocation leaves the audit log as it is. -/
theorem revokeFamily_spares
    (rawToken : String)
    (now : ℤ) :
    (revokeFamily X rawToken now).Spares Accounts.audit := by
  unfold revokeFamily
  refine Prog.Spares.bind Prog.Spares.select (fun _ => ?_)
  split
  · trivial
  refine Prog.Spares.bind Prog.Spares.select (fun _ => ?_)
  split
  · trivial
  refine Prog.Spares.bind Prog.Spares.select (fun _ => ?_)
  refine Prog.Spares.bind Prog.Spares.select (fun _ => ?_)
  split
  · trivial
  exact
    Prog.Spares.bind (fun _ _ => ⟨fun _ => rfl, trivial⟩)
      (fun _ => trivial)

/-
  The end of a rotation of a used token:  it fails with the
  answer 401, or with the constraint on audit identifiers.
-/
theorem revokeReused_ends
    {rawToken : String}
    {userId familyId : Uuid}
    {post :
      TokenResult → List (Action accounts) →
        (Accounts → Accounts) →
          Config W Accounts (FamilyReply lax) → Prop} :
    (revokeReused X rawToken userId familyId now).rwp
      (reuseContract W lax db).rules pid post log w c := by
  have hSilent : ∀ q : AccountQuery,
      (reuseContract W lax db).rules.Silent
        (S := accounts) q :=
    reuseContract_silent
  unfold revokeReused
  simp only [Prog.bind_eq, Prog.rwp_bind, Prog.rwp_undo]
  intro c₁ hGood₁ hRely₁
  refine Prog.rwp_ask_of_silent (hSilent .uuid) ?_
  intro reuseReqId c₂ hRan₂
  refine
    Prog.Avoids.rwp (fun _ _ _ => reuseEvent_ran)
      (fun _ _ _ hNever => absurd hNever id)
      (fun _ _ _ _ _ _ _ _ _ _ _ _ => rfl)
      (revokeFamily_avoids rawToken now)
      (revokeFamily_spares rawToken now) rfl
      (fun _ => rfl) ?_
  intro _ log₃ w₃ c₃ _ hAudit
  unfold Users.appendAuditLog
  simp only [Prog.bind_eq, Prog.rwp_bind]
  refine Prog.rwp_ask_of_silent (hSilent .uuid) ?_
  intro auditId c₄ hRan₄
  unfold insertRecord
  refine Prog.rwp_stmt_of_silent (hSilent .plain) ?_
  intro _ c₅ hRan₅
  rcases Contract.ran_latest hRan₅ with
    ⟨middle, hTrace₅, hSuffix₅, hDb₅⟩
  split
  · rename_i hTaken
    intro c₆ hGood₆ hRely₆
    refine fun _ _ _ _ _ _ _ => Or.inr ⟨rfl, ?_⟩
    rcases hRely₆.events with ⟨others, hTrace₆, -⟩
    have hLater : middle <:+ c₆.trace := by
      rw [hTrace₆, hTrace₅]
      exact
        (List.suffix_cons _ _).trans (List.suffix_append _ _)
    refine ⟨auditId, middle, ?_, hLater, ?_⟩
    · -- the draw is in the history before the insertion
      rcases Contract.ran_history hRan₄ with
        ⟨newer, hTrace₄, -⟩
      refine hLater.subset (hSuffix₅.subset ?_)
      rw [hTrace₄]
      exact List.mem_cons_self
    · have hTaken' := hTaken
      rw [hAudit c₅.db] at hTaken'
      rcases hTaken' with ⟨a, hMem, hId⟩
      refine ⟨a, ?_, hId⟩
      have hDb₅ : c₅.db = latest db middle := hDb₅
      rw [← hDb₅]
      exact hMem
  · simp only [Prog.rwp_done, Prog.pure_eq_done, Prog.rwp_save]
    intro c₆ hGood₆ hRely₆
    refine
      ⟨Contract.watch_commits hGood₆
        (fun _ _ _ _ _ _ _ => rfl), ?_⟩
    intro c₇ hGood₇ hRely₇
    exact fun _ _ _ _ _ _ _ => Or.inl rfl

/- The answer 401 is always allowed. -/
theorem invalidRefresh_ends
    {β : Type}
    {post :
      β → List (Action accounts) → (Accounts → Accounts) →
        Config W Accounts (FamilyReply lax) → Prop} :
    (Prog.fail invalidRefresh : AccountsM β).rwp
      (reuseContract W lax db).rules pid post log w c :=
  fun _ _ _ _ _ _ _ _ _ _ => Or.inl rfl

/- The part of a rotation that follows a good token. -/
theorem rotate_avoids
    {userId familyId parentId : Uuid}
    {familyExpiresAt : ℤ}
    {lockedUser : User} :
    (do
      let childRaw ← tokenUrlsafe
      let childId ← Users.uuid4
      markTokenUsed parentId now
      insertToken {
        id := childId
        userId := userId
        tokenHash := X.sha256 childRaw
        familyId := familyId
        parentId := some parentId
        createdAt := now
        expiresAt := min (now + days 7) familyExpiresAt
        familyExpiresAt := familyExpiresAt
        usedAt := none
        revokedAt := none
      }
      let response ← mintAccess X settings lockedUser now
      return {
        response := response
        rawRefresh := childRaw
      } : AccountsM TokenResult).Avoids isRotationLock
        (fun _ => True) := by
  refine Prog.Avoids.bind (Prog.Avoids.ask rfl) (fun _ => ?_)
  refine Prog.Avoids.bind (Prog.Avoids.ask rfl) (fun _ => ?_)
  refine
    Prog.Avoids.bind ⟨rfl, fun _ _ => trivial⟩ (fun _ => ?_)
  refine
    Prog.Avoids.bind (insertToken_avoids _) (fun _ => ?_)
  exact
    Prog.Avoids.bind (mintAccess_avoids _ _) (fun _ => trivial)

/-
  A rotation comes to a commit that answers only after it has
  found an unused token.
-/
theorem rotateRefresh_ends
    {rawToken : String}
    {post :
      TokenResult → List (Action accounts) →
        (Accounts → Accounts) →
          Config W Accounts (FamilyReply lax) → Prop}
    (hPost :
      ∀ a log w c',
        (∀ older answer before after log,
          lastRan pid isRotationLock older =
              lastRan pid isRotationLock c'.trace →
            reuseEvent db older
              (.committed pid log before after answer)) →
          post a log w c') :
    (rotateRefresh X settings rawToken now).rwp
      (reuseContract W lax db).rules pid post log id c := by
  have hSilent : ∀ q : AccountQuery,
      (reuseContract W lax db).rules.Silent
        (S := accounts) q :=
    reuseContract_silent
  unfold rotateRefresh
  simp only [resolveToken, Users.selectRows, Prog.bind_eq,
    Prog.rwp_bind]
  refine Prog.rwp_select_of_silent (hSilent .plain) ?_
  intro _ c₁ _
  split
  · exact invalidRefresh_ends
  simp only [selectUserForShare, Prog.rwp_bind]
  refine Prog.rwp_select_of_silent (hSilent .plain) ?_
  intro _ c₂ _
  split
  · exact invalidRefresh_ends
  split
  · exact invalidRefresh_ends
  simp only [advisoryXactLock, Prog.rwp_bind]
  refine Prog.rwp_select_of_silent (hSilent .plain) ?_
  intro _ c₃ _
  simp only [selectTokenForUpdate]
  refine
    Prog.rwp_select_of_silent (hSilent (.rotationLock _ _)) ?_
  intro _ c₄ hRan₄
  rcases Contract.ran_latest hRan₄ with
    ⟨earlier, hTrace₄, -, hDb₄⟩
  have hDb₄ : c₄.db = latest db earlier := hDb₄
  split
  · exact invalidRefresh_ends
  rename_i token hToken
  split
  · exact invalidRefresh_ends
  split
  · exact invalidRefresh_ends
  split
  · exact revokeReused_ends
  rename_i hUnused
  refine
    rwp_of_other (by rw [hTrace₄]; exact lastRan_ran rfl) ?_
      rotate_avoids hPost
  intro t hFound hUsed
  have hSame :
      tokenByHash (X.sha256 rawToken) c₄.db = some token :=
    hToken
  rw [hDb₄, hFound] at hSame
  rw [Option.some.inj hSame] at hUsed
  exact absurd hUsed hUnused

end Locked

/- Every request is worth what it should be. -/
theorem reuseProgram_keeps
    (request : FamilyRequest lax) :
    (reuseContract W lax db).rules.Keeps
      (request.program X settings) := by
  cases request with
  | login email password =>
      refine reuseKeeps_of_avoids ?_
      exact
        Prog.Avoids.bind (loginEndpoint_avoids email password)
          (fun _ => trivial)
  | refresh rawToken =>
      intro pid c hGood
      simp only [FamilyRequest.program, refreshEndpoint,
        Prog.bind_eq, Prog.rwp_bind, Prog.pure_eq_done,
        Prog.rwp_done]
      refine
        Prog.rwp_ask_of_silent (reuseContract_silent .now) ?_
      intro now c₁ _
      refine rotateRefresh_ends ?_
      intro result log w c₂ hWorth c₃ hGood₃ hRely
      refine Contract.watch_commits hGood₃ ?_
      exact hWorth _ _ _ _ _ (lastRan_rely hRely)
  | logout rawToken =>
      refine reuseKeeps_of_avoids ?_
      exact
        Prog.Avoids.bind (logoutEndpoint_avoids rawToken)
          (fun _ => trivial)
  | patch r =>
      refine reuseKeeps_of_avoids ?_
      exact
        Prog.Avoids.bind (patchProgram_avoids r)
          (fun _ => trivial)

/- What the events of a run are worth to a used token. -/
theorem reuse_audited
    {env : W.Carrier}
    {s : Sys W Accounts (FamilyReply lax)}
    (hReach :
      Reachable
        (fun p => ∃ request : FamilyRequest lax,
          p = request.program X settings)
        (Sys.initial db env) s) :
    Audited (reuseEvent db) s.trace := by
  have hGood : (reuseContract W lax db).Good s.toConfig := by
    refine Contract.good_of_reachable ?_ trivial hReach
    rintro p ⟨request, rfl⟩
    exact reuseProgram_keeps request
  exact hGood.audited

end PigBook
