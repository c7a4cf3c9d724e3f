import PigBook.ReadCommitted.Course
import PigBook.Users.Sharing

/-
  What a login has established when it comes to its commit.

  Key definitions include:
    * `isLoginRead`
    * `LoggingIn`

  Key theorems include:
    * `loginEndpoint_rwp`
-/

------------------------------------------------------------
-- Access Tokens
------------------------------------------------------------

namespace PigBook.Users

open ReadCommitted

/- The read by which a login begins. -/
def isLoginRead : AccountQuery → Bool
| .loginRead _ => true
| _ => false

section Login

variable {W : World accounts} {γ : Type}
variable {R : Rules W Accounts γ}
variable {stable : List AccountKey → Accounts → Accounts → Prop}
variable {pid : ℕ} {log : List (Action accounts)}
variable {w : Accounts → Accounts} {c : Config W Accounts γ}
variable {X : Primitives} {settings : Settings}

theorem AccountRules.silent_refl
    (hRules : AccountRules R Embedding.refl stable)
    (q : AccountQuery) :
    R.Silent q :=
  hRules.silent q

/- What is stable under the first keys lasts along a course. -/
theorem AccountRules.course
    (hRules : AccountRules R Embedding.refl stable)
    {P : Action accounts → Prop}
    {log' : List (Action accounts)}
    {c' : Config W Accounts γ}
    (hCourse : R.Course pid P log c log' c') :
    stable (held log) c.db c'.db := by
  apply
    Rules.Course.keeps
      (fun c c' => stable (held log) c.db c'.db)
      (fun c => hRules.refl _ _) hRules.trans _ hCourse
  intro ks act c c' hKeys hRan
  exact hRules.mono hKeys (hRules.ran hRan)

theorem Locked.share
    {id : Uuid}
    {u : User}
    (log : List (Action accounts))
    {q : AccountQuery}
    {a : q.Answer}
    (hFound : userById id c.db = some u) :
    Locked Embedding.refl
      (held
        (log ++ [⟨q, a, userKeys .userShare id c.db⟩]))
      c id u where
  key := by
    right
    simp [userKeys, hFound, Embedding.refl]
  row := hFound

theorem Locked.course
    (hRules : AccountRules R Embedding.refl stable)
    {P : Action accounts → Prop}
    {log' : List (Action accounts)}
    {id : Uuid}
    {u : User}
    {c' : Config W Accounts γ}
    (hLocked : Locked Embedding.refl (held log) c id u)
    (hCourse : R.Course pid P log c log' c') :
    Locked Embedding.refl (held log') c' id u :=
  hLocked.kept hRules (hRules.course hCourse)
    hCourse.held_subset

/- An access token costs one identifier. -/
theorem mintAccess_rwp
    (hRules : AccountRules R Embedding.refl stable)
    {user : User}
    {now : ℤ}
    {post :
      TokenResponse → List (Action accounts) →
        (Accounts → Accounts) → Config W Accounts γ → Prop}
    (hPost :
      ∀ response log' c',
        R.Course pid (fun act => act.query = .uuid) log c
          log' c' →
          post response log' w c') :
    (mintAccess X settings user now).rwp R pid post
      log w c := by
  unfold mintAccess
  split
  · exact hRules.rwp_fail (by simp)
  · split
    · exact hRules.rwp_fail (by simp)
    · simp only [Prog.bind_eq, Prog.rwp_bind,
        Prog.pure_eq_done, Prog.rwp_done]
      apply
        Prog.rwp_ask_of_silent (hRules.silent_refl .uuid)
      intro jti c' hRan
      exact hPost _ _ c' (Rules.Course.single _ hRan rfl)

/- A statement that has no label. -/
def Unlabelled (act : Action accounts) : Prop :=
  act.query = .plain ∨ act.query = .uuid

/- An audit record costs an identifier and an insertion. -/
theorem appendAuditLog_course
    (hRules : AccountRules R Embedding.refl stable)
    {action targetType : String}
    {targetId actorId : Option Uuid}
    {requestId : Uuid}
    {details : AccountDetails}
    {now : ℤ}
    {post :
      AccountRecord → List (Action accounts) →
        (Accounts → Accounts) → Config W Accounts γ → Prop}
    (hPost :
      ∀ record log' c',
        R.Course pid Unlabelled log c log' c' →
          post record log'
            (fun s => Accounts.addRecord record (w s)) c') :
    (appendAuditLog action targetType targetId actorId
      requestId details now).rwp R pid post log w c := by
  simp only [appendAuditLog, Prog.bind_eq, Prog.rwp_bind]
  apply Prog.rwp_ask_of_silent (hRules.silent_refl .uuid)
  intro auditId c₁ hRan₁
  apply Prog.rwp_stmt_of_silent (hRules.silent_refl .plain)
  intro a c₂ hRan₂
  split
  · exact hRules.rwp_fail (by simp)
  · apply hPost
    exact
      (Rules.Course.single _ hRan₁ (Or.inr rfl)).step hRan₂
        (Or.inl rfl)

end Login

end PigBook.Users

------------------------------------------------------------
-- Logins
------------------------------------------------------------

namespace PigBook.Users

open ReadCommitted

section Login

variable {W : World accounts} {γ : Type}
variable {R : Rules W Accounts γ}
variable {stable : List AccountKey → Accounts → Accounts → Prop}
variable {pid : ℕ} {c : Config W Accounts γ}
variable {X : Primitives} {settings : Settings}

/- The root of the family that a login begins. -/
def rootToken
    (X : Primitives)
    (userId tokenId familyId : Uuid)
    (rawRefresh : String)
    (now : ℤ) : RefreshToken where
  id := tokenId
  userId := userId
  tokenHash := X.sha256 rawRefresh
  familyId := familyId
  parentId := none
  createdAt := now
  expiresAt := now + days 7
  familyExpiresAt := now + days 30
  usedAt := none
  revokedAt := none

/- A statement that is not the read of a login. -/
def AfterLoginRead (act : Action accounts) : Prop :=
  isLoginRead act.query = false

/-
  A login that only has to commit: the user row that it read
  and checked, the course of its statements after that read,
  the row that it locked, and the token that it inserted.
-/
structure LoggingIn
    (R : Rules W Accounts γ)
    (pid : ℕ)
    (X : Primitives)
    (password : String)
    (user : User)
    (root : RefreshToken)
    (log : List (Action accounts))
    (c' : Config W Accounts γ) : Prop where
  read :
    ∃ email ks c log₁ c₁,
      R.Ran pid ks ⟨.loginRead email, (), []⟩ c c₁ ∧
      userByEmail email c₁.db = some user ∧
      R.Course pid AfterLoginRead log₁ c₁ log c'
  drawn :
    ∃ ks c₁ log₂ c₂,
      R.Ran pid ks ⟨.uuid, root.familyId, []⟩ c₁ c₂ ∧
      R.Course pid AfterLoginRead log₂ c₂ log c'
  password : X.verifyPassword password user.passwordHash = true
  enabled : user.enabled = true
  key : .userShare user.id ∈ held log
  row : (userById user.id c'.db).isSome
  shape :
    ∃ tokenId familyId rawRefresh now,
      root = rootToken X user.id tokenId familyId rawRefresh
        now
  keys : ∀ k ∈ tokenKeys root, k ∈ held log
  free : tokenViolation c'.db root = none

theorem login_rwp
    (hRules : AccountRules R Embedding.refl stable)
    {email password : String}
    {now : ℤ}
    {log : List (Action accounts)}
    {post :
      TokenResult → List (Action accounts) →
        (Accounts → Accounts) → Config W Accounts γ → Prop}
    (hPost :
      ∀ user root result log' c', R.good c' →
        LoggingIn R pid X password user root log' c' →
        X.sha256 result.rawRefresh = root.tokenHash →
          post result log' (Accounts.addToken root) c') :
    (login X settings email password now).rwp R pid post
      log id c := by
  unfold login
  split
  · exact hRules.rwp_fail (by simp)
  · rename_i normEmail hNorm
    simp only [Prog.bind_eq, Prog.rwp_bind]
    apply Prog.rwp_select_of_silent (hRules.silent_refl _)
    intro a c₁ hRead
    dsimp only [id]
    split
    · exact hRules.rwp_fail (by simp)
    · rename_i user hUser
      split
      · exact hRules.rwp_fail (by simp)
      · rename_i hPassword
        simp only [Prog.rwp_bind]
        apply
          Prog.rwp_select_of_silent (hRules.silent_refl .plain)
        intro b c₂ hLock
        dsimp only [id]
        cases hRow : userById user.id c₂.db with
        | none => exact hRules.rwp_fail (by simp)
        | some row =>
            dsimp only [Option.map]
            split
            · exact hRules.rwp_fail (by simp)
            · rename_i hEnabled
              push Not at hEnabled
              simp only [Prog.rwp_bind]
              have hLocked₂ :=
                Locked.share
                  (log ++ [⟨.loginRead normEmail, a, []⟩])
                  (q := .plain) (a := b) hRow
              apply mintAccess_rwp hRules
              intro response log₃ c₃ hMinted
              have hMinted :=
                hMinted.mono (Q := AfterLoginRead)
                  (fun act hUuid => by
                    unfold AfterLoginRead
                    rw [hUuid]
                    rfl)
              apply
                Prog.rwp_ask_of_silent
                  (hRules.silent_refl .tokenUrlsafe)
              intro rawRefresh c₄ hRaw
              apply
                Prog.rwp_ask_of_silent
                  (hRules.silent_refl .uuid)
              intro familyId c₅ hFamily
              apply
                Prog.rwp_ask_of_silent
                  (hRules.silent_refl .uuid)
              intro tokenId c₆ hToken
              apply
                Prog.rwp_stmt_of_silent
                  (hRules.silent_refl .plain)
              intro d c₇ hInsert
              split
              · exact hRules.rwp_fail (by simp)
              · rename_i hFree
                have hEnd :=
                  (Rules.Course.single _
                    (P := AfterLoginRead) hToken rfl).step
                      hInsert rfl
                have hTail :=
                  ((hMinted.step hRaw rfl).step hFamily
                    rfl).trans hEnd
                have hLocked := hLocked₂.course hRules hTail
                apply
                  hPost user
                    (rootToken X user.id tokenId familyId
                      rawRefresh now) _ _ c₇ hInsert.good
                · exact {
                    read :=
                      ⟨normEmail, _, _, _, c₁, hRead, hUser,
                        (Rules.Course.single _
                          (P := AfterLoginRead) hLock
                          rfl).trans hTail⟩
                    drawn := ⟨_, c₄, _, c₅, hFamily, hEnd⟩
                    password := by simpa using hPassword
                    enabled := by simpa using hEnabled
                    key := by
                      apply hTail.held_subset
                      simp [userKeys, hRow]
                    row := by
                      have hHere := hLocked.row
                      change userById user.id c₇.db = _
                        at hHere
                      rw [hHere]
                      rfl
                    shape :=
                      ⟨tokenId, familyId, rawRefresh, now,
                        rfl⟩
                    keys := by
                      intro k hKey
                      rw [held_append, held_singleton]
                      exact List.mem_append_right _ hKey
                    free := hFree
                  }
                · rfl

theorem loginEndpoint_rwp
    (hRules : AccountRules R Embedding.refl stable)
    {email password : String}
    {post :
      TokenResult → List (Action accounts) →
        (Accounts → Accounts) → Config W Accounts γ → Prop}
    (hPost :
      ∀ user root result log c', R.good c' →
        LoggingIn R pid X password user root log c' →
        X.sha256 result.rawRefresh = root.tokenHash →
          post result log (Accounts.addToken root) c') :
    (loginEndpoint X settings email password).rwp R pid post
      [] id c := by
  simp only [loginEndpoint, Prog.bind_eq, Prog.rwp_bind]
  apply Prog.rwp_ask_of_silent (hRules.silent_refl .now)
  intro now c₁ hRan
  exact login_rwp hRules hPost

end Login

end PigBook.Users
