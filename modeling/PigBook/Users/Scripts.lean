import PigBook.Users.Revisions

/-
  What the operator scripts have established when they come
  to their commits.

  Key definitions include:
    * `isResetRead`, `resetRow`, `Resetting`
    * `isRetentionRead`, `isClockRead`
    * `Handled`, `Anonymizing`, `Retaining`

  Key theorems include:
    * `runReset_rwp`
    * `anonymizeUsers_rwp`
    * `runRetention_rwp`
-/

------------------------------------------------------------
-- Revisions of the Scripts
------------------------------------------------------------

namespace PigBook

/- The row that a reset leaves, which has loaded `seen`. -/
def resetRow
    (seen : User)
    (newHash : String)
    (now : ℤ)
    (u : User) : User :=
  { u with
    passwordHash := newHash
    version := seen.version + 1
    updatedAt := now }

/- The revision of a reset. -/
def resetRevision
    (row seen : User)
    (newHash : String)
    (now : ℤ) : Revision where
  user := row
  result := resetRow seen newHash now
  same := fun _ => rfl

end PigBook

------------------------------------------------------------
-- Statements that Revise
------------------------------------------------------------

namespace PigBook.Users

open ReadCommitted

section Statements

variable {W : World accounts} {γ : Type}
variable {R : Rules W Accounts γ}
variable {stable : List AccountKey → Accounts → Accounts → Prop}
variable {pid : ℕ} {log : List (Action accounts)}
variable {now : ℤ} {vs : List Revision} {v : Revision}
variable {revoked : List Uuid} {w : Accounts → Accounts}
variable {c c' : Config W Accounts γ}
variable
  {post :
    ℕ → List (Action accounts) → (Accounts → Accounts) →
      Config W Accounts γ → Prop}

/- Along a course a revising transaction goes on. -/
theorem Revising.course
    (hRules : AccountRules R Embedding.refl stable)
    {P : Action accounts → Prop}
    {log' : List (Action accounts)}
    (hRevising : Revising now vs revoked (held log) w c)
    (hCourse : R.Course pid P log c log' c') :
    Revising now vs revoked (held log') w c' :=
  hRevising.kept hRules (hRules.course hCourse)
    hCourse.held_subset

/- The update of a locked user is a revision. -/
theorem updateUsers_rwp
    (hRules : AccountRules R Embedding.refl stable)
    (hRevising : Revising now vs revoked (held log) w c)
    (hKey : AccountKey.userUpdate v.user.id ∈ held log)
    (hRow : userById v.user.id c.db = some v.user)
    (hNew : ∀ x ∈ vs, x.user.id ≠ v.user.id)
    (hPost :
      ∀ n act w' c', R.Ran pid (held log) act c c' →
        act.query = .plain →
        Revising now (vs ++ [v]) revoked
          (held (log ++ [act])) w' c' →
          post n (log ++ [act]) w' c') :
    (updateUsers (fun u => u.id = v.user.id) v.result).rwp R
      pid post log w c := by
  have hUpdated := hRevising.update hKey hRow hNew
  apply Prog.rwp_stmt_of_silent (hRules.silent_refl .plain)
  intro a c' hRan
  split
  · exact hRules.rwp_fail (by simp)
  · apply hPost _ _ _ c' hRan rfl
    exact
      hUpdated.course hRules
        (Rules.Course.single log (P := fun _ => True) hRan
          trivial)

/- So is the revocation of the user's tokens. -/
theorem revokeTokens_rwp
    (hRules : AccountRules R Embedding.refl stable)
    (hRevising : Revising now vs revoked (held log) w c)
    (hMem : v ∈ vs)
    (hPost :
      ∀ n act revoked' w' c', R.Ran pid (held log) act c c' →
        act.query = .plain →
        Revising now vs revoked' (held (log ++ [act])) w' c' →
          post n (log ++ [act]) w' c') :
    (revokeTokens (fun t => t.userId = v.user.id) now).rwp R
      pid post log w c := by
  apply Prog.rwp_stmt_of_silent (hRules.silent_refl .plain)
  intro a c' hRan
  apply hPost _ _ _ _ c' hRan rfl
  exact
    (hRevising.course hRules
      (Rules.Course.single log (P := fun _ => True) hRan
        trivial)).revoke hMem

end Statements

end PigBook.Users

------------------------------------------------------------
-- Resets
------------------------------------------------------------

namespace PigBook.Users

open ReadCommitted

/- The read by which a reset begins. -/
def isResetRead : AccountQuery → Bool
| .resetRead _ => true
| _ => false

/- A statement that is not the read of a reset. -/
def AfterResetRead (act : Action accounts) : Prop :=
  isResetRead act.query = false

theorem Unlabelled.afterResetRead
    {act : Action accounts}
    (hUnlabelled : Unlabelled act) :
    AfterResetRead act := by
  unfold AfterResetRead
  rcases hUnlabelled with hPlain | hUuid
  · rw [hPlain]
    rfl
  · rw [hUuid]
    rfl

section Reset

variable {W : World accounts} {γ : Type}
variable {R : Rules W Accounts γ}
variable {stable : List AccountKey → Accounts → Accounts → Prop}
variable {pid : ℕ} {log : List (Action accounts)}
variable {c c' : Config W Accounts γ}
variable {X : Primitives}

/-
  A reset that only has to commit: the row that it read
  first, the course of its statements since, and the row that
  it has locked and revised.
-/
structure Resetting
    (R : Rules W Accounts γ)
    (pid : ℕ)
    (userId : Uuid)
    (seen row : User)
    (newHash : String)
    (now : ℤ)
    (revoked : List Uuid)
    (log : List (Action accounts))
    (w : Accounts → Accounts)
    (c' : Config W Accounts γ) : Prop where
  read :
    ∃ ks c log₁ c₁,
      R.Ran pid ks ⟨.resetRead userId, (), []⟩ c c₁ ∧
      userById userId c₁.db = some seen ∧
      R.Course pid AfterResetRead log₁ c₁ log c'
  target : row.id = userId
  revising :
    Revising now [resetRevision row seen newHash now] revoked
      (held log) w c'

/- The flush of a reset, its revocations, and its record. -/
theorem runReset_rwp
    (hRules : AccountRules R Embedding.refl stable)
    {userId : Uuid}
    {newPassword : String}
    {apply : Bool}
    {approval : Approval}
    {post :
      ℕ → List (Action accounts) → (Accounts → Accounts) →
        Config W Accounts γ → Prop}
    (hDry :
      apply = false → ∀ count c', post count [] id c')
    (hApply :
      apply = true →
        ∀ count seen row newHash now revoked log w c',
          Resetting R pid userId seen row newHash now revoked
            log w c' →
            post count log w c') :
    (runReset X userId newPassword apply approval).rwp R pid
      post [] id c := by
  unfold runReset
  split
  · exact hRules.rwp_fail (by simp)
  split
  · exact hRules.rwp_fail (by simp)
  simp only [Prog.bind_eq, Prog.rwp_bind]
  apply Prog.rwp_ask_of_silent (hRules.silent_refl .uuid)
  intro requestId c₁ hUuid
  apply Prog.rwp_select_of_silent (hRules.silent_refl _)
  intro a c₂ hRead
  dsimp only [id]
  cases hSeen : userById userId c₂.db with
  | none => exact hRules.rwp_fail (by simp)
  | some seen =>
      have hSeenId := userById_id hSeen
      simp only [Prog.rwp_bind]
      apply
        Prog.rwp_select_of_silent (hRules.silent_refl .plain)
      intro b c₃ hCount
      split
      · rename_i hOff
        simp only [Prog.rwp_bind, Prog.rwp_undo,
          Prog.pure_eq_done, Prog.rwp_done]
        intro c₄ hGood hRely
        exact hDry hOff _ _
      rename_i hOn
      split
      · exact hRules.rwp_fail (by simp)
      · exact hRules.rwp_fail (by simp)
      split
      · exact hRules.rwp_fail (by simp)
      simp only [Prog.rwp_bind]
      apply
        Prog.rwp_select_of_silent (hRules.silent_refl .plain)
      intro d c₄ hLock
      dsimp only [id]
      -- the session answers with `seen`, whatever the row is
      cases hRow : userById seen.id c₄.db with
      | none => exact hRules.rwp_fail (by simp)
      | some row =>
          have hTarget : row.id = userId :=
            (userById_id hRow).trans hSeenId
          have hLocked :
              AccountKey.userUpdate row.id ∈
                userKeys .userUpdate seen.id c₄.db := by
            rw [userKeys, hRow, hTarget, hSeenId]
            exact List.mem_singleton.mpr rfl
          have hRowHere : userById row.id c₄.db = some row := by
            rw [hTarget, ← hSeenId]
            exact hRow
          dsimp only [Option.map]
          simp only [Prog.rwp_bind]
          apply
            Prog.rwp_ask_of_silent (hRules.silent_refl .now)
          intro now c₅ hNow
          apply Prog.rwp_ask_of_silent (hRules.silent_refl _)
          intro newHash c₆ hHash
          have hToHash :=
            (Rules.Course.single _ (P := AfterResetRead)
              hNow rfl).step hHash rfl
          have hRow₆ : userById row.id c₆.db = some row := by
            have hStable := hRules.course hToHash
            rw [(hRules.rows hStable).user row.id
              (Or.inl (by
                rw [held_append, held_singleton]
                exact List.mem_append_right _ hLocked))]
            exact hRowHere
          subst hTarget
          apply
            updateUsers_rwp hRules Revising.start
              (v := resetRevision row seen newHash now)
              _ hRow₆ (fun x hx => by cases hx)
          · intro n act w₇ c₇ hUpdate hPlain hRevising₇
            apply
              revokeTokens_rwp hRules hRevising₇
                (v := resetRevision row seen newHash now)
                (by simp)
            intro m act' revoked w₈ c₈ hRevoke hPlain'
              hRevising₈
            apply appendAuditLog_course hRules
            intro record log' c₉ hAudited
            have hTail :=
              ((hToHash.step hUpdate
                (by rw [AfterResetRead, hPlain]; rfl)).step
                hRevoke
                (by rw [AfterResetRead, hPlain']; rfl)).trans
                (hAudited.mono
                  (fun _ => Unlabelled.afterResetRead))
            apply hApply (by simpa using hOn)
            exact {
              read :=
                ⟨_, c₁, _, c₂, hRead, hSeen,
                  ((Rules.Course.single _
                    (P := AfterResetRead) hCount rfl).step
                      hLock rfl).trans hTail⟩
              target := rfl
              revising :=
                (hRevising₈.course hRules hAudited).frame
                  (fun _ => rfl) (fun _ => rfl)
            }
          · apply mem_held_append
            apply mem_held_append
            rw [held_append, held_singleton]
            exact List.mem_append_right _ hLocked

end Reset

end PigBook.Users

------------------------------------------------------------
-- Anonymizations
------------------------------------------------------------

namespace PigBook.Users

open ReadCommitted

/- The clock that a retention reads, and its list. -/
def isClockRead : AccountQuery → Bool
| .now => true
| _ => false

def isRetentionRead : AccountQuery → Bool
| .retentionRead => true
| _ => false

/- A statement after those two. -/
def AfterListing (act : Action accounts) : Prop :=
  isClockRead act.query = false ∧
    isRetentionRead act.query = false

theorem Unlabelled.afterListing
    {act : Action accounts}
    (hUnlabelled : Unlabelled act) :
    AfterListing act := by
  unfold AfterListing
  rcases hUnlabelled with hPlain | hUuid
  · rw [hPlain]
    exact ⟨rfl, rfl⟩
  · rw [hUuid]
    exact ⟨rfl, rfl⟩

/- The revision of an anonymization. -/
def anonymization
    (row : User)
    (newHash : String)
    (now : ℤ) : Revision where
  user := row
  result := anonymize row newHash now
  same := fun _ => rfl

theorem userById_eq_none
    {id : Uuid}
    {s : Accounts} :
    userById id s = none ↔ id ∉ s.users.map (·.id) := by
  constructor
  · intro hNone hMem
    rcases List.mem_map.mp hMem with ⟨u, hRow, hId⟩
    exact userById_none hNone u hRow hId
  · intro hNot
    apply List.find?_eq_none.mpr
    intro u hRow hId
    apply hNot
    rw [← decide_eq_true_eq (p := u.id = id) |>.mp hId]
    exact List.mem_map_of_mem hRow

section Retention

variable {W : World accounts} {γ : Type}
variable {R : Rules W Accounts γ}
variable {stable : List AccountKey → Accounts → Accounts → Prop}
variable {pid : ℕ} {log : List (Action accounts)}
variable {ks ks' : List AccountKey}
variable {now : ℤ} {listed done rest : List User}
variable {vs : List Revision} {revoked : List Uuid}
variable {w : Accounts → Accounts}
variable {c c' : Config W Accounts γ}

/-
  A listed user whose turn has come: the user is anonymized,
  or there is none, or the locked row had been anonymized
  before.
-/
def Handled
    (vs : List Revision)
    (ks : List AccountKey)
    (c : Config W Accounts γ)
    (listed : User) : Prop :=
  (∃ v ∈ vs, v.user.id = listed.id) ∨
    userById listed.id c.db = none ∨
    ∃ row, AccountKey.userUpdate listed.id ∈ ks ∧
      userById listed.id c.db = some row ∧
      deletedEmail row.email = true

/-
  A retention that has handled the users `done`: each of its
  revisions anonymizes one of them.
-/
structure Anonymizing
    (now : ℤ)
    (done : List User)
    (vs : List Revision)
    (revoked : List Uuid)
    (ks : List AccountKey)
    (w : Accounts → Accounts)
    (c : Config W Accounts γ) : Prop where
  revising : Revising now vs revoked ks w c
  results :
    ∀ v ∈ vs, deletedEmail v.user.email = false ∧
      ∃ newHash, v = anonymization v.user newHash now
  listed : ∀ v ∈ vs, v.user.id ∈ done.map (·.id)
  handled : ∀ u ∈ done, Handled vs ks c u

theorem Anonymizing.start :
    Anonymizing now [] [] [] ks id c where
  revising := .start
  results := fun v hMem => by cases hMem
  listed := fun v hMem => by cases hMem
  handled := fun u hMem => by cases hMem

theorem Handled.kept
    {u : User}
    (hHandled : Handled vs ks c u)
    (hRules : AccountRules R Embedding.refl stable)
    (hIds :
      c'.db.users.map (·.id) = c.db.users.map (·.id))
    (hStable : stable ks c.db c'.db)
    (hKeys : ∀ k ∈ ks, k ∈ ks') :
    Handled vs ks' c' u := by
  rcases hHandled with hDone | hNone | ⟨row, hKey, hRow, hOld⟩
  · exact Or.inl hDone
  · refine Or.inr (Or.inl ?_)
    rw [userById_eq_none, hIds, ← userById_eq_none]
    exact hNone
  · refine Or.inr (Or.inr ⟨row, hKeys _ hKey, ?_, hOld⟩)
    have hSame :=
      (hRules.rows hStable).user u.id (Or.inl hKey)
    exact hSame.trans hRow

theorem Anonymizing.kept
    (hAnonymizing : Anonymizing now done vs revoked ks w c)
    (hRules : AccountRules R Embedding.refl stable)
    (hIds :
      c'.db.users.map (·.id) = c.db.users.map (·.id))
    (hStable : stable ks c.db c'.db)
    (hKeys : ∀ k ∈ ks, k ∈ ks') :
    Anonymizing now done vs revoked ks' w c' where
  revising := hAnonymizing.revising.kept hRules hStable hKeys
  results := hAnonymizing.results
  listed := hAnonymizing.listed
  handled := fun u hMem =>
    (hAnonymizing.handled u hMem).kept hRules hIds hStable
      hKeys

theorem Anonymizing.course
    (hRules : AccountRules R Embedding.refl stable)
    (hIds :
      ∀ {ks s s'}, stable ks s s' →
        s'.users.map (·.id) = s.users.map (·.id))
    {P : Action accounts → Prop}
    {log' : List (Action accounts)}
    (hAnonymizing :
      Anonymizing now done vs revoked (held log) w c)
    (hCourse : R.Course pid P log c log' c') :
    Anonymizing now done vs revoked (held log') w c' :=
  hAnonymizing.kept hRules (hIds (hRules.course hCourse))
    (hRules.course hCourse) hCourse.held_subset

/- A user who is not revised has been handled as well. -/
theorem Anonymizing.skip
    {u : User}
    (hAnonymizing : Anonymizing now done vs revoked ks w c)
    (hHandled : Handled vs ks c u) :
    Anonymizing now (done ++ [u]) vs revoked ks w c where
  revising := hAnonymizing.revising
  results := hAnonymizing.results
  listed := by
    intro v hMem
    rw [List.map_append]
    exact List.mem_append_left _ (hAnonymizing.listed v hMem)
  handled := by
    intro x hMem
    rcases List.mem_append.mp hMem with hOld | hLast
    · exact hAnonymizing.handled x hOld
    · rw [List.mem_singleton.mp hLast]
      exact hHandled

/- A user who is revised now. -/
theorem Anonymizing.revise
    {u row : User}
    {newHash : String}
    {revoked' : List Uuid}
    {w' : Accounts → Accounts}
    (hAnonymizing : Anonymizing now done vs revoked ks w c)
    (hSame : row.id = u.id)
    (hNew : deletedEmail row.email = false)
    (hRevising :
      Revising now (vs ++ [anonymization row newHash now])
        revoked' ks w' c) :
    Anonymizing now (done ++ [u])
      (vs ++ [anonymization row newHash now]) revoked' ks w'
      c where
  revising := hRevising
  results := by
    intro v hMem
    rcases List.mem_append.mp hMem with hOld | hLast
    · exact hAnonymizing.results v hOld
    · rw [List.mem_singleton.mp hLast]
      exact ⟨hNew, newHash, rfl⟩
  listed := by
    intro v hMem
    rw [List.map_append]
    rcases List.mem_append.mp hMem with hOld | hLast
    · exact
        List.mem_append_left _ (hAnonymizing.listed v hOld)
    · rw [List.mem_singleton.mp hLast]
      exact
        List.mem_append_right _ (List.mem_singleton.mpr hSame)
  handled := by
    intro x hMem
    rcases List.mem_append.mp hMem with hOld | hLast
    · rcases hAnonymizing.handled x hOld with
        ⟨v, hv, hId⟩ | hRest
      · exact Or.inl ⟨v, List.mem_append_left _ hv, hId⟩
      · exact Or.inr hRest
    · rw [List.mem_singleton.mp hLast]
      exact
        Or.inl
          ⟨_, List.mem_append_right _
            (List.mem_singleton.mpr rfl), hSame⟩

/- One turn of the loop. -/
theorem anonymizeUser_rwp
    (hRules : AccountRules R Embedding.refl stable)
    (hIds :
      ∀ {ks s s'}, stable ks s s' →
        s'.users.map (·.id) = s.users.map (·.id))
    {u : User}
    (hAnonymizing :
      Anonymizing now done vs revoked (held log) w c)
    (hFresh : u.id ∉ done.map (·.id))
    {post :
      RetentionResult → List (Action accounts) →
        (Accounts → Accounts) → Config W Accounts γ → Prop}
    (hPost :
      ∀ result vs' revoked' log' w' c',
        R.Course pid AfterListing log c log' c' →
        Anonymizing now (done ++ [u]) vs' revoked'
          (held log') w' c' →
          post result log' w' c') :
    (anonymizeUser now u).rwp R pid post log w c := by
  have hApart : ∀ v ∈ vs, v.user.id ≠ u.id := by
    intro v hMem hSame
    apply hFresh
    rw [← hSame]
    exact hAnonymizing.listed v hMem
  unfold anonymizeUser
  simp only [Prog.bind_eq, Prog.rwp_bind]
  apply Prog.rwp_select_of_silent (hRules.silent_refl .plain)
  intro a c₁ hLock
  have hLocked₁ :=
    Rules.Course.single _ (P := AfterListing) hLock ⟨rfl, rfl⟩
  have hAnonymizing₁ :=
    hAnonymizing.course hRules hIds hLocked₁
  have hSees :
      userById u.id (w c₁.db) = userById u.id c₁.db :=
    hAnonymizing₁.revising.userById_of_not hApart
  cases hRow : userById u.id (w c₁.db) with
  | none =>
      apply hPost _ _ _ _ _ c₁ hLocked₁
      apply hAnonymizing₁.skip
      rw [hSees] at hRow
      exact Or.inr (Or.inl hRow)
  | some row =>
      have hId : row.id = u.id := userById_id hRow
      have hRow₁ : userById row.id c₁.db = some row := by
        rw [hId, ← hSees]
        exact hRow
      have hKey :
          AccountKey.userUpdate row.id ∈
            userKeys .userUpdate u.id (w c₁.db) := by
        rw [userKeys, hRow, hId]
        exact List.mem_singleton.mpr rfl
      dsimp only
      split
      · rename_i hOld
        apply hPost _ _ _ _ _ c₁ hLocked₁
        apply hAnonymizing₁.skip
        refine Or.inr (Or.inr ⟨row, ?_, ?_, hOld⟩)
        · rw [hId] at hKey
          rw [held_append, held_singleton]
          exact List.mem_append_right _ hKey
        · rw [← hSees]
          exact hRow
      · rename_i hNew
        simp only [Prog.rwp_bind]
        apply
          Prog.rwp_ask_of_silent (hRules.silent_refl .tokenHex)
        intro text c₂ hText
        apply Prog.rwp_ask_of_silent (hRules.silent_refl _)
        intro newHash c₃ hHash
        have hToHash :=
          (Rules.Course.single _ (P := AfterListing) hText
            ⟨rfl, rfl⟩).step hHash ⟨rfl, rfl⟩
        have hAnonymizing₃ :=
          hAnonymizing₁.course hRules hIds hToHash
        have hRow₃ : userById row.id c₃.db = some row := by
          have hStable := hRules.course hToHash
          rw [(hRules.rows hStable).user row.id
            (Or.inl (by
              rw [held_append, held_singleton]
              exact List.mem_append_right _ hKey))]
          exact hRow₁
        apply
          updateUsers_rwp hRules hAnonymizing₃.revising
            (v := anonymization row newHash now) _ hRow₃
            (by
              intro x hx
              change x.user.id ≠ row.id
              rw [hId]
              exact hApart x hx)
        · intro n act w₄ c₄ hUpdate hPlain hRevising₄
          apply
            revokeTokens_rwp hRules hRevising₄
              (v := anonymization row newHash now) (by simp)
          intro m act' revoked' w₅ c₅ hRevoke hPlain'
            hRevising₅
          apply
            Prog.rwp_stmt_of_silent (hRules.silent_refl .plain)
          intro b c₆ hDelete
          simp only [Prog.pure_eq_done, Prog.rwp_done]
          have hTail :=
            ((hToHash.step hUpdate
              (by rw [AfterListing, hPlain]
                  exact ⟨rfl, rfl⟩)).step hRevoke
              (by rw [AfterListing, hPlain']
                  exact ⟨rfl, rfl⟩)).step hDelete ⟨rfl, rfl⟩
          apply hPost _ _ _ _ _ c₆ (hLocked₁.trans hTail)
          apply
            (hAnonymizing₁.course hRules hIds hTail).revise
              hId (by simpa using hNew)
          exact
            (hRevising₅.course hRules
              (Rules.Course.single _ (P := AfterListing)
                hDelete ⟨rfl, rfl⟩)).frame
              (fun _ => rfl) (fun _ => rfl)
        · apply mem_held_append
          apply mem_held_append
          rw [held_append, held_singleton]
          exact List.mem_append_right _ hKey

/- The loop: each listed user has a turn. -/
theorem anonymizeUsers_rwp
    (hRules : AccountRules R Embedding.refl stable)
    (hIds :
      ∀ {ks s s'}, stable ks s s' →
        s'.users.map (·.id) = s.users.map (·.id))
    (hAnonymizing :
      Anonymizing now done vs revoked (held log) w c)
    (hNodup : ((done ++ rest).map (·.id)).Nodup)
    {post :
      RetentionResult → List (Action accounts) →
        (Accounts → Accounts) → Config W Accounts γ → Prop}
    (hPost :
      ∀ result vs' revoked' log' w' c',
        R.Course pid AfterListing log c log' c' →
        Anonymizing now (done ++ rest) vs' revoked'
          (held log') w' c' →
          post result log' w' c') :
    (anonymizeUsers now rest).rwp R pid post log w c := by
  induction rest generalizing done vs revoked log w c post with
  | nil =>
      apply hPost _ vs revoked log w c .start
      rw [List.append_nil]
      exact hAnonymizing
  | cons u rest ih =>
      unfold anonymizeUsers
      simp only [Prog.bind_eq, Prog.rwp_bind,
        Prog.pure_eq_done, Prog.rwp_done]
      have hFresh : u.id ∉ done.map (·.id) := by
        rw [List.map_append, List.map_cons] at hNodup
        intro hMem
        exact
          (List.nodup_append.mp hNodup).2.2 _ hMem _
            List.mem_cons_self rfl
      apply anonymizeUser_rwp hRules hIds hAnonymizing hFresh
      intro first vs₁ revoked₁ log₁ w₁ c₁ hFirst
        hAnonymizing₁
      have hSplit :
          done ++ u :: rest = (done ++ [u]) ++ rest := by
        simp
      rw [hSplit] at hNodup hPost
      apply ih hAnonymizing₁ hNodup
      intro others vs₂ revoked₂ log₂ w₂ c₂ hOthers
        hAnonymizing₂
      exact
        hPost _ vs₂ revoked₂ log₂ w₂ c₂
          (hFirst.trans hOthers) hAnonymizing₂

end Retention

end PigBook.Users

------------------------------------------------------------
-- Retentions
------------------------------------------------------------

namespace PigBook.Users

open ReadCommitted

section Retention

variable {W : World accounts} {γ : Type}
variable {K : Contract W Accounts γ}
variable {pid : ℕ} {c c' : Config W Accounts γ}
variable {X : Primitives}

/-
  A retention that only has to commit: when it read the
  clock, what it listed, and what it has done to the list.
-/
structure Retaining
    (K : Contract W Accounts γ)
    (pid : ℕ)
    (r : RetentionRequest)
    (now : ℤ)
    (vs : List Revision)
    (revoked : List Uuid)
    (log : List (Action accounts))
    (w : Accounts → Accounts)
    (c' : Config W Accounts γ) : Prop where
  clock :
    ∃ earlier,
      lastRan pid isClockRead c'.trace =
        some (⟨.now, now, []⟩, earlier)
  list :
    ∃ earlier,
      lastRan pid isRetentionRead c'.trace =
        some (⟨.retentionRead, (), []⟩, earlier) ∧
      Anonymizing now
        (eligibleUsers (now - days r.accountCutoffDays)
          (latest K.start earlier))
        vs revoked (held log) w c'

/- The statements after the listing keep it in the history. -/
theorem lastRan_afterListing
    {log log' : List (Action accounts)}
    (hCourse : K.rules.Course pid AfterListing log c log' c') :
    lastRan pid isClockRead c'.trace =
        lastRan pid isClockRead c.trace ∧
      lastRan pid isRetentionRead c'.trace =
        lastRan pid isRetentionRead c.trace :=
  ⟨lastRan_course (fun _ hAct => hAct.1) hCourse,
    lastRan_course (fun _ hAct => hAct.2) hCourse⟩

/- The second transaction of a retention. -/
theorem applyRetention_rwp
    (hRules : AccountRules K.rules Embedding.refl K.stable)
    (hIds :
      ∀ {ks s s'}, K.stable ks s s' →
        s'.users.map (·.id) = s.users.map (·.id))
    {r : RetentionRequest}
    {targetScope backupRef : String}
    {requestId : Uuid}
    {now : ℤ}
    {eligible : List User}
    (hNodup : (eligible.map (·.id)).Nodup)
    {post :
      RetentionResult → List (Action accounts) →
        (Accounts → Accounts) → Config W Accounts γ → Prop}
    (hPost :
      ∀ result vs revoked log w c',
        K.rules.Course pid AfterListing [] c log c' →
        Anonymizing now eligible vs revoked (held log) w c' →
          post result log w c') :
    (applyRetention r targetScope backupRef requestId now
      eligible).rwp K.rules pid post [] id c := by
  unfold applyRetention
  simp only [Prog.bind_eq, Prog.rwp_bind]
  apply anonymizeUsers_rwp hRules hIds .start hNodup
  intro counts vs revoked log₁ w₁ c₁ hLoop hAnonymizing
  rw [List.nil_append] at hAnonymizing
  apply Prog.rwp_stmt_of_silent (hRules.silent_refl .plain)
  intro a c₂ hDelete
  simp only [Prog.rwp_done]
  apply appendAuditLog_course hRules
  intro record log₃ c₃ hAudited
  simp only [Prog.pure_eq_done, Prog.rwp_done]
  have hTail :=
    (Rules.Course.single _ (P := AfterListing) hDelete
      ⟨rfl, rfl⟩).trans
      (hAudited.mono (fun _ => Unlabelled.afterListing))
  have hEnd := hAnonymizing.course hRules hIds hTail
  apply hPost _ vs revoked log₃ _ c₃ (hLoop.trans hTail)
  exact {
    revising :=
      hEnd.revising.frame (fun _ => rfl) (fun _ => rfl)
    results := hEnd.results
    listed := hEnd.listed
    handled := hEnd.handled
  }

theorem runRetention_rwp
    (hRules : AccountRules K.rules Embedding.refl K.stable)
    (hIds :
      ∀ {ks s s'}, K.stable ks s s' →
        s'.users.map (·.id) = s.users.map (·.id))
    (hValid :
      ∀ {s env}, K.valid s env → Keyed User.id s.users)
    {r : RetentionRequest}
    {post :
      RetentionResult → List (Action accounts) →
        (Accounts → Accounts) → Config W Accounts γ → Prop}
    (hDry :
      r.apply = false → ∀ result c', post result [] id c')
    (hApply :
      r.apply = true →
        ∀ result now vs revoked log w c',
          Retaining K pid r now vs revoked log w c' →
            post result log w c') :
    (runRetention X r).rwp K.rules pid post [] id c := by
  unfold runRetention
  simp only [Prog.bind_eq, Prog.rwp_bind]
  apply Prog.rwp_ask_of_silent (hRules.silent_refl .now)
  intro now c₁ hClock
  apply Prog.rwp_ask_of_silent (hRules.silent_refl .uuid)
  intro requestId c₂ hUuid
  apply Prog.rwp_select_of_silent (hRules.silent_refl _)
  intro a c₃ hList
  apply Prog.rwp_select_of_silent (hRules.silent_refl .plain)
  intro b c₄ hCount
  dsimp only [id]
  rcases Contract.ran_latest hList with
    ⟨earlier, hTrace₃, hSuffix, hDb₃⟩
  rcases Contract.ran_latest hClock with
    ⟨before, hTrace₁, -, -⟩
  have hRead₃ :
      lastRan pid isRetentionRead c₃.trace =
        some (⟨.retentionRead, (), []⟩, earlier) := by
    rw [hTrace₃]
    exact lastRan_ran rfl
  have hClock₃ :
      lastRan pid isClockRead c₃.trace =
        some (⟨.now, now, []⟩, before) := by
    have hCourse :=
      (Rules.Course.single _
        (P := fun act => isClockRead act.query = false)
        hUuid rfl).step hList rfl
    rw [lastRan_course (fun _ hAct => hAct) hCourse, hTrace₁]
    exact lastRan_ran rfl
  have hEligible :
      eligibleUsers (now - days r.accountCutoffDays) c₃.db =
        eligibleUsers (now - days r.accountCutoffDays)
          (latest K.start earlier) := by
    rw [hDb₃]
  have hNodup :
      ((eligibleUsers (now - days r.accountCutoffDays)
        c₃.db).map (·.id)).Nodup := by
    have hKeyed := hValid hList.good.valid
    exact
      List.pairwise_map.mpr
        (List.Pairwise.filter _ hKeyed)
  split
  · rename_i hOff
    simp only [Prog.rwp_bind, Prog.rwp_undo,
      Prog.pure_eq_done, Prog.rwp_done]
    intro c₅ hGood hRely
    exact hDry hOff _ _
  rename_i hOn
  split
  · exact hRules.rwp_fail (by simp)
  · exact hRules.rwp_fail (by simp)
  · exact hRules.rwp_fail (by simp)
  split
  · exact hRules.rwp_fail (by simp)
  split
  · exact hRules.rwp_fail (by simp)
  -- the session of the listing ends here
  simp only [Prog.rwp_bind, Prog.rwp_undo]
  intro c₅ hGood₅ hRely
  apply applyRetention_rwp hRules hIds hNodup
  intro result vs revoked log w c₆ hCourse hAnonymizing
  rcases lastRan_afterListing hCourse with
    ⟨hClock₆, hRead₆⟩
  rcases lastRan_afterListing
      (Rules.Course.single [] (P := AfterListing) hCount
        ⟨rfl, rfl⟩) with
    ⟨hClock₄, hRead₄⟩
  apply hApply (by simpa using hOn) result now vs revoked
  exact {
    clock := by
      refine ⟨before, ?_⟩
      rw [hClock₆, Config.record_trace]
      change lastRan pid isClockRead c₅.trace = _
      rw [lastRan_rely hRely, hClock₄, hClock₃]
    list := by
      refine ⟨earlier, ?_, ?_⟩
      · rw [hRead₆, Config.record_trace]
        change lastRan pid isRetentionRead c₅.trace = _
        rw [lastRan_rely hRely, hRead₄, hRead₃]
      · rw [← hEligible]
        exact hAnonymizing
  }

end Retention

end PigBook.Users
