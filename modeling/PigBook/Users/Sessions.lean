import PigBook.Users.Families
import PigBook.Users.Operators
import PigBook.Users.Surroundings

/-
  Logins among the transactions that disable their user or
  set a new password.

  A login checks the row that it has read first, and locks
  the row later on.  The session answers the locking read
  with the attributes that it has loaded.

  Key definitions include:
    * `Clearing`
    * `SessionRequest`, `sessionContract`

  Key theorems include:
    * `runReset_clears`
    * `session_good`
-/

------------------------------------------------------------
-- Clearing the Tokens of a User
------------------------------------------------------------

namespace PigBook

open ReadCommitted

/- The unrevoked tokens of a locked user are the same ones. -/
theorem RowsStable.unrevoked
    {holds : AccountKey → Prop}
    {s s' : Accounts}
    {userId : Uuid}
    (hStable : RowsStable holds s s')
    (hKey : holds (.userUpdate userId))
    (hLocked :
      ∀ id ∈
        (PigBook.unrevoked (fun t => t.userId = userId) s).map
          (·.id),
        holds (.tokenUpdate id)) :
    (PigBook.unrevoked (fun t => t.userId = userId) s').map
        (·.id) =
      (PigBook.unrevoked (fun t => t.userId = userId) s).map
        (·.id) := by
  rw [unrevoked_user] at hLocked
  rw [unrevoked_user, unrevoked_user]
  apply unrevoked_kept (hStable.tokens userId hKey)
  intro t hMem hRevoked
  apply hLocked
  apply List.mem_map_of_mem (f := fun t : RefreshToken => t.id)
  exact List.mem_filter.mpr ⟨hMem, by simpa using hRevoked⟩

/- All unrevoked tokens of a user have been revoked. -/
def Cleared
    (userId : Uuid)
    (before after : Accounts) : Prop :=
  ∃ now,
    after.tokens =
      revokeIds
        ((unrevoked (fun t => t.userId = userId) before).map
          (·.id))
        now before.tokens

/- After a clearing no token of the user is alive. -/
theorem Cleared.revoked
    {userId : Uuid}
    {before after : Accounts}
    (hCleared : Cleared userId before after)
    (hKeyed : Keyed RefreshToken.id before.tokens)
    {t : RefreshToken}
    (hMem : t ∈ after.tokens)
    (hUser : t.userId = userId) :
    t.revokedAt.isSome := by
  rcases hCleared with ⟨now, hTokens⟩
  rw [hTokens] at hMem
  exact revoked_of_revokeIds hKeyed hMem (by simpa using hUser)

namespace Users

section Clearing

variable {W : World accounts} {γ : Type}
variable {R : Rules W Accounts γ}
variable {stable : List AccountKey → Accounts → Accounts → Prop}
variable {pid : ℕ} {log log' : List (Action accounts)}
variable {userId : Uuid} {now : ℤ} {revoked : List Uuid}
variable {ks ks' : List AccountKey}
variable {w w' : Accounts → Accounts}
variable {c c' : Config W Accounts γ} {X : Primitives}

/-
  The transaction has locked a user, and has revoked all
  tokens of the user that are unrevoked.
-/
structure Clearing
    (userId : Uuid)
    (now : ℤ)
    (revoked : List Uuid)
    (ks : List AccountKey)
    (w : Accounts → Accounts)
    (c : Config W Accounts γ) : Prop where
  tokens : ∀ s, (w s).tokens = revokeIds revoked now s.tokens
  key : AccountKey.userUpdate userId ∈ ks
  all :
    revoked =
      (unrevoked (fun t => t.userId = userId) c.db).map (·.id)
  locked : ∀ id ∈ revoked, AccountKey.tokenUpdate id ∈ ks

/-
  It stays one while others work, by the locks on the tokens.
-/
theorem Clearing.kept
    (hClearing : Clearing userId now revoked ks w c)
    (hStable : RowsStable (· ∈ ks) c.db c'.db)
    (hKeys : ∀ k ∈ ks, k ∈ ks') :
    Clearing userId now revoked ks' w c' where
  tokens := hClearing.tokens
  key := hKeys _ hClearing.key
  all := by
    have hSame := hStable.unrevoked hClearing.key
    rw [← hClearing.all] at hSame
    exact (hSame hClearing.locked).symm
  locked := fun id hMem => hKeys _ (hClearing.locked id hMem)

/- It stays one when other tables are written. -/
theorem Clearing.frame
    (hClearing : Clearing userId now revoked ks w c)
    (hTokens : ∀ s, (w' s).tokens = (w s).tokens) :
    Clearing userId now revoked ks w' c where
  tokens := fun s => (hTokens s).trans (hClearing.tokens s)
  key := hClearing.key
  all := hClearing.all
  locked := hClearing.locked

/- When it commits, the user is cleared. -/
theorem Clearing.cleared
    (hClearing : Clearing userId now revoked ks w c) :
    Cleared userId c.db (w c.db) := by
  refine ⟨now, ?_⟩
  rw [hClearing.tokens, hClearing.all]

/- A revocation of all tokens of a locked user. -/
theorem revokeTokens_clears
    (hRules : AccountRules R Embedding.refl stable)
    {post :
      ℕ → List (Action accounts) → (Accounts → Accounts) →
        Config W Accounts γ → Prop}
    (hKey : AccountKey.userUpdate userId ∈ held log)
    (hTokens : ∀ s, (w s).tokens = s.tokens)
    (hPost :
      ∀ n act revoked w' c',
        Clearing userId now revoked (held (log ++ [act])) w' c' →
          post n (log ++ [act]) w' c') :
    (revokeTokens (fun t => t.userId = userId) now).rwp R pid
      post log w c := by
  apply Prog.rwp_stmt_of_silent (hRules.silent_refl .plain)
  intro a c' hRan
  have hSeen :
      unrevoked (fun t => t.userId = userId) (w c'.db) =
        unrevoked (fun t => t.userId = userId) c'.db := by
    unfold unrevoked
    rw [hTokens]
  rw [hSeen]
  apply
    hPost _ _
      ((unrevoked (fun t => t.userId = userId) c'.db).map
        (·.id))
  constructor
  · intro s
    rw [Accounts.setTokens_tokens, hTokens]
    rfl
  · exact mem_held_append hKey
  · rfl
  · intro id hMem
    rw [held_append, held_singleton]
    apply List.mem_append_right
    rcases List.mem_map.mp hMem with ⟨t, hToken, rfl⟩
    exact
      List.mem_map_of_mem
        (f := fun t : RefreshToken =>
          AccountKey.tokenUpdate t.id) hToken

/- An applied reset revokes all tokens of its user. -/
theorem runReset_clears
    (hRules : AccountRules R Embedding.refl stable)
    {newPassword : String}
    {apply : Bool}
    {approval : Approval} :
    (runReset X userId newPassword apply approval).rwp R pid
      (fun _ log w c =>
        apply = true →
          ∃ now revoked,
            Clearing userId now revoked (held log) w c)
      [] id c := by
  unfold runReset
  split
  · exact hRules.rwp_fail (by simp)
  split
  · exact hRules.rwp_fail (by simp)
  simp only [Prog.bind_eq, Prog.rwp_bind]
  apply Prog.rwp_ask_of_silent (hRules.silent_refl .uuid)
  intro requestId c₁ hUuid
  apply Prog.rwp_select_of_silent (hRules.silent_refl _)
  intro a c₂ hRead
  dsimp only [id]
  cases hSeen : userById userId c₂.db with
  | none => exact hRules.rwp_fail (by simp)
  | some seen =>
      have hSeenId := userById_id hSeen
      simp only [Prog.rwp_bind]
      apply
        Prog.rwp_select_of_silent (hRules.silent_refl .plain)
      intro b c₃ hCount
      split
      · rename_i hOff
        simp only [Prog.rwp_bind, Prog.rwp_undo,
          Prog.pure_eq_done, Prog.rwp_done]
        intro c₄ hGood hRely hOn
        rw [hOff] at hOn
        cases hOn
      split
      · exact hRules.rwp_fail (by simp)
      · exact hRules.rwp_fail (by simp)
      split
      · exact hRules.rwp_fail (by simp)
      simp only [Prog.rwp_bind]
      apply
        Prog.rwp_select_of_silent (hRules.silent_refl .plain)
      intro d c₄ hLock
      dsimp only [id]
      cases hRow : userById seen.id c₄.db with
      | none => exact hRules.rwp_fail (by simp)
      | some row =>
          have hLocked :
              AccountKey.userUpdate userId ∈
                userKeys .userUpdate seen.id c₄.db := by
            rw [userKeys, hRow, hSeenId]
            exact List.mem_singleton.mpr rfl
          dsimp only [Option.map]
          simp only [Prog.rwp_bind]
          apply
            Prog.rwp_ask_of_silent (hRules.silent_refl .now)
          intro now c₅ hNow
          apply Prog.rwp_ask_of_silent (hRules.silent_refl _)
          intro newHash c₆ hHash
          -- the flush leaves the tokens alone
          apply
            Prog.rwp_stmt_of_silent (hRules.silent_refl .plain)
          intro e c₇ hUpdate
          split
          · exact hRules.rwp_fail (by simp)
          simp only [Prog.rwp_done]
          apply revokeTokens_clears hRules
          · apply mem_held_append
            apply mem_held_append
            apply mem_held_append
            rw [held_append, held_singleton]
            exact List.mem_append_right _ hLocked
          · exact fun s => rfl
          intro n act revoked w c₈ hClearing
          apply appendAuditLog_course hRules
          intro record log' c₉ hCourse hOn
          refine ⟨now, revoked, ?_⟩
          have hStable := hRules.course hCourse
          exact
            (hClearing.kept (hRules.rows hStable)
              hCourse.held_subset).frame (fun _ => rfl)

/-
  What a reset has established: it revises users whom it has
  locked, and clears the tokens of its user.
-/
theorem runReset_establishes
    (hRules : AccountRules R Embedding.refl stable)
    {newPassword : String}
    {apply : Bool}
    {approval : Approval} :
    (runReset X userId newPassword apply approval).rwp R pid
      (fun _ log w c =>
        (apply = false → log = [] ∧ w = id) ∧
        (apply = true →
          (∃ now vs revoked,
            Revising now vs revoked (held log) w c) ∧
          ∃ now revoked,
            Clearing userId now revoked (held log) w c))
      [] id c := by
  have hRevises :
      (runReset X userId newPassword apply approval).rwp R pid
        (fun _ log w c =>
          (apply = false → log = [] ∧ w = id) ∧
          (apply = true →
            ∃ now vs revoked,
              Revising now vs revoked (held log) w c))
        [] id c := by
    apply runReset_rwp hRules
    · intro hOff count c'
      refine ⟨fun _ => ⟨rfl, rfl⟩, ?_⟩
      intro hOn
      rw [hOff] at hOn
      cases hOn
    · intro hOn count seen row newHash now revoked log w c₁
        hResetting
      refine ⟨?_, fun _ => ⟨now, _, revoked, hResetting.revising⟩⟩
      intro hOff
      rw [hOn] at hOff
      cases hOff
  refine
    Prog.rwp_mono _ ?_
      (Prog.rwp_and _ hRevises (runReset_clears hRules))
  intro count log w c₁ hBoth
  exact
    ⟨hBoth.1.1, fun hOn => ⟨hBoth.1.2 hOn, hBoth.2 hOn⟩⟩

end Clearing

end Users

end PigBook

------------------------------------------------------------
-- Clients
------------------------------------------------------------

namespace PigBook

open ReadCommitted

/- Logins, and what may end the sessions of a user. -/
inductive SessionRequest (lax : Json → Option Bool)
  | login (email password : String)
  | patch (r : PatchRequest lax)
  | reset
      (userId : Uuid)
      (newPassword : String)
      (apply : Bool)
      (approval : Approval)

/- What a commit answers, with what it was asked. -/
inductive SessionReply (lax : Json → Option Bool)
  | loggedIn (password : String) (result : TokenResult)
  | patched (reply : PatchReply lax)
  | reset (userId : Uuid) (apply : Bool) (count : ℕ)

variable {lax : Json → Option Bool}

/- Logins, updates of accounts and resets of passwords. -/
def SessionRequest.program
    (X : Primitives)
    (settings : Settings) :
    SessionRequest lax →
      Prog accounts Accounts (SessionReply lax)
| login email password => do
    let result ← Users.loginEndpoint X settings email password
    return .loggedIn password result
| patch r => do
    let reply ← patchProgram r
    return .patched reply
| reset userId newPassword apply approval => do
    let count ←
      Users.runReset X userId newPassword apply approval
    return .reset userId apply count

def sessionPrograms
    (X : Primitives)
    (settings : Settings)
    (lax : Json → Option Bool)
    (p : Prog accounts Accounts (SessionReply lax)) : Prop :=
  ∃ request : SessionRequest lax, p = request.program X settings

abbrev SessionEvent (lax : Json → Option Bool) :=
  Event accounts Accounts (SessionReply lax)

end PigBook

------------------------------------------------------------
-- The Contract
------------------------------------------------------------

namespace PigBook

open ReadCommitted
open Users

section Contract

variable {lax : Json → Option Bool} {W : World accounts}
variable {X : Primitives} {settings : Settings}
variable {db : Accounts}

/-
  The user whom the login has read in the state that the
  events `earlier` had left.
-/
def LoginSaw
    (db : Accounts)
    (pid : ℕ)
    (older earlier : List (SessionEvent lax))
    (user : User) : Prop :=
  ∃ email,
    lastRan pid isLoginRead older =
      some (⟨.loginRead email, (), []⟩, earlier) ∧
    userByEmail email (latest db earlier) = some user

/-
  A committed login has checked the user that it saw, and
  adds an unrevoked token of that user.
-/
def Admitted
    (X : Primitives)
    (db : Accounts)
    (pid : ℕ)
    (password : String)
    (older : List (SessionEvent lax))
    (before after : Accounts) : Prop :=
  ∃ user earlier root,
    LoginSaw db pid older earlier user ∧
    user.enabled = true ∧
    X.verifyPassword password user.passwordHash = true ∧
    root.userId = user.id ∧ root.revokedAt = none ∧
    after = before.addToken root

/- What a commit is worth. -/
def SessionReply.Outcome
    (X : Primitives)
    (db : Accounts)
    (pid : ℕ)
    (older : List (SessionEvent lax))
    (before after : Accounts) : SessionReply lax → Prop
| loggedIn password _ =>
    Admitted X db pid password older before after
| patched reply =>
    PatchOutcome reply.request reply.authority before after
| reset _ false _ => after.tokens = before.tokens
| reset userId true _ => Cleared userId before after

/- Only commits are judged, each by its answer. -/
def sessionEvent
    (X : Primitives)
    (db : Accounts)
    (older : List (SessionEvent lax)) :
    SessionEvent lax → Prop
| .committed pid _ before after (some reply) =>
    FamilyValid after ∧
      reply.Outcome X db pid older before after
| .committed _ _ _ _ none => False
| _ => True

/- What a client may rely on is reflexive and transitive. -/
theorem sessionStable_refl
    (X : Primitives)
    (ks : List AccountKey)
    (s : Accounts) :
    FamilyStable X (· ∈ ks) s s :=
  .refl s

theorem sessionStable_trans
    (X : Primitives)
    {ks : List AccountKey}
    {s s' s'' : Accounts}
    (hFirst : FamilyStable X (· ∈ ks) s s')
    (hSecond : FamilyStable X (· ∈ ks) s' s'') :
    FamilyStable X (· ∈ ks) s s'' :=
  hFirst.trans hSecond

/- The tables stay valid, and locked rows as they are. -/
def sessionContract
    (W : World accounts)
    (X : Primitives)
    (lax : Json → Option Bool)
    (db : Accounts) :
    Contract W Accounts (SessionReply lax) where
  start := db
  later := fun _ _ => True
  valid := fun s _ => FamilyValid s
  stable := fun ks => FamilyStable X (· ∈ ks)
  outcome := sessionEvent X db
  later_refl := fun _ => trivial
  later_trans := fun _ _ => trivial
  later_answers := fun _ => trivial
  later_advance := fun _ => trivial
  valid_later := fun _ hValid => hValid
  stable_refl := sessionStable_refl X
  stable_trans := @sessionStable_trans X
  outcome_quiet := by
    intro older e hQuiet
    cases e with
    | committed pid log before after answer => cases hQuiet
    | _ => trivial

/- The contract is one for the tables of accounts. -/
theorem sessionContract_rules
    (W : World accounts)
    (X : Primitives)
    (lax : Json → Option Bool)
    (db : Accounts) :
    AccountRules (sessionContract W X lax db).rules
      Embedding.refl (sessionContract W X lax db).stable where
  silent := fun _ => Contract.silent (fun _ _ _ _ => trivial)
  mayAbort := fun _ => trivial
  begun := begunAs_rely
  stable_of_rely := fun hRely => hRely.stable
  refl := (sessionContract W X lax db).stable_refl
  trans := (sessionContract W X lax db).stable_trans
  mono := fun hKeys hStable => hStable.mono hKeys
  rows := fun hStable => hStable.rows

end Contract

section Revocations

variable {X : Primitives} {holds : AccountKey → Prop}
variable {s s' : Accounts} {ids : List Uuid} {now : ℤ}

/- Users with the same identifiers are found alike. -/
theorem userById_isSome_of_ids
    (hIds : s'.users.map (·.id) = s.users.map (·.id))
    {id : Uuid}
    (hUser : (userById id s).isSome) :
    (userById id s').isSome := by
  rw [Option.isSome_iff_ne_none] at hUser ⊢
  intro hNone
  apply hUser
  rw [userById_eq_none] at hNone ⊢
  rw [← hIds]
  exact hNone

/- A revocation leaves each token its owner. -/
theorem FamilyValid.revokeIds
    (hValid : FamilyValid s)
    (hAfter : s'.Valid)
    (hIds : s'.users.map (·.id) = s.users.map (·.id))
    (hTokens : s'.tokens = PigBook.revokeIds ids now s.tokens) :
    FamilyValid s' where
  valid := hAfter
  owners := by
    intro t hMem
    apply userById_isSome_of_ids hIds
    rw [hTokens] at hMem
    rcases mem_revokeIds.mp hMem with
      ⟨t₀, hMem₀, -, rfl⟩ | ⟨hOld, -⟩
    · exact hValid.owners t₀ hMem₀
    · exact hValid.owners t hOld

/- Tokens that are not locked by others may be revoked. -/
theorem FamilyStable.of_revokeIds
    (hRows : RowsStable holds s s')
    (hIds : s'.users.map (·.id) = s.users.map (·.id))
    (hTokens : s'.tokens = PigBook.revokeIds ids now s.tokens)
    (hLocks : ∀ id ∈ ids, ¬ holds (.tokenUpdate id)) :
    FamilyStable X holds s s' where
  user := hRows.user
  users := fun id hUser => userById_isSome_of_ids hIds hUser
  tokens := by
    rw [hTokens]
    exact grows_revokeIds hLocks

end Revocations

end PigBook

------------------------------------------------------------
-- Programs under the Contract
------------------------------------------------------------

namespace PigBook

open ReadCommitted
open Users

section Keeps

variable {lax : Json → Option Bool} {W : World accounts}
variable {X : Primitives} {settings : Settings}
variable {db : Accounts}

/- A login ends in one new token, or without effect. -/
theorem sessionLogin_keeps
    (email password : String) :
    (sessionContract W X lax db).rules.Keeps
      ((SessionRequest.login email password).program X
        settings) := by
  intro pid c hGood
  simp only [SessionRequest.program, Prog.bind_eq,
    Prog.rwp_bind, Prog.pure_eq_done, Prog.rwp_done]
  apply loginEndpoint_rwp (sessionContract_rules W X lax db)
  intro user root result log c₁ hGood₁ hLogin hHash c₂ hGood₂
    hRely
  have hStable : FamilyStable X (· ∈ held log) c₁.db c₂.db :=
    hRely.stable
  have hValid : FamilyValid c₂.db := hGood₂.valid
  rcases hLogin.shape with
    ⟨tokenId, familyId, rawRefresh, now, rfl⟩
  have hAfter :
      FamilyValid
        (c₂.db.addToken
          (rootToken X user.id tokenId familyId rawRefresh
            now)) := by
    apply hValid.addToken
    · exact
        hStable.fresh hLogin.keys
          (tokenViolation_none hLogin.free)
    · exact hStable.users user.id hLogin.row
  apply Contract.commits hGood₂ hAfter
  · refine
      ⟨hAfter, user, ?_⟩
    rcases hLogin.read with
      ⟨email', ks, c₀, log₀, c', hRan, hSaw, hCourse⟩
    rcases Contract.ran_latest hRan with
      ⟨earlier, hTrace, -, hDb⟩
    refine
      ⟨earlier, _, ⟨email', ?_, ?_⟩, hLogin.enabled,
        hLogin.password, rfl, rfl, rfl⟩
    · rw [lastRan_rely hRely,
        lastRan_course (fun _ hAct => hAct) hCourse, hTrace]
      exact lastRan_ran rfl
    · rw [← hSaw, hDb]
      rfl
  · intro ks' hCompat
    refine FamilyStable.of_tokens (s := c₂.db) rfl ?_
    apply grows_addToken
    apply Appears.of_keys hCompat hLogin.keys hLogin.key
    intro hChild
    cases hChild

/- An update revokes what it has locked. -/
theorem sessionPatch_keeps
    (r : PatchRequest lax) :
    (sessionContract W X lax db).rules.Keeps
      ((SessionRequest.patch r).program X settings) := by
  intro pid c hGood
  have hRules := sessionContract_rules W X lax db
  simp only [SessionRequest.program, Prog.bind_eq,
    Prog.rwp_bind, Prog.pure_eq_done, Prog.rwp_done]
  apply patchProgram_rwp hRules (fun _ _ _ _ _ => trivial)
  intro actor target view log w c₁ hPatching c₂ hGood₂ hRely
  have hNow :=
    hPatching.kept hRules hRely.stable (fun _ hKey => hKey)
  have hValid : FamilyValid c₂.db := hGood₂.valid
  have hOutcome := hNow.outcome
  change PatchOutcome r actor.authority c₂.db (w c₂.db)
    at hOutcome
  rcases hNow.changes with
    ⟨now, revoked, auditId, reqId, hW, -, -, hLocked⟩
  have hTokens :
      (w c₂.db).tokens = revokeIds revoked now c₂.db.tokens := by
    rw [hW]
    rfl
  have hAfter : FamilyValid (w c₂.db) :=
    hValid.revokeIds (hOutcome.valid hValid.valid) hOutcome.ids
      hTokens
  apply Contract.commits hGood₂ hAfter
  · exact ⟨hAfter, hOutcome⟩
  · intro ks' hCompat
    apply FamilyStable.of_revokeIds _ hOutcome.ids hTokens
    · intro id hMem hHeld
      exact hCompat _ (hLocked id hMem) _ hHeld rfl
    · exact
        hNow.rowsStable hValid.valid hCompat (fun _ _ h => h)

/- So does a reset that is applied. -/
theorem sessionReset_keeps
    (userId : Uuid)
    (newPassword : String)
    (apply : Bool)
    (approval : Approval) :
    (sessionContract W X lax db).rules.Keeps
      ((.reset userId newPassword apply approval :
        SessionRequest lax).program X settings) := by
  intro pid c hGood
  have hRules := sessionContract_rules W X lax db
  simp only [SessionRequest.program, Prog.bind_eq,
    Prog.rwp_bind, Prog.pure_eq_done, Prog.rwp_done]
  refine Prog.rwp_mono _ ?_ (runReset_establishes hRules)
  intro count log w c₁ hBoth c₂ hGood₂ hRely
  have hValid : FamilyValid c₂.db := hGood₂.valid
  cases apply with
  | false =>
      rcases hBoth.1 rfl with ⟨rfl, rfl⟩
      apply Contract.commits (w := id) hGood₂ hValid
      · exact ⟨hValid, rfl⟩
      · exact fun _ _ => .refl _
  | true =>
      rcases hBoth.2 rfl with
        ⟨⟨at', vs, revoked', hRevising⟩, now, revoked, hClearing⟩
      have hNow :=
        hRevising.kept hRules hRely.stable (fun _ hKey => hKey)
      have hThen :=
        hClearing.kept (hRules.rows hRely.stable)
          (fun _ hKey => hKey)
      have hAfter : FamilyValid (w c₂.db) :=
        hValid.revokeIds (hNow.valid hValid.valid) hNow.ids
          (hThen.tokens c₂.db)
      apply Contract.commits hGood₂ hAfter
      · exact ⟨hAfter, hThen.cleared⟩
      · intro ks' hCompat
        apply
          FamilyStable.of_revokeIds
            (hNow.rowsStable hValid.valid hCompat) hNow.ids
            (hThen.tokens c₂.db)
        intro id hMem hHeld
        exact hCompat _ (hThen.locked id hMem) _ hHeld rfl

/- Every run keeps the contract. -/
theorem session_good
    {env : W.Carrier}
    {s : Sys W Accounts (SessionReply lax)}
    (hValid : FamilyValid db)
    (hReach :
      Reachable (sessionPrograms X settings lax)
        (Sys.initial db env) s) :
    (sessionContract W X lax db).Good s.toConfig := by
  apply Contract.good_of_reachable _ hValid hReach
  intro p hProgram
  rcases hProgram with ⟨request, rfl⟩
  cases request with
  | login email password => exact sessionLogin_keeps _ _
  | patch r => exact sessionPatch_keeps r
  | reset userId newPassword apply approval =>
      exact sessionReset_keeps _ _ _ _

end Keeps

end PigBook
