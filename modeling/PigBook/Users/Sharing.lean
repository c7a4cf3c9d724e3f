import Mathlib.Data.List.Forall2
import PigBook.ReadCommitted.Course
import PigBook.ReadCommitted.Embedding
import PigBook.Users.Operations

/-
  What account transactions may rely on while they hold their
  locks, and what the guarded patch has established when it
  commits.

  Key definitions include:
    * `TokenKept`, `RowsStable`
    * `AccountRules`
    * `Checked`, `Refused`, `Patching`

  Key theorems include:
    * `authorize_rwp`, `assertCurrent_rwp`
    * `updateUserEndpoint_rwp`
-/

------------------------------------------------------------
-- Stable Rows
------------------------------------------------------------

namespace PigBook

open ReadCommitted

/- The tokens of a user. -/
def tokensOf
    (userId : Uuid)
    (s : Accounts) : List RefreshToken :=
  s.tokens.filter (fun t => t.userId = userId)

/-
  What another client may do to a token: it may use it, or
  revoke it for good, unless its row is locked.
-/
structure TokenKept
    (holds : AccountKey → Prop)
    (t t' : RefreshToken) : Prop where
  id : t'.id = t.id
  locked : holds (.tokenUpdate t.id) → t' = t
  revoked : t.revokedAt.isSome → t'.revokedAt.isSome

theorem TokenKept.refl
    {holds : AccountKey → Prop}
    (t : RefreshToken) :
    TokenKept holds t t :=
  ⟨rfl, fun _ => rfl, fun hRevoked => hRevoked⟩

theorem TokenKept.trans
    {holds : AccountKey → Prop}
    {t t' t'' : RefreshToken}
    (hFirst : TokenKept holds t t')
    (hSecond : TokenKept holds t' t'') :
    TokenKept holds t t'' where
  id := hSecond.id.trans hFirst.id
  locked := by
    intro hKey
    have hSame := hFirst.locked hKey
    rw [hSecond.locked (by rw [hSame]; exact hKey), hSame]
  revoked := fun hRevoked =>
    hSecond.revoked (hFirst.revoked hRevoked)

theorem tokensKept_trans
    {holds : AccountKey → Prop}
    {ts ts' ts'' : List RefreshToken}
    (hFirst : List.Forall₂ (TokenKept holds) ts ts')
    (hSecond : List.Forall₂ (TokenKept holds) ts' ts'') :
    List.Forall₂ (TokenKept holds) ts ts'' := by
  induction hFirst generalizing ts'' with
  | nil =>
      cases hSecond
      exact .nil
  | cons hHead hTail ih =>
      cases hSecond with
      | cons hHead' hTail' =>
          exact .cons (hHead.trans hHead') (ih hTail')

/-
  What stays for the holder of some keys: the user rows that
  are locked, and of a user locked for an update which tokens
  there are.
-/
structure RowsStable
    (holds : AccountKey → Prop)
    (s s' : Accounts) : Prop where
  user :
    ∀ id, holds (.userUpdate id) ∨ holds (.userShare id) →
      userById id s' = userById id s
  tokens :
    ∀ id, holds (.userUpdate id) →
      List.Forall₂ (TokenKept holds) (tokensOf id s)
        (tokensOf id s')

theorem RowsStable.refl
    {holds : AccountKey → Prop}
    (s : Accounts) :
    RowsStable holds s s where
  user := fun _ _ => rfl
  tokens := fun _ _ =>
    List.forall₂_same.mpr (fun t _ => .refl t)

theorem RowsStable.trans
    {holds : AccountKey → Prop}
    {s s' s'' : Accounts}
    (hFirst : RowsStable holds s s')
    (hSecond : RowsStable holds s' s'') :
    RowsStable holds s s'' where
  user := by
    intro id hKey
    rw [hSecond.user id hKey, hFirst.user id hKey]
  tokens := by
    intro id hKey
    exact
      tokensKept_trans (hFirst.tokens id hKey)
        (hSecond.tokens id hKey)

theorem RowsStable.mono
    {holds holds' : AccountKey → Prop}
    {s s' : Accounts}
    (hStable : RowsStable holds' s s')
    (hKeys : ∀ k, holds k → holds' k) :
    RowsStable holds s s' where
  user := by
    intro id hKey
    exact hStable.user id (hKey.imp (hKeys _) (hKeys _))
  tokens := by
    intro id hKey
    apply (hStable.tokens id (hKeys _ hKey)).imp
    intro t t' hKept
    exact
      ⟨hKept.id, fun hLock => hKept.locked (hKeys _ hLock),
        hKept.revoked⟩

/- Tokens that are locked while unrevoked stay unrevoked. -/
theorem unrevoked_kept
    {holds : AccountKey → Prop}
    {ts ts' : List RefreshToken}
    (hKept : List.Forall₂ (TokenKept holds) ts ts')
    (hLocked :
      ∀ t ∈ ts, t.revokedAt = none →
        holds (.tokenUpdate t.id)) :
    (ts'.filter (fun t => t.revokedAt = none)).map (·.id) =
      (ts.filter (fun t => t.revokedAt = none)).map
        (·.id) := by
  induction hKept with
  | nil => rfl
  | @cons t t' ts ts' hHead hTail ih =>
      have hRest :=
        ih (fun x hx => hLocked x (List.mem_cons_of_mem t hx))
      by_cases hRevoked : t.revokedAt = none
      · have hSame :=
          hHead.locked
            (hLocked t List.mem_cons_self hRevoked)
        subst hSame
        simp [hRevoked, hRest]
      · have hStays :=
          hHead.revoked (Option.isSome_iff_ne_none.mpr hRevoked)
        have hRevoked' : ¬ t'.revokedAt = none :=
          Option.isSome_iff_ne_none.mp hStays
        simp [hRevoked, hRevoked', hRest]

/- The unrevoked tokens of a user are among the user's. -/
theorem unrevoked_user
    (userId : Uuid)
    (s : Accounts) :
    unrevoked (fun t => t.userId = userId) s =
      (tokensOf userId s).filter
        (fun t => t.revokedAt = none) := by
  unfold unrevoked tokensOf
  rw [List.filter_filter]
  apply List.filter_congr
  intro t hMem
  simp only [decide_eq_true_eq, Bool.decide_and]
  exact Bool.and_comm _ _

end PigBook

------------------------------------------------------------
-- Rules for Accounts
------------------------------------------------------------

namespace PigBook.Users

open ReadCommitted

section Outlines

variable {S' : Sig} {W : World S'} {σ' γ : Type}

/- Errors on which the rules may set a condition. -/
@[simp] def Watched : AccountError → Prop
| .invalidRefresh _ => True
| .lastAdmin _ => True
| _ => False

/-
  Rules under which account transactions run: what the
  others do keeps a relation that makes locked rows stable,
  and is not done in the client's name.
-/
structure AccountRules
    (R : Rules W σ' γ)
    (E : Embedding accounts S' Accounts σ')
    (stable : List S'.Key → Accounts → Accounts → Prop) :
    Prop where
  silent : ∀ q, R.Silent (E.query q)
  mayAbort :
    ∀ {pid c e}, ¬ Watched e → R.mayAbort pid (E.error e) c
  begun :
    ∀ {pid ks c c'}, R.rely pid ks c c' →
      begunAs pid c'.trace = begunAs pid c.trace
  stable_of_rely :
    ∀ {pid ks c c'}, R.rely pid ks c c' →
      stable ks (E.get c.db) (E.get c'.db)
  refl : ∀ ks s, stable ks s s
  trans :
    ∀ {ks s s' s''}, stable ks s s' → stable ks s' s'' →
      stable ks s s''
  mono :
    ∀ {ks ks' s s'}, (∀ k ∈ ks, k ∈ ks') →
      stable ks' s s' → stable ks s s'
  rows :
    ∀ {ks s s'}, stable ks s s' →
      RowsStable (fun k => E.key k ∈ ks) s s'

variable {R : Rules W σ' γ}
variable {E : Embedding accounts S' Accounts σ'}
variable {stable : List S'.Key → Accounts → Accounts → Prop}
variable {pid : ℕ} {log : List (Action S')}
variable {c c' : Config W σ' γ}

theorem AccountRules.ran
    (hRules : AccountRules R E stable)
    {ks : List S'.Key}
    {act : Action S'}
    (hRan : R.Ran pid ks act c c') :
    stable ks (E.get c.db) (E.get c'.db) := by
  rcases hRan.step with ⟨c₀, -, hRely, -, hDb, -⟩
  rw [hDb]
  exact hRules.stable_of_rely hRely

theorem AccountRules.rwp_fail
    (hRules : AccountRules R E stable)
    {β : Type}
    {post :
      β → List (Action S') → (σ' → σ') →
        Config W σ' γ → Prop}
    {w : σ' → σ'}
    {e : AccountError}
    (hError : ¬ Watched e) :
    ((Prog.fail e : AccountsM β).embed E).rwp R pid post
      log w c :=
  fun _ _ _ => hRules.mayAbort hError

/- The client has locked the row `u` of a user. -/
structure Locked
    (E : Embedding accounts S' Accounts σ')
    (ks : List S'.Key)
    (c : Config W σ' γ)
    (id : Uuid)
    (u : User) : Prop where
  key :
    E.key (.userUpdate id) ∈ ks ∨ E.key (.userShare id) ∈ ks
  row : userById id (E.get c.db) = some u

/- A locked row stays as it is. -/
theorem Locked.kept
    {ks ks' : List S'.Key}
    {id : Uuid}
    {u : User}
    (hLocked : Locked E ks c id u)
    (hRules : AccountRules R E stable)
    (hStable : stable ks (E.get c.db) (E.get c'.db))
    (hKeys : ∀ k ∈ ks, k ∈ ks') :
    Locked E ks' c' id u where
  key := hLocked.key.imp (hKeys _) (hKeys _)
  row := by
    rw [(hRules.rows hStable).user id hLocked.key]
    exact hLocked.row

end Outlines

end PigBook.Users

------------------------------------------------------------
-- Authorization
------------------------------------------------------------

namespace PigBook.Users

open ReadCommitted

section Authorization

variable {S' : Sig} {W : World S'} {σ' γ : Type}
variable {R : Rules W σ' γ}
variable {E : Embedding accounts S' Accounts σ'}
variable {stable : List S'.Key → Accounts → Accounts → Prop}
variable {pid : ℕ} {log : List (Action S')} {w : σ' → σ'}
variable {c : Config W σ' γ}

theorem checkCurrent_rwp
    (hRules : AccountRules R E stable)
    {policy : Policy}
    {row : Option User}
    {post :
      Authority → List (Action S') → (σ' → σ') →
        Config W σ' γ → Prop}
    (hPost :
      ∀ u, row = some u → u.enabled = true →
        u.role ∈ policy.allowed → post u.authority log w c) :
    ((checkCurrent policy row).embed E).rwp R pid post
      log w c := by
  cases row with
  | none => exact hRules.rwp_fail (by simp)
  | some u =>
      simp only [checkCurrent]
      split
      · exact hRules.rwp_fail (by simp)
      · rename_i hEnabled
        simp only [enforcePolicyRole, Prog.bind_eq,
          Prog.embed_bind, Prog.rwp_bind]
        split
        · rename_i hRole
          exact hPost u rfl (by simpa using hEnabled) hRole
        · exact hRules.rwp_fail (by simp)

/- The dependency leaves no transaction open. -/
theorem authorize_rwp
    (hRules : AccountRules R E stable)
    {policy : Policy}
    {userId : Uuid}
    {post :
      Unit → List (Action S') → (σ' → σ') →
        Config W σ' γ → Prop}
    (hPost : ∀ c', R.good c' → post () [] id c') :
    ((authorize policy userId).embed E).rwp R pid post
      log w c := by
  simp only [authorize, Prog.bind_eq, Prog.embed_bind,
    Prog.rwp_bind]
  apply Prog.rwp_embed_select (hRules.silent _)
  intro a c₁ hRan
  simp only [Prog.embed_undo, Prog.rwp_undo]
  intro c₂ hGood hRely
  apply checkCurrent_rwp hRules
  intro u hRow hEnabled hRole
  have hQuiet :=
    R.quiet (e := .rolledBack pid) trivial hGood
  exact hPost _ hQuiet.1

/- The revalidation locks the row that it accepts. -/
theorem assertCurrent_rwp
    (hRules : AccountRules R E stable)
    {policy : Policy}
    {userId : Uuid}
    {post :
      Authority → List (Action S') → (σ' → σ') →
        Config W σ' γ → Prop}
    (hPost :
      ∀ u act c', R.good c' →
        Locked E (held (log ++ [act])) c' userId u →
        u.enabled = true → u.role ∈ policy.allowed →
          post u.authority (log ++ [act]) id c') :
    ((assertCurrent policy userId).embed E).rwp R pid post
      log id c := by
  simp only [assertCurrent, Prog.bind_eq, Prog.embed_bind,
    Prog.rwp_bind]
  apply Prog.rwp_embed_select (hRules.silent _)
  intro a c₁ hRan
  apply checkCurrent_rwp hRules
  intro u hRow hEnabled hRole
  have hFound : userById userId (E.get c₁.db) = some u := hRow
  apply hPost u _ c₁ hRan.good _ hEnabled hRole
  exact {
    key := by
      right
      simp [userKeys, hFound]
    row := hFound
  }

end Authorization

end PigBook.Users

------------------------------------------------------------
-- The Guard of the Patch
------------------------------------------------------------

namespace PigBook.Users

open ReadCommitted

section Guard

variable {S' : Sig} {W : World S'} {σ' γ : Type}
variable {R : Rules W σ' γ}
variable {E : Embedding accounts S' Accounts σ'}
variable {stable : List S'.Key → Accounts → Accounts → Prop}
variable {pid : ℕ} {log : List (Action S')}
variable {c : Config W σ' γ} {lax : Json → Option Bool}

theorem resolveUserScope_rwp
    (hRules : AccountRules R E stable)
    {r : PatchRequest lax}
    {post :
      Unit → List (Action S') → (σ' → σ') →
        Config W σ' γ → Prop}
    (hPost : ∀ c', R.good c' → post () [] id c') :
    ((resolveUserScope r).embed E).rwp R pid post
      log id c := by
  simp only [resolveUserScope, Prog.bind_eq,
    Prog.embed_bind, Prog.rwp_bind]
  apply Prog.rwp_embed_select (hRules.silent _)
  intro a c₁ hRan
  simp only [Prog.embed_undo, Prog.rwp_undo]
  intro c₂ hGood hRely
  have hQuiet :=
    R.quiet (e := .rolledBack pid) trivial hGood
  split
  · exact hRules.rwp_fail (by simp)
  · split
    · exact hRules.rwp_fail (by simp)
    · exact hPost _ hQuiet.1

/- The rows that the patch has locked, as they are now. -/
structure LockedPair
    (E : Embedding accounts S' Accounts σ')
    (ks : List S'.Key)
    (c : Config W σ' γ)
    (actorId targetId : Uuid)
    (actor target : User) : Prop where
  actor : Locked E ks c actorId actor
  target : Locked E ks c targetId target
  key : E.key (.userUpdate targetId) ∈ ks

theorem LockedPair.kept
    {ks ks' : List S'.Key}
    {actorId targetId : Uuid}
    {actor target : User}
    {c' : Config W σ' γ}
    (hPair : LockedPair E ks c actorId targetId actor target)
    (hRules : AccountRules R E stable)
    (hStable : stable ks (E.get c.db) (E.get c'.db))
    (hKeys : ∀ k ∈ ks, k ∈ ks') :
    LockedPair E ks' c' actorId targetId actor target where
  actor := hPair.actor.kept hRules hStable hKeys
  target := hPair.target.kept hRules hStable hKeys
  key := hKeys _ hPair.key

/- A locking read that finds a row has locked it. -/
theorem Locked.of_update
    {id : Uuid}
    {u : User}
    (log : List (Action S'))
    {q : S'.Query}
    {a : S'.Answer q}
    (hFound : userById id (E.get c.db) = some u) :
    Locked E
      (held
        (log ++
          [⟨q, a,
            (userKeys .userUpdate id (E.get c.db)).map
              E.key⟩]))
      c id u where
  key := by
    left
    simp [userKeys, hFound]
  row := hFound

theorem Locked.of_share
    {id : Uuid}
    {u : User}
    {q : S'.Query}
    {a : S'.Answer q}
    (hFound : userById id (E.get c.db) = some u) :
    Locked E
      (held
        (log ++
          [⟨q, a,
            (userKeys .userShare id (E.get c.db)).map
              E.key⟩]))
      c id u where
  key := by
    right
    simp [userKeys, hFound]
  row := hFound

theorem mem_held_append
    {k : S'.Key}
    {act : Action S'}
    (hKey : k ∈ held log) :
    k ∈ held (log ++ [act]) := by
  rw [held_append]
  exact List.mem_append_left _ hKey

/-
  Whatever the order of the two locks, in the end both rows
  are as the patch has read them.
-/
theorem lockActorAndTarget_rwp
    (hRules : AccountRules R E stable)
    {actorId targetId : Uuid}
    {post :
      Option User × Option User → List (Action S') →
        (σ' → σ') → Config W σ' γ → Prop}
    (hPost :
      ∀ actor target acts c', R.good c' →
        stable (held log) (E.get c.db) (E.get c'.db) →
        (∀ a t, actor = some a → target = some t →
          LockedPair E (held (log ++ acts)) c' actorId
            targetId a t) →
          post (actor, target) (log ++ acts) id c') :
    ((lockActorAndTarget actorId targetId).embed E).rwp R
      pid post log id c := by
  unfold lockActorAndTarget
  split
  · rename_i hSame
    subst hSame
    simp only [Prog.bind_eq, Prog.embed_bind, Prog.rwp_bind]
    apply Prog.rwp_embed_select (hRules.silent _)
    intro a c₁ hRan
    apply hPost _ _ [_] c₁ hRan.good (hRules.ran hRan)
    intro u t hActor hTarget
    have hFound : userById actorId (E.get c₁.db) = some u :=
      hActor
    have hEq : u = t := by
      rw [hActor] at hTarget
      exact Option.some.inj hTarget
    subst hEq
    have hLocked := Locked.of_update log (q := _) (a := a)
      hFound
    exact {
      actor := hLocked
      target := hLocked
      key := by simp [userKeys, hFound]
    }
  · split
    · simp only [Prog.bind_eq, Prog.embed_bind,
        Prog.rwp_bind]
      apply Prog.rwp_embed_select (hRules.silent _)
      intro a c₁ hRan₁
      apply Prog.rwp_embed_select (hRules.silent _)
      intro b c₂ hRan₂
      rw [List.append_assoc]
      have hStable :=
        hRules.trans (hRules.ran hRan₁)
          (hRules.mono (fun k => mem_held_append)
            (hRules.ran hRan₂))
      apply hPost _ _ _ c₂ hRan₂.good hStable
      intro u t hActor hTarget
      have hActor : userById actorId (E.get c₁.db) = some u :=
        hActor
      have hTarget :
          userById targetId (E.get c₂.db) = some t := hTarget
      rw [← List.append_assoc]
      exact {
        actor :=
          (Locked.of_share hActor).kept hRules
            (hRules.ran hRan₂) (fun k => mem_held_append)
        target := Locked.of_update _ hTarget
        key := by simp [userKeys, hTarget]
      }
    · simp only [Prog.bind_eq, Prog.embed_bind,
        Prog.rwp_bind]
      apply Prog.rwp_embed_select (hRules.silent _)
      intro a c₁ hRan₁
      apply Prog.rwp_embed_select (hRules.silent _)
      intro b c₂ hRan₂
      rw [List.append_assoc]
      have hStable :=
        hRules.trans (hRules.ran hRan₁)
          (hRules.mono (fun k => mem_held_append)
            (hRules.ran hRan₂))
      apply hPost _ _ _ c₂ hRan₂.good hStable
      intro u t hActor hTarget
      have hActor : userById actorId (E.get c₂.db) = some u :=
        hActor
      have hTarget :
          userById targetId (E.get c₁.db) = some t := hTarget
      rw [← List.append_assoc]
      exact {
        actor := Locked.of_share hActor
        target :=
          (Locked.of_update _ hTarget).kept hRules
            (hRules.ran hRan₂) (fun k => mem_held_append)
        key := by
          apply mem_held_append
          simp [userKeys, hTarget]
      }

/-
  What the guard of the patch has established.  The count of
  the administrators was taken under the advisory lock, from
  some store that the present one follows.
-/
structure Checked
    (E : Embedding accounts S' Accounts σ')
    (stable : List S'.Key → Accounts → Accounts → Prop)
    (r : PatchRequest lax)
    (actor target : User)
    (ks : List S'.Key)
    (c : Config W σ' γ) : Prop where
  advisory : E.key (.advisory 714001) ∈ ks
  pair :
    LockedPair E ks c r.principalId r.objectId actor target
  enabled : actor.enabled = true
  admin : actor.role = .admin
  version : target.version = r.expectedVersion
  guard :
    target.isActiveAdmin = true →
      r.body.remainsAdmin = false →
        ∃ s₀, 1 < activeAdmins s₀ ∧
          stable [E.key (.advisory 714001)] s₀ (E.get c.db)

theorem Checked.kept
    {r : PatchRequest lax}
    {actor target : User}
    {ks ks' : List S'.Key}
    {c' : Config W σ' γ}
    (hChecked : Checked E stable r actor target ks c)
    (hRules : AccountRules R E stable)
    (hStable : stable ks (E.get c.db) (E.get c'.db))
    (hKeys : ∀ k ∈ ks, k ∈ ks') :
    Checked E stable r actor target ks' c' where
  advisory := hKeys _ hChecked.advisory
  pair := hChecked.pair.kept hRules hStable hKeys
  enabled := hChecked.enabled
  admin := hChecked.admin
  version := hChecked.version
  guard := by
    intro hActive hRemains
    rcases hChecked.guard hActive hRemains with
      ⟨s₀, hCount, hSince⟩
    refine ⟨s₀, hCount, hRules.trans hSince ?_⟩
    apply hRules.mono _ hStable
    intro k hKey
    rw [List.mem_singleton.mp hKey]
    exact hChecked.advisory

theorem Checked.ran
    {r : PatchRequest lax}
    {actor target : User}
    {act : Action S'}
    {c' : Config W σ' γ}
    (hChecked : Checked E stable r actor target (held log) c)
    (hRules : AccountRules R E stable)
    (hRan : R.Ran pid (held log) act c c') :
    Checked E stable r actor target (held (log ++ [act]))
      c' :=
  hChecked.kept hRules (hRules.ran hRan)
    (fun _ => mem_held_append)

/-
  What the guard has established when it refuses: at most one
  administrator was counted under the advisory lock, and the
  target is one whom the body does not keep.
-/
structure Refused
    (E : Embedding accounts S' Accounts σ')
    (stable : List S'.Key → Accounts → Accounts → Prop)
    (r : PatchRequest lax)
    (target : User)
    (c : Config W σ' γ) : Prop where
  row : userById r.objectId (E.get c.db) = some target
  version : target.version = r.expectedVersion
  active : target.isActiveAdmin = true
  overrun : r.body.remainsAdmin = false
  counted :
    ∃ s₀, activeAdmins s₀ ≤ 1 ∧
      stable [E.key (.advisory 714001)] s₀ (E.get c.db)

/- The error with which the guard refuses. -/
def lastAdminError : AccountError :=
  .lastAdmin
    "Cannot demote or disable the last active administrator"

/-
  The error of the guard ends a client that began as it did
  before, and that has established the refusal.
-/
def MayRefuse
    (R : Rules W σ' γ)
    (E : Embedding accounts S' Accounts σ')
    (stable : List S'.Key → Accounts → Accounts → Prop)
    (pid : ℕ)
    (r : PatchRequest lax)
    (begun : Option (Prog S' σ' γ)) : Prop :=
  ∀ (target : User) (c' : Config W σ' γ), R.good c' →
    begunAs pid c'.trace = begun →
      Refused E stable r target c' →
        R.mayAbort pid (E.error lastAdminError) c'

/- The rows and the count stay as they were counted. -/
theorem MayRefuse.rwp
    {r : PatchRequest lax}
    {begun : Option (Prog S' σ' γ)}
    {actor target : User}
    {act : Action S'}
    {β : Type}
    {w : σ' → σ'}
    {post :
      β → List (Action S') → (σ' → σ') →
        Config W σ' γ → Prop}
    (hRefuse : MayRefuse R E stable pid r begun)
    (hRules : AccountRules R E stable)
    (hBegun : begunAs pid c'.trace = begun)
    (hPair :
      LockedPair E (held log) c r.principalId r.objectId
        actor target)
    (hRan : R.Ran pid (held log) act c c')
    (hAdvisory : E.key (.advisory 714001) ∈ held log)
    (hVersion : target.version = r.expectedVersion)
    (hGuard :
      target.isActiveAdmin = true ∧
        r.body.remainsAdmin = false)
    (hFew : activeAdmins (E.get c'.db) ≤ 1) :
    ((Prog.fail lastAdminError : AccountsM β).embed E).rwp R
      pid post (log ++ [act]) w c' := by
  intro c'' hGood hRely
  have hStable := hRules.stable_of_rely hRely
  have hPair' :
      LockedPair E (held (log ++ [act])) c' r.principalId
        r.objectId actor target :=
    hPair.kept hRules (hRules.ran hRan)
      (fun k => mem_held_append)
  have hPair'' := hPair'.kept hRules hStable (fun _ h => h)
  refine
    hRefuse target c'' hGood ((hRules.begun hRely).trans hBegun)
      ?_
  exact {
    row := hPair''.target.row
    version := hVersion
    active := hGuard.1
    overrun := hGuard.2
    counted := by
      refine ⟨_, hFew, ?_⟩
      refine hRules.mono ?_ hStable
      intro k hKey
      rw [List.mem_singleton.mp hKey]
      exact mem_held_append hAdvisory
  }

theorem assertCurrentUserE28_rwp
    (hRules : AccountRules R E stable)
    {r : PatchRequest lax}
    (hRefuse :
      MayRefuse R E stable pid r (begunAs pid c.trace))
    {post :
      Authority × User → List (Action S') →
        (σ' → σ') → Config W σ' γ → Prop}
    (hPost :
      ∀ actor target acts c', R.good c' →
        Checked E stable r actor target
          (held (log ++ acts)) c' →
          post (actor.authority, target) (log ++ acts) id
            c') :
    ((assertCurrentUserE28 r).embed E).rwp R pid post
      log id c := by
  simp only [assertCurrentUserE28, Prog.bind_eq,
    Prog.embed_bind, Prog.rwp_bind]
  refine Prog.rwp_begun hRules.begun rfl ?_
  apply Prog.rwp_embed_select (hRules.silent _)
  intro a c₁ hRan₁ hBegun₁
  refine Prog.rwp_begun hRules.begun hBegun₁ ?_
  apply lockActorAndTarget_rwp hRules
  intro actor target acts c₂ hGood₂ hStable₂ hPair hBegun₂
  cases actor with
  | none => exact hRules.rwp_fail (by simp)
  | some actor =>
      dsimp only
      split
      · exact hRules.rwp_fail (by simp)
      · rename_i hAdmin
        push Not at hAdmin
        cases target with
        | none => exact hRules.rwp_fail (by simp)
        | some target =>
            have hPair := hPair actor target rfl rfl
            dsimp only
            split
            · exact hRules.rwp_fail (by simp)
            · rename_i hVersion
              push Not at hVersion
              have hAdvisory :
                  E.key (.advisory 714001) ∈
                    held
                      (log ++
                        [⟨E.query .plain, a,
                          [AccountKey.advisory 714001].map
                            E.key⟩] ++ acts) := by
                simp
              split
              · rename_i hGuard
                simp only [Prog.embed_bind, Prog.rwp_bind]
                refine Prog.rwp_begun hRules.begun hBegun₂ ?_
                apply
                  Prog.rwp_embed_select (hRules.silent _)
                intro b c₃ hRan₃ hBegun₃
                split
                · rename_i hFew
                  exact
                    hRefuse.rwp hRules hBegun₃ hPair hRan₃
                      hAdvisory hVersion hGuard hFew
                · rename_i hCount
                  push Not at hCount
                  rw [List.append_assoc, List.append_assoc]
                  apply hPost actor target _ c₃ hRan₃.good
                  rw [← List.append_assoc,
                    ← List.append_assoc]
                  exact {
                    advisory := mem_held_append hAdvisory
                    pair :=
                      hPair.kept hRules (hRules.ran hRan₃)
                        (fun k => mem_held_append)
                    enabled := by simpa using hAdmin.1
                    admin := hAdmin.2
                    version := hVersion
                    guard := fun _ _ =>
                      ⟨E.get c₃.db, hCount, hRules.refl _ _⟩
                  }
              · rename_i hGuard
                rw [List.append_assoc]
                apply hPost actor target _ c₂ hGood₂
                rw [← List.append_assoc]
                exact {
                  advisory := hAdvisory
                  pair := hPair
                  enabled := by simpa using hAdmin.1
                  admin := hAdmin.2
                  version := hVersion
                  guard := fun hActive hRemains =>
                    absurd ⟨hActive, hRemains⟩ hGuard
                }

end Guard

end PigBook.Users

------------------------------------------------------------
-- The Patch
------------------------------------------------------------

namespace PigBook

open ReadCommitted

variable {lax : Json → Option Bool}

/- The rows that a patch of `target` leaves. -/
def patched
    (r : PatchRequest lax)
    (target : User)
    (now : ℤ)
    (revoked : List Uuid)
    (record : AccountRecord)
    (s : Accounts) : Accounts where
  users :=
    updateWhere
      (fun u =>
        u.id = r.objectId ∧ u.version = r.expectedVersion)
      (r.data.apply target now) s.users
  tokens :=
    updateWhere (fun t => t.id ∈ revoked)
      (fun t => { t with revokedAt := some now }) s.tokens
  feedback := s.feedback
  audit := s.audit ++ [record]

/- The audit record of a patch. -/
def PatchRequest.record
    (r : PatchRequest lax)
    (target : User)
    (now : ℤ)
    (auditId reqId : Uuid) : AccountRecord where
  id := auditId
  actorId := some r.principalId
  action := "admin.user_update"
  targetType := "user"
  targetId := some r.objectId
  requestId := reqId
  details := r.data.details target
  createdAt := now

/- The patch turns an enabled target into a disabled one. -/
def PatchRequest.Disables
    (r : PatchRequest lax)
    (target : User) : Prop :=
  target.enabled = true ∧
    r.data.enabled.getD target.enabled = false

instance
    (r : PatchRequest lax)
    (target : User) : Decidable (r.Disables target) :=
  inferInstanceAs (Decidable (_ ∧ _))

end PigBook

namespace PigBook.Users

open ReadCommitted

section Patch

variable {S' : Sig} {W : World S'} {σ' γ : Type}
variable {R : Rules W σ' γ}
variable {E : Embedding accounts S' Accounts σ'}
variable {stable : List S'.Key → Accounts → Accounts → Prop}
variable {pid : ℕ} {log : List (Action S')}
variable {c : Config W σ' γ} {lax : Json → Option Bool}

/-
  A patch that only has to commit: its guard, its changes
  `w`, and which tokens these revoke.
-/
structure Patching
    (E : Embedding accounts S' Accounts σ')
    (stable : List S'.Key → Accounts → Accounts → Prop)
    (r : PatchRequest lax)
    (actor target : User)
    (ks : List S'.Key)
    (w : σ' → σ')
    (c : Config W σ' γ) : Prop where
  checked : Checked E stable r actor target ks c
  changes :
    ∃ now revoked auditId reqId,
      w = E.lift (patched r target now revoked
        (r.record target now auditId reqId)) ∧
      (r.Disables target →
        revoked =
          (unrevoked (fun t => t.userId = r.objectId)
            (E.get c.db)).map (·.id)) ∧
      (¬ r.Disables target → revoked = []) ∧
      ∀ id ∈ revoked, E.key (.tokenUpdate id) ∈ ks

/-
  The unrevoked tokens of a user locked for an update are
  the same ones, once their rows are locked.
-/
theorem LockedPair.unrevoked
    {ks : List S'.Key}
    {actorId targetId : Uuid}
    {actor target : User}
    {c' : Config W σ' γ}
    (hPair : LockedPair E ks c actorId targetId actor target)
    (hRules : AccountRules R E stable)
    (hStable : stable ks (E.get c.db) (E.get c'.db))
    (hLocked :
      ∀ id ∈ (PigBook.unrevoked
          (fun t => t.userId = targetId)
          (E.get c.db)).map (·.id),
        E.key (.tokenUpdate id) ∈ ks) :
    (PigBook.unrevoked (fun t => t.userId = targetId)
        (E.get c'.db)).map (·.id) =
      (PigBook.unrevoked (fun t => t.userId = targetId)
        (E.get c.db)).map (·.id) := by
  rw [unrevoked_user] at hLocked
  rw [unrevoked_user, unrevoked_user]
  apply
    unrevoked_kept
      ((hRules.rows hStable).tokens targetId hPair.key)
  intro t hMem hRevoked
  apply hLocked
  apply List.mem_map_of_mem (f := fun t : RefreshToken => t.id)
  exact List.mem_filter.mpr ⟨hMem, by simpa using hRevoked⟩

theorem Patching.kept
    {r : PatchRequest lax}
    {actor target : User}
    {ks ks' : List S'.Key}
    {w : σ' → σ'}
    {c' : Config W σ' γ}
    (hPatching : Patching E stable r actor target ks w c)
    (hRules : AccountRules R E stable)
    (hStable : stable ks (E.get c.db) (E.get c'.db))
    (hKeys : ∀ k ∈ ks, k ∈ ks') :
    Patching E stable r actor target ks' w c' where
  checked := hPatching.checked.kept hRules hStable hKeys
  changes := by
    rcases hPatching.changes with
      ⟨now, revoked, auditId, reqId, hW, hSome, hNone,
        hLocked⟩
    refine
      ⟨now, revoked, auditId, reqId, hW, ?_, hNone,
        fun id hMem => hKeys _ (hLocked id hMem)⟩
    intro hDisables
    have hRevoked := hSome hDisables
    rw [hPatching.checked.pair.unrevoked hRules hStable
      (hRevoked ▸ hLocked)]
    exact hRevoked

/- A record is appended to the changes made so far. -/
theorem appendAuditLog_rwp
    (hRules : AccountRules R E stable)
    {action targetType : String}
    {targetId actorId : Option Uuid}
    {requestId : Uuid}
    {details : AccountDetails}
    {now : ℤ}
    {w : Accounts → Accounts}
    {post :
      AccountRecord → List (Action S') → (σ' → σ') →
        Config W σ' γ → Prop}
    (hPost :
      ∀ auditId act₁ act₂ c₁ c₂,
        R.Ran pid (held log) act₁ c c₁ →
        R.Ran pid (held (log ++ [act₁])) act₂ c₁ c₂ →
        let record : AccountRecord := {
          id := auditId
          actorId := actorId
          action := action
          targetType := targetType
          targetId := targetId
          requestId := requestId
          details := details
          createdAt := now
        }
        post record (log ++ [act₁] ++ [act₂])
          (E.lift (fun s => Accounts.addRecord record (w s)))
          c₂) :
    ((appendAuditLog action targetType targetId actorId
      requestId details now).embed E).rwp R pid post log
        (E.lift w) c := by
  simp only [appendAuditLog, Prog.bind_eq, Prog.embed_bind,
    Prog.rwp_bind]
  apply Prog.rwp_embed_ask (hRules.silent _)
  intro a c₁ hRan₁
  apply Prog.rwp_embed_stmt (hRules.silent _)
  intro b c₂ hRan₂
  split
  · exact hRules.rwp_fail (by simp)
  · simp only [Prog.embed_done, Prog.rwp_done,
      Prog.pure_eq_done, E.comp_lift]
    exact hPost _ _ _ c₁ c₂ hRan₁ hRan₂

theorem requestIdOf_rwp
    (hRules : AccountRules R E stable)
    {requestId : Option Uuid}
    {w : σ' → σ'}
    {post :
      Uuid → List (Action S') → (σ' → σ') →
        Config W σ' γ → Prop}
    (hHere : ∀ id, post id log w c)
    (hThere :
      ∀ id act c', R.Ran pid (held log) act c c' →
        post id (log ++ [act]) w c') :
    ((requestIdOf requestId).embed E).rwp R pid post
      log w c := by
  cases requestId with
  | some id => exact hHere id
  | none =>
      apply Prog.rwp_embed_ask (hRules.silent _)
      intro a c₁ hRan
      exact hThere _ _ c₁ hRan

/- The changes of a patch before its audit record. -/
def unaudited
    (r : PatchRequest lax)
    (target : User)
    (now : ℤ)
    (revoked : List Uuid)
    (s : Accounts) : Accounts :=
  { s with
    users :=
      updateWhere
        (fun u =>
          u.id = r.objectId ∧ u.version = r.expectedVersion)
        (r.data.apply target now) s.users
    tokens :=
      updateWhere (fun t => t.id ∈ revoked)
        (fun t => { t with revokedAt := some now })
        s.tokens }

/- A patch that only has to be audited. -/
structure Unaudited
    (E : Embedding accounts S' Accounts σ')
    (stable : List S'.Key → Accounts → Accounts → Prop)
    (r : PatchRequest lax)
    (actor target : User)
    (revoked : List Uuid)
    (ks : List S'.Key)
    (c : Config W σ' γ) : Prop where
  checked : Checked E stable r actor target ks c
  disables :
    r.Disables target →
      revoked =
        (PigBook.unrevoked (fun t => t.userId = r.objectId)
          (E.get c.db)).map (·.id)
  keeps : ¬ r.Disables target → revoked = []
  locked : ∀ id ∈ revoked, E.key (.tokenUpdate id) ∈ ks

theorem Unaudited.kept
    {r : PatchRequest lax}
    {actor target : User}
    {revoked : List Uuid}
    {ks ks' : List S'.Key}
    {c' : Config W σ' γ}
    (hPatch : Unaudited E stable r actor target revoked ks c)
    (hRules : AccountRules R E stable)
    (hStable : stable ks (E.get c.db) (E.get c'.db))
    (hKeys : ∀ k ∈ ks, k ∈ ks') :
    Unaudited E stable r actor target revoked ks' c' where
  checked := hPatch.checked.kept hRules hStable hKeys
  disables := by
    intro hDisables
    have hRevoked := hPatch.disables hDisables
    rw [hPatch.checked.pair.unrevoked hRules hStable
      (hRevoked ▸ hPatch.locked)]
    exact hRevoked
  keeps := hPatch.keeps
  locked := fun id hMem => hKeys _ (hPatch.locked id hMem)

theorem Unaudited.ran
    {r : PatchRequest lax}
    {actor target : User}
    {revoked : List Uuid}
    {act : Action S'}
    {c' : Config W σ' γ}
    (hPatch :
      Unaudited E stable r actor target revoked (held log) c)
    (hRules : AccountRules R E stable)
    (hRan : R.Ran pid (held log) act c c') :
    Unaudited E stable r actor target revoked
      (held (log ++ [act])) c' :=
  hPatch.kept hRules (hRules.ran hRan)
    (fun _ => mem_held_append)

/- The last statements of a patch. -/
theorem auditPatch_rwp
    (hRules : AccountRules R E stable)
    {r : PatchRequest lax}
    {actor target : User}
    {now : ℤ}
    {revoked : List Uuid}
    {post :
      UserView → List (Action S') → (σ' → σ') →
        Config W σ' γ → Prop}
    (hPatch :
      Unaudited E stable r actor target revoked (held log) c)
    (hPost :
      ∀ acts w c', R.good c' →
        Patching E stable r actor target (held (log ++ acts))
          w c' →
          post (r.data.apply target now target).view
            (log ++ acts) w c') :
    ((auditPatch r target now).embed E).rwp R pid post log
      (E.lift (unaudited r target now revoked)) c := by
  -- the audit record, whatever came before it
  have hAudit :
      ∀ reqId acts c',
        Unaudited E stable r actor target revoked
          (held (log ++ acts)) c' →
        ((appendAuditLog "admin.user_update" "user"
            (some r.objectId) (some r.principalId) reqId
            (r.data.details target) now).embed E).rwp R pid
          (fun _ log w c =>
            post (r.data.apply target now target).view
              log w c)
          (log ++ acts)
          (E.lift (unaudited r target now revoked)) c' := by
    intro reqId acts c' hNow
    apply appendAuditLog_rwp hRules
    intro auditId act₁ act₂ c₁ c₂ hRan₁ hRan₂
    dsimp only
    have hNow₁ := hNow.ran hRules hRan₁
    have hNow₂ := hNow₁.ran hRules hRan₂
    rw [List.append_assoc, List.append_assoc]
    apply hPost _ _ c₂ hRan₂.good
    rw [← List.append_assoc, ← List.append_assoc]
    exact {
      checked := hNow₂.checked
      changes :=
        ⟨now, revoked, auditId, reqId, rfl, hNow₂.disables,
          hNow₂.keeps, hNow₂.locked⟩
    }
  simp only [auditPatch, Prog.bind_eq, Prog.pure_eq_done,
    Prog.embed_bind, Prog.rwp_bind, Prog.embed_done,
    Prog.rwp_done]
  apply requestIdOf_rwp hRules
  · intro id
    have hHere := hAudit id [] c (by simpa using hPatch)
    rw [List.append_nil] at hHere
    exact hHere
  · intro id act c' hRan
    apply hAudit id [act] c'
    exact hPatch.ran hRules hRan

/- The tokens that a patch revokes are those it sees. -/
theorem revokeOnDisable_rwp
    (hRules : AccountRules R E stable)
    {r : PatchRequest lax}
    {actor target : User}
    {now : ℤ}
    {post :
      Unit → List (Action S') → (σ' → σ') →
        Config W σ' γ → Prop}
    (hChecked : Checked E stable r actor target (held log) c)
    (hPost :
      ∀ acts revoked c',
        Unaudited E stable r actor target revoked
          (held (log ++ acts)) c' →
          post () (log ++ acts)
            (E.lift (unaudited r target now revoked)) c') :
    ((revokeOnDisable r target now).embed E).rwp R pid post
      log
      (E.lift
        (Accounts.setUsers
          (fun u =>
            u.id = r.objectId ∧
              u.version = r.expectedVersion)
          (r.data.apply target now)))
      c := by
  unfold revokeOnDisable
  split
  · rename_i hDisables
    simp only [Prog.bind_eq, Prog.embed_bind, Prog.rwp_bind]
    apply Prog.rwp_embed_stmt (hRules.silent _)
    intro a c' hRan
    simp only [E.get_lift] at hRan
    simp only [Prog.embed_done, Prog.rwp_done,
      Prog.pure_eq_done, E.comp_lift, E.get_lift]
    apply hPost [_] _ c'
    exact {
      checked := hChecked.ran hRules hRan
      disables := fun _ => rfl
      keeps := fun hNot => absurd hDisables hNot
      locked := by
        intro id hMem
        rcases List.mem_map.mp hMem with ⟨t, hToken, rfl⟩
        rw [held_append, held_singleton]
        apply List.mem_append_right
        apply List.mem_map_of_mem (f := E.key)
        exact
          List.mem_map_of_mem
            (f := fun t : RefreshToken =>
              AccountKey.tokenUpdate t.id) hToken
    }
  · rename_i hKeeps
    have hSame :
        Accounts.setUsers
            (fun u =>
              u.id = r.objectId ∧
                u.version = r.expectedVersion)
            (r.data.apply target now) =
          unaudited r target now [] := by
      funext s
      simp [Accounts.setUsers, unaudited,
        updateWhere_eq_self]
    simp only [Prog.embed_done, Prog.rwp_done]
    rw [hSame]
    have hPatch :
        Unaudited E stable r actor target [] (held log) c := {
      checked := hChecked
      disables := fun hDisables => absurd hDisables hKeeps
      keeps := fun _ => rfl
      locked := fun id hMem => by cases hMem
    }
    have hHere := hPost [] [] c (by simpa using hPatch)
    rw [List.append_nil] at hHere
    exact hHere

theorem updateUser_rwp
    (hRules : AccountRules R E stable)
    {r : PatchRequest lax}
    {actor target : User}
    {now : ℤ}
    {post :
      UserView → List (Action S') → (σ' → σ') →
        Config W σ' γ → Prop}
    (hChecked : Checked E stable r actor target (held log) c)
    (hPost :
      ∀ acts w c', R.good c' →
        Patching E stable r actor target (held (log ++ acts))
          w c' →
          post (r.data.apply target now target).view
            (log ++ acts) w c') :
    ((updateUser r target now).embed E).rwp R pid post
      log id c := by
  simp only [updateUser, Prog.bind_eq, Prog.embed_bind,
    Prog.rwp_bind]
  apply Prog.rwp_embed_select (hRules.silent _)
  intro a c₁ hRan₁
  have hChecked₁ := hChecked.ran hRules hRan₁
  have hLoaded :
      (userById target.id (E.get (id c₁.db))).map
          (fun _ => target) = none ∨
        (userById target.id (E.get (id c₁.db))).map
          (fun _ => target) = some target := by
    cases userById target.id (E.get (id c₁.db)) with
    | none => exact Or.inl rfl
    | some u => exact Or.inr rfl
  rcases hLoaded with hNone | hSome
  · rw [hNone]
    exact hRules.rwp_fail (by simp)
  · rw [hSome]
    dsimp only
    split
    · exact hRules.rwp_fail (by simp)
    · split
      · exact hRules.rwp_fail (by simp)
      · simp only [Prog.embed_bind, Prog.rwp_bind]
        apply Prog.rwp_embed_stmt (hRules.silent _)
        intro b c₂ hRan₂
        have hChecked₂ := hChecked₁.ran hRules hRan₂
        split
        · exact hRules.rwp_fail (by simp)
        · simp only [Prog.embed_done, Prog.rwp_done]
          split
          · exact hRules.rwp_fail (by simp)
          · simp only [Prog.embed_bind,
              Prog.rwp_bind]
            apply revokeOnDisable_rwp hRules hChecked₂
            intro acts revoked c₃ hPatch
            apply auditPatch_rwp hRules hPatch
            intro acts' w c₄ hGood hPatching
            rw [List.append_assoc, List.append_assoc,
              List.append_assoc] at hPatching ⊢
            exact hPost _ w c₄ hGood hPatching

/-
  What a patch has established when it comes to its commit.
-/
theorem updateUserEndpoint_rwp
    (hRules : AccountRules R E stable)
    {r : PatchRequest lax}
    (hRefuse :
      MayRefuse R E stable pid r (begunAs pid c.trace))
    {post :
      Authority × UserView → List (Action S') →
        (σ' → σ') → Config W σ' γ → Prop}
    (hPost :
      ∀ actor target view log w c',
        Patching E stable r actor target (held log) w c' →
          post (actor.authority, view) log w c') :
    ((updateUserEndpoint r).embed E).rwp R pid post
      log id c := by
  simp only [updateUserEndpoint, Prog.bind_eq,
    Prog.embed_bind, Prog.rwp_bind]
  refine Prog.rwp_begun hRules.begun rfl ?_
  apply authorize_rwp hRules
  intro c₁ hGood₁ hBegun₁
  refine Prog.rwp_begun hRules.begun hBegun₁ ?_
  apply resolveUserScope_rwp hRules
  intro c₂ hGood₂ hBegun₂
  refine Prog.rwp_begun hRules.begun hBegun₂ ?_
  apply Prog.rwp_embed_ask (hRules.silent _)
  intro now c₃ hRan₃ hBegun₃
  rw [← hBegun₃] at hRefuse
  apply assertCurrentUserE28_rwp hRules hRefuse
  intro actor target acts c₄ hGood₄ hChecked
  dsimp only
  simp only [Prog.pure_eq_done, Prog.embed_done,
    Prog.rwp_done]
  apply updateUser_rwp hRules hChecked
  intro acts' w c₅ hGood₅ hPatching
  exact hPost actor target _ _ w c₅ hPatching

end Patch

end PigBook.Users
