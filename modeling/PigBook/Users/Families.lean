import PigBook.Users.Login
import PigBook.Users.Patches

/-
  What the transactions on refresh tokens rely on, and what
  they have established when they come to their commits.

  Key definitions include:
    * `RefreshToken.Later`
    * `FamilyStable`
    * `FamilyRequest`, `FamilyReply`
    * `familyEvent`, `familyContract`

  Key theorems include:
    * `familyProgram_keeps`
-/

------------------------------------------------------------
-- Tokens over Time
------------------------------------------------------------

namespace PigBook

open ReadCommitted

/- The row `t'` is the row `t`, perhaps used or revoked. -/
structure RefreshToken.Later (t t' : RefreshToken) : Prop where
  same :
    t' =
      { t with usedAt := t'.usedAt, revokedAt := t'.revokedAt }
  used : t.usedAt.isSome → t'.usedAt.isSome
  revoked : t.revokedAt.isSome → t'.revokedAt.isSome

namespace RefreshToken.Later

variable {t t' t'' : RefreshToken}

theorem refl (t : RefreshToken) : t.Later t :=
  ⟨rfl, fun h => h, fun h => h⟩

theorem trans
    (hFirst : t.Later t')
    (hSecond : t'.Later t'') :
    t.Later t'' where
  same := by
    rw [hSecond.same, hFirst.same]
  used := fun h => hSecond.used (hFirst.used h)
  revoked := fun h => hSecond.revoked (hFirst.revoked h)

theorem id (hLater : t.Later t') : t'.id = t.id := by
  rw [hLater.same]

theorem userId (hLater : t.Later t') :
    t'.userId = t.userId := by
  rw [hLater.same]

theorem tokenHash (hLater : t.Later t') :
    t'.tokenHash = t.tokenHash := by
  rw [hLater.same]

theorem familyId (hLater : t.Later t') :
    t'.familyId = t.familyId := by
  rw [hLater.same]

theorem parentId (hLater : t.Later t') :
    t'.parentId = t.parentId := by
  rw [hLater.same]

theorem expiresAt (hLater : t.Later t') :
    t'.expiresAt = t.expiresAt := by
  rw [hLater.same]

theorem familyExpiresAt (hLater : t.Later t') :
    t'.familyExpiresAt = t.familyExpiresAt := by
  rw [hLater.same]

end RefreshToken.Later

/-
  What the holder of some keys sees others do to a token.
-/
structure Kept
    (holds : AccountKey → Prop)
    (t t' : RefreshToken) : Prop where
  later : t.Later t'
  locked : holds (.tokenUpdate t.id) → t' = t

/- A token that the holder of some keys may see appear. -/
structure Appears
    (X : Primitives)
    (holds : AccountKey → Prop)
    (t : RefreshToken) : Prop where
  id : ¬ holds (.refreshTokensPkey t.id)
  hash : ¬ holds (.refreshTokensTokenHash t.tokenHash)
  user : ¬ holds (.userUpdate t.userId)
  family :
    t.parentId.isSome →
      ¬ holds (.advisory (X.deriveFamilyAdvisoryKey t.familyId))

theorem Kept.refl
    {holds : AccountKey → Prop}
    (t : RefreshToken) :
    Kept holds t t :=
  ⟨.refl t, fun _ => rfl⟩

theorem Kept.trans
    {holds : AccountKey → Prop}
    {t t' t'' : RefreshToken}
    (hFirst : Kept holds t t')
    (hSecond : Kept holds t' t'') :
    Kept holds t t'' where
  later := hFirst.later.trans hSecond.later
  locked := by
    intro hKey
    have hSame := hFirst.locked hKey
    rw [hSecond.locked (by rw [hSame]; exact hKey), hSame]

theorem Appears.later
    {X : Primitives}
    {holds : AccountKey → Prop}
    {t t' : RefreshToken}
    (hLater : t.Later t')
    (hAppears : Appears X holds t) :
    Appears X holds t' where
  id := by
    rw [hLater.id]
    exact hAppears.id
  hash := by
    rw [hLater.tokenHash]
    exact hAppears.hash
  user := by
    rw [hLater.userId]
    exact hAppears.user
  family := by
    rw [hLater.parentId, hLater.familyId]
    exact hAppears.family

end PigBook

------------------------------------------------------------
-- Stability
------------------------------------------------------------

namespace PigBook

open ReadCommitted

/-
  What the holder of some keys may rely on: locked users stay
  as they are, no user goes, and the table of tokens grows.
-/
structure FamilyStable
    (X : Primitives)
    (holds : AccountKey → Prop)
    (s s' : Accounts) : Prop where
  user :
    ∀ id, holds (.userUpdate id) ∨ holds (.userShare id) →
      userById id s' = userById id s
  users :
    ∀ id, (userById id s).isSome → (userById id s').isSome
  tokens :
    Grows (Kept holds) (Appears X holds) s.tokens s'.tokens

namespace FamilyStable

variable {X : Primitives} {holds holds' : AccountKey → Prop}
variable {s s' s'' : Accounts} {t : RefreshToken}

theorem refl (s : Accounts) : FamilyStable X holds s s where
  user := fun _ _ => rfl
  users := fun _ hUser => hUser
  tokens := .refl Kept.refl s.tokens

theorem trans
    (hFirst : FamilyStable X holds s s')
    (hSecond : FamilyStable X holds s' s'') :
    FamilyStable X holds s s'' where
  user := by
    intro id hKey
    rw [hSecond.user id hKey, hFirst.user id hKey]
  users := fun id hUser =>
    hSecond.users id (hFirst.users id hUser)
  tokens :=
    hFirst.tokens.trans Kept.trans
      (fun hKept => Appears.later hKept.later) hSecond.tokens

theorem mono
    (hStable : FamilyStable X holds' s s')
    (hKeys : ∀ k, holds k → holds' k) :
    FamilyStable X holds s s' where
  user := fun id hKey =>
    hStable.user id (hKey.imp (hKeys _) (hKeys _))
  users := hStable.users
  tokens := by
    apply hStable.tokens.mono
    · intro t t' hKept
      exact ⟨hKept.later,
        fun hKey => hKept.locked (hKeys _ hKey)⟩
    · intro t hAppears
      exact {
        id := fun hKey => hAppears.id (hKeys _ hKey)
        hash := fun hKey => hAppears.hash (hKeys _ hKey)
        user := fun hKey => hAppears.user (hKeys _ hKey)
        family := fun hChild hKey =>
          hAppears.family hChild (hKeys _ hKey)
      }

theorem rows
    (hStable : FamilyStable X holds s s') :
    RowsStable holds s s' where
  user := hStable.user
  tokens := by
    intro id hKey
    have hKept :
        List.Forall₂ (Kept holds) (tokensOf id s)
          (tokensOf id s') := by
      apply hStable.tokens.filter
      · intro t t' hKept
        rw [hKept.later.userId]
      · intro t hAppears
        rw [decide_eq_false_iff_not]
        rintro rfl
        exact hAppears.user hKey
    apply hKept.imp
    intro t t' hKept
    exact ⟨hKept.later.id, hKept.locked, hKept.later.revoked⟩

/- A token stays, as itself or later on. -/
theorem later
    (hStable : FamilyStable X holds s s')
    (hMem : t ∈ s.tokens) :
    ∃ t' ∈ s'.tokens, t.Later t' := by
  rcases hStable.tokens.later hMem with ⟨t', hMem', hKept⟩
  exact ⟨t', hMem', hKept.later⟩

/- A locked token stays as it is. -/
theorem locked
    (hStable : FamilyStable X holds s s')
    (hMem : t ∈ s.tokens)
    (hKey : holds (.tokenUpdate t.id)) :
    t ∈ s'.tokens := by
  rcases hStable.tokens.later hMem with ⟨t', hMem', hKept⟩
  rw [← hKept.locked hKey]
  exact hMem'

end FamilyStable

/- The keys of the tables, and that tokens have owners. -/
structure FamilyValid (s : Accounts) : Prop where
  valid : s.Valid
  owners : ∀ t ∈ s.tokens, (userById t.userId s).isSome

theorem tokenByHash_mem
    {tokenHash : String}
    {s : Accounts}
    {t : RefreshToken}
    (hToken : tokenByHash tokenHash s = some t) :
    t ∈ s.tokens ∧ t.tokenHash = tokenHash :=
  ⟨List.mem_of_find?_eq_some hToken,
    by simpa using List.find?_some hToken⟩

theorem tokenByHash_none
    {tokenHash : String}
    {s : Accounts}
    (hToken : tokenByHash tokenHash s = none) :
    ∀ t ∈ s.tokens, t.tokenHash ≠ tokenHash := by
  intro t hMem
  simpa using List.find?_eq_none.mp hToken t hMem

/- What a hash selects is selected later on. -/
theorem FamilyStable.tokenByHash
    {X : Primitives}
    {holds : AccountKey → Prop}
    {s s' : Accounts}
    {tokenHash : String}
    {t t' : RefreshToken}
    (hStable : FamilyStable X holds s s')
    (hValid : s'.Valid)
    (hMem : t ∈ s.tokens)
    (hHash : t.tokenHash = tokenHash)
    (hFound : PigBook.tokenByHash tokenHash s' = some t') :
    t.Later t' := by
  rcases hStable.later hMem with ⟨t'', hMem'', hLater⟩
  rcases tokenByHash_mem hFound with ⟨hMem', hHash'⟩
  have hSame :=
    hValid.hashes.eq_of_key hMem'' hMem'
      (by rw [hLater.tokenHash, hHash, hHash'])
  rw [← hSame]
  exact hLater

end PigBook

------------------------------------------------------------
-- Clients and Their Outcomes
------------------------------------------------------------

namespace PigBook

open ReadCommitted

/- The requests that touch refresh tokens. -/
inductive FamilyRequest (lax : Json → Option Bool)
  | login (email password : String)
  | refresh (rawToken : String)
  | logout (rawToken : Option String)
  | patch (r : PatchRequest lax)

/- What they answer. -/
inductive FamilyReply (lax : Json → Option Bool)
  | loggedIn (result : TokenResult)
  | refreshed (rawToken : String) (result : TokenResult)
  | loggedOut (rawToken : Option String)
  | patched (reply : PatchReply lax)

variable {lax : Json → Option Bool}

/- The client that runs a request. -/
def FamilyRequest.program
    (X : Primitives)
    (settings : Settings) :
    FamilyRequest lax →
      Prog accounts Accounts (FamilyReply lax)
| login email password => do
    let result ← Users.loginEndpoint X settings email password
    return .loggedIn result
| refresh rawToken => do
    let result ← Users.refreshEndpoint X settings rawToken
    return .refreshed rawToken result
| logout rawToken => do
    Users.logoutEndpoint X rawToken
    return .loggedOut rawToken
| patch r => do
    let reply ← patchProgram r
    return .patched reply

/- The locking read of a rotation. -/
def isRotationLock : AccountQuery → Bool
| .rotationLock _ _ => true
| _ => false

/- The token that a rotation puts after `parent`. -/
def childToken
    (X : Primitives)
    (parent : RefreshToken)
    (childId : Uuid)
    (childRaw : String)
    (now : ℤ) : RefreshToken where
  id := childId
  userId := parent.userId
  tokenHash := X.sha256 childRaw
  familyId := parent.familyId
  parentId := some parent.id
  createdAt := now
  expiresAt := min (now + days 7) parent.familyExpiresAt
  familyExpiresAt := parent.familyExpiresAt
  usedAt := none
  revokedAt := none

/- The tokens after `parent` was used for `child`. -/
def rotated
    (parent child : RefreshToken)
    (now : ℤ)
    (tokens : List RefreshToken) : List RefreshToken :=
  updateWhere (fun t => t.id = parent.id)
      (fun t => { t with usedAt := some now }) tokens ++
    [child]

section Events

variable (X : Primitives) (db : Accounts)

abbrev FamilyEvent (lax : Json → Option Bool) :=
  Event accounts Accounts (FamilyReply lax)

/- A committed login adds the root of a family it has drawn. -/
def LoginOutcome
    (pid : ℕ)
    (older : List (FamilyEvent lax))
    (before after : Accounts) : Prop :=
  ∃ root, after = before.addToken root ∧
    (∃ userId tokenId familyId rawRefresh now,
      root = Users.rootToken X userId tokenId familyId
        rawRefresh now) ∧
    ∃ newer earlier,
      older =
        newer ++
          .ran pid ⟨.uuid, root.familyId, []⟩ :: earlier ∧
      ∀ e ∈ newer, e.pid = pid → ∃ act, e = .ran pid act

/-
  A committed rotation: the token that its locking read has
  found was good, and has now been used for one child.
-/
def RotationOutcome
    (pid : ℕ)
    (rawToken : String)
    (older : List (FamilyEvent lax))
    (before after : Accounts) : Prop :=
  ∃ parent now childId childRaw ks earlier,
    lastRan pid isRotationLock older =
      some (⟨.rotationLock (X.sha256 rawToken) now, (), ks⟩,
        earlier) ∧
    tokenByHash (X.sha256 rawToken) (latest db earlier) =
      some parent ∧
    parent ∈ before.tokens ∧
    parent.usedAt = none ∧
    parent.revokedAt = none ∧
    now < parent.expiresAt ∧
    now < parent.familyExpiresAt ∧
    after.users = before.users ∧
    after.tokens =
      rotated parent
        (childToken X parent childId childRaw now) now
        before.tokens

/-
  A committed revocation of a family.  It revokes the tokens
  that were unrevoked at some moment before, and since then
  no child has joined the family.
-/
def FamilyRevocation
    (familyId : Uuid)
    (older : List (FamilyEvent lax))
    (before after : Accounts) : Prop :=
  ∃ now earlier, earlier <:+ older ∧
    (∃ t ∈ (latest db earlier).tokens,
      t.familyId = familyId) ∧
    (∀ t ∈ before.tokens, t.familyId = familyId →
      t.parentId.isSome →
        ∃ t₀ ∈ (latest db earlier).tokens, t₀.id = t.id) ∧
    after.users = before.users ∧
    after.tokens =
      revokeIds
        ((unrevoked (fun t => t.familyId = familyId)
          (latest db earlier)).map (·.id))
        now before.tokens

/- A committed logout: unless it found nothing, it revokes. -/
def LogoutOutcome
    (rawToken : Option String)
    (older : List (FamilyEvent lax))
    (before after : Accounts) : Prop :=
  after = before ∨
    ∃ raw familyId, rawToken = some raw ∧
      (∃ t ∈ before.tokens, t.tokenHash = X.sha256 raw ∧
        t.familyId = familyId) ∧
      FamilyRevocation db familyId older before after

/-
  What comes before the answer 401 to a rotation that has
  found its token used, but neither revoked nor expired: a
  commit that revokes the family.
-/
def ReuseAnswered
    (pid : ℕ)
    (older : List (FamilyEvent lax)) : Prop :=
  ∀ tokenHash now ks earlier t,
    lastRan pid isRotationLock older =
      some (⟨.rotationLock tokenHash now, (), ks⟩, earlier) →
    tokenByHash tokenHash (latest db earlier) = some t →
    t.usedAt.isSome → t.revokedAt = none →
    now < t.expiresAt → now < t.familyExpiresAt →
      ∃ newer log before after middle,
        older =
          newer ++
            .committed pid log before after none :: middle ∧
        earlier <:+ middle ∧
        FamilyRevocation db t.familyId middle before after

/- What an event of a run of these requests is worth. -/
def familyEvent
    (older : List (FamilyEvent lax)) :
    FamilyEvent lax → Prop
| .committed pid _ before after answer =>
    FamilyValid after ∧
    match answer with
    | some (.loggedIn _) =>
        LoginOutcome X pid older before after
    | some (.refreshed rawToken _) =>
        RotationOutcome X db pid rawToken older before after
    | some (.loggedOut rawToken) =>
        LogoutOutcome X db rawToken older before after
    | some (.patched reply) =>
        PatchOutcome reply.request reply.authority before
          after
    | none =>
        ∃ familyId,
          FamilyRevocation db familyId older before after
| .aborted pid (.invalidRefresh _) => ReuseAnswered db pid older
| _ => True

end Events

end PigBook

------------------------------------------------------------
-- The Contract
------------------------------------------------------------

namespace PigBook

open ReadCommitted

section Contract

variable {lax : Json → Option Bool}
variable {W : World accounts}

def familyContract
    (W : World accounts)
    (X : Primitives)
    (lax : Json → Option Bool)
    (db : Accounts) :
    Contract W Accounts (FamilyReply lax) where
  start := db
  later := fun _ _ => True
  valid := fun s _ => FamilyValid s
  stable := fun ks => FamilyStable X (· ∈ ks)
  outcome := familyEvent X db
  later_refl := fun _ => trivial
  later_trans := fun _ _ => trivial
  later_answers := fun _ => trivial
  later_advance := fun _ => trivial
  valid_later := fun _ hValid => hValid
  stable_refl := fun _ s => .refl s
  stable_trans := FamilyStable.trans
  outcome_quiet := by
    intro older e hQuiet
    cases e with
    | spawned pid p => trivial
    | ran pid act => cases hQuiet
    | committed pid log before after answer => cases hQuiet
    | rolledBack pid => trivial
    | aborted pid error => cases hQuiet
    | crashed pid => trivial

variable {X : Primitives} {db : Accounts}

theorem familyContract_rules
    (W : World accounts)
    (X : Primitives)
    (lax : Json → Option Bool)
    (db : Accounts) :
    Users.AccountRules (familyContract W X lax db).rules
      Embedding.refl (familyContract W X lax db).stable where
  silent := fun q => Contract.silent (fun _ _ _ _ => trivial)
  mayAbort := by
    intro pid c e hError
    change familyEvent X db c.trace (.aborted pid e)
    cases e with
    | invalidRefresh message => exact absurd trivial hError
    | _ => trivial
  begun := begunAs_rely
  stable_of_rely := fun hRely => hRely.stable
  refl := (familyContract W X lax db).stable_refl
  trans := (familyContract W X lax db).stable_trans
  mono := fun hKeys hStable => hStable.mono hKeys
  rows := fun hStable => hStable.rows

end Contract

end PigBook

------------------------------------------------------------
-- Commits
------------------------------------------------------------

namespace PigBook

open ReadCommitted
open Users

section Changes

variable {X : Primitives} {holds : AccountKey → Prop}
variable {s s' : Accounts} {t parent child : RefreshToken}
variable {ids : List Uuid} {now : ℤ}

/- A change of tokens only. -/
theorem FamilyStable.of_tokens
    (hUsers : s'.users = s.users)
    (hTokens :
      Grows (Kept holds) (Appears X holds) s.tokens
        s'.tokens) :
    FamilyStable X holds s s' where
  user := by
    intro id hKey
    unfold userById
    rw [hUsers]
  users := by
    intro id hUser
    unfold userById at hUser ⊢
    rw [hUsers]
    exact hUser
  tokens := hTokens

theorem grows_addToken
    (hAppears : Appears X holds t) :
    Grows (Kept holds) (Appears X holds) s.tokens
      (s.addToken t).tokens := by
  apply Grows.of_forall₂
  · exact List.forall₂_same.mpr (fun t _ => .refl t)
  · intro x hMem
    rw [List.mem_singleton.mp hMem]
    exact hAppears

theorem grows_rotated
    (hLock : ¬ holds (.tokenUpdate parent.id))
    (hAppears : Appears X holds child) :
    Grows (Kept holds) (Appears X holds) s.tokens
      (rotated parent child now s.tokens) := by
  apply Grows.of_updateWhere Kept.refl
  · intro x hMem hSelected
    simp only [decide_eq_true_eq] at hSelected
    constructor
    · exact ⟨rfl, fun _ => rfl, fun h => h⟩
    · intro hKey
      rw [hSelected] at hKey
      exact absurd hKey hLock
  · intro x hMem
    rw [List.mem_singleton.mp hMem]
    exact hAppears

theorem grows_revokeIds
    (hLocks : ∀ id ∈ ids, ¬ holds (.tokenUpdate id)) :
    Grows (Kept holds) (Appears X holds) s.tokens
      (revokeIds ids now s.tokens) := by
  rw [← List.append_nil (revokeIds ids now s.tokens)]
  apply Grows.of_updateWhere Kept.refl
  · intro x hMem hSelected
    simp only [decide_eq_true_eq] at hSelected
    constructor
    · exact ⟨rfl, fun h => h, fun _ => rfl⟩
    · intro hKey
      exact absurd hKey (hLocks x.id hSelected)
  · intro x hMem
    cases hMem

/- The insertion that the constraints admit is fresh. -/
theorem tokenViolation_none
    (hFree : tokenViolation s t = none) :
    (∀ t' ∈ s.tokens, t'.id ≠ t.id) ∧
      ∀ t' ∈ s.tokens, t'.tokenHash ≠ t.tokenHash := by
  unfold tokenViolation at hFree
  split at hFree
  · cases hFree
  · split at hFree
    · cases hFree
    · rename_i hId
      split at hFree
      · cases hFree
      · rename_i hHash
        push Not at hId hHash
        exact ⟨hId, hHash⟩

/- It stays fresh while its keys are held. -/
theorem FamilyStable.fresh
    (hStable : FamilyStable X holds s s')
    (hKeys : ∀ k ∈ tokenKeys t, holds k)
    (hFree :
      (∀ t' ∈ s.tokens, t'.id ≠ t.id) ∧
        ∀ t' ∈ s.tokens, t'.tokenHash ≠ t.tokenHash) :
    (∀ t' ∈ s'.tokens, t'.id ≠ t.id) ∧
      ∀ t' ∈ s'.tokens, t'.tokenHash ≠ t.tokenHash := by
  constructor
  · intro t' hMem hSame
    rcases hStable.tokens.origin hMem with
      ⟨t₀, hMem₀, hKept⟩ | hAppears
    · apply hFree.1 t₀ hMem₀
      rw [← hKept.later.id, hSame]
    · apply hAppears.id
      rw [hSame]
      exact hKeys _ (by simp [tokenKeys])
  · intro t' hMem hSame
    rcases hStable.tokens.origin hMem with
      ⟨t₀, hMem₀, hKept⟩ | hAppears
    · apply hFree.2 t₀ hMem₀
      rw [← hKept.later.tokenHash, hSame]
    · apply hAppears.hash
      rw [hSame]
      exact hKeys _ (by simp [tokenKeys])

/- Whoever inserts a token shuts its keys out. -/
theorem Appears.of_keys
    {ks ks' : List AccountKey}
    (hCompat :
      Compatible (S := accounts) ks ks')
    (hKeys : ∀ k ∈ tokenKeys t, k ∈ ks)
    (hUser : .userShare t.userId ∈ ks)
    (hFamily :
      t.parentId.isSome →
        .advisory (X.deriveFamilyAdvisoryKey t.familyId) ∈
          ks) :
    Appears X (· ∈ ks') t where
  id := fun hKey =>
    hCompat (.refreshTokensPkey t.id)
      (hKeys _ (by simp [tokenKeys])) _ hKey rfl
  hash := fun hKey =>
    hCompat (.refreshTokensTokenHash t.tokenHash)
      (hKeys _ (by simp [tokenKeys])) _ hKey rfl
  user := fun hKey => hCompat _ hUser _ hKey rfl
  family := fun hChild hKey =>
    hCompat _ (hFamily hChild) _ hKey rfl

namespace FamilyValid

theorem addToken
    (hValid : FamilyValid s)
    (hFree :
      (∀ t' ∈ s.tokens, t'.id ≠ t.id) ∧
        ∀ t' ∈ s.tokens, t'.tokenHash ≠ t.tokenHash)
    (hOwner : (userById t.userId s).isSome) :
    FamilyValid (s.addToken t) where
  valid := {
    users := hValid.valid.users
    tokens := hValid.valid.tokens.append_singleton hFree.1
    hashes := hValid.valid.hashes.append_singleton hFree.2
  }
  owners := by
    intro t' hMem
    rcases List.mem_append.mp hMem with hOld | hNew
    · exact hValid.owners t' hOld
    · rw [List.mem_singleton.mp hNew]
      exact hOwner

/- Updates of tokens that keep their keys and owners. -/
theorem of_updateWhere
    {p : RefreshToken → Bool}
    {f : RefreshToken → RefreshToken}
    (hValid : FamilyValid s)
    (hSame :
      ∀ t, (f t).id = t.id ∧ (f t).tokenHash = t.tokenHash ∧
        (f t).userId = t.userId)
    (hUsers : s'.users = s.users)
    (hTokens : s'.tokens = updateWhere p f s.tokens) :
    FamilyValid s' where
  valid := {
    users := by
      rw [hUsers]
      exact hValid.valid.users
    tokens := by
      rw [hTokens]
      exact
        hValid.valid.tokens.updateWhere
          (fun t _ _ => (hSame t).1)
    hashes := by
      rw [hTokens]
      exact
        hValid.valid.hashes.updateWhere
          (fun t _ _ => (hSame t).2.1)
  }
  owners := by
    intro t hMem
    rw [hTokens] at hMem
    unfold userById
    rw [hUsers]
    rcases mem_updateWhere.mp hMem with
      ⟨t₀, hMem₀, -, rfl⟩ | ⟨hOld, -⟩
    · rw [(hSame t₀).2.2]
      exact hValid.owners t₀ hMem₀
    · exact hValid.owners t hOld

end FamilyValid

end Changes

end PigBook

------------------------------------------------------------
-- Logins
------------------------------------------------------------

namespace PigBook

open ReadCommitted
open Users

section Keeps

variable {lax : Json → Option Bool}
variable {W : World accounts}
variable {X : Primitives} {settings : Settings}
variable {db : Accounts}

/- A draw of the login is its own, and before its commit. -/
theorem Users.LoggingIn.drawn_before
    {pid : ℕ}
    {password : String}
    {user : User}
    {root : RefreshToken}
    {log : List (Action accounts)}
    {ks : List AccountKey}
    {c c' : Config W Accounts (FamilyReply lax)}
    (hLogin :
      LoggingIn (familyContract W X lax db).rules pid X
        password user root log c)
    (hRely : (familyContract W X lax db).Rely pid ks c c') :
    ∃ newer earlier,
      c'.trace =
        newer ++
          .ran pid ⟨.uuid, root.familyId, []⟩ :: earlier ∧
      ∀ e ∈ newer, e.pid = pid → ∃ act, e = .ran pid act := by
  rcases hLogin.drawn with ⟨ks', c₁, log₂, c₂, hRan, hCourse⟩
  rcases Contract.ran_history hRan with ⟨others, hTrace₂, -⟩
  rcases hCourse.history with ⟨newer, hTrace, hOwn⟩
  rcases hRely.events with ⟨last, hLast, hOthers⟩
  refine ⟨last ++ newer, others ++ c₁.trace, ?_, ?_⟩
  · rw [hLast, hTrace, hTrace₂, List.append_assoc]
  · intro e hMem hPid
    rcases List.mem_append.mp hMem with hHere | hBefore
    · exact absurd hPid (hOthers e hHere).1
    · rcases hOwn e hBefore hPid with ⟨act, -, hEq⟩
      exact ⟨act, hEq⟩

theorem login_keeps
    (email password : String) :
    (familyContract W X lax db).rules.Keeps
      ((FamilyRequest.login email password).program X
        settings) := by
  intro pid c hGood
  simp only [FamilyRequest.program, Prog.bind_eq,
    Prog.rwp_bind, Prog.pure_eq_done, Prog.rwp_done]
  apply loginEndpoint_rwp (familyContract_rules W X lax db)
  intro user root result log c₁ hGood₁ hLogin hHash c₂ hGood₂
    hRely
  have hStable : FamilyStable X (· ∈ held log) c₁.db c₂.db :=
    hRely.stable
  have hValid : FamilyValid c₂.db := hGood₂.valid
  have hFree :=
    hStable.fresh hLogin.keys
      (tokenViolation_none hLogin.free)
  have hOwner : root.userId = user.id := by
    rcases hLogin.shape with
      ⟨tokenId, familyId, rawRefresh, now, rfl⟩
    rfl
  have hAfter : FamilyValid (c₂.db.addToken root) := by
    apply hValid.addToken hFree
    rw [hOwner]
    exact hStable.users user.id hLogin.row
  apply Contract.commits hGood₂ hAfter
  · refine ⟨hAfter, root, rfl, ?_,
      hLogin.drawn_before hRely⟩
    rcases hLogin.shape with
      ⟨tokenId, familyId, rawRefresh, now, hShape⟩
    exact
      ⟨user.id, tokenId, familyId, rawRefresh, now, hShape⟩
  · intro ks' hCompat
    have hUsers : (c₂.db.addToken root).users = c₂.db.users :=
      rfl
    apply FamilyStable.of_tokens hUsers
    apply grows_addToken
    apply Appears.of_keys hCompat hLogin.keys
    · rw [hOwner]
      exact hLogin.key
    · intro hChild
      rcases hLogin.shape with
        ⟨tokenId, familyId, rawRefresh, now, rfl⟩
      cases hChild

/- The owners of tokens survive a change of users. -/
theorem patched_owners
    {r : PatchRequest lax}
    {target : User}
    {now : ℤ}
    {revoked : List Uuid}
    {record : AccountRecord}
    {s : Accounts}
    {id : Uuid}
    (hTarget : userById r.objectId s = some target)
    (hVersion : target.version = r.expectedVersion)
    (hUser : (userById id s).isSome) :
    (userById id
      (patched r target now revoked record s)).isSome := by
  by_cases hSame : id = r.objectId
  · rw [hSame, userById_patched_target hTarget hVersion]
    rfl
  · rw [userById_patched_of_ne hSame]
    exact hUser

theorem patch_keeps
    (r : PatchRequest lax) :
    (familyContract W X lax db).rules.Keeps
      ((FamilyRequest.patch r).program X settings) := by
  intro pid c hGood
  have hRules :=
    familyContract_rules W X lax db
  simp only [FamilyRequest.program, Prog.bind_eq,
    Prog.rwp_bind, Prog.pure_eq_done, Prog.rwp_done]
  apply patchProgram_rwp hRules (fun _ _ _ _ _ => trivial)
  intro actor target view log w c₁ hPatching c₂ hGood₂ hRely
  have hNow :=
    hPatching.kept hRules hRely.stable (fun _ hKey => hKey)
  have hValid : FamilyValid c₂.db := hGood₂.valid
  have hTarget := hNow.checked.pair.target.row
  change userById r.objectId c₂.db = some target at hTarget
  have hVersion := hNow.checked.version
  have hOutcome := hNow.outcome
  rcases hNow.changes with
    ⟨now, revoked, auditId, reqId, rfl, -, -, hLocked⟩
  have hAfter :
      FamilyValid
        (patched r target now revoked
          (r.record target now auditId reqId) c₂.db) := {
    valid := patched_valid hValid.valid
    owners := by
      intro t hMem
      apply patched_owners hTarget hVersion
      rcases mem_revokeIds.mp hMem with
        ⟨t₀, hMem₀, -, rfl⟩ | ⟨hOld, -⟩
      · exact hValid.owners t₀ hMem₀
      · exact hValid.owners t hOld
  }
  apply Contract.commits hGood₂ hAfter
  · exact ⟨hAfter, hOutcome⟩
  · intro ks' hCompat
    have hKey := hNow.checked.pair.key
    exact {
      user := by
        intro id hHeld
        apply userById_patched_of_ne
        rintro rfl
        rcases hHeld with hUpdate | hShare
        · exact hCompat _ hKey _ hUpdate rfl
        · exact hCompat _ hKey _ hShare rfl
      users := fun id hUser =>
        patched_owners hTarget hVersion hUser
      tokens := by
        apply grows_revokeIds
        intro id hMem hHeld
        exact hCompat _ (hLocked id hMem) _ hHeld rfl
    }

end Keeps

end PigBook

------------------------------------------------------------
-- Revocations
------------------------------------------------------------

namespace PigBook

open ReadCommitted
open Users

/- A statement that is not the locking read of a rotation. -/
def AfterLock (act : Action accounts) : Prop :=
  isRotationLock act.query = false

section Keeps

variable {lax : Json → Option Bool}
variable {W : World accounts}
variable {X : Primitives} {settings : Settings}
variable {db : Accounts} {pid : ℕ}
variable {log log' : List (Action accounts)}
variable {c c' : Config W Accounts (FamilyReply lax)}

/- A course keeps what its first keys guard. -/
theorem FamilyStable.of_course
    {P : Action accounts → Prop}
    (hCourse :
      (familyContract W X lax db).rules.Course pid P log c
        log' c') :
    FamilyStable X (· ∈ held log) c.db c'.db :=
  (familyContract_rules W X lax db).course hCourse

/-
  A revocation that only has to commit: the family is locked,
  `ids` are the tokens that the statement has revoked, and no
  child has joined the family since.
-/
structure Revoking
    (X : Primitives)
    (db : Accounts)
    (tokenHash : String)
    (familyId : Uuid)
    (ids : List Uuid)
    (log : List (Action accounts))
    (c : Config W Accounts (FamilyReply lax)) : Prop where
  advisory :
    .advisory (X.deriveFamilyAdvisoryKey familyId) ∈ held log
  locks : ∀ id ∈ ids, .tokenUpdate id ∈ held log
  presented :
    ∃ t ∈ c.db.tokens, t.tokenHash = tokenHash ∧
      t.familyId = familyId
  since :
    ∃ earlier, earlier <:+ c.trace ∧
      (∃ t ∈ (latest db earlier).tokens,
        t.familyId = familyId) ∧
      (∀ t ∈ c.db.tokens, t.familyId = familyId →
        t.parentId.isSome →
          ∃ t₀ ∈ (latest db earlier).tokens, t₀.id = t.id) ∧
      ids =
        (unrevoked (fun t => t.familyId = familyId)
          (latest db earlier)).map (·.id)

theorem Revoking.kept
    {tokenHash : String}
    {familyId : Uuid}
    {ids : List Uuid}
    (hRevoking : Revoking X db tokenHash familyId ids log c)
    (hStable : FamilyStable X (· ∈ held log) c.db c'.db)
    (hKeys : ∀ k ∈ held log, k ∈ held log')
    (hSuffix : c.trace <:+ c'.trace) :
    Revoking X db tokenHash familyId ids log' c' where
  advisory := hKeys _ hRevoking.advisory
  locks := fun id hMem => hKeys _ (hRevoking.locks id hMem)
  presented := by
    rcases hRevoking.presented with
      ⟨t, hMem, hHash, hFamily⟩
    rcases hStable.later hMem with ⟨t', hMem', hLater⟩
    exact ⟨t', hMem', by rw [hLater.tokenHash, hHash],
      by rw [hLater.familyId, hFamily]⟩
  since := by
    rcases hRevoking.since with
      ⟨earlier, hEarlier, hSome, hJoined, hIds⟩
    refine
      ⟨earlier, hEarlier.trans hSuffix, hSome, ?_, hIds⟩
    intro t' hMem' hFamily hChild
    rcases hStable.tokens.origin hMem' with
      ⟨t, hMem, hKept⟩ | hAppears
    · rcases
        hJoined t hMem
          (by rw [← hKept.later.familyId]; exact hFamily)
          (by rw [← hKept.later.parentId]; exact hChild) with
        ⟨t₀, hMem₀, hId⟩
      exact ⟨t₀, hMem₀, by rw [hId, hKept.later.id]⟩
    · apply absurd hRevoking.advisory
      rw [← hFamily]
      exact hAppears.family hChild

theorem revokeFamily_rwp
    {rawToken : String}
    {now : ℤ}
    {post :
      Unit → List (Action accounts) →
        (Accounts → Accounts) →
          Config W Accounts (FamilyReply lax) → Prop}
    (hNothing :
      (∀ t ∈ c.db.tokens, t.tokenHash ≠ X.sha256 rawToken) →
        ∀ log' c',
          (familyContract W X lax db).rules.Course pid
            AfterLock log c log' c' →
          post () log' id c')
    (hRevoked :
      ∀ familyId ids log' c',
        (familyContract W X lax db).rules.Course pid
          AfterLock log c log' c' →
        Revoking X db (X.sha256 rawToken) familyId ids log'
          c' →
        post () log'
          (Accounts.setTokens (fun t => t.id ∈ ids)
            (fun t => { t with revokedAt := some now })) c') :
    (revokeFamily X rawToken now).rwp
      (familyContract W X lax db).rules pid post log id c := by
  have hRules :=
    familyContract_rules W X lax db
  simp only [revokeFamily, resolveToken,
    Prog.bind_eq, Prog.rwp_bind]
  apply
    Prog.rwp_select_of_silent (hRules.silent_refl .plain)
  intro a₁ c₁ hRan₁
  have hCourse₁ :=
    Rules.Course.single _ (P := AfterLock) hRan₁ rfl
  dsimp only [id]
  cases hFound : tokenByHash (X.sha256 rawToken) c₁.db with
  | none =>
      apply hNothing _ _ c₁ hCourse₁
      intro t hMem hHash
      rcases (FamilyStable.of_course hCourse₁).later hMem with
        ⟨t', hMem', hLater⟩
      apply tokenByHash_none hFound t' hMem'
      rw [hLater.tokenHash, hHash]
  | some t₁ =>
      rcases tokenByHash_mem hFound with ⟨hMem₁, hHash₁⟩
      dsimp only [Option.map]
      simp only [selectUserForShare, Prog.rwp_bind]
      apply
        Prog.rwp_select_of_silent (hRules.silent_refl .plain)
      intro a₂ c₂ hRan₂
      have hCourse₂ := hCourse₁.step hRan₂ rfl
      have hStable₂ :=
        FamilyStable.of_course
          (Rules.Course.single _ (P := AfterLock) hRan₂ rfl)
      dsimp only [id]
      cases hUser : userById t₁.userId c₂.db with
      | none =>
          -- a token has an owner, and keeps it
          have hValid₂ : FamilyValid c₂.db := hRan₂.good.valid
          rcases hStable₂.later hMem₁ with
            ⟨t₂, hMem₂, hLater⟩
          have hOwner := hValid₂.owners t₂ hMem₂
          rw [hLater.userId, hUser] at hOwner
          cases hOwner
      | some user =>
          simp only [advisoryXactLock, Prog.rwp_bind]
          apply
            Prog.rwp_select_of_silent
              (hRules.silent_refl .plain)
          intro a₃ c₃ hRan₃
          have hCourse₃ := hCourse₂.step hRan₃ rfl
          simp only [selectTokenForUpdate]
          apply
            Prog.rwp_select_of_silent
              (hRules.silent_refl .plain)
          intro a₄ c₄ hRan₄
          have hCourse₄ := hCourse₃.step hRan₄ rfl
          have hValid₄ : FamilyValid c₄.db := hRan₄.good.valid
          have hTail :=
            (Rules.Course.single _ (P := AfterLock) hRan₂
              rfl).step hRan₃ rfl |>.step hRan₄ rfl
          have hStable₄ := FamilyStable.of_course hTail
          dsimp only [id]
          cases hToken :
              tokenByHash (X.sha256 rawToken) c₄.db with
          | none =>
              rcases hStable₄.later hMem₁ with
                ⟨t₄, hMem₄, hLater⟩
              apply absurd _
                (tokenByHash_none hToken t₄ hMem₄)
              rw [hLater.tokenHash, hHash₁]
          | some t₄ =>
              simp only [revokeTokens, Prog.rwp_bind]
              apply
                Prog.rwp_stmt_of_silent
                  (hRules.silent_refl .plain)
              intro a₅ c₅ hRan₅
              have hCourse₅ := hCourse₄.step hRan₅ rfl
              apply hRevoked t₁.familyId _ _ c₅ hCourse₅
              have hTail₅ := hTail.step hRan₅ rfl
              have hStable₅ := FamilyStable.of_course hTail₅
              rcases hStable₅.later hMem₁ with
                ⟨t₅, hMem₅, hLater₅⟩
              rcases Contract.ran_latest hRan₅ with
                ⟨older, hTrace, -, hDb⟩
              have hDb : c₅.db = latest db older := hDb
              exact {
                advisory := by simp
                locks := by
                  intro id hMem
                  rcases List.mem_map.mp hMem with
                    ⟨t, hSelected, rfl⟩
                  rw [held_append, held_singleton]
                  apply List.mem_append_right
                  exact
                    List.mem_map_of_mem
                      (f := fun t : RefreshToken =>
                        AccountKey.tokenUpdate t.id)
                      hSelected
                presented :=
                  ⟨t₅, hMem₅, by rw [hLater₅.tokenHash, hHash₁],
                    hLater₅.familyId⟩
                since := by
                  refine
                    ⟨older, ?_, ?_, ?_, ?_⟩
                  · rw [hTrace]
                    exact List.suffix_cons _ _
                  · rw [← hDb]
                    exact ⟨t₅, hMem₅, hLater₅.familyId⟩
                  · intro t hMem hFamily hChild
                    rw [← hDb]
                    exact ⟨t, hMem, rfl⟩
                  · rw [← hDb]
                    rfl
              }

end Keeps

end PigBook

------------------------------------------------------------
-- Logouts and Reuse
------------------------------------------------------------

namespace PigBook

open ReadCommitted
open Users

section Keeps

variable {lax : Json → Option Bool}
variable {W : World accounts}
variable {X : Primitives} {settings : Settings}
variable {db : Accounts} {pid : ℕ}
variable {log : List (Action accounts)}
variable {c c' : Config W Accounts (FamilyReply lax)}

theorem rely_suffix
    {ks : List AccountKey}
    (hRely : (familyContract W X lax db).Rely pid ks c c') :
    c.trace <:+ c'.trace := by
  rcases hRely.events with ⟨newer, hTrace, -⟩
  exact ⟨newer, hTrace.symm⟩

theorem course_suffix
    {P : Action accounts → Prop}
    {log' : List (Action accounts)}
    (hCourse :
      (familyContract W X lax db).rules.Course pid P log c
        log' c') :
    c.trace <:+ c'.trace := by
  rcases hCourse.history with ⟨newer, hTrace, -⟩
  exact ⟨newer, hTrace.symm⟩

/- What the commit of a revocation does. -/
theorem Revoking.after
    {tokenHash : String}
    {familyId : Uuid}
    {ids : List Uuid}
    (now : ℤ)
    (s' : Accounts)
    (hRevoking : Revoking X db tokenHash familyId ids log c)
    (hValid : FamilyValid c.db)
    (hUsers : s'.users = c.db.users)
    (hTokens : s'.tokens = revokeIds ids now c.db.tokens) :
    FamilyValid s' ∧
      FamilyRevocation db familyId c.trace c.db s' ∧
      ∀ ks', Compatible (held log) ks' →
        FamilyStable X (· ∈ ks') c.db s' := by
  refine ⟨?_, ?_, ?_⟩
  · exact
      hValid.of_updateWhere
        (f := fun t => { t with revokedAt := some now })
        (fun _ => ⟨rfl, rfl, rfl⟩) hUsers hTokens
  · rcases hRevoking.since with
      ⟨earlier, hEarlier, hSome, hJoined, rfl⟩
    exact
      ⟨now, earlier, hEarlier, hSome, hJoined, hUsers,
        hTokens⟩
  · intro ks' hCompat
    apply FamilyStable.of_tokens hUsers
    rw [hTokens]
    apply grows_revokeIds
    intro id hMem hHeld
    exact hCompat _ (hRevoking.locks id hMem) _ hHeld rfl

theorem FamilyStable.of_same
    {holds : AccountKey → Prop}
    {s : Accounts} :
    FamilyStable X holds s (id s) :=
  .refl s

/- A commit that changes nothing. -/
theorem unchanged_commits
    {raw : Option String}
    (hGood : (familyContract W X lax db).Good c) :
    (familyContract W X lax db).rules.Commits pid log id
      (some (.loggedOut raw)) c := by
  have hValid : FamilyValid c.db := hGood.valid
  apply Contract.commits hGood hGood.valid
  · exact ⟨hValid, Or.inl rfl⟩
  · intro ks' hCompat
    exact FamilyStable.of_same

theorem logout_keeps
    (raw : Option String) :
    (familyContract W X lax db).rules.Keeps
      ((FamilyRequest.logout raw).program X settings) := by
  intro pid c hGood
  have hRules :=
    familyContract_rules W X lax db
  simp only [FamilyRequest.program, logoutEndpoint,
    Prog.bind_eq, Prog.rwp_bind, Prog.pure_eq_done]
  apply Prog.rwp_ask_of_silent (hRules.silent_refl .now)
  intro now c₁ hRan
  cases raw with
  | none =>
      intro c₂ hGood₂ hRely
      exact unchanged_commits hGood₂
  | some raw =>
      apply revokeFamily_rwp
      · intro hAbsent log' c₂ hCourse c₃ hGood₃ hRely
        exact unchanged_commits hGood₃
      · intro familyId ids log' c₂ hCourse hRevoking c₃
          hGood₃ hRely
        have hNow :=
          hRevoking.kept hRely.stable (fun _ hKey => hKey)
            (rely_suffix hRely)
        rcases
          hNow.after now
            (Accounts.setTokens (fun t => t.id ∈ ids)
              (fun t => { t with revokedAt := some now })
              c₃.db)
            hGood₃.valid rfl rfl with
          ⟨hAfter, hRevocation, hStable⟩
        apply Contract.commits hGood₃ hAfter
        · exact
            ⟨hAfter, Or.inr
              ⟨raw, familyId, rfl, hNow.presented,
                hRevocation⟩⟩
        · exact hStable

/-
  Once a rotation has found its token used, it ends only
  after the family was revoked.
-/
theorem revokeReused_rwp
    {rawToken : String}
    {userId familyId : Uuid}
    {now : ℤ}
    {ks : List AccountKey}
    {earlier : List (FamilyEvent lax)}
    {t : RefreshToken}
    {w : Accounts → Accounts}
    {post :
      TokenResult → List (Action accounts) →
        (Accounts → Accounts) →
          Config W Accounts (FamilyReply lax) → Prop}
    (hLast :
      lastRan pid isRotationLock c.trace =
        some (⟨.rotationLock (X.sha256 rawToken) now, (), ks⟩,
          earlier))
    (hToken :
      tokenByHash (X.sha256 rawToken) (latest db earlier) =
        some t)
    (hPresent : t ∈ c.db.tokens) :
    (revokeReused X rawToken userId familyId now).rwp
      (familyContract W X lax db).rules pid post log w c := by
  have hRules :=
    familyContract_rules W X lax db
  have hHash := (tokenByHash_mem hToken).2
  simp only [revokeReused, Prog.bind_eq, Prog.rwp_bind,
    Prog.rwp_undo]
  intro c₁ hGood₁ hRely₁
  have hStable₁ : FamilyStable X (· ∈ held log) c.db c₁.db :=
    hRely₁.stable
  have hLast₁ :
      lastRan pid isRotationLock
          (c₁.record (.rolledBack pid)).trace =
        some (⟨.rotationLock (X.sha256 rawToken) now, (), ks⟩,
          earlier) := by
    change lastRan pid isRotationLock c₁.trace = _
    rw [lastRan_rely hRely₁, hLast]
  rcases hStable₁.later hPresent with ⟨t₁, hMem₁, hLater₁⟩
  apply Prog.rwp_ask_of_silent (hRules.silent_refl .uuid)
  intro reuseReqId c₂ hRan₂
  have hCourse₂ :=
    Rules.Course.single [] (P := AfterLock) hRan₂ rfl
  rcases (FamilyStable.of_course hCourse₂).later hMem₁ with
    ⟨t₂, hMem₂, hLater₂⟩
  have hLater₂ := hLater₁.trans hLater₂
  apply revokeFamily_rwp
  · intro hAbsent log' c₃ hCourse
    apply absurd _ (hAbsent t₂ hMem₂)
    rw [hLater₂.tokenHash, hHash]
  · intro familyId' ids log₃ c₃ hCourse₃ hRevoking₃
    apply appendAuditLog_course hRules
    intro record log₄ c₄ hAudit
    have hCourse₄ :=
      hAudit.mono (Q := AfterLock)
        (fun act hAct => by
          unfold AfterLock
          rcases hAct with hPlain | hUuid
          · rw [hPlain]
            rfl
          · rw [hUuid]
            rfl)
    have hCourse :=
      (hCourse₂.trans hCourse₃).trans hCourse₄
    have hRevoking₄ :=
      hRevoking₃.kept (FamilyStable.of_course hCourse₄)
        hCourse₄.held_subset (course_suffix hCourse₄)
    simp only [Prog.rwp_save]
    intro c₅ hGood₅ hRely₅
    have hRevoking₅ :=
      hRevoking₄.kept hRely₅.stable (fun _ hKey => hKey)
        (rely_suffix hRely₅)
    have hLast₅ :
        lastRan pid isRotationLock c₅.trace =
          some (⟨.rotationLock (X.sha256 rawToken) now, (),
            ks⟩, earlier) := by
      rw [lastRan_rely hRely₅,
        lastRan_course (fun act hAct => hAct) hCourse, hLast₁]
    -- the family revoked is that of the presented token
    have hFamily : familyId' = t.familyId := by
      rcases hRevoking₅.presented with
        ⟨t₅, hMem₅, hHash₅, hFamily₅⟩
      have hTail :
          FamilyStable X (· ∈ []) c₂.db c₅.db := by
        have hFirst :=
          FamilyStable.of_course (hCourse₃.trans hCourse₄)
        apply (hFirst.mono (by simp)).trans
        exact FamilyStable.mono hRely₅.stable (by simp)
      have hValid₅ : FamilyValid c₅.db := hGood₅.valid
      rcases hTail.later hMem₂ with ⟨t₆, hMem₆, hLater₆⟩
      have hSame :=
        hValid₅.valid.hashes.eq_of_key hMem₆ hMem₅
          (by rw [hLater₆.tokenHash, hLater₂.tokenHash, hHash,
            hHash₅])
      rw [← hFamily₅, ← hSame, hLater₆.familyId,
        hLater₂.familyId]
    subst hFamily
    rcases
      hRevoking₅.after now
        (Accounts.addRecord record
          (Accounts.setTokens (fun t => t.id ∈ ids)
            (fun t => { t with revokedAt := some now })
            c₅.db))
        hGood₅.valid rfl rfl with
      ⟨hAfter, hRevocation, hStable⟩
    constructor
    · apply Contract.commits hGood₅
      · exact hAfter
      · exact ⟨hAfter, t.familyId, hRevocation⟩
      · exact hStable
    · intro c₆ hGood₆ hRely₆ tokenHash now' ks' earlier' t'
        hLast' hToken' _ _ _ _
      rw [lastRan_rely hRely₆] at hLast'
      have hLast₆ :
          some (⟨.rotationLock (X.sha256 rawToken) now, (),
            ks⟩, earlier) =
          some ((⟨.rotationLock tokenHash now', (), ks'⟩ :
            Action accounts), earlier') := by
        rw [← hLast₅, ← hLast']
        rfl
      cases hLast₆
      rw [hToken] at hToken'
      cases hToken'
      rcases hRely₆.events with ⟨newer, hTrace, -⟩
      refine
        ⟨newer, _, _, _, c₅.trace, hTrace, ?_, hRevocation⟩
      rcases lastRan_split hLast₅ with ⟨-, before, hSplit⟩
      rw [hSplit]
      exact (List.suffix_cons _ _).trans ⟨before, rfl⟩

end Keeps

end PigBook

------------------------------------------------------------
-- Rotations
------------------------------------------------------------

namespace PigBook

open ReadCommitted
open Users

section Keeps

variable {lax : Json → Option Bool}
variable {W : World accounts}
variable {X : Primitives} {settings : Settings}
variable {db : Accounts} {pid : ℕ}
variable {log : List (Action accounts)}
variable {w : Accounts → Accounts}
variable {c : Config W Accounts (FamilyReply lax)}

/- Before its locking read a rotation may fail. -/
theorem invalidRefresh_rwp_of_none
    {post :
      TokenResult → List (Action accounts) →
        (Accounts → Accounts) →
          Config W Accounts (FamilyReply lax) → Prop}
    (hLast : lastRan pid isRotationLock c.trace = none) :
    (Prog.fail invalidRefresh : AccountsM TokenResult).rwp
      (familyContract W X lax db).rules pid post log w c := by
  intro c' hGood hRely tokenHash now ks earlier t hSome
  rw [lastRan_rely hRely, hLast] at hSome
  cases hSome

/- After it, a rotation may fail if its token is no good. -/
theorem invalidRefresh_rwp_of_bad
    {post :
      TokenResult → List (Action accounts) →
        (Accounts → Accounts) →
          Config W Accounts (FamilyReply lax) → Prop}
    {tokenHash : String}
    {now : ℤ}
    {ks : List AccountKey}
    {earlier : List (FamilyEvent lax)}
    (hLast :
      lastRan pid isRotationLock c.trace =
        some (⟨.rotationLock tokenHash now, (), ks⟩, earlier))
    (hBad :
      ∀ t, tokenByHash tokenHash (latest db earlier) =
          some t →
        t.revokedAt.isSome ∨ t.expiresAt ≤ now ∨
          t.familyExpiresAt ≤ now) :
    (Prog.fail invalidRefresh : AccountsM TokenResult).rwp
      (familyContract W X lax db).rules pid post log w c := by
  intro c' hGood hRely tokenHash' now' ks' earlier' t hSome
    hToken hUsed hRevoked hExpires hFamilyExpires
  rw [lastRan_rely hRely, hLast] at hSome
  cases hSome
  rcases hBad t hToken with hCase | hCase | hCase
  · rw [hRevoked] at hCase
    cases hCase
  · omega
  · omega

/- The insertion after the token was marked is still fresh. -/
theorem tokenViolation_setTokens
    {p : RefreshToken → Bool}
    {now : ℤ}
    {s : Accounts}
    {t : RefreshToken}
    (hFree :
      tokenViolation
          (Accounts.setTokens p
            (fun t => { t with usedAt := some now }) s) t =
        none) :
    (∀ t' ∈ s.tokens, t'.id ≠ t.id) ∧
      ∀ t' ∈ s.tokens, t'.tokenHash ≠ t.tokenHash := by
  have hFresh := tokenViolation_none hFree
  have hMoved :
      ∀ t' ∈ s.tokens,
        ∃ t'' ∈ (Accounts.setTokens p
            (fun t => { t with usedAt := some now })
            s).tokens,
          t''.id = t'.id ∧ t''.tokenHash = t'.tokenHash := by
    intro t' hMem
    by_cases hCase : p t' = true
    · exact
        ⟨_, mem_updateWhere.mpr
          (Or.inl ⟨t', hMem, hCase, rfl⟩), rfl, rfl⟩
    · exact
        ⟨t', mem_updateWhere.mpr
          (Or.inr ⟨hMem, by simpa using hCase⟩), rfl, rfl⟩
  constructor
  · intro t' hMem hSame
    rcases hMoved t' hMem with ⟨t'', hMem'', hId, -⟩
    exact hFresh.1 t'' hMem'' (hId.trans hSame)
  · intro t' hMem hSame
    rcases hMoved t' hMem with ⟨t'', hMem'', -, hHash⟩
    exact hFresh.2 t'' hMem'' (hHash.trans hSame)

/-
  A rotation that only has to commit: the good token that its
  locking read has found, and the child that it has inserted.
-/
structure Rotating
    (X : Primitives)
    (db : Accounts)
    (pid : ℕ)
    (rawToken : String)
    (parent : RefreshToken)
    (now : ℤ)
    (child : RefreshToken)
    (log : List (Action accounts))
    (c : Config W Accounts (FamilyReply lax)) : Prop where
  found :
    ∃ ks earlier,
      lastRan pid isRotationLock c.trace =
        some (⟨.rotationLock (X.sha256 rawToken) now, (), ks⟩,
          earlier) ∧
      tokenByHash (X.sha256 rawToken) (latest db earlier) =
        some parent
  present : parent ∈ c.db.tokens
  locked : .tokenUpdate parent.id ∈ held log
  unused : parent.usedAt = none
  unrevoked : parent.revokedAt = none
  current : now < parent.expiresAt
  familyCurrent : now < parent.familyExpiresAt
  shape :
    ∃ childId childRaw,
      child = childToken X parent childId childRaw now
  keys : ∀ k ∈ tokenKeys child, k ∈ held log
  owner : .userShare child.userId ∈ held log
  family :
    .advisory (X.deriveFamilyAdvisoryKey child.familyId) ∈
      held log
  free :
    (∀ t ∈ c.db.tokens, t.id ≠ child.id) ∧
      ∀ t ∈ c.db.tokens, t.tokenHash ≠ child.tokenHash

theorem Rotating.kept
    {rawToken : String}
    {parent child : RefreshToken}
    {now : ℤ}
    {log' : List (Action accounts)}
    {c' : Config W Accounts (FamilyReply lax)}
    (hRotating :
      Rotating X db pid rawToken parent now child log c)
    (hStable : FamilyStable X (· ∈ held log) c.db c'.db)
    (hKeys : ∀ k ∈ held log, k ∈ held log')
    (hLast :
      lastRan pid isRotationLock c'.trace =
        lastRan pid isRotationLock c.trace) :
    Rotating X db pid rawToken parent now child log' c' where
  found := by
    rw [hLast]
    exact hRotating.found
  present :=
    hStable.locked hRotating.present hRotating.locked
  locked := hKeys _ hRotating.locked
  unused := hRotating.unused
  unrevoked := hRotating.unrevoked
  current := hRotating.current
  familyCurrent := hRotating.familyCurrent
  shape := hRotating.shape
  keys := fun k hKey => hKeys _ (hRotating.keys k hKey)
  owner := hKeys _ hRotating.owner
  family := hKeys _ hRotating.family
  free := hStable.fresh hRotating.keys hRotating.free

/- From the locking read to the insertion of the child. -/
theorem Rotating.of_course
    {rawToken childRaw : String}
    {parent : RefreshToken}
    {now : ℤ}
    {childId : Uuid}
    {ks : List AccountKey}
    {earlier : List (FamilyEvent lax)}
    {log' : List (Action accounts)}
    {c' : Config W Accounts (FamilyReply lax)}
    (hCourse :
      (familyContract W X lax db).rules.Course pid AfterLock
        log c log' c')
    (hLast :
      lastRan pid isRotationLock c.trace =
        some (⟨.rotationLock (X.sha256 rawToken) now, (), ks⟩,
          earlier))
    (hFound :
      tokenByHash (X.sha256 rawToken) (latest db earlier) =
        some parent)
    (hPresent : parent ∈ c.db.tokens)
    (hLocked : .tokenUpdate parent.id ∈ held log)
    (hOwner : .userShare parent.userId ∈ held log)
    (hFamily :
      .advisory (X.deriveFamilyAdvisoryKey parent.familyId) ∈
        held log)
    (hUsable :
      parent.usedAt = none ∧ parent.revokedAt = none ∧
        now < parent.expiresAt ∧ now < parent.familyExpiresAt)
    (hKeys :
      ∀ k ∈ tokenKeys (childToken X parent childId childRaw
        now), k ∈ held log')
    (hFree :
      (∀ t ∈ c'.db.tokens, t.id ≠ childId) ∧
        ∀ t ∈ c'.db.tokens,
          t.tokenHash ≠ X.sha256 childRaw) :
    Rotating X db pid rawToken parent now
      (childToken X parent childId childRaw now) log' c' where
  found := by
    rw [lastRan_course (fun act hAct => hAct) hCourse]
    exact ⟨ks, earlier, hLast, hFound⟩
  present :=
    (FamilyStable.of_course hCourse).locked hPresent hLocked
  locked := hCourse.held_subset _ hLocked
  unused := hUsable.1
  unrevoked := hUsable.2.1
  current := hUsable.2.2.1
  familyCurrent := hUsable.2.2.2
  shape := ⟨childId, childRaw, rfl⟩
  keys := hKeys
  owner := hCourse.held_subset _ hOwner
  family := hCourse.held_subset _ hFamily
  free := hFree

/- The commit of a rotation. -/
theorem Rotating.commits
    {rawToken : String}
    {parent child : RefreshToken}
    {now : ℤ}
    {result : TokenResult}
    (hRotating :
      Rotating X db pid rawToken parent now child log c)
    (hGood : (familyContract W X lax db).Good c) :
    (familyContract W X lax db).rules.Commits pid log
      (fun s =>
        (Accounts.setTokens (fun t => t.id = parent.id)
          (fun t => { t with usedAt := some now }) s).addToken
            child)
      (some (.refreshed rawToken result)) c := by
  have hValid : FamilyValid c.db := hGood.valid
  have hMarked :
      FamilyValid
        (Accounts.setTokens (fun t => t.id = parent.id)
          (fun t => { t with usedAt := some now }) c.db) :=
    hValid.of_updateWhere
      (f := fun t => { t with usedAt := some now })
      (fun _ => ⟨rfl, rfl, rfl⟩) rfl rfl
  rcases hRotating.shape with ⟨childId, childRaw, hShape⟩
  have hAfter :
      FamilyValid
        ((Accounts.setTokens (fun t => t.id = parent.id)
          (fun t => { t with usedAt := some now })
          c.db).addToken child) := by
    apply hMarked.addToken
    · constructor
      · intro t hMem
        rcases mem_updateWhere.mp hMem with
          ⟨t₀, hMem₀, -, rfl⟩ | ⟨hOld, -⟩
        · exact hRotating.free.1 t₀ hMem₀
        · exact hRotating.free.1 t hOld
      · intro t hMem
        rcases mem_updateWhere.mp hMem with
          ⟨t₀, hMem₀, -, rfl⟩ | ⟨hOld, -⟩
        · exact hRotating.free.2 t₀ hMem₀
        · exact hRotating.free.2 t hOld
    · have hOwner := hValid.owners parent hRotating.present
      rw [hShape]
      exact hOwner
  apply Contract.commits hGood
  · exact hAfter
  · refine ⟨hAfter, ?_⟩
    rcases hRotating.found with ⟨ks, earlier, hLast, hFound⟩
    refine
      ⟨parent, now, childId, childRaw, ks, earlier, hLast,
        hFound, hRotating.present, hRotating.unused,
        hRotating.unrevoked, hRotating.current,
        hRotating.familyCurrent, rfl, ?_⟩
    rw [← hShape]
    rfl
  · intro ks' hCompat
    have hUsers :
        ((Accounts.setTokens (fun t => t.id = parent.id)
          (fun t => { t with usedAt := some now })
          c.db).addToken child).users = c.db.users :=
      rfl
    apply FamilyStable.of_tokens hUsers
    apply grows_rotated
    · intro hHeld
      exact hCompat _ hRotating.locked _ hHeld rfl
    · exact
        Appears.of_keys hCompat hRotating.keys hRotating.owner
          (fun _ => hRotating.family)

/- What a rotation finds and does, once its token is locked. -/
theorem rotateRefresh_rwp
    {rawToken : String}
    {now : ℤ}
    {post :
      TokenResult → List (Action accounts) →
        (Accounts → Accounts) →
          Config W Accounts (FamilyReply lax) → Prop}
    (hNone : lastRan pid isRotationLock c.trace = none)
    (hPost :
      ∀ parent child result log' c',
        Rotating X db pid rawToken parent now child log' c' →
        post result log'
          (fun s =>
            (Accounts.setTokens (fun t => t.id = parent.id)
              (fun t => { t with usedAt := some now })
              s).addToken child)
          c') :
    (rotateRefresh X settings rawToken now).rwp
      (familyContract W X lax db).rules pid post log id c := by
  have hRules :=
    familyContract_rules W X lax db
  have hAfterLock :
      ∀ act : Action accounts, AfterLock act →
        isRotationLock act.query = false :=
    fun act hAct => hAct
  simp only [rotateRefresh, resolveToken,
    Prog.bind_eq, Prog.rwp_bind]
  apply
    Prog.rwp_select_of_silent (hRules.silent_refl .plain)
  intro a₁ c₁ hRan₁
  have hCourse₁ :=
    Rules.Course.single _ (P := AfterLock) hRan₁ rfl
  have hNone₁ := lastRan_course hAfterLock hCourse₁
  rw [hNone] at hNone₁
  dsimp only [id]
  cases hFound : tokenByHash (X.sha256 rawToken) c₁.db with
  | none => exact invalidRefresh_rwp_of_none hNone₁
  | some t₁ =>
      rcases tokenByHash_mem hFound with ⟨hMem₁, hHash₁⟩
      dsimp only [Option.map]
      simp only [selectUserForShare, Prog.rwp_bind]
      apply
        Prog.rwp_select_of_silent (hRules.silent_refl .plain)
      intro a₂ c₂ hRan₂
      have hCourse₂ :=
        Rules.Course.single _ (P := AfterLock) hRan₂ rfl
      have hNone₂ := lastRan_course hAfterLock hCourse₂
      rw [hNone₁] at hNone₂
      dsimp only [id]
      cases hUser : userById t₁.userId c₂.db with
      | none => exact invalidRefresh_rwp_of_none hNone₂
      | some lockedUser =>
          have hUserId := userById_id hUser
          dsimp only
          split
          · exact invalidRefresh_rwp_of_none hNone₂
          simp only [advisoryXactLock, Prog.rwp_bind]
          apply
            Prog.rwp_select_of_silent
              (hRules.silent_refl .plain)
          intro a₃ c₃ hRan₃
          simp only [selectTokenForUpdate]
          apply
            Prog.rwp_select_of_silent
              (hRules.silent_refl
                (.rotationLock (X.sha256 rawToken) now))
          intro a₄ c₄ hRan₄
          rcases Contract.ran_latest hRan₄ with
            ⟨earlier, hTrace₄, -, hDb₄⟩
          have hDb₄ : c₄.db = latest db earlier := hDb₄
          have hLast₄ :
              ∃ ks, lastRan pid isRotationLock c₄.trace =
                some
                  (⟨.rotationLock (X.sha256 rawToken) now, (),
                    ks⟩, earlier) := by
            rw [hTrace₄]
            exact ⟨_, lastRan_ran rfl⟩
          rcases hLast₄ with ⟨ks, hLast₄⟩
          have hValid₄ : FamilyValid c₄.db := hRan₄.good.valid
          have hStable₄ :
              FamilyStable X (· ∈ []) c₁.db c₄.db := by
            have hTail :=
              (((Rules.Course.single _ (P := fun _ => True)
                hRan₂ trivial).step hRan₃ trivial).step hRan₄
                  trivial)
            exact
              (FamilyStable.of_course hTail).mono (by simp)
          dsimp only [id]
          cases hToken :
              tokenByHash (X.sha256 rawToken) c₄.db with
          | none =>
              apply invalidRefresh_rwp_of_bad hLast₄
              intro t hSome
              rw [← hDb₄, hToken] at hSome
              cases hSome
          | some token =>
              have hLater :=
                hStable₄.tokenByHash hValid₄.valid hMem₁
                  hHash₁ hToken
              have hMem₄ := (tokenByHash_mem hToken).1
              have hHash₄ := (tokenByHash_mem hToken).2
              have hFound₄ :
                  tokenByHash (X.sha256 rawToken)
                    (latest db earlier) = some token := by
                rw [← hDb₄, hToken]
              dsimp only
              split
              · -- the row is the one that was resolved
                rename_i hMismatch
                rcases hMismatch with hUser' | hFamily'
                · exact
                    absurd (hLater.userId.trans hUserId.symm)
                      hUser'
                · exact absurd hLater.familyId hFamily'
              split
              · rename_i hBad
                apply invalidRefresh_rwp_of_bad hLast₄
                intro t hSome
                rw [hFound₄] at hSome
                cases hSome
                exact hBad
              rename_i hGoodToken
              push Not at hGoodToken
              split
              · exact revokeReused_rwp hLast₄ hFound₄ hMem₄
              rename_i hUnused
              simp only [Prog.rwp_bind]
              apply
                Prog.rwp_ask_of_silent
                  (hRules.silent_refl .tokenUrlsafe)
              intro childRaw c₅ hRan₅
              apply
                Prog.rwp_ask_of_silent
                  (hRules.silent_refl .uuid)
              intro childId c₆ hRan₆
              simp only [markTokenUsed]
              apply
                Prog.rwp_stmt_of_silent
                  (hRules.silent_refl .plain)
              intro a₇ c₇ hRan₇
              simp only [Prog.rwp_done]
              apply
                Prog.rwp_stmt_of_silent
                  (hRules.silent_refl .plain)
              intro a₈ c₈ hRan₈
              have hCourse₈ :=
                (((Rules.Course.single _ (P := AfterLock)
                  hRan₅ rfl).step hRan₆ rfl).step hRan₇
                    rfl).step hRan₈ rfl
              split
              · exact hRules.rwp_fail (by simp)
              rename_i hFree
              have hUserId' : token.userId = lockedUser.id :=
                hLater.userId.trans hUserId.symm
              rw [← hUserId'] at hCourse₈ hFree ⊢
              have hRotating :=
                Rotating.of_course hCourse₈ hLast₄ hFound₄
                  hMem₄
                  (by
                    rw [held_append, held_singleton]
                    apply List.mem_append_right
                    apply
                      List.mem_map_of_mem
                        (f := fun t : RefreshToken =>
                          AccountKey.tokenUpdate t.id)
                    exact
                      List.mem_filter.mpr
                        ⟨hMem₄, by simpa using hHash₄⟩)
                  (by
                    rw [hLater.userId]
                    simp [userKeys, hUser])
                  (by
                    rw [hLater.familyId]
                    simp)
                  ⟨by simpa using hUnused,
                    by simpa using hGoodToken.1,
                    hGoodToken.2.1, hGoodToken.2.2⟩
                  (fun k hKey => by
                    rw [held_append, held_singleton]
                    exact List.mem_append_right _ hKey)
                  (tokenViolation_setTokens hFree)
              apply mintAccess_rwp hRules
              intro response log₉ c₉ hMinted
              simp only [Prog.rwp_done, Prog.pure_eq_done]
              have hCourse₉ :=
                hMinted.mono (Q := AfterLock)
                  (fun act hUuid => by
                    unfold AfterLock
                    rw [hUuid]
                    rfl)
              apply hPost token _ _ log₉ c₉
              exact
                hRotating.kept
                  (FamilyStable.of_course hCourse₉)
                  hCourse₉.held_subset
                  (lastRan_course hAfterLock hCourse₉)

theorem refresh_keeps
    (rawToken : String) :
    (familyContract W X lax db).rules.Keeps
      ((FamilyRequest.refresh rawToken).program X
        settings) := by
  intro pid c hGood
  have hRules :=
    familyContract_rules W X lax db
  simp only [FamilyRequest.program, refreshEndpoint,
    Prog.bind_eq, Prog.rwp_bind, Prog.pure_eq_done,
    Prog.rwp_done]
  apply Prog.rwp_ask_of_silent (hRules.silent_refl .now)
  intro now c₁ hRan
  apply rotateRefresh_rwp
  · have hCourse :=
      Rules.Course.single _ (P := AfterLock) hRan rfl
    rw [lastRan_course (fun act hAct => hAct) hCourse]
    exact lastRan_spawned _
  · intro parent child result log' c₂ hRotating c₃ hGood₃
      hRely
    have hNow :=
      hRotating.kept hRely.stable (fun _ hKey => hKey)
        (lastRan_rely hRely)
    exact hNow.commits hGood₃

/- Every request respects the contract. -/
theorem familyProgram_keeps
    (request : FamilyRequest lax) :
    (familyContract W X lax db).rules.Keeps
      (request.program X settings) := by
  cases request with
  | login email password => exact login_keeps email password
  | refresh rawToken => exact refresh_keeps rawToken
  | logout rawToken => exact logout_keeps rawToken
  | patch r => exact patch_keeps r

end Keeps

end PigBook
