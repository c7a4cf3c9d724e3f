import PigBook.Users.Signature

/-
  The statements of the account transactions.

  Key definitions include:
    * `selectUser`, `selectUserForUpdate`
    * `selectLoadedUserForShare`
    * `updateUsers`
    * `revokeTokens`, `markTokenUsed`, `insertToken`
    * `appendAuditLog`
-/

------------------------------------------------------------
-- Reading
------------------------------------------------------------

namespace PigBook.Users

open ReadCommitted

/- datetime.now(timezone.utc). -/
def utcNow : AccountsM ℤ :=
  @Prog.ask accounts Accounts .now

def uuid4 : AccountsM Uuid :=
  @Prog.ask accounts Accounts .uuid

/- os.urandom(32).hex(). -/
def tokenHex : AccountsM String :=
  @Prog.ask accounts Accounts .tokenHex

/- base64.urlsafe_b64encode(os.urandom(32)), no padding. -/
def tokenUrlsafe : AccountsM String :=
  @Prog.ask accounts Accounts .tokenUrlsafe

/- A SELECT without a locking clause. -/
def selectRows
    {β : Type}
    (rows : Accounts → β) : AccountsM β :=
  .select .plain (fun _ => []) rows

/- The key of the user row, if there is one. -/
def userKeys
    (key : Uuid → AccountKey)
    (id : Uuid)
    (s : Accounts) : List AccountKey :=
  if (userById id s).isSome then [key id] else []

def selectUser (id : Uuid) : AccountsM (Option User) :=
  selectRows (userById id)

def selectUserForUpdate
    (id : Uuid) : AccountsM (Option User) :=
  .select .plain (userKeys .userUpdate id) (userById id)

def selectUserForShare
    (id : Uuid) : AccountsM (Option User) :=
  .select .plain (userKeys .userShare id) (userById id)

/-
  A locking SELECT of a user that the session has loaded
  before: the row is locked as it is now, but the session
  answers with the attributes that it has loaded.
-/
def selectLoadedUserForShare
    (u : User) : AccountsM (Option User) :=
  .select .plain (userKeys .userShare u.id)
    (fun s => (userById u.id s).map (fun _ => u))

def selectLoadedUserForUpdate
    (u : User) : AccountsM (Option User) :=
  .select .plain (userKeys .userUpdate u.id)
    (fun s => (userById u.id s).map (fun _ => u))

/- SELECT pg_advisory_xact_lock(key). -/
def advisoryXactLock (key : ℤ) : AccountsM Unit :=
  .select .plain (fun _ => [.advisory key]) (fun _ => ())

/- SELECT count(users.id), over the enabled admins. -/
def countActiveAdmins : AccountsM ℕ :=
  selectRows activeAdmins

end PigBook.Users

------------------------------------------------------------
-- Writing
------------------------------------------------------------

namespace PigBook.Users

open ReadCommitted

/- The constraint that an UPDATE of users violates. -/
def usersViolation
    (p : User → Bool)
    (f : User → User)
    (s : Accounts) : Option AccountConstraint :=
  if ∃ u ∈ s.users, p u ∧ (f u).email ≠ u.email ∧
      ∃ u' ∈ s.users,
        u'.id ≠ u.id ∧ u'.email = (f u).email then
    some .usersEmailKey
  else
    none

/- UPDATE users SET f WHERE p, with its row count. -/
def updateUsers
    (p : User → Bool)
    (f : User → User) : AccountsM ℕ :=
  .stmt .plain
    (fun s _ =>
      (s.users.filter p).map (AccountKey.userUpdate ·.id))
    (fun _ _ => Accounts.setUsers p f)
    (fun s _ =>
      match usersViolation p f s with
      | some c => .fail (.integrityError c)
      | none => .done (s.users.filter p).length)

/-
  UPDATE refresh_tokens SET revoked_at = now, over the
  unrevoked tokens among those that `p` selects, as the
  statement sees them.
-/
def revokeTokens
    (p : RefreshToken → Bool)
    (now : ℤ) : AccountsM ℕ :=
  .stmt .plain
    (fun s _ =>
      (unrevoked p s).map (AccountKey.tokenUpdate ·.id))
    (fun s _ =>
      Accounts.setTokens
        (fun t => t.id ∈ (unrevoked p s).map (·.id))
        (fun t => { t with revokedAt := some now }))
    (fun s _ => .done (unrevoked p s).length)

def revokeUserRefreshTokens
    (userId : Uuid)
    (now : ℤ) : AccountsM ℕ :=
  revokeTokens (fun t => t.userId = userId) now

/-
  The locking read of a rotation.  The session has loaded no
  token before, so it answers with the row as it is.
-/
def selectTokenForUpdate
    (q : AccountQuery)
    (tokenHash : String) : AccountsM (Option RefreshToken) :=
  .select q
    (fun s =>
      (s.tokens.filter (fun t => t.tokenHash = tokenHash)).map
        (AccountKey.tokenUpdate ·.id))
    (tokenByHash tokenHash)

/- UPDATE refresh_tokens SET used_at = now WHERE id. -/
def markTokenUsed
    (id : Uuid)
    (now : ℤ) : AccountsM Unit :=
  .stmt .plain
    (fun _ _ => [.tokenUpdate id])
    (fun _ _ =>
      Accounts.setTokens (fun t => t.id = id)
        (fun t => { t with usedAt := some now }))
    (fun _ _ => .done ())

/- The constraint that the INSERT of a token violates. -/
def tokenViolation
    (s : Accounts)
    (t : RefreshToken) : Option AccountConstraint :=
  if ¬ t.Check then
    some .refreshTokensExpiryCheck
  else if ∃ t' ∈ s.tokens, t'.id = t.id then
    some .refreshTokensPkey
  else if ∃ t' ∈ s.tokens, t'.tokenHash = t.tokenHash then
    some .refreshTokensTokenHashKey
  else if ∃ t' ∈ s.tokens,
      t'.parentId = t.parentId ∧ t.parentId.isSome then
    some .refreshOneChildIdx
  else
    none

/- The keys of the INSERT of a token. -/
def tokenKeys (t : RefreshToken) : List AccountKey :=
  [.refreshTokensPkey t.id,
    .refreshTokensTokenHash t.tokenHash] ++
    (t.parentId.map AccountKey.refreshOneChild).toList

/- INSERT INTO refresh_tokens. -/
def insertToken (t : RefreshToken) : AccountsM Unit :=
  .stmt .plain
    (fun _ _ => tokenKeys t)
    (fun _ _ => Accounts.addToken t)
    (fun s _ =>
      match tokenViolation s t with
      | some c => .fail (.integrityError c)
      | none => .done ())

/- DELETE FROM feedback WHERE p, with its row count. -/
def deleteFeedback
    (p : Feedback → Bool) : AccountsM ℕ :=
  .stmt .plain
    (fun _ _ => [])
    (fun _ _ => Accounts.deleteFeedback p)
    (fun s _ => .done (s.feedback.filter p).length)

/- INSERT INTO audit_log. -/
def insertRecord (a : AccountRecord) : AccountsM Unit :=
  .stmt .plain
    (fun _ _ => [.auditLogPkey a.id])
    (fun _ _ => Accounts.addRecord a)
    (fun s _ =>
      if ∃ a' ∈ s.audit, a'.id = a.id then
        .fail (.integrityError .auditLogPkey)
      else
        .done ())

def appendAuditLog
    (action targetType : String)
    (targetId : Option Uuid)
    (actorId : Option Uuid)
    (requestId : Uuid)
    (details : AccountDetails)
    (now : ℤ) : AccountsM AccountRecord := do
  let auditId ← uuid4
  let entry : AccountRecord := {
    id := auditId
    actorId := actorId
    action := action
    targetType := targetType
    targetId := targetId
    requestId := requestId
    details := details
    createdAt := now
  }
  insertRecord entry
  return entry

end PigBook.Users
