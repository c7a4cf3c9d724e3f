import PigBook.Users.Statements
import PigBook.Users.UserPatch

/-
  The transactions on accounts: authorization, the guarded
  user patch, login, rotation and revocation of refresh
  tokens, and the two operator scripts.

  Key definitions include:
    * `Policy`, `authorize`, `assertCurrent`
    * `PatchRequest`, `updateUserEndpoint`
    * `login`, `rotateRefresh`, `revokeFamily`
    * `runReset`, `runRetention`
-/

------------------------------------------------------------
-- Authorization
------------------------------------------------------------

namespace PigBook

inductive Policy
  | publicAccess
  | authenticated
  | ownBooking
  | ownWaitlist
  | admin
  | metrics
deriving DecidableEq

/- The roles that a policy admits. -/
def Policy.allowed : Policy → List Role
| admin => [.admin]
| authenticated => [.member, .admin]
| ownBooking => [.member, .admin]
| ownWaitlist => [.member, .admin]
| publicAccess => []
| metrics => []

/- The user row on which a request was authorized. -/
structure Authority where
  principalId : Uuid
  role : Role
  enabled : Bool
deriving DecidableEq

def User.authority (u : User) : Authority where
  principalId := u.id
  role := u.role
  enabled := u.enabled

end PigBook

namespace PigBook.Users

open ReadCommitted

def enforcePolicyRole
    (policy : Policy)
    (role : Role) : AccountsM Unit :=
  if role ∈ policy.allowed then
    .done ()
  else
    .fail (.forbidden "Insufficient permissions")

/- The checks that a user row passes under a policy. -/
def checkCurrent
    (policy : Policy)
    (row : Option User) : AccountsM Authority :=
  match row with
  | none => .fail (.invalidToken "Invalid or expired token")
  | some u =>
      if u.enabled = false then
        .fail (.invalidToken "Invalid or expired token")
      else do
        enforcePolicyRole policy u.role
        return u.authority

/-
  The authorization dependency, for the principal of a valid
  access token.  Its read transaction ends before anything
  else happens.
-/
def authorize
    (policy : Policy)
    (userId : Uuid) : AccountsM Unit := do
  let row ← selectUser userId
  Prog.undo
  let _ ← checkCurrent policy row

/- `_assert_current`, with the row that it has accepted. -/
def assertCurrent
    (policy : Policy)
    (userId : Uuid) : AccountsM Authority := do
  let row ← selectUserForShare userId
  checkCurrent policy row

end PigBook.Users

------------------------------------------------------------
-- The User Patch
------------------------------------------------------------

namespace PigBook

/-
  A request to patch a user, with a body that the model
  admits when `lax` parses its Booleans.
-/
structure PatchRequest (lax : Json → Option Bool) where
  principalId : Uuid
  objectId : Uuid
  expectedVersion : ℕ
  requestId : Option Uuid
  body : RequestBody
  data : UserPatch
  admitted : UserPatch.validate lax body = .ok data

/- The fields of a user that responses show. -/
structure UserView where
  id : Uuid
  email : String
  displayName : String
  role : Role
  enabled : Bool
  version : ℕ
  createdAt : ℤ
  updatedAt : ℤ
deriving DecidableEq

def User.view (u : User) : UserView where
  id := u.id
  email := u.email
  displayName := u.displayName
  role := u.role
  enabled := u.enabled
  version := u.version
  createdAt := u.createdAt
  updatedAt := u.updatedAt

/- The row that a patch leaves of a user. -/
def UserPatch.apply
    (patch : UserPatch)
    (user : User)
    (now : ℤ)
    (u : User) : User :=
  { u with
    role := patch.role.getD user.role
    enabled := patch.enabled.getD user.enabled
    version := user.version + 1
    updatedAt := now }

/- The audit details of a patch. -/
def UserPatch.details
    (patch : UserPatch)
    (user : User) : AccountDetails :=
  .userUpdate patch.fields
    (patch.role.map (fun role => (user.role, role)))
    (patch.enabled.map
      (fun enabled => (user.enabled, enabled)))

end PigBook

namespace PigBook.Users

open ReadCommitted

variable {lax : Json → Option Bool}

/- The path lookup of the administrative scope. -/
def resolveUserScope
    (r : PatchRequest lax) : AccountsM Unit := do
  let row ← selectUser r.objectId
  Prog.undo
  match row with
  | none => Prog.fail (.objectNotFound "User not found")
  | some u =>
      if u.version ≠ r.expectedVersion then
        Prog.fail (.versionMismatch "User version mismatch")
      else
        Prog.done ()

/-
  Lock the target for an update and the actor for sharing,
  in the order of their identifiers.
-/
def lockActorAndTarget
    (actorId targetId : Uuid) :
    AccountsM (Option User × Option User) := do
  if actorId = targetId then
    let target ← selectUserForUpdate targetId
    return (target, target)
  else if actorId < targetId then
    let actor ← selectUserForShare actorId
    let target ← selectUserForUpdate targetId
    return (actor, target)
  else
    let target ← selectUserForUpdate targetId
    let actor ← selectUserForShare actorId
    return (actor, target)

/-
  `_assert_current_user_e28`, with the actor that it has
  accepted and the target that the session has loaded.
-/
def assertCurrentUserE28
    (r : PatchRequest lax) :
    AccountsM (Authority × User) := do
  advisoryXactLock 714001
  let (actor, target) ←
    lockActorAndTarget r.principalId r.objectId
  match actor with
  | none =>
      Prog.fail (.invalidToken "Invalid or expired token")
  | some actor =>
      if actor.enabled = false ∨ actor.role ≠ .admin then
        Prog.fail (.invalidToken "Invalid or expired token")
      else
        match target with
        | none => Prog.fail (.objectNotFound "User not found")
        | some target =>
            if target.version ≠ r.expectedVersion then
              Prog.fail
                (.versionMismatch "User version mismatch")
            else if target.isActiveAdmin ∧
                r.body.remainsAdmin = false then do
              let cnt ← countActiveAdmins
              if cnt ≤ 1 then
                Prog.fail (.lastAdmin
                  "Cannot demote or disable the last active administrator")
              else
                return (actor.authority, target)
            else
              return (actor.authority, target)

/- The tokens of a user whom the patch disables. -/
def revokeOnDisable
    (r : PatchRequest lax)
    (user : User)
    (now : ℤ) : AccountsM Unit :=
  if user.enabled = true ∧
      r.data.enabled.getD user.enabled = false then do
    let _ ← revokeUserRefreshTokens r.objectId now
  else
    .done ()

/- `scope.predicates.get("request_id") or uuid.uuid4()`. -/
def requestIdOf
    (requestId : Option Uuid) : AccountsM Uuid :=
  match requestId with
  | some id => .done id
  | none => uuid4

/- The end of the update: its audit record and its view. -/
def auditPatch
    (r : PatchRequest lax)
    (user : User)
    (now : ℤ) : AccountsM UserView := do
  let reqId ← requestIdOf r.requestId
  let _ ← appendAuditLog "admin.user_update" "user"
    (some r.objectId) (some r.principalId) reqId
    (r.data.details user) now
  return (r.data.apply user now user).view

/- `update_user` in a session that has loaded `loaded`. -/
def updateUser
    (r : PatchRequest lax)
    (loaded : User)
    (now : ℤ) : AccountsM UserView := do
  match ← selectLoadedUserForUpdate loaded with
  | none => Prog.fail (.notFound "User not found")
  | some user =>
      if user.version ≠ r.expectedVersion then
        Prog.fail (.versionMismatch "User version mismatch")
      else if r.data.fields = [] then
        Prog.fail (.valueError
          "At least one field must be provided for update")
      else do
        let rowcount ← updateUsers
          (fun u =>
            u.id = r.objectId ∧
              u.version = r.expectedVersion)
          (r.data.apply user now)
        if rowcount ≠ 1 then
          Prog.fail (.versionMismatch "User version mismatch")
        else do
          revokeOnDisable r user now
          auditPatch r user now

/- The endpoint, with the authority that it has checked. -/
def updateUserEndpoint
    (r : PatchRequest lax) :
    AccountsM (Authority × UserView) := do
  authorize .admin r.principalId
  resolveUserScope r
  let now ← utcNow
  let (authority, target) ← assertCurrentUserE28 r
  let view ← updateUser r target now
  return (authority, view)

end PigBook.Users

------------------------------------------------------------
-- Login and Refresh
------------------------------------------------------------

namespace PigBook

structure TokenResponse where
  accessToken : String
  tokenType : String
  expiresIn : ℤ
  user : UserView
deriving DecidableEq

structure TokenResult where
  response : TokenResponse
  rawRefresh : String
deriving DecidableEq

namespace Primitives

variable (X : Primitives)

def normalizeEmail
    (email : String) : Except String String :=
  let cleaned := X.lower (X.strip email)
  if cleaned.length = 0 ∨ 254 < cleaned.length then
    .error "Email length must be between 1 and 254 characters"
  else
    match X.validateEmail cleaned with
    | .error message =>
        .error ("Invalid email address: " ++ message)
    | .ok normalized =>
        let normalized := X.lower normalized
        if 254 < normalized.length then
          .error "Email length must not exceed 254 characters"
        else
          .ok normalized

def verifyPassword
    (password passwordHash : String) : Bool :=
  X.argon2Verify passwordHash password

/- The number that hexadecimal digits denote. -/
def hexValue (digits : List Char) : ℕ :=
  digits.foldl
    (fun n c =>
      16 * n +
        (if c.isDigit then c.toNat - '0'.toNat
        else c.toNat - 'a'.toNat + 10))
    0

/- The first eight bytes of a digest, as a signed integer. -/
def deriveFamilyAdvisoryKey (familyId : Uuid) : ℤ :=
  let digest :=
    X.sha256 ("commonsbook-refresh:" ++ familyId.str)
  let n := hexValue (digest.toList.take 16)
  if 2 ^ 63 ≤ n then (n : ℤ) - 2 ^ 64 else n

end Primitives

/- `int(t.timestamp())`. -/
def timestamp (t : ℤ) : ℤ :=
  t.tdiv 1000000

end PigBook

namespace PigBook.Users

open ReadCommitted

variable (X : Primitives) (settings : Settings)

/- The access token for a user, and the response with it. -/
def mintAccess
    (user : User)
    (now : ℤ) : AccountsM TokenResponse := do
  match settings.jwtSecret with
  | none =>
      Prog.fail (.runtimeError
        "JWT_SECRET must be configured and at least 32 bytes")
  | some secret =>
      if secret.utf8ByteSize < 32 then
        Prog.fail (.runtimeError
          "JWT_SECRET must be configured and at least 32 bytes")
      else do
        let jti ← uuid4
        let claims : AccessClaims := {
          sub := user.id.str
          role := match user.role with
            | .member => "member"
            | .admin => "admin"
          iat := timestamp now
          exp := timestamp
            (now + seconds settings.accessTokenTtlSeconds)
          jti := jti.str
          iss := settings.jwtIssuer
          aud := settings.jwtAudience
        }
        return {
          accessToken := X.encodeJwt claims secret
          tokenType := "bearer"
          expiresIn := settings.accessTokenTtlSeconds
          user := user.view
        }

def login
    (email password : String)
    (now : ℤ) : AccountsM TokenResult := do
  match X.normalizeEmail email with
  | .error _ =>
      Prog.fail
        (.invalidCredentials "Invalid email or password")
  | .ok normEmail =>
    match ← Prog.select (.loginRead normEmail)
        (fun _ => []) (userByEmail normEmail) with
    | none =>
        Prog.fail
          (.invalidCredentials "Invalid email or password")
    | some user =>
      if X.verifyPassword password user.passwordHash
          = false then
        Prog.fail
          (.invalidCredentials "Invalid email or password")
      else
        match ← selectLoadedUserForShare user with
        | none =>
            Prog.fail
              (.invalidCredentials "Invalid email or password")
        | some lockedUser =>
          if lockedUser.enabled = false ∨
              lockedUser.passwordHash ≠
                user.passwordHash then
            Prog.fail
              (.invalidCredentials "Invalid email or password")
          else do
            let response ←
              mintAccess X settings lockedUser now
            let rawRefresh ← tokenUrlsafe
            let familyId ← uuid4
            let tokenId ← uuid4
            insertToken {
              id := tokenId
              userId := lockedUser.id
              tokenHash := X.sha256 rawRefresh
              familyId := familyId
              parentId := none
              createdAt := now
              expiresAt := now + days 7
              familyExpiresAt := now + days 30
              usedAt := none
              revokedAt := none
            }
            return {
              response := response
              rawRefresh := rawRefresh
            }

def loginEndpoint
    (email password : String) : AccountsM TokenResult := do
  let now ← utcNow
  login X settings email password now

/- The user and the family of a token, read without a lock. -/
def resolveToken
    (tokenHash : String) :
    AccountsM (Option (Uuid × Uuid)) :=
  selectRows (fun s =>
    (tokenByHash tokenHash s).map
      (fun t => (t.userId, t.familyId)))

def revokeFamily
    (rawToken : String)
    (now : ℤ) : AccountsM Unit := do
  match ← resolveToken (X.sha256 rawToken) with
  | none => Prog.done ()
  | some (userId, familyId) =>
    match ← selectUserForShare userId with
    | none => Prog.done ()
    | some _ => do
      advisoryXactLock (X.deriveFamilyAdvisoryKey familyId)
      match ← selectTokenForUpdate .plain
          (X.sha256 rawToken) with
      | none => Prog.done ()
      | some _ => do
        let _ ← revokeTokens
          (fun t => t.familyId = familyId) now

def invalidRefresh : AccountError :=
  .invalidRefresh "Invalid or expired refresh token"

/-
  The end of a rotation whose token had been used: the
  domain transaction is given up, the family is revoked and
  the reuse audited in another one, and then the error is
  raised.
-/
def revokeReused
    (rawToken : String)
    (userId familyId : Uuid)
    (now : ℤ) : AccountsM TokenResult := do
  Prog.undo
  let reuseReqId ← uuid4
  revokeFamily X rawToken now
  let _ ← appendAuditLog "auth.refresh_reuse"
    "refresh_family" (some familyId) (some userId) reuseReqId
    (.refreshReuse userId.str familyId.str "refresh_reuse") now
  Prog.save
  Prog.fail invalidRefresh

def rotateRefresh
    (rawToken : String)
    (now : ℤ) : AccountsM TokenResult := do
  match ← resolveToken (X.sha256 rawToken) with
  | none => Prog.fail invalidRefresh
  | some (userId, familyId) =>
    match ← selectUserForShare userId with
    | none => Prog.fail invalidRefresh
    | some lockedUser =>
      if lockedUser.enabled = false then
        Prog.fail invalidRefresh
      else do
        advisoryXactLock (X.deriveFamilyAdvisoryKey familyId)
        match ← selectTokenForUpdate
            (.rotationLock (X.sha256 rawToken) now)
            (X.sha256 rawToken) with
        | none => Prog.fail invalidRefresh
        | some token =>
          if token.userId ≠ lockedUser.id ∨
              token.familyId ≠ familyId then
            Prog.fail invalidRefresh
          else if token.revokedAt.isSome ∨
              token.expiresAt ≤ now ∨
              token.familyExpiresAt ≤ now then
            Prog.fail invalidRefresh
          else if token.usedAt.isSome then
            revokeReused X rawToken userId familyId now
          else do
            let childRaw ← tokenUrlsafe
            let childId ← uuid4
            markTokenUsed token.id now
            insertToken {
              id := childId
              userId := lockedUser.id
              tokenHash := X.sha256 childRaw
              familyId := token.familyId
              parentId := some token.id
              createdAt := now
              expiresAt :=
                min (now + days 7) token.familyExpiresAt
              familyExpiresAt := token.familyExpiresAt
              usedAt := none
              revokedAt := none
            }
            let response ←
              mintAccess X settings lockedUser now
            return {
              response := response
              rawRefresh := childRaw
            }

/- The refresh endpoint, for the text of its cookie. -/
def refreshEndpoint
    (rawToken : String) : AccountsM TokenResult := do
  let now ← utcNow
  rotateRefresh X settings rawToken now

/- The logout endpoint; `none` when there is no cookie. -/
def logoutEndpoint
    (rawToken : Option String) : AccountsM Unit := do
  let now ← utcNow
  match rawToken with
  | none => Prog.done ()
  | some rawToken => revokeFamily X rawToken now

end PigBook.Users

------------------------------------------------------------
-- Operator Scripts
------------------------------------------------------------

namespace PigBook

/-
  The approval file that the operator names: its path, and
  its text when it exists.
-/
abbrev Approval := Option (String × Option String)

end PigBook

namespace PigBook.Users

open ReadCommitted

variable (X : Primitives)

/- `sys.exit(1)`, after the message on standard error. -/
def exitWith (message : String) : AccountError :=
  .systemExit message

/- The answer is the number of revoked tokens. -/
def runReset
    (userId : Uuid)
    (newPassword : String)
    (apply : Bool)
    (approval : Approval) : AccountsM ℕ := do
  if newPassword.length = 0 then
    Prog.fail (exitWith "Error: Password cannot be empty.")
  else if newPassword.length < 12 ∨
      128 < newPassword.length then
    Prog.fail (exitWith
      ("Error: Password length must be between 12 and 128 " ++
        "Unicode codepoints (got " ++
        toString newPassword.length ++ ")"))
  else do
    let requestId ← uuid4
    match ← Prog.select (.resetRead userId)
        (fun _ => []) (userById userId) with
    | none =>
        Prog.fail (exitWith
          ("Error: User " ++ userId.str ++ " not found."))
    | some user => do
      let activeTokens ← selectRows (fun s =>
        (unrevoked (fun t => t.userId = userId) s).length)
      if apply = false then do
        Prog.undo
        return activeTokens
      else
        match approval with
        | none =>
            Prog.fail (exitWith
              "Error: --approval-file is required when applying changes.")
        | some (path, none) =>
            Prog.fail (exitWith
              ("Error: Approval file " ++ path ++
                " does not exist."))
        | some (_, some content) =>
          if X.strip content ≠ userId.str then
            Prog.fail (exitWith
              ("Error: Approval file content does not match " ++
                "target user UUID " ++ userId.str ++ "."))
          else
            match ← selectLoadedUserForUpdate user with
            | none =>
                Prog.fail (exitWith
                  ("Error: User " ++ userId.str ++
                    " not found during lock acquisition."))
            | some lockedUser => do
              let now ← utcNow
              let newHash ← Prog.ask (S := accounts)
                (.passwordHash newPassword)
              -- the flush of the changed attributes
              let _ ← updateUsers (fun u => u.id = userId)
                (fun u =>
                  { u with
                    passwordHash := newHash
                    version := lockedUser.version + 1
                    updatedAt := now })
              let revokedCount ←
                revokeTokens (fun t => t.userId = userId) now
              let _ ← appendAuditLog "operator.password_reset"
                "user" (some userId) none requestId
                (.passwordReset userId.str revokedCount) now
              return revokedCount

structure RetentionRequest where
  targetScope : Option String
  accountCutoffDays : ℤ
  feedbackCutoffDays : ℤ
  apply : Bool
  approval : Approval
  backupRef : Option String

structure RetentionResult where
  accountsAnonymized : ℕ
  feedbackDeleted : ℕ
deriving DecidableEq

/- The address was written by an anonymization. -/
def deletedEmail (email : String) : Bool :=
  email.endsWith "@deleted.invalid"

/- The accounts that a retention lists. -/
def eligibleUsers
    (accountCutoff : ℤ)
    (s : Accounts) : List User :=
  s.users.filter (fun u =>
    u.createdAt ≤ accountCutoff ∧ u.role ≠ .admin ∧
      deletedEmail u.email = false)

/- The row that an anonymization leaves of a locked user. -/
def anonymize
    (locked : User)
    (newHash : String)
    (now : ℤ)
    (u : User) : User :=
  { u with
    email := locked.id.str ++ "@deleted.invalid"
    displayName := "Deleted participant"
    passwordHash := newHash
    enabled := false
    version := locked.version + 1
    updatedAt := now }

/- One user of the list; the answer counts what it did. -/
def anonymizeUser
    (now : ℤ)
    (listed : User) : AccountsM RetentionResult := do
  match ← selectUserForUpdate listed.id with
  | none => Prog.done ⟨0, 0⟩
  | some locked =>
      if deletedEmail locked.email then
        Prog.done ⟨0, 0⟩
      else do
        let text ← tokenHex
        let newHash ← Prog.ask (S := accounts)
          (.passwordHash text)
        let _ ← updateUsers (fun u => u.id = locked.id)
          (anonymize locked newHash now)
        let _ ←
          revokeTokens (fun t => t.userId = locked.id) now
        let deleted ←
          deleteFeedback (fun f => f.userId = locked.id)
        return ⟨1, deleted⟩

/- The loop over the listed users. -/
def anonymizeUsers
    (now : ℤ) : List User → AccountsM RetentionResult
| [] => .done ⟨0, 0⟩
| listed :: rest => do
    let first ← anonymizeUser now listed
    let others ← anonymizeUsers now rest
    return ⟨first.accountsAnonymized +
        others.accountsAnonymized,
      first.feedbackDeleted + others.feedbackDeleted⟩

/- The apply transaction of the retention. -/
def applyRetention
    (r : RetentionRequest)
    (targetScope backupRef : String)
    (requestId : Uuid)
    (now : ℤ)
    (eligible : List User) : AccountsM RetentionResult := do
  let counts ← anonymizeUsers now eligible
  let old ← deleteFeedback (fun f =>
    f.createdAt ≤ now - days r.feedbackCutoffDays)
  let deleted := counts.feedbackDeleted + old
  let _ ← appendAuditLog "operator.retention" "retention"
    none none requestId
    (.retention counts.accountsAnonymized deleted backupRef
      targetScope r.accountCutoffDays r.feedbackCutoffDays)
    now
  return ⟨counts.accountsAnonymized, deleted⟩

def runRetention
    (r : RetentionRequest) : AccountsM RetentionResult := do
  let now ← utcNow
  let requestId ← uuid4
  let eligible ← Prog.select .retentionRead
    (fun _ => [])
    (eligibleUsers (now - days r.accountCutoffDays))
  let feedbackCount ← selectRows (fun s =>
    (s.feedback.filter (fun f =>
      f.createdAt ≤ now - days r.feedbackCutoffDays)).length)
  if r.apply = false then do
    Prog.undo
    return ⟨eligible.length, feedbackCount⟩
  else
    match r.targetScope.filter (· ≠ ""), r.approval,
        r.backupRef.filter (· ≠ "") with
    | none, _, _ =>
        Prog.fail (exitWith
          "Error: --target-scope is required when applying retention changes.")
    | some _, none, _ =>
        Prog.fail (exitWith
          "Error: --approval-file is required when applying retention changes.")
    | some _, some (path, none), _ =>
        Prog.fail (exitWith
          ("Error: Approval file " ++ path ++
            " does not exist."))
    | some targetScope, some (_, some content), backupRef =>
        if X.strip content ≠
            "APPROVE_RETENTION:" ++ targetScope then
          Prog.fail (exitWith
            ("Error: Approval file content does not match " ++
              "required authorization token 'APPROVE_RETENTION:" ++
              targetScope ++ "'."))
        else
          match backupRef with
          | none =>
              Prog.fail (exitWith
                "Error: --backup-ref is required when applying retention changes.")
          | some backupRef => do
              Prog.undo
              applyRetention r targetScope backupRef
                requestId now eligible

end PigBook.Users
