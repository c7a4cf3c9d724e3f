import PigBook.Users.Operations

/-
  Invitations and the users that register with them.

  Key definitions include:
    * `Invitation`, `Registry`
    * `registry`
    * `insertUser`, `insertInvitation`, `consumeInvitation`
    * `register`, `createInvitation`
-/

------------------------------------------------------------
-- Tables
------------------------------------------------------------

namespace PigBook

open ReadCommitted

/- A row of `invitations`. -/
structure Invitation where
  id : Uuid
  email : String
  tokenHash : String
  role : Role
  createdBy : Uuid
  createdAt : ℤ
  expiresAt : ℤ
  consumedAt : Option ℤ
deriving DecidableEq

/- The `details` of what is audited here. -/
inductive RegistryDetails
  | register
      (email : String)
      (role : Role)
      (invitationId : String)
  | invitation
      (email : String)
      (role : Role)
      (expiresAt : ℤ)
deriving DecidableEq

/- A row of `audit_log` about users and invitations. -/
structure RegistryRecord where
  id : Uuid
  actorId : Option Uuid
  action : String
  targetType : String
  targetId : Option Uuid
  requestId : Uuid
  details : RegistryDetails
  createdAt : ℤ
deriving DecidableEq

structure Registry where
  users : List User
  invitations : List Invitation
  audit : List RegistryRecord
deriving DecidableEq

namespace Registry

@[simps] def addUser
    (u : User)
    (s : Registry) : Registry :=
  { s with users := s.users ++ [u] }

@[simps] def addInvitation
    (i : Invitation)
    (s : Registry) : Registry :=
  { s with invitations := s.invitations ++ [i] }

/- The rows that a conditional UPDATE changes, changed. -/
@[simps] def setInvitations
    (p : Invitation → Bool)
    (f : Invitation → Invitation)
    (s : Registry) : Registry :=
  { s with invitations := updateWhere p f s.invitations }

@[simps] def addRecord
    (a : RegistryRecord)
    (s : Registry) : Registry :=
  { s with audit := s.audit ++ [a] }

end Registry

end PigBook

------------------------------------------------------------
-- Signature
------------------------------------------------------------

namespace PigBook

open ReadCommitted

/- The constraints that a statement can violate. -/
inductive RegistryConstraint
  | usersPkey
  | usersEmailKey
  | usersEmailCheck
  | usersDisplayNameCheck
  | invitationsPkey
  | invitationsTokenHashKey
  | invitationsEmailCheck
  | invitationsExpiresAtCheck
  | invitationsCreatedByFkey
  | auditLogPkey
deriving DecidableEq

inductive RegistryError
  | invalidInvitation (message : String)
  | emailExists (message : String)
  | valueError (message : String)
  | integrityError (constraint : RegistryConstraint)
deriving DecidableEq

/-
  What a statement waits for: invitation rows locked FOR
  UPDATE, and unique index entries in flight.
-/
inductive RegistryKey
  | invitationUpdate (id : Uuid)
  | usersPkey (id : Uuid)
  | usersEmail (email : String)
  | invitationsPkey (id : Uuid)
  | invitationsTokenHash (hash : String)
  | auditLogPkey (id : Uuid)
deriving DecidableEq

/-
  What a statement learns from outside: the clock of the
  process, `uuid4()`, 32 random bytes, a salted hash.
-/
inductive RegistryQuery
  | plain
  | now
  | uuid
  | tokenUrlsafe
  | passwordHash (password : String)
deriving DecidableEq

abbrev RegistryQuery.Answer : RegistryQuery → Type
| plain => Unit
| now => ℤ
| uuid => Uuid
| tokenUrlsafe => String
| passwordHash _ => String

abbrev registry : Sig where
  Key := RegistryKey
  Conflict := fun k k' => k = k'
  symm := fun _ _ hEq => hEq.symm
  Query := RegistryQuery
  Answer := RegistryQuery.Answer
  Error := RegistryError

abbrev RegistryM := Prog registry Registry

/-
  The functions outside the repository: those of the accounts
  and `lower(btrim(...))` of the database.
-/
structure RegistryPrimitives extends Primitives where
  lowerBtrim : String → String

end PigBook

------------------------------------------------------------
-- Statements
------------------------------------------------------------

namespace PigBook.Invitations

open ReadCommitted

def utcNow : RegistryM ℤ :=
  @Prog.ask registry Registry .now

def uuid4 : RegistryM Uuid :=
  @Prog.ask registry Registry .uuid

/- base64.urlsafe_b64encode(os.urandom(32)), no padding. -/
def tokenUrlsafe : RegistryM String :=
  @Prog.ask registry Registry .tokenUrlsafe

def hashPassword (password : String) : RegistryM String :=
  @Prog.ask registry Registry (.passwordHash password)

/- The invitation that the unique hash selects. -/
def invitationByHash
    (tokenHash : String)
    (s : Registry) : Option Invitation :=
  s.invitations.find? (fun i => i.tokenHash = tokenHash)

/- SELECT ... FOR UPDATE of an invitation. -/
def selectInvitationForUpdate
    (tokenHash : String) : RegistryM (Option Invitation) :=
  .select .plain
    (fun s =>
      (s.invitations.filter (fun i =>
        i.tokenHash = tokenHash)).map
          (RegistryKey.invitationUpdate ·.id))
    (invitationByHash tokenHash)

/- SELECT users.id WHERE email, which is unique. -/
def selectUserIdByEmail
    (email : String) : RegistryM (Option Uuid) :=
  .select .plain (fun _ => [])
    (fun s =>
      (s.users.find? (fun u => u.email = email)).map (·.id))

variable (X : RegistryPrimitives)

/- The constraint that the INSERT of a user violates. -/
def userViolation
    (u : User)
    (s : Registry) : Option RegistryConstraint :=
  if ¬ (u.email = X.lowerBtrim u.email ∧
      u.email.length ≤ 254) then
    some .usersEmailCheck
  else if ¬ (1 ≤ u.displayName.length ∧
      u.displayName.length ≤ 80) then
    some .usersDisplayNameCheck
  else if ∃ u' ∈ s.users, u'.id = u.id then
    some .usersPkey
  else if ∃ u' ∈ s.users, u'.email = u.email then
    some .usersEmailKey
  else
    none

/- INSERT INTO users. -/
def insertUser
    (u : User) : RegistryM (Option RegistryConstraint) :=
  .stmt .plain
    (fun _ _ => [.usersPkey u.id, .usersEmail u.email])
    (fun s _ =>
      if userViolation X u s = none then
        Registry.addUser u
      else
        id)
    (fun s _ => .done (userViolation X u s))

/- The constraint that the INSERT of an invitation violates. -/
def invitationViolation
    (i : Invitation)
    (s : Registry) : Option RegistryConstraint :=
  if ¬ (i.email = X.lowerBtrim i.email ∧
      i.email.length ≤ 254) then
    some .invitationsEmailCheck
  else if ¬ i.createdAt < i.expiresAt then
    some .invitationsExpiresAtCheck
  else if ∃ i' ∈ s.invitations, i'.id = i.id then
    some .invitationsPkey
  else if ∃ i' ∈ s.invitations, i'.tokenHash = i.tokenHash
      then
    some .invitationsTokenHashKey
  else if ¬ ∃ u ∈ s.users, u.id = i.createdBy then
    some .invitationsCreatedByFkey
  else
    none

/- INSERT INTO invitations. -/
def insertInvitation (i : Invitation) : RegistryM Unit :=
  .stmt .plain
    (fun _ _ =>
      [.invitationsPkey i.id,
        .invitationsTokenHash i.tokenHash])
    (fun _ _ => Registry.addInvitation i)
    (fun s _ =>
      match invitationViolation X i s with
      | some c => .fail (.integrityError c)
      | none => .done ())

/- UPDATE invitations SET consumed_at = now WHERE id. -/
def consumeInvitation
    (id : Uuid)
    (now : ℤ) : RegistryM Unit :=
  .stmt .plain
    (fun _ _ => [.invitationUpdate id])
    (fun _ _ =>
      Registry.setInvitations (fun i => i.id = id)
        (fun i => { i with consumedAt := some now }))
    (fun _ _ => .done ())

/- INSERT INTO audit_log. -/
def insertRecord (a : RegistryRecord) : RegistryM Unit :=
  .stmt .plain
    (fun _ _ => [.auditLogPkey a.id])
    (fun _ _ => Registry.addRecord a)
    (fun s _ =>
      if ∃ a' ∈ s.audit, a'.id = a.id then
        .fail (.integrityError .auditLogPkey)
      else
        .done ())

def appendAuditLog
    (action targetType : String)
    (targetId actorId : Uuid)
    (requestId : Uuid)
    (details : RegistryDetails)
    (now : ℤ) : RegistryM Unit := do
  let auditId ← uuid4
  insertRecord {
    id := auditId
    actorId := some actorId
    action := action
    targetType := targetType
    targetId := some targetId
    requestId := requestId
    details := details
    createdAt := now
  }

end PigBook.Invitations

------------------------------------------------------------
-- Operations
------------------------------------------------------------

namespace PigBook

/- The body of a registration. -/
structure Register where
  invitationToken : String
  email : String
  password : String
  displayName : String
deriving DecidableEq

/- The body of a new invitation. -/
structure InviteCreate where
  email : String
  role : Role
deriving DecidableEq

structure InvitationResult where
  id : Uuid
  email : String
  role : Role
  expiresAt : ℤ
  invitationUrl : String
deriving DecidableEq

end PigBook

namespace PigBook.Invitations

open ReadCommitted

def invalidInvitation : RegistryError :=
  .invalidInvitation "Invalid or expired invitation"

def emailExists : RegistryError :=
  .emailExists "A user with this email already exists"

/-
  How a violated constraint is reported: by the name of the
  constraint, and by the words "unique constraint".
-/
def flushError : RegistryConstraint → RegistryError
| .usersEmailKey => emailExists
| .usersEmailCheck => emailExists
| .usersPkey => emailExists
| _ => invalidInvitation

variable (X : RegistryPrimitives)

/- The user that the invitation makes of the body. -/
def newUser
    (i : Invitation)
    (data : Register)
    (normEmail : String)
    (passwordHash : String)
    (id : Uuid)
    (now : ℤ) : User where
  id := id
  email := normEmail
  passwordHash := passwordHash
  displayName := X.strip data.displayName
  role := i.role
  enabled := true
  version := 1
  createdAt := now
  updatedAt := now

/- What remains once the invitation is found to be good. -/
def admitUser
    (i : Invitation)
    (data : Register)
    (normEmail : String)
    (requestId : Uuid)
    (now : ℤ) : RegistryM User := do
  if (← selectUserIdByEmail normEmail).isSome then
    Prog.fail emailExists
  let pwdHash ← hashPassword data.password
  let userId ← uuid4
  let u := newUser X i data normEmail pwdHash userId now
  match ← insertUser X u with
  | some c => Prog.fail (flushError c)
  | none =>
      consumeInvitation i.id now
      appendAuditLog "auth.register" "user" u.id u.id
        requestId (.register normEmail i.role i.id.str) now
      return u

def register
    (data : Register)
    (requestId : Uuid)
    (now : ℤ) : RegistryM User := do
  let tokenHash := X.sha256 data.invitationToken
  match X.normalizeEmail data.email with
  | .error _ => Prog.fail invalidInvitation
  | .ok normEmail =>
      match ← selectInvitationForUpdate tokenHash with
      | none => Prog.fail invalidInvitation
      | some i =>
          if i.consumedAt.isSome then
            Prog.fail invalidInvitation
          else if i.expiresAt ≤ now then
            Prog.fail invalidInvitation
          else if X.lower (X.strip i.email) ≠ normEmail then
            Prog.fail invalidInvitation
          else
            admitUser X i data normEmail requestId now

def createInvitation
    (appOrigin : String)
    (principalId : Uuid)
    (data : InviteCreate)
    (requestId : Uuid)
    (now : ℤ) : RegistryM InvitationResult := do
  match X.normalizeEmail data.email with
  | .error message => Prog.fail (.valueError message)
  | .ok normEmail =>
      if (← selectUserIdByEmail normEmail).isSome then
        Prog.fail emailExists
      let rawToken ← tokenUrlsafe
      let tokenHash := X.sha256 rawToken
      let expiresAt := now + days 7
      let invitationId ← uuid4
      insertInvitation X {
        id := invitationId
        email := normEmail
        tokenHash := tokenHash
        role := data.role
        createdBy := principalId
        createdAt := now
        expiresAt := expiresAt
        consumedAt := none
      }
      appendAuditLog "admin.invitation_create" "invitation"
        invitationId principalId requestId
        (.invitation normEmail data.role expiresAt) now
      return {
        id := invitationId
        email := normEmail
        role := data.role
        expiresAt := expiresAt
        invitationUrl :=
          appOrigin ++ "/register#token=" ++ rawToken
      }

/- The requests; each knows the identifier it was given. -/
inductive RegistryRequest
  | register (data : Register) (requestId : Uuid)
  | createInvitation
      (principalId : Uuid)
      (data : InviteCreate)
      (requestId : Uuid)

/- What they answer, and to whom. -/
inductive RegistryReply
  | registered (data : Register) (u : User)
  | invited (principalId : Uuid) (result : InvitationResult)
deriving DecidableEq

/- An endpoint reads the clock and runs its operation. -/
def RegistryRequest.program
    (appOrigin : String) :
    RegistryRequest → RegistryM RegistryReply
| register data requestId => do
    let now ← utcNow
    let u ← Invitations.register X data requestId now
    return .registered data u
| createInvitation principalId data requestId => do
    let now ← utcNow
    let result ←
      Invitations.createInvitation X appOrigin principalId
        data requestId now
    return .invited principalId result

/- Any registrations and any invitations. -/
def registryPrograms
    (appOrigin : String)
    (p : RegistryM RegistryReply) : Prop :=
  ∃ request : RegistryRequest, p = request.program X appOrigin

end PigBook.Invitations
