import PigBook.Inventory.Rows

/-
  The tables of the accounts: users, their refresh tokens,
  feedback, and the audit records of account changes.

  Key definitions include:
    * `Role`, `User`, `RefreshToken`
    * `Accounts`
    * `userById`, `userByEmail`
    * `activeAdmins`
-/

------------------------------------------------------------
-- Rows
------------------------------------------------------------

namespace PigBook

inductive Role
  | member
  | admin
deriving DecidableEq

/- A row of `users`. -/
structure User where
  id : Uuid
  email : String
  passwordHash : String
  displayName : String
  role : Role
  enabled : Bool
  version : ℕ
  createdAt : ℤ
  updatedAt : ℤ
deriving DecidableEq

namespace User

def isActiveAdmin (u : User) : Bool :=
  u.role = .admin ∧ u.enabled = true

@[simp] theorem isActiveAdmin_iff
    {u : User} :
    u.isActiveAdmin = true ↔
      u.role = .admin ∧ u.enabled = true := by
  simp [isActiveAdmin]

end User

/- A row of `refresh_tokens`. -/
structure RefreshToken where
  id : Uuid
  userId : Uuid
  tokenHash : String
  familyId : Uuid
  parentId : Option Uuid
  createdAt : ℤ
  expiresAt : ℤ
  familyExpiresAt : ℤ
  usedAt : Option ℤ
  revokedAt : Option ℤ
deriving DecidableEq

namespace RefreshToken

/- The CHECK constraint of the table. -/
def Check (t : RefreshToken) : Prop :=
  t.createdAt < t.expiresAt ∧
    t.expiresAt ≤ t.familyExpiresAt

instance (t : RefreshToken) : Decidable t.Check :=
  inferInstanceAs (Decidable (_ ∧ _))

end RefreshToken

/- The `details` of the audited account actions. -/
inductive AccountDetails
  | userUpdate
      (fields : List String)
      (role : Option (Role × Role))
      (enabled : Option (Bool × Bool))
  | passwordReset (userId : String) (revokedCount : ℕ)
  | refreshReuse (userId familyId eventCategory : String)
  | retention
      (accountsAnonymized feedbackDeleted : ℕ)
      (backupRef targetScope : String)
      (accountCutoffDays feedbackCutoffDays : ℤ)
deriving DecidableEq

/- A row of `feedback`, as far as the accounts read it. -/
structure Feedback where
  id : Uuid
  userId : Uuid
  createdAt : ℤ
deriving DecidableEq

/- A row of `audit_log` about an account. -/
structure AccountRecord where
  id : Uuid
  actorId : Option Uuid
  action : String
  targetType : String
  targetId : Option Uuid
  requestId : Uuid
  details : AccountDetails
  createdAt : ℤ
deriving DecidableEq

end PigBook

------------------------------------------------------------
-- Tables
------------------------------------------------------------

namespace PigBook

open ReadCommitted

structure Accounts where
  users : List User
  tokens : List RefreshToken
  feedback : List Feedback
  audit : List AccountRecord
deriving DecidableEq

namespace Accounts

/- The rows that a conditional UPDATE changes, changed. -/
@[simps] def setUsers
    (p : User → Bool)
    (f : User → User)
    (s : Accounts) : Accounts :=
  { s with users := updateWhere p f s.users }

@[simps] def setTokens
    (p : RefreshToken → Bool)
    (f : RefreshToken → RefreshToken)
    (s : Accounts) : Accounts :=
  { s with tokens := updateWhere p f s.tokens }

@[simps] def addToken
    (t : RefreshToken)
    (s : Accounts) : Accounts :=
  { s with tokens := s.tokens ++ [t] }

@[simps] def deleteFeedback
    (p : Feedback → Bool)
    (s : Accounts) : Accounts :=
  { s with feedback := s.feedback.filter (fun r => ¬ p r) }

@[simps] def addRecord
    (a : AccountRecord)
    (s : Accounts) : Accounts :=
  { s with audit := s.audit ++ [a] }

end Accounts

/- The user that the primary key selects. -/
def userById (id : Uuid) (s : Accounts) : Option User :=
  s.users.find? (fun u => u.id = id)

/- The user that the unique e-mail address selects. -/
def userByEmail
    (email : String)
    (s : Accounts) : Option User :=
  s.users.find? (fun u => u.email = email)

/- `count(users.id)` over the enabled administrators. -/
def activeAdmins (s : Accounts) : ℕ :=
  s.users.countP User.isActiveAdmin

/- The token that the unique hash selects. -/
def tokenByHash
    (tokenHash : String)
    (s : Accounts) : Option RefreshToken :=
  s.tokens.find? (fun t => t.tokenHash = tokenHash)

/- The unrevoked tokens among those that `p` selects. -/
def unrevoked
    (p : RefreshToken → Bool)
    (s : Accounts) : List RefreshToken :=
  s.tokens.filter (fun t => p t ∧ t.revokedAt = none)

/- The unique keys that the tables keep. -/
structure Accounts.Valid (s : Accounts) : Prop where
  users : Keyed User.id s.users
  tokens : Keyed RefreshToken.id s.tokens
  hashes : Keyed RefreshToken.tokenHash s.tokens

variable {s : Accounts} {id : Uuid} {u : User}

theorem userById_id
    (hUser : userById id s = some u) :
    u.id = id := by
  simpa using List.find?_some hUser

theorem userById_mem
    (hUser : userById id s = some u) :
    u ∈ s.users :=
  List.mem_of_find?_eq_some hUser

theorem userById_none
    (hUser : userById id s = none) :
    ∀ u ∈ s.users, u.id ≠ id := by
  intro u hMem
  simpa using List.find?_eq_none.mp hUser u hMem

/- The primary key selects every row of the table. -/
theorem userById_of_mem
    (hKeyed : Keyed User.id s.users)
    (hMem : u ∈ s.users) :
    userById u.id s = some u := by
  cases hFound : userById u.id s with
  | none => exact absurd rfl (userById_none hFound u hMem)
  | some v =>
      have hSame :=
        hKeyed.eq_of_key (userById_mem hFound) hMem
          (userById_id hFound)
      rw [hSame]

theorem mem_unrevoked
    {p : RefreshToken → Bool}
    {t : RefreshToken} :
    t ∈ unrevoked p s ↔
      t ∈ s.tokens ∧ p t = true ∧ t.revokedAt = none := by
  simp [unrevoked]

end PigBook
