import PigBook.ReadCommitted.Schedule
import PigBook.Users.Rows

/-
  The vocabulary of account transactions.

  Key definitions include:
    * `AccountError`
    * `AccountKey`
    * `AccountQuery`
    * `accounts`
    * `Primitives`, `Settings`
-/

------------------------------------------------------------
-- Errors
------------------------------------------------------------

namespace PigBook

/- The constraints that an account statement can violate. -/
inductive AccountConstraint
  | refreshTokensPkey
  | refreshTokensTokenHashKey
  | refreshOneChildIdx
  | refreshTokensExpiryCheck
  | usersEmailKey
  | auditLogPkey
deriving DecidableEq

/- What ends an account transaction with a rollback. -/
inductive AccountError
  | invalidToken (message : String)
  | forbidden (message : String)
  | objectNotFound (message : String)
  | notFound (message : String)
  | versionMismatch (message : String)
  | lastAdmin (message : String)
  | invalidCredentials (message : String)
  | invalidRefresh (message : String)
  | valueError (message : String)
  | runtimeError (message : String)
  | systemExit (message : String)
  | integrityError (constraint : AccountConstraint)
deriving DecidableEq

end PigBook

------------------------------------------------------------
-- Locks
------------------------------------------------------------

namespace PigBook

/-
  What a statement waits for: advisory locks, user rows
  locked FOR UPDATE or FOR SHARE, token rows locked FOR
  UPDATE, and unique index entries in flight.
-/
inductive AccountKey
  | advisory (key : ℤ)
  | userUpdate (id : Uuid)
  | userShare (id : Uuid)
  | tokenUpdate (id : Uuid)
  | refreshTokensPkey (id : Uuid)
  | refreshTokensTokenHash (hash : String)
  | refreshOneChild (parentId : Uuid)
  | auditLogPkey (id : Uuid)
deriving DecidableEq

namespace AccountKey

/- The two keys are not held by two transactions at once. -/
def Conflict : AccountKey → AccountKey → Prop
| advisory key, advisory key' => key = key'
| userUpdate id, userUpdate id' => id = id'
| userUpdate id, userShare id' => id = id'
| userShare id, userUpdate id' => id = id'
| tokenUpdate id, tokenUpdate id' => id = id'
| refreshTokensPkey id, refreshTokensPkey id' => id = id'
| refreshTokensTokenHash h, refreshTokensTokenHash h' =>
    h = h'
| refreshOneChild id, refreshOneChild id' => id = id'
| auditLogPkey id, auditLogPkey id' => id = id'
| _, _ => False

instance : DecidableRel Conflict := by
  intro k k'
  unfold Conflict
  split <;> infer_instance

theorem Conflict.symm
    (k k' : AccountKey)
    (hConflict : k.Conflict k') :
    k'.Conflict k := by
  cases k <;> cases k' <;> simp_all [Conflict]

end AccountKey

end PigBook

------------------------------------------------------------
-- Queries
------------------------------------------------------------

namespace PigBook

open ReadCommitted

/-
  What a statement learns from outside the account tables:
  `now` is the clock of the process, `uuid` is `uuid4()`,
  `tokenUrlsafe` and `tokenHex` are texts of 32 random bytes,
  and `passwordHash` is the salted hash of a password.  Statements
  that later ones depend on carry labels: the reads by which
  a login, a reset, and a retention begin, and the locking
  read of a rotation at the time `now`.
-/
inductive AccountQuery
  | plain
  | loginRead (email : String)
  | resetRead (userId : Uuid)
  | retentionRead
  | rotationLock (tokenHash : String) (now : ℤ)
  | now
  | uuid
  | tokenUrlsafe
  | tokenHex
  | passwordHash (password : String)
deriving DecidableEq

abbrev AccountQuery.Answer : AccountQuery → Type
| plain => Unit
| loginRead _ => Unit
| resetRead _ => Unit
| retentionRead => Unit
| rotationLock _ _ => Unit
| now => ℤ
| uuid => Uuid
| tokenUrlsafe => String
| tokenHex => String
| passwordHash _ => String

/- The signature of the account transactions. -/
abbrev accounts : Sig where
  Key := AccountKey
  Conflict := AccountKey.Conflict
  symm := AccountKey.Conflict.symm
  Query := AccountQuery
  Answer := AccountQuery.Answer
  Error := AccountError

abbrev AccountsM := Prog accounts Accounts

end PigBook

------------------------------------------------------------
-- Library Functions
------------------------------------------------------------

namespace PigBook

/- The claims of an access token. -/
structure AccessClaims where
  sub : String
  role : String
  iat : ℤ
  exp : ℤ
  jti : String
  iss : String
  aud : String
deriving DecidableEq

/-
  The functions outside the repository that the accounts
  use: the text functions of Python, `validate_email`, the
  verification of an Argon2 hash, SHA-256, and JWT encoding.
-/
structure Primitives where
  strip : String → String
  lower : String → String
  validateEmail : String → Except String String
  argon2Verify : String → String → Bool
  sha256 : String → String
  encodeJwt : AccessClaims → String → String

/- The settings that the accounts read. -/
structure Settings where
  jwtSecret : Option String
  accessTokenTtlSeconds : ℤ
  jwtIssuer : String
  jwtAudience : String

end PigBook
