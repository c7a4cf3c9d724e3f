import PigBook.Users.Statements

/-
  The surroundings of the account transactions.

  Nothing is assumed of the clocks and of the random values.
  One way in which they may behave makes runs computable.

  Key definitions include:
    * `accountsWorld`
    * `Users.simulator`
    * `plainPrimitives`, `plainSettings`
    * `accountsOf`
-/

------------------------------------------------------------
-- The World
------------------------------------------------------------

namespace PigBook

open ReadCommitted

/- A clock, and how many random values have been drawn. -/
structure Outside where
  clock : ℤ
  drawn : ℕ

/- Whatever is answered may be answered. -/
def accountsWorld : World accounts where
  Carrier := Outside
  answers := fun _ _ _ _ => True
  advance := fun _ _ => True

namespace Outside

/- One more random value has been drawn. -/
def draw (env : Outside) : Outside :=
  { env with drawn := env.drawn + 1 }

/- A text that tells one draw from another. -/
def text (env : Outside) : String :=
  "drawn " ++ Nat.repr env.drawn

end Outside

namespace Users

/- Values are drawn in turn, and an hour passes at a time. -/
def respond
    (env : Outside)
    (q : AccountQuery) : q.Answer × Outside :=
  match q with
  | .plain => ((), env)
  | .loginRead _ => ((), env)
  | .resetRead _ => ((), env)
  | .retentionRead => ((), env)
  | .rotationLock _ _ => ((), env)
  | .now => (env.clock, env)
  | .uuid =>
      (Fin.ofNat (2 ^ 128) (env.drawn + 1), env.draw)
  | .tokenUrlsafe => (env.text, env.draw)
  | .tokenHex => (env.text, env.draw)
  | .passwordHash password =>
      (env.text ++ password, env.draw)

def simulator : Simulator accountsWorld where
  respond := respond
  answers := fun _ _ => trivial
  pass := fun env : Outside =>
    { env with clock := env.clock + hours 1 }
  advance := fun _ => trivial

end Users

end PigBook

------------------------------------------------------------
-- Library Functions that Compute
------------------------------------------------------------

namespace PigBook

/-
  Texts are taken as they are, and the simulated hash of a
  password ends with the password.
-/
def plainPrimitives : Primitives where
  strip := id
  lower := id
  validateEmail := .ok
  argon2Verify := fun hash password => hash.endsWith password
  sha256 := id
  encodeJwt := fun claims _ => claims.jti

def plainSettings : Settings where
  jwtSecret := some "0123456789abcdef0123456789abcdef"
  accessTokenTtlSeconds := 900
  jwtIssuer := "commonsbook"
  jwtAudience := "commonsbook-web"

end PigBook

------------------------------------------------------------
-- Accounts to Begin with
------------------------------------------------------------

namespace PigBook

open ReadCommitted

/- An enabled administrator. -/
def adminRow (id : Uuid) : User where
  id := id
  email := "admin " ++ Nat.repr id.val
  passwordHash := ""
  displayName := ""
  role := .admin
  enabled := true
  version := 1
  createdAt := 0
  updatedAt := 0

/- Accounts with users only. -/
def accountsOf (users : List User) : Accounts where
  users := users
  tokens := []
  feedback := []
  audit := []

theorem accountsOf_valid
    {users : List User}
    (hUsers : users.Pairwise (fun u u' => u.id ≠ u'.id)) :
    (accountsOf users).Valid where
  users := hUsers
  tokens := .nil
  hashes := .nil

end PigBook
