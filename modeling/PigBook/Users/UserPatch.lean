import Mathlib.Data.Rat.Defs
import PigBook.Users.Rows

/-
  The request body of the user patch, and its two readers:
  the model `UserPatch` and the guard of the last admin.

  Key definitions include:
    * `Json`, `RequestBody`
    * `UserPatch.validate`
    * `RequestBody.remainsAdmin`
-/

------------------------------------------------------------
-- Bodies
------------------------------------------------------------

namespace PigBook

/-
  A parsed JSON value.  A number with a fraction or an
  exponent is a float; it is `none` when it is not finite.
-/
inductive Json
  | null
  | bool (b : Bool)
  | int (n : ℤ)
  | float (x : Option ℚ)
  | string (text : String)
  | array (items : List Json)
  | object (fields : List (String × Json))

/- The parsed object of a request body. -/
abbrev RequestBody := List (String × Json)

end PigBook

------------------------------------------------------------
-- The Model
------------------------------------------------------------

namespace PigBook

/- The fields that a patch sets. -/
structure UserPatch where
  role : Option Role
  enabled : Option Bool
deriving DecidableEq

namespace UserPatch

/- The value of the field `role`, when it is set. -/
def validateRole :
    Option Json → Except String (Option Role)
| none => .ok none
| some .null => .error "role cannot be null"
| some (.string "member") => .ok (some .member)
| some (.string "admin") => .ok (some .admin)
| some _ => .error "Input should be 'member' or 'admin'"

/-
  The value of the field `enabled`, when it is set; `lax`
  is the lax parser of Booleans.
-/
def validateEnabled
    (lax : Json → Option Bool) :
    Option Json → Except String (Option Bool)
| none => .ok none
| some .null => .error "enabled cannot be null"
| some v =>
    match lax v with
    | some b => .ok (some b)
    | none => .error "Input should be a valid boolean"

/- The patch that a body is admitted as. -/
def validate
    (lax : Json → Option Bool)
    (body : RequestBody) : Except String UserPatch := do
  if ∃ field ∈ body,
      field.1 ≠ "role" ∧ field.1 ≠ "enabled" then
    throw "Extra inputs are not permitted"
  let role ← validateRole (body.lookup "role")
  let enabled ← validateEnabled lax (body.lookup "enabled")
  if role = none ∧ enabled = none then
    throw "At least one of role or enabled must be provided"
  return { role := role, enabled := enabled }

/- The names of the fields set, sorted. -/
def fields (patch : UserPatch) : List String :=
  (if patch.enabled.isSome then ["enabled"] else []) ++
    (if patch.role.isSome then ["role"] else [])

end UserPatch

end PigBook

------------------------------------------------------------
-- The Guard
------------------------------------------------------------

namespace PigBook

namespace RequestBody

/- `patch_role` is null or "admin". -/
def keepsRole (body : RequestBody) : Bool :=
  match body.lookup "role" with
  | none => true
  | some .null => true
  | some (.string role) => role = "admin"
  | some _ => false

/- `patch_enabled` is not `False`. -/
def keepsEnabled (body : RequestBody) : Bool :=
  match body.lookup "enabled" with
  | some (.bool false) => false
  | _ => true

/- `rem_admin`: as the guard reads it, the target remains. -/
def remainsAdmin (body : RequestBody) : Bool :=
  body.keepsRole && body.keepsEnabled

end RequestBody

end PigBook
