import PigBook.Idempotency.UuidText
import PigBook.Users.UserPatch
import PigBook.Windows.Timestamps

/-
  The hash of a create request.

  Key definitions include:
    * `Encodings`
    * `Value`, `normalizeValue`
    * `dumps`
    * `CreateBody`, `computeRequestHash`

  Key theorems include:
    * `computeRequestHash_ok_iff`
-/

------------------------------------------------------------
-- Library Functions
------------------------------------------------------------

namespace PigBook

/-
  The functions of Python's library that a hash uses: the
  upper case of texts, the `repr` of finite floats, and
  SHA-256 of a text.
-/
structure Encodings where
  upper : String → String
  floatRepr : ℚ → String
  sha256 : String → String

end PigBook

------------------------------------------------------------
-- JSON Texts
------------------------------------------------------------

namespace PigBook

/- Four hexadecimal digits. -/
def hex4 (n : ℕ) : List Char :=
  let digits := Nat.toDigits 16 n
  List.replicate (4 - digits.length) '0' ++ digits

/- A character as `json.dumps` escapes it. -/
def escapeChar (c : Char) : List Char :=
  let n := c.toNat
  if c = '"' then ['\\', '"']
  else if c = '\\' then ['\\', '\\']
  else if c = '\n' then ['\\', 'n']
  else if c = '\r' then ['\\', 'r']
  else if c = '\t' then ['\\', 't']
  else if n = 8 then ['\\', 'b']
  else if n = 12 then ['\\', 'f']
  else if 32 ≤ n ∧ n ≤ 126 then [c]
  else if n < 65536 then '\\' :: 'u' :: hex4 n
  else
    -- the two surrogates
    '\\' :: 'u' :: hex4 (55296 + (n - 65536) / 1024) ++
      '\\' :: 'u' :: hex4 (56320 + (n - 65536) % 1024)

def dumpsText (text : String) : String :=
  "\"" ++ String.ofList (text.toList.flatMap escapeChar) ++
    "\""

/- The members of an object in the order of their names. -/
def dumpsMembers (members : List (String × String)) : String :=
  let sorted :=
    members.mergeSort (fun x y => decide (x.1 ≤ y.1))
  "\x7b" ++
    ",".intercalate
      (sorted.map (fun x => dumpsText x.1 ++ ":" ++ x.2)) ++
    "\x7d"

variable (E : Encodings)

/-
  `json.dumps`, with sorted keys, without blanks, and without
  floats that are not finite.
-/
def dumps : Json → Except Error String
| .null => .ok "null"
| .bool b => .ok (if b then "true" else "false")
| .int n => .ok (toString n)
| .float none =>
    .error (.valueError
      "Out of range float values are not JSON compliant")
| .float (some x) => .ok (E.floatRepr x)
| .string text => .ok (dumpsText text)
| .array items => do
    let texts ← dumpsItems items
    return "[" ++ ",".intercalate texts ++ "]"
| .object members => do
    let texts ← dumpsFields members
    return dumpsMembers texts
where
  dumpsItems : List Json → Except Error (List String)
  | [] => .ok []
  | item :: items => do
      let text ← dumps item
      let texts ← dumpsItems items
      return text :: texts
  dumpsFields :
      List (String × Json) →
        Except Error (List (String × String))
  | [] => .ok []
  | (name, item) :: members => do
      let text ← dumps item
      let texts ← dumpsFields members
      return (name, text) :: texts

end PigBook

------------------------------------------------------------
-- Normalization
------------------------------------------------------------

namespace PigBook

/- What `model_dump` leaves of a request body. -/
inductive Value
  | dict (fields : List (String × Value))
  | list (items : List Value)
  | datetime (val : Datetime)
  | uuid (val : Uuid)
  | plain (val : Json)

/- The instant that a datetime is normalized to. -/
def normalizeDatetime (d : Datetime) : Except Error ℤ :=
  match d.offset with
  | none => .ok d.wall
  | some _ => d.astimezone

def normalizeValue : Value → Except Error Json
| .dict fields => do
    let members ← normalizeFields fields
    return .object members
| .list items => do
    let items ← normalizeItems items
    return .array items
| .datetime val => do
    let dt ← normalizeDatetime val
    return .string (strftime dt)
| .uuid val => .ok (.string val.str)
| .plain val => .ok val
where
  normalizeFields :
      List (String × Value) →
        Except Error (List (String × Json))
  | [] => .ok []
  | (name, val) :: fields => do
      let item ← normalizeValue val
      let members ← normalizeFields fields
      return (name, item) :: members
  normalizeItems : List Value → Except Error (List Json)
  | [] => .ok []
  | val :: vals => do
      let item ← normalizeValue val
      let items ← normalizeItems vals
      return item :: items

/- `path.split("/")` -/
def segments (path : String) : List String :=
  (path.toList.splitOn '/').map String.ofList

/- The canonical form of a segment that is a UUID. -/
def normalizeSegment (seg : String) : String :=
  match parseUuid seg with
  | some u => u.str
  | none => seg

def normalizePath (path : String) : String :=
  "/".intercalate ((segments path).map normalizeSegment)

end PigBook

------------------------------------------------------------
-- Request Hashes
------------------------------------------------------------

namespace PigBook

/- The bodies of the two endpoints that create bookings. -/
inductive CreateBody
  | booking (resourceId : Uuid) (startsAt endsAt : Datetime)
  | blackout (startsAt endsAt : Datetime)

def CreateBody.modelDump : CreateBody → Value
| booking resourceId startsAt endsAt =>
    .dict
      [("resource_id", .uuid resourceId),
        ("starts_at", .datetime startsAt),
        ("ends_at", .datetime endsAt)]
| blackout startsAt endsAt =>
    .dict
      [("starts_at", .datetime startsAt),
        ("ends_at", .datetime endsAt)]

variable (E : Encodings)

def computeRequestHash
    (method path : String)
    (body : CreateBody) : Except Error String := do
  let normalized ← normalizeValue body.modelDump
  let canonicalJson ← dumps E
    (.object
      [("body", normalized),
        ("method", .string (E.upper method)),
        ("path", .string (normalizePath path))])
  return E.sha256 canonicalJson

/- The datetimes that a body holds. -/
def CreateBody.datetimes : CreateBody → List Datetime
| booking _ startsAt endsAt => [startsAt, endsAt]
| blackout startsAt endsAt => [startsAt, endsAt]

variable {E}

theorem normalizeDatetime_eq
    {d : Datetime}
    (hAware : d.Aware) :
    normalizeDatetime d = d.astimezone := by
  rcases hAware with ⟨-, o, hOffset, -⟩
  rw [Option.mem_def] at hOffset
  unfold normalizeDatetime
  rw [hOffset]

theorem normalizeValue_datetime
    {d : Datetime}
    (hAware : d.Aware) :
    normalizeValue (.datetime d) =
      if d.Convertible then
        .ok (.string (strftime d.instant))
      else .error .overflowError := by
  unfold normalizeValue
  rw [normalizeDatetime_eq hAware, Datetime.astimezone_eq]
  split_ifs <;> rfl

/- The text of a request whose body is an object of texts. -/
theorem dumps_request
    (fields : List (String × String))
    (method path : String) :
    dumps E
        (.object
          [("body",
              .object (fields.map (fun x => (x.1, .string x.2)))),
            ("method", .string method),
            ("path", .string path)]) =
      .ok
        (dumpsMembers
          [("body",
              dumpsMembers
                (fields.map (fun x => (x.1, dumpsText x.2)))),
            ("method", dumpsText method),
            ("path", dumpsText path)]) := by
  have hFields :
      dumps.dumpsFields E
          (fields.map (fun x => (x.1, .string x.2))) =
        .ok (fields.map (fun x => (x.1, dumpsText x.2))) := by
    induction fields with
    | nil => rfl
    | cons x fields ih =>
        simp only [List.map_cons, dumps.dumpsFields, dumps, ih]
        rfl
  simp only [dumps, dumps.dumpsFields, hFields]
  rfl

/- The members of a normalized body, in the model's order. -/
def CreateBody.fields : CreateBody → List (String × String)
| booking resourceId startsAt endsAt =>
    [("resource_id", resourceId.str),
      ("starts_at", strftime startsAt.instant),
      ("ends_at", strftime endsAt.instant)]
| blackout startsAt endsAt =>
    [("starts_at", strftime startsAt.instant),
      ("ends_at", strftime endsAt.instant)]

theorem normalizeValue_of_convertible
    {body : CreateBody}
    (hAware : ∀ d ∈ body.datetimes, d.Aware)
    (hRange : ∀ d ∈ body.datetimes, d.Convertible) :
    normalizeValue body.modelDump =
      .ok (.object
        (body.fields.map (fun x => (x.1, .string x.2)))) := by
  cases body with
  | booking resourceId startsAt endsAt =>
      simp only [CreateBody.datetimes, List.forall_mem_cons]
        at hAware hRange
      simp only [CreateBody.modelDump, normalizeValue.eq_1,
        normalizeValue.normalizeFields,
        normalizeValue_datetime hAware.1,
        normalizeValue_datetime hAware.2.1, if_pos hRange.1,
        if_pos hRange.2.1, normalizeValue.eq_4]
      rfl
  | blackout startsAt endsAt =>
      simp only [CreateBody.datetimes, List.forall_mem_cons]
        at hAware hRange
      simp only [CreateBody.modelDump, normalizeValue.eq_1,
        normalizeValue.normalizeFields,
        normalizeValue_datetime hAware.1,
        normalizeValue_datetime hAware.2.1, if_pos hRange.1,
        if_pos hRange.2.1]
      rfl

theorem normalizeValue_of_not
    {body : CreateBody}
    (hAware : ∀ d ∈ body.datetimes, d.Aware)
    (hRange : ¬ ∀ d ∈ body.datetimes, d.Convertible) :
    normalizeValue body.modelDump =
      .error .overflowError := by
  cases body with
  | booking resourceId startsAt endsAt =>
      simp only [CreateBody.datetimes, List.forall_mem_cons]
        at hAware hRange
      simp only [CreateBody.modelDump, normalizeValue.eq_1,
        normalizeValue.normalizeFields,
        normalizeValue_datetime hAware.1,
        normalizeValue_datetime hAware.2.1,
        normalizeValue.eq_4]
      by_cases hFrom : startsAt.Convertible
      · have hUntil : ¬ endsAt.Convertible := by
          intro hUntil
          exact hRange ⟨hFrom, hUntil, by simp⟩
        rw [if_pos hFrom, if_neg hUntil]
        rfl
      · rw [if_neg hFrom]
        rfl
  | blackout startsAt endsAt =>
      simp only [CreateBody.datetimes, List.forall_mem_cons]
        at hAware hRange
      simp only [CreateBody.modelDump, normalizeValue.eq_1,
        normalizeValue.normalizeFields,
        normalizeValue_datetime hAware.1,
        normalizeValue_datetime hAware.2.1]
      by_cases hFrom : startsAt.Convertible
      · have hUntil : ¬ endsAt.Convertible := by
          intro hUntil
          exact hRange ⟨hFrom, hUntil, by simp⟩
        rw [if_pos hFrom, if_neg hUntil]
        rfl
      · rw [if_neg hFrom]
        rfl

/- A body is hashed if its datetimes can be converted. -/
theorem computeRequestHash_ok_iff
    (method path : String)
    {body : CreateBody}
    (hAware : ∀ d ∈ body.datetimes, d.Aware) :
    (∃ hash,
      computeRequestHash E method path body = .ok hash) ↔
      ∀ d ∈ body.datetimes, d.Convertible := by
  unfold computeRequestHash
  by_cases hRange : ∀ d ∈ body.datetimes, d.Convertible
  · refine iff_of_true ?_ hRange
    rw [normalizeValue_of_convertible hAware hRange]
    change
      ∃ hash,
        (dumps E _ >>= fun text => .ok (E.sha256 text)) =
          .ok hash
    rw [dumps_request]
    exact ⟨_, rfl⟩
  · refine iff_of_false ?_ hRange
    rintro ⟨hash, hOk⟩
    rw [normalizeValue_of_not hAware hRange] at hOk
    cases hOk

end PigBook
