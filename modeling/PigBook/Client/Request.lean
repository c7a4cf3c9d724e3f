import PigBook.Client.Session
import PigBook.Users.UserPatch

/-
  The function `request` of the API client.

  A call is answered by the server or fails in the network,
  and an answer with status 401 is followed by a refresh of
  the session and, when that succeeds, by a second call.

  Key definitions include:
    * `Response`, `Fetched`, `ApiError`, `Settled`
    * `Fetched.settled`
    * `RequestOptions`, `httpRequest`
    * `Exchange`, `request`

  Key theorems include:
    * `request_of_retry`
    * `request_eq`
    * `request_reports_iff`
-/

------------------------------------------------------------
-- JSON Values
------------------------------------------------------------

namespace PigBook

namespace Json

/- The value counts as true; no parsed number is NaN. -/
def truthy : Json → Bool
| null => false
| bool b => b
| int n => n ≠ 0
| float none => true
| float (some x) => x ≠ 0
| string text => text ≠ ""
| array _ => true
| object _ => true

/- A property of the value; `none` is `undefined`. -/
def property (name : String) : Json → Option Json
| object fields => fields.lookup name
| _ => none

/- `value.name || default`. -/
def propertyOr
    (name : String)
    (default : Json)
    (value : Json) : Json :=
  ((value.property name).filter Json.truthy).getD default

end Json

end PigBook

------------------------------------------------------------
-- Answers
------------------------------------------------------------

namespace PigBook.Client

/-
  What `fetch` resolves to: the `ETag` header, if there is
  one, and the value of the body, or why it cannot be read.
-/
structure Response where
  status : ℕ
  statusText : String
  etag : Option String
  body : Except String Json

/- How `fetch` ends; it rejects when the network fails. -/
inductive Fetched
  | response (r : Response)
  | failure (reason : String)

def Response.isOk (r : Response) : Bool :=
  200 ≤ r.status ∧ r.status ≤ 299

structure ApiError where
  status : ℕ
  code : Json
  message : Json
  details : Json

/- What a call resolves to; `none` is `undefined`. -/
structure Result where
  data : Option Json
  etag : Option String

/- How a call ends. -/
inductive Settled
  | resolved (result : Result)
  | apiError (error : ApiError)
  | failure (reason : String)

/- The error of a response that is not ok. -/
def Response.error (r : Response) : ApiError :=
  let message : Json :=
    .string
      (if r.statusText ≠ "" then r.statusText
      else "Request failed")
  let unknown : ApiError := {
    status := r.status
    code := .string "UNKNOWN_ERROR"
    message := message
    details := .object []
  }
  match r.body with
  | .error _ => unknown
  | .ok errBody =>
      match (errBody.property "error").filter Json.truthy with
      | none => unknown
      | some error => {
          status := r.status
          code :=
            error.propertyOr "code" (.string "UNKNOWN_ERROR")
          message := error.propertyOr "message" message
          details := error.propertyOr "details" (.object [])
        }

/- The header without `W/` in front and without quotes. -/
def stripEtag (rawEtag : String) : String :=
  let chars := rawEtag.toList
  let chars :=
    if ['W', '/'].isPrefixOf chars then chars.drop 2
    else chars
  String.ofList (chars.filter (· ≠ '"'))

def Response.result (r : Response) : Settled :=
  let etag := (r.etag.filter (· ≠ "")).map stripEtag
  if r.status = 204 then
    .resolved ⟨none, etag⟩
  else
    match r.body with
    | .error reason => .failure reason
    | .ok data => .resolved ⟨some data, etag⟩

/- How a call ends with what its `fetch` has ended with. -/
def Fetched.settled : Fetched → Settled
| .failure reason => .failure reason
| .response r =>
    if r.isOk then r.result else .apiError r.error

end PigBook.Client

------------------------------------------------------------
-- Calls
------------------------------------------------------------

namespace PigBook.Client

/- A body is sent as it is, or as the JSON of a value. -/
inductive Content
  | text (content : String)
  | binary (content : String)
  | json (value : Json)

def Content.truthy : Content → Bool
| text content => content ≠ ""
| binary _ => true
| json value => value.truthy

structure RequestOptions where
  method : Option String
  headers : List (String × String)
  body : Option Content
  credentials : Option String
  skipAuth : Bool
  retry : Bool

structure HttpRequest where
  url : String
  method : String
  headers : List (String × String)
  body : Option String
  credentials : String

/- `path` with a slash in front. -/
def urlOf (path : String) : String :=
  if path.startsWith "/" then path else "/" ++ path

/- A header is set in its place, or at the end. -/
def setHeader
    (name value : String)
    (headers : List (String × String)) :
    List (String × String) :=
  if headers.any (fun h => h.1 = name) then
    headers.map (fun h =>
      if h.1 = name then (name, value) else h)
  else
    headers ++ [(name, value)]

variable (stringify : Json → String)

/- The text of a body, and the headers that go with it. -/
def bodyData
    (body : Option Content)
    (headers : List (String × String)) :
    Option String × List (String × String) :=
  match body with
  | none => (none, headers)
  | some (.text content) => (some content, headers)
  | some (.binary content) => (some content, headers)
  | some (.json value) =>
      let missing :=
        ((headers.lookup "Content-Type").filter (· ≠ "")).isNone
      (some (stringify value),
        if missing then
          setHeader "Content-Type" "application/json" headers
        else
          headers)

/- The call that is sent while the tab has the token. -/
def httpRequest
    (path : String)
    (options : RequestOptions)
    (token : Option String) : HttpRequest :=
  let headers :=
    match options.skipAuth, token.filter (· ≠ "") with
    | false, some token =>
        setHeader "Authorization" ("Bearer " ++ token)
          options.headers
    | _, _ => options.headers
  let (body, headers) :=
    bodyData stringify options.body headers
  {
    url := urlOf path
    method :=
      (options.method.filter (· ≠ "")).getD
        (if options.body.any Content.truthy then "POST"
        else "GET")
    headers := headers
    body := body
    credentials :=
      (options.credentials.filter (· ≠ "")).getD
        "same-origin"
  }

end PigBook.Client

------------------------------------------------------------
-- Requests
------------------------------------------------------------

namespace PigBook.Client

/-
  How `refreshSession` goes: it joins a refresh in flight,
  finds that another tab has refreshed, or sends a POST.
-/
inductive Refreshing
  | joined (ok : Bool)
  | reused
  | posted (answer : Fetched)

/- `refreshSession` resolves. -/
def Refreshing.succeeded : Refreshing → Bool
| joined ok => ok
| reused => true
| posted (.failure _) => false
| posted (.response r) =>
    match r.body with
    | .error _ => false
    | .ok .null => false
    | .ok _ => r.isOk

/-
  What a request meets: the token in memory and the outcome
  for its n-th call, and how the refresh after it goes.
-/
structure Exchange where
  token : ℕ → Option String
  fetched : ℕ → Fetched
  refreshing : ℕ → Refreshing

/- The answer makes the request refresh the session. -/
def refreshesOn
    (fetched : Fetched)
    (path : String)
    (options : RequestOptions) : Bool :=
  match fetched with
  | .failure _ => false
  | .response r =>
      refreshes r.status ⟨urlOf path, options.retry⟩

theorem retry_of_refreshesOn
    {fetched : Fetched}
    {path : String}
    {options : RequestOptions}
    (hRefreshes : refreshesOn fetched path options = true) :
    options.retry = false := by
  cases fetched with
  | failure reason => cases hRefreshes
  | response r =>
      simp only [refreshesOn, refreshes, decide_eq_true_eq]
        at hRefreshes
      exact hRefreshes.2.1

variable (stringify : Json → String) (X : Exchange)

/-
  The request, after the calls `sent`.  The `catch` around
  the refresh takes what the second call rejects with, too.
-/
def request
    (path : String)
    (options : RequestOptions)
    (sent : List HttpRequest) :
    Settled × List HttpRequest :=
  let n := sent.length
  let fetched := X.fetched n
  let sent :=
    sent ++ [httpRequest stringify path options (X.token n)]
  if _ : refreshesOn fetched path options then
    if (X.refreshing n).succeeded then
      match
        request path { options with retry := true } sent
      with
      | (.resolved result, sent) => (.resolved result, sent)
      | (_, sent) => (fetched.settled, sent)
    else
      (fetched.settled, sent)
  else
    (fetched.settled, sent)
termination_by if options.retry then 0 else 1
decreasing_by
  rename_i hRefreshes _
  rw [retry_of_refreshesOn hRefreshes]
  decide

end PigBook.Client

------------------------------------------------------------
-- Reports
------------------------------------------------------------

namespace PigBook.Client

/-
  What a call reports: its data and its ETag, the status, the
  code, and the details of its error, or its failure.
-/
inductive Report
  | resolved (data : Option Json) (etag : Option String)
  | apiError (status : ℕ) (code details : Json)
  | failure (reason : String)

def Settled.report : Settled → Report
| resolved result => .resolved result.data result.etag
| apiError error =>
    .apiError error.status error.code error.details
| failure reason => .failure reason

def Settled.isResolved : Settled → Bool
| resolved _ => true
| _ => false

variable (stringify : Json → String) (X : Exchange)
variable (path : String) (options : RequestOptions)

/- The first answer makes the request send a second call. -/
def Retried : Prop :=
  refreshesOn (X.fetched 0) path options = true ∧
    (X.refreshing 0).succeeded = true

instance : Decidable (Retried X path options) :=
  inferInstanceAs (Decidable (_ ∧ _))

/- The second call fails, with another error than the first. -/
def SecondFails : Prop :=
  (X.fetched 1).settled.isResolved = false ∧
    (X.fetched 1).settled.report ≠
      (X.fetched 0).settled.report

/- A call that is the retry is not followed by another. -/
theorem request_of_retry
    {sent : List HttpRequest}
    (hRetry : options.retry = true) :
    request stringify X path options sent =
      ((X.fetched sent.length).settled,
        sent ++
          [httpRequest stringify path options
            (X.token sent.length)]) := by
  have hOnce :
      ¬ refreshesOn (X.fetched sent.length) path options =
        true := by
    intro hRefreshes
    rw [retry_of_refreshesOn hRefreshes] at hRetry
    cases hRetry
  rw [request, dif_neg hOnce]

/- The calls that a request sends, and how it ends. -/
theorem request_eq :
    request stringify X path options [] =
      if Retried X path options then
        (if (X.fetched 1).settled.isResolved then
            (X.fetched 1).settled
          else (X.fetched 0).settled,
          [httpRequest stringify path options (X.token 0),
            httpRequest stringify path
              { options with retry := true } (X.token 1)])
      else
        ((X.fetched 0).settled,
          [httpRequest stringify path options
            (X.token 0)]) := by
  rw [request]
  by_cases hRefreshes :
      refreshesOn (X.fetched 0) path options = true
  · by_cases hSucceeded : (X.refreshing 0).succeeded = true
    · have hRetried : Retried X path options :=
        ⟨hRefreshes, hSucceeded⟩
      rw [if_pos hRetried]
      simp only [List.length_nil, List.nil_append]
      rw [dif_pos hRefreshes, if_pos hSucceeded,
        request_of_retry _ _ _ _ rfl]
      cases hSecond : (X.fetched 1).settled <;>
        simp [Settled.isResolved]
    · have hOnce : ¬ Retried X path options :=
        fun h => hSucceeded h.2
      rw [if_neg hOnce]
      simp [hRefreshes, hSucceeded]
  · have hOnce : ¬ Retried X path options :=
      fun h => hRefreshes h.1
    rw [if_neg hOnce]
    simp [hRefreshes]

/-
  The request sends at most two calls, the second only after
  an answer with status 401 and a refresh, and it reports the
  last call that it has sent.
-/
structure ReportsLast : Prop where
  calls :
    (request stringify X path options []).2.length = 1 ∨
      (request stringify X path options []).2.length = 2
  retried :
    (request stringify X path options []).2.length = 2 →
      (∃ r, X.fetched 0 = .response r ∧ r.status = 401) ∧
        (X.refreshing 0).succeeded = true
  first :
    (request stringify X path options []).2.length = 1 →
      (request stringify X path options []).1.report =
        (X.fetched 0).settled.report
  second :
    (request stringify X path options []).2.length = 2 →
      (request stringify X path options []).1.report =
        (X.fetched 1).settled.report

variable {stringify X path options}

theorem Retried.unauthorized
    (hRetried : Retried X path options) :
    ∃ r, X.fetched 0 = .response r ∧ r.status = 401 := by
  have hRefreshes := hRetried.1
  cases hFetched : X.fetched 0 with
  | failure reason =>
      rw [hFetched] at hRefreshes
      cases hRefreshes
  | response r =>
      rw [hFetched] at hRefreshes
      simp only [refreshesOn, refreshes, decide_eq_true_eq]
        at hRefreshes
      exact ⟨r, rfl, hRefreshes.1⟩

/-
  Whatever the answers: a request reports as it should unless
  it is retried and the second call fails with an error of
  its own, which is lost.
-/
theorem request_reports_iff :
    ReportsLast stringify X path options ↔
      ¬ (Retried X path options ∧ SecondFails X) := by
  by_cases hRetried : Retried X path options
  · have hRequest := request_eq stringify X path options
    rw [if_pos hRetried] at hRequest
    constructor
    · rintro hReports ⟨-, hFails, hOther⟩
      have hSecond := hReports.second (by rw [hRequest]; rfl)
      rw [hRequest, hFails] at hSecond
      exact hOther hSecond.symm
    · intro hNot
      constructor
      · rw [hRequest]
        exact Or.inr rfl
      · intro hTwo
        exact ⟨hRetried.unauthorized, hRetried.2⟩
      · intro hOne
        rw [hRequest] at hOne
        cases hOne
      · intro hTwo
        rw [hRequest]
        dsimp only
        by_cases hResolved :
            (X.fetched 1).settled.isResolved = true
        · rw [if_pos hResolved]
        · rw [if_neg hResolved]
          by_contra hOther
          apply hNot
          exact
            ⟨hRetried, by simpa using hResolved,
              fun h => hOther h.symm⟩
  · have hRequest := request_eq stringify X path options
    rw [if_neg hRetried] at hRequest
    refine iff_of_true ?_ (fun h => hRetried h.1)
    constructor
    · rw [hRequest]
      exact Or.inl rfl
    · intro hTwo
      rw [hRequest] at hTwo
      cases hTwo
    · intro hOne
      rw [hRequest]
    · intro hTwo
      rw [hRequest] at hTwo
      cases hTwo

/- The calls of the retried request: 401, and then 409. -/
def unauthorizedThenConflict : Exchange where
  token := fun _ => some "token"
  fetched := fun n =>
    .response {
      status := if n = 0 then 401 else 409
      statusText := ""
      etag := none
      body := .ok .null
    }
  refreshing := fun _ => .joined true

def plainOptions : RequestOptions where
  method := some "POST"
  headers := []
  body := none
  credentials := none
  skipAuth := false
  retry := false

/- The conflict is reported as the first answer, a 401. -/
theorem request_loses_conflict :
    (request (fun _ => "") unauthorizedThenConflict
        "/api/v1/bookings" plainOptions []).1.report =
      .apiError 401 (.string "UNKNOWN_ERROR") (.object []) ∧
    ¬ ReportsLast (fun _ => "") unauthorizedThenConflict
        "/api/v1/bookings" plainOptions := by
  have hRetried :
      Retried unauthorizedThenConflict "/api/v1/bookings"
        plainOptions := by
    decide +kernel
  have hRequest :=
    request_eq (fun _ => "") unauthorizedThenConflict
      "/api/v1/bookings" plainOptions
  rw [if_pos hRetried] at hRequest
  constructor
  · rw [hRequest]
    rfl
  · intro hReports
    have hSecond := hReports.second (by rw [hRequest]; rfl)
    rw [hRequest] at hSecond
    cases hSecond

end PigBook.Client
