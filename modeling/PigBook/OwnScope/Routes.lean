import PigBook.Inventory.Operations
import PigBook.RateLimits.Buckets
import PigBook.ReadCommitted.Alone
import PigBook.Users.Rows

/-
  The routes of one's own bookings and waitlist entries, from
  the authorization dependency to the response.

  The request has a valid access token of the principal, and
  is the only one at work.

  Key definitions include:
    * `Database`
    * `Response`, `Error.response`
    * `parseIfMatch`, `authenticate`
    * `resolveOwnBookingScope`, `resolveOwnWaitlistScope`
    * `listOwnBookings`, `listOwnWaitlist`, `getOwnBooking`
    * `transact`, `serve`, `handle`
-/

------------------------------------------------------------
-- The Database
------------------------------------------------------------

namespace PigBook.OwnScope

/-
  The tables that the routes read and write: users, counters,
  the resources with an id, and the rows of each resource.
-/
structure Database where
  users : List User
  counters : RateLimits.Counters
  resourceIds : List Uuid
  inventory : Uuid → Cell

namespace Database

/- The table of bookings, each with its `resource_id`. -/
def bookings (d : Database) : List (Uuid × Booking) :=
  d.resourceIds.flatMap (fun rid =>
    (d.inventory rid).bookings.map (fun b => (rid, b)))

def entries (d : Database) : List (Uuid × WaitlistEntry) :=
  d.resourceIds.flatMap (fun rid =>
    (d.inventory rid).entries.map (fun e => (rid, e)))

/- The bookings and the entries of one user. -/
def bookingsOf
    (p : Uuid)
    (d : Database) : List (Uuid × Booking) :=
  d.bookings.filter (fun row => row.2.userId = some p)

def entriesOf
    (p : Uuid)
    (d : Database) : List (Uuid × WaitlistEntry) :=
  d.entries.filter (fun row => row.2.userId = p)

end Database

end PigBook.OwnScope

------------------------------------------------------------
-- Responses
------------------------------------------------------------

namespace PigBook.OwnScope

/- One error of a request that fails its validation. -/
structure Problem where
  loc : List String
  msg : String
  type : String
deriving DecidableEq

/- The `details` of an error. -/
inductive Details
  | empty
  | retryAfter (n : ℕ)
  | errors (problems : List Problem)
deriving DecidableEq

structure Page (α : Type) where
  items : List α
  total : ℕ
  limit : ℕ
  offset : ℕ
deriving DecidableEq

inductive Content
  | booking (b : BookingSchema)
  | entry (e : WaitEntry)
  | bookings (page : Page BookingSchema)
  | entries (page : Page WaitEntry)
  | error (code message : String) (details : Details)
deriving DecidableEq

structure Response where
  status : ℕ
  content : Content
  headers : List (String × String)
deriving DecidableEq

def makeErrorResponse
    (statusCode : ℕ)
    (code message : String) : Response where
  status := statusCode
  content := .error code message .empty
  headers := []

/- The handlers of the exceptions that the routes raise. -/
def invalidToken : Response :=
  makeErrorResponse 401 "INVALID_TOKEN"
    "Invalid or expired token"

def forbidden : Response :=
  makeErrorResponse 403 "FORBIDDEN"
    "Insufficient permissions"

def objectNotFound (message : String) : Response :=
  makeErrorResponse 404 "NOT_FOUND" message

def preconditionRequired : Response :=
  makeErrorResponse 428 "PRECONDITION_REQUIRED"
    "If-Match header is required"

def invalidIfMatch : Response :=
  makeErrorResponse 422 "VALIDATION_ERROR"
    "If-Match must be a single strong entity tag of the form \"<version>\""

def internalError : Response :=
  makeErrorResponse 500 "INTERNAL_ERROR"
    "Internal server error"

def rateLimited (retryAfter : ℕ) : Response where
  status := 429
  content :=
    .error "RATE_LIMITED"
      ("Rate limit exceeded. Retry after " ++
        toString retryAfter ++ " seconds.")
      (.retryAfter retryAfter)
  headers := [("Retry-After", toString retryAfter)]

def validationError (problems : List Problem) : Response where
  status := 422
  content :=
    .error "VALIDATION_ERROR" "Request validation failed"
      (.errors problems)
  headers := []

/- The error of a path whose id is not a UUID. -/
def uuidParsing : Problem where
  loc := ["path", "id"]
  msg := "Input should be a valid UUID"
  type := "uuid_parsing"

end PigBook.OwnScope

namespace PigBook

open OwnScope

/- How the exceptions of the services are answered. -/
def Error.response : Error → Response
| notFound message => objectNotFound message
| resourceInactive message =>
    makeErrorResponse 409 "RESOURCE_INACTIVE" message
| slotConflict message =>
    makeErrorResponse 409 "SLOT_CONFLICT" message
| invalidWindow message =>
    makeErrorResponse 422 "INVALID_WINDOW" message
| versionMismatch message =>
    makeErrorResponse 412 "VERSION_MISMATCH" message
| tooLate message =>
    makeErrorResponse 409 "TOO_LATE" message
| invalidState message =>
    makeErrorResponse 409 "INVALID_STATE" message
| slotAvailable message =>
    makeErrorResponse 409 "SLOT_AVAILABLE" message
| alreadyWaitlisted message =>
    makeErrorResponse 409 "ALREADY_WAITLISTED" message
| alreadyBooked message =>
    makeErrorResponse 409 "ALREADY_BOOKED" message
| waitlistFull message =>
    makeErrorResponse 409 "WAITLIST_FULL" message
| resourceInUse message =>
    makeErrorResponse 409 "RESOURCE_IN_USE" message
| integrityError _ => internalError
| overflowError => internalError
| valueError _ => internalError
| runtimeError _ => internalError
| exhausted => internalError

/- The response with what a service answers. -/
def Reply.response : Reply → Response
| booking b =>
    ⟨200, .booking b, [("ETag", etag b.version)]⟩
| entry e => ⟨200, .entry e, [("ETag", etag e.version)]⟩
| stored response =>
    match response.body with
    | .booking b =>
        ⟨response.status, .booking b, response.headers⟩
    | .error code message =>
        ⟨response.status, .error code message .empty,
          response.headers⟩
| resource _ => internalError
| expired _ => internalError

end PigBook

------------------------------------------------------------
-- The If-Match Header
------------------------------------------------------------

namespace PigBook.OwnScope

/- The characters that `str.strip` removes. -/
def isSpace (c : Char) : Bool :=
  let n := c.toNat
  (9 ≤ n ∧ n ≤ 13) ∨ (28 ≤ n ∧ n ≤ 32) ∨ n = 0x85 ∨
    n = 0xA0 ∨ n = 0x1680 ∨ (0x2000 ≤ n ∧ n ≤ 0x200A) ∨
    n = 0x2028 ∨ n = 0x2029 ∨ n = 0x202F ∨ n = 0x205F ∨
    n = 0x3000

def strip (text : List Char) : List Char :=
  ((text.dropWhile isSpace).reverse.dropWhile
    isSpace).reverse

/- The match of `0|[1-9][0-9]*`. -/
def isVersion (digits : List Char) : Bool :=
  match digits with
  | [] => false
  | ['0'] => true
  | c :: cs => c ≠ '0' ∧ (c :: cs).all Char.isDigit

/- The digits between the quotes of a strong entity tag. -/
def strongEtag (text : List Char) : Option (List Char) :=
  match text with
  | '"' :: rest =>
      match rest.reverse with
      | '"' :: digits =>
          if isVersion digits.reverse then
            some digits.reverse
          else
            none
      | _ => none
  | _ => none

/- The number that decimal digits denote. -/
def decimal (digits : List Char) : ℕ :=
  digits.foldl (fun n c => 10 * n + (c.toNat - '0'.toNat)) 0

/- The digits that `int` converts at most. -/
def maxStrDigits : ℕ := 4300

def parseIfMatch
    (headerValue : Option String) : Except Response ℕ :=
  match headerValue with
  | none => .error preconditionRequired
  | some text =>
      if strip text.toList = [] then
        .error preconditionRequired
      else
        match strongEtag (strip text.toList) with
        | none => .error invalidIfMatch
        | some digits =>
            if maxStrDigits < digits.length then
              .error internalError
            else
              .ok (decimal digits)

example :
    (parseIfMatch (some " \"12\" ")).toOption = some 12 := by
  decide

end PigBook.OwnScope

------------------------------------------------------------
-- Authorization
------------------------------------------------------------

namespace PigBook.OwnScope

/- The roles that the own-scope policies accept. -/
def enforcePolicyRole (role : Role) : Except Response Unit :=
  if role ∈ [Role.member, Role.admin] then
    .ok ()
  else
    .error forbidden

/- `one_or_none`, with its exception for several rows. -/
def oneOrNone
    {α : Type}
    (rows : List α) : Except Response (Option α) :=
  match rows with
  | [] => .ok none
  | [row] => .ok (some row)
  | _ => .error internalError

/-
  The user is read on every request, and once more in the
  transaction of a mutation.
-/
def authenticate
    (p : Uuid)
    (users : List User) : Except Response Unit :=
  match oneOrNone (users.filter (fun u => u.id = p)) with
  | .error response => .error response
  | .ok none => .error invalidToken
  | .ok (some u) =>
      if u.enabled = false then
        .error invalidToken
      else
        enforcePolicyRole u.role

inductive Method
  | get
  | post
  | delete
deriving DecidableEq

/- What the settings and the keyed hash of identities fix. -/
structure Profile where
  race : Bool
  hashIdentity : String → String

/- The budget that a request costs its principal. -/
def Profile.rateLimit
    (W : Profile)
    (p : Uuid)
    (m : Method) : RateLimits.RateLimited :=
  if m = .get then
    RateLimits.checkReadRateLimit W.race
      (W.hashIdentity p.str)
  else
    RateLimits.checkMutationRateLimit W.race
      (W.hashIdentity p.str)

/- The object that a request addresses. -/
structure AuthorizedScope where
  objectId : Uuid
  resourceId : Uuid
  expectedVersion : Option ℕ
deriving DecidableEq

/- The version that a mutation is pinned to. -/
def expectedVersion
    (m : Method)
    (ifMatch : Option String) : Except Response (Option ℕ) :=
  if m = .get then
    .ok none
  else
    (parseIfMatch ifMatch).map some

/-
  Resolve the id of the path.  The header is parsed before any
  row is read; `rows` selects the resources of the rows with
  the id that are the principal's own.
-/
def resolveOwnScope
    (m : Method)
    (ifMatch : Option String)
    (rawId : Option Uuid)
    (rows : Uuid → List Uuid)
    (message : String) : Except Response AuthorizedScope :=
  match expectedVersion m ifMatch with
  | .error response => .error response
  | .ok version =>
      match rawId with
      | none => .error (validationError [uuidParsing])
      | some id =>
          match oneOrNone (rows id) with
          | .error response => .error response
          | .ok none => .error (objectNotFound message)
          | .ok (some rid) => .ok ⟨id, rid, version⟩

def resolveOwnBookingScope
    (p : Uuid)
    (d : Database)
    (m : Method)
    (ifMatch : Option String)
    (rawId : Option Uuid) : Except Response AuthorizedScope :=
  resolveOwnScope m ifMatch rawId
    (fun id =>
      (d.bookings.filter (fun row =>
        row.2.id = id ∧ row.2.kind = .reservation ∧
          row.2.userId = some p)).map Prod.fst)
    "Booking not found"

def resolveOwnWaitlistScope
    (p : Uuid)
    (d : Database)
    (m : Method)
    (ifMatch : Option String)
    (rawId : Option Uuid) : Except Response AuthorizedScope :=
  resolveOwnScope m ifMatch rawId
    (fun id =>
      (d.entries.filter (fun row =>
        row.2.id = id ∧ row.2.userId = p)).map Prod.fst)
    "Waitlist entry not found"

end PigBook.OwnScope

------------------------------------------------------------
-- Reading
------------------------------------------------------------

namespace PigBook.OwnScope

/- The parameters of a list, as the schemas admit them. -/
structure PageQuery (τ : Type) where
  limit : ℕ
  offset : ℕ
  status : Option τ
  limited : 1 ≤ limit ∧ limit ≤ 100
  near : offset ≤ 10000

/- Newest first, then by id. -/
def newestFirst (createdAt : ℤ) (id : Uuid) : ℤ ×ₗ Uuid :=
  toLex (-createdAt, id)

/- One page of the rows, in the order of `position`. -/
def pageOf
    {τ α β : Type}
    (query : PageQuery τ)
    (position : α → ℤ ×ₗ Uuid)
    (schema : α → β)
    (rows : List α) : Page β where
  items :=
    (((rows.insertionSort (fun x y =>
      position x ≤ position y)).drop query.offset).take
        query.limit).map schema
  total := rows.length
  limit := query.limit
  offset := query.offset

def listOwnBookings
    (p : Uuid)
    (query : PageQuery BookingStatus)
    (d : Database) : Page BookingSchema :=
  pageOf query
    (fun row => newestFirst row.2.createdAt row.2.id)
    (fun row => row.2.schema row.1)
    (d.bookings.filter (fun row =>
      row.2.userId = some p ∧ row.2.kind = .reservation ∧
        ∀ status ∈ query.status, row.2.status = status))

def listOwnWaitlist
    (p : Uuid)
    (query : PageQuery EntryStatus)
    (d : Database) : Page WaitEntry :=
  pageOf query
    (fun row => newestFirst row.2.createdAt row.2.id)
    (fun row => row.2.schema row.1)
    (d.entries.filter (fun row =>
      row.2.userId = p ∧
        ∀ status ∈ query.status, row.2.status = status))

def getOwnBooking
    (p : Uuid)
    (scope : AuthorizedScope)
    (d : Database) : Response :=
  match
    oneOrNone (d.bookings.filter (fun row =>
      row.2.id = scope.objectId ∧
        row.2.kind = .reservation ∧ row.2.userId = some p))
  with
  | .error response => response
  | .ok none => objectNotFound "Booking not found"
  | .ok (some row) =>
      ⟨200, .booking (row.2.schema row.1),
        [("ETag", etag row.2.version)]⟩

end PigBook.OwnScope

------------------------------------------------------------
-- Surroundings
------------------------------------------------------------

namespace PigBook.OwnScope

open ReadCommitted

/- What the two clocks show at each reading. -/
structure Clocks where
  application : ℕ → ℕ
  database : ℕ → ℤ

/- What else a request learns from outside its tables. -/
structure Outside where
  limiterAnswers : Oracle RateLimits.limiter
  inventoryAnswers : Oracle inventory

def timeRead? (act : Action RateLimits.limiter) : Option ℕ :=
  match act with
  | ⟨.applicationTime, t, _⟩ => some t
  | _ => none

def clockRead? (act : Action inventory) : Option ℤ :=
  match act with
  | ⟨.clock, t, _⟩ => some t
  | _ => none

/- The readings of a clock among some statements. -/
def timesRead (log : List (Action RateLimits.limiter)) :
    List ℕ :=
  log.filterMap timeRead?

def clocksRead (log : List (Action inventory)) : List ℤ :=
  log.filterMap clockRead?

/- Both clocks show what they show, whatever else is. -/
def Outside.limiterAt
    (o : Outside)
    (clocks : Clocks) : Oracle RateLimits.limiter :=
  fun log q =>
    match q with
    | .applicationTime =>
        clocks.application (timesRead log).length
    | q => o.limiterAnswers log q

def Outside.inventoryAt
    (o : Outside)
    (clocks : Clocks) : Oracle inventory :=
  fun log q =>
    match q with
    | .clock => clocks.database (clocksRead log).length
    | q => o.inventoryAnswers log q

end PigBook.OwnScope

------------------------------------------------------------
-- Routes
------------------------------------------------------------

namespace PigBook.OwnScope

open ReadCommitted

/- The body of a cancellation, as its schema admits it. -/
structure Cancel where
  reason : String
  short : reason.length ≤ 500

/-
  A request to one of the routes.  The id is what `uuid.UUID`
  makes of the text in the path.
-/
inductive Route
  | listBookings (query : PageQuery BookingStatus)
  | getBooking (id : Option Uuid)
  | cancelBooking
      (id : Option Uuid) (ifMatch : Option String)
      (body : Cancel)
  | listWaitlist (query : PageQuery EntryStatus)
  | deleteWaitlist
      (id : Option Uuid) (ifMatch : Option String)
  | acceptWaitlist
      (id : Option Uuid) (ifMatch : Option String)

def Route.method : Route → Method
| listBookings _ => .get
| getBooking _ => .get
| cancelBooking _ _ _ => .post
| listWaitlist _ => .get
| deleteWaitlist _ _ => .delete
| acceptWaitlist _ _ => .post

/-
  The `problems` are what the validation finds in the query,
  the path and the body, after the dependency has passed.
-/
structure Request where
  route : Route
  problems : List Problem

/- What a request is answered, what it leaves, and its log. -/
structure Handled where
  response : Response
  database : Database
  log : List (Action inventory)

/- A response without a transaction on the inventory. -/
def Handled.plain
    (response : Response)
    (d : Database) : Handled :=
  ⟨response, d, []⟩

/- The transaction of a mutation, under the user's lock. -/
def transact
    (clocks : Clocks)
    (o : Outside)
    (p : Uuid)
    (scope : AuthorizedScope)
    (program : ℕ → Tx Reply)
    (d : Database) : Handled :=
  match scope.expectedVersion with
  | none => .plain internalError d
  | some version =>
      match authenticate p d.users with
      | .error response => .plain response d
      | .ok () =>
          let ran :=
            (program version).runAlone
              (o.inventoryAt clocks)
              (d.inventory scope.resourceId)
          let db :=
            Function.update d.inventory scope.resourceId
              ran.db
          match ran.result with
          | .ok reply =>
              ⟨reply.response, { d with inventory := db },
                ran.log⟩
          | .error e => ⟨e.response, d, ran.log⟩

/- The endpoint runs after validation of its parameters. -/
def validated
    (problems : List Problem)
    (d : Database)
    (handled : Handled) : Handled :=
  if problems = [] then
    handled
  else
    .plain (validationError problems) d

/- The resolved scope is handed to the endpoint. -/
def addressed
    (resolved : Except Response AuthorizedScope)
    (problems : List Problem)
    (d : Database)
    (endpoint : AuthorizedScope → Handled) : Handled :=
  match resolved with
  | .error response => .plain response d
  | .ok scope => validated problems d (endpoint scope)

/- From the resolution of the scope to the response. -/
def serve
    (clocks : Clocks)
    (o : Outside)
    (p : Uuid)
    (request : Request)
    (d : Database) : Handled :=
  let problems := request.problems
  match request.route with
  | .listBookings query =>
      validated problems d
        (.plain
          ⟨200, .bookings (listOwnBookings p query d), []⟩ d)
  | .getBooking id =>
      addressed (resolveOwnBookingScope p d .get none id)
        problems d
        (fun scope => .plain (getOwnBooking p scope d) d)
  | .cancelBooking id ifMatch body =>
      addressed (resolveOwnBookingScope p d .post ifMatch id)
        problems d
        (fun scope =>
          transact clocks o p scope
            (fun version =>
              PigBook.cancelBooking scope.resourceId
                (.owner p) scope.objectId version
                body.reason)
            d)
  | .listWaitlist query =>
      validated problems d
        (.plain
          ⟨200, .entries (listOwnWaitlist p query d), []⟩ d)
  | .deleteWaitlist id ifMatch =>
      addressed (resolveOwnWaitlistScope p d .delete ifMatch id)
        problems d
        (fun scope =>
          transact clocks o p scope
            (fun version =>
              declineEntry scope.resourceId (.owner p)
                scope.objectId version)
            d)
  | .acceptWaitlist id ifMatch =>
      addressed (resolveOwnWaitlistScope p d .post ifMatch id)
        problems d
        (fun scope =>
          transact clocks o p scope
            (fun version =>
              acceptOffer scope.resourceId (.owner p)
                scope.objectId version)
            d)

/-
  The whole request: the principal is read, the budget is
  consumed in a transaction of its own, and the route served.
-/
def handle
    (W : Profile)
    (clocks : Clocks)
    (o : Outside)
    (p : Uuid)
    (request : Request)
    (d : Database) : Handled :=
  match authenticate p d.users with
  | .error response => .plain response d
  | .ok () =>
      let limited :=
        (W.rateLimit p request.route.method).program.runAlone
          (o.limiterAt clocks) d.counters
      let d := { d with counters := limited.db }
      match limited.result with
      | .error _ => .plain internalError d
      | .ok (.consumed _ (some retryAfter)) =>
          .plain (rateLimited retryAfter) d
      | .ok _ => serve clocks o p request d

end PigBook.OwnScope
