import PigBook.Machine.Runs
import PigBook.Users.Rows

/-
  The dialogs that create bookings and blackouts.

  One tab: its session storage has a slot for one attempt, and
  the page that is shown has one of the two dialogs.  A dialog
  is modelled by the state of its component; what is shown
  only is left out.

  Key definitions include:
    * `CreateAttempt`, `beginAttempt`, `restoreAttempt`
    * `BookingDialog`, `BlackoutDialog`, `App`
    * `bookingSubmit`, `blackoutSubmit`
    * `DialogEvent`, `dialogStep`
-/

------------------------------------------------------------
-- Attempts
------------------------------------------------------------

namespace PigBook.Client

/- The instants of a window, in milliseconds. -/
structure Times where
  startsAt : ℤ
  endsAt : ℤ
deriving DecidableEq

structure Payload where
  resourceId : Uuid
  times : Times
deriving DecidableEq

inductive AttemptKind
  | booking
  | blackout
deriving DecidableEq

structure CreateAttempt where
  key : Uuid
  payload : Payload
  kind : AttemptKind
  principalId : Uuid
  createdAt : ℤ
deriving DecidableEq

/- The session storage, or `none` where it is unavailable. -/
abbrev SessionStorage := Option (Option CreateAttempt)

namespace SessionStorage

/- The attempt in the slot. -/
def slot (storage : SessionStorage) : Option CreateAttempt :=
  storage.join

/- `clearAttempt`. -/
def clearAttempt (storage : SessionStorage) : SessionStorage :=
  storage.map (fun _ => none)

/- The slot is set, if there is a storage. -/
def setItem
    (attempt : CreateAttempt)
    (storage : SessionStorage) : SessionStorage :=
  storage.map (fun _ => some attempt)

end SessionStorage

/- The attempt, with the fresh `key`, which is stored. -/
def beginAttempt
    (principalId : Uuid)
    (kind : AttemptKind)
    (payload : Payload)
    (key : Uuid)
    (now : ℤ)
    (storage : SessionStorage) :
    CreateAttempt × SessionStorage :=
  let attempt : CreateAttempt := {
    key := key
    payload := payload
    kind := kind
    principalId := principalId
    createdAt := now
  }
  (attempt, storage.setItem attempt)

/- An attempt of another principal is cleared. -/
def restoreAttempt
    (principalId : Uuid)
    (storage : SessionStorage) :
    Option CreateAttempt × SessionStorage :=
  match storage.slot with
  | none => (none, storage)
  | some attempt =>
      if attempt.principalId ≠ principalId then
        (none, storage.clearAttempt)
      else
        (some attempt, storage)

/- 24 hours, in milliseconds. -/
def maxAttemptAge : ℤ :=
  24 * 60 * 60 * 1000

/- The attempt is 24 hours old or older. -/
def CreateAttempt.stale
    (attempt : CreateAttempt)
    (now : ℤ) : Bool :=
  maxAttemptAge ≤ now - attempt.createdAt

end PigBook.Client

------------------------------------------------------------
-- Requests
------------------------------------------------------------

namespace PigBook.Client

/- The body of a POST; a blackout names no resource there. -/
structure CreateBody where
  resourceId : Option Uuid
  times : Times
deriving DecidableEq

structure CreateRequest where
  method : String
  path : String
  key : Uuid
  body : CreateBody
deriving DecidableEq

def bookingRequest
    (key : Uuid)
    (payload : Payload) : CreateRequest where
  method := "POST"
  path := "/api/v1/bookings"
  key := key
  body := ⟨some payload.resourceId, payload.times⟩

def blackoutRequest
    (key : Uuid)
    (payload : Payload) : CreateRequest where
  method := "POST"
  path :=
    "/api/v1/admin/resources/" ++ payload.resourceId.str ++
      "/blackouts"
  key := key
  body := ⟨none, payload.times⟩

/- The request that an attempt is stored for. -/
def CreateAttempt.request
    (a : CreateAttempt) : CreateRequest :=
  match a.kind with
  | .booking => bookingRequest a.key a.payload
  | .blackout => blackoutRequest a.key a.payload

/-
  How a POST ends: with a 2xx answer, which is 201 here; with
  an `ApiError` of some status; or with another error, such as
  a network failure.
-/
inductive Outcome
  | created
  | apiError (status : ℕ)
  | failure
deriving DecidableEq

end PigBook.Client

------------------------------------------------------------
-- Dialogs
------------------------------------------------------------

namespace PigBook.Client

/- The properties and the state of `BookingDialog`. -/
structure BookingDialog where
  isOpen : Bool
  resource : Option Uuid
  bookingWindow : Option Times
  isSubmitting : Bool
  currentAttempt : Option CreateAttempt
  isUncertain : Bool
  isStaleDraft : Bool
  hasSuccess : Bool
  showAbandonWarning : Bool
deriving DecidableEq

/- A dialog that has just been mounted. -/
def BookingDialog.mounted : BookingDialog where
  isOpen := false
  resource := none
  bookingWindow := none
  isSubmitting := false
  currentAttempt := none
  isUncertain := false
  isStaleDraft := false
  hasSuccess := false
  showAbandonWarning := false

/- The attempt that a submission sends again. -/
def BookingDialog.replayed
    (d : BookingDialog) : Option CreateAttempt :=
  if d.isUncertain ∨ d.isStaleDraft then
    d.currentAttempt
  else
    none

/- The window that a submission is about. -/
def BookingDialog.windowToUse
    (d : BookingDialog) : Option Times :=
  match d.replayed with
  | some attempt => some attempt.payload.times
  | none => d.bookingWindow

/- The properties and the state of `BlackoutCreateDialog`. -/
structure BlackoutDialog where
  isOpen : Bool
  resourceId : Uuid
  startsAt : String
  endsAt : String
  activeAttempt : Option CreateAttempt
  isSubmitting : Bool
  isUncertain : Bool
  isExpiredAttempt : Bool
deriving DecidableEq

def BlackoutDialog.mounted
    (resourceId : Uuid) : BlackoutDialog where
  isOpen := false
  resourceId := resourceId
  startsAt := ""
  endsAt := ""
  activeAttempt := none
  isSubmitting := false
  isUncertain := false
  isExpiredAttempt := false

/-
  The time zone of the browser: the instant that a local time
  names, if it is one; the local time that `toInputFormat`
  gives for an instant; and the two defaults for tomorrow.
-/
structure Zone where
  parse : String → Option ℤ
  toInputFormat : ℤ → String
  tomorrow : ℤ → String × String

/- The instants of the fields, when they are valid. -/
def BlackoutDialog.validate
    (zone : Zone)
    (d : BlackoutDialog) : Option Times :=
  if d.startsAt = "" ∨ d.endsAt = "" then
    none
  else
    match zone.parse d.startsAt, zone.parse d.endsAt with
    | some s, some e => if e ≤ s then none else some ⟨s, e⟩
    | _, _ => none

end PigBook.Client

------------------------------------------------------------
-- The Tab
------------------------------------------------------------

namespace PigBook.Client

/- The page with the dialog that may be open. -/
inductive Page
  | resource
  | blackouts (resourceId : Uuid)
deriving DecidableEq

/-
  A POST in flight: the mounted dialog that waits for it, the
  request, its attempt, and whether it is the retry.
-/
structure Post where
  mount : ℕ
  request : CreateRequest
  attempt : CreateAttempt
  retry : Bool
deriving DecidableEq

/- A request that was sent, for an attempt, at a time. -/
structure Sent where
  request : CreateRequest
  attempt : CreateAttempt
  time : ℤ
deriving DecidableEq

/-
  The tab; `mount` counts the dialogs that have been mounted,
  and `sent` has all create requests, the latest first.
-/
structure App where
  now : ℤ
  user : Option Uuid
  storage : SessionStorage
  page : Page
  mount : ℕ
  booking : BookingDialog
  blackout : BlackoutDialog
  posts : List Post
  sent : List Sent
deriving DecidableEq

namespace App

def initial
    (storage : SessionStorage)
    (now : ℤ) : App where
  now := now
  user := none
  storage := storage.clearAttempt
  page := .resource
  mount := 0
  booking := .mounted
  blackout := .mounted 0
  posts := []
  sent := []

/- The attempt in the slot of the storage. -/
def slot (s : App) : Option CreateAttempt :=
  s.storage.slot

/- The keys of the requests that have been sent. -/
def keys (s : App) : List Uuid :=
  s.sent.map (fun r => r.attempt.key)

/- The dialogs of a page are mounted. -/
def mountPage (page : Page) (s : App) : App :=
  { s with
    page := page
    mount := s.mount + 1
    booking := .mounted
    blackout :=
      match page with
      | .resource => .mounted 0
      | .blackouts resourceId => .mounted resourceId }

/-
  The effect of `ResourceDetail`: it restores the attempt, to
  open its dialog with it.
-/
def resourceEffect (s : App) : App :=
  match s.page, s.user with
  | .resource, some user =>
      { s with storage := (restoreAttempt user s.storage).2 }
  | _, _ => s

/- A page is mounted, and its effect runs. -/
def showPage (page : Page) (s : App) : App :=
  (s.mountPage page).resourceEffect

/- The mounted dialog sends a request and waits. -/
def post
    (attempt : CreateAttempt)
    (request : CreateRequest)
    (s : App) : App :=
  { s with
    posts := s.posts ++ [⟨s.mount, request, attempt, false⟩]
    sent := ⟨request, attempt, s.now⟩ :: s.sent }

def clearAttempt (s : App) : App :=
  { s with storage := s.storage.clearAttempt }

end App

end PigBook.Client

------------------------------------------------------------
-- The Booking Dialog
------------------------------------------------------------

namespace PigBook.Client

/- The effect that runs when `open` or `user` changes. -/
def bookingEffect (s : App) : App :=
  match s.user with
  | none => s
  | some user =>
      if s.booking.isOpen = false then s
      else
        let (saved, storage) := restoreAttempt user s.storage
        let d :=
          { s.booking with
            hasSuccess := false
            showAbandonWarning := false }
        match saved with
        | none =>
            { s with
              storage := storage
              booking :=
                { d with
                  isStaleDraft := false
                  currentAttempt := none
                  isUncertain := false } }
        | some saved =>
            if saved.kind ≠ .booking then
              { s with
                storage := storage
                booking :=
                  { d with
                    isStaleDraft := false
                    currentAttempt := none
                    isUncertain := false } }
            else
              { s with
                storage := storage
                booking :=
                  { d with
                    isStaleDraft := saved.stale s.now
                    currentAttempt := some saved
                    isUncertain := ¬ saved.stale s.now } }

def handleStartNewAttempt (s : App) : App :=
  { s.clearAttempt with
    booking :=
      { s.booking with
        currentAttempt := none
        isUncertain := false
        isStaleDraft := false
        showAbandonWarning := false } }

/-
  `handleSubmit` of the booking dialog, up to the POST; `key`
  is the fresh key, if one is needed.
-/
def bookingSubmit
    (key : Uuid)
    (s : App) : Option App :=
  match s.user, s.booking.resource, s.booking.windowToUse with
  | some user, some resource, some times =>
      match s.booking.replayed with
      | some attempt =>
          let s :=
            { s with
              booking :=
                { s.booking with isSubmitting := true } }
          some
            (s.post attempt
              (bookingRequest attempt.key attempt.payload))
      | none =>
          if key ∈ s.keys then none
          else
            let (attempt, storage) :=
              beginAttempt user .booking ⟨resource, times⟩ key
                s.now s.storage
            let s :=
              { s with
                storage := storage
                booking :=
                  { s.booking with
                    isSubmitting := true
                    currentAttempt := some attempt } }
            some
              (s.post attempt
                (bookingRequest attempt.key attempt.payload))
  | _, _, _ => some s

/- The rest of it, for a dialog that is still mounted. -/
def BookingDialog.answered
    (outcome : Outcome)
    (d : BookingDialog) : BookingDialog :=
  match outcome with
  | .created =>
      { d with
        currentAttempt := none
        isUncertain := false
        hasSuccess := true
        isSubmitting := false }
  | .apiError status =>
      if status = 409 ∨ status = 422 then
        { d with
          currentAttempt := none
          isUncertain := false
          isSubmitting := false }
      else
        -- 503 as any other status
        { d with
          isUncertain := true
          isSubmitting := false }
  | .failure =>
      { d with
        isUncertain := true
        isSubmitting := false }

end PigBook.Client

------------------------------------------------------------
-- The Blackout Dialog
------------------------------------------------------------

namespace PigBook.Client

variable (zone : Zone)

/- The effect for `open`, `user`, and `resourceId`. -/
def blackoutEffect (s : App) : App :=
  match s.user with
  | none => s
  | some user =>
      if s.blackout.isOpen = false then s
      else
        let (stored, storage) := restoreAttempt user s.storage
        let fresh :=
          { s with
            storage := storage
            blackout :=
              { s.blackout with
                startsAt := (zone.tomorrow s.now).1
                endsAt := (zone.tomorrow s.now).2 } }
        match stored with
        | none => fresh
        | some stored =>
            if stored.kind ≠ .blackout then fresh
            else if
              stored.payload.resourceId =
                s.blackout.resourceId
            then
              { s with
                storage := storage
                blackout :=
                  { s.blackout with
                    activeAttempt := some stored
                    startsAt :=
                      zone.toInputFormat
                        stored.payload.times.startsAt
                    endsAt :=
                      zone.toInputFormat
                        stored.payload.times.endsAt
                    isUncertain := true
                    isExpiredAttempt :=
                      stored.stale s.now ∨
                        s.blackout.isExpiredAttempt } }
            else
              { s with storage := storage }

/- What `handleClose` leaves of the dialog. -/
def BlackoutDialog.closed
    (d : BlackoutDialog) : BlackoutDialog :=
  { d with
    isUncertain := false
    isExpiredAttempt := false
    activeAttempt := none
    isOpen := false }

def handleAbandon (s : App) : App :=
  { s.clearAttempt with blackout := s.blackout.closed }

/- The change of a field gives an uncertain attempt up. -/
def editField
    (d : BlackoutDialog)
    (s : App) : App :=
  if s.blackout.isUncertain then
    { s.clearAttempt with
      blackout :=
        { d with
          activeAttempt := none
          isUncertain := false } }
  else
    { s with blackout := d }

/- `handleSubmit` of the blackout dialog, up to the POST. -/
def blackoutSubmit
    (key : Uuid)
    (s : App) : Option App :=
  match s.blackout.validate zone, s.user with
  | some times, some user =>
      let payload : Payload :=
        ⟨s.blackout.resourceId, times⟩
      match s.blackout.activeAttempt with
      | some attempt =>
          let s :=
            { s with
              blackout :=
                { s.blackout with isSubmitting := true } }
          some
            (s.post attempt
              (blackoutRequest attempt.key payload))
      | none =>
          if key ∈ s.keys then none
          else
            let (attempt, storage) :=
              beginAttempt user .blackout payload key s.now
                s.storage
            let s :=
              { s with
                storage := storage
                blackout :=
                  { s.blackout with
                    isSubmitting := true
                    activeAttempt := some attempt } }
            some
              (s.post attempt
                (blackoutRequest attempt.key payload))
  | _, _ => some s

/- The rest of it, for a dialog that is still mounted. -/
def BlackoutDialog.answered
    (outcome : Outcome)
    (d : BlackoutDialog) : BlackoutDialog :=
  match outcome with
  | .created => { d.closed with isSubmitting := false }
  | .apiError status =>
      if status = 409 ∨ status = 422 then
        { d with
          activeAttempt := none
          isUncertain := false
          isSubmitting := false }
      else if status = 503 then
        { d with
          isUncertain := true
          isSubmitting := false }
      else
        { d with isSubmitting := false }
  | .failure =>
      { d with
        isUncertain := true
        isSubmitting := false }

end PigBook.Client

------------------------------------------------------------
-- Events
------------------------------------------------------------

namespace PigBook.Client

/- The answer completes the attempt: 201, 409, or 422. -/
def Outcome.definitive : Outcome → Bool
| created => true
| apiError status => status = 409 ∨ status = 422
| failure => false

/- A POST has ended: its dialog and the storage see it. -/
def answerPost
    (p : Post)
    (outcome : Outcome)
    (s : App) : App :=
  let s :=
    if outcome.definitive then s.clearAttempt else s
  if p.mount ≠ s.mount then s
  else
    match p.attempt.kind with
    | .booking =>
        { s with booking := s.booking.answered outcome }
    | .blackout =>
        { s with blackout := s.blackout.answered outcome }

/-
  What the user does, what the pages do to their dialogs, and
  what happens to POSTs, to the session, and to the clock.
  With `userRefreshed` another tab, or a refresh, tells the
  tab who is signed in.
-/
inductive DialogEvent
  | navigated (page : Page)
  | reloaded
  | bookingShown
      (isOpen : Bool)
      (resource : Option Uuid)
      (bookingWindow : Option Times)
  | bookingSubmitted (key : Uuid)
  | startedNew
  | abandoned
  | abandonConfirmed
  | blackoutOpened
  | blackoutMoved (resourceId : Uuid)
  | editedStart (text : String)
  | editedEnd (text : String)
  | blackoutSubmitted (key : Uuid)
  | blackoutClosed
  | blackoutAbandoned
  | answered (n : ℕ) (outcome : Outcome)
  | resent (n : ℕ)
  | userRefreshed (user : Uuid)
  | signedIn (user : Uuid)
  | signedOut
  | ticked (d : ℕ)

variable (zone : Zone)

/- What the buttons of the booking dialog admit. -/
def bookingStep
    (e : DialogEvent)
    (s : App) : Option App :=
  let d := s.booking
  match e with
  | .bookingSubmitted key =>
      if d.isOpen ∧ ¬ d.isStaleDraft ∧ ¬ d.isSubmitting ∧
          ¬ d.hasSuccess then
        bookingSubmit key s
      else
        none
  | .startedNew =>
      if d.isOpen ∧ d.isStaleDraft then
        some (handleStartNewAttempt s)
      else
        none
  | .abandoned =>
      if d.isOpen ∧ d.isUncertain ∧ ¬ d.isStaleDraft ∧
          ¬ d.showAbandonWarning ∧ ¬ d.isSubmitting then
        some
          { s with
            booking := { d with showAbandonWarning := true } }
      else
        none
  | .abandonConfirmed =>
      if d.isOpen ∧ d.showAbandonWarning then
        some (handleStartNewAttempt s)
      else
        none
  | _ => none

/- And what those of the blackout dialog do. -/
def blackoutStep
    (e : DialogEvent)
    (s : App) : Option App :=
  let d := s.blackout
  match e with
  | .editedStart text =>
      if d.isOpen ∧ ¬ d.isSubmitting then
        some (editField { d with startsAt := text } s)
      else
        none
  | .editedEnd text =>
      if d.isOpen ∧ ¬ d.isSubmitting then
        some (editField { d with endsAt := text } s)
      else
        none
  | .blackoutSubmitted key =>
      if d.isOpen ∧ ¬ d.isSubmitting ∧
          ¬ (d.isUncertain ∧ d.isExpiredAttempt) then
        blackoutSubmit zone key s
      else
        none
  | .blackoutClosed =>
      if d.isOpen ∧ ¬ d.isSubmitting then
        some { s with blackout := d.closed }
      else
        none
  | .blackoutAbandoned =>
      if d.isOpen ∧ d.isUncertain ∧ ¬ d.isSubmitting then
        some (handleAbandon s)
      else
        none
  | _ => none

def dialogStep
    (e : DialogEvent)
    (s : App) : Option App :=
  match e with
  | .navigated page => some (s.showPage page)
  | .reloaded => some { s.showPage s.page with posts := [] }
  | .bookingShown isOpen resource bookingWindow =>
      if s.page = .resource then
        let s' :=
          { s with
            booking :=
              { s.booking with
                isOpen := isOpen
                resource := resource
                bookingWindow := bookingWindow } }
        if isOpen = s.booking.isOpen then some s'
        else some (bookingEffect s')
      else
        none
  | .blackoutOpened =>
      if s.page = .resource ∨ s.blackout.isOpen then none
      else
        some
          (blackoutEffect zone
            { s with
              blackout := { s.blackout with isOpen := true } })
  | .blackoutMoved resourceId =>
      if s.page = .resource then none
      else
        some
          (blackoutEffect zone
            { s with
              page := .blackouts resourceId
              blackout :=
                { s.blackout with resourceId := resourceId } })
  | .answered n outcome =>
      (s.posts[n]?).bind (fun p =>
        some
          (answerPost p outcome
            { s with posts := s.posts.eraseIdx n }))
  | .resent n =>
      (s.posts[n]?).bind (fun p =>
        if p.retry then none
        else
          some
            { s with
              posts := s.posts.set n { p with retry := true }
              sent :=
                ⟨p.request, p.attempt, s.now⟩ :: s.sent })
  | .userRefreshed user =>
      -- Nothing is cleared when it is another one.
      if s.user.isSome then
        let s' := bookingEffect { s with user := some user }
        some (blackoutEffect zone s'.resourceEffect)
      else
        none
  | .signedIn user =>
      if s.user.isSome then none
      else
        some (App.showPage s.page { s with user := some user })
  | .signedOut =>
      some { (s.mountPage s.page).clearAttempt with user := none }
  | .ticked d => some { s with now := s.now + d }
  | .bookingSubmitted _ => bookingStep e s
  | .startedNew => bookingStep e s
  | .abandoned => bookingStep e s
  | .abandonConfirmed => bookingStep e s
  | .editedStart _ => blackoutStep zone e s
  | .editedEnd _ => blackoutStep zone e s
  | .blackoutSubmitted _ => blackoutStep zone e s
  | .blackoutClosed => blackoutStep zone e s
  | .blackoutAbandoned => blackoutStep zone e s

end PigBook.Client
