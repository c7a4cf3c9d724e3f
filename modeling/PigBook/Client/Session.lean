import Mathlib.Data.List.Infix
import Mathlib.Logic.Function.Basic
import PigBook.Machine.Runs

/-
  The session client of the browser tabs.

  Each tab keeps an access token in memory, and the tabs share
  the refresh cookie, a lock, and a broadcast channel.  An
  asynchronous function is modelled by the places at which it
  waits; between two of them it runs at once.

  Key definitions include:
    * `Tab`, `Browser`
    * `refreshSession`, `grantLock`, `readBody`
    * `Event`, `step`
-/

------------------------------------------------------------
-- Tabs
------------------------------------------------------------

namespace PigBook.Client

/- The messages of the channel `commonsbook-auth`. -/
inductive AuthMessage
  | tokenRefreshed (token : String)
  | logout
deriving DecidableEq

/- A call of `request`, and whether it is the retry. -/
structure Call where
  url : String
  retry : Bool
deriving DecidableEq

/-
  Where the promise of `refreshSession` has come to: it waits
  for the lock, for the answer to its POST, or for the body of
  the answer; its callback has returned; the lock has been
  released.
-/
inductive Refresh
  | requestingLock
  | posting (cookie : Option String)
  | reading (ok : Bool)
  | returned (ok : Bool)
  | released (ok : Bool)
deriving DecidableEq

/-
  A tab: the variables of the module, the calls whose answers
  are outstanding, the calls and the checks of the session
  that await the promise, and the messages not delivered yet.
-/
structure Tab where
  inMemoryAccessToken : Option String
  lastTokenRefreshTime : ℤ
  refreshPromise : Option Refresh
  calls : List Call
  waiting : List Call
  checking : ℕ
  inbox : List AuthMessage
deriving DecidableEq

namespace Tab

def fresh : Tab where
  inMemoryAccessToken := none
  lastTokenRefreshTime := 0
  refreshPromise := none
  calls := []
  waiting := []
  checking := 0
  inbox := []

/- The token is neither null nor the empty string. -/
def hasToken (t : Tab) : Bool :=
  t.inMemoryAccessToken.any (· ≠ "")

def setAccessToken
    (token : Option String)
    (now : ℤ)
    (t : Tab) : Tab :=
  { t with
    inMemoryAccessToken := token
    lastTokenRefreshTime :=
      if token.any (· ≠ "") then now
      else t.lastTokenRefreshTime }

/- The handler of the channel. -/
def onmessage
    (msg : AuthMessage)
    (now : ℤ)
    (t : Tab) : Tab :=
  match msg with
  | .tokenRefreshed token =>
      { t with
        inMemoryAccessToken := some token
        lastTokenRefreshTime := now }
  | .logout => { t with inMemoryAccessToken := none }

/- Another tab has just completed the refresh. -/
def reuses (t : Tab) (now : ℤ) : Bool :=
  t.lastTokenRefreshTime ≠ 0 ∧
    now - t.lastTokenRefreshTime < 5000 ∧ t.hasToken

/- The cookie of the POST whose answer the tab awaits. -/
def spends (t : Tab) : Option String :=
  match t.refreshPromise with
  | some (.posting cookie) => cookie
  | _ => none

/- The tab awaits the answer to its POST. -/
def isPosting (t : Tab) : Bool :=
  match t.refreshPromise with
  | some (.posting _) => true
  | _ => false

/- The callback of the lock has begun and not returned. -/
def inCallback (t : Tab) : Bool :=
  match t.refreshPromise with
  | some (.posting _) => true
  | some (.reading _) => true
  | some (.returned _) => true
  | _ => false

end Tab

/- The answer makes `request` refresh the session. -/
def refreshes (status : ℕ) (call : Call) : Bool :=
  status = 401 ∧ call.retry = false ∧
    ¬ "/auth/login".toList <:+: call.url.toList ∧
    ¬ "/auth/register".toList <:+: call.url.toList ∧
    ¬ "/auth/refresh".toList <:+: call.url.toList

end PigBook.Client

------------------------------------------------------------
-- The Browser
------------------------------------------------------------

namespace PigBook.Client

/-
  What the tabs share: the clock, the refresh cookie in the
  jar, the holder of the lock `commonsbook-refresh`; and what
  has happened: the cookies that the server has set, and the
  cookies that POSTs to `/auth/refresh` were sent with.
-/
structure Browser where
  now : ℤ
  jar : Option String
  holder : Option ℕ
  tabs : ℕ → Option Tab
  issued : List String
  sent : List (ℕ × String)

namespace Browser

/- A browser without tabs. -/
def initial (jar : Option String) (now : ℤ) : Browser where
  now := now
  jar := jar
  holder := none
  tabs := fun _ => none
  issued := jar.toList
  sent := []

def setTab
    (i : ℕ)
    (t : Tab)
    (s : Browser) : Browser :=
  { s with tabs := Function.update s.tabs i (some t) }

@[simp] theorem setTab_tabs_self
    (i : ℕ)
    (t : Tab)
    (s : Browser) :
    (s.setTab i t).tabs i = some t := by
  simp [setTab]

theorem setTab_tabs_of_ne
    {i j : ℕ}
    (hNe : j ≠ i)
    (t : Tab)
    (s : Browser) :
    (s.setTab i t).tabs j = s.tabs j := by
  simp [setTab, hNe]

/- The message is on its way to all other tabs. -/
def broadcast
    (i : ℕ)
    (msg : AuthMessage)
    (s : Browser) : Browser :=
  { s with
    tabs := fun j =>
      if j = i then s.tabs j
      else
        (s.tabs j).map
          (fun t => { t with inbox := t.inbox ++ [msg] }) }

/- The server has set the cookie. -/
def setCookie
    (cookie : String)
    (s : Browser) : Browser :=
  { s with
    jar := some cookie
    issued := cookie :: s.issued }

end Browser

end PigBook.Client

------------------------------------------------------------
-- Refreshing the Session
------------------------------------------------------------

namespace PigBook.Client

/- The `fetch` of `doRefresh`, with the cookie of the jar. -/
def doRefresh
    (i : ℕ)
    (t : Tab)
    (s : Browser) : Browser :=
  { s.setTab i
      { t with refreshPromise := some (.posting s.jar) } with
    sent := (s.jar.map (fun v => (i, v))).toList ++ s.sent }

/- `locks` when the Web Locks API is available. -/
def refreshSession
    (locks : Bool)
    (i : ℕ)
    (t : Tab)
    (s : Browser) : Browser :=
  if t.refreshPromise.isSome then
    s.setTab i t
  else if locks then
    s.setTab i
      { t with refreshPromise := some .requestingLock }
  else
    doRefresh i t s

/- The callback of the lock begins. -/
def grantLock
    (i : ℕ)
    (t : Tab)
    (s : Browser) : Browser :=
  if t.reuses s.now then
    { s.setTab i
        { t with refreshPromise := some (.returned true) }
      with holder := some i }
  else
    { doRefresh i t s with holder := some i }

/-
  The answer to the POST: with status 2xx and a new cookie, or
  with another status, which ends the session.
-/
def receive
    (i : ℕ)
    (answer : Option String)
    (t : Tab)
    (s : Browser) : Option Browser :=
  match answer with
  | some cookie =>
      if cookie ∈ s.issued then none
      else
        some
          ((s.setTab i
            { t with
              refreshPromise := some (.reading true) }).setCookie
                cookie)
  | none =>
      some
        { s.setTab i
            { t with refreshPromise := some (.reading false) }
          with jar := none }

/- The rest of `doRefresh`, for the access token it reads. -/
def readBody
    (i : ℕ)
    (ok : Bool)
    (token : Option String)
    (t : Tab)
    (s : Browser) : Browser :=
  match ok, token with
  | true, some token =>
      (s.setTab i
        { t.setAccessToken (some token) s.now with
          lastTokenRefreshTime := s.now
          refreshPromise := some (.returned true) }).broadcast
            i (.tokenRefreshed token)
  | true, none =>
      s.setTab i
        { t with refreshPromise := some (.returned false) }
  | false, _ =>
      (s.setTab i
        { t.setAccessToken none s.now with
          refreshPromise := some (.returned false) }).broadcast
            i .logout

/- The lock is released, if there is one. -/
def releaseLock
    (i : ℕ)
    (ok : Bool)
    (t : Tab)
    (s : Browser) : Browser :=
  { s.setTab i
      { t with refreshPromise := some (.released ok) } with
    holder := if s.holder = some i then none else s.holder }

/-
  The promise is settled: `request` tries its calls again, and
  `checkSession` asks who is signed in; or the calls fail, and
  `checkSession` cleans up.
-/
def settle
    (i : ℕ)
    (ok : Bool)
    (t : Tab)
    (s : Browser) : Browser :=
  if ok then
    s.setTab i
      { t with
        refreshPromise := none
        calls :=
          t.calls ++
            t.waiting.map (fun c => { c with retry := true }) ++
            List.replicate t.checking ⟨"/api/v1/me", false⟩
        waiting := []
        checking := 0 }
  else
    s.setTab i
      { t with
        refreshPromise := none
        inMemoryAccessToken :=
          if t.checking = 0 then t.inMemoryAccessToken
          else none
        waiting := []
        checking := 0 }

end PigBook.Client

------------------------------------------------------------
-- Events
------------------------------------------------------------

namespace PigBook.Client

/-
  What can happen: to tabs, to calls, to the promise of a
  tab, on the channel, to the session, and to the clock.
-/
inductive Event
  | opened (i : ℕ)
  | closed (i : ℕ)
  | requested (i : ℕ) (url : String)
  | answered (i n status : ℕ)
  | checked (i : ℕ)
  | granted (i : ℕ)
  | received (i : ℕ) (answer : Option String)
  | read (i : ℕ) (token : Option String)
  | released (i : ℕ)
  | settled (i : ℕ)
  | delivered (i n : ℕ)
  | loggedIn (i : ℕ) (cookie token : String)
  | loggedOut (i : ℕ)
  | expired
  | ticked (d : ℕ)

/- A tab does not close while its POST is in flight. -/
def step
    (locks : Bool)
    (e : Event)
    (s : Browser) : Option Browser :=
  match e with
  | .opened i =>
      if (s.tabs i).isSome then none
      else some (s.setTab i .fresh)
  | .closed i =>
      (s.tabs i).bind (fun t =>
        if t.isPosting then none
        else
          some
            { s with
              tabs := Function.update s.tabs i none
              holder :=
                if s.holder = some i then none
                else s.holder })
  | .requested i url =>
      (s.tabs i).bind (fun t =>
        some (s.setTab i
          { t with calls := t.calls ++ [⟨url, false⟩] }))
  | .answered i n status =>
      (s.tabs i).bind (fun t =>
        (t.calls[n]?).bind (fun call =>
          let t := { t with calls := t.calls.eraseIdx n }
          if refreshes status call then
            some (refreshSession locks i
              { t with waiting := t.waiting ++ [call] } s)
          else
            some (s.setTab i t)))
  | .checked i =>
      (s.tabs i).bind (fun t =>
        some (refreshSession locks i
          { t with checking := t.checking + 1 } s))
  | .granted i =>
      (s.tabs i).bind (fun t =>
        if t.refreshPromise = some .requestingLock ∧
            s.holder = none then
          some (grantLock i t s)
        else
          none)
  | .received i answer =>
      (s.tabs i).bind (fun t =>
        if t.isPosting then receive i answer t s else none)
  | .read i token =>
      (s.tabs i).bind (fun t =>
        match t.refreshPromise with
        | some (.reading ok) => some (readBody i ok token t s)
        | _ => none)
  | .released i =>
      (s.tabs i).bind (fun t =>
        match t.refreshPromise with
        | some (.returned ok) => some (releaseLock i ok t s)
        | _ => none)
  | .settled i =>
      (s.tabs i).bind (fun t =>
        match t.refreshPromise with
        | some (.released ok) => some (settle i ok t s)
        | _ => none)
  | .delivered i n =>
      (s.tabs i).bind (fun t =>
        (t.inbox[n]?).bind (fun msg =>
          some (s.setTab i
            (Tab.onmessage msg s.now
              { t with inbox := t.inbox.eraseIdx n }))))
  | .loggedIn i cookie token =>
      (s.tabs i).bind (fun t =>
        if cookie ∈ s.issued then none
        else
          some
            (((s.setTab i
              (t.setAccessToken (some token) s.now)).setCookie
                cookie).broadcast i (.tokenRefreshed token)))
  | .loggedOut i =>
      (s.tabs i).bind (fun t =>
        some
          (({ s.setTab i (t.setAccessToken none s.now) with
              jar := none } : Browser).broadcast i .logout))
  | .expired => some { s with jar := none }
  | .ticked d => some { s with now := s.now + d }

end PigBook.Client
