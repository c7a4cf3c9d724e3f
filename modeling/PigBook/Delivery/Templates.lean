import PigBook.Calendar.IsoText
import PigBook.Delivery.Outbox
import PigBook.Regex.Runs

/-
  The texts of notifications.

  Key definitions include:
    * `escapeControlCharacters`, `escapeHeaderValue`
    * `renderBookingConfirmed` and the like
    * `render`

  Key theorems include:
    * `escapeHeaderValue_ink`, `escapeHeaderValue_eq_self`
    * `render_subject_safe`
-/

------------------------------------------------------------
-- Escaping
------------------------------------------------------------

namespace PigBook.Delivery

open Regex OwnScope

/- The classes `[\x00-\x1f]` and `[\x7f-\x9f]`. -/
def isControlCode (c : Char) : Bool :=
  c.toNat ≤ 0x1F ∨ (0x7F ≤ c.toNat ∧ c.toNat ≤ 0x9F)

/- The control characters but for newline, tab, and return. -/
def isStrippedControl (c : Char) : Bool :=
  isControlCode c ∧ c ≠ '\t' ∧ c ≠ '\n' ∧ c ≠ '\r'

/- Every character of the class becomes a blank. -/
def blank (p : Char → Bool) (text : List Char) : List Char :=
  text.map (fun c => if p c then ' ' else c)

/- `\s+` to a blank. -/
def spacesRule : Rule Char :=
  runsRule isSpace ' '

def escapeControlCharacters (text : List Char) : List Char :=
  strip (blank isStrippedControl text)

def escapeHeaderValue (text : List Char) : List Char :=
  strip (sub spacesRule.find 0 (blank isControlCode text))

theorem escapeHeaderValue_eq (text : List Char) :
    escapeHeaderValue text =
      trim isSpace
        (squeeze isSpace ' ' (blank isControlCode text)) :=
  rfl

/- A safe header value: neither control codes nor gaps. -/
structure SafeHeader (text : List Char) : Prop where
  printable : ∀ c ∈ text, isControlCode c = false
  tidy : Tidy isSpace ' ' text

theorem mem_blank
    {p : Char → Bool}
    {text : List Char}
    (hBlank : p ' ' = false) :
    ∀ c ∈ blank p text, p c = false := by
  intro c hMem
  rcases List.mem_map.mp hMem with ⟨c', -, hEq⟩
  by_cases hClass : p c' = true
  · rw [if_pos hClass] at hEq
    rw [← hEq]
    exact hBlank
  · rw [if_neg hClass] at hEq
    rw [← hEq]
    exact Bool.eq_false_iff.mpr hClass

theorem blank_of_none
    {p : Char → Bool}
    {text : List Char}
    (hNone : ∀ c ∈ text, p c = false) :
    blank p text = text := by
  unfold blank
  rw [List.map_congr_left (g := id), List.map_id]
  intro c hMem
  rw [hNone c hMem]
  rfl

theorem escapeHeaderValue_safe (text : List Char) :
    SafeHeader (escapeHeaderValue text) where
  printable := by
    intro c hMem
    rw [escapeHeaderValue_eq] at hMem
    have hSqueezed := (trim_infixOf _).subset hMem
    rcases mem_squeeze _ hSqueezed with hOld | rfl
    · exact mem_blank rfl c hOld
    · rfl
  tidy := trim_tidy (squeeze_apart _)

/- Whatever is printed, but for blanks. -/
def isInk (c : Char) : Bool :=
  !isControlCode c && !isSpace c

/- Escaping keeps every printed character, in its place. -/
theorem escapeHeaderValue_ink (text : List Char) :
    (escapeHeaderValue text).filter isInk =
      text.filter isInk := by
  have hSpace : ∀ c, isSpace c = true → isInk c = false := by
    intro c hClass
    unfold isInk
    rw [hClass]
    simp
  rw [escapeHeaderValue_eq, filter_trim hSpace,
    filter_squeeze hSpace (hSpace ' ' rfl)]
  induction text with
  | nil => rfl
  | cons c cs ih =>
      have hHead :
          blank isControlCode (c :: cs) =
            (if isControlCode c then ' ' else c) ::
              blank isControlCode cs := rfl
      rw [hHead]
      by_cases hCode : isControlCode c = true
      · have hInk : isInk c = false := by
          unfold isInk
          rw [hCode]
          rfl
        rw [if_pos hCode,
          List.filter_cons_of_neg (by simp [hSpace ' ' rfl]),
          List.filter_cons_of_neg (by simp [hInk]), ih]
      · rw [if_neg hCode, List.filter_cons, List.filter_cons,
          ih]

/- Safe values are those that escaping leaves alone. -/
theorem escapeHeaderValue_eq_self {text : List Char} :
    escapeHeaderValue text = text ↔ SafeHeader text := by
  constructor
  · intro hSelf
    rw [← hSelf]
    exact escapeHeaderValue_safe text
  · intro hSafe
    rw [escapeHeaderValue_eq, blank_of_none hSafe.printable,
      squeeze_of_apart hSafe.tidy.toApart,
      trim_of_tidy hSafe.tidy]

end PigBook.Delivery

------------------------------------------------------------
-- Times
------------------------------------------------------------

namespace PigBook.Delivery

open Calendar

/-
  The time zone of the organisation: the offset from UTC at
  an instant, and its abbreviation.
-/
structure OrgTimezone where
  offset : ℤ → ℤ
  abbreviation : ℤ → String

/- The format `%Y-%m-%d %H:%M:%S`. -/
def formatTime (t : ℤ) : String :=
  let x := fields (t / 1000)
  String.ofList
    (yearText x.date.year ++ '-' ::
      (digits 2 x.date.month ++ '-' ::
      (digits 2 x.date.dayOfMonth ++ ' ' ::
      (digits 2 x.hour ++ ':' ::
      (digits 2 x.minute ++ ':' ::
      digits 2 x.second)))))

/- The time in UTC and in the zone of the organisation. -/
def formatTimePair
    (zone : OrgTimezone)
    (t : ℤ) : String × String :=
  (formatTime t ++ " UTC",
    formatTime (t + zone.offset t) ++ " " ++
      zone.abbreviation t ++ " (America/New_York)")

end PigBook.Delivery

------------------------------------------------------------
-- Templates
------------------------------------------------------------

namespace PigBook.Delivery

/- What a template is about. -/
structure Notice where
  resourceName : String
  startsAt : ℤ
  endsAt : ℤ
  appOrigin : String

/- `app_origin.rstrip('/')`, and a path. -/
def link (appOrigin path : String) : String :=
  String.ofList
    ((appOrigin.toList.reverse.dropWhile
      (· = '/')).reverse) ++ path

def safeResource (notice : Notice) : String :=
  String.ofList
    (escapeControlCharacters notice.resourceName.toList)

/- The subject: a title, and the name of the resource. -/
def subjectOf (title : String) (notice : Notice) : String :=
  title ++
    String.ofList (escapeHeaderValue notice.resourceName.toList)

variable (zone : OrgTimezone)

def renderBookingConfirmed
    (notice : Notice) : String × String :=
  let starts := formatTimePair zone notice.startsAt
  let ends := formatTimePair zone notice.endsAt
  (subjectOf "Booking Confirmed: " notice,
    "Your booking for " ++ safeResource notice ++
      " is confirmed.\n\n" ++
      "Starts At:\n" ++
      "  UTC:   " ++ starts.1 ++ "\n" ++
      "  Local: " ++ starts.2 ++ "\n\n" ++
      "Ends At:\n" ++
      "  UTC:   " ++ ends.1 ++ "\n" ++
      "  Local: " ++ ends.2 ++ "\n\n" ++
      "View your bookings at: " ++
      link notice.appOrigin "/my-bookings" ++ "\n")

/- An interval, each end with its local time. -/
def intervalText (notice : Notice) : String :=
  let starts := formatTimePair zone notice.startsAt
  let ends := formatTimePair zone notice.endsAt
  "  Starts: " ++ starts.1 ++ " (" ++ starts.2 ++ ")\n" ++
    "  Ends:   " ++ ends.1 ++ " (" ++ ends.2 ++ ")\n\n"

def renderBookingCancelled
    (notice : Notice) : String × String :=
  (subjectOf "Booking Cancelled: " notice,
    "Your booking for " ++ safeResource notice ++
      " has been cancelled.\n\n" ++
      "Original Interval:\n" ++ intervalText zone notice ++
      "View your bookings at: " ++
      link notice.appOrigin "/my-bookings" ++ "\n")

def renderWaitlistOffered
    (expiresAt : ℤ)
    (notice : Notice) : String × String :=
  let expires := formatTimePair zone expiresAt
  (subjectOf "Waitlist Offer: " notice,
    "A reservation slot for " ++ safeResource notice ++
      " is now available!\n\n" ++
      "Slot Interval:\n" ++ intervalText zone notice ++
      "Offer Expiry Deadline:\n" ++
      "  UTC:   " ++ expires.1 ++ "\n" ++
      "  Local: " ++ expires.2 ++ "\n\n" ++
      "To accept or decline this offer before it expires, " ++
      "visit: " ++ link notice.appOrigin "/waitlist" ++ "\n")

def renderHoldExpired
    (notice : Notice) : String × String :=
  (subjectOf "Waitlist Hold Expired: " notice,
    "Your waitlist offer hold for " ++ safeResource notice ++
      " has expired because " ++
      "it was not accepted within the response deadline." ++
      "\n\n" ++
      "Slot Interval:\n" ++ intervalText zone notice ++
      "Check waitlist status at: " ++
      link notice.appOrigin "/waitlist" ++ "\n")

/- The subject and the body for an event. -/
def render
    (resourceName appOrigin : String)
    (eventType : EventType)
    (payload : Payload) : String × String :=
  let notice : Notice := {
    resourceName := resourceName
    startsAt := payload.startsAt
    endsAt := payload.endsAt
    appOrigin := appOrigin
  }
  match eventType with
  | .bookingConfirmed => renderBookingConfirmed zone notice
  | .bookingCancelled => renderBookingCancelled zone notice
  | .waitlistOffered =>
      renderWaitlistOffered zone
        (payload.expiresAt.getD payload.endsAt) notice
  | .holdExpired => renderHoldExpired zone notice

/- The title of the subject. -/
def titleOf : EventType → String
| .bookingConfirmed => "Booking Confirmed: "
| .bookingCancelled => "Booking Cancelled: "
| .waitlistOffered => "Waitlist Offer: "
| .holdExpired => "Waitlist Hold Expired: "

theorem render_subject
    (resourceName appOrigin : String)
    (eventType : EventType)
    (payload : Payload) :
    (render zone resourceName appOrigin eventType
      payload).1 =
      titleOf eventType ++
        String.ofList
          (escapeHeaderValue resourceName.toList) := by
  cases eventType with
  | _ => rfl

theorem titleOf_printable (eventType : EventType) :
    ∀ c ∈ (titleOf eventType).toList,
      isControlCode c = false := by
  have hAll :
      (titleOf eventType).toList.all
        (fun c => !isControlCode c) = true := by
    cases eventType with
    | _ => rfl
  intro c hMem
  have hHere := List.all_eq_true.mp hAll c hMem
  simpa using hHere

/- What the SMTP adapter refuses in a header. -/
def hasLineBreak (text : String) : Bool :=
  text.toList.any (fun c => c = '\r' ∨ c = '\n')

/-
  Whatever the resource is called, the subject is its title
  and the escaped name.  The name keeps what is printed of
  it, and is safe, so the subject has no control character
  and passes the check of the adapter.  The same subject is
  rendered for the name as it is shown.
-/
theorem render_subject_safe
    (resourceName appOrigin : String)
    (eventType : EventType)
    (payload : Payload) :
    (render zone resourceName appOrigin eventType
        payload).1 =
        titleOf eventType ++
          String.ofList
            (escapeHeaderValue resourceName.toList) ∧
      (escapeHeaderValue resourceName.toList).filter isInk =
        resourceName.toList.filter isInk ∧
      SafeHeader (escapeHeaderValue resourceName.toList) ∧
      (∀ c ∈ (render zone resourceName appOrigin eventType
          payload).1.toList, isControlCode c = false) ∧
      hasLineBreak
        (render zone resourceName appOrigin eventType
          payload).1 = false ∧
      (render zone
          (String.ofList
            (escapeHeaderValue resourceName.toList))
          appOrigin eventType payload).1 =
        (render zone resourceName appOrigin eventType
          payload).1 := by
  have hSafe := escapeHeaderValue_safe resourceName.toList
  have hPrintable :
      ∀ c ∈ (render zone resourceName appOrigin eventType
          payload).1.toList, isControlCode c = false := by
    intro c hMem
    rw [render_subject, String.toList_append,
      String.toList_ofList] at hMem
    rcases List.mem_append.mp hMem with hTitle | hName
    · exact titleOf_printable eventType c hTitle
    · exact hSafe.printable c hName
  refine
    ⟨render_subject zone resourceName appOrigin eventType
        payload, escapeHeaderValue_ink _, hSafe, hPrintable,
      ?_, ?_⟩
  · unfold hasLineBreak
    rw [List.any_eq_false]
    intro c hMem hBreak
    have hCode := hPrintable c hMem
    rcases of_decide_eq_true hBreak with rfl | rfl
    · cases hCode
    · cases hCode
  · rw [render_subject, render_subject, String.toList_ofList,
      escapeHeaderValue_eq_self.mpr hSafe]

end PigBook.Delivery
