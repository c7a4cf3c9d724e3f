import PigBook.Calendar.IsoText
import PigBook.Observability.Clean

/-
  The lines that the structured formatter writes.

  Key definitions include:
    * `LogValue`, `LogRecord`
    * `StructuredJsonFormatter.format`
    * `SingleLine`
    * `LogValue.isClean`, `LogValue.staysWhole`

  Key theorems include:
    * `structured_lines`
-/

------------------------------------------------------------
-- Records
------------------------------------------------------------

namespace PigBook.Observability

open Calendar OwnScope JsonText

/- What a caller may attach to a record. -/
inductive LogValue
  | text (val : String)
  | number (val : ℤ)
  | null
deriving DecidableEq

/-
  A log record: what `getMessage` returns, and the attributes
  that were set by the caller.
-/
structure LogRecord where
  levelname : LogValue
  message : String
  attributes : String → Option LogValue

/- An attribute that is not set has its default. -/
def LogRecord.getattr
    (record : LogRecord)
    (name : String)
    (default : LogValue) : LogValue :=
  (record.attributes name).getD default

/- The part of the settings that the formatter reads. -/
structure Settings where
  releaseSha : String

/- `isoformat` of an instant in UTC, in microseconds. -/
def isoformat (t : ℤ) : List Char :=
  let fraction :=
    if t % 1000000 = 0 then []
    else '.' :: digits 6 (t % 1000000).toNat
  secondsText (fields (t / 1000))
    (fraction ++ "+00:00".toList)

example :
    String.ofList (isoformat 1700000000000000) =
      "2023-11-14T22:13:20+00:00" := by
  decide +kernel

end PigBook.Observability

------------------------------------------------------------
-- JSON Texts
------------------------------------------------------------

namespace PigBook.Observability

open OwnScope JsonText

/- Integers with too many digits are not converted. -/
def LogValue.dumps : LogValue → Except Error (List Char)
| text val => .ok (dumpsText val).toList
| number val =>
    if maxStrDigits < (Nat.toDigits 10 val.natAbs).length then
      .error (.valueError
        "Exceeds the limit (4300 digits) for integer string conversion; use sys.set_int_max_str_digits() to increase the limit")
    else .ok (toString val).toList
| null => .ok "null".toList

def dumpsItems :
    List (String × LogValue) → Except Error (List Member)
| [] => .ok []
| (name, val) :: items => do
    let value ← val.dumps
    let members ← dumpsItems items
    return ⟨name.toList.flatMap escapeChar, value⟩ :: members

/- `json.dumps` of an object, with its default separators. -/
def dumpsObject
    (items : List (String × LogValue)) :
    Except Error (List Char) := do
  let members ← dumpsItems items
  return writeObject members

end PigBook.Observability

------------------------------------------------------------
-- The Formatter
------------------------------------------------------------

namespace PigBook.Observability

structure StructuredJsonFormatter where
  service : String := "api"

namespace StructuredJsonFormatter

variable (formatter : StructuredJsonFormatter)
variable (settings : Settings)
variable (now : ℤ)
variable (record : LogRecord)

/- The attributes win over what the formatter knows. -/
def logData : List (String × LogValue) :=
  [("timestamp", .text (String.ofList (isoformat now))),
    ("level", record.levelname),
    ("service",
      record.getattr "service" (.text formatter.service)),
    ("release_sha",
      record.getattr "release_sha"
        (.text settings.releaseSha)),
    ("event", record.getattr "event" (.text record.message)),
    ("request_id", record.getattr "request_id" .null),
    ("route", record.getattr "route" .null),
    ("method", record.getattr "method" .null),
    ("status_code", record.getattr "status_code" .null),
    ("duration_ms", record.getattr "duration_ms" .null),
    ("trace_id", record.getattr "trace_id" .null),
    ("error_code", record.getattr "error_code" .null),
    ("outbox_id", record.getattr "outbox_id" .null),
    ("attempt", record.getattr "attempt" .null)]

/- The required fields, in their order. -/
def orderedData : List (String × LogValue) :=
  exactLogFields.map fun field =>
    (field,
      ((logData formatter settings now record).lookup
        field).getD .null)

/- The text is redacted after it has been encoded. -/
def format : Except Error String := do
  let rawJson ←
    dumpsObject (orderedData formatter settings now record)
  return String.ofList (redactSensitiveText rawJson)

end StructuredJsonFormatter

end PigBook.Observability

------------------------------------------------------------
-- Lines
------------------------------------------------------------

namespace PigBook.Observability

open OwnScope JsonText Regex

/- The characters at which `splitlines` ends a line. -/
def isLineBreak (c : Char) : Bool :=
  (10 ≤ c.toNat ∧ c.toNat ≤ 13) ∨
    (28 ≤ c.toNat ∧ c.toNat ≤ 30) ∨ c.toNat = 0x85 ∨
    c.toNat = 0x2028 ∨ c.toNat = 0x2029

/- None of the characters ends a line. -/
def SingleLine (cs : List Char) : Prop :=
  ∀ c ∈ cs, isLineBreak c = false

/- One line, and on it an object with exactly the keys. -/
def IsLogLine (line : String) : Prop :=
  SingleLine line.toList ∧
    parseObject line.toList = some logKeys

/- A value that is written, and whose text is clean. -/
def LogValue.isClean : LogValue → Bool
| text val => cleanString val
| number val =>
    (Nat.toDigits 10 val.natAbs).length ≤ maxStrDigits
| null => true

/-
  A value that is written, and whose text is not torn where
  it is redacted.
-/
def LogValue.staysWhole : LogValue → Bool
| text val => !(breaksString val)
| number val =>
    (Nat.toDigits 10 val.natAbs).length ≤ maxStrDigits
| null => true

end PigBook.Observability

------------------------------------------------------------
-- Entries
------------------------------------------------------------

namespace PigBook.Observability

open OwnScope JsonText Regex

/- The value as an entry of a line has it. -/
def LogValue.content : LogValue → Content
| text val => .quoted (val.toList.flatMap escapeChar)
| number val => .bare (toString val).toList
| null => .bare "null".toList

/- Such an integer fails in the encoder. -/
def LogValue.tooLong : LogValue → Bool
| number val =>
    maxStrDigits < (Nat.toDigits 10 val.natAbs).length
| _ => false

/- Where the encoder does not fail, it writes the content. -/
theorem dumps_eq
    {val : LogValue}
    (hShort : val.tooLong = false) :
    val.dumps = .ok val.content.text := by
  cases val with
  | text val =>
      have hText := toList_dumpsText val
      unfold LogValue.dumps LogValue.content Content.text
      dsimp only
      rw [hText]
  | number val =>
      have hBound :
          ¬ maxStrDigits <
            (Nat.toDigits 10 val.natAbs).length :=
        of_decide_eq_false hShort
      exact if_neg hBound
  | null => rfl

theorem dumps_tooLong
    {val : LogValue}
    (hLong : val.tooLong = true) :
    ∃ error, val.dumps = .error error := by
  cases val with
  | text val => cases hLong
  | number val =>
      exact ⟨_, if_pos (of_decide_eq_true hLong)⟩
  | null => cases hLong

/- The entry of the line that a field becomes. -/
def entryOf (item : String × LogValue) : Entry :=
  (item.1.toList.flatMap escapeChar, item.2.content)

theorem dumpsItems_eq
    {items : List (String × LogValue)}
    (hShort : ∀ item ∈ items, item.2.tooLong = false) :
    dumpsItems items =
      .ok ((items.map entryOf).map Entry.member) := by
  induction items with
  | nil => rfl
  | cons item items ih =>
      have hHead := dumps_eq (hShort item List.mem_cons_self)
      have hTail :=
        ih (fun x hx => hShort x (List.mem_cons_of_mem item hx))
      unfold dumpsItems
      rw [hHead, hTail]
      rfl

/- One value that is too long fails the whole object. -/
theorem dumpsItems_error
    {items : List (String × LogValue)}
    {item : String × LogValue}
    (hMem : item ∈ items)
    (hLong : item.2.tooLong = true) :
    ∃ error, dumpsItems items = .error error := by
  induction items with
  | nil => cases hMem
  | cons head items ih =>
      unfold dumpsItems
      cases hHead : head.2.dumps with
      | error error => exact ⟨error, rfl⟩
      | ok value =>
          rcases List.mem_cons.mp hMem with hFirst | hLater
          · rcases dumps_tooLong hLong with ⟨error, hError⟩
            rw [← hFirst, hError] at hHead
            cases hHead
          · rcases ih hLater with ⟨error, hError⟩
            rw [hError]
            exact ⟨error, rfl⟩

/- An integer is written with digits and a sign. -/
theorem isWord_number (n : ℤ) :
    IsWord (toString n).toList ∧
      Readable (toString n).toList := by
  have hText :
      ∃ sign,
        (sign = [] ∨ sign = ['-']) ∧
        (toString n).toList =
          sign ++ Nat.toDigits 10 n.natAbs := by
    cases n with
    | ofNat k =>
        refine ⟨[], Or.inl rfl, ?_⟩
        change (Nat.repr k).toList = Nat.toDigits 10 k
        exact Nat.toList_repr
    | negSucc k =>
        refine ⟨['-'], Or.inr rfl, ?_⟩
        change
          ("-" ++ Nat.repr (k + 1)).toList =
            ['-'] ++ Nat.toDigits 10 (k + 1)
        rw [String.toList_append, Nat.toList_repr]
        rfl
  rcases hText with ⟨sign, hSign, hEq⟩
  rw [hEq]
  constructor
  · right
    intro c hc
    rcases List.mem_append.mp hc with hMinus | hDigit
    · left
      rcases hSign with rfl | rfl
      · cases hMinus
      · exact List.mem_singleton.mp hMinus
    · right
      exact
        Nat.isDigit_of_mem_toDigits (b := 10) (by omega)
          (by omega) hDigit
  · exact readable_number hSign (isDecimal_toDigits n.natAbs)

end PigBook.Observability

------------------------------------------------------------
-- Visible Characters
------------------------------------------------------------

namespace PigBook.Observability

open OwnScope JsonText Regex

/- The encoder leaves printable ASCII only. -/
def Visible (cs : List Char) : Prop :=
  ∀ c ∈ cs, 32 ≤ c.toNat ∧ c.toNat ≤ 126

theorem visible_nil : Visible [] := by
  intro c hc
  cases hc

theorem visible_append
    {xs ys : List Char} :
    Visible (xs ++ ys) ↔ Visible xs ∧ Visible ys :=
  List.forall_mem_append

theorem visible_cons
    {c : Char}
    {cs : List Char} :
    Visible (c :: cs) ↔
      (32 ≤ c.toNat ∧ c.toNat ≤ 126) ∧ Visible cs :=
  List.forall_mem_cons

/- No printable character ends a line. -/
theorem singleLine_of_visible
    {cs : List Char}
    (hVisible : Visible cs) :
    SingleLine cs := by
  intro c hc
  have hRange := hVisible c hc
  unfold isLineBreak
  rw [decide_eq_false_iff_not]
  omega

theorem visible_of_all
    {cs : List Char}
    (hAll :
      (cs.all fun c =>
        decide (32 ≤ c.toNat ∧ c.toNat ≤ 126)) = true) :
    Visible cs := by
  intro c hc
  exact of_decide_eq_true (List.all_eq_true.mp hAll c hc)

theorem visible_digit
    {c : Char}
    (hDigit : isHexDigit c = true ∨ c.isDigit = true) :
    32 ≤ c.toNat ∧ c.toNat ≤ 126 := by
  have hCode : c.val.toNat = c.toNat := rfl
  rcases hDigit with hHex | hDecimal
  · simp only [isHexDigit, Char.isDigit, Bool.and_eq_true,
      decide_eq_true_iff, ge_iff_le, Char.le_def,
      UInt32.le_iff_toNat_le, hCode] at hHex
    rcases hHex with hDigit | hLower | hUpper
    · exact
        ⟨hDigit.1.trans' (by decide),
          hDigit.2.trans (by decide)⟩
    · exact
        ⟨hLower.1.trans' (by decide),
          hLower.2.trans (by decide)⟩
    · exact
        ⟨hUpper.1.trans' (by decide),
          hUpper.2.trans (by decide)⟩
  · have hRange := isDigit_toNat hDecimal
    omega

theorem visible_hex4 (n : ℕ) : Visible (hex4 n) := by
  intro c hc
  exact visible_digit (Or.inl (isHexDigit_hex4 hc))

/- An escape is printable, whatever it stands for. -/
theorem visible_escapeChar (c : Char) :
    Visible (escapeChar c) := by
  have hSlash : 32 ≤ '\\'.toNat ∧ '\\'.toNat ≤ 126 := by
    decide
  have hPair :
      ∀ d : Char, 32 ≤ d.toNat ∧ d.toNat ≤ 126 →
        Visible ['\\', d] := by
    intro d hd
    exact
      visible_cons.mpr
        ⟨hSlash, visible_cons.mpr ⟨hd, visible_nil⟩⟩
  have hUnit : ∀ n, Visible ('\\' :: 'u' :: hex4 n) := by
    intro n
    exact
      visible_cons.mpr
        ⟨hSlash,
          visible_cons.mpr ⟨by decide, visible_hex4 n⟩⟩
  unfold escapeChar
  dsimp only
  split_ifs with hQuote hBack hNewline hReturn hTab hEight
    hTwelve hPrint hSmall
  · exact hPair '"' (by decide)
  · exact hPair '\\' (by decide)
  · exact hPair 'n' (by decide)
  · exact hPair 'r' (by decide)
  · exact hPair 't' (by decide)
  · exact hPair 'b' (by decide)
  · exact hPair 'f' (by decide)
  · exact visible_cons.mpr ⟨hPrint, visible_nil⟩
  · exact hUnit _
  · exact visible_append.mpr ⟨hUnit _, hUnit _⟩

theorem visible_escapes (cs : List Char) :
    Visible (cs.flatMap escapeChar) := by
  intro c hc
  rcases List.mem_flatMap.mp hc with ⟨d, -, hMem⟩
  exact visible_escapeChar d c hMem

theorem visible_mark
    {mark : List Char}
    (hMark : IsMark mark) :
    Visible mark := by
  rcases hMark with rfl | rfl
  · exact visible_of_all (by decide)
  · exact visible_of_all (by decide)

/- What is kept was there, and what is new is a mark. -/
theorem visible_sub
    {find : List Char → Option (List Char × ℕ)}
    {cs : List Char}
    (hProper : Proper find)
    (hMasks : Masks find)
    (hVisible : Visible cs) :
    Visible (sub find 0 cs) := by
  induction cs using sub_induction hProper with
  | hNil => exact hVisible
  | hNone c cs hFind ih =>
      rw [visible_cons] at hVisible
      rw [sub_of_none hFind, visible_cons]
      exact ⟨hVisible.1, ih hVisible.2⟩
  | hSome cs text n hFind ih =>
      rcases hMasks cs text n hFind with
        ⟨kept, value, mark, rest, hCs, hLength, hText, hMark, -⟩
      rw [sub_found hProper hFind, hText]
      rw [hCs, hLength, drop_match] at ih ⊢
      rw [hCs, visible_append, visible_append] at hVisible
      rw [visible_append, visible_append]
      exact
        ⟨⟨hVisible.1, visible_mark hMark⟩, ih hVisible.2.2⟩

theorem visible_redact
    {rules : List (Rule Char)}
    {cs : List Char}
    (hRules : ∀ rule ∈ rules, rule ∈ redactPatterns)
    (hVisible : Visible cs) :
    Visible (redactAll rules cs) := by
  induction rules generalizing cs with
  | nil => exact hVisible
  | cons rule rules ih =>
      have hRule := hRules rule List.mem_cons_self
      apply ih
      · intro r hr
        exact hRules r (List.mem_cons_of_mem rule hr)
      · exact
          visible_sub (fits_of_mem hRule).proper
            (masks_of_mem hRule) hVisible

/- The members of an object and what is between them. -/
theorem visible_writeObject
    {ms : List Member}
    (hMembers :
      ∀ m ∈ ms, Visible m.name ∧ Visible m.value) :
    Visible (writeObject ms) := by
  have hText :
      ∀ m ∈ ms, Visible m.text := by
    intro m hm
    unfold Member.text
    rw [visible_cons, visible_append, visible_cons,
      visible_cons, visible_cons]
    exact
      ⟨by decide, (hMembers m hm).1, by decide, by decide,
        by decide, (hMembers m hm).2⟩
  have hMore :
      ∀ rest : List Member, (∀ m ∈ rest, Visible m.text) →
        Visible (writeMore rest) := by
    intro rest hRest
    induction rest with
    | nil => exact visible_cons.mpr ⟨by decide, visible_nil⟩
    | cons m rest ih =>
        rw [writeMore_cons, visible_cons, visible_cons,
          visible_append]
        exact
          ⟨by decide, by decide,
            hRest m List.mem_cons_self,
            ih fun x hx =>
              hRest x (List.mem_cons_of_mem m hx)⟩
  cases ms with
  | nil =>
      exact
        visible_cons.mpr
          ⟨by decide,
            visible_cons.mpr ⟨by decide, visible_nil⟩⟩
  | cons m ms =>
      unfold writeObject
      rw [visible_cons, visible_append]
      exact
        ⟨by decide, hText m List.mem_cons_self,
          hMore ms fun x hx =>
            hText x (List.mem_cons_of_mem m hx)⟩

end PigBook.Observability

------------------------------------------------------------
-- Log Lines
------------------------------------------------------------

namespace PigBook.Observability

open OwnScope JsonText Regex

/- A list has a first element without a property, if any. -/
theorem first_without
    {α : Type}
    (P : α → Bool)
    (xs : List α) :
    (∀ x ∈ xs, P x = true) ∨
      ∃ front x later,
        xs = front ++ x :: later ∧
        (∀ y ∈ front, P y = true) ∧ P x = false := by
  induction xs with
  | nil => exact Or.inl (by simp)
  | cons a xs ih =>
      cases hHead : P a with
      | false =>
          right
          exact ⟨[], a, xs, rfl, by simp, hHead⟩
      | true =>
          rcases ih with hAll | ⟨front, x, later, rfl, hFront, hx⟩
          · left
            exact List.forall_mem_cons.mpr ⟨hHead, hAll⟩
          · right
            exact
              ⟨a :: front, x, later, rfl,
                List.forall_mem_cons.mpr ⟨hHead, hFront⟩, hx⟩

/- The names need no escapes. -/
theorem logKeys_eq :
    exactLogFields.map
        (fun field => field.toList.flatMap escapeChar) =
      logKeys := by
  decide +kernel

/- A reader takes each name for what it is. -/
theorem goodName_of_mem
    {name : List Char}
    (hName : name ∈ logKeys) :
    GoodName name := by
  have hAll :
      (logKeys.all fun name =>
        decide (Place.plain.after name = some .plain) &&
          name.head?.any fun c =>
            !(isBlank c) && decide (c ≠ ':')) = true := by
    decide +kernel
  have hHere := List.all_eq_true.mp hAll name hName
  rw [Bool.and_eq_true, decide_eq_true_iff] at hHere
  constructor
  · exact hHere.1
  · cases name with
    | nil => cases hHere.2
    | cons c cs =>
        refine ⟨c, cs, rfl, ?_⟩
        simpa using hHere.2

section

variable (formatter : StructuredJsonFormatter)
variable (settings : Settings)
variable (now : ℤ)
variable (record : LogRecord)

/- The entries of the line, before it is redacted. -/
def entries : List Entry :=
  (formatter.orderedData settings now record).map entryOf

theorem entries_names :
    (entries formatter settings now record).map Prod.fst =
      logKeys := by
  rw [← logKeys_eq]
  unfold entries StructuredJsonFormatter.orderedData
  rw [List.map_map, List.map_map]
  rfl

theorem entry_name
    {entry : Entry}
    (hEntry : entry ∈ entries formatter settings now record) :
    entry.1 ∈ logKeys := by
  rw [← entries_names formatter settings now record]
  exact List.mem_map_of_mem hEntry

/- Values that are not strings are words. -/
theorem content_bare
    {entry : Entry}
    {word : List Char}
    (hEntry : entry ∈ entries formatter settings now record)
    (hWord : entry.2 = .bare word) :
    IsWord word := by
  rcases List.mem_map.mp hEntry with ⟨item, -, rfl⟩
  rcases item with ⟨name, val⟩
  cases val with
  | text val => cases hWord
  | number val =>
      cases hWord
      exact (isWord_number val).1
  | null =>
      cases hWord
      exact Or.inl rfl

theorem visible_content (val : LogValue) :
    Visible val.content.text := by
  cases val with
  | text val =>
      have hQuote : 32 ≤ '"'.toNat ∧ '"'.toNat ≤ 126 := by
        decide
      exact
        visible_cons.mpr
          ⟨hQuote,
            visible_append.mpr
              ⟨visible_escapes val.toList,
                visible_cons.mpr ⟨hQuote, visible_nil⟩⟩⟩
  | number val =>
      rcases (isWord_number val).1 with hNull | hDigits
      · change Visible (toString val).toList
        rw [hNull]
        exact visible_of_all (by decide)
      · intro c hc
        rcases hDigits c hc with hMinus | hDigit
        · rw [hMinus]
          decide
        · exact visible_digit (Or.inr hDigit)
  | null => exact visible_of_all (by decide)

/- The line that the formatter writes, before and after. -/
theorem format_eq
    (hShort :
      ∀ item ∈ formatter.orderedData settings now record,
        item.2.tooLong = false) :
    formatter.format settings now record =
      .ok
        (String.ofList
          (lineOf
            ((entries formatter settings now record).map
              (Entry.change (redactAll redactPatterns))))) := by
  have hLine :
      dumpsObject (formatter.orderedData settings now record) =
        .ok (lineOf (entries formatter settings now record)) := by
    unfold dumpsObject
    rw [dumpsItems_eq hShort]
    rfl
  have hRedact :=
    redact_line (fun rule hRule => hRule)
      (fun entry => entry_name formatter settings now record)
      (fun entry hEntry word =>
        content_bare formatter settings now record hEntry)
  unfold StructuredJsonFormatter.format
  rw [hLine, ← hRedact]
  rfl

/- A value that stays whole is read back. -/
theorem readable_content
    {val : LogValue}
    (hWhole : val.staysWhole = true) :
    Readable
      (val.content.change (redactAll redactPatterns)).text := by
  cases val with
  | text val =>
      apply readable_string
      apply isBody_redact
      · intro rule hRule
        exact isField_of_mem hRule
      · exact isBody_escapes val.toList
      · exact (Bool.not_eq_true' (breaksString val)).mp hWhole
  | number val => exact (isWord_number val).2
  | null => exact readable_null

/- A value that does not is a text whose string is broken. -/
theorem broken_content
    {val : LogValue}
    (hShort : val.tooLong = false)
    (hTorn : val.staysWhole = false) :
    ∃ body,
      (val.content.change (redactAll redactPatterns)).text =
        '"' :: (body ++ ['"']) ∧
      Broken body := by
  cases val with
  | text val =>
      refine ⟨_, rfl, ?_⟩
      apply broken_redact
      · exact fun rule hRule => hRule
      · exact isBody_escapes val.toList
      · exact quotesMarked_escapes '"' val.toList
      · exact
          (Bool.not_eq_false' (breaksString val)).mp hTorn
  | number val =>
      exfalso
      have hBound := of_decide_eq_false hShort
      exact of_decide_eq_false hTorn (Nat.le_of_not_lt hBound)
  | null => cases hTorn

/- The members of the line, after it is redacted. -/
def lineMembers : List Member :=
  ((entries formatter settings now record).map
    (Entry.change (redactAll redactPatterns))).map Entry.member

theorem lineMembers_eq :
    lineMembers formatter settings now record =
      (formatter.orderedData settings now record).map
        fun item =>
          ((entryOf item).change
            (redactAll redactPatterns)).member := by
  unfold lineMembers entries
  rw [List.map_map, List.map_map]
  rfl

theorem lineMembers_names :
    (lineMembers formatter settings now record).map
        Member.name =
      logKeys := by
  rw [← entries_names formatter settings now record]
  unfold lineMembers
  rw [List.map_map, List.map_map]
  rfl

theorem lineMember_goodName
    {m : Member}
    (hMember :
      m ∈ lineMembers formatter settings now record) :
    GoodName m.name := by
  apply goodName_of_mem
  rw [← lineMembers_names formatter settings now record]
  exact List.mem_map_of_mem hMember

/- No number of a line has too many digits. -/
theorem short_of_format
    {line : String}
    (hFormat :
      formatter.format settings now record = .ok line) :
    ∀ item ∈ formatter.orderedData settings now record,
      item.2.tooLong = false := by
  intro item hItem
  cases hLong : item.2.tooLong with
  | false => rfl
  | true =>
      rcases dumpsItems_error hItem hLong with ⟨error, hError⟩
      unfold StructuredJsonFormatter.format dumpsObject
        at hFormat
      rw [hError] at hFormat
      cases hFormat

/- What is written is always a single line. -/
theorem singleLine_format
    {line : String}
    (hFormat :
      formatter.format settings now record = .ok line) :
    SingleLine line.toList := by
  have hShort :=
    short_of_format formatter settings now record hFormat
  have hRaw :
      dumpsObject (formatter.orderedData settings now record) =
        .ok (lineOf (entries formatter settings now record)) := by
    unfold dumpsObject
    rw [dumpsItems_eq hShort]
    rfl
  unfold StructuredJsonFormatter.format at hFormat
  rw [hRaw] at hFormat
  have hLine :
      String.ofList
          (redactSensitiveText
            (lineOf (entries formatter settings now record))) =
        line :=
    Except.ok.inj hFormat
  rw [← hLine, String.toList_ofList]
  apply singleLine_of_visible
  apply visible_redact (fun rule hRule => hRule)
  apply visible_writeObject
  intro m hm
  rcases List.mem_map.mp hm with ⟨entry, hEntry, rfl⟩
  rcases List.mem_map.mp hEntry with ⟨item, -, rfl⟩
  exact ⟨visible_escapes _, visible_content item.2⟩

/- A line with a value that is torn is no object. -/
theorem parse_torn
    {front later : List (String × LogValue)}
    {x : String × LogValue}
    (hSplit :
      formatter.orderedData settings now record =
        front ++ x :: later)
    (hShort : x.2.tooLong = false)
    (hFront : ∀ y ∈ front, y.2.staysWhole = true)
    (hTorn : x.2.staysWhole = false) :
    parseObject
        (writeObject
          (lineMembers formatter settings now record)) =
      none := by
  rcases broken_content hShort hTorn with
    ⟨body, hText, hBroken⟩
  have hMembers :=
    lineMembers_eq formatter settings now record
  rw [hSplit, List.map_append, List.map_cons] at hMembers
  rw [hMembers]
  apply parseObject_broken _ _ hText hBroken
  · intro y hy
    rw [← hMembers] at hy
    exact lineMember_goodName formatter settings now record hy
  · intro y hy
    rcases List.mem_map.mp hy with ⟨e, he, rfl⟩
    exact readable_content (hFront e he)

/- A line whose values stay whole is an object. -/
theorem parse_whole
    (hWhole :
      ∀ item ∈ formatter.orderedData settings now record,
        item.2.staysWhole = true) :
    parseObject
        (writeObject
          (lineMembers formatter settings now record)) =
      some logKeys := by
  rw [← lineMembers_names formatter settings now record]
  apply parseObject_writeObject
  · intro m hm
    exact
      (lineMember_goodName formatter settings now record hm).1
  · intro m hm
    rw [lineMembers_eq] at hm
    rcases List.mem_map.mp hm with ⟨item, hItem, rfl⟩
    exact readable_content (hWhole item hItem)

/- A value that stays whole is not too long, -/
theorem short_of_whole
    {val : LogValue}
    (hWhole : val.staysWhole = true) :
    val.tooLong = false := by
  cases val with
  | text val => rfl
  | number val =>
      apply decide_eq_false
      exact Nat.not_lt.mpr (of_decide_eq_true hWhole)
  | null => rfl

/- and a clean one stays whole. -/
theorem staysWhole_of_isClean
    {val : LogValue}
    (hClean : val.isClean = true) :
    val.staysWhole = true := by
  cases val with
  | text val =>
      exact
        (Bool.not_eq_true' (breaksString val)).mpr
          (breaks_of_clean hClean)
  | number val => exact hClean
  | null => rfl

/- A record is written if each of its values stays whole. -/
theorem format_iff_staysWhole :
    (∃ line,
      formatter.format settings now record = .ok line ∧
        IsLogLine line) ↔
      ∀ item ∈ formatter.orderedData settings now record,
        item.2.staysWhole = true := by
  constructor
  · intro hLine item hItem
    rcases hLine with ⟨line, hFormat, -, hParse⟩
    have hShort :=
      short_of_format formatter settings now record hFormat
    rw [format_eq formatter settings now record hShort]
      at hFormat
    cases hFormat
    rw [String.toList_ofList] at hParse
    rcases
      first_without (fun x => x.2.staysWhole)
        (formatter.orderedData settings now record) with
      hAll | ⟨front, x, later, hSplit, hFront, hTorn⟩
    · exact hAll item hItem
    · exfalso
      have hx :
          x ∈ formatter.orderedData settings now record := by
        rw [hSplit]
        simp
      have hNone :=
        parse_torn formatter settings now record hSplit
          (hShort x hx) hFront hTorn
      change
        parseObject
            (writeObject
              (lineMembers formatter settings now record)) =
          some logKeys at hParse
      rw [hNone] at hParse
      cases hParse
  · intro hWhole
    have hFormat :=
      format_eq formatter settings now record
        (fun item hItem => short_of_whole (hWhole item hItem))
    refine ⟨_, hFormat, ?_, ?_⟩
    · exact
        singleLine_format formatter settings now record hFormat
    · rw [String.toList_ofList]
      exact parse_whole formatter settings now record hWhole

/-
  A record with clean values is written as a line with
  exactly the required keys.  In general it is if and only if
  each value stays whole when one rule after the other is
  applied to it.
-/
theorem structured_lines :
    ((∀ item ∈ formatter.orderedData settings now record,
        item.2.isClean = true) →
      ∃ line,
        formatter.format settings now record = .ok line ∧
          IsLogLine line) ∧
    ((∃ line,
        formatter.format settings now record = .ok line ∧
          IsLogLine line) ↔
      ∀ item ∈ formatter.orderedData settings now record,
        item.2.staysWhole = true) := by
  have hExact :=
    format_iff_staysWhole formatter settings now record
  constructor
  · intro hClean
    apply hExact.mpr
    intro item hItem
    exact staysWhole_of_isClean (hClean item hItem)
  · exact hExact

end

/-
  A record whose message has a password and an address among
  quotation marks.
-/
def failedLogin : LogRecord where
  levelname := .text "INFO"
  message :=
    "sent \"Cookie: a='b c'\" with password='abc' to d@e.fr"
  attributes := fun name =>
    if name = "attempt" then some (.number 3) else none

/- The record with a password in plain text is one line. -/
theorem failedLogin_line :
    ∃ line,
      StructuredJsonFormatter.format {} ⟨"dev"⟩
          1700000000000000 failedLogin = .ok line ∧
        IsLogLine line :=
  (structured_lines {} ⟨"dev"⟩ 1700000000000000
    failedLogin).1 (by decide +kernel)

/- A record whose message has a quoted password. -/
def quotedPassword : LogRecord where
  levelname := .text "INFO"
  message := "password=\"abc\""
  attributes := fun _ => none

/- The mark takes the backslash and leaves the quote. -/
theorem quotedPassword_torn :
    ¬ ∃ line,
      StructuredJsonFormatter.format {} ⟨"dev"⟩
          1700000000000000 quotedPassword = .ok line ∧
        IsLogLine line := by
  intro hLine
  rcases hLine with ⟨line, hFormat, -, hParse⟩
  have hNone :
      ((dumpsObject
        (StructuredJsonFormatter.orderedData {} ⟨"dev"⟩
          1700000000000000 quotedPassword)).toOption.bind
        fun raw => parseObject (redactSensitiveText raw)) =
        none := by
    decide +kernel
  unfold StructuredJsonFormatter.format at hFormat
  cases hRaw :
      dumpsObject
        (StructuredJsonFormatter.orderedData {} ⟨"dev"⟩
          1700000000000000 quotedPassword) with
  | error error =>
      rw [hRaw] at hFormat
      cases hFormat
  | ok raw =>
      rw [hRaw] at hFormat hNone
      cases hFormat
      rw [String.toList_ofList] at hParse
      change parseObject (redactSensitiveText raw) = none
        at hNone
      rw [hNone] at hParse
      cases hParse

end PigBook.Observability
