import Mathlib.Data.List.Infix
import PigBook.Delivery.Sanitize
import PigBook.Json.Reader
import PigBook.Json.Strings
import PigBook.Regex.Boundaries

/-
  Redaction of encoded log lines.

  Key definitions include:
    * `fieldRule`, `emailRule`, `redactPatterns`
    * `redactSensitiveText`
    * `overruns`, `cuts`, `breaksString`

  Key theorems include:
    * `redact_line`
    * `isBody_redact`
    * `broken_redact`
-/

------------------------------------------------------------
-- Patterns
------------------------------------------------------------

namespace PigBook.Observability

open Regex Delivery OwnScope JsonText

/- The fields of the schema. -/
def exactLogFields : List String :=
  ["timestamp", "level", "service", "release_sha", "event",
    "request_id", "route", "method", "status_code",
    "duration_ms", "trace_id", "error_code", "outbox_id",
    "attempt"]

/- What a value is replaced by, and what an address is. -/
def redacted : List Char := "[REDACTED]".toList

def redactedEmail : List Char := "[REDACTED_EMAIL]".toList

/- The class of both quotes. -/
def isQuote (c : Char) : Bool :=
  c = '"' ∨ c = '\''

/- No quote, no blank, no comma and no closing brace. -/
def isTokenPart (c : Char) : Bool :=
  ¬ (c = '"' ∨ c = '\'' ∨ isSpace c ∨ c = ',' ∨ c = '\x7d')

/- Of blanks, only the line breaks end a cookie. -/
def isCookiePart (c : Char) : Bool :=
  ¬ (c = '"' ∨ c = '\'' ∨ c = '\r' ∨ c = '\n' ∨ c = ',' ∨
    c = '\x7d')

/- A name that may have a quote on either side. -/
def named (word : String) : Pattern Char :=
  .seq (.opt (.cls isQuote)) (.word (ignoreCase word))

/- A colon or an equals sign among blanks. -/
def signed (scheme : Pattern Char) : Pattern Char :=
  .seq (.star isSpace)
    (.seq (.cls isSign)
      (.seq (.star isSpace)
        (.seq (.opt (.cls isQuote)) scheme)))

/-
  A name and a value. What matches up to the value is kept,
  and the value is not.
-/
def fieldRule
    (word : String)
    (scheme : Pattern Char)
    (isPart : Char → Bool) : Rule Char where
  group :=
    .seq (named word) (.seq (.opt (.cls isQuote)) (signed scheme))
  rest := .plus isPart
  replace := fun kept => kept ++ redacted

/- The scheme of an authorization is kept with its name. -/
def bearerScheme : Pattern Char :=
  .opt (.seq (.word (ignoreCase "bearer")) (.plus isSpace))

def authorizationRule : Rule Char :=
  fieldRule "authorization" bearerScheme isTokenPart

/- A cookie may have blanks in its value. -/
def cookieRule : Rule Char :=
  fieldRule "cookie" .empty isCookiePart

def passwordRule : Rule Char :=
  fieldRule "password" .empty isTokenPart

def invitationTokenRule : Rule Char :=
  fieldRule "invitation_token" .empty isTokenPart

def smtpPasswordRule : Rule Char :=
  fieldRule "smtp_password" .empty isTokenPart

/- The classes of the parts of an address. -/
def isLocalPart (c : Char) : Bool :=
  c.isAlphanum ∨ c = '_' ∨ c = '.' ∨ c = '+' ∨ c = '-'

def isDomainPart (c : Char) : Bool :=
  c.isAlphanum ∨ c = '-'

def isHostPart (c : Char) : Bool :=
  c.isAlphanum ∨ c = '-' ∨ c = '.'

/- Of an address nothing is kept. -/
def emailRule : Rule Char where
  group :=
    .seq (.plus isLocalPart)
      (.seq (.cls (· = '@'))
        (.seq (.plus isDomainPart)
          (.seq (.cls (· = '.')) (.plus isHostPart))))
  rest := .empty
  replace := fun _ => redactedEmail

def fieldRules : List (Rule Char) :=
  [authorizationRule, cookieRule, passwordRule,
    invitationTokenRule, smtpPasswordRule]

/- The patterns, in the order in which they are applied. -/
def redactPatterns : List (Rule Char) :=
  fieldRules ++ [emailRule]

def redactAll
    (rules : List (Rule Char))
    (text : List Char) : List Char :=
  rules.foldl (fun text rule => sub rule.find 0 text) text

/- Each pattern sees what the ones before it have left. -/
def redactSensitiveText (text : List Char) : List Char :=
  redactAll redactPatterns text

example :
    redactSensitiveText "Password = 'a' or b@c.de".toList =
      "Password = '[REDACTED]' or [REDACTED_EMAIL]".toList := by
  decide

end PigBook.Observability

------------------------------------------------------------
-- Lines
------------------------------------------------------------

namespace PigBook.Observability

open Regex Delivery OwnScope JsonText

/-
  Log lines have string values and others.
-/
inductive Content
  | quoted (body : List Char)
  | bare (word : List Char)

/- What is written for a value. -/
def Content.text : Content → List Char
| quoted body => '"' :: (body ++ ['"'])
| bare word => word

/- A change of what is between quotes. -/
def Content.change
    (f : List Char → List Char) : Content → Content
| quoted body => quoted (f body)
| bare word => bare word

abbrev Entry := List Char × Content

def Entry.member (entry : Entry) : Member where
  name := entry.1
  value := entry.2.text

def Entry.change
    (f : List Char → List Char)
    (entry : Entry) : Entry :=
  (entry.1, entry.2.change f)

/- The text of a line, as the encoder joins it. -/
def lineOf (entries : List Entry) : List Char :=
  writeObject (entries.map Entry.member)

/- What comes before the value of an entry. -/
def keyText (name : List Char) : List Char :=
  '"' :: (name ++ ['"', ':', ' '])

/-
  A rule that changes a line only between the quotes of its
  values, when its keys have the given names.
-/
structure Fits
    (names : List (List Char))
    (find : List Char → Option (List Char × ℕ)) : Prop where
  proper : Proper find
  separator :
    ∀ zs more y, y = ',' ∨ y = '\x7d' →
      find (zs ++ y :: more) = find zs
  closing : ∀ zs, find (zs ++ ['"']) = find zs
  opening :
    ∀ cs, sub find 0 ('"' :: cs) = '"' :: sub find 0 cs
  space : ∀ cs, find (' ' :: cs) = none
  brace : ∀ cs, find ('\x7b' :: cs) = none
  key :
    ∀ name ∈ names, ∀ zs more, zs ≠ [] → zs <:+ keyText name →
      find (zs ++ more) = none

variable {names : List (List Char)}
variable {find : List Char → Option (List Char × ℕ)}

/- A match is never empty. -/
theorem find_nil (hProper : Proper find) :
    find [] = none := by
  cases hFind : find [] with
  | none => rfl
  | some found =>
      rcases found with ⟨text, n⟩
      have hBounds := hProper _ _ _ hFind
      rw [List.length_nil] at hBounds
      omega

namespace Fits

variable (hFits : Fits names find)
include hFits

/- Between two entries nothing is matched. -/
theorem sub_separator
    {y : Char}
    (more : List Char)
    (hSeparator : y = ',' ∨ y = '\x7d') :
    sub find 0 (y :: more) = y :: sub find 0 more := by
  apply sub_of_none
  have hSame := hFits.separator [] more y hSeparator
  rw [List.nil_append] at hSame
  rw [hSame]
  exact find_nil hFits.proper

/- The value of an entry. -/
theorem sub_content
    {content : Content}
    (hBare :
      ∀ word, content = .bare word → sub find 0 word = word) :
    sub find 0 content.text =
      (content.change (sub find 0)).text := by
  cases content with
  | quoted body =>
      have hSplit :
          sub find 0 (body ++ ['"']) =
            sub find 0 body ++ sub find 0 ['"'] := by
        apply sub_append _ hFits.proper
        · intro zs hSome hSuffix
          exact hFits.closing zs
        · exact Nat.zero_le _
      have hQuote : sub find 0 ['"'] = ['"'] :=
        hFits.opening []
      unfold Content.text Content.change
      dsimp only
      rw [hFits.opening, hSplit, hQuote]
  | bare word => exact hBare word rfl

/-
  The name of an entry is passed over, and its value changed.
-/
theorem sub_member
    {entry : Entry}
    (hName : entry.1 ∈ names)
    (hBare :
      ∀ word, entry.2 = .bare word → sub find 0 word = word) :
    sub find 0 entry.member.text =
      (entry.change (sub find 0)).member.text := by
  have hText :
      ∀ value : List Char,
        (Member.mk entry.1 value).text =
          keyText entry.1 ++ value := by
    intro value
    unfold Member.text keyText
    simp
  have hHere := hText entry.2.text
  have hThere :=
    hText (entry.2.change (sub find 0)).text
  unfold Entry.member Entry.change
  dsimp only
  rw [hHere, hThere, ← hFits.sub_content hBare]
  apply sub_of_all_none
  intro zs hSome hSuffix
  exact hFits.key entry.1 hName zs _ hSome hSuffix

/- The entries behind the first, one after the other. -/
theorem sub_writeMore
    {entries : List Entry}
    (hNames : ∀ entry ∈ entries, entry.1 ∈ names)
    (hBare :
      ∀ entry ∈ entries, ∀ word, entry.2 = .bare word →
        sub find 0 word = word) :
    sub find 0 (writeMore (entries.map Entry.member)) =
      writeMore
        ((entries.map (Entry.change (sub find 0))).map
          Entry.member) := by
  induction entries with
  | nil => exact hFits.sub_separator [] (Or.inr rfl)
  | cons entry entries ih =>
      have hSplit :
          sub find 0
              (entry.member.text ++
                writeMore (entries.map Entry.member)) =
            sub find 0 entry.member.text ++
              sub find 0
                (writeMore (entries.map Entry.member)) := by
        apply sub_append _ hFits.proper
        · intro zs hSome hSuffix
          rcases follows_writeMore (entries.map Entry.member) with
            ⟨y, more, hMore, hSeparator⟩
          rw [hMore]
          exact hFits.separator zs more y hSeparator
        · exact Nat.zero_le _
      rw [List.map_cons, List.map_cons, List.map_cons,
        writeMore_cons, writeMore_cons,
        hFits.sub_separator _ (Or.inl rfl),
        sub_of_none (hFits.space _), hSplit,
        hFits.sub_member (hNames entry List.mem_cons_self)
          (hBare entry List.mem_cons_self),
        ih
          (fun e he => hNames e (List.mem_cons_of_mem entry he))
          (fun e he =>
            hBare e (List.mem_cons_of_mem entry he))]

/- A line is changed between the quotes of its values only. -/
theorem sub_lineOf
    {entries : List Entry}
    (hNames : ∀ entry ∈ entries, entry.1 ∈ names)
    (hBare :
      ∀ entry ∈ entries, ∀ word, entry.2 = .bare word →
        sub find 0 word = word) :
    sub find 0 (lineOf entries) =
      lineOf (entries.map (Entry.change (sub find 0))) := by
  cases entries with
  | nil =>
      unfold lineOf
      rw [List.map_nil, List.map_nil, List.map_nil]
      unfold writeObject
      rw [sub_of_none (hFits.brace _),
        hFits.sub_separator [] (Or.inr rfl)]
      rfl
  | cons entry entries =>
      -- All but the first character is what follows a comma.
      have hMore := hFits.sub_writeMore hNames hBare
      rw [List.map_cons, List.map_cons, List.map_cons,
        writeMore_cons, writeMore_cons,
        hFits.sub_separator _ (Or.inl rfl),
        sub_of_none (hFits.space _), List.cons.injEq,
        List.cons.injEq] at hMore
      unfold lineOf
      rw [List.map_cons, List.map_cons, List.map_cons]
      unfold writeObject
      rw [sub_of_none (hFits.brace _), hMore.2.2]

end Fits

end PigBook.Observability

------------------------------------------------------------
-- Rules of Fields
------------------------------------------------------------

namespace PigBook.Observability

open Regex Delivery OwnScope JsonText

/- The keys of a log line. -/
def logKeys : List (List Char) :=
  exactLogFields.map String.toList

/- A name comes with its quotes, its colon and one blank. -/
theorem suffix_keyText
    {name zs : List Char}
    (hSome : zs ≠ [])
    (hSuffix : zs <:+ keyText name) :
    ∃ zs',
      zs = zs' ++ [' '] ∧
      zs' ∈ ('"' :: (name ++ ['"', ':'])).tails := by
  have hKey :
      keyText name = '"' :: (name ++ ['"', ':']) ++ [' '] := by
    unfold keyText
    simp
  rw [hKey] at hSuffix
  rcases List.suffix_concat_iff.mp hSuffix with
    hNil | ⟨zs', hEq, hShort⟩
  · exact absurd hNil hSome
  · exact ⟨zs', hEq, (List.mem_tails zs' _).mpr hShort⟩

/- A pattern that does not match within the keys of a line. -/
def MissesKeys (r : Pattern Char) : Bool :=
  logKeys.all fun name =>
    ('"' :: (name ++ ['"', ':'])).tails.all fun zs =>
      (r.ends zs).isEmpty

/- Whatever follows a key, no match begins in it. -/
theorem MissesKeys.ends
    {r : Pattern Char}
    {name zs : List Char}
    (hMisses : MissesKeys r = true)
    (hSpace : r.mentions ' ' = false)
    (hName : name ∈ logKeys)
    (hSome : zs ≠ [])
    (hSuffix : zs <:+ keyText name)
    (more : List Char) :
    r.ends (zs ++ more) = [] := by
  rcases suffix_keyText hSome hSuffix with ⟨zs', rfl, hTail⟩
  have hNone :=
    List.all_eq_true.mp
      (List.all_eq_true.mp hMisses name hName) zs' hTail
  rw [List.append_assoc, List.singleton_append,
    Pattern.ends_foreign more zs' hSpace,
    List.isEmpty_iff.mp hNone]
  rfl

/- The longest match of a class, and what stops it. -/
theorem plus_spec
    {p : Char → Bool}
    {value rest : List Char}
    (hHead :
      ((Pattern.plus p).ends (value ++ rest)).head? =
        some rest) :
    value ≠ [] ∧ (∀ c ∈ value, p c = true) ∧
      ∀ c cs, rest = c :: cs → p c = false := by
  cases hText : value ++ rest with
  | nil =>
      rw [hText] at hHead
      cases hHead
  | cons c cs =>
      rw [hText, ends_plus_cons] at hHead
      split at hHead
      next hClass =>
        rw [head_starEnds, Option.some.injEq] at hHead
        have hSplit := List.takeWhile_append_dropWhile
          (p := p) (l := cs)
        rw [hHead] at hSplit
        have hSame :
            value ++ rest = c :: cs.takeWhile p ++ rest := by
          rw [hText, List.cons_append, hSplit]
        have hValue : value = c :: cs.takeWhile p :=
          List.append_cancel_right hSame
        refine ⟨?_, ?_, ?_⟩
        · rw [hValue]
          exact List.cons_ne_nil _ _
        · intro d hd
          rw [hValue] at hd
          rcases List.mem_cons.mp hd with hFirst | hLater
          · rw [hFirst]
            exact hClass
          · exact List.mem_takeWhile_imp hLater
        · intro d ds hRest
          have hStop := List.head?_dropWhile_not p cs
          rw [hHead, hRest] at hStop
          simpa using hStop
      next => cases hHead

/- A character that an escape may have after its backslash. -/
def inEscape (c : Char) : Bool :=
  c = 'u' ∨ isEscape c ∨ isHexDigit c

/- No class of the pattern has one of the characters. -/
def avoids (r : Pattern Char) (cs : List Char) : Bool :=
  cs.all fun c => !(r.mentions c)

theorem avoids_mem
    {r : Pattern Char}
    {cs : List Char}
    {c : Char}
    (hAvoids : avoids r cs = true)
    (hMem : c ∈ cs) :
    r.mentions c = false := by
  have hNot := List.all_eq_true.mp hAvoids c hMem
  simpa using hNot

/- What the parameters of a rule have to be. -/
structure Suitable
    (word : String)
    (scheme : Pattern Char)
    (isPart : Char → Bool) : Prop where
  named : MissesKeys (named word) = true
  visible :
    avoids (Observability.named word)
      " \x7b-0123456789".toList = true
  letter :
    avoids (.word (ignoreCase word)) ['"', '\''] = true
  nonempty : ignoreCase word ≠ []
  separator :
    avoids (fieldRule word scheme isPart).group
      [',', '\x7d', '\\'] = true
  part : avoids (.cls isPart) ['"', ',', '\x7d'] = true
  stop : ∀ c, isPart c = false → c = '"' ∨ inEscape c = false
  kind : isPart = isTokenPart ∨ isPart = isCookiePart
  bracket :
    avoids (fieldRule word scheme isPart).group ['[', ']'] =
      true
  mark :
    ∀ zs ∈ "[REDACTED".toList.tails,
      (fieldRule word scheme isPart).group.ends zs = []

/- A word does not begin with a foreign character. -/
theorem word_ends_of_mentions
    {w : List (Char → Bool)}
    {c : Char}
    (hSome : w ≠ [])
    (hNot : (Pattern.word w).mentions c = false)
    (cs : List Char) :
    (Pattern.word w).ends (c :: cs) = [] := by
  cases w with
  | nil => exact absurd rfl hSome
  | cons p ps =>
      unfold Pattern.word Pattern.mentions at hNot
      rw [Bool.or_eq_false_iff] at hNot
      have hFirst : p c = false := hNot.1
      unfold Pattern.word Pattern.ends
      simp only [Pattern.ends]
      rw [hFirst]
      rfl

/- Where no quote stands, the name itself begins. -/
theorem named_ends_other
    {word : String}
    {c : Char}
    (cs : List Char)
    (hQuote : isQuote c = false) :
    (named word).ends (c :: cs) =
      (Pattern.word (ignoreCase word)).ends (c :: cs) := by
  unfold named
  simp only [Pattern.ends, hQuote]
  rw [if_neg Bool.false_ne_true, List.nil_append,
    List.flatMap_singleton]

/- A field matches one character of a value at least. -/
theorem proper_fieldRule
    (word : String)
    (scheme : Pattern Char)
    (isPart : Char → Bool) :
    Proper (fieldRule word scheme isPart).find := by
  intro cs text n hFind
  rcases Rule.find_spec hFind with
    ⟨kept, value, rest, hCs, -, hRest, -, hLength⟩
  have hPos := List.length_pos_of_ne_nil (plus_spec hRest).1
  rw [hCs]
  simp only [List.length_append]
  omega

namespace Suitable

variable {word : String}
variable {scheme : Pattern Char}
variable {isPart : Char → Bool}
variable (hSuitable : Suitable word scheme isPart)
include hSuitable

/- Behind a quote, the name begins one character later. -/
theorem named_ends_quote
    {c : Char}
    (cs : List Char)
    (hQuote : c ∈ ['"', '\'']) :
    (Observability.named word).ends (c :: cs) =
      (Pattern.word (ignoreCase word)).ends cs := by
  have hClass : isQuote c = true := by
    rcases List.mem_cons.mp hQuote with rfl | hOther
    · rfl
    · rw [List.mem_singleton.mp hOther]
      rfl
  have hNone :=
    word_ends_of_mentions hSuitable.nonempty
      (avoids_mem hSuitable.letter hQuote) cs
  unfold Observability.named
  simp only [Pattern.ends, hClass, if_true]
  rw [List.singleton_append, List.flatMap_cons,
    List.flatMap_singleton, hNone, List.append_nil]

/- A quote before a match belongs to it. -/
theorem group_ends_quote
    {cs : List Char}
    (hSome :
      (fieldRule word scheme isPart).group.ends ('"' :: cs) ≠
        []) :
    (fieldRule word scheme isPart).group.ends ('"' :: cs) =
      (fieldRule word scheme isPart).group.ends cs := by
  have hQuote := hSuitable.named_ends_quote cs
    (c := '"') (by simp)
  have hSame :
      (Observability.named word).ends cs =
        (Pattern.word (ignoreCase word)).ends cs := by
    cases cs with
    | nil =>
        exfalso
        apply hSome
        have hEmpty :
            (Pattern.word (ignoreCase word)).ends [] = [] := by
          cases hWord : ignoreCase word with
          | nil => exact absurd hWord hSuitable.nonempty
          | cons p ps => rfl
        unfold fieldRule
        simp only [Pattern.ends]
        change
          ((Observability.named word).ends ['"']).flatMap _ = []
        rw [hQuote, hEmpty]
        rfl
    | cons c cs =>
        cases hClass : isQuote c with
        | false => exact named_ends_other cs hClass
        | true =>
            exfalso
            apply hSome
            have hMem : c ∈ ['"', '\''] := by
              unfold isQuote at hClass
              simpa using hClass
            have hEmpty :=
              word_ends_of_mentions hSuitable.nonempty
                (avoids_mem hSuitable.letter hMem) cs
            change
              ((Observability.named word).ends
                ('"' :: c :: cs)).flatMap _ = []
            rw [hQuote, hEmpty]
            rfl
  change
    ((Observability.named word).ends ('"' :: cs)).flatMap _ =
      ((Observability.named word).ends cs).flatMap _
  rw [hQuote, hSame]

/- With the quote, the same is substituted after it. -/
theorem find_quote (cs : List Char) :
    (fieldRule word scheme isPart).find ('"' :: cs) = none ∨
      (fieldRule word scheme isPart).find ('"' :: cs) =
        ((fieldRule word scheme isPart).find cs).map
          fun found => ('"' :: found.1, found.2 + 1) := by
  by_cases hSome :
      (fieldRule word scheme isPart).group.ends ('"' :: cs) = []
  · exact Or.inl (Rule.find_of_group hSome)
  · right
    have hGroup := hSuitable.group_ends_quote hSome
    have hSuffix :
        ∀ mid ∈ (fieldRule word scheme isPart).group.ends cs,
          mid.length ≤ cs.length := by
      intro mid hMid
      exact (Pattern.ends_suffix hMid).length_le
    rw [Rule.find_eq, Rule.find_eq, hGroup,
      List.map_findSome?]
    generalize
      (fieldRule word scheme isPart).group.ends cs = mids
      at hSuffix
    induction mids with
    | nil => rfl
    | cons mid mids ih =>
        have hMid := hSuffix mid List.mem_cons_self
        rw [List.findSome?_cons, List.findSome?_cons,
          ih (fun m hm =>
            hSuffix m (List.mem_cons_of_mem mid hm)),
          Function.comp_apply]
        cases hHead :
            ((fieldRule word scheme isPart).rest.ends
              mid).head? with
        | none => rfl
        | some rest =>
            have hRest :=
              (Pattern.ends_suffix
                (List.mem_of_mem_head? hHead)).length_le
            have hTake :
                ('"' :: cs).length - mid.length =
                  cs.length - mid.length + 1 := by
              rw [List.length_cons]
              omega
            have hCount :
                ('"' :: cs).length - rest.length =
                  cs.length - rest.length + 1 := by
              rw [List.length_cons]
              omega
            simp only [Option.map_some]
            rw [hTake, hCount, List.take_succ_cons]
            rfl

/- The quote in front of a value is kept. -/
theorem opening (cs : List Char) :
    sub (fieldRule word scheme isPart).find 0 ('"' :: cs) =
      '"' :: sub (fieldRule word scheme isPart).find 0 cs := by
  rcases hSuitable.find_quote cs with hNone | hMap
  · exact sub_of_none hNone
  · cases hFind : (fieldRule word scheme isPart).find cs with
    | none =>
        rw [hFind] at hMap
        exact sub_of_none hMap
    | some found =>
        rw [hFind, Option.map_some] at hMap
        rw [sub_found (proper_fieldRule _ _ _) hMap,
          sub_found (proper_fieldRule _ _ _) hFind]
        rfl

/- No match begins at a character that begins no name. -/
theorem none_of_invisible
    {c : Char}
    (cs : List Char)
    (hNot : (Observability.named word).mentions c = false) :
    (fieldRule word scheme isPart).find (c :: cs) = none := by
  apply Rule.find_of_group
  have hEnds :=
    Pattern.ends_foreign cs [] hNot
  have hNone : (Observability.named word).ends [] = [] := by
    unfold Observability.named
    cases hWord : ignoreCase word with
    | nil => exact absurd hWord hSuitable.nonempty
    | cons p ps => rfl
  rw [hNone, List.nil_append] at hEnds
  change ((Observability.named word).ends (c :: cs)).flatMap _ = []
  rw [hEnds]
  rfl

/- A suitable field changes a line between its quotes only. -/
theorem fits :
    Fits logKeys (fieldRule word scheme isPart).find where
  proper := proper_fieldRule word scheme isPart
  separator := by
    intro zs more y hSeparator
    have hMem : y ∈ [',', '\x7d'] := by
      simpa using hSeparator
    have hPart : isPart y = false :=
      avoids_mem hSuitable.part (List.mem_cons_of_mem _ hMem)
    apply Rule.find_foreign
    · apply avoids_mem hSuitable.separator
      exact List.mem_append_left ['\\'] hMem
    · change (isPart y || isPart y) = false
      rw [hPart]
      rfl
  closing := by
    intro zs
    have hPart : isPart '"' = false :=
      avoids_mem hSuitable.part List.mem_cons_self
    apply Rule.find_last
    · rfl
    · change (isPart '"' || isPart '"') = false
      rw [hPart]
      rfl
  opening := hSuitable.opening
  space := fun cs =>
    hSuitable.none_of_invisible cs
      (avoids_mem hSuitable.visible (by decide))
  brace := fun cs =>
    hSuitable.none_of_invisible cs
      (avoids_mem hSuitable.visible (by decide))
  key := by
    intro name hName zs more hSome hSuffix
    apply Rule.find_of_group
    have hNone :=
      MissesKeys.ends hSuitable.named
        (avoids_mem hSuitable.visible (by decide)) hName hSome
        hSuffix more
    change ((Observability.named word).ends _).flatMap _ = []
    rw [hNone]
    rfl

end Suitable

end PigBook.Observability

------------------------------------------------------------
-- The Rules of the Formatter
------------------------------------------------------------

namespace PigBook.Observability

open Regex Delivery OwnScope JsonText

/- No character of an escape is a blank. -/
theorem inEscape_not_space
    {c : Char}
    (hEscape : inEscape c = true) :
    isSpace c = false := by
  have hRange : 34 ≤ c.toNat ∧ c.toNat ≤ 117 := by
    simp only [inEscape, isEscape, isHexDigit, Char.isDigit,
      Bool.and_eq_true, decide_eq_true_iff, ge_iff_le,
      List.mem_cons, List.not_mem_nil, or_false, Char.le_def,
      UInt32.le_iff_toNat_le] at hEscape
    rcases hEscape with rfl |
      (rfl | rfl | rfl | rfl | rfl | rfl | rfl | rfl) |
      hDigit | hLower | hUpper
    all_goals first
      | decide
      | skip
    · exact ⟨hDigit.1.trans' (by decide),
        hDigit.2.trans (by decide)⟩
    · exact ⟨hLower.1.trans' (by decide),
        hLower.2.trans (by decide)⟩
    · exact ⟨hUpper.1.trans' (by decide),
        hUpper.2.trans (by decide)⟩
  simp only [isSpace, decide_eq_false_iff_not]
  omega

/- A value ends at a quote or outside an escape. -/
theorem isTokenPart_stop
    {c : Char}
    (hPart : isTokenPart c = false) :
    c = '"' ∨ inEscape c = false := by
  simp only [isTokenPart, decide_eq_false_iff_not,
    not_not] at hPart
  rcases hPart with hQuote | rfl | hSpace | rfl | rfl
  · exact Or.inl hQuote
  · exact Or.inr (by decide)
  · right
    by_contra hEscape
    rw [Bool.not_eq_false] at hEscape
    rw [inEscape_not_space hEscape] at hSpace
    cases hSpace
  · exact Or.inr (by decide)
  · exact Or.inr (by decide)

theorem isCookiePart_stop
    {c : Char}
    (hPart : isCookiePart c = false) :
    c = '"' ∨ inEscape c = false := by
  simp only [isCookiePart, decide_eq_false_iff_not,
    not_not] at hPart
  rcases hPart with hQuote | rfl | rfl | rfl | rfl | rfl
  · exact Or.inl hQuote
  all_goals exact Or.inr (by decide)

/- A rule for a name and its value. -/
def IsField (rule : Rule Char) : Prop :=
  ∃ word scheme isPart,
    rule = fieldRule word scheme isPart ∧
      Suitable word scheme isPart

theorem isField_authorization : IsField authorizationRule := by
  refine ⟨_, _, _, rfl, ?_⟩
  constructor
  case stop => exact fun c => isTokenPart_stop
  case kind => exact Or.inl rfl
  all_goals decide

theorem isField_cookie : IsField cookieRule := by
  refine ⟨_, _, _, rfl, ?_⟩
  constructor
  case stop => exact fun c => isCookiePart_stop
  case kind => exact Or.inr rfl
  all_goals decide

theorem isField_password : IsField passwordRule := by
  refine ⟨_, _, _, rfl, ?_⟩
  constructor
  case stop => exact fun c => isTokenPart_stop
  case kind => exact Or.inl rfl
  all_goals decide

theorem isField_invitationToken :
    IsField invitationTokenRule := by
  refine ⟨_, _, _, rfl, ?_⟩
  constructor
  case stop => exact fun c => isTokenPart_stop
  case kind => exact Or.inl rfl
  all_goals decide

theorem isField_smtpPassword : IsField smtpPasswordRule := by
  refine ⟨_, _, _, rfl, ?_⟩
  constructor
  case stop => exact fun c => isTokenPart_stop
  case kind => exact Or.inl rfl
  all_goals decide

/- The five fields are instances of one rule. -/
theorem isField_of_mem
    {rule : Rule Char}
    (hRule : rule ∈ fieldRules) :
    IsField rule := by
  unfold fieldRules at hRule
  simp only [List.mem_cons, List.not_mem_nil, or_false]
    at hRule
  rcases hRule with rfl | rfl | rfl | rfl | rfl
  · exact isField_authorization
  · exact isField_cookie
  · exact isField_password
  · exact isField_invitationToken
  · exact isField_smtpPassword

end PigBook.Observability

------------------------------------------------------------
-- The Rule for Addresses
------------------------------------------------------------

namespace PigBook.Observability

open Regex Delivery OwnScope JsonText

/- The match of a rule without a rest. -/
theorem email_spec
    {cs text : List Char}
    {n : ℕ}
    (hFind : emailRule.find cs = some (text, n)) :
    ∃ value rest,
      cs = value ++ rest ∧ n = value.length ∧ value ≠ [] ∧
      text = redactedEmail ∧ '@' ∈ value ∧
      ∀ c ∈ value, emailRule.group.mentions c = true := by
  rcases Rule.find_spec hFind with
    ⟨kept, value, rest, hCs, hGroup, hRest, hText, hLength⟩
  have hNone : value = [] := by
    have hSame : value ++ rest = rest :=
      Option.some.inj hRest
    exact List.append_left_eq_self.mp hSame
  rw [hNone, List.nil_append] at hGroup hCs
  rw [hNone] at hLength
  rcases List.mem_flatMap.mp hGroup with ⟨mid, hMid, hAt⟩
  rcases Pattern.ends_split hGroup with ⟨m, hSplit, hAll⟩
  have hKept : m = kept := by
    rw [hCs] at hSplit
    exact (List.append_cancel_right hSplit).symm
  have hSign : '@' ∈ kept := by
    rcases Pattern.ends_split hMid with ⟨front, hFront, -⟩
    rcases List.mem_flatMap.mp hAt with ⟨host, hHost, hEnd⟩
    cases mid with
    | nil => cases hHost
    | cons c mid =>
        have hClass : c = '@' := by
          by_contra hOther
          unfold Pattern.ends at hHost
          rw [if_neg (by simpa using hOther)] at hHost
          cases hHost
        have hHostEq : host = mid := by
          unfold Pattern.ends at hHost
          rw [if_pos (by simpa using hClass)] at hHost
          exact List.mem_singleton.mp hHost
        rcases Pattern.ends_split hEnd with ⟨back, hBack, -⟩
        have hAllKept :
            kept ++ rest = front ++ '@' :: back ++ rest := by
          rw [← hCs, hFront, hClass, ← hHostEq, hBack,
            List.append_assoc]
          rfl
        rw [List.append_cancel_right hAllKept]
        simp
  refine ⟨kept, rest, hCs, hLength, ?_, hText, hSign, ?_⟩
  · exact List.ne_nil_of_mem hSign
  · rw [← hKept]
    exact hAll

theorem proper_email : Proper emailRule.find := by
  intro cs text n hFind
  rcases email_spec hFind with
    ⟨value, rest, hCs, hLength, hSome, -⟩
  have hPos := List.length_pos_of_ne_nil hSome
  rw [hCs, List.length_append]
  omega

/- What comes after a foreign character does not matter. -/
theorem email_foreign
    {c : Char}
    (zs more : List Char)
    (hForeign : emailRule.group.mentions c = false) :
    emailRule.find (zs ++ c :: more) = emailRule.find zs :=
  Rule.find_foreign zs more hForeign rfl

theorem email_none
    {c : Char}
    (cs : List Char)
    (hForeign : emailRule.group.mentions c = false) :
    emailRule.find (c :: cs) = none := by
  have hSame := email_foreign [] cs hForeign
  rw [List.nil_append] at hSame
  rw [hSame]
  exact find_nil proper_email

theorem fits_email : Fits logKeys emailRule.find where
  proper := proper_email
  separator := by
    intro zs more y hSeparator
    rcases hSeparator with rfl | rfl
    · exact email_foreign zs more (by decide)
    · exact email_foreign zs more (by decide)
  closing := fun zs => email_foreign zs [] (by decide)
  opening := fun cs => sub_of_none (email_none cs (by decide))
  space := fun cs => email_none cs (by decide)
  brace := fun cs => email_none cs (by decide)
  key := by
    intro name hName zs more hSome hSuffix
    have hMisses : MissesKeys emailRule.group = true := by
      decide
    apply Rule.find_of_group
    exact
      MissesKeys.ends hMisses (by decide) hName hSome hSuffix
        more

/- All the patterns change a line between its quotes only. -/
theorem fits_of_mem
    {rule : Rule Char}
    (hRule : rule ∈ redactPatterns) :
    Fits logKeys rule.find := by
  rcases List.mem_append.mp hRule with hField | hEmail
  · rcases isField_of_mem hField with
      ⟨word, scheme, isPart, rfl, hSuitable⟩
    exact hSuitable.fits
  · rw [List.mem_singleton.mp hEmail]
    exact fits_email

end PigBook.Observability

------------------------------------------------------------
-- Values Without Quotes
------------------------------------------------------------

namespace PigBook.Observability

open Regex Delivery OwnScope JsonText

/- The word of a value that is not a string. -/
def IsWord (word : List Char) : Prop :=
  word = "null".toList ∨
    ∀ c ∈ word, c = '-' ∨ c.isDigit = true

/- So that a number can be checked digit by digit. -/
theorem digit_cases
    {c : Char}
    (hDigit : c.isDigit = true) :
    c ∈ "0123456789".toList := by
  have hRange := isDigit_toNat hDigit
  have hSelf : Char.ofNat c.toNat = c := Char.ofNat_toNat c
  rcases hRange with ⟨hLow, hHigh⟩
  interval_cases hCode : c.toNat
  all_goals
    rw [← hSelf]
    decide

/- In a number no name begins, and no address is in it. -/
theorem number_find_none
    {rule : Rule Char}
    {c : Char}
    {cs : List Char}
    (hRule : rule ∈ redactPatterns)
    (hAll : ∀ d ∈ c :: cs, d = '-' ∨ d.isDigit = true) :
    rule.find (c :: cs) = none := by
  rcases List.mem_append.mp hRule with hField | hEmail
  · rcases isField_of_mem hField with
      ⟨word, scheme, isPart, rfl, hSuitable⟩
    have hMem : c ∈ " \x7b-0123456789".toList := by
      have hList :
          " \x7b-0123456789".toList =
            [' ', '\x7b', '-'] ++ "0123456789".toList := by
        decide
      rw [hList]
      rcases hAll c List.mem_cons_self with hMinus | hDigit
      · rw [hMinus]
        simp
      · exact List.mem_append_right _ (digit_cases hDigit)
    exact
      hSuitable.none_of_invisible cs
        (avoids_mem hSuitable.visible hMem)
  · rw [List.mem_singleton.mp hEmail]
    cases hFind : emailRule.find (c :: cs) with
    | none => rfl
    | some found =>
        rcases found with ⟨text, n⟩
        rcases email_spec hFind with
          ⟨value, rest, hCs, -, -, -, hAt, -⟩
        have hMem : '@' ∈ c :: cs := by
          rw [hCs]
          exact List.mem_append_left rest hAt
        rcases hAll '@' hMem with hMinus | hDigit
        · exact absurd hMinus (by decide)
        · exact absurd hDigit (by decide)

/- Values that are not strings are left as they are. -/
theorem sub_isWord
    {rule : Rule Char}
    {word : List Char}
    (hRule : rule ∈ redactPatterns)
    (hWord : IsWord word) :
    sub rule.find 0 word = word := by
  rcases hWord with hNull | hNumber
  · rw [hNull]
    unfold redactPatterns fieldRules at hRule
    simp only [List.mem_cons, List.cons_append,
      List.nil_append, List.not_mem_nil, or_false] at hRule
    rcases hRule with rfl | rfl | rfl | rfl | rfl | rfl
    all_goals decide
  · have hSame :
        sub rule.find 0 (word ++ []) =
          word ++ sub rule.find 0 [] := by
      apply sub_of_all_none
      intro zs hSome hSuffix
      rw [List.append_nil]
      cases zs with
      | nil => exact absurd rfl hSome
      | cons c cs =>
          apply number_find_none hRule
          intro d hd
          exact hNumber d (hSuffix.mem hd)
    rw [List.append_nil] at hSame
    rw [hSame]
    exact List.append_nil word

/- A line is redacted between the quotes of its values. -/
theorem redact_line
    {rules : List (Rule Char)}
    {entries : List Entry}
    (hRules : ∀ rule ∈ rules, rule ∈ redactPatterns)
    (hNames : ∀ entry ∈ entries, entry.1 ∈ logKeys)
    (hBare :
      ∀ entry ∈ entries, ∀ word, entry.2 = .bare word →
        IsWord word) :
    redactAll rules (lineOf entries) =
      lineOf (entries.map (Entry.change (redactAll rules))) := by
  induction rules generalizing entries with
  | nil =>
      have hSame :
          entries.map (Entry.change (redactAll [])) =
            entries := by
        apply List.map_id''
        intro entry
        rcases entry with ⟨name, body | word⟩
        · rfl
        · rfl
      rw [hSame]
      rfl
  | cons rule rules ih =>
      have hRule := hRules rule List.mem_cons_self
      have hFits := fits_of_mem hRule
      have hFirst :=
        hFits.sub_lineOf hNames
          (fun entry hEntry word hWord =>
            sub_isWord hRule (hBare entry hEntry word hWord))
      have hChange :
          ∀ entry : Entry,
            (entry.change (sub rule.find 0)).change
                (redactAll rules) =
              entry.change (redactAll (rule :: rules)) := by
        intro entry
        rcases entry with ⟨name, body | word⟩
        · rfl
        · rfl
      have hRest :
          redactAll (rule :: rules) (lineOf entries) =
            redactAll rules (sub rule.find 0 (lineOf entries)) :=
        rfl
      rw [hRest, hFirst, ih, List.map_map]
      · congr 1
        apply List.map_congr_left
        intro entry hEntry
        exact hChange entry
      · intro r hr
        exact hRules r (List.mem_cons_of_mem rule hr)
      · intro entry hEntry
        rcases List.mem_map.mp hEntry with ⟨e, he, rfl⟩
        exact hNames e he
      · intro entry hEntry word hWord
        rcases List.mem_map.mp hEntry with ⟨e, he, rfl⟩
        apply hBare e he word
        rcases e with ⟨name, body | word'⟩
        · cases hWord
        · exact hWord

end PigBook.Observability

------------------------------------------------------------
-- Marks
------------------------------------------------------------

namespace PigBook.Observability

open Regex Delivery OwnScope JsonText

variable {mark : List Char}

/- What is written instead of what is redacted. -/
def IsMark (mark : List Char) : Prop :=
  mark = redacted ∨ mark = redactedEmail

/- A mark is plain text, and has no escape in it. -/
theorem after_mark
    (hMark : IsMark mark) :
    Place.plain.after mark = some .plain := by
  rcases hMark with rfl | rfl
  · rfl
  · rfl

/- A quote after some text comes after its last character. -/
theorem bareQuote_append
    {prev : Char}
    (xs ys : List Char) :
    BareQuote prev (xs ++ ys) ↔
      BareQuote prev xs ∨ BareQuote (xs.getLastD prev) ys := by
  induction xs generalizing prev with
  | nil =>
      rw [List.nil_append]
      unfold BareQuote
      simp
  | cons x xs ih =>
      rw [List.cons_append, List.getLastD_cons]
      change
        (x = '"' ∧ prev = ']') ∨ BareQuote x (xs ++ ys) ↔
          ((x = '"' ∧ prev = ']') ∨ BareQuote x xs) ∨ _
      rw [ih, or_assoc]

/- The same holds of the quotes that are marked. -/
theorem quotesMarked_append
    {prev : Char}
    (xs ys : List Char) :
    QuotesMarked prev (xs ++ ys) ↔
      QuotesMarked prev xs ∧
        QuotesMarked (xs.getLastD prev) ys := by
  induction xs generalizing prev with
  | nil =>
      rw [List.nil_append]
      unfold QuotesMarked
      simp
  | cons x xs ih =>
      rw [List.cons_append, List.getLastD_cons]
      change
        (x = '"' → prev = '\\' ∨ prev = ']') ∧
            QuotesMarked x (xs ++ ys) ↔
          ((x = '"' → prev = '\\' ∨ prev = ']') ∧
            QuotesMarked x xs) ∧ _
      rw [ih, and_assoc]

/- Marks end in a bracket; behind it a bare quote is bare. -/
theorem bareQuote_bracket
    {prev : Char}
    {cs : List Char}
    (hBare : BareQuote prev cs) :
    BareQuote ']' cs := by
  cases cs with
  | nil => exact hBare
  | cons c cs =>
      rcases hBare with hHere | hLater
      · exact Or.inl ⟨hHere.1, rfl⟩
      · exact Or.inr hLater

theorem quotesMarked_bracket
    {prev : Char}
    {cs : List Char}
    (hMarked : QuotesMarked prev cs) :
    QuotesMarked ']' cs := by
  cases cs with
  | nil => trivial
  | cons c cs => exact ⟨fun hQuote => Or.inr rfl, hMarked.2⟩

theorem not_bareQuote
    {prev : Char}
    {cs : List Char}
    (hNone : '"' ∉ cs) :
    ¬ BareQuote prev cs := by
  induction cs generalizing prev with
  | nil => exact id
  | cons c cs ih =>
      rw [List.mem_cons, not_or] at hNone
      intro hBare
      rcases hBare with hHere | hLater
      · exact hNone.1 hHere.1.symm
      · exact ih hNone.2 hLater

/- A text without quotes has them all marked. -/
theorem quotesMarked_none
    {prev : Char}
    {cs : List Char}
    (hNone : '"' ∉ cs) :
    QuotesMarked prev cs := by
  induction cs generalizing prev with
  | nil => trivial
  | cons c cs ih =>
      rw [List.mem_cons, not_or] at hNone
      constructor
      · intro hQuote
        exact absurd hQuote.symm hNone.1
      · exact ih hNone.2

/- A mark has no quote and ends with a bracket. -/
theorem isMark_spec
    (hMark : IsMark mark) :
    '"' ∉ mark ∧ ∀ prev, mark.getLastD prev = ']' := by
  rcases hMark with rfl | rfl
  · exact ⟨by decide, fun prev => rfl⟩
  · exact ⟨by decide, fun prev => rfl⟩

/- In front of a bare quote a mark may stand. -/
theorem bareQuote_mark
    {prev : Char}
    {more : List Char}
    (hMark : IsMark mark)
    (hBare : BareQuote ']' more) :
    BareQuote prev (mark ++ more) := by
  rw [bareQuote_append, (isMark_spec hMark).2 prev]
  exact Or.inr hBare

theorem quotesMarked_mark
    {prev : Char}
    {more : List Char}
    (hMark : IsMark mark)
    (hMarked : QuotesMarked ']' more) :
    QuotesMarked prev (mark ++ more) := by
  rw [quotesMarked_append, (isMark_spec hMark).2 prev]
  exact ⟨quotesMarked_none (isMark_spec hMark).1, hMarked⟩

/-
  A rule that keeps some of a match and writes a mark for the
  rest of it, in which there are no quotes.
-/
def Masks
    (find : List Char → Option (List Char × ℕ)) : Prop :=
  ∀ cs text n, find cs = some (text, n) →
    ∃ kept value mark rest,
      cs = kept ++ (value ++ rest) ∧
      n = kept.length + value.length ∧
      text = kept ++ mark ∧ IsMark mark ∧ '"' ∉ value

variable {find : List Char → Option (List Char × ℕ)}

/- What a match leaves is the rest. -/
theorem drop_match
    (kept value rest : List Char) :
    (kept ++ (value ++ rest)).drop
        (kept.length + value.length) =
      rest := by
  rw [← List.append_assoc]
  apply List.drop_left'
  exact List.length_append

/- A bare quote stays one. -/
theorem bareQuote_sub
    {prev : Char}
    {cs : List Char}
    (hProper : Proper find)
    (hMasks : Masks find)
    (hBare : BareQuote prev cs) :
    BareQuote prev (sub find 0 cs) := by
  induction cs using sub_induction hProper
    generalizing prev with
  | hNil => exact hBare
  | hNone c cs hFind ih =>
      rw [sub_of_none hFind]
      rcases hBare with hHere | hLater
      · exact Or.inl hHere
      · exact Or.inr (ih hLater)
  | hSome cs text n hFind ih =>
      rcases hMasks cs text n hFind with
        ⟨kept, value, mark, rest, hCs, hLength, hText, hMark,
          hNone⟩
      rw [sub_found hProper hFind, hText, List.append_assoc]
      rw [hCs, hLength, drop_match] at ih ⊢
      rw [hCs, bareQuote_append, bareQuote_append] at hBare
      rw [bareQuote_append]
      rcases hBare with hKept | hValue | hRest
      · exact Or.inl hKept
      · exact absurd hValue (not_bareQuote hNone)
      · right
        apply bareQuote_mark hMark
        exact ih (bareQuote_bracket hRest)

/- Only a mark comes to stand before a quote. -/
theorem quotesMarked_sub
    {prev : Char}
    {cs : List Char}
    (hProper : Proper find)
    (hMasks : Masks find)
    (hMarked : QuotesMarked prev cs) :
    QuotesMarked prev (sub find 0 cs) := by
  induction cs using sub_induction hProper
    generalizing prev with
  | hNil => exact hMarked
  | hNone c cs hFind ih =>
      rw [sub_of_none hFind]
      exact ⟨hMarked.1, ih hMarked.2⟩
  | hSome cs text n hFind ih =>
      rcases hMasks cs text n hFind with
        ⟨kept, value, mark, rest, hCs, hLength, hText, hMark, -⟩
      rw [sub_found hProper hFind, hText, List.append_assoc]
      rw [hCs, hLength, drop_match] at ih ⊢
      rw [hCs, quotesMarked_append, quotesMarked_append]
        at hMarked
      rw [quotesMarked_append]
      constructor
      · exact hMarked.1
      · apply quotesMarked_mark hMark
        exact ih (quotesMarked_bracket hMarked.2.2)

end PigBook.Observability

------------------------------------------------------------
-- Values That End at a Quote
------------------------------------------------------------

namespace PigBook.Observability

open Regex Delivery OwnScope JsonText

/- Some match ends where a quote follows. -/
def overruns
    (find : List Char → Option (List Char × ℕ)) :
    ℕ → List Char → Bool
| _, [] => false
| skip + 1, _ :: cs => overruns find skip cs
| 0, c :: cs =>
    match find (c :: cs) with
    | some (_, n) =>
        (cs.drop (n - 1)).head? = some '"' ||
          overruns find (n - 1) cs
    | none => overruns find 0 cs

variable {find : List Char → Option (List Char × ℕ)}

/- The characters of a match are counted down. -/
theorem overruns_drop
    (n : ℕ)
    (cs : List Char) :
    overruns find n cs = overruns find 0 (cs.drop n) := by
  induction cs generalizing n with
  | nil => cases n <;> rfl
  | cons c cs ih =>
      cases n with
      | zero => rfl
      | succ n => exact ih n

theorem overruns_none
    {c : Char}
    {cs : List Char}
    (hNone : find (c :: cs) = none) :
    overruns find 0 (c :: cs) = overruns find 0 cs := by
  rw [overruns, hNone]

theorem overruns_found
    {cs text : List Char}
    {n : ℕ}
    (hProper : Proper find)
    (hFind : find cs = some (text, n)) :
    overruns find 0 cs =
      (decide ((cs.drop n).head? = some '"') ||
        overruns find 0 (cs.drop n)) := by
  have hBounds := hProper cs text n hFind
  cases cs with
  | nil =>
      rw [List.length_nil] at hBounds
      omega
  | cons c cs =>
      obtain ⟨k, rfl⟩ := Nat.exists_eq_add_of_le' hBounds.1
      rw [overruns, hFind]
      dsimp only
      rw [Nat.add_sub_cancel, overruns_drop k]
      rfl

/- Then the quote is bare. -/
theorem bareQuote_of_overruns
    {prev : Char}
    {cs : List Char}
    (hFits : Fits logKeys find)
    (hMasks : Masks find)
    (hOverruns : overruns find 0 cs = true) :
    BareQuote prev (sub find 0 cs) := by
  induction cs using sub_induction hFits.proper
    generalizing prev with
  | hNil => cases hOverruns
  | hNone c cs hFind ih =>
      rw [overruns_none hFind] at hOverruns
      rw [sub_of_none hFind]
      exact Or.inr (ih hOverruns)
  | hSome cs text n hFind ih =>
      rcases hMasks cs text n hFind with
        ⟨kept, value, mark, rest, hCs, hLength, hText, hMark, -⟩
      rw [overruns_found hFits.proper hFind, Bool.or_eq_true,
        decide_eq_true_iff] at hOverruns
      rw [sub_found hFits.proper hFind, hText,
        List.append_assoc, bareQuote_append]
      right
      apply bareQuote_mark hMark
      rcases hOverruns with hQuote | hLater
      · cases hRest : cs.drop n with
        | nil =>
            rw [hRest] at hQuote
            cases hQuote
        | cons c ds =>
            rw [hRest] at hQuote
            cases hQuote
            rw [hFits.opening]
            exact Or.inl ⟨rfl, rfl⟩
      · exact ih hLater

end PigBook.Observability

------------------------------------------------------------
-- Escapes
------------------------------------------------------------

namespace PigBook.Observability

open Regex Delivery OwnScope JsonText

/-
  A text that is read up to its end was read up to each place
  in it.
-/
theorem after_prefix
    {place last : Place}
    {xs ys : List Char}
    (hAfter : place.after (xs ++ ys) = some last) :
    ∃ mid, place.after xs = some mid ∧
      mid.after ys = some last := by
  rw [after_append] at hAfter
  exact Option.bind_eq_some_iff.mp hAfter

theorem after_join
    {place mid : Place}
    {xs : List Char}
    (ys : List Char)
    (hAfter : place.after xs = some mid) :
    place.after (xs ++ ys) = mid.after ys := by
  rw [after_append, hAfter]
  rfl

/- Only a backslash begins an escape. -/
theorem next_ne_escape
    {place place' : Place}
    {c : Char}
    (hSlash : c ≠ '\\')
    (hNext : place.next c = some place') :
    place' ≠ .escape := by
  intro hEscape
  rw [hEscape] at hNext
  cases place with
  | plain =>
      rw [plain_next, if_neg hSlash] at hNext
      split at hNext
      · cases hNext
      · cases hNext
  | escape =>
      rw [escape_next] at hNext
      split at hNext
      · cases hNext
      · split at hNext
        · cases hNext
        · cases hNext
  | unit left =>
      rw [unit_next] at hNext
      split at hNext
      · cases left with
        | zero => cases hNext
        | succ left => cases hNext
      · cases hNext

/- Plain text goes on as plain text. -/
theorem next_plain
    {place' : Place}
    {c : Char}
    (hSlash : c ≠ '\\')
    (hNext : Place.plain.next c = some place') :
    place' = .plain := by
  rw [plain_next, if_neg hSlash] at hNext
  split at hNext
  · cases hNext
  · exact (Option.some.inj hNext).symm

/- Without a backslash no escape begins. -/
theorem after_ne_escape
    {place last : Place}
    {xs : List Char}
    (hSome : xs ≠ [])
    (hSlash : '\\' ∉ xs)
    (hAfter : place.after xs = some last) :
    last ≠ .escape := by
  induction xs generalizing place with
  | nil => exact absurd rfl hSome
  | cons x xs ih =>
      rw [List.mem_cons, not_or] at hSlash
      rw [after_cons] at hAfter
      rcases Option.bind_eq_some_iff.mp hAfter with
        ⟨place', hNext, hRest⟩
      cases xs with
      | nil =>
          cases hRest
          exact next_ne_escape (Ne.symm hSlash.1) hNext
      | cons x' xs =>
          exact ih (List.cons_ne_nil x' xs) hSlash.2 hRest

/- Without a backslash no escape is begun. -/
theorem after_plain
    {last : Place}
    {xs : List Char}
    (hSlash : '\\' ∉ xs)
    (hAfter : Place.plain.after xs = some last) :
    last = .plain := by
  induction xs with
  | nil => exact (Option.some.inj hAfter).symm
  | cons x xs ih =>
      rw [List.mem_cons, not_or] at hSlash
      rw [after_cons] at hAfter
      rcases Option.bind_eq_some_iff.mp hAfter with
        ⟨place', hNext, hRest⟩
      rw [next_plain (Ne.symm hSlash.1) hNext] at hRest
      exact ih hSlash.2 hRest

/- A sign is in no escape, so what follows is plain. -/
theorem next_sign
    {place place' : Place}
    {c : Char}
    (hSign : isSign c = true)
    (hOpen : place ≠ .escape)
    (hNext : place.next c = some place') :
    place' = .plain := by
  have hClass : c = ':' ∨ c = '=' := by
    unfold isSign at hSign
    simpa using hSign
  cases place with
  | plain =>
      apply next_plain _ hNext
      rcases hClass with rfl | rfl
      · decide
      · decide
  | escape => exact absurd rfl hOpen
  | unit left =>
      exfalso
      rcases hClass with rfl | rfl
      · cases hNext
      · cases hNext

/- What cannot be in an escape comes after none. -/
theorem plain_of_next
    {place place' : Place}
    {c : Char}
    (hOutside : inEscape c = false)
    (hNext : place.next c = some place') :
    place = .plain := by
  simp only [inEscape, decide_eq_false_iff_not, not_or,
    Bool.not_eq_true] at hOutside
  cases place with
  | plain => rfl
  | escape =>
      rw [escape_next, if_neg hOutside.1, hOutside.2.1] at hNext
      cases hNext
  | unit left =>
      rw [unit_next, hOutside.2.2] at hNext
      cases hNext

/- A name, and after it a sign among other characters. -/
theorem group_split
    {word : String}
    {scheme : Pattern Char}
    {isPart : Char → Bool}
    {cs rest : List Char}
    (hSuitable : Suitable word scheme isPart)
    (hMem :
      rest ∈ (fieldRule word scheme isPart).group.ends cs) :
    ∃ front sign back,
      cs = front ++ sign :: (back ++ rest) ∧
      isSign sign = true ∧ front ≠ [] := by
  rcases List.mem_flatMap.mp hMem with ⟨mid, hNamed, hMid⟩
  rcases List.mem_flatMap.mp hMid with ⟨mid', hQuote, hSigned⟩
  rcases List.mem_flatMap.mp hSigned with
    ⟨mid'', hSpace, hSign⟩
  rcases List.mem_flatMap.mp hSign with ⟨more, hMore, hRest⟩
  rcases Pattern.ends_split hQuote with ⟨m', rfl, -⟩
  rcases Pattern.ends_split hSpace with ⟨m'', rfl, -⟩
  rcases Pattern.ends_split hRest with ⟨back, rfl, -⟩
  have hFirst :
      ∃ m, cs = m ++ (m' ++ (m'' ++ mid'')) ∧ m ≠ [] := by
    rcases List.mem_flatMap.mp hNamed with
      ⟨start, hStart, hWord⟩
    rcases Pattern.ends_split hStart with ⟨m, rfl, -⟩
    rcases Pattern.ends_split hWord with ⟨w, rfl, -⟩
    refine ⟨m ++ w, ?_, ?_⟩
    · rw [List.append_assoc]
    · rw [ends_word, Option.mem_toList] at hWord
      have hLength := (afterWord_length hWord).1
      have hPos :=
        List.length_pos_of_ne_nil hSuitable.nonempty
      apply List.ne_nil_of_length_pos
      simp only [List.length_append] at hLength ⊢
      omega
  rcases hFirst with ⟨m, rfl, hSome⟩
  cases mid'' with
  | nil => cases hMore
  | cons sign mid'' =>
      unfold Pattern.ends at hMore
      split at hMore
      next hClass =>
        rw [← List.mem_singleton.mp hMore]
        refine ⟨m ++ (m' ++ m''), sign, back, ?_, hClass, ?_⟩
        · simp
        · exact List.append_ne_nil_of_left_ne_nil hSome _
      next => cases hMore

/- What is kept of a match ends with a sign's surroundings. -/
theorem kept_split
    {word : String}
    {scheme : Pattern Char}
    {isPart : Char → Bool}
    {kept rest : List Char}
    (hSuitable : Suitable word scheme isPart)
    (hGroup :
      rest ∈
        (fieldRule word scheme isPart).group.ends
          (kept ++ rest)) :
    ∃ front sign back,
      kept = front ++ sign :: back ∧ isSign sign = true ∧
        front ≠ [] := by
  rcases group_split hSuitable hGroup with
    ⟨front, sign, back, hSplit, hSign, hSome⟩
  refine ⟨front, sign, back, ?_, hSign, hSome⟩
  have hBoth :
      kept ++ rest = front ++ sign :: back ++ rest := by
    rw [hSplit, List.append_assoc]
    rfl
  exact List.append_cancel_right hBoth

/- It has the characters of the name and the sign only. -/
theorem not_mem_kept
    {word : String}
    {scheme : Pattern Char}
    {isPart : Char → Bool}
    {kept rest : List Char}
    {c : Char}
    (hNot :
      (fieldRule word scheme isPart).group.mentions c = false)
    (hGroup :
      rest ∈
        (fieldRule word scheme isPart).group.ends
          (kept ++ rest)) :
    c ∉ kept := by
  intro hMem
  rcases Pattern.ends_split hGroup with ⟨m, hM, hAll⟩
  rw [← List.append_cancel_right hM] at hAll
  rw [hAll c hMem] at hNot
  cases hNot

/- After a sign there is no escape. -/
theorem plain_after_kept
    {word : String}
    {scheme : Pattern Char}
    {isPart : Char → Bool}
    {kept rest : List Char}
    {place last : Place}
    (hSuitable : Suitable word scheme isPart)
    (hGroup :
      rest ∈
        (fieldRule word scheme isPart).group.ends
          (kept ++ rest))
    (hAfter : place.after kept = some last) :
    last = .plain := by
  have hSlash : '\\' ∉ kept :=
    not_mem_kept
      (avoids_mem hSuitable.separator (by simp)) hGroup
  rcases kept_split hSuitable hGroup with
    ⟨front, sign, back, rfl, hSign, hSome⟩
  rw [List.mem_append, List.mem_cons, not_or, not_or] at hSlash
  rcases after_prefix hAfter with ⟨mid, hFront, hTail⟩
  rw [after_cons] at hTail
  rcases Option.bind_eq_some_iff.mp hTail with
    ⟨mid', hNext, hBack⟩
  have hOpen := after_ne_escape hSome hSlash.1 hFront
  rw [next_sign hSign hOpen hNext] at hBack
  exact after_plain hSlash.2.2 hBack

/- What is kept of a match, and what is not. -/
theorem field_spec
    {word : String}
    {scheme : Pattern Char}
    {isPart : Char → Bool}
    {cs text : List Char}
    {n : ℕ}
    (hFind :
      (fieldRule word scheme isPart).find cs =
        some (text, n)) :
    ∃ kept value rest,
      cs = kept ++ (value ++ rest) ∧
      n = kept.length + value.length ∧
      text = kept ++ redacted ∧ value ≠ [] ∧
      value ++ rest ∈
        (fieldRule word scheme isPart).group.ends
          (kept ++ (value ++ rest)) ∧
      (∀ c ∈ value, isPart c = true) ∧
      ∀ c ∈ rest.head?, isPart c = false := by
  rcases Rule.find_spec hFind with
    ⟨kept, value, rest, hCs, hGroup, hRest, hText, hLength⟩
  rcases plus_spec hRest with ⟨hSome, hValue, hStop⟩
  rw [hCs] at hGroup
  refine
    ⟨kept, value, rest, hCs, hLength, hText, hSome, hGroup,
      hValue, ?_⟩
  intro c hHead
  rcases List.head?_eq_some_iff.mp hHead with ⟨ds, hCons⟩
  exact hStop c ds hCons

/- A field replaces a value that has no quote in it, -/
theorem masks_field
    {word : String}
    {scheme : Pattern Char}
    {isPart : Char → Bool}
    (hSuitable : Suitable word scheme isPart) :
    Masks (fieldRule word scheme isPart).find := by
  intro cs text n hFind
  rcases field_spec hFind with
    ⟨kept, value, rest, hCs, hLength, hText, -, -, hValue, -⟩
  refine
    ⟨kept, value, redacted, rest, hCs, hLength, hText,
      Or.inl rfl, ?_⟩
  intro hQuote
  have hPart : isPart '"' = false :=
    avoids_mem hSuitable.part List.mem_cons_self
  rw [hValue '"' hQuote] at hPart
  cases hPart

/-
  Where no value ends at a quote, a text without broken
  escapes stays one.
-/
theorem after_sub_field
    {word : String}
    {scheme : Pattern Char}
    {isPart : Char → Bool}
    {place : Place}
    {cs : List Char}
    (hSuitable : Suitable word scheme isPart)
    (hAfter : place.after cs = some .plain)
    (hStays :
      overruns (fieldRule word scheme isPart).find 0 cs =
        false) :
    place.after
        (sub (fieldRule word scheme isPart).find 0 cs) =
      some .plain := by
  have hProper := proper_fieldRule word scheme isPart
  induction cs using sub_induction hProper
    generalizing place with
  | hNil => exact hAfter
  | hNone c cs hFind ih =>
      rw [overruns_none hFind] at hStays
      rw [after_cons] at hAfter
      rcases Option.bind_eq_some_iff.mp hAfter with
        ⟨place', hNext, hRest⟩
      rw [sub_of_none hFind, after_cons, hNext]
      exact ih hRest hStays
  | hSome cs text n hFind ih =>
      rcases field_spec hFind with
        ⟨kept, value, rest, hCs, hLength, hText, -, hGroup, -,
          hStop⟩
      rw [overruns_found hProper hFind, Bool.or_eq_false_iff,
        decide_eq_false_iff_not] at hStays
      rw [sub_found hProper hFind, hText]
      rw [hCs, hLength, drop_match] at ih hStays ⊢
      rw [hCs] at hAfter
      rcases after_prefix hAfter with ⟨mid, hFront, hTail⟩
      have hMid := plain_after_kept hSuitable hGroup hFront
      rw [hMid] at hFront hTail
      rcases after_prefix hTail with ⟨mid', -, hRest⟩
      have hPlain : mid' = .plain := by
        cases rest with
        | nil => exact Option.some.inj hRest
        | cons c ds =>
            rw [after_cons] at hRest
            rcases Option.bind_eq_some_iff.mp hRest with
              ⟨place', hNext, -⟩
            rcases hSuitable.stop c (hStop c rfl) with
              hQuote | hOutside
            · exfalso
              apply hStays.1
              rw [hQuote]
              rfl
            · exact plain_of_next hOutside hNext
      rw [hPlain] at hRest
      rw [List.append_assoc, after_join _ hFront,
        after_join _ (after_mark (Or.inl rfl))]
      exact ih hRest hStays.2

end PigBook.Observability

------------------------------------------------------------
-- Addresses in Escapes
------------------------------------------------------------

namespace PigBook.Observability

open Regex Delivery OwnScope JsonText

/- Some match begins in an escape. -/
def cuts
    (find : List Char → Option (List Char × ℕ)) :
    Place → List Char → Bool
| _, [] => false
| place, c :: cs =>
    (place ≠ .plain && (find (c :: cs)).isSome) ||
      match place.next c with
      | some place' => cuts find place' cs
      | none => false

theorem cuts_cons
    {find : List Char → Option (List Char × ℕ)}
    {place place' : Place}
    {c : Char}
    (cs : List Char)
    (hNext : place.next c = some place') :
    cuts find place (c :: cs) =
      ((place ≠ .plain && (find (c :: cs)).isSome) ||
        cuts find place' cs) := by
  rw [cuts, hNext]

theorem mentions_email
    {c : Char}
    (hMentions : emailRule.group.mentions c = true) :
    c ≠ '"' ∧ c ≠ '\\' := by
  constructor
  · intro hEq
    rw [hEq] at hMentions
    exact absurd hMentions (by decide)
  · intro hEq
    rw [hEq] at hMentions
    exact absurd hMentions (by decide)

/- and so does an address. -/
theorem masks_email : Masks emailRule.find := by
  intro cs text n hFind
  rcases email_spec hFind with
    ⟨value, rest, hCs, hLength, -, hText, -, hAll⟩
  refine
    ⟨[], value, redactedEmail, rest, hCs, ?_, hText,
      Or.inr rfl, ?_⟩
  · rw [hLength]
    exact (Nat.zero_add _).symm
  · intro hQuote
    exact (mentions_email (hAll '"' hQuote)).1 rfl

/- No address is cut where there are no escapes. -/
theorem cuts_plain
    {value rest : List Char}
    {last : Place}
    (hSlash : '\\' ∉ value)
    (hAfter : Place.plain.after value = some last) :
    cuts emailRule.find .plain (value ++ rest) =
      cuts emailRule.find .plain rest := by
  induction value with
  | nil => rfl
  | cons c value ih =>
      rw [List.mem_cons, not_or] at hSlash
      rw [after_cons] at hAfter
      rcases Option.bind_eq_some_iff.mp hAfter with
        ⟨place', hNext, hRest⟩
      have hPlain := next_plain (Ne.symm hSlash.1) hNext
      rw [hPlain] at hNext hRest
      rw [List.cons_append, cuts_cons _ hNext,
        ih hSlash.2 hRest]
      rfl

/- A match that is not cut is one between escapes. -/
theorem email_between
    {value rest : List Char}
    {last : Place}
    (hAll : ∀ c ∈ value, emailRule.group.mentions c = true)
    (hAfter : Place.plain.after (value ++ rest) = some last) :
    Place.plain.after rest = some last ∧
      cuts emailRule.find .plain (value ++ rest) =
        cuts emailRule.find .plain rest := by
  have hSlash : '\\' ∉ value := by
    intro hMem
    exact (mentions_email (hAll '\\' hMem)).2 rfl
  rcases after_prefix hAfter with ⟨mid, hValue, hRest⟩
  rw [after_plain hSlash hValue] at hRest
  exact ⟨hRest, cuts_plain hSlash hValue⟩

/- An address that cuts no escape leaves a body. -/
theorem after_sub_email
    {place : Place}
    {cs : List Char}
    (hAfter : place.after cs = some .plain)
    (hStays : cuts emailRule.find place cs = false) :
    place.after (sub emailRule.find 0 cs) = some .plain := by
  induction cs using sub_induction proper_email
    generalizing place with
  | hNil => exact hAfter
  | hNone c cs hFind ih =>
      rw [after_cons] at hAfter
      rcases Option.bind_eq_some_iff.mp hAfter with
        ⟨place', hNext, hRest⟩
      rw [cuts_cons _ hNext, Bool.or_eq_false_iff] at hStays
      rw [sub_of_none hFind, after_cons, hNext]
      exact ih hRest hStays.2
  | hSome cs text n hFind ih =>
      rcases email_spec hFind with
        ⟨value, rest, hCs, hLength, hSome, hText, -, hAll⟩
      have hPlain : place = .plain := by
        cases cs with
        | nil =>
            rw [find_nil proper_email] at hFind
            cases hFind
        | cons c cs =>
            by_contra hEscape
            unfold cuts at hStays
            rw [hFind, Bool.or_eq_false_iff] at hStays
            simp [hEscape] at hStays
      rw [sub_found proper_email hFind, hText]
      rw [hPlain] at hAfter hStays ⊢
      rw [hCs, hLength, List.drop_left] at ih ⊢
      rw [hCs] at hAfter hStays
      rcases email_between hAll hAfter with ⟨hRest, hCuts⟩
      rw [hCuts] at hStays
      rw [after_join _ (after_mark (Or.inr rfl))]
      exact ih hRest hStays

/- In an escape there is no bracket. -/
theorem readString_mark
    {place : Place}
    (more : List Char)
    (hEscape : place ≠ .plain) :
    readString place (redactedEmail ++ more) = none := by
  have hNext : place.next '[' = none := by
    cases place with
    | plain => exact absurd rfl hEscape
    | escape => rfl
    | unit left => rfl
  have hText :
      redactedEmail ++ more =
        '[' :: ("REDACTED_EMAIL]".toList ++ more) :=
    rfl
  rw [hText, readString_cons, hNext]
  rw [if_neg (fun hBoth => hEscape hBoth.1)]
  rfl

/- An escape that is cut is none. -/
theorem readString_of_cuts
    {place : Place}
    {cs : List Char}
    (more : List Char)
    (hAfter : place.after cs = some .plain)
    (hCuts : cuts emailRule.find place cs = true) :
    readString place (sub emailRule.find 0 cs ++ more) =
      none := by
  induction cs using sub_induction proper_email
    generalizing place with
  | hNil => cases hCuts
  | hNone c cs hFind ih =>
      rw [after_cons] at hAfter
      rcases Option.bind_eq_some_iff.mp hAfter with
        ⟨place', hNext, hRest⟩
      rw [cuts_cons _ hNext, hFind, Option.isSome_none,
        Bool.and_false, Bool.false_or] at hCuts
      rw [sub_of_none hFind, List.cons_append,
        readString_step _ hNext, ih hRest hCuts]
      rfl
  | hSome cs text n hFind ih =>
      rcases email_spec hFind with
        ⟨value, rest, hCs, hLength, hSome, hText, -, hAll⟩
      rw [sub_found proper_email hFind, hText,
        List.append_assoc]
      by_cases hPlain : place = .plain
      · rw [hPlain] at hAfter hCuts ⊢
        rw [hCs, hLength, List.drop_left] at ih ⊢
        rw [hCs] at hAfter hCuts
        rcases email_between hAll hAfter with ⟨hRest, hSame⟩
        rw [hSame] at hCuts
        rw [readString_append _ (after_mark (Or.inr rfl)),
          ih hRest hCuts]
        rfl
      · exact readString_mark _ hPlain

end PigBook.Observability

------------------------------------------------------------
-- Strings
------------------------------------------------------------

namespace PigBook.Observability

open Regex Delivery OwnScope JsonText

/-
  In some rewriting of an escaped text a value ends where a
  quote follows, or at last an address begins in an escape.
-/
def breaks : List (Rule Char) → List Char → Bool
| [], cs => cuts emailRule.find .plain cs
| rule :: rules, cs =>
    overruns rule.find 0 cs || breaks rules (sub rule.find 0 cs)

/- Whether the redaction of a text breaks its JSON string. -/
def breaksString (text : String) : Bool :=
  breaks fieldRules (text.toList.flatMap escapeChar)

variable {rules : List (Rule Char)}

/- By induction on the fields that are still to come. -/
theorem isBody_redact
    {cs : List Char}
    (hRules : ∀ rule ∈ rules, IsField rule)
    (hBody : IsBody cs)
    (hKeeps : breaks rules cs = false) :
    IsBody (redactAll (rules ++ [emailRule]) cs) := by
  induction rules generalizing cs with
  | nil => exact after_sub_email hBody hKeeps
  | cons rule rules ih =>
      unfold breaks at hKeeps
      rw [Bool.or_eq_false_iff] at hKeeps
      rcases hRules rule List.mem_cons_self with
        ⟨word, scheme, isPart, rfl, hSuitable⟩
      apply ih
      · intro r hr
        exact hRules r (List.mem_cons_of_mem _ hr)
      · exact after_sub_field hSuitable hBody hKeeps.1
      · exact hKeeps.2

/- None of the patterns takes a quote away. -/
theorem masks_of_mem
    {rule : Rule Char}
    (hRule : rule ∈ redactPatterns) :
    Masks rule.find := by
  rcases List.mem_append.mp hRule with hField | hEmail
  · rcases isField_of_mem hField with
      ⟨word, scheme, isPart, rfl, hSuitable⟩
    exact masks_field hSuitable
  · rw [List.mem_singleton.mp hEmail]
    exact masks_email

/-
  A bare quote is there to stay, whatever is replaced after
  it.
-/
theorem marks_redact
    {cs : List Char}
    (hRules : ∀ rule ∈ rules, rule ∈ redactPatterns)
    (hMarked : QuotesMarked '"' cs)
    (hBare : BareQuote '"' cs) :
    QuotesMarked '"' (redactAll rules cs) ∧
      BareQuote '"' (redactAll rules cs) := by
  induction rules generalizing cs with
  | nil => exact ⟨hMarked, hBare⟩
  | cons rule rules ih =>
      have hRule := hRules rule List.mem_cons_self
      have hProper := (fits_of_mem hRule).proper
      have hMasks := masks_of_mem hRule
      apply ih
      · intro r hr
        exact hRules r (List.mem_cons_of_mem rule hr)
      · exact quotesMarked_sub hProper hMasks hMarked
      · exact bareQuote_sub hProper hMasks hBare

/- A string that breaks is broken in the end. -/
theorem broken_redact
    {cs : List Char}
    (hRules : ∀ rule ∈ rules, rule ∈ fieldRules)
    (hBody : IsBody cs)
    (hMarked : QuotesMarked '"' cs)
    (hBreaks : breaks rules cs = true) :
    Broken (redactAll (rules ++ [emailRule]) cs) := by
  induction rules generalizing cs with
  | nil =>
      left
      intro more
      exact readString_of_cuts more hBody hBreaks
  | cons rule rules ih =>
      have hRule := hRules rule List.mem_cons_self
      have hPattern : rule ∈ redactPatterns :=
        List.mem_append_left _ hRule
      have hFits := fits_of_mem hPattern
      have hMasks := masks_of_mem hPattern
      have hRest :
          ∀ r ∈ rules, r ∈ fieldRules := by
        intro r hr
        exact hRules r (List.mem_cons_of_mem rule hr)
      have hMarkedRest :=
        quotesMarked_sub hFits.proper hMasks hMarked
      have hSplit :
          redactAll (rule :: rules ++ [emailRule]) cs =
            redactAll (rules ++ [emailRule])
              (sub rule.find 0 cs) :=
        rfl
      rw [hSplit]
      unfold breaks at hBreaks
      cases hOverruns : overruns rule.find 0 cs with
      | true =>
          right
          apply marks_redact _ hMarkedRest
          · exact bareQuote_of_overruns hFits hMasks hOverruns
          · intro r hr
            rcases List.mem_append.mp hr with hField | hEmail
            · exact List.mem_append_left _ (hRest r hField)
            · exact List.mem_append_right _ hEmail
      | false =>
          rw [hOverruns, Bool.false_or] at hBreaks
          rcases isField_of_mem hRule with
            ⟨word, scheme, isPart, rfl, hSuitable⟩
          apply ih hRest _ hMarkedRest hBreaks
          exact after_sub_field hSuitable hBody hOverruns

end PigBook.Observability

------------------------------------------------------------
-- Encoded Texts
------------------------------------------------------------

namespace PigBook.Observability

open Regex Delivery OwnScope JsonText

/- The four digits are hexadecimal. -/
theorem isHexDigit_hex4
    {n : ℕ}
    {c : Char}
    (hMem : c ∈ hex4 n) :
    isHexDigit c = true := by
  have hAll :
      ∀ d < 16, isHexDigit (Nat.digitChar d) = true := by
    decide
  unfold hex4 at hMem
  rcases List.mem_append.mp hMem with hZero | hDigit
  · rw [List.eq_of_mem_replicate hZero]
    decide
  · induction n using Nat.strong_induction_on with
    | _ n ih =>
        by_cases hSmall : n < 16
        · rw [Nat.toDigits_of_lt_base hSmall,
            List.mem_singleton] at hDigit
          rw [hDigit]
          exact hAll n hSmall
        · rw [Nat.toDigits_of_base_le (by omega) (by omega),
            List.mem_append, List.mem_singleton] at hDigit
          rcases hDigit with hOthers | hLast
          · exact
              ih (n / 16) (by omega)
                (List.mem_append_right _ hOthers) hOthers
          · rw [hLast]
            exact hAll _ (Nat.mod_lt n (by omega))

/- As many hexadecimal digits as are left. -/
theorem after_unit
    {left : ℕ}
    {ds : List Char}
    (hLength : ds.length = left + 1)
    (hDigits : ∀ c ∈ ds, isHexDigit c = true) :
    (Place.unit left).after ds = some .plain := by
  induction ds generalizing left with
  | nil => cases hLength
  | cons d ds ih =>
      rw [List.length_cons, Nat.add_right_cancel_iff] at hLength
      have hNext :
          (Place.unit left).next d =
            some (Place.afterDigit left) := by
        rw [unit_next, if_pos (hDigits d List.mem_cons_self)]
      rw [after_cons, hNext, Option.bind_some]
      cases left with
      | zero =>
          rw [List.length_eq_zero_iff.mp hLength]
          rfl
      | succ left =>
          apply ih hLength
          intro c hc
          exact hDigits c (List.mem_cons_of_mem d hc)

/- An escaped code unit is read as a whole. -/
theorem after_hex4
    {n : ℕ}
    (hSmall : n < 65536) :
    Place.plain.after ('\\' :: 'u' :: hex4 n) =
      some .plain := by
  have hDigits :
      (Place.unit 3).after (hex4 n) = some .plain :=
    after_unit (length_hex4 hSmall)
      (fun c hc => isHexDigit_hex4 hc)
  exact hDigits

/- What a character is escaped as is well formed. -/
theorem after_escapeChar (c : Char) :
    Place.plain.after (escapeChar c) = some .plain := by
  have hRange := not_surrogate c
  unfold escapeChar
  dsimp only
  split_ifs with hQuote hSlash hNewline hReturn hTab hBack
    hFeed hPrint hUnit
  · rfl
  · rfl
  · rfl
  · rfl
  · rfl
  · rfl
  · rfl
  · have hVisible : ¬ (c = '"' ∨ c < ' ') := by
      intro hBad
      rcases hBad with hEq | hLess
      · exact hQuote hEq
      · have hCode : c.toNat < 32 := hLess
        omega
    rw [after_cons, plain_next, if_neg hSlash,
      if_neg hVisible]
    rfl
  · exact after_hex4 hUnit
  · have hHigh :
        Place.plain.after
            ('\\' :: 'u' ::
              hex4 (55296 + (c.toNat - 65536) / 1024)) =
          some .plain :=
      after_hex4 (by omega)
    rw [after_join _ hHigh]
    exact after_hex4 (by omega)

/- What the encoder writes between quotes is a body, -/
theorem isBody_escapes (cs : List Char) :
    IsBody (cs.flatMap escapeChar) := by
  induction cs with
  | nil => rfl
  | cons c cs ih =>
      unfold IsBody
      rw [List.flatMap_cons, after_join _ (after_escapeChar c)]
      exact ih

/- Only escaped quotes are in an escape. -/
theorem quotesMarked_escapeChar
    (prev : Char)
    (c : Char) :
    QuotesMarked prev (escapeChar c) := by
  have hHex : ∀ n, '"' ∉ hex4 n := by
    intro n hMem
    exact absurd (isHexDigit_hex4 hMem) (by decide)
  by_cases hQuote : c = '"'
  · rw [hQuote]
    exact
      ⟨fun hEq => absurd hEq (by decide),
        fun _ => Or.inl rfl, trivial⟩
  · apply quotesMarked_none
    unfold escapeChar
    dsimp only
    rw [if_neg hQuote]
    split_ifs
    all_goals
      simp only [List.mem_cons, List.mem_append,
        List.not_mem_nil, or_false, hHex]
    all_goals first
      | decide
      | exact Ne.symm hQuote

/- and its quotes are marked. -/
theorem quotesMarked_escapes
    (prev : Char)
    (cs : List Char) :
    QuotesMarked prev (cs.flatMap escapeChar) := by
  induction cs generalizing prev with
  | nil => trivial
  | cons c cs ih =>
      rw [List.flatMap_cons, quotesMarked_append]
      exact ⟨quotesMarked_escapeChar prev c, ih _⟩

end PigBook.Observability
