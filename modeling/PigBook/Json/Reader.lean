import Mathlib.Data.List.TakeWhile
import Mathlib.Data.Nat.Digits.Defs
import Mathlib.Tactic.Common

/-
  A reader of JSON texts, and what it makes of objects whose
  strings were changed after they had been written.

  Key definitions include:
    * `Place`, `readString`
    * `readValue`, `readMembers`, `parseObject`
    * `Member`, `writeObject`
    * `QuotesMarked`, `BareQuote`

  Key theorems include:
    * `readString_body`
    * `readString_bareQuote`
    * `parseObject_writeObject`
    * `parseObject_broken`
-/

------------------------------------------------------------
-- Strings
------------------------------------------------------------

namespace JsonText

/-
  Where a reader is in a string: at a character of its own,
  after a backslash, or before the last digits of `\u`.
-/
inductive Place
  | plain
  | escape
  | unit (left : ℕ)
deriving DecidableEq, Repr

def isHexDigit (c : Char) : Bool :=
  c.isDigit ∨ ('a' ≤ c ∧ c ≤ 'f') ∨ ('A' ≤ c ∧ c ≤ 'F')

/- The letters of the escapes with one letter. -/
def isEscape (c : Char) : Bool :=
  c ∈ ['"', '\\', '/', 'b', 'f', 'n', 'r', 't']

namespace Place

def afterDigit : ℕ → Place
| 0 => plain
| left + 1 => unit left

/- The place after a character that a string may have here. -/
def next : Place → Char → Option Place
| plain, c =>
    if c = '\\' then some escape
    else if c = '"' ∨ c < ' ' then none
    else some plain
| escape, c =>
    if c = 'u' then some (unit 3)
    else if isEscape c then some plain
    else none
| unit left, c =>
    if isHexDigit c then some (afterDigit left) else none

def after (place : Place) : List Char → Option Place
| [] => some place
| c :: cs => (place.next c).bind fun place' => place'.after cs

end Place

/- The text between the quotes of a string. -/
def IsBody (cs : List Char) : Prop :=
  Place.plain.after cs = some .plain

/- Read up to the closing quote: the text, and what follows. -/
def readString :
    Place → List Char → Option (List Char × List Char)
| _, [] => none
| place, c :: cs =>
    if place = .plain ∧ c = '"' then some ([], cs)
    else
      (place.next c).bind fun place' =>
        (readString place' cs).map fun read =>
          (c :: read.1, read.2)

theorem plain_next (c : Char) :
    Place.plain.next c =
      if c = '\\' then some .escape
      else if c = '"' ∨ c < ' ' then none
      else some .plain :=
  rfl

theorem escape_next (c : Char) :
    Place.escape.next c =
      if c = 'u' then some (.unit 3)
      else if isEscape c then some .plain
      else none :=
  rfl

theorem unit_next
    (left : ℕ)
    (c : Char) :
    (Place.unit left).next c =
      if isHexDigit c then some (Place.afterDigit left)
      else none :=
  rfl

theorem after_cons
    (place : Place)
    (c : Char)
    (cs : List Char) :
    place.after (c :: cs) =
      (place.next c).bind fun place' => place'.after cs :=
  rfl

theorem readString_cons
    (place : Place)
    (c : Char)
    (cs : List Char) :
    readString place (c :: cs) =
      if place = .plain ∧ c = '"' then some ([], cs)
      else
        (place.next c).bind fun place' =>
          (readString place' cs).map fun read =>
            (c :: read.1, read.2) :=
  rfl

theorem after_append
    (place : Place)
    (cs more : List Char) :
    place.after (cs ++ more) =
      (place.after cs).bind fun place' =>
        place'.after more := by
  induction cs generalizing place with
  | nil => rfl
  | cons c cs ih =>
      rw [List.cons_append, after_cons, after_cons]
      cases place.next c with
      | none => rfl
      | some place' => exact ih place'

/- Of no string is a quote alone a part. -/
theorem next_quote : Place.plain.next '"' = none := rfl

theorem readString_step
    {place place' : Place}
    {c : Char}
    (cs : List Char)
    (hNext : place.next c = some place') :
    readString place (c :: cs) =
      (readString place' cs).map fun read =>
        (c :: read.1, read.2) := by
  have hOpen : ¬ (place = .plain ∧ c = '"') := by
    intro hQuote
    rw [hQuote.1, hQuote.2, next_quote] at hNext
    cases hNext
  rw [readString_cons, if_neg hOpen, hNext]
  rfl

/- A string is read up to where it is broken. -/
theorem readString_append
    {place place' : Place}
    {cs : List Char}
    (more : List Char)
    (hAfter : place.after cs = some place') :
    readString place (cs ++ more) =
      (readString place' more).map fun read =>
        (cs ++ read.1, read.2) := by
  induction cs generalizing place with
  | nil =>
      cases hAfter
      cases hMore : readString place' more with
      | none => exact hMore
      | some read => exact hMore
  | cons c cs ih =>
      rw [after_cons] at hAfter
      rcases Option.bind_eq_some_iff.mp hAfter with
        ⟨next, hNext, hRest⟩
      rw [List.cons_append, readString_step _ hNext, ih hRest,
        Option.map_map]
      rfl

theorem readString_body
    {cs : List Char}
    (more : List Char)
    (hBody : IsBody cs) :
    readString .plain (cs ++ '"' :: more) =
      some (cs, more) := by
  rw [readString_append _ hBody, readString_cons,
    if_pos (And.intro rfl rfl), Option.map_some,
    List.append_nil]

end JsonText

------------------------------------------------------------
-- Quotes
------------------------------------------------------------

namespace JsonText

/-
  Every quote comes after a backslash or a closing bracket.
  The character before the text is `prev`.
-/
def QuotesMarked (prev : Char) : List Char → Prop
| [] => True
| c :: cs =>
    (c = '"' → prev = '\\' ∨ prev = ']') ∧ QuotesMarked c cs

/- Some quote comes after a closing bracket. -/
def BareQuote (prev : Char) : List Char → Prop
| [] => False
| c :: cs => (c = '"' ∧ prev = ']') ∨ BareQuote c cs

theorem next_bracket
    {place place' : Place}
    (hNext : place.next ']' = some place') :
    place' = .plain := by
  cases place with
  | plain =>
      cases hNext
      rfl
  | escape => cases hNext
  | unit left => cases hNext

/-
  A quote that no backslash precedes ends the string early, if
  the string is well formed up to it.
-/
theorem readString_bareQuote
    {place : Place}
    {prev : Char}
    {cs : List Char}
    (more : List Char)
    (hBare : BareQuote prev cs)
    (hPlain : prev = ']' → place = .plain) :
    readString place (cs ++ more) = none ∨
      ∃ front back,
        cs = front ++ '"' :: back ∧
        readString place (cs ++ more) =
          some (front, back ++ more) := by
  induction cs generalizing place prev with
  | nil => cases hBare
  | cons c cs ih =>
      by_cases hClose : place = .plain ∧ c = '"'
      · right
        refine ⟨[], cs, ?_, ?_⟩
        · rw [hClose.2]
          rfl
        · rw [List.cons_append, readString_cons, if_pos hClose]
      · have hLater : BareQuote c cs := by
          rcases hBare with hHere | hLater
          · exact absurd ⟨hPlain hHere.2, hHere.1⟩ hClose
          · exact hLater
        rw [List.cons_append]
        cases hNext : place.next c with
        | none =>
            left
            rw [readString_cons, if_neg hClose, hNext]
            rfl
        | some place' =>
            have hBracket : c = ']' → place' = .plain := by
              intro hEq
              rw [hEq] at hNext
              exact next_bracket hNext
            rw [readString_step _ hNext]
            rcases ih hLater hBracket with
              hNone | ⟨front, back, hCs, hSome⟩
            · left
              rw [hNone]
              rfl
            · right
              refine ⟨c :: front, back, ?_, ?_⟩
              · rw [hCs]
                rfl
              · rw [hSome]
                rfl

/- What is marked after a bare quote. -/
theorem QuotesMarked.split
    {prev : Char}
    {front back : List Char}
    (hMarked : QuotesMarked prev (front ++ '"' :: back)) :
    QuotesMarked '"' back := by
  induction front generalizing prev with
  | nil => exact hMarked.2
  | cons c front ih => exact ih hMarked.2

end JsonText

------------------------------------------------------------
-- Values
------------------------------------------------------------

namespace JsonText

def isBlank (c : Char) : Bool :=
  c = ' ' ∨ c = '\t' ∨ c = '\n' ∨ c = '\r'

def skipBlank (cs : List Char) : List Char :=
  cs.dropWhile isBlank

/- What follows a character that has to come. -/
def expect (c : Char) : List Char → Option (List Char)
| [] => none
| d :: cs => if d = c then some cs else none

def readWord (word cs : List Char) : Option (List Char) :=
  if word <+: cs then some (cs.drop word.length) else none

/- At least one digit. -/
def readDigits : List Char → Option (List Char)
| [] => none
| c :: cs =>
    if c.isDigit then some (cs.dropWhile Char.isDigit) else none

def readFraction (cs : List Char) : Option (List Char) :=
  match expect '.' cs with
  | none => some cs
  | some more => readDigits more

def readExponent (cs : List Char) : Option (List Char) :=
  match (expect 'e' cs).or (expect 'E' cs) with
  | none => some cs
  | some more =>
      readDigits
        (((expect '+' more).or (expect '-' more)).getD more)

/- A number: no zeros in front of its digits. -/
def readNumber (cs : List Char) : Option (List Char) := do
  let cs := (expect '-' cs).getD cs
  let cs ← (expect '0' cs).or (readDigits cs)
  let cs ← readFraction cs
  readExponent cs

/-
  The readers leave what follows a value. Of an object they
  give the keys as they are written. The first argument bounds
  how deep the values nest and how many there are.
-/
mutual

def readValue : ℕ → List Char → Option (List Char)
| 0, _ => none
| n + 1, cs =>
    match cs with
    | [] => none
    | c :: more =>
        if c = '"' then
          (readString .plain more).map fun read => read.2
        else if c = '\x7b' then
          (readObject n more).map fun read => read.2
        else if c = '[' then readArray n more
        else if c = 't' then readWord "true".toList cs
        else if c = 'f' then readWord "false".toList cs
        else if c = 'n' then readWord "null".toList cs
        else readNumber cs

/- An object after its opening brace. -/
def readObject :
    ℕ → List Char → Option (List (List Char) × List Char)
| 0, _ => none
| n + 1, cs =>
    match expect '\x7d' (skipBlank cs) with
    | some more => some ([], more)
    | none => readMembers n (skipBlank cs)

def readMembers :
    ℕ → List Char → Option (List (List Char) × List Char)
| 0, _ => none
| n + 1, cs => do
    let cs ← expect '"' cs
    let (key, cs) ← readString .plain cs
    let cs ← expect ':' (skipBlank cs)
    let cs ← readValue n (skipBlank cs)
    match expect '\x7d' (skipBlank cs) with
    | some more => some ([key], more)
    | none =>
        let cs ← expect ',' (skipBlank cs)
        let (keys, cs) ← readMembers n (skipBlank cs)
        some (key :: keys, cs)

/- An array after its opening bracket. -/
def readArray : ℕ → List Char → Option (List Char)
| 0, _ => none
| n + 1, cs =>
    match expect ']' (skipBlank cs) with
    | some more => some more
    | none => readItems n (skipBlank cs)

def readItems : ℕ → List Char → Option (List Char)
| 0, _ => none
| n + 1, cs => do
    let cs ← readValue n cs
    match expect ']' (skipBlank cs) with
    | some more => some more
    | none =>
        let cs ← expect ',' (skipBlank cs)
        readItems n (skipBlank cs)

end

/- The keys of the object that a text is. -/
def parseObject (cs : List Char) :
    Option (List (List Char)) := do
  let more ← expect '\x7b' (skipBlank cs)
  let (keys, more) ← readObject (cs.length + 2) more
  if skipBlank more = [] then some keys else none

end JsonText

------------------------------------------------------------
-- Objects That Were Written
------------------------------------------------------------

namespace JsonText

/- A member of an object: its name without the quotes. -/
structure Member where
  name : List Char
  value : List Char

def Member.text (m : Member) : List Char :=
  '"' :: (m.name ++ '"' :: ':' :: ' ' :: m.value)

def writeMore : List Member → List Char
| [] => ['\x7d']
| m :: ms => ',' :: ' ' :: (m.text ++ writeMore ms)

/- Members are separated by a comma and a blank. -/
def writeObject : List Member → List Char
| [] => ['\x7b', '\x7d']
| m :: ms => '\x7b' :: (m.text ++ writeMore ms)

/- What may follow a member. -/
def Follows (more : List Char) : Prop :=
  ∃ c cs, more = c :: cs ∧ (c = ',' ∨ c = '\x7d')

/- A value that is read as it was written. -/
def Readable (value : List Char) : Prop :=
  (∃ c cs, value = c :: cs ∧ isBlank c = false) ∧
    ∀ n more, Follows more →
      readValue (n + 1) (value ++ more) = some more

def GoodName (name : List Char) : Prop :=
  IsBody name ∧
    ∃ c cs, name = c :: cs ∧ isBlank c = false ∧ c ≠ ':'

theorem skipBlank_cons
    {c : Char}
    (cs : List Char)
    (hVisible : isBlank c = false) :
    skipBlank (c :: cs) = c :: cs := by
  unfold skipBlank
  rw [List.dropWhile_cons_of_neg]
  simp [hVisible]

theorem skipBlank_space (cs : List Char) :
    skipBlank (' ' :: cs) = skipBlank cs :=
  rfl

theorem skipBlank_follows
    {more : List Char}
    (hFollows : Follows more) :
    skipBlank more = more := by
  rcases hFollows with ⟨c, cs, rfl, rfl | rfl⟩
  · rfl
  · rfl

theorem expect_self
    (c : Char)
    (cs : List Char) :
    expect c (c :: cs) = some cs :=
  if_pos rfl

theorem expect_other
    {c d : Char}
    (cs : List Char)
    (hOther : d ≠ c) :
    expect c (d :: cs) = none :=
  if_neg hOther

theorem writeMore_cons
    (m : Member)
    (ms : List Member) :
    writeMore (m :: ms) =
      ',' :: ' ' :: (m.text ++ writeMore ms) :=
  rfl

theorem follows_writeMore (ms : List Member) :
    Follows (writeMore ms) := by
  cases ms with
  | nil => exact ⟨_, _, rfl, Or.inr rfl⟩
  | cons m ms => exact ⟨_, _, rfl, Or.inl rfl⟩

/- After a member's name its value is read. -/
theorem readMembers_named
    {m : Member}
    (n : ℕ)
    (more : List Char)
    (hName : IsBody m.name)
    (hValue :
      ∃ c cs, m.value = c :: cs ∧ isBlank c = false) :
    readMembers (n + 1) (m.text ++ more) =
      (readValue n (m.value ++ more)).bind fun cs =>
        match expect '\x7d' (skipBlank cs) with
        | some more => some ([m.name], more)
        | none =>
            (expect ',' (skipBlank cs)).bind fun cs =>
              (readMembers n (skipBlank cs)).map fun read =>
                (m.name :: read.1, read.2) := by
  rcases hValue with ⟨c, cs, hCons, hVisible⟩
  have hText :
      m.text ++ more =
        '"' :: (m.name ++ '"' :: ':' :: ' ' ::
          (m.value ++ more)) := by
    unfold Member.text
    simp
  have hSkip :
      skipBlank (' ' :: (m.value ++ more)) =
        m.value ++ more := by
    rw [skipBlank_space, hCons]
    exact skipBlank_cons _ hVisible
  have hColon :
      skipBlank (':' :: ' ' :: (m.value ++ more)) =
        ':' :: ' ' :: (m.value ++ more) :=
    rfl
  rw [hText]
  simp only [readMembers, expect_self, Option.bind_eq_bind,
    Option.bind_some, readString_body _ hName, hColon, hSkip]
  congr 1
  funext cs
  cases expect '\x7d' (skipBlank cs) with
  | some more => rfl
  | none =>
      dsimp only
      congr 1
      funext cs
      cases readMembers n (skipBlank cs) with
      | none => rfl
      | some read => rfl

theorem readMembers_readable
    {m : Member}
    {more : List Char}
    (n : ℕ)
    (hName : IsBody m.name)
    (hValue : Readable m.value)
    (hFollows : Follows more) :
    readMembers (n + 2) (m.text ++ more) =
      match expect '\x7d' more with
      | some more => some ([m.name], more)
      | none =>
          (expect ',' more).bind fun cs =>
            (readMembers (n + 1) (skipBlank cs)).map fun read =>
              (m.name :: read.1, read.2) := by
  rw [readMembers_named (n + 1) more hName hValue.1,
    hValue.2 n more hFollows, Option.bind_some,
    skipBlank_follows hFollows]

/- The members after the first are read one by one. -/
theorem readMembers_writeMore
    {m : Member}
    {ms : List Member}
    {n : ℕ}
    (hNames : ∀ x ∈ m :: ms, IsBody x.name)
    (hValues : ∀ x ∈ m :: ms, Readable x.value)
    (hBound : ms.length + 2 ≤ n) :
    readMembers n (m.text ++ writeMore ms) =
      some ((m :: ms).map Member.name, []) := by
  induction ms generalizing m n with
  | nil =>
      obtain ⟨k, rfl⟩ := Nat.exists_eq_add_of_le' hBound
      rw [List.length_nil, readMembers_readable k
        (hNames m List.mem_cons_self)
        (hValues m List.mem_cons_self) (follows_writeMore [])]
      rfl
  | cons m' ms ih =>
      obtain ⟨k, rfl⟩ : ∃ k, n = k + 2 :=
        ⟨n - 2, by rw [List.length_cons] at hBound; omega⟩
      rw [List.length_cons] at hBound
      have hRest :
          readMembers (k + 1) (m'.text ++ writeMore ms) =
            some ((m' :: ms).map Member.name, []) := by
        apply ih
        · intro x hx
          exact hNames x (List.mem_cons_of_mem m hx)
        · intro x hx
          exact hValues x (List.mem_cons_of_mem m hx)
        · omega
      have hBlank :
          skipBlank (' ' :: (m'.text ++ writeMore ms)) =
            m'.text ++ writeMore ms :=
        rfl
      rw [readMembers_readable k (hNames m List.mem_cons_self)
        (hValues m List.mem_cons_self)
        (follows_writeMore (m' :: ms))]
      unfold writeMore
      rw [expect_self, Option.bind_some, hBlank, hRest]
      rfl

theorem length_writeMore (ms : List Member) :
    ms.length < (writeMore ms).length := by
  induction ms with
  | nil => exact Nat.zero_lt_one
  | cons m ms ih =>
      unfold writeMore
      simp only [List.length_cons, List.length_append]
      omega

/- An object is read back with its keys. -/
theorem parseObject_writeObject
    {ms : List Member}
    (hNames : ∀ m ∈ ms, IsBody m.name)
    (hValues : ∀ m ∈ ms, Readable m.value) :
    parseObject (writeObject ms) =
      some (ms.map Member.name) := by
  cases ms with
  | nil => rfl
  | cons m ms =>
      have hLength := length_writeMore ms
      have hRead :=
        readMembers_writeMore
          (n := (writeObject (m :: ms)).length + 1)
          hNames hValues
          (by
            unfold writeObject
            simp only [List.length_cons, List.length_append]
            omega)
      have hText :
          ∃ cs, m.text ++ writeMore ms = '"' :: cs :=
        ⟨_, rfl⟩
      rcases hText with ⟨cs, hText⟩
      have hObject :
          readObject ((writeObject (m :: ms)).length + 2)
              (m.text ++ writeMore ms) =
            some ((m :: ms).map Member.name, []) := by
        rw [← hRead, hText]
        rfl
      unfold parseObject
      have hOpen :
          expect '\x7b' (skipBlank (writeObject (m :: ms))) =
            some (m.text ++ writeMore ms) :=
        rfl
      rw [hOpen, Option.bind_eq_bind, Option.bind_some, hObject]
      rfl

end JsonText

------------------------------------------------------------
-- Values That Are Read Back
------------------------------------------------------------

namespace JsonText

theorem readable_string
    {body : List Char}
    (hBody : IsBody body) :
    Readable ('"' :: (body ++ ['"'])) := by
  constructor
  · exact ⟨_, _, rfl, rfl⟩
  · intro n more hFollows
    have hText :
        '"' :: (body ++ ['"']) ++ more =
          '"' :: (body ++ '"' :: more) := by
      simp
    have hString :
        readValue (n + 1) ('"' :: (body ++ '"' :: more)) =
          (readString .plain (body ++ '"' :: more)).map
            fun read => read.2 :=
      rfl
    rw [hText, hString, readString_body _ hBody]
    rfl

theorem readable_null : Readable "null".toList := by
  constructor
  · exact ⟨_, _, rfl, rfl⟩
  · intro n more hFollows
    have hWord :
        readValue (n + 1) ("null".toList ++ more) =
          readWord "null".toList ("null".toList ++ more) :=
      rfl
    rw [hWord]
    unfold readWord
    rw [if_pos (List.prefix_append _ _),
      List.drop_left' rfl]

/- Digits without zeros in front. -/
def IsDecimal (ds : List Char) : Prop :=
  ∃ c cs, ds = c :: cs ∧ (∀ d ∈ c :: cs, d.isDigit) ∧
    (c = '0' → cs = [])

theorem dropWhile_digits
    {ds more : List Char}
    (hDigits : ∀ d ∈ ds, d.isDigit)
    (hFollows : Follows more) :
    (ds ++ more).dropWhile Char.isDigit = more := by
  rw [List.dropWhile_append_of_pos hDigits]
  rcases hFollows with ⟨c, cs, rfl, rfl | rfl⟩
  · rfl
  · rfl

theorem readNumber_decimal
    {ds more : List Char}
    (hDecimal : IsDecimal ds)
    (hFollows : Follows more) :
    (expect '0' (ds ++ more)).or (readDigits (ds ++ more)) =
      some more := by
  rcases hDecimal with ⟨c, cs, rfl, hDigits, hZero⟩
  rw [List.cons_append]
  by_cases hHead : c = '0'
  · rw [hHead, expect_self, hZero hHead]
    rfl
  · rw [expect_other _ hHead, Option.none_or]
    have hRead :
        readDigits (c :: (cs ++ more)) =
          some ((cs ++ more).dropWhile Char.isDigit) :=
      if_pos (hDigits c List.mem_cons_self)
    rw [hRead, dropWhile_digits _ hFollows]
    intro d hd
    exact hDigits d (List.mem_cons_of_mem c hd)

/- Neither a fraction nor an exponent follows. -/
theorem readExponent_follows
    {more : List Char}
    (hFollows : Follows more) :
    (readFraction more).bind readExponent = some more := by
  rcases hFollows with ⟨c, cs, rfl, rfl | rfl⟩
  · rfl
  · rfl

theorem readNumber_text
    {sign ds more : List Char}
    (hSign : sign = [] ∨ sign = ['-'])
    (hDecimal : IsDecimal ds)
    (hFollows : Follows more) :
    readNumber (sign ++ ds ++ more) = some more := by
  have hUnsigned :
      (expect '-' (sign ++ ds ++ more)).getD
          (sign ++ ds ++ more) =
        ds ++ more := by
    rcases hSign with hEmpty | hMinus
    · rcases hDecimal with ⟨c, cs, rfl, hDigits, -⟩
      have hNot : c ≠ '-' := by
        intro hEq
        have hDigit := hDigits c List.mem_cons_self
        rw [hEq] at hDigit
        cases hDigit
      rw [hEmpty, List.nil_append, List.cons_append,
        expect_other _ hNot]
      rfl
    · rw [hMinus]
      rfl
  unfold readNumber
  dsimp only
  rw [hUnsigned, readNumber_decimal hDecimal hFollows]
  exact readExponent_follows hFollows

theorem isDigit_toNat
    {c : Char}
    (hDigit : c.isDigit) :
    48 ≤ c.toNat ∧ c.toNat ≤ 57 := by
  simp only [Char.isDigit, Bool.and_eq_true,
    decide_eq_true_iff, ge_iff_le, UInt32.le_iff_toNat_le]
    at hDigit
  exact hDigit

/- A number is read by its first character. -/
theorem readValue_number
    {c : Char}
    (n : ℕ)
    (cs : List Char)
    (hNumber : c = '-' ∨ c.isDigit) :
    readValue (n + 1) (c :: cs) = readNumber (c :: cs) := by
  have hNot : ∀ d, 57 < d.toNat ∨ d = '"' → c ≠ d := by
    intro d hd hEq
    rw [hEq] at hNumber
    rcases hNumber with hMinus | hDigit
    · rw [hMinus] at hd
      exact absurd hd (by decide)
    · have hRange := isDigit_toNat hDigit
      rcases hd with hLarge | hQuote
      · omega
      · rw [hQuote] at hRange
        exact absurd hRange (by decide)
  simp only [readValue]
  rw [if_neg (hNot '"' (by decide)),
    if_neg (hNot '\x7b' (by decide)),
    if_neg (hNot '[' (by decide)),
    if_neg (hNot 't' (by decide)),
    if_neg (hNot 'f' (by decide)),
    if_neg (hNot 'n' (by decide))]

theorem readable_number
    {sign ds : List Char}
    (hSign : sign = [] ∨ sign = ['-'])
    (hDecimal : IsDecimal ds) :
    Readable (sign ++ ds) := by
  have hHead :
      ∃ c cs, sign ++ ds = c :: cs ∧ (c = '-' ∨ c.isDigit) := by
    rcases hSign with hEmpty | hMinus
    · rcases hDecimal with ⟨c, cs, hCons, hDigits, -⟩
      refine ⟨c, cs, ?_, Or.inr (hDigits c List.mem_cons_self)⟩
      rw [hEmpty, hCons]
      rfl
    · refine ⟨'-', ds, ?_, Or.inl rfl⟩
      rw [hMinus]
      rfl
  rcases hHead with ⟨c, cs, hCons, hNumber⟩
  constructor
  · refine ⟨c, cs, hCons, ?_⟩
    rcases hNumber with hMinus | hDigit
    · rw [hMinus]
      rfl
    · have hRange := isDigit_toNat hDigit
      unfold isBlank
      rw [decide_eq_false_iff_not]
      intro hBlank
      rcases hBlank with rfl | rfl | rfl | rfl
      all_goals exact absurd hRange (by decide)
  · intro n more hFollows
    have hRead := readNumber_text hSign hDecimal hFollows
    rw [hCons, List.cons_append] at hRead ⊢
    rw [readValue_number n _ hNumber]
    exact hRead

/- The decimal digits of a number. -/
theorem isDecimal_toDigits (n : ℕ) :
    IsDecimal (Nat.toDigits 10 n) := by
  have hDigits :
      ∀ d ∈ Nat.toDigits 10 n, d.isDigit := by
    intro d hd
    exact
      Nat.isDigit_of_mem_toDigits (b := 10) (by omega)
        (by omega) hd
  have hZero :
      ∀ c cs, Nat.toDigits 10 n = c :: cs → c = '0' → n = 0 := by
    intro c cs hCons hHead
    induction n using Nat.strong_induction_on generalizing cs with
    | _ n ih =>
        by_cases hSmall : n < 10
        · rw [Nat.toDigits_of_lt_base hSmall] at hCons
          have hAll :
              ∀ k < 10, Nat.digitChar k = '0' → k = 0 := by
            decide
          apply hAll n hSmall
          rw [(List.cons.inj hCons).1, hHead]
        · rw [Nat.toDigits_of_base_le (by omega) (by omega)]
            at hCons
          cases hMore : Nat.toDigits 10 (n / 10) with
          | nil => exact absurd hMore Nat.toDigits_ne_nil
          | cons d ds =>
              rw [hMore, List.cons_append] at hCons
              have hSame := (List.cons.inj hCons).1
              have hPos :=
                ih (n / 10) (by omega)
                  (fun x hx =>
                    Nat.isDigit_of_mem_toDigits
                      (b := 10) (by omega) (by omega) hx)
                  ds (by rw [hMore, hSame])
              omega
  cases hCons : Nat.toDigits 10 n with
  | nil => exact absurd hCons Nat.toDigits_ne_nil
  | cons c cs =>
      refine ⟨c, cs, rfl, ?_, ?_⟩
      · rw [← hCons]
        exact hDigits
      · intro hHead
        rw [hZero c cs hCons hHead] at hCons
        exact (List.cons.inj hCons).2.symm

end JsonText

------------------------------------------------------------
-- Objects That Were Changed
------------------------------------------------------------

namespace JsonText

/-
  The text between the quotes of a value is broken: it is not
  read whatever follows it, or it is closed too early.
-/
def Broken (body : List Char) : Prop :=
  (∀ more, readString .plain (body ++ more) = none) ∨
    (QuotesMarked '"' body ∧ BareQuote '"' body)

/- What is left unread has a quote. -/
def LeavesQuote
    (read : Option (List (List Char) × List Char)) : Prop :=
  ∀ keys more, read = some (keys, more) → '"' ∈ more

theorem leavesQuote_none : LeavesQuote none := by
  intro keys more hNone
  cases hNone

/-
  Blanks after a character that marks no quote end at the
  closing quote or before it, at another character.
-/
theorem skipBlank_marked
    {prev : Char}
    {cs : List Char}
    (more : List Char)
    (hMarked : QuotesMarked prev cs)
    (hPrev : prev ≠ '\\' ∧ prev ≠ ']') :
    skipBlank (cs ++ '"' :: more) = '"' :: more ∨
      ∃ d rest,
        d ≠ '"' ∧ isBlank d = false ∧ QuotesMarked d rest ∧
        skipBlank (cs ++ '"' :: more) =
          d :: (rest ++ '"' :: more) := by
  induction cs generalizing prev with
  | nil => exact Or.inl rfl
  | cons c cs ih =>
      rw [List.cons_append]
      cases hBlank : isBlank c with
      | true =>
          have hMarks : c ≠ '\\' ∧ c ≠ ']' := by
            constructor
            · intro hEq
              rw [hEq] at hBlank
              cases hBlank
            · intro hEq
              rw [hEq] at hBlank
              cases hBlank
          have hSkip :
              skipBlank (c :: (cs ++ '"' :: more)) =
                skipBlank (cs ++ '"' :: more) :=
            List.dropWhile_cons_of_pos hBlank
          rw [hSkip]
          exact ih hMarked.2 hMarks
      | false =>
          right
          refine ⟨c, cs, ?_, hBlank, hMarked.2,
            skipBlank_cons _ hBlank⟩
          intro hQuote
          rcases hMarked.1 hQuote with hSlash | hBracket
          · exact hPrev.1 hSlash
          · exact hPrev.2 hBracket

/-
  A key that begins with the closing quote of a value: it ends
  before the name of the next member, or never.
-/
theorem readMembers_closingQuote
    {ms : List Member}
    (n : ℕ)
    (hNames : ∀ m ∈ ms, GoodName m.name) :
    readMembers n ('"' :: writeMore ms) = none := by
  cases n with
  | zero => rfl
  | succ n =>
      simp only [readMembers, expect_self, Option.bind_eq_bind,
        Option.bind_some]
      cases ms with
      | nil => rfl
      | cons m ms =>
          rcases hNames m List.mem_cons_self with
            ⟨-, c, cs, hCons, hVisible, hColon⟩
          have hComma : IsBody [',', ' '] := rfl
          have hText :
              writeMore (m :: ms) =
                [',', ' '] ++ '"' ::
                  (c :: (cs ++ '"' :: ':' :: ' ' ::
                    (m.value ++ writeMore ms))) := by
            rw [writeMore_cons]
            unfold Member.text
            simp [hCons]
          rw [hText, readString_body _ hComma,
            Option.bind_some]
          dsimp only
          rw [skipBlank_cons _ hVisible, expect_other _ hColon]
          rfl

/- A value that is broken breaks the object. -/
theorem readMembers_broken
    {m : Member}
    {ms : List Member}
    {body : List Char}
    (n : ℕ)
    (hName : IsBody m.name)
    (hNames : ∀ x ∈ ms, GoodName x.name)
    (hValue : m.value = '"' :: (body ++ ['"']))
    (hBroken : Broken body) :
    LeavesQuote (readMembers n (m.text ++ writeMore ms)) := by
  cases n with
  | zero => exact leavesQuote_none
  | succ n =>
      rw [readMembers_named n _ hName
        ⟨'"', body ++ ['"'], hValue, rfl⟩]
      cases n with
      | zero => exact leavesQuote_none
      | succ n =>
          have hText :
              m.value ++ writeMore ms =
                '"' :: (body ++ '"' :: writeMore ms) := by
            rw [hValue]
            simp
          have hString :
              readValue (n + 1) (m.value ++ writeMore ms) =
                (readString .plain
                  (body ++ '"' :: writeMore ms)).map
                    fun read => read.2 := by
            rw [hText]
            rfl
          rw [hString]
          rcases hBroken with hNever | ⟨hMarked, hBare⟩
          · rw [hNever]
            exact leavesQuote_none
          · have hPlain : '"' = ']' → Place.plain = .plain :=
              fun _ => rfl
            rcases
              readString_bareQuote ('"' :: writeMore ms) hBare
                hPlain with
              hNone | ⟨front, back, hBody, hSome⟩
            · rw [hNone]
              exact leavesQuote_none
            rw [hSome, Option.map_some, Option.bind_some]
            rw [hBody] at hMarked
            have hBack := hMarked.split
            rcases
              skipBlank_marked (writeMore ms) hBack
                (And.intro (by decide) (by decide)) with
              hClosing | ⟨d, rest, hOther, -, hRest, hSkip⟩
            · -- A quote follows: no brace and no comma.
              rw [hClosing]
              exact leavesQuote_none
            · rw [hSkip]
              by_cases hBrace : d = '\x7d'
              · rw [hBrace, expect_self]
                intro keys more hRead
                cases hRead
                simp
              · rw [expect_other _ hBrace]
                dsimp only
                by_cases hComma : d = ','
                · rw [hComma, expect_self, Option.bind_some]
                  rw [hComma] at hRest
                  rcases
                    skipBlank_marked (writeMore ms) hRest
                      (And.intro (by decide) (by decide)) with
                    hClosing | ⟨e, rest', hKey, -, -, hSkip'⟩
                  · rw [hClosing,
                      readMembers_closingQuote _ hNames]
                    exact leavesQuote_none
                  · -- No key begins here.
                    rw [hSkip']
                    have hNoKey :
                        readMembers (n + 1)
                            (e :: (rest' ++
                              '"' :: writeMore ms)) =
                          none := by
                      simp only [readMembers,
                        expect_other _ hKey]
                      rfl
                    rw [hNoKey]
                    exact leavesQuote_none
                · rw [expect_other _ hComma]
                  exact leavesQuote_none

/- So does one that comes after others. -/
theorem readMembers_brokenMember
    {x : Member}
    {body : List Char}
    {front later : List Member}
    {m : Member}
    {ms : List Member}
    (n : ℕ)
    (hMembers : front ++ x :: later = m :: ms)
    (hNames : ∀ y ∈ m :: ms, GoodName y.name)
    (hValues : ∀ y ∈ front, Readable y.value)
    (hValue : x.value = '"' :: (body ++ ['"']))
    (hBroken : Broken body) :
    LeavesQuote (readMembers n (m.text ++ writeMore ms)) := by
  have hName := (hNames m List.mem_cons_self).1
  induction front generalizing m ms n with
  | nil =>
      cases hMembers
      apply readMembers_broken n hName _ hValue hBroken
      intro y hy
      exact hNames y (List.mem_cons_of_mem _ hy)
  | cons m' front ih =>
      rw [List.cons_append, List.cons.injEq] at hMembers
      rcases hMembers with ⟨rfl, rfl⟩
      have hHead := hValues m' List.mem_cons_self
      cases n with
      | zero => exact leavesQuote_none
      | succ n =>
          cases n with
          | zero =>
              rw [readMembers_named 0 _ hName hHead.1]
              exact leavesQuote_none
          | succ n =>
              rw [readMembers_readable n hName hHead
                (follows_writeMore _)]
              cases hRest : front ++ x :: later with
              | nil =>
                  exact
                    absurd hRest (List.append_ne_nil_of_right_ne_nil
                      front (List.cons_ne_nil x later))
              | cons first rest =>
                  have hLater :
                      ∀ y ∈ first :: rest, GoodName y.name := by
                    intro y hy
                    apply hNames y
                    rw [hRest]
                    exact List.mem_cons_of_mem m' hy
                  have hQuote :=
                    ih (n + 1) hRest hLater
                      (fun y hy =>
                        hValues y (List.mem_cons_of_mem m' hy))
                      (hLater first List.mem_cons_self).1
                  have hBlank :
                      skipBlank
                          (' ' :: (first.text ++ writeMore rest)) =
                        first.text ++ writeMore rest :=
                    rfl
                  rw [writeMore_cons, expect_self,
                    Option.bind_some, hBlank]
                  intro keys more hRead
                  rcases Option.map_eq_some_iff.mp hRead with
                    ⟨read, hSome, hEq⟩
                  cases hEq
                  exact hQuote _ _ hSome

/- What is left unread may only be blanks. -/
theorem skipBlank_ne_nil
    {cs : List Char}
    (hQuote : '"' ∈ cs) :
    skipBlank cs ≠ [] := by
  intro hNil
  have hBlank := List.dropWhile_eq_nil_iff.mp hNil '"' hQuote
  cases hBlank

/- An object with a broken value is not one. -/
theorem parseObject_broken
    {x : Member}
    {body : List Char}
    {front later : List Member}
    (hNames : ∀ y ∈ front ++ x :: later, GoodName y.name)
    (hValues : ∀ y ∈ front, Readable y.value)
    (hValue : x.value = '"' :: (body ++ ['"']))
    (hBroken : Broken body) :
    parseObject (writeObject (front ++ x :: later)) = none := by
  cases hMembers : front ++ x :: later with
  | nil => cases front <;> cases hMembers
  | cons m ms =>
      rw [hMembers] at hNames
      have hQuote :=
        readMembers_brokenMember
          ((writeObject (m :: ms)).length + 1)
          hMembers hNames hValues hValue hBroken
      have hObject :
          readObject ((writeObject (m :: ms)).length + 2)
              (m.text ++ writeMore ms) =
            readMembers ((writeObject (m :: ms)).length + 1)
              (m.text ++ writeMore ms) :=
        rfl
      have hOpen :
          expect '\x7b' (skipBlank (writeObject (m :: ms))) =
            some (m.text ++ writeMore ms) :=
        rfl
      unfold parseObject
      rw [hOpen, Option.bind_eq_bind, Option.bind_some, hObject]
      cases hRead :
          readMembers ((writeObject (m :: ms)).length + 1)
            (m.text ++ writeMore ms) with
      | none => rfl
      | some read =>
          rcases read with ⟨keys, more⟩
          rw [Option.bind_eq_bind, Option.bind_some]
          exact if_neg (skipBlank_ne_nil (hQuote _ _ hRead))

end JsonText
