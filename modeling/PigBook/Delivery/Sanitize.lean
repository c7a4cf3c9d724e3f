import Mathlib.Data.List.Induction
import Mathlib.Data.List.TakeWhile
import PigBook.OwnScope.Routes
import PigBook.Regex.Stretches

/-
  What the outbox keeps of an error: its text with credentials
  redacted.

  Key definitions include:
    * `credentialRule`, `bearerRule`
    * `sanitizeErrorCategory`
    * `Fragment`, `Secret`
    * `opens`, `parts`, `width`
    * `Hides`

  Key theorems include:
    * `credential_find_eq`, `bearer_find_eq`
    * `redactCredentials_secret`, `redactBearer_secret`
    * `length_redacted`
    * `sanitize_hides_iff`
-/

------------------------------------------------------------
-- Patterns
------------------------------------------------------------

namespace PigBook.Delivery

open Regex OwnScope

/-
  The characters that a letter of a pattern matches when case
  is ignored: three letters have partners beyond ASCII.
-/
def sameLetter (x c : Char) : Bool :=
  c.toLower = x ∨ (x = 's' ∧ c = Char.ofNat 0x17F) ∨
    (x = 'k' ∧ c = Char.ofNat 0x212A) ∨
    (x = 'i' ∧ (c = Char.ofNat 0x130 ∨ c = Char.ofNat 0x131))

def ignoreCase (word : String) : List (Char → Bool) :=
  word.toList.map sameLetter

def keywords : List String :=
  ["password", "passwd", "pwd", "secret", "token", "auth"]

/- The class `[:=]`. -/
def isSign (c : Char) : Bool :=
  c = ':' ∨ c = '='

/- The class `\S`. -/
def notSpace (c : Char) : Bool :=
  !(isSpace c)

/- A letter, a digit, or one of six marks. -/
def isValueChar (c : Char) : Bool :=
  c.isAlphanum ∨ c ∈ ['.', '_', '~', '+', '/', '-']

/- What that class matches when case is ignored. -/
def isTokenChar (c : Char) : Bool :=
  isValueChar c ∨
    c ∈ [Char.ofNat 0x17F, Char.ofNat 0x212A,
      Char.ofNat 0x130, Char.ofNat 0x131]

/- `(?i)(password|…|auth)\s*[:=]\s*\S+` to `\1=[REDACTED]`. -/
def credentialRule : Rule Char where
  group :=
    .choice ((keywords.map ignoreCase).map .word)
  rest :=
    .seq (.star isSpace)
      (.seq (.cls isSign)
        (.seq (.star isSpace) (.plus notSpace)))
  replace := fun keyword => keyword ++ "=[REDACTED]".toList

/- `bearer\s+` and a token, to `Bearer [REDACTED]`. -/
def bearerRule : Rule Char where
  group :=
    .choice (([ "bearer" ].map ignoreCase).map .word)
  rest :=
    .seq (.plus isSpace) (.plus isTokenChar)
  replace := fun _ => "Bearer [REDACTED]".toList

def redactCredentials (text : List Char) : List Char :=
  sub credentialRule.find 0 text

def redactBearer (text : List Char) : List Char :=
  sub bearerRule.find 0 text

/- Control characters become blanks. -/
def cleanChar (ch : Char) : Char :=
  if ' ' ≤ ch ∨ ch = '\n' ∨ ch = '\t' then ch else ' '

def sanitizeErrorCategory (error : String) : String :=
  if error.isEmpty then ""
  else
    let redacted := redactBearer (redactCredentials error.toList)
    let cleaned := redacted.map cleanChar
    String.ofList (strip (cleaned.take 500))

end PigBook.Delivery

------------------------------------------------------------
-- Matches
------------------------------------------------------------

namespace PigBook.Delivery

open Regex OwnScope

/- What a match of `\s*[:=]\s*\S+` leaves. -/
def afterCredential (mid : List Char) : Option (List Char) :=
  match mid.dropWhile isSpace with
  | [] => none
  | c :: cs =>
      if isSign c then
        match cs.dropWhile isSpace with
        | [] => none
        | _ :: more => some (more.dropWhile notSpace)
      else none

/- What a match of blanks and a token leaves. -/
def afterBearer (mid : List Char) : Option (List Char) :=
  match mid with
  | [] => none
  | c :: cs =>
      if isSpace c then
        match cs.dropWhile isSpace with
        | [] => none
        | d :: more =>
            if isTokenChar d then
              some (more.dropWhile isTokenChar)
            else none
      else none

theorem isSign_not_space
    {c : Char}
    (hSpace : isSpace c = true) :
    isSign c = false := by
  unfold isSign
  rw [decide_eq_false_iff_not]
  rintro (rfl | rfl)
  · exact absurd hSpace (by decide)
  · exact absurd hSpace (by decide)

theorem isAlphanum_toNat
    {c : Char}
    (hAlphanum : c.isAlphanum = true) :
    (48 ≤ c.toNat ∧ c.toNat ≤ 57) ∨
      (65 ≤ c.toNat ∧ c.toNat ≤ 90) ∨
      (97 ≤ c.toNat ∧ c.toNat ≤ 122) := by
  have hClasses :
      c.isAlphanum =
        (decide (c.val ≥ 'A'.val ∧ c.val ≤ 'Z'.val) ||
          (decide (c.val ≥ 'a'.val) &&
            decide (c.val ≤ 'z'.val)) || c.isDigit) :=
    rfl
  rw [hClasses] at hAlphanum
  simp only [Bool.or_eq_true, Bool.and_eq_true,
    decide_eq_true_iff, ge_iff_le, UInt32.le_iff_toNat_le,
    Char.isDigit_iff_toNat] at hAlphanum
  have hCode : c.val.toNat = c.toNat := rfl
  have hUpper : 'A'.val.toNat = 65 ∧ 'Z'.val.toNat = 90 :=
    ⟨rfl, rfl⟩
  have hLower : 'a'.val.toNat = 97 ∧ 'z'.val.toNat = 122 :=
    ⟨rfl, rfl⟩
  have hDigit : '0'.toNat = 48 ∧ '9'.toNat = 57 :=
    ⟨rfl, rfl⟩
  rw [hCode] at hAlphanum
  omega

/- A token is made of visible characters. -/
theorem isTokenChar_toNat
    {c : Char}
    (hToken : isTokenChar c = true) :
    (43 ≤ c.toNat ∧ c.toNat ≤ 57 ∨
      65 ≤ c.toNat ∧ c.toNat ≤ 126) ∨
      c.toNat ∈ [383, 8490, 304, 305] := by
  simp only [isTokenChar, isValueChar, List.mem_cons,
    List.not_mem_nil, or_false, decide_eq_true_iff] at hToken
  rcases hToken with
    (hAlphanum | rfl | rfl | rfl | rfl | rfl | rfl) |
      rfl | rfl | rfl | rfl
  · have hRange := isAlphanum_toNat hAlphanum
    omega
  all_goals decide

theorem isTokenChar_not_space
    {c : Char}
    (hToken : isTokenChar c = true) :
    isSpace c = false := by
  have hRange := isTokenChar_toNat hToken
  simp only [isSpace, decide_eq_false_iff_not]
  simp only [List.mem_cons, List.not_mem_nil, or_false]
    at hRange
  omega

theorem isTokenChar_not_sign
    {c : Char}
    (hToken : isTokenChar c = true) :
    isSign c = false := by
  have hRange := isTokenChar_toNat hToken
  simp only [isSign, decide_eq_false_iff_not]
  rintro (rfl | rfl)
  · exact absurd hRange (by decide)
  · exact absurd hRange (by decide)

theorem isValueChar_token
    {c : Char}
    (hValue : isValueChar c = true) :
    isTokenChar c = true := by
  unfold isTokenChar
  rw [decide_eq_true_iff]
  exact Or.inl hValue

theorem ends_plus_cons
    {p : Char → Bool}
    {c : Char}
    {cs : List Char} :
    (Pattern.plus p).ends (c :: cs) =
      if p c then starEnds p cs else [] := by
  unfold Pattern.plus
  simp only [Pattern.ends]
  by_cases hClass : p c = true
  · simp [hClass]
  · simp [hClass]

theorem head_ends_plus
    {p : Char → Bool}
    {c : Char}
    {cs : List Char}
    (hClass : p c = true) :
    ((Pattern.plus p).ends (c :: cs)).head? =
      some (cs.dropWhile p) := by
  rw [ends_plus_cons, if_pos hClass, head_starEnds]

/- Blanks before `\S+` are all skipped. -/
theorem ends_value (cs : List Char) :
    (Pattern.seq (.star isSpace) (.plus notSpace)).ends cs =
      (Pattern.plus notSpace).ends (cs.dropWhile isSpace) := by
  apply flatMap_starEnds
  intro c cs hSpace
  rw [ends_plus_cons, if_neg]
  simp [notSpace, hSpace]

theorem head_credential_ends (mid : List Char) :
    (credentialRule.rest.ends mid).head? =
      afterCredential mid := by
  have hSign :
      ∀ c cs,
        (Pattern.seq (.cls isSign)
            (.seq (.star isSpace) (.plus notSpace))).ends
              (c :: cs) =
          if isSign c then
            (Pattern.plus notSpace).ends
              (cs.dropWhile isSpace)
          else [] := by
    intro c cs
    rw [← ends_value]
    simp only [Pattern.ends]
    by_cases hClass : isSign c = true
    · simp [hClass]
    · simp [hClass]
  have hAll :
      credentialRule.rest.ends mid =
        (Pattern.seq (.cls isSign)
          (.seq (.star isSpace) (.plus notSpace))).ends
            (mid.dropWhile isSpace) := by
    apply flatMap_starEnds
    intro c cs hSpace
    rw [hSign, if_neg (by simp [isSign_not_space hSpace])]
  rw [hAll]
  unfold afterCredential
  cases hMid : mid.dropWhile isSpace with
  | nil => rfl
  | cons c cs =>
      rw [hSign]
      dsimp only
      split
      · cases hCs : cs.dropWhile isSpace with
        | nil => rfl
        | cons d more =>
            apply head_ends_plus
            have hHead :=
              List.head?_dropWhile_not isSpace cs
            rw [hCs] at hHead
            simpa [notSpace] using hHead
      · rfl

theorem head_bearer_ends (mid : List Char) :
    (bearerRule.rest.ends mid).head? = afterBearer mid := by
  have hSkip :
      ∀ cs,
        (starEnds isSpace cs).flatMap
            (Pattern.plus isTokenChar).ends =
          (Pattern.plus isTokenChar).ends
            (cs.dropWhile isSpace) := by
    apply flatMap_starEnds
    intro c cs hSpace
    rw [ends_plus_cons, if_neg]
    intro hToken
    rw [isTokenChar_not_space hToken] at hSpace
    cases hSpace
  unfold afterBearer
  cases mid with
  | nil => rfl
  | cons c cs =>
      change
        (((Pattern.plus isSpace).ends (c :: cs)).flatMap
          (Pattern.plus isTokenChar).ends).head? = _
      rw [ends_plus_cons]
      dsimp only
      by_cases hSpace : isSpace c = true
      · rw [if_pos hSpace, if_pos hSpace, hSkip]
        cases cs.dropWhile isSpace with
        | nil => rfl
        | cons d more =>
            rw [ends_plus_cons]
            dsimp only
            split
            · rw [head_starEnds]
            · rfl
      · rw [if_neg hSpace, if_neg hSpace]
        rfl

theorem credential_find_eq :
    credentialRule.find =
      findWords (keywords.map ignoreCase) afterCredential
        credentialRule.replace := by
  funext cs
  rw [← funext head_credential_ends]
  exact find_eq_findWords cs

theorem bearer_find_eq :
    bearerRule.find =
      findWords (["bearer"].map ignoreCase) afterBearer
        bearerRule.replace := by
  funext cs
  rw [← funext head_bearer_ends]
  exact find_eq_findWords cs

end PigBook.Delivery

------------------------------------------------------------
-- Secrets
------------------------------------------------------------

namespace PigBook.Delivery

open Regex OwnScope

/- A value that must not be seen. -/
structure Secret where
  text : List Char
  nonempty : text ≠ []
  chars : ∀ c ∈ text, isValueChar c = true

def Secret.probe : Secret where
  text := ['0']
  nonempty := List.cons_ne_nil '0' []
  chars := List.all_eq_true.mp (by decide)

/- A secret, and something that does not go on with it. -/
def BeforeBlank (v rest : List Char) : Prop :=
  (∃ secret : Secret, secret.text = v) ∧
    ∀ c ∈ rest.head?, isSpace c = true

def BeforeMark (v rest : List Char) : Prop :=
  (∃ secret : Secret, secret.text = v) ∧
    ∀ c ∈ rest.head?, isTokenChar c = false

/- A run of a class ends with the secret. -/
theorem dropWhile_run
    {p : Char → Bool}
    {v rest cs : List Char}
    (hAll : ∀ c ∈ cs, p c = true)
    (hValue : ∀ c ∈ v, p c = true)
    (hRest : ∀ c ∈ rest.head?, p c = false) :
    (cs ++ (v ++ rest)).dropWhile p = rest := by
  rw [List.dropWhile_append_of_pos hAll,
    List.dropWhile_append_of_pos hValue]
  cases rest with
  | nil => rfl
  | cons c rest =>
      apply List.dropWhile_cons_of_neg
      rw [hRest c rfl]
      decide

/- A run that ends before is the same whatever follows. -/
theorem dropWhile_ended
    {p : Char → Bool}
    {cs : List Char}
    (ys : List Char)
    (hSome : cs.dropWhile p ≠ []) :
    (cs ++ ys).dropWhile p = cs.dropWhile p ++ ys := by
  rw [List.dropWhile_append, if_neg]
  simp [hSome]

theorem forall_of_dropWhile_nil
    {p : Char → Bool}
    {cs : List Char}
    (hNil : cs.dropWhile p = []) :
    ∀ c ∈ cs, p c = true :=
  List.dropWhile_eq_nil_iff.mp hNil

theorem notSpace_of_space
    {rest : List Char}
    (hRest : ∀ c ∈ rest.head?, isSpace c = true) :
    ∀ c ∈ rest.head?, notSpace c = false := by
  intro c hc
  unfold notSpace
  rw [hRest c hc]
  rfl

namespace Secret

variable (secret : Secret)

theorem token :
    ∀ c ∈ secret.text, isTokenChar c = true := by
  intro c hc
  exact isValueChar_token (secret.chars c hc)

theorem visible :
    ∀ c ∈ secret.text, notSpace c = true := by
  intro c hc
  unfold notSpace
  rw [isTokenChar_not_space (secret.token c hc)]
  rfl

theorem exists_cons :
    ∃ d ds, secret.text = d :: ds ∧ isTokenChar d = true := by
  rcases List.exists_cons_of_ne_nil secret.nonempty with
    ⟨d, ds, hCons⟩
  refine ⟨d, ds, hCons, secret.token d ?_⟩
  rw [hCons]
  exact List.mem_cons_self

/- Blanks in front of a secret are skipped. -/
theorem dropWhile_blank
    {cs : List Char}
    (rest : List Char)
    (hAll : ∀ c ∈ cs, isSpace c = true) :
    (cs ++ (secret.text ++ rest)).dropWhile isSpace =
      secret.text ++ rest := by
  rcases secret.exists_cons with ⟨d, ds, hCons, hToken⟩
  rw [List.dropWhile_append_of_pos hAll, hCons,
    List.cons_append]
  apply List.dropWhile_cons_of_neg
  rw [isTokenChar_not_space hToken]
  decide

/- After its first character, the run goes on to the end. -/
theorem run_visible
    {rest : List Char}
    (hRest : ∀ c ∈ rest.head?, isSpace c = true) :
    (match secret.text ++ rest with
    | [] => none
    | _ :: more => some (more.dropWhile notSpace)) =
      some rest := by
  rcases secret.exists_cons with ⟨d, ds, hCons, -⟩
  have hVisible := secret.visible
  rw [hCons] at hVisible ⊢
  rw [List.cons_append]
  dsimp only
  have hRun :=
    dropWhile_run (List.forall_mem_nil _)
      (fun c hc => hVisible c (List.mem_cons_of_mem d hc))
      (notSpace_of_space hRest)
  rw [List.nil_append] at hRun
  rw [hRun]

theorem run_token
    {rest : List Char}
    (hRest : ∀ c ∈ rest.head?, isTokenChar c = false) :
    (match secret.text ++ rest with
    | [] => none
    | d :: more =>
        if isTokenChar d then
          some (more.dropWhile isTokenChar)
        else none) = some rest := by
  rcases secret.exists_cons with ⟨d, ds, hCons, hToken⟩
  have hAll := secret.token
  rw [hCons] at hAll ⊢
  rw [List.cons_append]
  dsimp only
  have hRun :=
    dropWhile_run (List.forall_mem_nil _)
      (fun c hc => hAll c (List.mem_cons_of_mem d hc))
      hRest
  rw [List.nil_append] at hRun
  rw [if_pos hToken, hRun]

end Secret

/- Either pattern's tail takes in a secret, or ignores it. -/
theorem afterCredential_takes
    (mid : List Char) :
    TailTakesInOrIgnores afterCredential BeforeBlank mid := by
  by_cases hMid : mid.dropWhile isSpace = []
  · -- The sign is still missing when the secret comes.
    right
    rintro v rest ⟨⟨secret, rfl⟩, hRest⟩
    rcases secret.exists_cons with ⟨d, ds, hCons, hToken⟩
    unfold afterCredential
    rw [secret.dropWhile_blank rest
      (forall_of_dropWhile_nil hMid), hMid, hCons]
    dsimp only [List.cons_append]
    rw [if_neg (by simp [isTokenChar_not_sign hToken])]
    rfl
  · rcases List.exists_cons_of_ne_nil hMid with ⟨c, cs, hCons⟩
    by_cases hSign : isSign c = true
    · by_cases hCs : cs.dropWhile isSpace = []
      · left
        rintro v rest ⟨⟨secret, rfl⟩, hRest⟩
        unfold afterCredential
        rw [dropWhile_ended _ hMid, hCons, List.cons_append]
        dsimp only
        rw [if_pos hSign, secret.dropWhile_blank rest
          (forall_of_dropWhile_nil hCs)]
        exact secret.run_visible hRest
      · rcases List.exists_cons_of_ne_nil hCs with
          ⟨d, more, hMore⟩
        by_cases hRun : more.dropWhile notSpace = []
        · left
          rintro v rest ⟨⟨secret, rfl⟩, hRest⟩
          unfold afterCredential
          rw [dropWhile_ended _ hMid, hCons, List.cons_append]
          dsimp only
          rw [if_pos hSign, dropWhile_ended _ hCs, hMore,
            List.cons_append]
          dsimp only
          rw [dropWhile_run (forall_of_dropWhile_nil hRun)
            secret.visible (notSpace_of_space hRest)]
        · right
          intro v rest hValue
          unfold afterCredential
          rw [dropWhile_ended _ hMid, hCons, List.cons_append]
          dsimp only
          rw [if_pos hSign, if_pos hSign,
            dropWhile_ended _ hCs, hMore, List.cons_append]
          dsimp only
          rw [dropWhile_ended _ hRun]
          rfl
    · right
      intro v rest hValue
      unfold afterCredential
      rw [dropWhile_ended _ hMid, hCons, List.cons_append]
      dsimp only
      rw [if_neg hSign, if_neg hSign]
      rfl

theorem afterBearer_takes
    (mid : List Char) :
    TailTakesInOrIgnores afterBearer BeforeMark mid := by
  cases mid with
  | nil =>
      right
      rintro v rest ⟨⟨secret, rfl⟩, hRest⟩
      rcases secret.exists_cons with ⟨d, ds, hCons, hToken⟩
      rw [hCons]
      unfold afterBearer
      dsimp only [List.nil_append, List.cons_append]
      rw [if_neg (by simp [isTokenChar_not_space hToken])]
      rfl
  | cons c cs =>
      by_cases hSpace : isSpace c = true
      · by_cases hCs : cs.dropWhile isSpace = []
        · left
          rintro v rest ⟨⟨secret, rfl⟩, hRest⟩
          unfold afterBearer
          dsimp only [List.cons_append]
          rw [if_pos hSpace, secret.dropWhile_blank rest
            (forall_of_dropWhile_nil hCs)]
          exact secret.run_token hRest
        · rcases List.exists_cons_of_ne_nil hCs with
            ⟨d, more, hMore⟩
          have hAppend :
              ∀ ys,
                afterBearer (c :: cs ++ ys) =
                  if isTokenChar d then
                    some ((more ++ ys).dropWhile isTokenChar)
                  else none := by
            intro ys
            unfold afterBearer
            dsimp only [List.cons_append]
            rw [if_pos hSpace, dropWhile_ended _ hCs, hMore,
              List.cons_append]
          have hAlone := hAppend []
          rw [List.append_nil, List.append_nil] at hAlone
          unfold TailTakesInOrIgnores
          simp only [hAppend, hAlone]
          by_cases hToken : isTokenChar d = true
          · simp only [if_pos hToken]
            by_cases hRun : more.dropWhile isTokenChar = []
            · left
              rintro v rest ⟨⟨secret, rfl⟩, hRest⟩
              rw [dropWhile_run (forall_of_dropWhile_nil hRun)
                secret.token hRest]
            · right
              intro v rest hValue
              rw [dropWhile_ended _ hRun]
              rfl
          · right
            intro v rest hValue
            rw [if_neg hToken, if_neg hToken]
            rfl
      · right
        intro v rest hValue
        unfold afterBearer
        dsimp only [List.cons_append]
        rw [if_neg hSpace, if_neg hSpace]
        rfl

/- Whatever matches a letter may stand in a token. -/
theorem sameLetter_token
    {x c : Char}
    (hLower : x.isLower = true)
    (hSame : sameLetter x c = true) :
    isTokenChar c = true := by
  simp only [sameLetter, decide_eq_true_iff] at hSame
  unfold isTokenChar
  rw [decide_eq_true_iff]
  rcases hSame with rfl | ⟨-, rfl⟩ | ⟨-, rfl⟩ | ⟨-, rfl | rfl⟩
  · left
    unfold isValueChar
    rw [decide_eq_true_iff]
    left
    by_cases hUpper : c.isUpper = true
    · simp [Char.isAlphanum, Char.isAlpha, hUpper]
    · have hSelf : c.toLower = c := by
        unfold Char.toLower
        apply dif_neg
        rintro ⟨hFrom, hUntil⟩
        apply hUpper
        unfold Char.isUpper
        exact decide_eq_true ⟨hFrom, hUntil⟩
      rw [hSelf] at hLower
      simp [Char.isAlphanum, Char.isAlpha, hLower]
  all_goals exact Or.inr (by decide)

/- Texts that do not end with a letter of a word. -/
def EndsPlain (text : List Char) : Prop :=
  ∀ z ∈ text.getLast?, isTokenChar z = false

theorem EndsPlain.ignoreCase
    {text : List Char}
    (hPlain : EndsPlain text)
    {w : String}
    (hLower : ∀ x ∈ w.toList, x.isLower = true) :
    ∀ p ∈ ignoreCase w, ∀ z ∈ text.getLast?, p z = false := by
  intro p hp z hz
  rcases List.mem_map.mp hp with ⟨x, hx, rfl⟩
  by_contra hNot
  have hToken :=
    sameLetter_token (hLower x hx)
      (Bool.eq_true_of_not_eq_false hNot)
  rw [hPlain z hz] at hToken
  cases hToken

theorem EndsPlain.suffix
    {text zs : List Char}
    (hPlain : EndsPlain text)
    (hSuffix : zs <:+ text) :
    EndsPlain zs := by
  rcases hSuffix with ⟨front, rfl⟩
  intro z hz
  apply hPlain z
  rw [Option.mem_def] at hz ⊢
  rw [List.getLast?_append, hz]
  rfl

theorem keywords_lower :
    ∀ w ∈ keywords, ∀ x ∈ w.toList, x.isLower = true := by
  have hAll :
      ∀ w ∈ keywords, w.toList.all Char.isLower = true := by
    decide
  intro w hw
  exact List.all_eq_true.mp (hAll w hw)

theorem bearer_lower :
    ∀ w ∈ ["bearer"], ∀ x ∈ w.toList, x.isLower = true := by
  intro w hw
  cases List.mem_singleton.mp hw
  exact List.all_eq_true.mp (by decide)

theorem length_dropWhile_le
    (p : Char → Bool)
    (cs : List Char) :
    (cs.dropWhile p).length ≤ cs.length :=
  (List.dropWhile_suffix p).length_le

theorem ignoreCase_ne_nil
    {words : List String}
    (hWords : ∀ w ∈ words, w.toList ≠ []) :
    ∀ w ∈ words.map ignoreCase, w ≠ [] := by
  intro w hw
  rcases List.mem_map.mp hw with ⟨word, hWord, rfl⟩
  intro hNil
  exact hWords word hWord (List.map_eq_nil_iff.mp hNil)

theorem credential_proper : Proper credentialRule.find := by
  rw [credential_find_eq]
  apply findWords_proper
  · exact ignoreCase_ne_nil (by decide)
  · intro mid rest hAfter
    have hMid := length_dropWhile_le isSpace mid
    unfold afterCredential at hAfter
    split at hAfter
    · cases hAfter
    · rename_i c cs hCons
      rw [hCons, List.length_cons] at hMid
      have hCs := length_dropWhile_le isSpace cs
      split at hAfter
      · split at hAfter
        · cases hAfter
        · rename_i d more hMore
          cases hAfter
          rw [hMore, List.length_cons] at hCs
          have hRun := length_dropWhile_le notSpace more
          omega
      · cases hAfter

theorem bearer_proper : Proper bearerRule.find := by
  rw [bearer_find_eq]
  apply findWords_proper
  · exact ignoreCase_ne_nil (by decide)
  · intro mid rest hAfter
    unfold afterBearer at hAfter
    split at hAfter
    · cases hAfter
    · rename_i c cs
      have hCs := length_dropWhile_le isSpace cs
      rw [List.length_cons]
      split at hAfter
      · split at hAfter
        · cases hAfter
        · rename_i d more hMore
          split at hAfter
          · cases hAfter
            rw [hMore, List.length_cons] at hCs
            have hRun := length_dropWhile_le isTokenChar more
            omega
          · cases hAfter
      · cases hAfter

variable {lead : List Char}

/-
  Where a secret comes in the middle of a credential's match,
  nothing depends on it; elsewhere the text before it is
  redacted for itself.
-/
theorem redactCredentials_secret
    (hPlain : EndsPlain lead)
    (secret : Secret)
    {rest : List Char}
    (hRest : ∀ c ∈ rest.head?, isSpace c = true) :
    redactCredentials (lead ++ (secret.text ++ rest)) =
      if inMatch credentialRule.find 0 (lead ++ ['0']) then
        redactCredentials (lead ++ ['0']) ++
          redactCredentials rest
      else
        redactCredentials lead ++
          redactCredentials (secret.text ++ rest) := by
  have hProbe : BeforeBlank ['0'] [] :=
    ⟨⟨.probe, rfl⟩, by simp⟩
  have hValue : BeforeBlank secret.text rest :=
    ⟨⟨secret, rfl⟩, hRest⟩
  unfold redactCredentials
  apply sub_value credential_proper hProbe _ (Nat.zero_le _)
    hValue
  intro zs hSome hSuffix
  rw [credential_find_eq]
  apply takesInOrIgnores_findWords hSome
  · intro w hw
    rcases List.mem_map.mp hw with ⟨word, hWord, rfl⟩
    exact
      (hPlain.suffix hSuffix).ignoreCase
        (keywords_lower word hWord)
  · exact afterCredential_takes

theorem redactBearer_secret
    (hPlain : EndsPlain lead)
    (secret : Secret)
    {rest : List Char}
    (hRest : ∀ c ∈ rest.head?, isTokenChar c = false) :
    redactBearer (lead ++ (secret.text ++ rest)) =
      if inMatch bearerRule.find 0 (lead ++ ['0']) then
        redactBearer (lead ++ ['0']) ++ redactBearer rest
      else
        redactBearer lead ++
          redactBearer (secret.text ++ rest) := by
  have hProbe : BeforeMark ['0'] [] :=
    ⟨⟨.probe, rfl⟩, by simp⟩
  have hValue : BeforeMark secret.text rest :=
    ⟨⟨secret, rfl⟩, hRest⟩
  unfold redactBearer
  apply sub_value bearer_proper hProbe _ (Nat.zero_le _) hValue
  intro zs hSome hSuffix
  rw [bearer_find_eq]
  apply takesInOrIgnores_findWords hSome
  · intro w hw
    rcases List.mem_map.mp hw with ⟨word, hWord, rfl⟩
    exact
      (hPlain.suffix hSuffix).ignoreCase
        (bearer_lower word hWord)
  · exact afterBearer_takes

end PigBook.Delivery

------------------------------------------------------------
-- Secrets That Are Not Reached
------------------------------------------------------------

namespace PigBook.Delivery

open Regex OwnScope

/- A suffix that makes a credential of a word before it. -/
def GoesOn (suffix : List Char) : Prop :=
  afterCredential suffix ≠ none

instance (suffix : List Char) : Decidable (GoesOn suffix) :=
  inferInstanceAs (Decidable (_ ≠ none))

/- A word that a blank follows ends before it. -/
theorem afterWord_before
    {w : List (Char → Bool)}
    {zs rest mid : List Char}
    (hRest : ∀ p ∈ w, ∀ c ∈ rest.head?, p c = false)
    (hAfter : afterWord w (zs ++ rest) = some mid) :
    ∃ zs', mid = zs' ++ rest ∧ zs' <:+ zs := by
  induction w generalizing zs with
  | nil =>
      cases hAfter
      exact ⟨zs, rfl, List.suffix_rfl⟩
  | cons p ps ih =>
      cases zs with
      | nil =>
          cases rest with
          | nil => cases hAfter
          | cons c rest =>
              rw [List.nil_append] at hAfter
              unfold afterWord at hAfter
              rw [hRest p List.mem_cons_self c rfl] at hAfter
              cases hAfter
      | cons z zs =>
          rw [List.cons_append] at hAfter
          unfold afterWord at hAfter
          split at hAfter
          · rcases
              ih
                (fun q hq => hRest q (List.mem_cons_of_mem p hq))
                hAfter with
              ⟨zs', hMid, hSuffix⟩
            exact
              ⟨zs', hMid, hSuffix.trans (List.suffix_cons z zs)⟩
          · cases hAfter

/- Neither blank nor sign begins a credential's tail. -/
theorem afterCredential_token
    {c : Char}
    {cs : List Char}
    (hToken : isTokenChar c = true) :
    afterCredential (c :: cs) = none := by
  unfold afterCredential
  rw [List.dropWhile_cons_of_neg
    (by simp [isTokenChar_not_space hToken])]
  dsimp only
  rw [if_neg (by simp [isTokenChar_not_sign hToken])]

/-
  A match in a secret is of a keyword at its end, with what
  comes after it.
-/
theorem credential_find_secret
    {zs rest text : List Char}
    {n : ℕ}
    (hToken : ∀ c ∈ zs, isTokenChar c = true)
    (hRest : ∀ c ∈ rest.head?, isSpace c = true)
    (hFind :
      credentialRule.find (zs ++ rest) = some (text, n)) :
    zs ≠ [] ∧ text = zs ++ "=[REDACTED]".toList ∧
      GoesOn rest := by
  rw [credential_find_eq] at hFind
  rcases List.exists_of_findSome?_eq_some hFind with
    ⟨w, hw, hMatch⟩
  rcases Option.bind_eq_some_iff.mp hMatch with
    ⟨mid, hAfter, hMap⟩
  rcases Option.map_eq_some_iff.mp hMap with ⟨r, hTail, hEq⟩
  have hBlank : ∀ p ∈ w, ∀ c ∈ rest.head?, p c = false := by
    intro p hp c hc
    rcases List.mem_map.mp hw with ⟨word, hWord, rfl⟩
    rcases List.mem_map.mp hp with ⟨x, hx, rfl⟩
    by_contra hNot
    have hSame :=
      sameLetter_token (keywords_lower word hWord x hx)
        (Bool.eq_true_of_not_eq_false hNot)
    have hSpace := hRest c hc
    rw [isTokenChar_not_space hSame] at hSpace
    cases hSpace
  rcases afterWord_before hBlank hAfter with
    ⟨zs', rfl, hSuffix⟩
  cases zs' with
  | cons z zs' =>
      have hz := hToken z (hSuffix.subset List.mem_cons_self)
      rw [List.cons_append, afterCredential_token hz] at hTail
      cases hTail
  | nil =>
      rw [List.nil_append] at hAfter hTail
      have hLength := (afterWord_length hAfter).1
      rw [List.length_append] at hLength
      have hTake : (zs ++ rest).take w.length = zs := by
        apply List.take_left'
        omega
      rw [Prod.mk.injEq, hTake] at hEq
      refine ⟨?_, hEq.1.symm, ?_⟩
      · intro hNil
        have hWord :=
          List.length_pos_of_ne_nil
            (ignoreCase_ne_nil (by decide) w hw)
        rw [hNil, List.length_nil] at hLength
        omega
      · unfold GoesOn
        rw [hTail]
        exact Option.some_ne_none r

/- A secret stands in front of what is made of the rest. -/
theorem redactCredentials_tokens
    {v rest : List Char}
    (hToken : ∀ c ∈ v, isTokenChar c = true)
    (hRest : ∀ c ∈ rest.head?, isSpace c = true) :
    ∃ rest',
      redactCredentials (v ++ rest) = v ++ rest' ∧
        (∀ c ∈ rest'.head?, isTokenChar c = false) ∧
        (¬ GoesOn rest → rest' = redactCredentials rest) := by
  induction v with
  | nil =>
      refine ⟨redactCredentials rest, rfl, ?_, fun _ => rfl⟩
      intro c hc
      cases rest with
      | nil => cases hc
      | cons d rest =>
          unfold redactCredentials at hc
          cases hFind : credentialRule.find (d :: rest) with
          | none =>
              rw [sub_of_none hFind] at hc
              rw [← Option.some.inj hc]
              by_contra hNot
              have hSpace := hRest d rfl
              rw [isTokenChar_not_space
                (Bool.eq_true_of_not_eq_false hNot)] at hSpace
              cases hSpace
          | some found =>
              have hNil :=
                credential_find_secret (List.forall_mem_nil _)
                  hRest hFind
              exact absurd rfl hNil.1
  | cons c v ih =>
      unfold redactCredentials at ih ⊢
      rw [List.cons_append]
      cases hFind : credentialRule.find (c :: (v ++ rest)) with
      | none =>
          rcases
            ih fun d hd => hToken d (List.mem_cons_of_mem c hd)
            with
            ⟨rest', hRest', hHead, hSame⟩
          refine ⟨rest', ?_, hHead, hSame⟩
          rw [sub_of_none hFind, hRest', List.cons_append]
      | some found =>
          rcases found with ⟨text, n⟩
          rw [← List.cons_append] at hFind
          rcases credential_find_secret hToken hRest hFind with
            ⟨-, rfl, hGoesOn⟩
          rw [List.cons_append] at hFind
          refine
            ⟨"=[REDACTED]".toList ++
              sub credentialRule.find (n - 1) (v ++ rest),
              ?_, ?_, fun hNot => absurd hGoesOn hNot⟩
          · rw [sub_of_some hFind, List.append_assoc,
              List.cons_append]
          · intro d hd
            cases hd
            decide

theorem bearer_find_other
    {c : Char}
    (hLetter : sameLetter 'b' c = false)
    (cs : List Char) :
    bearerRule.find (c :: cs) = none := by
  have hWord :
      ∃ ps, ignoreCase "bearer" = sameLetter 'b' :: ps :=
    ⟨_, rfl⟩
  rcases hWord with ⟨ps, hWord⟩
  rw [bearer_find_eq]
  unfold findWords
  rw [List.map_singleton, hWord, List.findSome?_singleton]
  unfold afterWord
  rw [hLetter]
  rfl

theorem redactBearer_other
    {c : Char}
    (hLetter : sameLetter 'b' c = false)
    (cs : List Char) :
    redactBearer (c :: cs) = c :: redactBearer cs :=
  sub_of_none (bearer_find_other hLetter cs)

/- Redacted texts end with a bracket, or as they were. -/
theorem endsPlain_redactCredentials
    {text : List Char}
    (hPlain : EndsPlain text) :
    EndsPlain (redactCredentials text) := by
  unfold redactCredentials
  apply sub_getLast _ hPlain
  intro cs text n hFind
  rw [credential_find_eq] at hFind
  rcases List.exists_of_findSome?_eq_some hFind with
    ⟨w, -, hMatch⟩
  rcases Option.bind_eq_some_iff.mp hMatch with ⟨mid, -, hMap⟩
  rcases Option.map_eq_some_iff.mp hMap with ⟨r, -, hEq⟩
  rw [Prod.mk.injEq] at hEq
  rw [← hEq.1]
  constructor
  · exact List.append_ne_nil_of_right_ne_nil _ (by decide)
  · intro z hz
    have hLast :
        ∀ keyword,
          (credentialRule.replace keyword).getLast? =
            some ']' := by
      intro keyword
      exact List.getLast?_append
    rw [hLast] at hz
    cases hz
    decide

/- A text that ends visibly is still seen once redacted. -/
theorem redactBearer_visible
    {text : List Char}
    (hSome : text ≠ [])
    (hVisible : ∀ z ∈ text.getLast?, isSpace (cleanChar z) = false) :
    ∃ z ∈ redactBearer text, isSpace (cleanChar z) = false := by
  have hText :
      ∀ cs found n,
        bearerRule.find cs = some (found, n) →
          found ≠ [] ∧
            ∀ z ∈ found.getLast?, isSpace (cleanChar z) = false := by
    intro cs found n hFind
    rw [bearer_find_eq] at hFind
    rcases List.exists_of_findSome?_eq_some hFind with
      ⟨w, -, hMatch⟩
    rcases Option.bind_eq_some_iff.mp hMatch with
      ⟨mid, -, hMap⟩
    rcases Option.map_eq_some_iff.mp hMap with ⟨r, -, hEq⟩
    rw [Prod.mk.injEq] at hEq
    rw [← hEq.1]
    have hLast :
        ∀ keyword,
          (bearerRule.replace keyword).getLast? = some ']' :=
      fun _ => rfl
    constructor
    · exact List.cons_ne_nil _ _
    · intro z hz
      rw [hLast] at hz
      cases hz
      decide
  have hNotNil :=
    sub_ne_nil (fun cs found n h => (hText cs found n h).1)
      hSome
  have hLast := sub_getLast hText hVisible 0
  rcases Option.ne_none_iff_exists'.mp
      (fun hNone =>
        hNotNil (List.getLast?_eq_none_iff.mp hNone)) with
    ⟨z, hz⟩
  exact ⟨z, List.mem_of_getLast? hz, hLast z hz⟩

end PigBook.Delivery

------------------------------------------------------------
-- Kept Texts
------------------------------------------------------------

namespace PigBook.Delivery

open Regex OwnScope

/- What is kept of a redacted text. -/
def kept (redacted : List Char) : List Char :=
  strip ((redacted.map cleanChar).take 500)

/- The blanks at the end, as `strip` removes them. -/
def stripRight (cs : List Char) : List Char :=
  (cs.reverse.dropWhile isSpace).reverse

theorem stripRight_front (cs : List Char) :
    stripRight cs <+: cs := by
  unfold stripRight
  rw [← List.reverse_suffix, List.reverse_reverse]
  exact List.dropWhile_suffix isSpace

/- Up to a visible character nothing is removed. -/
theorem stripRight_append
    {a : Char}
    (ha : isSpace a = false)
    (q t : List Char) :
    ∃ u, stripRight (q ++ a :: t) = q ++ a :: u := by
  unfold stripRight
  rw [List.reverse_append, List.reverse_cons,
    List.append_assoc, List.dropWhile_append]
  split
  · refine ⟨[], ?_⟩
    rw [List.singleton_append, List.dropWhile_cons_of_neg
      (by simp [ha])]
    simp
  · refine ⟨(t.reverse.dropWhile isSpace).reverse, ?_⟩
    simp

/- Texts with different characters in one place. -/
theorem strip_ne
    {q t t' : List Char}
    {a b : Char}
    (hNe : a ≠ b)
    (ha : isSpace a = false)
    (hb : isSpace b = false ∨ ∃ c ∈ q, isSpace c = false) :
    strip (q ++ a :: t) ≠ strip (q ++ b :: t') := by
  have hLeft :
      ∀ c cs,
        isSpace c = false ∨ (∃ c ∈ q, isSpace c = false) →
        (q ++ c :: cs).dropWhile isSpace =
          q.dropWhile isSpace ++ c :: cs := by
    intro c cs hSeen
    rw [List.dropWhile_append]
    split
    · rename_i hEmpty
      have hAll := forall_of_dropWhile_nil
        (List.isEmpty_iff.mp hEmpty)
      rcases hSeen with hc | ⟨d, hd, hVisible⟩
      · rw [List.isEmpty_iff.mp hEmpty, List.nil_append]
        exact List.dropWhile_cons_of_neg (by simp [hc])
      · rw [hAll d hd] at hVisible
        cases hVisible
    · rfl
  intro hEq
  have hStripped :
      stripRight (q.dropWhile isSpace ++ a :: t) =
        stripRight (q.dropWhile isSpace ++ b :: t') := by
    unfold strip at hEq
    rw [hLeft a t (Or.inl ha), hLeft b t' hb] at hEq
    exact hEq
  rcases stripRight_append ha (q.dropWhile isSpace) t with
    ⟨u, hu⟩
  have hPrefix :=
    stripRight_front (q.dropWhile isSpace ++ b :: t')
  rw [← hStripped, hu, List.prefix_append_right_inj,
    List.cons_prefix_cons] at hPrefix
  exact hNe hPrefix.1

/- What stands behind 500 characters is not kept. -/
theorem kept_eq
    {q t t' : List Char}
    (hLong : 500 ≤ q.length) :
    kept (q ++ t) = kept (q ++ t') := by
  unfold kept
  rw [List.map_append, List.map_append,
    List.take_append_of_le_length (by rwa [List.length_map]),
    List.take_append_of_le_length (by rwa [List.length_map])]

/- And what stands before is seen. -/
theorem kept_ne
    {q t t' : List Char}
    {a b : Char}
    (hShort : q.length < 500)
    (hNe : cleanChar a ≠ cleanChar b)
    (ha : isSpace (cleanChar a) = false)
    (hb : isSpace (cleanChar b) = false ∨
      ∃ c ∈ q, isSpace (cleanChar c) = false) :
    kept (q ++ a :: t) ≠ kept (q ++ b :: t') := by
  have hTake :
      ∀ c cs,
        ((q ++ c :: cs).map cleanChar).take 500 =
          q.map cleanChar ++
            cleanChar c ::
              (cs.map cleanChar).take (499 - q.length) := by
    intro c cs
    rw [List.map_append, List.take_append, List.length_map,
      List.take_of_length_le (by rw [List.length_map]; omega),
      List.map_cons]
    obtain ⟨k, hk⟩ : ∃ k, 500 - q.length = k + 1 :=
      ⟨499 - q.length, by omega⟩
    rw [hk, List.take_succ_cons]
    congr 3
    omega
  unfold kept
  rw [hTake, hTake]
  apply strip_ne hNe ha
  rcases hb with hb | ⟨c, hc, hVisible⟩
  · exact Or.inl hb
  · exact
      Or.inr
        ⟨cleanChar c, List.mem_map_of_mem hc, hVisible⟩

end PigBook.Delivery

------------------------------------------------------------
-- Fragments
------------------------------------------------------------

namespace PigBook.Delivery

open Regex OwnScope

/- The control characters of Unicode. -/
def isControl (c : Char) : Bool :=
  c.toNat < 32 ∨ (127 ≤ c.toNat ∧ c.toNat ≤ 159)

/- What may stand between a sign and a secret. -/
inductive Piece
  | space
  | control (c : Char) (hControl : isControl c = true)
  | bearer

def Piece.text : Piece → List Char
| space => [' ']
| control c _ => [c]
| bearer => "Bearer ".toList

/- What stands before a secret, and tells that it is one. -/
inductive Fragment
  | bearer
  | keyword
      (letters : List Char)
      (hLetters :
        ∃ w ∈ keywords, letters.map Char.toLower = w.toList)
      (sign : Char)
      (hSign : isSign sign = true)
      (gap : List Piece)

def Fragment.text : Fragment → List Char
| bearer => "Bearer ".toList
| keyword letters _ sign _ gap =>
    letters ++ sign :: gap.flatMap Piece.text

/- A text that is empty or ends with a blank. -/
structure Before where
  text : List Char
  blank : ∀ c ∈ text.getLast?, c = ' '

/- A text that is empty or begins with a blank. -/
structure After where
  text : List Char
  blank : ∀ c ∈ text.head?, c = ' '

def errorText
    (front : Before)
    (fragment : Fragment)
    (secret : Secret)
    (suffix : After) : String :=
  String.ofList
    (front.text ++ fragment.text ++ secret.text ++ suffix.text)

theorem isControl_not_token
    {c : Char}
    (hControl : isControl c = true) :
    isTokenChar c = false := by
  by_contra hNot
  have hRange :=
    isTokenChar_toNat (Bool.eq_true_of_not_eq_false hNot)
  simp only [isControl, decide_eq_true_iff] at hControl
  simp only [List.mem_cons, List.not_mem_nil, or_false]
    at hRange
  omega

theorem Piece.endsPlain (p : Piece) :
    ∃ z, p.text.getLast? = some z ∧ isTokenChar z = false := by
  cases p with
  | space => exact ⟨' ', rfl, by decide⟩
  | control c hControl =>
      exact ⟨c, rfl, isControl_not_token hControl⟩
  | bearer => exact ⟨' ', by decide, by decide⟩

theorem Fragment.endsPlain (fragment : Fragment) :
    ∃ z, fragment.text.getLast? = some z ∧
      isTokenChar z = false := by
  cases fragment with
  | bearer => exact ⟨' ', by decide, by decide⟩
  | keyword letters hLetters sign hSign gap =>
      unfold text
      rw [List.getLast?_append, List.getLast?_cons]
      induction gap using List.reverseRecOn with
      | nil =>
          refine ⟨sign, rfl, ?_⟩
          by_contra hNot
          rw [isTokenChar_not_sign
            (Bool.eq_true_of_not_eq_false hNot)] at hSign
          cases hSign
      | append_singleton gap p ih =>
          rcases p.endsPlain with ⟨z, hz, hPlain⟩
          refine ⟨z, ?_, hPlain⟩
          rw [List.flatMap_append, List.flatMap_singleton,
            List.getLast?_append, hz]
          rfl

/- The text before the secret. -/
def lead (front : Before) (fragment : Fragment) : List Char :=
  front.text ++ fragment.text

theorem endsPlain_lead
    (front : Before)
    (fragment : Fragment) :
    EndsPlain (lead front fragment) := by
  intro z hz
  rcases fragment.endsPlain with ⟨y, hy, hPlain⟩
  unfold lead at hz
  rw [List.getLast?_append, hy] at hz
  rw [← Option.some.inj hz]
  exact hPlain

end PigBook.Delivery

------------------------------------------------------------
-- The Text Before a Secret
------------------------------------------------------------

namespace PigBook.Delivery

open Regex OwnScope

/- The keyword that a credential keeps. -/
def credentialKeeps : Rule Char :=
  { credentialRule with replace := id }

/- Nothing is kept of what the second pattern matches. -/
def bearerKeeps : Rule Char :=
  { bearerRule with replace := fun _ => [] }

/- A match goes on where the text ends. -/
def opens (rule : Rule Char) (text : List Char) : Bool :=
  inMatch rule.find 0 (text ++ ['0'])

/-
  The parts of a text that the credentials leave, each but
  the last with the keyword of the credential after it.
-/
def parts (text : List Char) : List (List Char) :=
  stretches credentialKeeps.find 0 text

/-
  The room that a text takes: 17 characters for a match of
  the second pattern, and 11 after the keyword of a credential.
-/
def width (text : List Char) : ℕ :=
  ((parts text).map fun part =>
    spread 17 (stretches bearerKeeps.find 0 part)).sum +
    11 * ((parts text).length - 1)

/- Neither a digit nor a blank begins a keyword. -/
theorem credential_find_plain
    {c : Char}
    (hPlain : c = '0' ∨ c = ' ')
    (cs : List Char) :
    credentialRule.find (c :: cs) = none := by
  have hFirst :
      ∀ word ∈ keywords,
        ∃ x xs, word.toList = x :: xs ∧
          sameLetter x c = false := by
    intro word hWord
    rcases hPlain with rfl | rfl
    · revert word
      simp only [keywords, List.forall_mem_cons]
      exact
        ⟨⟨'p', _, rfl, by decide⟩, ⟨'p', _, rfl, by decide⟩,
          ⟨'p', _, rfl, by decide⟩, ⟨'s', _, rfl, by decide⟩,
          ⟨'t', _, rfl, by decide⟩, ⟨'a', _, rfl, by decide⟩,
          by simp⟩
    · revert word
      simp only [keywords, List.forall_mem_cons]
      exact
        ⟨⟨'p', _, rfl, by decide⟩, ⟨'p', _, rfl, by decide⟩,
          ⟨'p', _, rfl, by decide⟩, ⟨'s', _, rfl, by decide⟩,
          ⟨'t', _, rfl, by decide⟩, ⟨'a', _, rfl, by decide⟩,
          by simp⟩
  rw [credential_find_eq]
  unfold findWords
  rw [List.findSome?_eq_none_iff]
  intro w hw
  rcases List.mem_map.mp hw with ⟨word, hWord, rfl⟩
  rcases hFirst word hWord with ⟨x, xs, hCons, hNot⟩
  unfold ignoreCase
  rw [hCons, List.map_cons]
  unfold afterWord
  rw [hNot]
  rfl

/- The marks stand for what is not kept. -/
theorem credential_find_keeps (cs : List Char) :
    credentialRule.find cs =
      (credentialKeeps.find cs).map fun found =>
        (found.1 ++ "=[REDACTED]".toList, found.2) := by
  unfold Rule.find
  rw [Option.map_map]
  rfl

theorem bearer_find_keeps (cs : List Char) :
    bearerRule.find cs =
      (bearerKeeps.find cs).map fun found =>
        (found.1 ++ "Bearer [REDACTED]".toList, found.2) := by
  unfold Rule.find
  rw [Option.map_map]
  rfl

theorem redactCredentials_eq (text : List Char) :
    redactCredentials text =
      "=[REDACTED]".toList.intercalate (parts text) :=
  sub_eq_intercalate credential_find_keeps 0 text

/- The second pattern does not look into the first one's mark. -/
theorem bearer_separates :
    Separates bearerRule.find "=[REDACTED]".toList := by
  constructor
  · intro zs more hSome
    apply Rule.find_foreign zs
    · decide
    · decide
  · intro zs more hSome hSuffix
    cases zs with
    | nil => exact absurd rfl hSome
    | cons c zs =>
        apply bearer_find_other
        have hAll :
            "=[REDACTED]".toList.all
                (fun d => !(sameLetter 'b' d)) =
              true := by
          decide
        have hHere :=
          List.all_eq_true.mp hAll c
            (hSuffix.subset List.mem_cons_self)
        exact (Bool.not_eq_true' _).mp hHere

/- The length of a redacted text is seen before. -/
theorem length_redacted (text : List Char) :
    (redactBearer (redactCredentials text)).length =
      width text := by
  have hPart :
      ∀ part,
        (redactBearer part).length =
          spread 17 (stretches bearerKeeps.find 0 part) := by
    intro part
    unfold redactBearer
    rw [sub_eq_intercalate bearer_find_keeps,
      length_intercalate]
    rfl
  rw [redactCredentials_eq]
  unfold redactBearer at hPart ⊢
  rw [sub_intercalate bearer_separates bearer_proper,
    length_intercalate]
  unfold spread width
  rw [List.map_map, List.length_map]
  congr 2
  apply List.map_congr_left
  intro part hPartMem
  exact hPart part

/- Only after the last credential can a match be open. -/
theorem opens_redacted (text : List Char) :
    opens bearerRule (redactCredentials text) =
      opens bearerRule
        (lastStretch credentialKeeps.find text) := by
  unfold opens
  rw [redactCredentials_eq]
  exact
    inMatch_intercalate bearer_separates bearer_proper
      (parts text) (List.cons_ne_nil '0' [])

/- A digit in place of the secret belongs to no credential. -/
theorem redactCredentials_probe
    {lead : List Char}
    (hPlain : EndsPlain lead)
    (hOut : opens credentialRule lead = false) :
    redactCredentials (lead ++ ['0']) =
      redactCredentials lead ++ ['0'] := by
  have hNone :
      ∀ c ∈ ([] : List Char).head?, isSpace c = true := by
    simp
  have hProbe := redactCredentials_secret hPlain .probe hNone
  have hDigit : redactCredentials ['0'] = ['0'] :=
    sub_of_none (credential_find_plain (Or.inl rfl) [])
  unfold opens at hOut
  rw [hOut, List.append_nil] at hProbe
  rw [← hDigit]
  exact hProbe

end PigBook.Delivery

------------------------------------------------------------
-- Hidden Secrets
------------------------------------------------------------

namespace PigBook.Delivery

open Regex OwnScope

/-
  Either a credential goes on where the secret comes; or what
  stands after the last credential ends in an open match of
  the second pattern, and the suffix does not make a
  credential of the secret first; or the room is taken.
-/
def Hides (lead suffix : List Char) : Prop :=
  opens credentialRule lead = true ∨
    if opens bearerRule
        (lastStretch credentialKeeps.find lead) then
      ¬ GoesOn suffix ∨ 500 ≤ width (lead ++ ['0'])
    else
      500 ≤ width lead

instance (lead suffix : List Char) :
    Decidable (Hides lead suffix) :=
  inferInstanceAs (Decidable (_ ∨ ite _ _ _))

variable (front : Before) (fragment : Fragment)
variable (secret : Secret) (suffix : After)

theorem sanitize_errorText :
    sanitizeErrorCategory
        (errorText front fragment secret suffix) =
      String.ofList
        (kept
          (redactBearer
            (redactCredentials
              (lead front fragment ++
                (secret.text ++ suffix.text))))) := by
  have hSome :
      (errorText front fragment secret suffix).isEmpty =
        false := by
    unfold errorText
    rw [Bool.eq_false_iff]
    intro hEmpty
    have hNil := congrArg String.toList
      (String.isEmpty_iff.mp hEmpty)
    rw [String.toList_ofList] at hNil
    have hParts := List.append_eq_nil_iff.mp hNil
    exact
      secret.nonempty (List.append_eq_nil_iff.mp hParts.1).2
  unfold sanitizeErrorCategory
  rw [hSome]
  unfold errorText kept lead
  simp only [String.toList_ofList, List.append_assoc,
    Bool.false_eq_true, if_false]

theorem After.space :
    ∀ c ∈ suffix.text.head?, isSpace c = true := by
  intro c hc
  rw [suffix.blank c hc]
  decide

/- Where the first pattern has not begun a match. -/
theorem redacted_eq
    (hOut :
      inMatch credentialRule.find 0
        (lead front fragment ++ ['0']) = false) :
    ∃ rest,
      redactBearer
          (redactCredentials
            (lead front fragment ++
              (secret.text ++ suffix.text))) =
        (if inMatch bearerRule.find 0
            (redactCredentials (lead front fragment) ++
              ['0']) then
          redactBearer
              (redactCredentials (lead front fragment) ++
                ['0']) ++
            redactBearer rest
        else
          redactBearer
              (redactCredentials (lead front fragment)) ++
            redactBearer (secret.text ++ rest)) ∧
        redactCredentials (secret.text ++ suffix.text) =
          secret.text ++ rest ∧
        (¬ GoesOn suffix.text →
          rest = redactCredentials suffix.text) := by
  have hPlain := endsPlain_lead front fragment
  rcases
    redactCredentials_tokens secret.token suffix.space with
    ⟨rest, hRest, hHead, hSame⟩
  refine ⟨rest, ?_, hRest, hSame⟩
  rw [redactCredentials_secret hPlain secret suffix.space,
    hOut]
  simp only [Bool.false_eq_true, if_false]
  rw [hRest,
    redactBearer_secret (endsPlain_redactCredentials hPlain)
      secret hHead]

/- Secrets that are hidden leave no trace. -/
theorem sanitize_eq_of_hides
    (hHides : Hides (lead front fragment) suffix.text)
    (other : Secret) :
    sanitizeErrorCategory
        (errorText front fragment secret suffix) =
      sanitizeErrorCategory
        (errorText front fragment other suffix) := by
  have hPlain := endsPlain_lead front fragment
  rw [sanitize_errorText, sanitize_errorText]
  congr 1
  by_cases hIn :
      inMatch credentialRule.find 0
        (lead front fragment ++ ['0']) = true
  · rw [redactCredentials_secret hPlain secret suffix.space,
      redactCredentials_secret hPlain other suffix.space,
      if_pos hIn, if_pos hIn]
  · have hCases := hHides.resolve_left hIn
    rw [Bool.not_eq_true] at hIn
    rcases redacted_eq front fragment secret suffix hIn with
      ⟨rest, hEq, -, hRest⟩
    rcases redacted_eq front fragment other suffix hIn with
      ⟨rest', hEq', -, hRest'⟩
    rw [hEq, hEq']
    split at hCases
    · rename_i hBearer
      rw [← opens_redacted] at hBearer
      unfold opens at hBearer
      rw [if_pos hBearer, if_pos hBearer]
      rcases hCases with hStop | hLong
      · rw [hRest hStop, hRest' hStop]
      · rw [← length_redacted,
          redactCredentials_probe hPlain hIn] at hLong
        exact kept_eq hLong
    · rename_i hBearer
      rw [← opens_redacted] at hBearer
      unfold opens at hBearer
      rw [← length_redacted] at hCases
      rw [if_neg hBearer, if_neg hBearer]
      exact kept_eq hCases

def Secret.other : Secret where
  text := ['1']
  nonempty := List.cons_ne_nil '1' []
  chars := List.all_eq_true.mp (by decide)

def Secret.tokenWord : Secret where
  text := "token".toList
  nonempty := by decide
  chars := List.all_eq_true.mp (by decide)

/- A secret that is a keyword makes a credential. -/
theorem redactCredentials_token
    {rest : List Char}
    (hRest : ∀ c ∈ rest.head?, isSpace c = true)
    (hGoesOn : GoesOn rest) :
    ∃ more,
      redactCredentials (Secret.tokenWord.text ++ rest) =
        Secret.tokenWord.text ++ '=' :: more := by
  have hSome :
      (credentialRule.find
        (Secret.tokenWord.text ++ rest)).isSome := by
    rw [credential_find_eq]
    unfold findWords
    rw [List.findSome?_isSome_iff]
    refine ⟨ignoreCase "token", ?_, ?_⟩
    · exact List.mem_map_of_mem (by decide)
    · have hAfter :
          afterWord (ignoreCase "token")
            (Secret.tokenWord.text ++ rest) = some rest :=
        rfl
      rw [hAfter, Option.bind_some, Option.isSome_map]
      exact Option.isSome_iff_ne_none.mpr hGoesOn
  rcases Option.isSome_iff_exists.mp hSome with
    ⟨⟨text, n⟩, hFind⟩
  rcases
    credential_find_secret Secret.tokenWord.token hRest hFind
    with
    ⟨-, rfl, -⟩
  refine
    ⟨"[REDACTED]".toList ++
      sub credentialRule.find (n - 1)
        ("oken".toList ++ rest), ?_⟩
  exact sub_of_some hFind

theorem After.of_goesOn
    (hGoesOn : GoesOn suffix.text) :
    ∃ cs, suffix.text = ' ' :: cs := by
  cases hText : suffix.text with
  | nil =>
      rw [hText] at hGoesOn
      exact absurd rfl hGoesOn
  | cons c cs =>
      have hBlank := suffix.blank c (by rw [hText]; rfl)
      exact ⟨cs, by rw [hBlank]⟩

/- And secrets that are not hidden do. -/
theorem exists_sanitize_ne
    (hSeen : ¬ Hides (lead front fragment) suffix.text) :
    ∃ secret other : Secret,
      sanitizeErrorCategory
          (errorText front fragment secret suffix) ≠
        sanitizeErrorCategory
          (errorText front fragment other suffix) := by
  rcases not_or.mp hSeen with ⟨hIn, hCases⟩
  rw [Bool.not_eq_true] at hIn
  have hRedacted :=
    fun secret => redacted_eq front fragment secret suffix hIn
  split at hCases
  · -- The suffix makes a credential of one secret's end.
    rename_i hBearer
    rw [← opens_redacted] at hBearer
    unfold opens at hBearer
    rcases not_or.mp hCases with ⟨hGoesOn, hShort⟩
    rw [not_not] at hGoesOn
    rw [not_le, ← length_redacted,
      redactCredentials_probe (endsPlain_lead front fragment)
        hIn] at hShort
    refine ⟨.tokenWord, .probe, ?_⟩
    rw [sanitize_errorText, sanitize_errorText]
    rcases hRedacted .tokenWord with ⟨rest, hEq, hTail, -⟩
    rcases hRedacted .probe with ⟨rest', hEq', hTail', -⟩
    rw [hEq, hEq', if_pos hBearer, if_pos hBearer]
    rcases redactCredentials_token suffix.space hGoesOn with
      ⟨more, hMore⟩
    have hRest : rest = '=' :: more :=
      List.append_cancel_left (hTail.symm.trans hMore)
    have hRest' : rest' = redactCredentials suffix.text := by
      have hProbe :
          redactCredentials ('0' :: suffix.text) =
            '0' :: redactCredentials suffix.text :=
        sub_of_none
          (credential_find_plain (Or.inl rfl) suffix.text)
      exact (List.cons.inj (hTail'.symm.trans hProbe)).2
    rcases suffix.of_goesOn hGoesOn with ⟨cs, hSuffix⟩
    have hBlank :
        redactCredentials suffix.text =
          ' ' :: redactCredentials cs := by
      rw [hSuffix]
      exact
        sub_of_none (credential_find_plain (Or.inr rfl) cs)
    rw [hRest, hRest', hBlank,
      redactBearer_other (c := '=') (by decide),
      redactBearer_other (c := ' ') (by decide)]
    intro hSame
    have hSeen :=
      redactBearer_visible
        (List.append_ne_nil_of_right_ne_nil
          (redactCredentials (lead front fragment))
          (List.cons_ne_nil '0' []))
        (by
          intro z hz
          rw [List.getLast?_append] at hz
          rw [← Option.some.inj hz]
          decide)
    exact
      kept_ne hShort (by decide) (by decide) (Or.inr hSeen)
        (String.ofList_injective hSame)
  · rename_i hBearer
    rw [← opens_redacted] at hBearer
    unfold opens at hBearer
    rw [not_le, ← length_redacted] at hCases
    refine ⟨.probe, .other, ?_⟩
    rw [sanitize_errorText, sanitize_errorText]
    rcases hRedacted .probe with ⟨rest, hEq, -, -⟩
    rcases hRedacted .other with ⟨rest', hEq', -, -⟩
    rw [hEq, hEq', if_neg hBearer, if_neg hBearer]
    intro hSame
    have hKept := String.ofList_injective hSame
    have hZero :
        redactBearer (Secret.probe.text ++ rest) =
          '0' :: redactBearer rest :=
      redactBearer_other (by decide) rest
    have hOne :
        redactBearer (Secret.other.text ++ rest') =
          '1' :: redactBearer rest' :=
      redactBearer_other (by decide) rest'
    rw [hZero, hOne] at hKept
    exact
      kept_ne hCases (by decide) (by decide)
        (Or.inl (by decide)) hKept

/- A sanitized text is short and has no control characters. -/
theorem sanitize_bounds
    (error : String) :
    (sanitizeErrorCategory error).length ≤ 500 ∧
      ∀ c ∈ (sanitizeErrorCategory error).toList,
        32 ≤ c.toNat ∨ c = '\n' ∨ c = '\t' := by
  unfold sanitizeErrorCategory
  split
  · simp
  · generalize redactBearer (redactCredentials error.toList) =
      redacted
    have hSublist :
        List.Sublist
          (strip ((redacted.map cleanChar).take 500))
          ((redacted.map cleanChar).take 500) :=
      (stripRight_front _).sublist.trans
        (List.dropWhile_suffix isSpace).sublist
    constructor
    · have hLength := hSublist.length_le
      rw [List.length_take] at hLength
      rw [String.length_ofList]
      omega
    · intro c hc
      rw [String.toList_ofList] at hc
      rcases
        List.mem_map.mp
          (List.mem_of_mem_take (hSublist.subset hc)) with
        ⟨ch, -, rfl⟩
      unfold cleanChar
      split
      · rename_i hKept
        rcases hKept with hVisible | hNewline | hTab
        · exact Or.inl hVisible
        · exact Or.inr (Or.inl hNewline)
        · exact Or.inr (Or.inr hTab)
      · exact Or.inl (by decide)

/-
  No secret shows in what is kept of an error exactly if the
  text in front of it hides it.
-/
theorem sanitize_hides_iff
    (front : Before)
    (fragment : Fragment)
    (suffix : After) :
    (∀ secret other : Secret,
      sanitizeErrorCategory
          (errorText front fragment secret suffix) =
        sanitizeErrorCategory
          (errorText front fragment other suffix) ∧
      (sanitizeErrorCategory
        (errorText front fragment secret suffix)).length ≤ 500 ∧
      ∀ c ∈
        (sanitizeErrorCategory
          (errorText front fragment secret suffix)).toList,
        32 ≤ c.toNat ∨ c = '\n' ∨ c = '\t') ↔
      Hides (lead front fragment) suffix.text := by
  constructor
  · intro hAll
    by_contra hSeen
    rcases exists_sanitize_ne front fragment suffix hSeen with
      ⟨secret, other, hNe⟩
    exact hNe (hAll secret other).1
  · intro hHides secret other
    exact
      ⟨sanitize_eq_of_hides front fragment secret suffix hHides
          other,
        sanitize_bounds _⟩

example :
    Hides "SMTP login failed: password=".toList
      " for user admin".toList := by
  decide +kernel

/- A header that names its token and has a scheme. -/
def tokenHeader : Fragment :=
  .keyword "token".toList
    ⟨"token", by decide, by decide⟩
    ':' (by decide) [.space, .bearer]

def firstSecret : Secret where
  text := "eyJhbGci".toList
  nonempty := by decide
  chars := List.all_eq_true.mp (by decide)

def secondSecret : Secret where
  text := "c2VjcmV0".toList
  nonempty := by decide
  chars := List.all_eq_true.mp (by decide)

/- The word `Bearer` is redacted in place of the secret. -/
theorem tokenHeader_leaks :
    sanitizeErrorCategory
        (errorText ⟨[], nofun⟩ tokenHeader firstSecret
          ⟨[], nofun⟩) =
        "token=[REDACTED] eyJhbGci" ∧
      sanitizeErrorCategory
          (errorText ⟨[], nofun⟩ tokenHeader secondSecret
            ⟨[], nofun⟩) =
        "token=[REDACTED] c2VjcmV0" := by
  constructor
  · decide +kernel
  · decide +kernel

end PigBook.Delivery
