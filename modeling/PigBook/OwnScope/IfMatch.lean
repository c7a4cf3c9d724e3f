import PigBook.OwnScope.Routes

/-
  The grammar of the If-Match header.

  Key definitions include:
    * `quoted`
    * `MeetsGrammar`
    * `Overlong`

  Key theorems include:
    * `isVersion_iff`
    * `strongEtag_eq_some_iff`
    * `parseIfMatch_grammar`
-/

------------------------------------------------------------
-- Canonical Numerals
------------------------------------------------------------

namespace PigBook.OwnScope

/- A character that is a digit, by its value. -/
theorem digitChar_value
    {c : Char}
    (hDigit : c.isDigit = true) :
    c.toNat - '0'.toNat < 10 ∧
      Nat.digitChar (c.toNat - '0'.toNat) = c := by
  have hZero : '0'.toNat = 48 := rfl
  have hRange : 48 ≤ c.toNat ∧ c.toNat ≤ 57 := by
    unfold Char.isDigit at hDigit
    rw [Bool.and_eq_true, decide_eq_true_iff,
      decide_eq_true_iff] at hDigit
    exact hDigit
  constructor
  · omega
  · generalize hValue : c.toNat - '0'.toNat = d
    have hNat : c.toNat = 48 + d := by
      omega
    have hSmall : d < 10 := by
      omega
    apply Char.ext
    apply UInt32.toNat.inj
    change (Nat.digitChar d).toNat = c.toNat
    rw [hNat]
    have hAll :
        ∀ d < 10, (Nat.digitChar d).toNat = 48 + d := by
      decide
    exact hAll d hSmall

/- Digits after a positive number are its further digits. -/
theorem toDigits_append_digits
    {n : ℕ}
    (hPos : 0 < n)
    {cs : List Char}
    (hDigits : ∀ c ∈ cs, c.isDigit = true) :
    Nat.toDigits 10 n ++ cs =
      Nat.toDigits 10 (Nat.ofDigitChars 10 cs n) := by
  induction cs generalizing n with
  | nil => rw [List.append_nil, Nat.ofDigitChars_nil]
  | cons c cs ih =>
      rcases digitChar_value (hDigits c List.mem_cons_self) with
        ⟨hSmall, hChar⟩
      have hNext :
          Nat.toDigits 10 n ++ [c] =
            Nat.toDigits 10 (10 * n + (c.toNat - '0'.toNat)) := by
        rw [← Nat.toDigits_append_toDigits (by omega) hPos
          hSmall, Nat.toDigits_of_lt_base hSmall, hChar]
      rw [Nat.ofDigitChars_cons,
        ← ih (by omega)
          (fun x hx => hDigits x (List.mem_cons_of_mem _ hx)),
        ← hNext, List.append_assoc]
      rfl

/- The first digit of a positive number is not zero. -/
theorem head_toDigits
    {n : ℕ}
    (hPos : 0 < n) :
    (Nat.toDigits 10 n).head? ≠ some '0' := by
  induction n using Nat.strong_induction_on with
  | _ n ih =>
      by_cases hSmall : n < 10
      · rw [Nat.toDigits_of_lt_base hSmall]
        have hAll :
            ∀ d < 10, 0 < d →
              [Nat.digitChar d].head? ≠ some '0' := by
          decide
        exact hAll n hSmall hPos
      · rw [Nat.toDigits_of_base_le (by omega) (by omega),
          List.head?_append_of_ne_nil _ Nat.toDigits_ne_nil]
        apply ih
        · omega
        · omega

/- The numerals of the grammar, each with its number. -/
theorem isVersion_iff
    {digits : List Char}
    {n : ℕ} :
    isVersion digits = true ∧ decimal digits = n ↔
      digits = Nat.toDigits 10 n := by
  constructor
  · rintro ⟨hVersion, rfl⟩
    unfold isVersion at hVersion
    split at hVersion
    · cases hVersion
    · rfl
    · rename_i c cs hOther
      rcases of_decide_eq_true hVersion with ⟨hHead, hAll⟩
      have hDigits := List.all_eq_true.mp hAll
      rcases digitChar_value (hDigits c List.mem_cons_self) with
        ⟨hSmall, hChar⟩
      have hPos : 0 < c.toNat - '0'.toNat := by
        by_contra hNot
        have hNone : c.toNat - '0'.toNat = 0 := by
          omega
        rw [hNone] at hChar
        exact hHead hChar.symm
      have hRest :=
        toDigits_append_digits hPos
          (fun x hx => hDigits x (List.mem_cons_of_mem c hx))
      rw [Nat.toDigits_of_lt_base hSmall, hChar] at hRest
      change
        c :: cs =
          Nat.toDigits 10 (Nat.ofDigitChars 10 (c :: cs) 0)
      rw [Nat.ofDigitChars_cons, Nat.mul_zero, Nat.zero_add]
      exact hRest
  · rintro rfl
    constructor
    · have hDigits :
          ∀ c ∈ Nat.toDigits 10 n, c.isDigit = true :=
        fun c hMem =>
          Nat.isDigit_of_mem_toDigits (by omega) (by omega)
            hMem
      by_cases hZero : n = 0
      · rw [hZero]
        rfl
      · have hHead := head_toDigits (n := n) (by omega)
        unfold isVersion
        split
        · rename_i hNil
          exact absurd hNil Nat.toDigits_ne_nil
        · rfl
        · rename_i c cs hOther hSplit
          rw [hSplit] at hHead hDigits
          apply decide_eq_true
          constructor
          · intro hSame
            rw [hSame] at hHead
            exact hHead rfl
          · exact List.all_eq_true.mpr hDigits
    · exact Nat.ofDigitChars_ten_toDigits

end PigBook.OwnScope

------------------------------------------------------------
-- Strong Entity Tags
------------------------------------------------------------

namespace PigBook.OwnScope

/- Some characters between double quotes. -/
def quoted (cs : List Char) : List Char :=
  '"' :: (cs ++ ['"'])

theorem strongEtag_eq_some_iff
    {text digits : List Char} :
    strongEtag text = some digits ↔
      text = quoted digits ∧ isVersion digits = true := by
  unfold strongEtag quoted
  constructor
  · intro hSome
    split at hSome
    · rename_i rest
      split at hSome
      · rename_i reversed hReverse
        split_ifs at hSome with hVersion
        cases hSome
        refine ⟨?_, hVersion⟩
        rw [← List.reverse_reverse rest, hReverse,
          List.reverse_cons]
      · cases hSome
    · cases hSome
  · rintro ⟨rfl, hVersion⟩
    simp only [List.reverse_append, List.reverse_cons,
      List.reverse_nil, List.nil_append, List.cons_append,
      List.reverse_reverse, if_pos hVersion]

end PigBook.OwnScope

------------------------------------------------------------
-- The Header
------------------------------------------------------------

namespace PigBook.OwnScope

/-
  The header is parsed by the grammar: it gives the number of
  the canonical numeral between its quotes, or one of the two
  errors of the client.
-/
structure MeetsGrammar
    (headerValue : Option String) : Prop where
  numbers :
    ∀ n, parseIfMatch headerValue = .ok n ↔
      ∃ text, headerValue = some text ∧
        strip text.toList = quoted (Nat.toDigits 10 n)
  errors :
    ∀ response, parseIfMatch headerValue = .error response →
      response = preconditionRequired ∨
        response = invalidIfMatch

/- A canonical numeral that `int` does not convert. -/
def Overlong (headerValue : Option String) : Prop :=
  ∃ text n, headerValue = some text ∧
    strip text.toList = quoted (Nat.toDigits 10 n) ∧
    maxStrDigits < (Nat.toDigits 10 n).length

theorem quoted_injective
    {cs cs' : List Char}
    (hSame : quoted cs = quoted cs') :
    cs = cs' :=
  List.append_cancel_right (List.cons.inj hSame).2

/- What a header with a canonical numeral gives. -/
theorem parseIfMatch_numeral
    {text : String}
    {n : ℕ}
    (hText : strip text.toList = quoted (Nat.toDigits 10 n)) :
    parseIfMatch (some text) =
      if maxStrDigits < (Nat.toDigits 10 n).length then
        .error internalError
      else
        .ok n := by
  rcases isVersion_iff.mpr (rfl : _ = Nat.toDigits 10 n) with
    ⟨hVersion, hValue⟩
  have hTag :
      strongEtag (strip text.toList) =
        some (Nat.toDigits 10 n) :=
    strongEtag_eq_some_iff.mpr ⟨hText, hVersion⟩
  have hFull : strip text.toList ≠ [] := by
    rw [hText]
    exact List.cons_ne_nil _ _
  unfold parseIfMatch
  dsimp only
  rw [if_neg hFull, hTag]
  dsimp only
  rw [hValue]

/- Every other header is refused for what it is. -/
theorem parseIfMatch_other
    {headerValue : Option String}
    (hOther :
      ¬ ∃ text n, headerValue = some text ∧
        strip text.toList = quoted (Nat.toDigits 10 n)) :
    parseIfMatch headerValue = .error preconditionRequired ∨
      parseIfMatch headerValue = .error invalidIfMatch := by
  cases headerValue with
  | none => exact Or.inl rfl
  | some text =>
      unfold parseIfMatch
      dsimp only
      by_cases hBlank : strip text.toList = []
      · rw [if_pos hBlank]
        exact Or.inl rfl
      · rw [if_neg hBlank]
        cases hTag : strongEtag (strip text.toList) with
        | none => exact Or.inr rfl
        | some digits =>
            exfalso
            rcases strongEtag_eq_some_iff.mp hTag with
              ⟨hText, hVersion⟩
            apply hOther
            refine ⟨text, decimal digits, rfl, ?_⟩
            exact
              hText.trans
                (congrArg quoted
                  (isVersion_iff.mp ⟨hVersion, rfl⟩))

/- Only overlong numerals are not parsed by the grammar. -/
theorem meetsGrammar_iff
    (headerValue : Option String) :
    MeetsGrammar headerValue ↔ ¬ Overlong headerValue := by
  constructor
  · rintro hMeets ⟨text, n, rfl, hText, hLong⟩
    have hParsed := parseIfMatch_numeral hText
    rw [if_pos hLong] at hParsed
    rcases hMeets.errors _ hParsed with hSame | hSame
    · cases hSame
    · cases hSame
  · intro hShort
    by_cases hNumeral :
        ∃ text n, headerValue = some text ∧
          strip text.toList = quoted (Nat.toDigits 10 n)
    · rcases hNumeral with ⟨text, n, rfl, hText⟩
      have hParsed := parseIfMatch_numeral hText
      rw [if_neg
        (fun hLong => hShort ⟨text, n, rfl, hText, hLong⟩)]
        at hParsed
      constructor
      · intro m
        rw [hParsed]
        constructor
        · rintro ⟨⟩
          exact ⟨text, rfl, hText⟩
        · rintro ⟨text', hSome, hText'⟩
          cases hSome
          have hDigits :=
            quoted_injective (hText.symm.trans hText')
          have hValues :=
            congrArg (fun cs => Nat.ofDigitChars 10 cs 0)
              hDigits
          rw [Nat.ofDigitChars_ten_toDigits,
            Nat.ofDigitChars_ten_toDigits] at hValues
          rw [hValues]
      · intro response hError
        rw [hParsed] at hError
        cases hError
    · have hOther := parseIfMatch_other hNumeral
      constructor
      · intro n
        constructor
        · intro hParsed
          rw [hParsed] at hOther
          rcases hOther with hError | hError
          · cases hError
          · cases hError
        · rintro ⟨text, hSome, hText⟩
          exact absurd ⟨text, n, hSome, hText⟩ hNumeral
      · intro response hError
        rw [hError] at hOther
        rcases hOther with hSame | hSame
        · cases hSame
          exact Or.inl rfl
        · cases hSame
          exact Or.inr rfl

/- There is nothing to strip outside the quotes. -/
theorem strip_quoted
    (cs : List Char) :
    strip (quoted cs) = quoted cs := by
  have hQuote : isSpace '"' = false := by
    decide
  have hReverse : (quoted cs).reverse = quoted cs.reverse := by
    simp [quoted]
  have hDrop :
      ∀ cs, (quoted cs).dropWhile isSpace = quoted cs := by
    intro cs
    unfold quoted
    rw [List.dropWhile_cons_of_neg]
    rw [hQuote]
    exact Bool.false_ne_true
  unfold strip
  rw [hDrop, hReverse, hDrop, ← hReverse,
    List.reverse_reverse]

theorem etag_toList
    (version : ℕ) :
    (etag version).toList =
      quoted (Nat.toDigits 10 version) := by
  unfold etag quoted
  rw [Nat.toString_eq_repr, String.toList_append,
    String.toList_append, Nat.toList_repr]
  rfl

end PigBook.OwnScope

namespace PigBook

open OwnScope

/-
  A header is parsed by the grammar unless its numeral is too
  long for `int`, and so is the entity tag of every version.
-/
theorem parseIfMatch_grammar
    (headerValue : Option String)
    (version : ℕ) :
    (MeetsGrammar headerValue ↔ ¬ Overlong headerValue) ∧
      (parseIfMatch (some (etag version)) = .ok version ↔
        (Nat.toDigits 10 version).length ≤ maxStrDigits) := by
  constructor
  · exact meetsGrammar_iff headerValue
  · have hText :
        strip (etag version).toList =
          quoted (Nat.toDigits 10 version) := by
      rw [etag_toList, strip_quoted]
    rw [parseIfMatch_numeral hText]
    split_ifs with hLong
    · apply iff_of_false
      · intro hOk
        cases hOk
      · omega
    · apply iff_of_true
      · rfl
      · omega

/- A tag with 4301 ones between its quotes. -/
def longTag : String :=
  String.ofList (quoted (List.replicate 4301 '1'))

/- It is answered with an error of the server. -/
theorem longTag_not_parsed :
    parseIfMatch (some longTag) = .error internalError ∧
      ¬ MeetsGrammar (some longTag) := by
  have hVersion :
      isVersion (List.replicate 4301 '1') = true := by
    rw [List.replicate_succ]
    unfold isVersion
    apply decide_eq_true
    constructor
    · decide
    · rw [← List.replicate_succ, List.all_replicate]
      decide
  have hDigits := isVersion_iff.mp ⟨hVersion, rfl⟩
  have hText :
      strip longTag.toList =
        quoted
          (Nat.toDigits 10
            (decimal (List.replicate 4301 '1'))) := by
    unfold longTag
    rw [String.toList_ofList, strip_quoted, ← hDigits]
  have hLong :
      maxStrDigits <
        (Nat.toDigits 10
          (decimal (List.replicate 4301 '1'))).length := by
    rw [← hDigits, List.length_replicate]
    unfold maxStrDigits
    omega
  have hParsed := parseIfMatch_numeral hText
  rw [if_pos hLong] at hParsed
  constructor
  · exact hParsed
  · intro hMeets
    rcases hMeets.errors _ hParsed with hSame | hSame
    · cases hSame
    · cases hSame

end PigBook
