import PigBook.Idempotency.RequestHash

/-
  The strings of JSON texts can be read back.

  Key definitions include:
    * `hexNumber`
    * `readEscaped`

  Key theorems include:
    * `readEscaped_escapeChar`
    * `dumpsText_append_inj`
    * `uuidStr_injective`
-/

------------------------------------------------------------
-- Hexadecimal Digits
------------------------------------------------------------

namespace PigBook

def hexValue (c : Char) : ℕ :=
  if c.isDigit then c.toNat - 48 else c.toNat - 87

/- The number that hexadecimal digits denote. -/
def hexNumber (cs : List Char) : ℕ :=
  cs.foldl (fun n c => 16 * n + hexValue c) 0

theorem hexValue_digitChar
    {d : ℕ}
    (hDigit : d < 16) :
    hexValue (Nat.digitChar d) = d := by
  have hAll : ∀ d < 16, hexValue (Nat.digitChar d) = d := by
    decide
  exact hAll d hDigit

theorem hexNumber_append
    (cs : List Char)
    (c : Char) :
    hexNumber (cs ++ [c]) = 16 * hexNumber cs + hexValue c := by
  unfold hexNumber
  rw [List.foldl_append]
  rfl

theorem hexNumber_toDigits (n : ℕ) :
    hexNumber (Nat.toDigits 16 n) = n := by
  induction n using Nat.strong_induction_on with
  | _ n ih =>
      by_cases hSmall : n < 16
      · rw [Nat.toDigits_of_lt_base hSmall]
        change 16 * 0 + hexValue (Nat.digitChar n) = n
        rw [hexValue_digitChar hSmall]
        omega
      · have hDigit : n % 16 < 16 := Nat.mod_lt n (by omega)
        rw [Nat.toDigits_of_base_le (by omega) (by omega),
          hexNumber_append, ih (n / 16) (by omega),
          hexValue_digitChar hDigit]
        omega

/- Zeros in front do not count. -/
theorem hexNumber_zeros
    (k : ℕ)
    (cs : List Char) :
    hexNumber (List.replicate k '0' ++ cs) = hexNumber cs := by
  induction k with
  | zero => rfl
  | succ k ih =>
      rw [← ih, List.replicate_succ, List.cons_append]
      rfl

theorem length_hex4
    {n : ℕ}
    (hSmall : n < 65536) :
    (hex4 n).length = 4 := by
  have hLength : (Nat.toDigits 16 n).length ≤ 4 := by
    rw [Nat.length_toDigits_le_iff (by omega) (by omega)]
    exact hSmall
  unfold hex4
  rw [List.length_append, List.length_replicate]
  omega

theorem hexNumber_hex4 (n : ℕ) :
    hexNumber (hex4 n) = n := by
  unfold hex4
  rw [hexNumber_zeros, hexNumber_toDigits]

theorem hex4_take
    {n : ℕ}
    (hSmall : n < 65536)
    (rest : List Char) :
    hexNumber ((hex4 n ++ rest).take 4) = n := by
  rw [List.take_left' (length_hex4 hSmall), hexNumber_hex4]

theorem hex4_drop
    {n : ℕ}
    (hSmall : n < 65536)
    (rest : List Char) :
    (hex4 n ++ rest).drop 4 = rest :=
  List.drop_left' (length_hex4 hSmall)

end PigBook

------------------------------------------------------------
-- Escapes
------------------------------------------------------------

namespace PigBook

/- Read one character of a string, and what follows it. -/
def readEscaped : List Char → Option (Char × List Char)
| [] => none
| '\\' :: 'u' :: cs =>
    let n := hexNumber (cs.take 4)
    if 55296 ≤ n ∧ n < 56320 then
      let m := hexNumber ((cs.drop 6).take 4)
      some
        (Char.ofNat (65536 + (n - 55296) * 1024 + (m - 56320)),
          cs.drop 10)
    else
      some (Char.ofNat n, cs.drop 4)
| '\\' :: 'n' :: cs => some ('\n', cs)
| '\\' :: 'r' :: cs => some ('\r', cs)
| '\\' :: 't' :: cs => some ('\t', cs)
| '\\' :: 'b' :: cs => some (Char.ofNat 8, cs)
| '\\' :: 'f' :: cs => some (Char.ofNat 12, cs)
| '\\' :: c :: cs => some (c, cs)
| c :: cs => some (c, cs)

/- No character is a surrogate. -/
theorem not_surrogate (c : Char) :
    c.toNat < 55296 ∨
      57343 < c.toNat ∧ c.toNat < 1114112 :=
  c.valid

theorem readEscaped_plain
    {c : Char}
    (hPlain : c ≠ '\\')
    (rest : List Char) :
    readEscaped (c :: rest) = some (c, rest) := by
  unfold readEscaped
  split <;> simp_all

theorem readEscaped_unit
    {n : ℕ}
    (hSmall : n < 65536)
    (hPlain : ¬ (55296 ≤ n ∧ n < 56320))
    (rest : List Char) :
    readEscaped ('\\' :: 'u' :: (hex4 n ++ rest)) =
      some (Char.ofNat n, rest) := by
  simp only [readEscaped]
  rw [hex4_take hSmall, if_neg hPlain, hex4_drop hSmall]

theorem readEscaped_pair
    {n m : ℕ}
    (hHigh : 55296 ≤ n ∧ n < 56320)
    (hLow : m < 65536)
    (rest : List Char) :
    readEscaped
        ('\\' :: 'u' ::
          (hex4 n ++ '\\' :: 'u' :: (hex4 m ++ rest))) =
      some
        (Char.ofNat (65536 + (n - 55296) * 1024 + (m - 56320)),
          rest) := by
  have hSmall : n < 65536 := by omega
  have hDrop :
      ∀ k cs, (hex4 n ++ cs).drop (4 + k) = cs.drop k := by
    intro k cs
    rw [← List.drop_drop, hex4_drop hSmall]
  have hSix :
      (hex4 n ++ '\\' :: 'u' :: (hex4 m ++ rest)).drop 6 =
        hex4 m ++ rest :=
    hDrop 2 _
  have hTen :
      (hex4 n ++ '\\' :: 'u' :: (hex4 m ++ rest)).drop 10 =
        rest := by
    rw [hDrop 6]
    exact hex4_drop hLow rest
  simp only [readEscaped]
  rw [hex4_take hSmall, if_pos hHigh, hSix, hex4_take hLow,
    hTen]

/- Every character is read back from its escape. -/
theorem readEscaped_escapeChar
    (c : Char)
    (rest : List Char) :
    readEscaped (escapeChar c ++ rest) = some (c, rest) := by
  have hRange := not_surrogate c
  have hSelf : Char.ofNat c.toNat = c := Char.ofNat_toNat c
  unfold escapeChar
  dsimp only
  split_ifs with hQuote hSlash hNewline hReturn hTab hBack
    hFeed hPrint hUnit
  · rw [hQuote]
    rfl
  · rw [hSlash]
    rfl
  · rw [hNewline]
    rfl
  · rw [hReturn]
    rfl
  · rw [hTab]
    rfl
  · rw [← hSelf, hBack]
    rfl
  · rw [← hSelf, hFeed]
    rfl
  · exact readEscaped_plain hSlash rest
  · rw [List.cons_append, List.cons_append,
      readEscaped_unit hUnit (by omega), hSelf]
  · rw [List.append_assoc, List.cons_append, List.cons_append,
      List.cons_append, List.cons_append,
      readEscaped_pair (by omega) (by omega)]
    have hCode :
        65536 +
            (55296 + (c.toNat - 65536) / 1024 - 55296) * 1024 +
            (56320 + (c.toNat - 65536) % 1024 - 56320) =
          c.toNat := by
      omega
    rw [hCode, hSelf]

/- An escape does not begin as the end of a string does. -/
theorem escapeChar_cons (c : Char) :
    ∃ x xs, escapeChar c = x :: xs ∧ x ≠ '"' := by
  have hSlash : '\\' ≠ '"' := by decide
  unfold escapeChar
  dsimp only
  split_ifs with hQuote
  all_goals try exact ⟨_, _, rfl, hSlash⟩
  exact ⟨c, [], rfl, hQuote⟩

theorem escapeChar_append_ne
    (c : Char)
    (rest more : List Char) :
    escapeChar c ++ rest ≠ '"' :: more := by
  rcases escapeChar_cons c with ⟨x, xs, hCons, hNe⟩
  rw [hCons, List.cons_append]
  intro hEq
  exact hNe (List.cons.inj hEq).1

/- The escaped text can be split off in front of a quote. -/
theorem escapes_append_inj
    {cs cs' : List Char}
    {rest rest' : List Char}
    (hEq :
      cs.flatMap escapeChar ++ '"' :: rest =
        cs'.flatMap escapeChar ++ '"' :: rest') :
    cs = cs' ∧ rest = rest' := by
  induction cs generalizing cs' with
  | nil =>
      cases cs' with
      | nil => exact ⟨rfl, (List.cons.inj hEq).2⟩
      | cons c' cs' =>
          rw [List.flatMap_cons, List.append_assoc] at hEq
          exact
            absurd hEq.symm (escapeChar_append_ne c' _ _)
  | cons c cs ih =>
      rw [List.flatMap_cons, List.append_assoc] at hEq
      cases cs' with
      | nil => exact absurd hEq (escapeChar_append_ne c _ _)
      | cons c' cs' =>
          rw [List.flatMap_cons, List.append_assoc] at hEq
          have hRead := congrArg readEscaped hEq
          rw [readEscaped_escapeChar, readEscaped_escapeChar,
            Option.some.injEq, Prod.mk.injEq] at hRead
          rcases ih hRead.2 with ⟨rfl, hRest⟩
          exact ⟨by rw [hRead.1], hRest⟩

theorem toList_dumpsText (text : String) :
    (dumpsText text).toList =
      '"' :: (text.toList.flatMap escapeChar ++ ['"']) := by
  unfold dumpsText
  rw [String.toList_append, String.toList_append,
    String.toList_ofList, String.toList_ofList,
    List.append_assoc]
  rfl

/- A dumped text can be split off in front of anything. -/
theorem dumpsText_append_inj
    {text text' : String}
    {rest rest' : List Char}
    (hEq :
      (dumpsText text).toList ++ rest =
        (dumpsText text').toList ++ rest') :
    text = text' ∧ rest = rest' := by
  rw [toList_dumpsText, toList_dumpsText, List.cons_append,
    List.cons_append, List.cons.injEq, List.append_assoc,
    List.append_assoc] at hEq
  rcases escapes_append_inj hEq.2 with ⟨hText, hRest⟩
  exact ⟨String.toList_injective hText, hRest⟩

end PigBook

------------------------------------------------------------
-- Texts of UUIDs
------------------------------------------------------------

namespace PigBook

/- Digits in front of which there may be zeros. -/
theorem digit_of_mem
    {n k : ℕ}
    {c : Char}
    (hMem :
      c ∈ List.replicate k '0' ++ Nat.toDigits 16 n) :
    ∃ d < 16, c = Nat.digitChar d := by
  rcases List.mem_append.mp hMem with hZero | hDigit
  · rw [List.eq_of_mem_replicate hZero]
    exact ⟨0, by decide, rfl⟩
  · induction n using Nat.strong_induction_on with
    | _ n ih =>
        by_cases hSmall : n < 16
        · rw [Nat.toDigits_of_lt_base hSmall,
            List.mem_singleton] at hDigit
          exact ⟨n, hSmall, hDigit⟩
        · rw [Nat.toDigits_of_base_le (by omega) (by omega),
            List.mem_append, List.mem_singleton] at hDigit
          rcases hDigit with hOthers | hLast
          · exact
              ih (n / 16) (by omega)
                (List.mem_append_right _ hOthers) hOthers
          · exact ⟨n % 16, Nat.mod_lt n (by omega), hLast⟩

theorem digitChar_ne_hyphen
    {d : ℕ}
    (hDigit : d < 16) :
    Nat.digitChar d ≠ '-' := by
  have hAll : ∀ d < 16, Nat.digitChar d ≠ '-' := by
    decide
  exact hAll d hDigit

/- The hyphens of a UUID are all that is not a digit. -/
theorem filter_uuidStr (u : Uuid) :
    u.str.toList.filter (· ≠ '-') =
      List.replicate (32 - (Nat.toDigits 16 u.val).length) '0' ++
        Nat.toDigits 16 u.val := by
  unfold Uuid.str
  rw [String.toList_ofList]
  generalize hHex :
    List.replicate (32 - (Nat.toDigits 16 u.val).length) '0' ++
      Nat.toDigits 16 u.val = hex
  have hAll : ∀ c ∈ hex, c ≠ '-' := by
    intro c hMem
    rw [← hHex] at hMem
    rcases digit_of_mem hMem with ⟨d, hDigit, rfl⟩
    exact digitChar_ne_hyphen hDigit
  have hPiece :
      ∀ cs : List Char, (∀ c ∈ cs, c ∈ hex) →
        cs.filter (fun c => decide (c ≠ '-')) = cs := by
    intro cs hSub
    apply List.filter_eq_self.mpr
    intro c hMem
    exact decide_eq_true (hAll c (hSub c hMem))
  have hSlice :
      ∀ k l,
        ((hex.drop k).take l).filter
            (fun c => decide (c ≠ '-')) =
          (hex.drop k).take l := by
    intro k l
    apply hPiece
    intro c hMem
    exact List.mem_of_mem_drop (List.mem_of_mem_take hMem)
  have hHyphen :
      ∀ cs : List Char,
        ('-' :: cs).filter (fun c => decide (c ≠ '-')) =
          cs.filter (fun c => decide (c ≠ '-')) :=
    fun cs => rfl
  have hJoin :
      ∀ k,
        (hex.drop k).take 4 ++ hex.drop (k + 4) = hex.drop k := by
    intro k
    rw [← List.drop_drop, List.take_append_drop]
  have hStart := hSlice 0 8
  have hEnd : (hex.drop 20).filter
      (fun c => decide (c ≠ '-')) = hex.drop 20 := by
    apply hPiece
    intro c hMem
    exact List.mem_of_mem_drop hMem
  rw [List.drop_zero] at hStart
  simp only [List.filter_append, hHyphen, hSlice, hStart, hEnd,
    List.append_assoc]
  rw [hJoin 16, hJoin 12, hJoin 8, List.take_append_drop]

theorem uuidStr_injective :
    Function.Injective Uuid.str := by
  intro u u' hEq
  have hDigits :
      u.str.toList.filter (· ≠ '-') =
        u'.str.toList.filter (· ≠ '-') := by
    rw [hEq]
  rw [filter_uuidStr, filter_uuidStr] at hDigits
  have hNumber := congrArg hexNumber hDigits
  rw [hexNumber_zeros, hexNumber_zeros, hexNumber_toDigits,
    hexNumber_toDigits] at hNumber
  exact Fin.ext hNumber

end PigBook
