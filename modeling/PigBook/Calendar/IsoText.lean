import PigBook.Calendar.Civil

/-
  Texts of instants, in the form `YYYY-MM-DDTHH:mm:ss.sssZ`
  or with six digits of the second's fraction.

  Instants are milliseconds since 1970-01-01T00:00:00Z.

  Key definitions include:
    * `digits`, `readDigits`
    * `isoText`, `isoTextMicro`, `readIso`

  Key theorems include:
    * `readDigits_digits`
    * `readIso_isoText`
    * `readIso_isoTextMicro`
-/

------------------------------------------------------------
-- Digits
------------------------------------------------------------

namespace Calendar

/- The last `w` decimal digits of a number. -/
def digits : ℕ → ℕ → List Char
| 0, _ => []
| w + 1, n => digits w (n / 10) ++ [Nat.digitChar (n % 10)]

/- The value of a digit. -/
def digitValue (c : Char) : Option ℕ :=
  if c.isDigit then some (c.toNat - '0'.toNat) else none

/- Read `w` digits after those that have the value `n`. -/
def readDigits : ℕ → ℕ → List Char → Option (ℕ × List Char)
| 0, n, cs => some (n, cs)
| _ + 1, _, [] => none
| w + 1, n, c :: cs =>
    (digitValue c).bind (fun v => readDigits w (10 * n + v) cs)

/- Read a number of `w` digits and the character after it. -/
def readNumber
    (w : ℕ)
    (c : Char)
    (cs : List Char) : Option (ℕ × List Char) :=
  (readDigits w 0 cs).bind (fun
    | (_, []) => none
    | (n, c' :: rest) =>
        if c' = c then some (n, rest) else none)

theorem digitValue_digitChar
    {n : ℕ}
    (hDigit : n < 10) :
    digitValue (Nat.digitChar n) = some n := by
  interval_cases n <;> decide

/- The last of some digits, after the others. -/
theorem readDigits_succ
    {w n n' : ℕ}
    {cs cs' : List Char}
    (hOthers : readDigits w n cs = some (n', cs')) :
    readDigits (w + 1) n cs = readDigits 1 n' cs' := by
  induction w generalizing n cs with
  | zero =>
      cases hOthers
      rfl
  | succ w ih =>
      cases cs with
      | nil => cases hOthers
      | cons c cs =>
          rcases Option.bind_eq_some_iff.mp hOthers with
            ⟨v, hValue, hRest⟩
          have hNext := ih hRest
          rw [← hNext]
          simp [readDigits, hValue]

theorem readDigits_digits
    (w n : ℕ)
    {m : ℕ}
    (rest : List Char)
    (hDigits : m < 10 ^ w) :
    readDigits w n (digits w m ++ rest) =
      some (n * 10 ^ w + m, rest) := by
  induction w generalizing m rest with
  | zero =>
      have hZero : m = 0 := by simpa using hDigits
      subst hZero
      simp [digits, readDigits]
  | succ w ih =>
      rw [pow_succ] at hDigits
      have hRest : m / 10 < 10 ^ w := by omega
      have hLast : m % 10 < 10 := Nat.mod_lt _ (by omega)
      unfold digits
      rw [List.append_assoc, readDigits_succ (ih _ hRest)]
      simp only [List.cons_append, List.nil_append, readDigits,
        digitValue_digitChar hLast, Option.bind_some,
        Option.some.injEq, Prod.mk.injEq, and_true]
      rw [pow_succ, ← mul_assoc]
      omega

theorem readNumber_digits
    (w : ℕ)
    {m : ℕ}
    (c : Char)
    (rest : List Char)
    (hDigits : m < 10 ^ w) :
    readNumber w c (digits w m ++ c :: rest) =
      some (m, rest) := by
  unfold readNumber
  rw [readDigits_digits w 0 _ hDigits]
  simp

end Calendar

------------------------------------------------------------
-- Instants
------------------------------------------------------------

namespace Calendar

def msPerDay : ℤ := 86400000

/- The instants of the years before `y`. -/
def timeFromYear (y : ℤ) : ℤ :=
  dayFromYear y * msPerDay

/- The fields of an instant. -/
structure Fields where
  date : Date
  hour : ℕ
  minute : ℕ
  second : ℕ
  millisecond : ℕ
deriving DecidableEq

def fields (t : ℤ) : Fields where
  date := dateFromDay (t / msPerDay)
  hour := (t / 3600000 % 24).toNat
  minute := (t / 60000 % 60).toNat
  second := (t / 1000 % 60).toNat
  millisecond := (t % 1000).toNat

/- The instant that fields denote. -/
def Fields.time (x : Fields) : ℤ :=
  x.date.day * msPerDay + x.hour * 3600000 +
    x.minute * 60000 + x.second * 1000 + x.millisecond

theorem time_fields (t : ℤ) :
    (fields t).time = t := by
  unfold fields Fields.time
  dsimp only
  rw [day_dateFromDay]
  unfold msPerDay
  omega

/- The fields that texts may have. -/
def Fields.Valid (x : Fields) : Prop :=
  (1 ≤ x.date.month ∧ x.date.month ≤ 12) ∧
  (1 ≤ x.date.dayOfMonth ∧ x.date.dayOfMonth ≤ 31) ∧
  x.hour ≤ 23 ∧ x.minute ≤ 59 ∧ x.second ≤ 59

instance (x : Fields) : Decidable x.Valid :=
  inferInstanceAs (Decidable (_ ∧ _))

theorem fields_valid (t : ℤ) :
    (fields t).Valid := by
  have hDate := dateFromDay_wellFormed (t / msPerDay)
  refine ⟨hDate.month, hDate.day, ?_⟩
  unfold fields
  dsimp only
  omega

end Calendar

------------------------------------------------------------
-- Texts
------------------------------------------------------------

namespace Calendar

/- The year of a text: it has a sign outside 0 to 9999. -/
def yearText (y : ℤ) : List Char :=
  if 0 ≤ y ∧ y ≤ 9999 then digits 4 y.toNat
  else (if y < 0 then '-' else '+') :: digits 6 y.natAbs

/- The text of the fields up to the seconds. -/
def secondsText (x : Fields) (rest : List Char) : List Char :=
  yearText x.date.year ++ '-' ::
    (digits 2 x.date.month ++ '-' ::
    (digits 2 x.date.dayOfMonth ++ 'T' ::
    (digits 2 x.hour ++ ':' ::
    (digits 2 x.minute ++ ':' ::
    (digits 2 x.second ++ rest)))))

def isoText (t : ℤ) : List Char :=
  let x := fields t
  secondsText x ('.' :: (digits 3 x.millisecond ++ ['Z']))

/- The text of an instant in microseconds. -/
def isoTextMicro (t : ℤ) : List Char :=
  secondsText (fields (t / 1000))
    ('.' :: (digits 6 (t % 1000000).toNat ++ ['Z']))

/- Of a fraction, digits after the third are ignored. -/
def readFraction : List Char → Option ℕ
| '.' :: cs =>
    (readDigits 3 0 cs).bind (fun (n, rest) =>
      if rest.dropWhile Char.isDigit = ['Z'] then some n
      else none)
| _ => none

/- The fields of a text with a year of four digits. -/
def readFields (cs : List Char) : Option Fields := do
  let (year, cs) ← readNumber 4 '-' cs
  let (month, cs) ← readNumber 2 '-' cs
  let (dayOfMonth, cs) ← readNumber 2 'T' cs
  let (hour, cs) ← readNumber 2 ':' cs
  let (minute, cs) ← readNumber 2 ':' cs
  let (second, cs) ← readDigits 2 0 cs
  let millisecond ← readFraction cs
  return {
    date := ⟨year, month, dayOfMonth⟩
    hour := hour
    minute := minute
    second := second
    millisecond := millisecond
  }

/- The instant of such a text. -/
def readIso (cs : List Char) : Option ℤ :=
  (readFields cs).bind (fun x =>
    if x.Valid then some x.time else none)

theorem isDigit_digitChar
    {n : ℕ}
    (hDigit : n < 10) :
    (Nat.digitChar n).isDigit = true := by
  interval_cases n <;> decide

theorem isDigit_of_mem_digits
    {w n : ℕ}
    {c : Char}
    (hMem : c ∈ digits w n) :
    c.isDigit = true := by
  induction w generalizing n with
  | zero => cases hMem
  | succ w ih =>
      rcases List.mem_append.mp hMem with hRest | hLast
      · exact ih hRest
      · cases List.mem_singleton.mp hLast
        exact isDigit_digitChar (Nat.mod_lt _ (by omega))

/- The last digits stand after those before them. -/
theorem digits_add (w w' n : ℕ) :
    digits (w + w') n =
      digits w (n / 10 ^ w') ++ digits w' n := by
  induction w' generalizing n with
  | zero => simp [digits]
  | succ w' ih =>
      rw [← Nat.add_assoc, digits, digits, ih,
        Nat.div_div_eq_div_mul, ← Nat.pow_succ',
        List.append_assoc]

theorem readFraction_digits
    {m : ℕ}
    {more : List Char}
    (hDigits : m < 10 ^ 3)
    (hMore : ∀ c ∈ more, c.isDigit = true) :
    readFraction ('.' :: (digits 3 m ++ (more ++ ['Z']))) =
      some m := by
  have hDrop :
      (more ++ ['Z']).dropWhile Char.isDigit = ['Z'] := by
    rw [List.dropWhile_append_of_pos hMore]
    rfl
  simp only [readFraction]
  rw [readDigits_digits 3 0 _ hDigits]
  simp [hDrop]

/- Whatever follows the seconds is read as the fraction. -/
theorem readFields_secondsText
    {x : Fields}
    {rest : List Char}
    (hValid : x.Valid)
    (hYear : 0 ≤ x.date.year ∧ x.date.year ≤ 9999)
    (hFraction : readFraction rest = some x.millisecond) :
    readFields (secondsText x rest) = some x := by
  rcases x with ⟨⟨year, month, dayOfMonth⟩, hour, minute,
    second, millisecond⟩
  dsimp only [Fields.Valid] at *
  rcases hValid with ⟨hMonth, hDay, hHour, hMinute, hSecond⟩
  have hCast : (year.toNat : ℤ) = year :=
    Int.toNat_of_nonneg hYear.1
  unfold secondsText readFields
  dsimp only
  rw [yearText, if_pos hYear,
    readNumber_digits 4 _ _ (by omega)]
  dsimp only [Option.bind_eq_bind, Option.bind_some]
  rw [readNumber_digits 2 _ _ (by omega)]
  dsimp only [Option.bind_some]
  rw [readNumber_digits 2 _ _ (by omega)]
  dsimp only [Option.bind_some]
  rw [readNumber_digits 2 _ _ (by omega)]
  dsimp only [Option.bind_some]
  rw [readNumber_digits 2 _ _ (by omega)]
  dsimp only [Option.bind_some]
  rw [readDigits_digits 2 0 _ (by omega)]
  dsimp only [Option.bind_some]
  rw [hFraction, hCast, Nat.zero_mul, Nat.zero_add]
  rfl

/- The instants of these years have years of four digits. -/
theorem fields_year
    {t : ℤ}
    (hStart : timeFromYear 0 ≤ t)
    (hEnd : t < timeFromYear 10000) :
    0 ≤ (fields t).date.year ∧
      (fields t).date.year ≤ 9999 := by
  unfold timeFromYear msPerDay at *
  have hFrom : dayFromYear 0 ≤ t / msPerDay := by
    unfold msPerDay
    omega
  have hUntil : t / msPerDay < dayFromYear 10000 := by
    unfold msPerDay
    omega
  have hBounds := yearFromDay_bounds _ hFrom hUntil
  exact ⟨hBounds.1, Int.le_of_lt_add_one hBounds.2⟩

theorem fields_millisecond (t : ℤ) :
    (fields t).millisecond < 10 ^ 3 := by
  unfold fields
  dsimp only
  omega

/- Every instant of the years 0 to 9999 is read back. -/
theorem readIso_isoText
    {t : ℤ}
    (hStart : timeFromYear 0 ≤ t)
    (hEnd : t < timeFromYear 10000) :
    readIso (isoText t) = some t := by
  have hFraction :
      readFraction
          ('.' :: (digits 3 (fields t).millisecond ++ ['Z'])) =
        some (fields t).millisecond :=
    readFraction_digits (fields_millisecond t)
      (fun c (hMem : c ∈ []) => by cases hMem)
  unfold readIso isoText
  dsimp only
  rw [readFields_secondsText (fields_valid t)
      (fields_year hStart hEnd) hFraction,
    Option.bind_some, if_pos (fields_valid t), time_fields]

/- Microseconds are read back as milliseconds. -/
theorem readIso_isoTextMicro
    {t : ℤ}
    (hStart : timeFromYear 0 ≤ t / 1000)
    (hEnd : t / 1000 < timeFromYear 10000) :
    readIso (isoTextMicro t) = some (t / 1000) := by
  have hSplit :
      digits 6 (t % 1000000).toNat =
        digits 3 (fields (t / 1000)).millisecond ++
          digits 3 (t % 1000000).toNat := by
    rw [digits_add 3 3]
    congr 2
    unfold fields
    dsimp only
    omega
  have hFraction :
      readFraction
          ('.' :: (digits 6 (t % 1000000).toNat ++ ['Z'])) =
        some (fields (t / 1000)).millisecond := by
    rw [hSplit, List.append_assoc]
    exact
      readFraction_digits (fields_millisecond _)
        (fun c hMem => isDigit_of_mem_digits hMem)
  unfold readIso isoTextMicro
  rw [readFields_secondsText (fields_valid _)
      (fields_year hStart hEnd) hFraction,
    Option.bind_some, if_pos (fields_valid _), time_fields]

end Calendar
