import PigBook.Json.Strings

/-
  Which paths are normalized to one path.

  The canonical text of a UUID is read back as that UUID, so
  normalizing takes two segments together exactly if they are
  equal or `uuid.UUID` reads the same UUID from both.

  Key definitions include:
    * `SameSegment`
    * `SamePath`

  Key theorems include:
    * `parseUuid_str`
    * `normalizePath_eq_iff`
-/

------------------------------------------------------------
-- Canonical Texts of UUIDs
------------------------------------------------------------

namespace PigBook.UuidText

/- Lower-case hexadecimal digits, as a canonical text has. -/
def Hexadecimal (cs : List Char) : Prop :=
  ∀ c ∈ cs, ∃ d < 16, c = Nat.digitChar d

/- What holds of each digit holds of all characters. -/
theorem Hexadecimal.forall
    {cs : List Char}
    {p : Char → Prop}
    (hHex : Hexadecimal cs)
    (hDigits : ∀ d < 16, p (Nat.digitChar d)) :
    ∀ c ∈ cs, p c := by
  intro c hMem
  rcases hHex c hMem with ⟨d, hDigit, rfl⟩
  exact hDigits d hDigit

theorem removeAll_of_not_mem
    {c : Char}
    {cs : List Char}
    (pattern : List Char)
    (hAbsent : c ∉ cs) :
    removeAll (c :: pattern) 0 cs = cs := by
  induction cs with
  | nil => rfl
  | cons x cs ih =>
      rw [List.mem_cons, not_or] at hAbsent
      unfold removeAll
      rw [List.isPrefixOf_cons_cons,
        beq_eq_false_iff_ne.mpr hAbsent.1, Bool.false_and, if_neg Bool.false_ne_true,
        ih hAbsent.2]

theorem trim_of_none
    {p : Char → Bool}
    {cs : List Char}
    (hNone : ∀ c ∈ cs, p c = false) :
    (cs.dropWhile p).rdropWhile p = cs := by
  have hDrop : ∀ xs : List Char, (∀ c ∈ xs, p c = false) →
      xs.dropWhile p = xs := by
    intro xs hNone
    cases xs with
    | nil => rfl
    | cons x xs =>
        rw [List.dropWhile_cons_of_neg]
        rw [hNone x List.mem_cons_self]
        exact Bool.false_ne_true
  rw [hDrop cs hNone]
  unfold List.rdropWhile
  rw [hDrop cs.reverse, List.reverse_reverse]
  intro c hMem
  exact hNone c (List.mem_reverse.mp hMem)

theorem map_toAscii
    {cs : List Char}
    (hHex : Hexadecimal cs) :
    cs.map toAscii = cs := by
  have hAll : ∀ c ∈ cs, toAscii c = c :=
    hHex.forall (by decide)
  rw [List.map_congr_left hAll, List.map_id']

theorem afterSign_hex
    {cs : List Char}
    (hHex : Hexadecimal cs) :
    afterSign cs = cs := by
  have hPlus : ∀ c ∈ cs, c ≠ '+' := hHex.forall (by decide)
  unfold afterSign
  split
  · exact absurd rfl (hPlus _ List.mem_cons_self)
  · rfl

theorem afterRadix_hex
    {cs : List Char}
    (hHex : Hexadecimal cs) :
    afterRadix cs = cs := by
  have hNone : ∀ c ∈ cs, c ≠ 'x' ∧ c ≠ 'X' :=
    hHex.forall (by decide)
  have hSecond : ∀ x y xs, cs = x :: y :: xs →
      y ≠ 'x' ∧ y ≠ 'X' := by
    intro x y xs hEq
    apply hNone
    rw [hEq]
    exact List.mem_cons_of_mem _ List.mem_cons_self
  unfold afterRadix
  split
  · exact absurd rfl (hSecond _ _ _ rfl).1
  · exact absurd rfl (hSecond _ _ _ rfl).2
  · exact absurd rfl (hSecond _ _ _ rfl).1
  · exact absurd rfl (hSecond _ _ _ rfl).2
  · rfl

theorem digitValue_digitChar
    {d : ℕ}
    (hDigit : d < 16) :
    digitValue (Nat.digitChar d) = some d ∧
      Nat.digitChar d ≠ '_' := by
  have hAll : ∀ d < 16,
      digitValue (Nat.digitChar d) = some d ∧
        Nat.digitChar d ≠ '_' := by
    decide
  exact hAll d hDigit

theorem readDigits_hex
    {cs : List Char}
    (n : ℕ)
    (hHex : Hexadecimal cs) :
    readDigits n cs =
      some (cs.foldl (fun n c => 16 * n + hexValue c) n) := by
  induction cs generalizing n with
  | nil => rfl
  | cons c cs ih =>
      rcases hHex c List.mem_cons_self with ⟨d, hDigit, rfl⟩
      rcases digitValue_digitChar hDigit with
        ⟨hValue, hScore⟩
      have hTail : Hexadecimal cs := by
        intro x hMem
        exact hHex x (List.mem_cons_of_mem _ hMem)
      rw [readDigits.eq_3 _ _ _ (by
        intro x xs hEq
        exact absurd hEq hScore)]
      rw [hValue]
      dsimp only
      rw [ih _ hTail, List.foldl_cons,
        hexValue_digitChar hDigit]

/- `int(hex, 16)` reads digits as the number they denote. -/
theorem parseHex_hex
    {cs : List Char}
    (hHex : Hexadecimal cs)
    (hSome : cs ≠ []) :
    parseHex cs = some (hexNumber cs) := by
  have hStrip : strip cs = cs :=
    trim_of_none (hHex.forall (by decide))
  unfold parseHex
  rw [map_toAscii hHex, hStrip, afterSign_hex hHex,
    afterRadix_hex hHex]
  cases cs with
  | nil => exact absurd rfl hSome
  | cons c cs =>
      rcases hHex c List.mem_cons_self with ⟨d, hDigit, rfl⟩
      have hTail : Hexadecimal cs := by
        intro x hMem
        exact hHex x (List.mem_cons_of_mem _ hMem)
      unfold readNumber
      dsimp only
      rw [(digitValue_digitChar hDigit).1]
      dsimp only
      rw [readDigits_hex d hTail]
      unfold hexNumber
      rw [List.foldl_cons, hexValue_digitChar hDigit,
        Nat.mul_zero, Nat.zero_add]

end PigBook.UuidText

namespace PigBook

/- All 32 digits of a UUID. -/
def uuidDigits (u : Uuid) : List Char :=
  List.replicate (32 - (Nat.toDigits 16 u.val).length) '0' ++
    Nat.toDigits 16 u.val

theorem uuidDigits_hex (u : Uuid) :
    UuidText.Hexadecimal (uuidDigits u) := by
  intro c hMem
  exact digit_of_mem hMem

theorem length_uuidDigits (u : Uuid) :
    (uuidDigits u).length = 32 := by
  have hLength : (Nat.toDigits 16 u.val).length ≤ 32 := by
    rw [Nat.length_toDigits_le_iff (by omega) (by omega)]
    exact u.isLt
  unfold uuidDigits
  rw [List.length_append, List.length_replicate]
  omega

/- A canonical text consists of digits and hyphens. -/
theorem mem_uuidStr
    {u : Uuid}
    {c : Char}
    (hMem : c ∈ u.str.toList) :
    (∃ d < 16, c = Nat.digitChar d) ∨ c = '-' := by
  by_cases hHyphen : c = '-'
  · exact Or.inr hHyphen
  · have hDigits : c ∈ u.str.toList.filter (· ≠ '-') :=
      List.mem_filter.mpr ⟨hMem, decide_eq_true hHyphen⟩
    rw [filter_uuidStr] at hDigits
    exact Or.inl (digit_of_mem hDigits)

theorem forall_uuidStr
    {p : Char → Prop}
    (u : Uuid)
    (hDigits : ∀ d < 16, p (Nat.digitChar d))
    (hHyphen : p '-') :
    ∀ c ∈ u.str.toList, p c := by
  intro c hMem
  rcases mem_uuidStr hMem with ⟨d, hDigit, rfl⟩ | rfl
  · exact hDigits d hDigit
  · exact hHyphen

/- Nothing but the hyphens of a canonical text is optional. -/
theorem bareDigits_str (u : Uuid) :
    UuidText.bareDigits u.str.toList = uuidDigits u := by
  have hNone : 'u' ∉ u.str.toList := by
    intro hMem
    exact forall_uuidStr u (p := fun c => c ≠ 'u')
      (by decide) (by decide) 'u' hMem rfl
  unfold UuidText.bareDigits
  dsimp only
  rw [UuidText.removeAll_of_not_mem _ hNone,
    UuidText.removeAll_of_not_mem _ hNone,
    UuidText.trim_of_none
      (forall_uuidStr u (by decide) (by decide))]
  exact filter_uuidStr u

theorem parseUuid_str (u : Uuid) :
    parseUuid u.str = some u := by
  have hLength := length_uuidDigits u
  have hSome : uuidDigits u ≠ [] := by
    intro hEmpty
    rw [hEmpty] at hLength
    exact absurd hLength (by decide)
  have hNumber : hexNumber (uuidDigits u) = u.val := by
    unfold uuidDigits
    rw [hexNumber_zeros, hexNumber_toDigits]
  unfold parseUuid
  dsimp only
  rw [bareDigits_str, if_pos hLength,
    UuidText.parseHex_hex (uuidDigits_hex u) hSome, hNumber]
  dsimp only
  rw [dif_pos u.isLt]

end PigBook

------------------------------------------------------------
-- Paths
------------------------------------------------------------

namespace PigBook

/-
  Two segments that are equal, or from which `uuid.UUID`
  reads the same UUID.
-/
def SameSegment (seg seg' : String) : Prop :=
  seg = seg' ∨
    ∃ u, parseUuid seg = some u ∧ parseUuid seg' = some u

/- The segments of two paths agree one by one. -/
def SamePath (path path' : String) : Prop :=
  List.Forall₂ SameSegment (segments path) (segments path')

theorem normalizeSegment_eq_iff (seg seg' : String) :
    normalizeSegment seg = normalizeSegment seg' ↔
      SameSegment seg seg' := by
  unfold normalizeSegment SameSegment
  cases hParse : parseUuid seg with
  | none =>
      cases hParse' : parseUuid seg' with
      | none => simp
      | some u' =>
          dsimp only
          constructor
          · intro hEq
            rw [hEq, parseUuid_str] at hParse
            exact absurd hParse (Option.some_ne_none u')
          · rintro (hEq | ⟨u, hNone, -⟩)
            · rw [hEq, hParse'] at hParse
              exact absurd hParse (Option.some_ne_none u')
            · exact absurd hNone.symm (Option.some_ne_none u)
  | some u =>
      cases hParse' : parseUuid seg' with
      | none =>
          dsimp only
          constructor
          · intro hEq
            rw [← hEq, parseUuid_str] at hParse'
            exact absurd hParse' (Option.some_ne_none u)
          · rintro (hEq | ⟨u', -, hNone⟩)
            · rw [← hEq, hParse] at hParse'
              exact absurd hParse' (Option.some_ne_none u)
            · exact absurd hNone.symm (Option.some_ne_none u')
      | some u' =>
          dsimp only
          constructor
          · intro hEq
            rw [uuidStr_injective hEq]
            exact Or.inr ⟨u', rfl, rfl⟩
          · rintro (hEq | ⟨x, hLeft, hRight⟩)
            · rw [hEq, hParse', Option.some.injEq] at hParse
              rw [hParse]
            · rw [Option.some.injEq] at hLeft hRight
              rw [hLeft, hRight]

/- No piece of a split holds what it is split at. -/
theorem not_mem_of_mem_splitOn
    {c : Char}
    {cs piece : List Char}
    (hMem : piece ∈ cs.splitOn c) :
    c ∉ piece := by
  induction cs generalizing piece with
  | nil =>
      rw [List.splitOn_nil, List.mem_singleton] at hMem
      rw [hMem]
      exact List.not_mem_nil
  | cons x cs ih =>
      rw [List.splitOn_cons_eq_if_modifyHead] at hMem
      by_cases hCut : x = c
      · rw [if_pos (beq_iff_eq.mpr hCut), List.mem_cons] at hMem
        rcases hMem with rfl | hMem
        · exact List.not_mem_nil
        · exact ih hMem
      · rw [if_neg (by rwa [beq_iff_eq])] at hMem
        -- Only the first piece grows, by another character.
        cases hPieces : cs.splitOn c with
        | nil => exact absurd hPieces (List.splitOn_ne_nil c cs)
        | cons first pieces =>
            rw [hPieces, List.modifyHead_cons, List.mem_cons]
              at hMem
            rw [hPieces] at ih
            rcases hMem with rfl | hMem
            · rw [List.mem_cons, not_or]
              exact
                ⟨fun hEq => hCut hEq.symm,
                  ih List.mem_cons_self⟩
            · exact ih (List.mem_cons_of_mem _ hMem)

/- No segment holds a slash, also when it is normalized. -/
theorem slash_not_mem_normalized
    {path seg : String}
    (hMem : seg ∈ segments path) :
    '/' ∉ (normalizeSegment seg).toList := by
  rcases List.mem_map.mp hMem with ⟨piece, hPiece, rfl⟩
  unfold normalizeSegment
  cases parseUuid (String.ofList piece) with
  | none =>
      dsimp only
      rw [String.toList_ofList]
      exact not_mem_of_mem_splitOn hPiece
  | some u =>
      intro hSlash
      exact forall_uuidStr u (p := fun c => c ≠ '/')
        (by decide) (by decide) '/' hSlash rfl

/- The normalized segments can be read off the path. -/
theorem splitOn_normalizePath (path : String) :
    (normalizePath path).toList.splitOn '/' =
      ((segments path).map normalizeSegment).map
        String.toList := by
  have hSome : segments path ≠ [] := by
    intro hNil
    exact List.splitOn_ne_nil '/' path.toList
      (List.map_eq_nil_iff.mp hNil)
  unfold normalizePath
  rw [String.toList_intercalate]
  apply List.splitOn_intercalate '/'
  · intro piece hMem
    rcases List.mem_map.mp hMem with ⟨text, hText, rfl⟩
    rcases List.mem_map.mp hText with ⟨seg, hSeg, rfl⟩
    exact slash_not_mem_normalized hSeg
  · intro hNil
    exact hSome
      (List.map_eq_nil_iff.mp (List.map_eq_nil_iff.mp hNil))

/- Normalizing takes just the paths together that agree. -/
theorem normalizePath_eq_iff (path path' : String) :
    normalizePath path = normalizePath path' ↔
      SamePath path path' := by
  have hSegments :
      normalizePath path = normalizePath path' ↔
        (segments path).map normalizeSegment =
          (segments path').map normalizeSegment := by
    constructor
    · intro hEq
      have hSplit := splitOn_normalizePath path
      rw [hEq, splitOn_normalizePath path'] at hSplit
      exact
        (List.map_injective_iff.mpr
          (fun _ _ => String.toList_injective) hSplit).symm
    · intro hEq
      unfold normalizePath
      rw [hEq]
  unfold SamePath
  rw [hSegments, ← List.forall₂_eq_eq_eq,
    List.forall₂_map_left_iff, List.forall₂_map_right_iff]
  simp only [normalizeSegment_eq_iff]

end PigBook
