import PigBook.Idempotency.Paths

/-
  Which create requests have one canonical text.

  Key definitions include:
    * `canonicalJson`
    * `CreateBody.Same`

  Key theorems include:
    * `strftime_injective`
    * `canonicalJson_ok`
    * `canonicalJson_eq_iff`
-/

------------------------------------------------------------
-- Texts of Instants
------------------------------------------------------------

namespace Calendar

theorem digits_injective
    {w n m : ℕ}
    (hSmall : n < 10 ^ w)
    (hSmall' : m < 10 ^ w)
    (hEq : digits w n = digits w m) :
    n = m := by
  have hRead := readDigits_digits w 0 [] hSmall
  rw [hEq, readDigits_digits w 0 [] hSmall'] at hRead
  simp only [Option.some.injEq, Prod.mk.injEq, and_true]
    at hRead
  omega

/- The text of the fields is the same up to the fraction. -/
theorem secondsText_append
    (x : Fields)
    (rest : List Char) :
    secondsText x rest = secondsText x [] ++ rest := by
  unfold secondsText
  simp only [List.append_assoc, List.cons_append,
    List.append_nil]

theorem isoTextMicro_injective
    {t t' : ℤ}
    (hStart : timeFromYear 0 ≤ t / 1000)
    (hEnd : t / 1000 < timeFromYear 10000)
    (hStart' : timeFromYear 0 ≤ t' / 1000)
    (hEnd' : t' / 1000 < timeFromYear 10000)
    (hEq : isoTextMicro t = isoTextMicro t') :
    t = t' := by
  have hRead := readIso_isoTextMicro hStart hEnd
  rw [hEq, readIso_isoTextMicro hStart' hEnd',
    Option.some.injEq] at hRead
  unfold isoTextMicro at hEq
  rw [hRead, secondsText_append,
    secondsText_append _ ('.' :: (digits 6 _ ++ _))] at hEq
  have hFraction := List.append_cancel_left hEq
  rw [List.cons.injEq] at hFraction
  have hDigits := List.append_cancel_right hFraction.2
  have hMicros :=
    digits_injective (by omega) (by omega) hDigits
  omega

end Calendar

namespace PigBook

/- Representable instants have different texts. -/
theorem strftime_injective
    {d d' : Datetime}
    (hRange : d.Convertible)
    (hRange' : d'.Convertible)
    (hEq : strftime d.instant = strftime d'.instant) :
    d.instant = d'.instant := by
  have hFrom : Calendar.timeFromYear 0 * 1000 ≤
      Datetime.minimum := by
    decide
  have hUntil : Datetime.maximum <
      Calendar.timeFromYear 10000 * 1000 := by
    decide
  unfold Datetime.Convertible at hRange hRange'
  unfold strftime at hEq
  apply Calendar.isoTextMicro_injective _ _ _ _
    (String.ofList_injective hEq)
  · omega
  · omega
  · omega
  · omega

end PigBook

------------------------------------------------------------
-- Canonical Texts
------------------------------------------------------------

namespace PigBook

variable (E : Encodings)

/- The text that is hashed. -/
def canonicalJson
    (method path : String)
    (body : CreateBody) : Except Error String := do
  let normalized ← normalizeValue body.modelDump
  dumps E
    (.object
      [("body", normalized),
        ("method", .string (E.upper method)),
        ("path", .string (normalizePath path))])

/- The hash is that of the canonical text. -/
theorem computeRequestHash_eq
    (method path : String)
    (body : CreateBody) :
    computeRequestHash E method path body =
      (canonicalJson E method path body).map E.sha256 := by
  unfold computeRequestHash canonicalJson
  cases normalizeValue body.modelDump with
  | error e => rfl
  | ok normalized =>
      change
        (dumps E _ >>= fun text => .ok (E.sha256 text)) =
          (dumps E _).map E.sha256
      cases dumps E
          (.object
            [("body", normalized),
              ("method", .string (E.upper method)),
              ("path", .string (normalizePath path))]) with
      | error e => rfl
      | ok text => rfl

/- The text of an object whose members are texts. -/
def objectText (members : List (String × String)) : String :=
  "\x7b" ++
    ",".intercalate
      (members.map
        (fun x => dumpsText x.1 ++ ":" ++ dumpsText x.2)) ++
    "\x7d"

namespace CreateBody

/- The members of the body with their names in order. -/
def canonical : CreateBody → List (String × String)
| booking resourceId startsAt endsAt =>
    [("ends_at", strftime endsAt.instant),
      ("resource_id", resourceId.str),
      ("starts_at", strftime startsAt.instant)]
| blackout startsAt endsAt =>
    [("ends_at", strftime endsAt.instant),
      ("starts_at", strftime startsAt.instant)]

/- The same fields, resource and instants. -/
def Same : CreateBody → CreateBody → Prop
| booking resourceId startsAt endsAt,
  booking resourceId' startsAt' endsAt' =>
    resourceId = resourceId' ∧
      startsAt.instant = startsAt'.instant ∧
      endsAt.instant = endsAt'.instant
| blackout startsAt endsAt, blackout startsAt' endsAt' =>
    startsAt.instant = startsAt'.instant ∧
      endsAt.instant = endsAt'.instant
| _, _ => False

end CreateBody

/- The canonical text of a request, part by part. -/
def requestText
    (method path : String)
    (body : CreateBody) : String :=
  "\x7b" ++ dumpsText "body" ++ ":" ++
    objectText body.canonical ++ "," ++
    dumpsText "method" ++ ":" ++
    dumpsText (E.upper method) ++ "," ++
    dumpsText "path" ++ ":" ++
    dumpsText (normalizePath path) ++ "\x7d"

variable {E}

/- The members of a request are in order already. -/
theorem dumpsMembers_request
    (body method path : String) :
    dumpsMembers
        [("body", body), ("method", method), ("path", path)] =
      "\x7b" ++ dumpsText "body" ++ ":" ++ body ++ "," ++
        dumpsText "method" ++ ":" ++ method ++ "," ++
        dumpsText "path" ++ ":" ++ path ++ "\x7d" := by
  unfold dumpsMembers
  simp [List.mergeSort, List.MergeSort.Internal.splitInTwo,
    String.append_assoc]

/- And those of a body are put in order. -/
theorem dumpsMembers_booking
    (resourceId startsAt endsAt : String) :
    dumpsMembers
        [("resource_id", dumpsText resourceId),
          ("starts_at", dumpsText startsAt),
          ("ends_at", dumpsText endsAt)] =
      objectText
        [("ends_at", endsAt), ("resource_id", resourceId),
          ("starts_at", startsAt)] := by
  unfold dumpsMembers objectText
  simp [List.mergeSort, List.MergeSort.Internal.splitInTwo]

theorem dumpsMembers_blackout
    (startsAt endsAt : String) :
    dumpsMembers
        [("starts_at", dumpsText startsAt),
          ("ends_at", dumpsText endsAt)] =
      objectText
        [("ends_at", endsAt), ("starts_at", startsAt)] := by
  unfold dumpsMembers objectText
  simp [List.mergeSort, List.MergeSort.Internal.splitInTwo]

/- Bodies with representable instants have a text. -/
theorem canonicalJson_ok
    (method path : String)
    {body : CreateBody}
    (hAware : ∀ d ∈ body.datetimes, d.Aware)
    (hRange : ∀ d ∈ body.datetimes, d.Convertible) :
    canonicalJson E method path body =
      .ok (requestText E method path body) := by
  unfold canonicalJson requestText
  rw [normalizeValue_of_convertible hAware hRange]
  change dumps E _ = _
  rw [dumps_request, dumpsMembers_request]
  cases body with
  | booking resourceId startsAt endsAt =>
      simp only [CreateBody.fields, List.map_cons,
        List.map_nil, dumpsMembers_booking,
        CreateBody.canonical]
  | blackout startsAt endsAt =>
      simp only [CreateBody.fields, List.map_cons,
        List.map_nil, dumpsMembers_blackout,
        CreateBody.canonical]

end PigBook

------------------------------------------------------------
-- Texts That Can Be Split Off
------------------------------------------------------------

namespace PigBook

/- The members of an object of texts, up to its end. -/
def membersText : List (String × String) → List Char
| [] => ['\x7d']
| [x] =>
    (dumpsText x.1).toList ++
      ':' :: ((dumpsText x.2).toList ++ ['\x7d'])
| x :: y :: members =>
    (dumpsText x.1).toList ++
      ':' :: ((dumpsText x.2).toList ++
        ',' :: membersText (y :: members))

theorem toList_objectText
    (members : List (String × String)) :
    (objectText members).toList =
      '\x7b' :: membersText members := by
  have hMembers :
      (",".intercalate
          (members.map
            (fun x =>
              dumpsText x.1 ++ ":" ++ dumpsText x.2)) ++
        "\x7d").toList = membersText members := by
    fun_induction membersText members with
    | case1 => decide
    | case2 x => simp
    | case3 x y members ih =>
        rw [← ih]
        simp
  unfold objectText
  rw [String.append_assoc, String.toList_append, hMembers]
  simp

theorem membersText_one_append
    (x : String × String)
    (rest : List Char) :
    membersText [x] ++ rest =
      (dumpsText x.1).toList ++
        ':' :: ((dumpsText x.2).toList ++ '\x7d' :: rest) := by
  simp [membersText]

theorem membersText_cons_append
    (x y : String × String)
    (members : List (String × String))
    (rest : List Char) :
    membersText (x :: y :: members) ++ rest =
      (dumpsText x.1).toList ++
        ':' :: ((dumpsText x.2).toList ++
          ',' :: (membersText (y :: members) ++ rest)) := by
  simp [membersText]

/- A member can be split off, with what stands after it. -/
theorem member_append_inj
    {x x' : String × String}
    {rest rest' : List Char}
    (hEq :
      (dumpsText x.1).toList ++
          ':' :: ((dumpsText x.2).toList ++ rest) =
        (dumpsText x'.1).toList ++
          ':' :: ((dumpsText x'.2).toList ++ rest')) :
    x = x' ∧ rest = rest' := by
  rcases dumpsText_append_inj hEq with ⟨hName, hTail⟩
  rw [List.cons.injEq] at hTail
  rcases dumpsText_append_inj hTail.2 with ⟨hValue, hRest⟩
  exact ⟨Prod.ext hName hValue, hRest⟩

/- Where the members end, the text tells. -/
theorem membersText_append_inj
    {x x' : String × String}
    {members members' : List (String × String)}
    {rest rest' : List Char}
    (hEq :
      membersText (x :: members) ++ rest =
        membersText (x' :: members') ++ rest') :
    x :: members = x' :: members' ∧ rest = rest' := by
  -- What stands after a value tells whether it is the last.
  have hLast : '\x7d' ≠ ',' := by decide
  induction members generalizing x x' members' with
  | nil =>
      rw [membersText_one_append] at hEq
      cases members' with
      | nil =>
          rw [membersText_one_append] at hEq
          rcases member_append_inj hEq with ⟨rfl, hRest⟩
          exact ⟨rfl, (List.cons.inj hRest).2⟩
      | cons y' members' =>
          rw [membersText_cons_append] at hEq
          have hRest := (member_append_inj hEq).2
          exact absurd (List.cons.inj hRest).1 hLast
  | cons y members ih =>
      rw [membersText_cons_append] at hEq
      cases members' with
      | nil =>
          rw [membersText_one_append] at hEq
          have hRest := (member_append_inj hEq).2
          exact absurd (List.cons.inj hRest).1.symm hLast
      | cons y' members' =>
          rw [membersText_cons_append] at hEq
          rcases member_append_inj hEq with ⟨rfl, hRest⟩
          rcases ih (List.cons.inj hRest).2 with
            ⟨hMembers, hAfter⟩
          rw [hMembers]
          exact ⟨rfl, hAfter⟩

/- An object of texts can be split off in front of anything. -/
theorem objectText_append_inj
    {members members' : List (String × String)}
    {rest rest' : List Char}
    (hSome : members ≠ [])
    (hSome' : members' ≠ [])
    (hEq :
      (objectText members).toList ++ rest =
        (objectText members').toList ++ rest') :
    members = members' ∧ rest = rest' := by
  rw [toList_objectText, toList_objectText, List.cons_append,
    List.cons_append, List.cons.injEq] at hEq
  cases members with
  | nil => exact absurd rfl hSome
  | cons x members =>
      cases members' with
      | nil => exact absurd rfl hSome'
      | cons x' members' =>
          exact membersText_append_inj hEq.2

end PigBook

------------------------------------------------------------
-- Equal Requests
------------------------------------------------------------

namespace PigBook

namespace CreateBody

variable {body body' : CreateBody}

theorem canonical_ne_nil : body.canonical ≠ [] := by
  cases body <;> exact List.cons_ne_nil _ _

/- The members tell the body up to its instants. -/
theorem canonical_eq_iff
    (hRange : ∀ d ∈ body.datetimes, d.Convertible)
    (hRange' : ∀ d ∈ body'.datetimes, d.Convertible) :
    body.canonical = body'.canonical ↔ body.Same body' := by
  cases body with
  | booking resourceId startsAt endsAt =>
      simp only [datetimes, List.forall_mem_cons] at hRange
      cases body' with
      | booking resourceId' startsAt' endsAt' =>
          simp only [datetimes, List.forall_mem_cons] at hRange'
          constructor
          · intro hEq
            simp only [canonical, List.cons.injEq,
              Prod.mk.injEq, true_and, and_true] at hEq
            exact
              ⟨uuidStr_injective hEq.2.1,
                strftime_injective hRange.1 hRange'.1 hEq.2.2,
                strftime_injective hRange.2.1 hRange'.2.1
                  hEq.1⟩
          · rintro ⟨rfl, hStart, hEnd⟩
            simp only [canonical, hStart, hEnd]
      | blackout startsAt' endsAt' =>
          constructor
          · intro hEq
            have hLength := congrArg List.length hEq
            cases hLength
          · exact False.elim
  | blackout startsAt endsAt =>
      simp only [datetimes, List.forall_mem_cons] at hRange
      cases body' with
      | booking resourceId' startsAt' endsAt' =>
          constructor
          · intro hEq
            have hLength := congrArg List.length hEq
            cases hLength
          · exact False.elim
      | blackout startsAt' endsAt' =>
          simp only [datetimes, List.forall_mem_cons] at hRange'
          constructor
          · intro hEq
            simp only [canonical, List.cons.injEq,
              Prod.mk.injEq, true_and, and_true] at hEq
            exact
              ⟨strftime_injective hRange.1 hRange'.1 hEq.2,
                strftime_injective hRange.2.1 hRange'.2.1
                  hEq.1⟩
          · rintro ⟨hStart, hEnd⟩
            simp only [canonical, hStart, hEnd]

end CreateBody

variable {E : Encodings}

/- A canonical text tells its method, path and body. -/
theorem requestText_eq_iff
    {method method' path path' : String}
    {body body' : CreateBody} :
    requestText E method path body =
        requestText E method' path' body' ↔
      E.upper method = E.upper method' ∧
        normalizePath path = normalizePath path' ∧
        body.canonical = body'.canonical := by
  constructor
  · intro hEq
    have hList := congrArg String.toList hEq
    unfold requestText at hList
    simp only [String.toList_append, List.append_assoc]
      at hList
    have hBody := List.append_cancel_left
      (List.append_cancel_left (List.append_cancel_left hList))
    rcases
      objectText_append_inj CreateBody.canonical_ne_nil
        CreateBody.canonical_ne_nil hBody with
      ⟨hMembers, hAfter⟩
    have hMethod := List.append_cancel_left
      (List.append_cancel_left (List.append_cancel_left hAfter))
    rcases dumpsText_append_inj hMethod with ⟨hUpper, hLast⟩
    have hPath := List.append_cancel_left
      (List.append_cancel_left (List.append_cancel_left hLast))
    exact
      ⟨hUpper, (dumpsText_append_inj hPath).1, hMembers⟩
  · rintro ⟨hUpper, hPath, hMembers⟩
    unfold requestText
    rw [hUpper, hPath, hMembers]

/-
  The canonical texts of two requests are one text exactly if
  the requests mean the same; and so are their hashes, where
  no two texts have one digest.
-/
theorem canonicalJson_eq_iff
    (E : Encodings)
    (method method' path path' : String)
    {body body' : CreateBody}
    (hAware : ∀ d ∈ body.datetimes, d.Aware)
    (hAware' : ∀ d ∈ body'.datetimes, d.Aware)
    (hRange : ∀ d ∈ body.datetimes, d.Convertible)
    (hRange' : ∀ d ∈ body'.datetimes, d.Convertible) :
    ∃ text text',
      canonicalJson E method path body = .ok text ∧
        canonicalJson E method' path' body' = .ok text' ∧
        computeRequestHash E method path body =
          .ok (E.sha256 text) ∧
        computeRequestHash E method' path' body' =
          .ok (E.sha256 text') ∧
        (text = text' ↔
          E.upper method = E.upper method' ∧
            SamePath path path' ∧
            body.Same body') := by
  refine
    ⟨requestText E method path body,
      requestText E method' path' body',
      canonicalJson_ok method path hAware hRange,
      canonicalJson_ok method' path' hAware' hRange', ?_, ?_,
      ?_⟩
  · rw [computeRequestHash_eq,
      canonicalJson_ok method path hAware hRange]
    rfl
  · rw [computeRequestHash_eq,
      canonicalJson_ok method' path' hAware' hRange']
    rfl
  · rw [requestText_eq_iff, normalizePath_eq_iff,
      CreateBody.canonical_eq_iff hRange hRange']

def bookingsEncodings : Encodings where
  upper := fun text =>
    String.ofList (text.toList.map Char.toUpper)
  floatRepr := fun x => toString x
  sha256 := id

/- One window, written with two offsets. -/
def morningUtc : Datetime where
  wall := days 20000 + hours 10
  offset := some 0

def morningNewYork : Datetime where
  wall := days 20000 + hours 6
  offset := some (hours (-4))

/- A path with a UUID, in capitals and in canonical form. -/
def capitalPath : String :=
  "/resources/00000000-0000-0000-0000-0000000000AB/bookings"

def canonicalPath : String :=
  "/resources/00000000-0000-0000-0000-0000000000ab/bookings"

theorem samePath_capital :
    SamePath capitalPath canonicalPath := by
  have hLeft :
      segments capitalPath =
        ["", "resources",
          "00000000-0000-0000-0000-0000000000AB",
          "bookings"] := by
    unfold segments capitalPath
    simp only [String.reduceToList]
    rfl
  have hRight :
      segments canonicalPath =
        ["", "resources",
          "00000000-0000-0000-0000-0000000000ab",
          "bookings"] := by
    unfold segments canonicalPath
    simp only [String.reduceToList]
    rfl
  have hCapital :
      UuidText.bareDigits
          "00000000-0000-0000-0000-0000000000AB".toList =
        List.replicate 30 '0' ++ ['A', 'B'] := by
    simp only [String.reduceToList]
    decide
  have hCanonical :
      UuidText.bareDigits
          "00000000-0000-0000-0000-0000000000ab".toList =
        List.replicate 30 '0' ++ ['a', 'b'] := by
    simp only [String.reduceToList]
    decide
  have hSame :
      SameSegment "00000000-0000-0000-0000-0000000000AB"
        "00000000-0000-0000-0000-0000000000ab" := by
    refine Or.inr ⟨171, ?_, ?_⟩
    · unfold parseUuid
      rw [hCapital]
      decide +kernel
    · unfold parseUuid
      rw [hCanonical]
      decide +kernel
  unfold SamePath
  rw [hLeft, hRight]
  exact
    .cons (Or.inl rfl)
      (.cons (Or.inl rfl)
        (.cons hSame (.cons (Or.inl rfl) .nil)))

/-
  The same window under two names of its path has one text;
  a blackout of that window has another.
-/
theorem canonicalJson_eq_morning :
    ∃ text other,
      canonicalJson bookingsEncodings "post" capitalPath
          (.booking 5 morningUtc morningUtc) = .ok text ∧
        canonicalJson bookingsEncodings "POST" canonicalPath
          (.booking 5 morningNewYork morningUtc) = .ok text ∧
        canonicalJson bookingsEncodings "POST" canonicalPath
          (.blackout morningUtc morningUtc) = .ok other ∧
        text ≠ other := by
  have hUtc : morningUtc.Aware :=
    ⟨by decide, 0, rfl, by decide⟩
  have hNewYork : morningNewYork.Aware :=
    ⟨by decide, hours (-4), rfl, by decide⟩
  have hAware :
      ∀ d ∈ (CreateBody.booking 5 morningUtc
        morningUtc).datetimes, d.Aware := by
    simp [CreateBody.datetimes, hUtc]
  have hAware' :
      ∀ d ∈ (CreateBody.booking 5 morningNewYork
        morningUtc).datetimes, d.Aware := by
    simp [CreateBody.datetimes, hUtc, hNewYork]
  have hOther :
      ∀ d ∈ (CreateBody.blackout morningUtc
        morningUtc).datetimes, d.Aware := by
    simp [CreateBody.datetimes, hUtc]
  rcases
    canonicalJson_eq_iff bookingsEncodings "post" "POST"
      capitalPath canonicalPath hAware hAware' (by decide)
      (by decide) with
    ⟨text, text', hText, hText', -, -, hIff⟩
  rcases
    canonicalJson_eq_iff bookingsEncodings "post" "POST"
      capitalPath canonicalPath hAware hOther (by decide)
      (by decide) with
    ⟨text'', other, hText'', hBlackout, -, -, hDiffers⟩
  have hSame : text = text' := by
    apply hIff.mpr
    refine ⟨?_, samePath_capital, rfl, ?_, rfl⟩
    · decide
    · decide
  rw [← hSame] at hText'
  rw [hText, Except.ok.injEq] at hText''
  refine ⟨text, other, hText, hText', hBlackout, ?_⟩
  rw [hText'']
  intro hEq
  exact (hDiffers.mp hEq).2.2

end PigBook
