import PigBook.Observability.Redaction

/-
  Texts that the redaction leaves well formed.

  The six rules rewrite a text one after another, and what an
  earlier one takes away a later one does not see.  Here is a
  condition on the escaped text as it was at first: wherever
  a rule may begin, its value does not run up to a quotation
  mark, and no address begins in an escape.

  Key definitions include:
    * `runsUp`, `clean`, `cleanString`
    * `Masked`

  Key theorems include:
    * `Pattern.ends_local`
    * `masked_sub`
    * `breaks_of_clean`
-/

------------------------------------------------------------
-- Matches and What Follows Them
------------------------------------------------------------

namespace Regex

variable {α : Type}

theorem mem_starEnds
    {p : α → Bool}
    {m : List α}
    (hAll : ∀ c ∈ m, p c = true)
    (rest : List α) :
    rest ∈ starEnds p (m ++ rest) := by
  induction m with
  | nil =>
      cases rest with
      | nil => exact List.mem_singleton.mpr rfl
      | cons c cs =>
          unfold starEnds
          rw [List.nil_append]
          dsimp only
          split
          · exact List.mem_append_right _ List.mem_cons_self
          · exact List.mem_cons_self
  | cons c m ih =>
      rw [List.cons_append]
      unfold starEnds
      rw [if_pos (hAll c List.mem_cons_self)]
      apply List.mem_append_left
      exact ih (fun d hd => hAll d (List.mem_cons_of_mem c hd))

/- What a pattern matches, it matches in front of any text. -/
theorem Pattern.ends_local
    {r : Pattern α}
    {m rest : List α}
    (hMem : rest ∈ r.ends (m ++ rest))
    (more : List α) :
    more ∈ r.ends (m ++ more) := by
  induction r generalizing m rest more with
  | empty =>
      rw [ends, List.mem_singleton] at hMem
      rw [List.self_eq_append_left.mp hMem]
      exact List.mem_singleton.mpr rfl
  | cls p =>
      cases m with
      | nil =>
          have hLength := (Pattern.ends_suffix hMem)
          cases rest with
          | nil => cases hMem
          | cons c cs =>
              rw [List.nil_append] at hMem
              unfold ends at hMem
              split at hMem
              · have hSelf :=
                  congrArg List.length
                    (List.mem_singleton.mp hMem)
                rw [List.length_cons] at hSelf
                omega
              · cases hMem
      | cons c m =>
          rw [List.cons_append] at hMem ⊢
          unfold ends at hMem ⊢
          split at hMem
          · rename_i hClass
            rw [if_pos hClass]
            have hNil : m = [] :=
              List.self_eq_append_left.mp
                (List.mem_singleton.mp hMem)
            rw [hNil]
            exact List.mem_singleton.mpr rfl
          · cases hMem
  | seq r s ihr ihs =>
      rcases List.mem_flatMap.mp hMem with ⟨mid, hMid, hRest⟩
      rcases ends_split hMid with ⟨m₁, hFirst, -⟩
      rcases ends_split hRest with ⟨m₂, rfl, -⟩
      rw [← List.append_assoc] at hFirst
      rw [List.append_cancel_right hFirst] at hMid ⊢
      rw [List.append_assoc] at hMid
      apply List.mem_flatMap.mpr
      refine ⟨m₂ ++ more, ?_, ihs hRest more⟩
      rw [List.append_assoc]
      exact ihr hMid (m₂ ++ more)
  | alt r s ihr ihs =>
      rcases List.mem_append.mp hMem with hLeft | hRight
      · exact List.mem_append_left _ (ihr hLeft more)
      · exact List.mem_append_right _ (ihs hRight more)
  | opt r ih =>
      rcases List.mem_append.mp hMem with hSome | hNone
      · exact List.mem_append_left _ (ih hSome more)
      · have hNil : m = [] :=
          List.self_eq_append_left.mp
            (List.mem_singleton.mp hNone)
        rw [hNil]
        exact
          List.mem_append_right _ (List.mem_singleton.mpr rfl)
  | star p =>
      rcases starEnds_split hMem with ⟨m', hSplit, hAll⟩
      rw [← List.append_cancel_right hSplit] at hAll
      exact mem_starEnds hAll more

end Regex

------------------------------------------------------------
-- Clean Texts
------------------------------------------------------------

namespace PigBook.Observability

open Regex Delivery OwnScope JsonText

/-
  What the rule keeps can be read at the beginning of the
  text, and the value after it ends at a quotation mark.
-/
def runsUp
    (rule : Rule Char)
    (cs : List Char) : Bool :=
  (rule.group.ends cs).any (fun mid =>
    (rule.rest.ends mid).head?.any
      (fun rest => rest.head? = some '"'))

def clean (cs : List Char) : Bool :=
  cs.tails.all (fun zs =>
    fieldRules.all (fun rule => !(runsUp rule zs))) &&
  !(cuts emailRule.find .plain cs)

/- A string that is clean once it is escaped. -/
def cleanString (text : String) : Bool :=
  clean (text.toList.flatMap escapeChar)

end PigBook.Observability

------------------------------------------------------------
-- Texts with Marks
------------------------------------------------------------

namespace PigBook.Observability

open Regex Delivery OwnScope JsonText

/-
  The second text is the first one with marks for some of its
  values, each of which stands between escapes and ends where
  no quotation mark follows.
-/
inductive Masked : Place → List Char → List Char → Prop
  | nil (place : Place) : Masked place [] []
  | keep
      {place place' : Place}
      {c : Char}
      {cs ds : List Char}
      (hNext : place.next c = some place')
      (hRest : Masked place' cs ds) :
      Masked place (c :: cs) (c :: ds)
  | mask
      {value rest ds : List Char}
      (hSome : value ≠ [])
      (hValue : ∀ c ∈ value, isCookiePart c = true)
      (hPlace : Place.plain.after value = some .plain)
      (hStop :
        ∀ c ∈ ds.head?, isTokenPart c = false ∧ c ≠ '"')
      (hRest : Masked .plain rest ds) :
      Masked .plain (value ++ rest) (redacted ++ ds)

theorem isPart_redacted
    {isPart : Char → Bool}
    {c : Char}
    (hKind : isPart = isTokenPart ∨ isPart = isCookiePart)
    (hMem : c ∈ redacted) :
    isPart c = true := by
  rcases hKind with rfl | rfl
  · exact
      List.all_eq_true.mp
        (show redacted.all isTokenPart = true by decide) c hMem
  · exact
      List.all_eq_true.mp
        (show redacted.all isCookiePart = true by decide) c hMem

/- What a token may have, a cookie may have. -/
theorem isCookiePart_of_isPart
    {isPart : Char → Bool}
    {c : Char}
    (hKind : isPart = isTokenPart ∨ isPart = isCookiePart)
    (hPart : isPart c = true) :
    isCookiePart c = true := by
  rcases hKind with rfl | rfl
  · simp only [isTokenPart, isCookiePart, not_or,
      decide_eq_true_eq] at hPart ⊢
    refine
      ⟨hPart.1, hPart.2.1, ?_, ?_, hPart.2.2.2.1,
        hPart.2.2.2.2⟩
    · intro hReturn
      exact hPart.2.2.1 (by rw [hReturn]; decide)
    · intro hNewline
      exact hPart.2.2.1 (by rw [hNewline]; decide)
  · exact hPart

theorem isTokenPart_of_isPart
    {isPart : Char → Bool}
    {c : Char}
    (hKind : isPart = isTokenPart ∨ isPart = isCookiePart)
    (hPart : isPart c = false) :
    isTokenPart c = false := by
  by_contra hToken
  rw [Bool.not_eq_false] at hToken
  rcases hKind with rfl | rfl
  · rw [hToken] at hPart
    cases hPart
  · rw [isCookiePart_of_isPart (Or.inl rfl) hToken] at hPart
    cases hPart

theorem head_redacted (ds : List Char) :
    (redacted ++ ds).head? = some '[' :=
  rfl

namespace Masked

variable {place : Place} {cs ds : List Char}

theorem refl
    {last : Place}
    (hAfter : place.after cs = some last) :
    Masked place cs cs := by
  induction cs generalizing place with
  | nil => exact .nil place
  | cons c cs ih =>
      rw [after_cons] at hAfter
      rcases Option.bind_eq_some_iff.mp hAfter with
        ⟨place', hNext, hRest⟩
      exact .keep hNext (ih hRest)

/- Characters without a bracket are no part of a mark. -/
theorem split
    {m rest : List Char}
    (hMasked : Masked place cs (m ++ rest))
    (hNone : '[' ∉ m) :
    ∃ place' more,
      cs = m ++ more ∧ place.after m = some place' ∧
        Masked place' more rest := by
  induction m generalizing place cs with
  | nil => exact ⟨place, cs, rfl, rfl, hMasked⟩
  | cons c m ih =>
      rw [List.mem_cons, not_or] at hNone
      rw [List.cons_append] at hMasked
      generalize hText : c :: (m ++ rest) = text at hMasked
      cases hMasked with
      | nil => cases hText
      | keep hNext hRest =>
          cases hText
          rcases ih hRest hNone.2 with
            ⟨place', more, rfl, hAfter, hMore⟩
          refine ⟨place', more, rfl, ?_, hMore⟩
          rw [after_cons, hNext]
          exact hAfter
      | mask =>
          have hHead := congrArg List.head? hText
          rw [head_redacted] at hHead
          exact absurd (Option.some.inj hHead).symm hNone.1

/- Text kept in front of masked text. -/
theorem append
    {place' : Place}
    {m : List Char}
    (hAfter : place.after m = some place')
    (hRest : Masked place' cs ds) :
    Masked place (m ++ cs) (m ++ ds) := by
  induction m generalizing place with
  | nil =>
      cases hAfter
      exact hRest
  | cons c m ih =>
      rw [after_cons] at hAfter
      rcases Option.bind_eq_some_iff.mp hAfter with
        ⟨mid, hNext, hMore⟩
      exact .keep hNext (ih hMore)

/- What begins with no bracket begins as the first text. -/
theorem head
    (hMasked : Masked place cs ds)
    (hHead : ds.head? ≠ some '[') :
    cs.head? = ds.head? := by
  cases hMasked with
  | nil => rfl
  | keep => rfl
  | mask => exact absurd (head_redacted _) hHead

/- A mark in a value is in it with all of its characters. -/
theorem mark_in_value
    {isPart : Char → Bool}
    {value rest ds : List Char}
    (hKind : isPart = isTokenPart ∨ isPart = isCookiePart)
    (hStop : ∀ c ∈ rest.head?, isPart c = false)
    (hText : redacted ++ ds = value ++ rest) :
    ∃ more, value = redacted ++ more ∧ ds = more ++ rest := by
  rcases List.append_eq_append_iff.mp hText with
    ⟨more, hValue, hRest⟩ | ⟨more, hMark, hRest⟩
  · exact ⟨more, hValue, hRest⟩
  · cases more with
    | nil =>
        rw [List.append_nil] at hMark
        exact ⟨[], by rw [hMark, List.append_nil], hRest.symm⟩
    | cons c more =>
        exfalso
        have hPart : isPart c = true := by
          apply isPart_redacted hKind
          rw [hMark]
          exact
            List.mem_append_right _ List.mem_cons_self
        have hNot : isPart c = false := by
          apply hStop
          rw [hRest]
          rfl
        rw [hPart] at hNot
        cases hNot

/-
  What a rule takes for a value, the first text has values
  for, and where a quotation mark follows it has just these.
-/
theorem value
    {isPart : Char → Bool}
    {value rest : List Char}
    (hMasked : Masked place cs (value ++ rest))
    (hKind : isPart = isTokenPart ∨ isPart = isCookiePart)
    (hValue : ∀ c ∈ value, isPart c = true)
    (hStop : ∀ c ∈ rest.head?, isPart c = false) :
    ∃ first place' more,
      cs = first ++ more ∧
      place.after first = some place' ∧
      Masked place' more rest ∧
      (value ≠ [] → first ≠ []) ∧
      (∀ c ∈ first, isCookiePart c = true) ∧
      (rest.head? = some '"' →
        ∀ c ∈ first, isPart c = true) := by
  generalize hText : value ++ rest = text at hMasked
  induction hMasked generalizing value with
  | nil place =>
      rcases List.append_eq_nil_iff.mp hText with ⟨rfl, rfl⟩
      refine
        ⟨[], place, [], rfl, rfl, .nil place, id, ?_, ?_⟩
      · intro c hc
        cases hc
      · intro hQuote
        cases hQuote
  | @keep place place' c cs ds hNext hRest ih =>
      cases value with
      | nil =>
          rw [List.nil_append] at hText
          rw [hText]
          refine
            ⟨[], place, c :: cs, rfl, rfl, .keep hNext hRest,
              id, ?_, ?_⟩
          · intro d hd
            cases hd
          · intro hQuote d hd
            cases hd
      | cons d value =>
          cases hText
          rcases
            ih (fun e he =>
              hValue e (List.mem_cons_of_mem c he)) rfl with
            ⟨first, last, more, rfl, hAfter, hMore, -, hCookie,
              hParts⟩
          have hHead := hValue c List.mem_cons_self
          refine
            ⟨c :: first, last, more, rfl, ?_, hMore, ?_, ?_, ?_⟩
          · rw [after_cons, hNext]
            exact hAfter
          · exact fun _ => List.cons_ne_nil c first
          · exact
              List.forall_mem_cons.mpr
                ⟨isCookiePart_of_isPart hKind hHead, hCookie⟩
          · intro hQuote
            exact
              List.forall_mem_cons.mpr ⟨hHead, hParts hQuote⟩
  | @mask masked others ds hSome hMarked hPlace hAfterMark hRest
      ih =>
      rcases mark_in_value hKind hStop hText.symm with
        ⟨later, rfl, hLater⟩
      rcases
        ih (fun c hc =>
          hValue c (List.mem_append_right redacted hc))
          hLater.symm with
        ⟨first, last, more, rfl, hAfter, hMore, -, hCookie,
          hParts⟩
      refine
        ⟨masked ++ first, last, more, ?_, ?_, hMore, ?_, ?_, ?_⟩
      · rw [List.append_assoc]
      · rw [after_join _ hPlace]
        exact hAfter
      · exact
          fun _ => List.append_ne_nil_of_left_ne_nil hSome _
      · exact List.forall_mem_append.mpr ⟨hMarked, hCookie⟩
      · intro hQuote
        rcases hKind with rfl | rfl
        · -- A token ends with the mark, and no quote is there.
          exfalso
          rw [hLater] at hAfterMark
          cases later with
          | nil => exact (hAfterMark '"' hQuote).2 rfl
          | cons c later =>
              have hOutside := (hAfterMark c rfl).1
              rw [hValue c (by simp)] at hOutside
              cases hOutside
        · exact List.forall_mem_append.mpr ⟨hMarked, hCookie⟩

end Masked

end PigBook.Observability

------------------------------------------------------------
-- Rules on Texts with Marks
------------------------------------------------------------

namespace PigBook.Observability

open Regex Delivery OwnScope JsonText

section

variable {word : String}
variable {scheme : Pattern Char}
variable {isPart : Char → Bool}

/- A text of a class in front of what is none of it. -/
theorem head_ends_value
    {p : Char → Bool}
    {value rest : List Char}
    (hSome : value ≠ [])
    (hValue : ∀ c ∈ value, p c = true)
    (hStop : ∀ c ∈ rest.head?, p c = false) :
    ((Pattern.plus p).ends (value ++ rest)).head? =
      some rest := by
  cases value with
  | nil => exact absurd rfl hSome
  | cons c value =>
      rw [List.forall_mem_cons] at hValue
      rw [List.cons_append, head_ends_plus hValue.1,
        List.dropWhile_append_of_pos hValue.2]
      cases rest with
      | nil => rfl
      | cons d rest =>
          rw [List.dropWhile_cons_of_neg]
          rw [hStop d rfl]
          exact Bool.false_ne_true

/- A rule keeps the first character of a text. -/
theorem head_sub_field
    (hSuitable : Suitable word scheme isPart)
    (ds : List Char) :
    (sub (fieldRule word scheme isPart).find 0 ds).head? =
      ds.head? := by
  cases hFind : (fieldRule word scheme isPart).find ds with
  | none =>
      cases ds with
      | nil => rfl
      | cons c ds => rw [sub_of_none hFind]; rfl
  | some found =>
      rcases found with ⟨text, n⟩
      rcases field_spec hFind with
        ⟨kept, value, rest, hDs, -, hText, -, hGroup, -⟩
      rcases kept_split hSuitable hGroup with
        ⟨front, sign, back, hKept, -, hSome⟩
      rw [sub_found (proper_fieldRule _ _ _) hFind, hText, hDs,
        hKept]
      cases front with
      | nil => exact absurd rfl hSome
      | cons c front => rfl

/- Nothing that a rule looks for begins in a mark. -/
theorem find_in_mark
    (hSuitable : Suitable word scheme isPart)
    {zs : List Char}
    (more : List Char)
    (hSome : zs ≠ [])
    (hSuffix : zs <:+ redacted) :
    (fieldRule word scheme isPart).find (zs ++ more) = none := by
  have hMark : redacted = "[REDACTED".toList ++ [']'] := by
    decide
  rw [hMark] at hSuffix
  rcases List.suffix_concat_iff.mp hSuffix with
    hNil | ⟨zs', rfl, hShort⟩
  · exact absurd hNil hSome
  · apply Rule.find_of_group
    rw [List.append_assoc, List.singleton_append,
      Pattern.ends_foreign more zs'
        (avoids_mem hSuitable.bracket (by simp)),
      hSuitable.mark zs' ((List.mem_tails zs' _).mpr hShort)]
    rfl

theorem overruns_mark
    (hSuitable : Suitable word scheme isPart)
    {mark : List Char}
    (ds : List Char)
    (hSuffix : mark <:+ redacted) :
    overruns (fieldRule word scheme isPart).find 0
        (mark ++ ds) =
      overruns (fieldRule word scheme isPart).find 0 ds := by
  induction mark with
  | nil => rfl
  | cons c mark ih =>
      have hNone :=
        find_in_mark hSuitable ds (List.cons_ne_nil c mark)
          hSuffix
      rw [List.cons_append] at hNone ⊢
      rw [overruns_none hNone]
      exact ih ((List.suffix_cons c mark).trans hSuffix)

/-
  Where a rule matches, the first text has a value of its
  own, and no quotation mark is after it.
-/
theorem masked_match
    {place : Place}
    {cs kept value rest : List Char}
    (hSuitable : Suitable word scheme isPart)
    (hMasked : Masked place cs (kept ++ (value ++ rest)))
    (hAfter : place.after cs = some .plain)
    (hClean :
      runsUp (fieldRule word scheme isPart) cs = false)
    (hSome : value ≠ [])
    (hGroup :
      value ++ rest ∈
        (fieldRule word scheme isPart).group.ends
          (kept ++ (value ++ rest)))
    (hValue : ∀ c ∈ value, isPart c = true)
    (hStop : ∀ c ∈ rest.head?, isPart c = false) :
    ∃ first more,
      cs = kept ++ (first ++ more) ∧
      place.after kept = some .plain ∧
      Place.plain.after first = some .plain ∧
      first ≠ [] ∧
      (∀ c ∈ first, isCookiePart c = true) ∧
      Masked .plain more rest ∧
      rest.head? ≠ some '"' := by
  have hBracket : '[' ∉ kept :=
    not_mem_kept
      (avoids_mem hSuitable.bracket List.mem_cons_self) hGroup
  rcases hMasked.split hBracket with
    ⟨mid, others, rfl, hKept, hOthers⟩
  have hMid := plain_after_kept hSuitable hGroup hKept
  rw [hMid] at hKept hOthers
  rcases hOthers.value hSuitable.kind hValue hStop with
    ⟨first, last, more, rfl, hFirst, hMore, hNonempty, hCookie,
      hParts⟩
  have hHead : rest.head? ≠ some '[' := by
    intro hBegins
    have hPart : isPart '[' = true :=
      isPart_redacted hSuitable.kind (by decide)
    rw [hStop '[' hBegins] at hPart
    cases hPart
  have hSame := hMore.head hHead
  have hQuote : rest.head? ≠ some '"' := by
    intro hBegins
    have hEnds :
        ((fieldRule word scheme isPart).rest.ends
          (first ++ more)).head? = some more := by
      apply head_ends_value (hNonempty hSome) (hParts hBegins)
      rw [hSame]
      exact hStop
    have hRuns :
        runsUp (fieldRule word scheme isPart)
            (kept ++ (first ++ more)) =
          true := by
      unfold runsUp
      rw [List.any_eq_true]
      refine
        ⟨first ++ more, Pattern.ends_local hGroup _, ?_⟩
      rw [hEnds, Option.any_some, decide_eq_true_iff, hSame]
      exact hBegins
    rw [hRuns] at hClean
    cases hClean
  rw [after_join _ hKept, after_join _ hFirst] at hAfter
  have hLast : last = .plain := by
    cases more with
    | nil => exact Option.some.inj hAfter
    | cons c more =>
        rw [after_cons] at hAfter
        rcases Option.bind_eq_some_iff.mp hAfter with
          ⟨place', hNext, -⟩
        rcases hSuitable.stop c (hStop c hSame.symm) with
          hIsQuote | hOutside
        · exfalso
          apply hQuote
          rw [← hSame, hIsQuote]
          rfl
        · exact plain_of_next hOutside hNext
  rw [hLast] at hFirst hMore
  exact
    ⟨first, more, rfl, hKept, hFirst, hNonempty hSome, hCookie,
      hMore, hQuote⟩

/- A rule on a text with marks only makes further marks. -/
theorem masked_sub
    {place : Place}
    {cs ds : List Char}
    (hSuitable : Suitable word scheme isPart)
    (hMasked : Masked place cs ds)
    (hAfter : place.after cs = some .plain)
    (hClean :
      ∀ zs, zs <:+ cs →
        runsUp (fieldRule word scheme isPart) zs = false) :
    overruns (fieldRule word scheme isPart).find 0 ds = false ∧
      Masked place cs
        (sub (fieldRule word scheme isPart).find 0 ds) := by
  have hProper := proper_fieldRule word scheme isPart
  -- After a match or a mark, what is left is a shorter text.
  induction hLength : ds.length using Nat.strong_induction_on
    generalizing place cs ds with
  | _ n ih =>
  cases hFind : (fieldRule word scheme isPart).find ds with
  | some found =>
      rcases found with ⟨text, k⟩
      rcases field_spec hFind with
        ⟨kept, value, rest, rfl, rfl, rfl, hSome, hGroup,
          hValue, hStop⟩
      rcases
        masked_match hSuitable hMasked hAfter
          (hClean cs List.suffix_rfl) hSome hGroup hValue
          hStop with
        ⟨first, more, rfl, hKept, hFirst, hNonempty, hCookie,
          hMore, hQuote⟩
      have hPos := List.length_pos_of_ne_nil hSome
      simp only [List.length_append] at hLength
      rw [after_join _ hKept, after_join _ hFirst] at hAfter
      rcases
        ih rest.length (by omega) hMore hAfter
          (fun zs hzs =>
            hClean zs
              ((hzs.trans (List.suffix_append first more)).trans
                (List.suffix_append kept _))) rfl with
        ⟨hStays, hSub⟩
      rw [overruns_found hProper hFind, sub_found hProper hFind,
        drop_match, hStays, Bool.or_false, decide_eq_false_iff_not,
        List.append_assoc]
      refine ⟨hQuote, .append hKept ?_⟩
      refine .mask hNonempty hCookie hFirst ?_ hSub
      intro c hc
      rw [head_sub_field hSuitable] at hc
      refine ⟨isTokenPart_of_isPart hSuitable.kind (hStop c hc), ?_⟩
      intro hIsQuote
      rw [hIsQuote] at hc
      exact hQuote hc
  | none =>
      cases hMasked with
      | nil => exact ⟨rfl, .nil place⟩
      | @keep _ place' c cs ds hNext hRest =>
          rw [after_cons, hNext] at hAfter
          rw [List.length_cons] at hLength
          rcases
            ih ds.length (by omega) hRest hAfter
              (fun zs hzs =>
                hClean zs (hzs.trans (List.suffix_cons c cs)))
              rfl with
            ⟨hStays, hSub⟩
          rw [overruns_none hFind, sub_of_none hFind]
          exact ⟨hStays, .keep hNext hSub⟩
      | @mask value rest ds hSome hValue hPlace hStop hRest =>
          rw [after_join _ hPlace] at hAfter
          have hPos : 0 < redacted.length := by decide
          rw [List.length_append] at hLength
          rcases
            ih ds.length (by omega) hRest hAfter
              (fun zs hzs =>
                hClean zs
                  (hzs.trans (List.suffix_append value rest)))
              rfl with
            ⟨hStays, hSub⟩
          rw [overruns_mark hSuitable ds List.suffix_rfl,
            sub_of_all_none ds fun zs =>
              find_in_mark hSuitable ds]
          refine
            ⟨hStays, .mask hSome hValue hPlace ?_ hSub⟩
          rw [head_sub_field hSuitable]
          exact hStop

end

end PigBook.Observability

------------------------------------------------------------
-- Clean Texts Stay Whole
------------------------------------------------------------

namespace PigBook.Observability

open Regex Delivery OwnScope JsonText

theorem cuts_append
    {find : List Char → Option (List Char × ℕ)}
    {place place' : Place}
    {value : List Char}
    (rest : List Char)
    (hAfter : place.after value = some place')
    (hCuts : cuts find place' rest = true) :
    cuts find place (value ++ rest) = true := by
  induction value generalizing place with
  | nil =>
      cases hAfter
      exact hCuts
  | cons c value ih =>
      rw [after_cons] at hAfter
      rcases Option.bind_eq_some_iff.mp hAfter with
        ⟨mid, hNext, hMore⟩
      rw [List.cons_append, cuts_cons _ hNext, ih hMore,
        Bool.or_true]

/- An address in the text with marks is one in the first. -/
theorem email_of_masked
    {place : Place}
    {cs ds : List Char}
    (hMasked : Masked place cs ds)
    (hFind : (emailRule.find ds).isSome = true) :
    (emailRule.find cs).isSome = true := by
  rcases Option.isSome_iff_exists.mp hFind with
    ⟨⟨text, n⟩, hFound⟩
  rcases Rule.find_spec hFound with
    ⟨kept, value, rest, rfl, hGroup, -⟩
  have hBracket : '[' ∉ kept := by
    intro hMem
    rcases Pattern.ends_split hGroup with ⟨m, hM, hAll⟩
    rw [← List.append_cancel_right hM] at hAll
    exact absurd (hAll '[' hMem) (by decide)
  rcases hMasked.split hBracket with ⟨-, more, rfl, -⟩
  have hMem := Pattern.ends_local hGroup more
  rw [Rule.find_eq, List.findSome?_isSome_iff]
  exact ⟨more, hMem, rfl⟩

theorem cuts_of_masked
    {place : Place}
    {cs ds : List Char}
    (hMasked : Masked place cs ds)
    (hCuts : cuts emailRule.find place ds = true) :
    cuts emailRule.find place cs = true := by
  induction hMasked with
  | nil => cases hCuts
  | @keep place place' c cs ds hNext hRest ih =>
      rw [cuts_cons _ hNext, Bool.or_eq_true,
        Bool.and_eq_true] at hCuts ⊢
      rcases hCuts with hHere | hLater
      · left
        exact
          ⟨hHere.1, email_of_masked (.keep hNext hRest) hHere.2⟩
      · exact Or.inr (ih hLater)
  | mask hSome hValue hPlace hStop hRest ih =>
      apply cuts_append _ hPlace
      apply ih
      rw [← hCuts]
      exact
        (cuts_plain (by decide) (after_mark (Or.inl rfl))).symm

theorem breaks_of_masked
    {rules : List (Rule Char)}
    {cs ds : List Char}
    (hRules : ∀ rule ∈ rules, rule ∈ fieldRules)
    (hMasked : Masked .plain cs ds)
    (hBody : IsBody cs)
    (hClean : clean cs = true) :
    breaks rules ds = false := by
  unfold clean at hClean
  rw [Bool.and_eq_true, List.all_eq_true, Bool.not_eq_true']
    at hClean
  rcases hClean with ⟨hFields, hEmail⟩
  induction rules generalizing ds with
  | nil =>
      by_contra hCuts
      rw [Bool.not_eq_false] at hCuts
      rw [cuts_of_masked hMasked hCuts] at hEmail
      cases hEmail
  | cons rule rules ih =>
      have hRule := hRules rule List.mem_cons_self
      rcases isField_of_mem hRule with
        ⟨word, scheme, isPart, rfl, hSuitable⟩
      rcases
        masked_sub hSuitable hMasked hBody (by
          intro zs hzs
          have hAll := List.all_eq_true.mp
            (hFields zs ((List.mem_tails zs cs).mpr hzs)) _ hRule
          exact (Bool.not_eq_true' _).mp hAll) with
        ⟨hStays, hSub⟩
      unfold breaks
      rw [hStays, Bool.false_or]
      exact
        ih (fun r hr => hRules r (List.mem_cons_of_mem _ hr))
          hSub

/- A clean string is not torn where it is redacted. -/
theorem breaks_of_clean
    {text : String}
    (hClean : cleanString text = true) :
    breaksString text = false :=
  breaks_of_masked (fun _ hRule => hRule)
    (.refl (isBody_escapes text.toList))
    (isBody_escapes text.toList) hClean

end PigBook.Observability
