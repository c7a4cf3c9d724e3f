import Mathlib.Data.List.Chain
import Mathlib.Data.List.TakeWhile
import PigBook.Regex.Substitution

/-
  Texts in which each run of a class of characters has become
  one character, and none is left at the ends.

  Key definitions include:
    * `squeeze`, `trim`
    * `Apart`, `Tidy`

  Key theorems include:
    * `squeeze_apart`, `squeeze_of_apart`
    * `trim_tidy`, `trim_of_tidy`
    * `filter_squeeze`, `filter_trim`
-/

------------------------------------------------------------
-- Runs
------------------------------------------------------------

namespace Regex

variable {α : Type} {p : α → Bool} {b c : α}
variable {cs : List α}

/- A run of the class is replaced by the character. -/
def runsRule (p : α → Bool) (b : α) : Rule α where
  group := .empty
  rest := .plus p
  replace := fun _ => [b]

/- Each run has become one character. -/
def squeeze (p : α → Bool) (b : α) (cs : List α) : List α :=
  sub (runsRule p b).find 0 cs

/- A character outside the class stays, -/
theorem squeeze_other
    (hOther : p c = false)
    (cs : List α) :
    squeeze p b (c :: cs) = c :: squeeze p b cs := by
  apply sub_of_none
  simp [Rule.find, runsRule, Pattern.ends, Pattern.plus, hOther]

/- and a run is passed over as a whole. -/
theorem squeeze_run
    (hRun : p c = true)
    (cs : List α) :
    squeeze p b (c :: cs) =
      b :: squeeze p b (cs.dropWhile p) := by
  have hSplit := List.takeWhile_append_dropWhile (p := p) (l := cs)
  have hFind :
      (runsRule p b).find (c :: cs) =
        some ([b], (c :: cs.takeWhile p).length) := by
    have hLength := congrArg List.length hSplit
    rw [List.length_append] at hLength
    simp only [Rule.find, runsRule, Pattern.ends, Pattern.plus,
      hRun, if_true, List.flatMap_cons, List.flatMap_nil,
      List.append_nil, List.head?_map, head_starEnds,
      Option.map_some, List.length_cons, Option.some.injEq,
      Prod.mk.injEq, true_and]
    omega
  have hWhole :
      c :: cs = (c :: cs.takeWhile p) ++ cs.dropWhile p := by
    rw [List.cons_append, hSplit]
  unfold squeeze
  rw [hWhole] at hFind ⊢
  rw [sub_of_match (List.cons_ne_nil _ _) hFind,
    List.singleton_append]

/- Characters of the class are all the same, and apart. -/
structure Apart
    (p : α → Bool)
    (b : α)
    (cs : List α) : Prop where
  same : ∀ c ∈ cs, p c = true → c = b
  apart : cs.IsChain (fun c c' => p c = false ∨ p c' = false)

theorem Apart.nil : Apart p b [] where
  same := fun _ hMem => absurd hMem List.not_mem_nil
  apart := .nil

/- A character in front must differ in class from the next. -/
theorem Apart.cons
    (hSame : p c = true → c = b)
    (hNext : p c = true → ∀ c' ∈ cs.head?, p c' = false)
    (hApart : Apart p b cs) :
    Apart p b (c :: cs) where
  same := by
    intro c' hMem hClass
    rcases List.mem_cons.mp hMem with rfl | hOld
    · exact hSame hClass
    · exact hApart.same c' hOld hClass
  apart := by
    apply List.isChain_cons.mpr
    refine ⟨?_, hApart.apart⟩
    intro c' hHead
    by_cases hClass : p c = true
    · exact Or.inr (hNext hClass c' hHead)
    · exact Or.inl (Bool.eq_false_iff.mpr hClass)

theorem Apart.tail
    (hApart : Apart p b (c :: cs)) :
    Apart p b cs where
  same := fun c' hMem =>
    hApart.same c' (List.mem_cons_of_mem c hMem)
  apart := (List.isChain_cons.mp hApart.apart).2

theorem Apart.infix
    {cs' : List α}
    (hInfix : cs' <:+: cs)
    (hApart : Apart p b cs) :
    Apart p b cs' where
  same := fun c hMem => hApart.same c (hInfix.subset hMem)
  apart := hApart.apart.infix hInfix

/- A text that begins with none of the class still does. -/
theorem head_squeeze
    (hHead : ∀ c ∈ cs.head?, p c = false) :
    (squeeze p b cs).head? = cs.head? := by
  cases cs with
  | nil => rfl
  | cons c cs =>
      rw [squeeze_other (hHead c rfl)]
      rfl

/- What is left of a text does not begin with the class. -/
theorem head_dropWhile
    (cs : List α) :
    ∀ c ∈ (cs.dropWhile p).head?, p c = false := by
  intro c hHead
  have hNot := List.head?_dropWhile_not p cs
  rw [Option.mem_def.mp hHead] at hNot
  simpa using hNot

/-
  By induction on the length, since a whole run goes at once.
-/
theorem squeeze_apart (cs : List α) :
    Apart p b (squeeze p b cs) := by
  induction hLength : cs.length using Nat.strong_induction_on
    generalizing cs with
  | _ n ih =>
      cases cs with
      | nil => exact .nil
      | cons c cs =>
          rw [List.length_cons] at hLength
          by_cases hRun : p c = true
          · rw [squeeze_run hRun]
            have hShort := (cs.dropWhile_suffix p).length_le
            have hRest :=
              ih (cs.dropWhile p).length (by omega) _ rfl
            refine Apart.cons (fun _ => rfl) ?_ hRest
            intro _
            rw [head_squeeze (head_dropWhile cs)]
            exact head_dropWhile cs
          · have hOther := Bool.eq_false_iff.mpr hRun
            rw [squeeze_other hOther]
            apply Apart.cons
            · intro hClass
              exact absurd hClass hRun
            · intro hClass
              exact absurd hClass hRun
            · exact ih cs.length (by omega) cs rfl

/- Where nothing is left to squeeze, nothing changes. -/
theorem squeeze_of_apart
    (hApart : Apart p b cs) :
    squeeze p b cs = cs := by
  induction cs with
  | nil => rfl
  | cons c cs ih =>
      have hRest := ih hApart.tail
      by_cases hRun : p c = true
      · have hNext := (List.isChain_cons.mp hApart.apart).1
        have hDrop : cs.dropWhile p = cs := by
          cases cs with
          | nil => rfl
          | cons c' cs =>
              apply List.dropWhile_cons_of_neg
              rcases hNext c' rfl with hFalse | hFalse
              · rw [hRun] at hFalse
                cases hFalse
              · rw [hFalse]
                exact Bool.false_ne_true
        rw [squeeze_run hRun, hDrop, hRest,
          hApart.same c List.mem_cons_self hRun]
      · rw [squeeze_other (Bool.eq_false_iff.mpr hRun), hRest]

/- Nothing is new but the one character. -/
theorem mem_squeeze
    {x : α}
    (cs : List α)
    (hMem : x ∈ squeeze p b cs) :
    x ∈ cs ∨ x = b := by
  induction hLength : cs.length using Nat.strong_induction_on
    generalizing cs with
  | _ n ih =>
      cases cs with
      | nil => exact Or.inl hMem
      | cons c cs =>
          rw [List.length_cons] at hLength
          by_cases hRun : p c = true
          · rw [squeeze_run hRun] at hMem
            rcases List.mem_cons.mp hMem with hNew | hOld
            · exact Or.inr hNew
            · have hSuffix := cs.dropWhile_suffix p
              have hShort := hSuffix.length_le
              rcases ih (cs.dropWhile p).length (by omega) _
                  hOld rfl with
                hThere | hNew
              · exact
                  Or.inl
                    (List.mem_cons_of_mem c
                      (hSuffix.subset hThere))
              · exact Or.inr hNew
          · rw [squeeze_other (Bool.eq_false_iff.mpr hRun)] at hMem
            rcases List.mem_cons.mp hMem with rfl | hOld
            · exact Or.inl List.mem_cons_self
            · rcases ih cs.length (by omega) cs hOld rfl with
                hThere | hNew
              · exact Or.inl (List.mem_cons_of_mem c hThere)
              · exact Or.inr hNew

/- Characters outside the class are kept, in their order. -/
theorem filter_squeeze
    {q : α → Bool}
    (hClass : ∀ c, p c = true → q c = false)
    (hNew : q b = false)
    (cs : List α) :
    (squeeze p b cs).filter q = cs.filter q := by
  induction hLength : cs.length using Nat.strong_induction_on
    generalizing cs with
  | _ n ih =>
      cases cs with
      | nil => rfl
      | cons c cs =>
          rw [List.length_cons] at hLength
          by_cases hRun : p c = true
          · have hShort := (cs.dropWhile_suffix p).length_le
            have hRest :=
              ih (cs.dropWhile p).length (by omega) _ rfl
            have hNone : (cs.takeWhile p).filter q = [] := by
              apply List.filter_eq_nil_iff.mpr
              intro c' hMem
              rw [hClass c' (List.mem_takeWhile_imp hMem)]
              exact Bool.false_ne_true
            have hSplit :=
              List.takeWhile_append_dropWhile (p := p) (l := cs)
            rw [squeeze_run hRun,
              List.filter_cons_of_neg (by simp [hNew]),
              List.filter_cons_of_neg (by simp [hClass c hRun]),
              hRest]
            conv_rhs => rw [← hSplit]
            rw [List.filter_append, hNone, List.nil_append]
          · have hRest := ih cs.length (by omega) cs rfl
            rw [squeeze_other (Bool.eq_false_iff.mpr hRun),
              List.filter_cons, List.filter_cons, hRest]

end Regex

------------------------------------------------------------
-- Ends
------------------------------------------------------------

namespace Regex

variable {α : Type} {p : α → Bool} {b : α} {cs : List α}

/- What is left between the ends that are of the class. -/
def trim (p : α → Bool) (cs : List α) : List α :=
  ((cs.dropWhile p).reverse.dropWhile p).reverse

/- Apart, and none of the class at the ends. -/
structure Tidy
    (p : α → Bool)
    (b : α)
    (cs : List α) : Prop extends Apart p b cs where
  first : ∀ c ∈ cs.head?, p c = false
  last : ∀ c ∈ cs.getLast?, p c = false

/- A trimmed text is a stretch of the one it comes from. -/
theorem trim_prefixOf (cs : List α) :
    trim p cs <+: cs.dropWhile p := by
  unfold trim
  rw [← List.reverse_suffix, List.reverse_reverse]
  exact List.dropWhile_suffix p

theorem trim_infixOf (cs : List α) :
    trim p cs <:+: cs :=
  (trim_prefixOf cs).isInfix.trans
    (List.dropWhile_suffix p).isInfix

theorem filter_dropWhile
    {q : α → Bool}
    (hClass : ∀ c, p c = true → q c = false)
    (cs : List α) :
    (cs.dropWhile p).filter q = cs.filter q := by
  induction cs with
  | nil => rfl
  | cons c cs ih =>
      by_cases hRun : p c = true
      · rw [List.dropWhile_cons_of_pos hRun, ih,
          List.filter_cons_of_neg (by simp [hClass c hRun])]
      · rw [List.dropWhile_cons_of_neg hRun]

/- Nothing but the class is lost at the ends. -/
theorem filter_trim
    {q : α → Bool}
    (hClass : ∀ c, p c = true → q c = false)
    (cs : List α) :
    (trim p cs).filter q = cs.filter q := by
  unfold trim
  rw [List.filter_reverse, filter_dropWhile hClass,
    List.filter_reverse, List.reverse_reverse,
    filter_dropWhile hClass]

/- A squeezed text that is trimmed is tidy, -/
theorem trim_tidy
    (hApart : Apart p b cs) :
    Tidy p b (trim p cs) where
  toApart := hApart.infix (trim_infixOf cs)
  first := by
    intro c hHead
    apply head_dropWhile cs
    rcases trim_prefixOf (p := p) cs with ⟨rest, hRest⟩
    rw [← hRest]
    exact List.mem_head?_append_of_mem_head? hHead
  last := by
    intro c hLast
    unfold trim at hLast
    rw [List.getLast?_reverse] at hLast
    exact head_dropWhile _ c hLast

theorem dropWhile_of_head
    (hHead : ∀ c ∈ cs.head?, p c = false) :
    cs.dropWhile p = cs := by
  cases cs with
  | nil => rfl
  | cons c cs =>
      apply List.dropWhile_cons_of_neg
      rw [hHead c rfl]
      exact Bool.false_ne_true

/- and a tidy one is trimmed already. -/
theorem trim_of_tidy
    (hTidy : Tidy p b cs) :
    trim p cs = cs := by
  unfold trim
  rw [dropWhile_of_head hTidy.first, dropWhile_of_head,
    List.reverse_reverse]
  intro c hHead
  rw [List.head?_reverse] at hHead
  exact hTidy.last c hHead

end Regex
