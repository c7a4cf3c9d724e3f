import PigBook.Regex.Substitution

/-
  Characters that the matches of a pattern stop at.

  Key definitions include:
    * `Pattern.mentions`

  Key theorems include:
    * `Pattern.ends_split`
    * `Pattern.ends_foreign`
    * `Pattern.ends_last`
    * `Rule.find_spec`
    * `Rule.find_foreign`, `Rule.find_last`
    * `sub_induction`
-/

------------------------------------------------------------
-- The Characters of a Pattern
------------------------------------------------------------

namespace Regex

variable {α : Type}

namespace Pattern

/- Some class of the pattern has the character. -/
def mentions : Pattern α → α → Bool
| empty, _ => false
| cls p, c => p c
| seq r s, c => r.mentions c || s.mentions c
| alt r s, c => r.mentions c || s.mentions c
| opt r, c => r.mentions c
| star p, c => p c

end Pattern

theorem starEnds_split
    {p : α → Bool}
    {cs rest : List α}
    (hMem : rest ∈ starEnds p cs) :
    ∃ m, cs = m ++ rest ∧ ∀ c ∈ m, p c = true := by
  induction cs with
  | nil =>
      rw [starEnds, List.mem_singleton] at hMem
      subst hMem
      exact ⟨[], rfl, by simp⟩
  | cons c cs ih =>
      unfold starEnds at hMem
      split at hMem
      next hClass =>
        rcases List.mem_append.mp hMem with hMore | hOne
        · rcases ih hMore with ⟨m, hCs, hAll⟩
          refine ⟨c :: m, ?_, ?_⟩
          · rw [hCs]
            rfl
          · intro d hd
            rcases List.mem_cons.mp hd with hHead | hTail
            · rw [hHead]
              exact hClass
            · exact hAll d hTail
        · cases List.mem_singleton.mp hOne
          exact ⟨[], rfl, by simp⟩
      next =>
        cases List.mem_singleton.mp hMem
        exact ⟨[], rfl, by simp⟩

namespace Pattern

/- A match has only characters of the pattern's classes. -/
theorem ends_split
    {r : Pattern α}
    {cs rest : List α}
    (hMem : rest ∈ r.ends cs) :
    ∃ m, cs = m ++ rest ∧ ∀ c ∈ m, r.mentions c = true := by
  induction r generalizing cs rest with
  | empty =>
      rw [ends, List.mem_singleton] at hMem
      subst hMem
      exact ⟨[], rfl, by simp⟩
  | cls p =>
      cases cs with
      | nil => cases hMem
      | cons c cs =>
          unfold ends at hMem
          split at hMem
          next hClass =>
            rw [List.mem_singleton.mp hMem]
            refine ⟨[c], rfl, ?_⟩
            intro d hd
            rw [List.mem_singleton.mp hd]
            exact hClass
          next => cases hMem
  | seq r s ihr ihs =>
      rcases List.mem_flatMap.mp hMem with ⟨mid, hMid, hRest⟩
      rcases ihr hMid with ⟨m, hCs, hAll⟩
      rcases ihs hRest with ⟨m', hCs', hAll'⟩
      refine ⟨m ++ m', ?_, ?_⟩
      · rw [hCs, hCs', List.append_assoc]
      · intro c hc
        unfold mentions
        rw [Bool.or_eq_true]
        rcases List.mem_append.mp hc with hLeft | hRight
        · exact Or.inl (hAll c hLeft)
        · exact Or.inr (hAll' c hRight)
  | alt r s ihr ihs =>
      rcases List.mem_append.mp hMem with hLeft | hRight
      · rcases ihr hLeft with ⟨m, hCs, hAll⟩
        refine ⟨m, hCs, ?_⟩
        intro c hc
        unfold mentions
        rw [hAll c hc, Bool.true_or]
      · rcases ihs hRight with ⟨m, hCs, hAll⟩
        refine ⟨m, hCs, ?_⟩
        intro c hc
        unfold mentions
        rw [hAll c hc, Bool.or_true]
  | opt r ih =>
      rcases List.mem_append.mp hMem with hSome | hNone
      · exact ih hSome
      · cases List.mem_singleton.mp hNone
        exact ⟨[], rfl, by simp⟩
  | star p => exact starEnds_split hMem

end Pattern

theorem starEnds_foreign
    {p : α → Bool}
    {y : α}
    (more zs : List α)
    (hForeign : p y = false) :
    starEnds p (zs ++ y :: more) =
      (starEnds p zs).map (· ++ y :: more) := by
  induction zs with
  | nil =>
      rw [List.nil_append]
      unfold starEnds
      rw [if_neg (by simp [hForeign])]
      rfl
  | cons z zs ih =>
      rw [List.cons_append]
      unfold starEnds
      rw [ih]
      split
      · rw [List.map_append]
        rfl
      · rfl

namespace Pattern

/- No match goes beyond a character of none of the classes. -/
theorem ends_foreign
    {r : Pattern α}
    {y : α}
    (more zs : List α)
    (hForeign : r.mentions y = false) :
    r.ends (zs ++ y :: more) =
      (r.ends zs).map (· ++ y :: more) := by
  induction r generalizing zs with
  | empty => rfl
  | cls p =>
      cases zs with
      | nil =>
          have hNot : ¬ p y = true := by
            rw [show p y = false from hForeign]
            exact Bool.false_ne_true
          exact if_neg hNot
      | cons z zs =>
          rw [List.cons_append]
          unfold ends
          split
          · rfl
          · rfl
  | seq r s ihr ihs =>
      unfold mentions at hForeign
      rw [Bool.or_eq_false_iff] at hForeign
      unfold ends
      rw [ihr zs hForeign.1, List.flatMap_map, List.map_flatMap]
      congr 1
      funext mid
      exact ihs mid hForeign.2
  | alt r s ihr ihs =>
      unfold mentions at hForeign
      rw [Bool.or_eq_false_iff] at hForeign
      unfold ends
      rw [ihr zs hForeign.1, ihs zs hForeign.2,
        List.map_append]
  | opt r ih =>
      unfold ends
      rw [ih zs hForeign, List.map_append]
      rfl
  | star p => exact starEnds_foreign more zs hForeign

end Pattern

/- Some text is left. -/
def isSomeText (cs : List α) : Bool :=
  !cs.isEmpty

theorem starEnds_last
    {p : α → Bool}
    (y : α)
    (zs : List α) :
    (starEnds p (zs ++ [y])).filter isSomeText =
      (starEnds p zs).map (· ++ [y]) := by
  induction zs with
  | nil =>
      rw [List.nil_append]
      unfold starEnds
      split
      · rfl
      · rfl
  | cons z zs ih =>
      rw [List.cons_append]
      unfold starEnds
      split
      · rw [List.filter_append, ih, List.map_append]
        rfl
      · rfl

theorem ends_nil_text
    {r : Pattern α}
    {rest : List α}
    (hMem : rest ∈ r.ends []) :
    rest = [] :=
  List.suffix_nil.mp (Pattern.ends_suffix hMem)

/- From an empty text nothing leads to some text. -/
theorem flatMap_isSomeText
    (s : Pattern α)
    (mids : List (List α)) :
    (mids.flatMap s.ends).filter isSomeText =
      ((mids.filter isSomeText).flatMap s.ends).filter
        isSomeText := by
  induction mids with
  | nil => rfl
  | cons mid mids ih =>
      rw [List.flatMap_cons, List.filter_append, ih]
      cases mid with
      | nil =>
          have hNone :
              (s.ends []).filter isSomeText = [] := by
            apply List.filter_eq_nil_iff.mpr
            intro rest hMem
            rw [ends_nil_text hMem]
            exact Bool.false_ne_true
          rw [hNone]
          rfl
      | cons c cs =>
          rw [List.filter_cons_of_pos rfl, List.flatMap_cons,
            List.filter_append]

namespace Pattern

/-
  The matches that do not end with the last character are
  those without it.
-/
theorem ends_last
    {r : Pattern α}
    (y : α)
    (zs : List α) :
    (r.ends (zs ++ [y])).filter isSomeText =
      (r.ends zs).map (· ++ [y]) := by
  induction r generalizing zs with
  | empty => cases zs <;> rfl
  | cls p =>
      cases zs with
      | nil =>
          rw [List.nil_append]
          unfold ends
          split
          · rfl
          · rfl
      | cons z zs =>
          rw [List.cons_append]
          unfold ends
          split
          · cases zs <;> rfl
          · rfl
  | seq r s ihr ihs =>
      unfold ends
      rw [flatMap_isSomeText, ihr zs, List.flatMap_map,
        List.filter_flatMap, List.map_flatMap]
      congr 1
      funext mid
      exact ihs mid
  | alt r s ihr ihs =>
      unfold ends
      rw [List.filter_append, ihr zs, ihs zs, List.map_append]
  | opt r ih =>
      unfold ends
      rw [List.filter_append, ih zs, List.map_append]
      cases zs <;> rfl
  | star p => exact starEnds_last y zs

end Pattern

end Regex

------------------------------------------------------------
-- Rules
------------------------------------------------------------

namespace Regex

variable {α : Type}
variable {rule : Rule α}

namespace Rule

/- The match is the first that the rest of the rule allows. -/
theorem find_eq (cs : List α) :
    rule.find cs =
      (rule.group.ends cs).findSome? fun mid =>
        (rule.rest.ends mid).head?.map fun rest =>
          (rule.replace (cs.take (cs.length - mid.length)),
            cs.length - rest.length) := by
  unfold find
  rw [List.head?_flatMap, List.map_findSome?]
  congr 1
  funext mid
  rw [Function.comp_apply, List.head?_map, Option.map_map]
  rfl

/- What a match consists of. -/
theorem find_spec
    {cs text : List α}
    {n : ℕ}
    (hFind : rule.find cs = some (text, n)) :
    ∃ kept value rest,
      cs = kept ++ (value ++ rest) ∧
      value ++ rest ∈ rule.group.ends cs ∧
      (rule.rest.ends (value ++ rest)).head? = some rest ∧
      text = rule.replace kept ∧
      n = kept.length + value.length := by
  rw [find_eq] at hFind
  rcases List.exists_of_findSome?_eq_some hFind with
    ⟨mid, hMid, hMatch⟩
  rcases Option.map_eq_some_iff.mp hMatch with
    ⟨rest, hRest, hEq⟩
  rw [Prod.mk.injEq] at hEq
  rcases Pattern.ends_split hMid with ⟨kept, hCs, -⟩
  have hMem : rest ∈ rule.rest.ends mid :=
    List.mem_of_mem_head? hRest
  rcases Pattern.ends_split hMem with ⟨value, hValue, -⟩
  refine ⟨kept, value, rest, ?_, ?_, ?_, ?_, ?_⟩
  · rw [hCs, hValue]
  · rw [← hValue]
    exact hMid
  · rw [← hValue]
    exact hRest
  · have hTake : cs.length - mid.length = kept.length := by
      rw [hCs, List.length_append]
      omega
    rw [hTake, hCs, List.take_left] at hEq
    exact hEq.1.symm
  · rw [hCs, hValue] at hEq
    simp only [List.length_append] at hEq
    omega

/- A rule whose matches have something in common. -/
theorem find_congr
    {cs more : List α}
    (hGroup :
      (rule.group.ends (cs ++ more)).flatMap
          (fun mid =>
            (rule.rest.ends mid).map fun rest => (mid, rest)) =
        ((rule.group.ends cs).flatMap fun mid =>
          (rule.rest.ends mid).map fun rest =>
            (mid, rest)).map
              fun found =>
                (found.1 ++ more, found.2 ++ more)) :
    rule.find (cs ++ more) = rule.find cs := by
  unfold find
  rw [hGroup, List.head?_map, Option.map_map]
  cases hHead :
      ((rule.group.ends cs).flatMap fun mid =>
        (rule.rest.ends mid).map fun rest =>
          (mid, rest)).head? with
  | none => rfl
  | some found =>
      rcases found with ⟨mid, rest⟩
      have hMem := List.mem_of_mem_head? hHead
      rcases List.mem_flatMap.mp hMem with
        ⟨mid', hMid, hRest⟩
      rcases List.mem_map.mp hRest with ⟨rest', hRest', hEq⟩
      rw [Prod.mk.injEq] at hEq
      rcases hEq with ⟨rfl, rfl⟩
      have hMidLength := (Pattern.ends_suffix hMid).length_le
      have hRestLength :=
        (Pattern.ends_suffix hRest').length_le
      have hMidCount :
          (cs ++ more).length - (mid' ++ more).length =
            cs.length - mid'.length := by
        simp only [List.length_append]
        omega
      have hRestCount :
          (cs ++ more).length - (rest' ++ more).length =
            cs.length - rest'.length := by
        simp only [List.length_append]
        omega
      have hTake :
          (cs ++ more).take (cs.length - mid'.length) =
            cs.take (cs.length - mid'.length) := by
        apply List.take_append_of_le_length
        omega
      rw [Option.map_some, Option.map_some,
        Function.comp_apply]
      dsimp only
      rw [hMidCount, hRestCount, hTake]

/- A match ends before a character that no class has. -/
theorem find_foreign
    {y : α}
    (zs more : List α)
    (hGroup : rule.group.mentions y = false)
    (hRest : rule.rest.mentions y = false) :
    rule.find (zs ++ y :: more) = rule.find zs := by
  apply find_congr
  rw [Pattern.ends_foreign more zs hGroup, List.flatMap_map,
    List.map_flatMap]
  congr 1
  funext mid
  rw [Pattern.ends_foreign more mid hRest, List.map_map,
    List.map_map]
  rfl

/-
  A last character that the group may have does not matter
  where something else has to follow the group.
-/
theorem find_last
    {y : α}
    (zs : List α)
    (hSome : rule.rest.ends [] = [])
    (hRest : rule.rest.mentions y = false) :
    rule.find (zs ++ [y]) = rule.find zs := by
  apply find_congr
  have hFilter :
      ∀ mids : List (List α),
        mids.flatMap
            (fun mid =>
              (rule.rest.ends mid).map fun rest =>
                (mid, rest)) =
          (mids.filter isSomeText).flatMap
            fun mid =>
              (rule.rest.ends mid).map fun rest =>
                (mid, rest) := by
    intro mids
    induction mids with
    | nil => rfl
    | cons mid mids ih =>
        rw [List.flatMap_cons, ih]
        cases mid with
        | nil =>
            rw [hSome]
            rfl
        | cons c cs => rfl
  rw [hFilter, Pattern.ends_last, List.flatMap_map,
    List.map_flatMap]
  congr 1
  funext mid
  rw [Pattern.ends_foreign [] mid hRest, List.map_map,
    List.map_map]
  rfl

/- Nothing matches where the group does not. -/
theorem find_of_group
    {cs : List α}
    (hNone : rule.group.ends cs = []) :
    rule.find cs = none := by
  unfold find
  rw [hNone]
  rfl

end Rule

end Regex

------------------------------------------------------------
-- Substitutions
------------------------------------------------------------

namespace Regex

variable {α : Type}
variable {find : List α → Option (List α × ℕ)}

theorem sub_drop
    (n : ℕ)
    (cs : List α) :
    sub find n cs = sub find 0 (cs.drop n) := by
  induction cs generalizing n with
  | nil => cases n <;> rfl
  | cons c cs ih =>
      cases n with
      | zero => rfl
      | succ n => exact ih n

/- What is substituted for a match, and the text after it. -/
theorem sub_found
    {cs text : List α}
    {n : ℕ}
    (hProper : Proper find)
    (hFind : find cs = some (text, n)) :
    sub find 0 cs = text ++ sub find 0 (cs.drop n) := by
  have hBounds := hProper cs text n hFind
  cases cs with
  | nil =>
      rw [List.length_nil] at hBounds
      omega
  | cons c cs =>
      obtain ⟨k, rfl⟩ := Nat.exists_eq_add_of_le' hBounds.1
      rw [sub_of_some hFind, Nat.add_sub_cancel, sub_drop k]
      rfl

/-
  A text is the empty one, or nothing matches at its first
  character, or something does.
-/
theorem sub_induction
    {P : List α → Prop}
    (hProper : Proper find)
    (hNil : P [])
    (hNone :
      ∀ c cs, find (c :: cs) = none → P cs → P (c :: cs))
    (hSome :
      ∀ cs text n, find cs = some (text, n) →
        P (cs.drop n) → P cs)
    (cs : List α) : P cs := by
  induction hLength : cs.length using Nat.strong_induction_on
    generalizing cs with
  | _ k ih =>
      cases cs with
      | nil => exact hNil
      | cons c cs =>
          rw [List.length_cons] at hLength
          cases hFind : find (c :: cs) with
          | none =>
              apply hNone c cs hFind
              exact ih cs.length (by omega) cs rfl
          | some found =>
              rcases found with ⟨text, n⟩
              have hBounds := hProper _ _ _ hFind
              apply hSome _ text n hFind
              apply ih _ _ _ rfl
              rw [List.length_drop, List.length_cons]
              omega

end Regex
