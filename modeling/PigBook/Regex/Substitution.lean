import Mathlib.Data.List.Basic
import Mathlib.Data.Set.Function
import Mathlib.Tactic.Common

/-
  Regular expressions that backtrack, and the substitution of
  their matches from left to right.

  Key definitions include:
    * `Pattern`, `Pattern.ends`
    * `Rule`, `Rule.find`
    * `sub`
    * `inMatch`

  Key theorems include:
    * `flatMap_starEnds`
    * `findWords_proper`
    * `sub_append`
    * `sub_value`
-/

------------------------------------------------------------
-- Patterns
------------------------------------------------------------

namespace Regex

variable {α : Type}

/- Only classes of characters are repeated. -/
inductive Pattern (α : Type)
  | empty
  | cls (p : α → Bool)
  | seq (r s : Pattern α)
  | alt (r s : Pattern α)
  | opt (r : Pattern α)
  | star (p : α → Bool)

/- What a greedy repetition leaves, the longest match first. -/
def starEnds (p : α → Bool) : List α → List (List α)
| [] => [[]]
| c :: cs =>
    if p c then starEnds p cs ++ [c :: cs] else [c :: cs]

namespace Pattern

/-
  What the matches at the beginning of a text leave of it, in
  the order in which backtracking finds them.
-/
def ends : Pattern α → List α → List (List α)
| empty, cs => [cs]
| cls _, [] => []
| cls p, c :: cs => if p c then [cs] else []
| seq r s, cs => (r.ends cs).flatMap s.ends
| alt r s, cs => r.ends cs ++ s.ends cs
| opt r, cs => r.ends cs ++ [cs]
| star p, cs => starEnds p cs

def plus (p : α → Bool) : Pattern α :=
  seq (cls p) (star p)

/- One character of each class. -/
def word : List (α → Bool) → Pattern α
| [] => empty
| p :: ps => seq (cls p) (word ps)

def choice : List (Pattern α) → Pattern α
| [] => cls fun _ => false
| [r] => r
| r :: rs => alt r (choice rs)

end Pattern

theorem starEnds_suffix
    {p : α → Bool}
    {cs rest : List α}
    (hMem : rest ∈ starEnds p cs) :
    rest <:+ cs := by
  induction cs with
  | nil =>
      rw [starEnds, List.mem_singleton] at hMem
      subst hMem
      exact List.suffix_rfl
  | cons c cs ih =>
      unfold starEnds at hMem
      split at hMem
      · rcases List.mem_append.mp hMem with hMore | hOne
        · exact (ih hMore).trans (List.suffix_cons c cs)
        · cases List.mem_singleton.mp hOne
          exact List.suffix_rfl
      · cases List.mem_singleton.mp hMem
        exact List.suffix_rfl

theorem Pattern.ends_suffix
    {r : Pattern α}
    {cs rest : List α}
    (hMem : rest ∈ r.ends cs) :
    rest <:+ cs := by
  induction r generalizing cs rest with
  | empty =>
      rw [ends, List.mem_singleton] at hMem
      subst hMem
      exact List.suffix_rfl
  | cls p =>
      cases cs with
      | nil => cases hMem
      | cons c cs =>
          unfold ends at hMem
          split at hMem
          · rw [List.mem_singleton.mp hMem]
            exact List.suffix_cons c cs
          · cases hMem
  | seq r s ihr ihs =>
      rcases List.mem_flatMap.mp hMem with ⟨mid, hMid, hRest⟩
      exact (ihs hRest).trans (ihr hMid)
  | alt r s ihr ihs =>
      rcases List.mem_append.mp hMem with hLeft | hRight
      · exact ihr hLeft
      · exact ihs hRight
  | opt r ih =>
      rcases List.mem_append.mp hMem with hSome | hNone
      · exact ih hSome
      · cases List.mem_singleton.mp hNone
        exact List.suffix_rfl
  | star p => exact starEnds_suffix hMem

/-
  A repetition need not be cut short for what follows it, if
  that never begins with a character of its class.
-/
theorem flatMap_starEnds
    {β : Type}
    {p : α → Bool}
    {f : List α → List β}
    (hDisjoint : ∀ c cs, p c = true → f (c :: cs) = [])
    (cs : List α) :
    (starEnds p cs).flatMap f = f (cs.dropWhile p) := by
  induction cs with
  | nil => simp [starEnds]
  | cons c cs ih =>
      unfold starEnds
      by_cases hClass : p c = true
      · rw [if_pos hClass, List.flatMap_append, ih,
          List.dropWhile_cons_of_pos hClass]
        simp [hDisjoint c cs hClass]
      · rw [if_neg hClass, List.dropWhile_cons_of_neg hClass]
        simp

/- The longest match of a repetition comes first. -/
theorem head_starEnds
    (p : α → Bool)
    (cs : List α) :
    (starEnds p cs).head? = some (cs.dropWhile p) := by
  induction cs with
  | nil => rfl
  | cons c cs ih =>
      unfold starEnds
      by_cases hClass : p c = true
      · rw [if_pos hClass, List.dropWhile_cons_of_pos hClass,
          List.head?_append, ih]
        rfl
      · rw [if_neg hClass, List.dropWhile_cons_of_neg hClass]
        rfl

end Regex

------------------------------------------------------------
-- Substitutions
------------------------------------------------------------

namespace Regex

variable {α : Type}

/-
  What is substituted for a match depends on the part of it
  that its first group has matched.
-/
structure Rule (α : Type) where
  group : Pattern α
  rest : Pattern α
  replace : List α → List α

namespace Rule

/-
  The match at the beginning of a text: what it is replaced
  by, and how long it is.
-/
def find
    (rule : Rule α)
    (cs : List α) : Option (List α × ℕ) :=
  ((rule.group.ends cs).flatMap fun mid =>
    (rule.rest.ends mid).map fun rest => (mid, rest)).head?.map
      fun (mid, rest) =>
        (rule.replace (cs.take (cs.length - mid.length)),
          cs.length - rest.length)

end Rule

/-
  Replace the matches that do not overlap, from the left. The
  characters of a match are skipped once it is replaced.
-/
def sub
    (find : List α → Option (List α × ℕ)) :
    ℕ → List α → List α
| _, [] => []
| skip + 1, _ :: cs => sub find skip cs
| 0, c :: cs =>
    match find (c :: cs) with
    | some (text, n) => text ++ sub find (n - 1) cs
    | none => c :: sub find 0 cs

/- The last character belongs to a match begun before it. -/
def inMatch
    (find : List α → Option (List α × ℕ)) :
    ℕ → List α → Bool
| _, [] => false
| 0, [_] => false
| _ + 1, [_] => true
| skip + 1, _ :: cs => inMatch find skip cs
| 0, c :: cs =>
    match find (c :: cs) with
    | some (_, n) => inMatch find (n - 1) cs
    | none => inMatch find 0 cs

/- Matches are not empty, and are there. -/
def Proper
    (find : List α → Option (List α × ℕ)) : Prop :=
  ∀ cs text n, find cs = some (text, n) →
    0 < n ∧ n ≤ cs.length

variable {find : List α → Option (List α × ℕ)}

theorem sub_of_none
    {c : α}
    {cs : List α}
    (hNone : find (c :: cs) = none) :
    sub find 0 (c :: cs) = c :: sub find 0 cs := by
  rw [sub, hNone]

theorem sub_of_some
    {c : α}
    {cs text : List α}
    {n : ℕ}
    (hSome : find (c :: cs) = some (text, n)) :
    sub find 0 (c :: cs) = text ++ sub find (n - 1) cs := by
  rw [sub, hSome]

theorem sub_skip
    (xs ys : List α) :
    sub find xs.length (xs ++ ys) = sub find 0 ys := by
  induction xs with
  | nil => rfl
  | cons x xs ih => exact ih

/- A match is replaced, and the rest goes on after it. -/
theorem sub_of_match
    {cs rest text : List α}
    (hSome : cs ≠ [])
    (hMatch : find (cs ++ rest) = some (text, cs.length)) :
    sub find 0 (cs ++ rest) = text ++ sub find 0 rest := by
  cases cs with
  | nil => exact absurd rfl hSome
  | cons c cs =>
      rw [List.cons_append] at hMatch ⊢
      rw [sub_of_some hMatch, List.length_cons,
        Nat.add_sub_cancel, sub_skip]

/- Matches that do not depend on what comes later. -/
theorem sub_append
    {xs : List α}
    (ys : List α)
    (hProper : Proper find)
    (hEach :
      ∀ zs, zs ≠ [] → zs <:+ xs → find (zs ++ ys) = find zs)
    {skip : ℕ}
    (hSkip : skip ≤ xs.length) :
    sub find skip (xs ++ ys) =
      sub find skip xs ++ sub find 0 ys := by
  induction xs generalizing skip with
  | nil =>
      have hZero : skip = 0 := Nat.le_zero.mp hSkip
      rw [hZero]
      rfl
  | cons x xs ih =>
      have hRest :
          ∀ {k : ℕ}, k ≤ xs.length →
            sub find k (xs ++ ys) =
              sub find k xs ++ sub find 0 ys := by
        apply ih
        intro zs hSome hSuffix
        exact
          hEach zs hSome (hSuffix.trans (List.suffix_cons x xs))
      have hHere :=
        hEach (x :: xs) (List.cons_ne_nil x xs) List.suffix_rfl
      cases skip with
      | succ k => exact hRest (Nat.le_of_succ_le_succ hSkip)
      | zero =>
          rw [List.cons_append] at hHere ⊢
          cases hFind : find (x :: xs) with
          | none =>
              rw [sub_of_none hFind,
                sub_of_none (hHere.trans hFind),
                hRest (Nat.zero_le _), List.cons_append]
          | some found =>
              rcases found with ⟨text, n⟩
              have hBounds := hProper _ _ _ hFind
              rw [List.length_cons] at hBounds
              rw [sub_of_some hFind,
                sub_of_some (hHere.trans hFind),
                hRest (by omega), List.append_assoc]

/- Where nothing matches, nothing changes. -/
theorem sub_of_all_none
    {xs : List α}
    (ys : List α)
    (hNone :
      ∀ zs, zs ≠ [] → zs <:+ xs → find (zs ++ ys) = none) :
    sub find 0 (xs ++ ys) = xs ++ sub find 0 ys := by
  induction xs with
  | nil => rfl
  | cons x xs ih =>
      rw [List.cons_append, sub_of_none, ih, List.cons_append]
      · intro zs hSome hSuffix
        exact
          hNone zs hSome (hSuffix.trans (List.suffix_cons x xs))
      · exact
          hNone (x :: xs) (List.cons_ne_nil x xs)
            List.suffix_rfl

theorem inMatch_skip
    {k : ℕ}
    {cs : List α}
    (hSome : cs ≠ [])
    (hAll : cs.length ≤ k) :
    inMatch find k cs = true := by
  induction cs generalizing k with
  | nil => exact absurd rfl hSome
  | cons c cs ih =>
      rw [List.length_cons] at hAll
      cases k with
      | zero => omega
      | succ k =>
          cases cs with
          | nil => rfl
          | cons d cs =>
              exact ih (List.cons_ne_nil d cs) (by omega)

/- A text is not replaced by nothing. -/
theorem sub_ne_nil
    {xs : List α}
    (hText :
      ∀ cs text n, find cs = some (text, n) → text ≠ [])
    (hSome : xs ≠ []) :
    sub find 0 xs ≠ [] := by
  cases xs with
  | nil => exact absurd rfl hSome
  | cons x xs =>
      cases hFind : find (x :: xs) with
      | none =>
          rw [sub_of_none hFind]
          exact List.cons_ne_nil _ _
      | some found =>
          rw [sub_of_some hFind]
          exact
            List.append_ne_nil_of_left_ne_nil
              (hText _ _ _ hFind) _

/- How a text ends once its matches are replaced. -/
theorem sub_getLast
    {P : α → Prop}
    (hText :
      ∀ cs text n, find cs = some (text, n) →
        text ≠ [] ∧ ∀ z ∈ text.getLast?, P z)
    {xs : List α}
    (hLast : ∀ z ∈ xs.getLast?, P z)
    (skip : ℕ) :
    ∀ z ∈ (sub find skip xs).getLast?, P z := by
  induction xs generalizing skip with
  | nil =>
      intro z hz
      cases hz
  | cons x xs ih =>
      have hTail : ∀ z ∈ xs.getLast?, P z := by
        intro z hz
        apply hLast z
        rw [Option.mem_def] at hz ⊢
        rw [List.getLast?_cons, hz]
        rfl
      cases skip with
      | succ k => exact ih hTail k
      | zero =>
          cases hFind : find (x :: xs) with
          | none =>
              rw [sub_of_none hFind, List.getLast?_cons]
              intro z hz
              cases hRest : (sub find 0 xs).getLast? with
              | none =>
                  have hNil : xs = [] := by
                    by_contra hSome
                    exact
                      sub_ne_nil
                        (fun cs text n hCs =>
                          (hText cs text n hCs).1)
                        hSome (List.getLast?_eq_none_iff.mp hRest)
                  rw [hRest] at hz
                  apply hLast z
                  rw [hNil]
                  exact hz
              | some y =>
                  rw [hRest] at hz
                  cases hz
                  exact ih hTail 0 y hRest
          | some found =>
              rw [sub_of_some hFind, List.getLast?_append]
              intro z hz
              cases hRest :
                  (sub find (found.2 - 1) xs).getLast? with
              | none =>
                  rw [hRest, Option.none_or] at hz
                  exact (hText _ _ _ hFind).2 z hz
              | some y =>
                  rw [hRest, Option.some_or] at hz
                  rw [← Option.some.inj hz]
                  exact ih hTail _ y hRest

end Regex

------------------------------------------------------------
-- Values That a Match Takes In
------------------------------------------------------------

namespace Regex

variable {α : Type}
variable {find : List α → Option (List α × ℕ)}

/-
  A value, and what comes after it, before which a match may
  already have begun.
-/
variable {IsValue : List α → List α → Prop}

/-
  Whatever the value is, a match at the beginning of a text
  takes it in as a whole, or it does not depend on it.
-/
def TakesInOrIgnores
    (find : List α → Option (List α × ℕ))
    (IsValue : List α → List α → Prop)
    (zs : List α) : Prop :=
  (∃ text,
    ∀ v rest, IsValue v rest →
      find (zs ++ (v ++ rest)) =
        some (text, zs.length + v.length)) ∨
  ∀ v rest, IsValue v rest → find (zs ++ (v ++ rest)) = find zs

theorem sub_value
    {xs : List α}
    {x : α}
    (hProper : Proper find)
    (hProbe : IsValue [x] [])
    (hEach :
      ∀ zs, zs ≠ [] → zs <:+ xs →
        TakesInOrIgnores find IsValue zs)
    {skip : ℕ}
    (hSkip : skip ≤ xs.length)
    {v rest : List α}
    (hValue : IsValue v rest) :
    sub find skip (xs ++ (v ++ rest)) =
      if inMatch find skip (xs ++ [x]) then
        sub find skip (xs ++ [x]) ++ sub find 0 rest
      else
        sub find skip xs ++ sub find 0 (v ++ rest) := by
  induction xs generalizing skip with
  | nil =>
      have hZero : skip = 0 := Nat.le_zero.mp hSkip
      rw [hZero]
      rfl
  | cons c xs ih =>
      have hRest :
          ∀ {k : ℕ}, k ≤ xs.length →
            sub find k (xs ++ (v ++ rest)) =
              if inMatch find k (xs ++ [x]) then
                sub find k (xs ++ [x]) ++ sub find 0 rest
              else
                sub find k xs ++ sub find 0 (v ++ rest) := by
        apply ih
        intro zs hSome hSuffix
        exact
          hEach zs hSome (hSuffix.trans (List.suffix_cons c xs))
      have hMore : ∃ d ds, xs ++ [x] = d :: ds := by
        cases xs with
        | nil => exact ⟨x, [], rfl⟩
        | cons d ds => exact ⟨d, ds ++ [x], rfl⟩
      rcases hMore with ⟨d, ds, hCons⟩
      cases skip with
      | succ k =>
          have hIn :
              inMatch find (k + 1) (c :: xs ++ [x]) =
                inMatch find k (xs ++ [x]) := by
            rw [List.cons_append, hCons]
            rfl
          rw [hIn]
          exact hRest (Nat.le_of_succ_le_succ hSkip)
      | zero =>
          have hIn :
              inMatch find 0 (c :: xs ++ [x]) =
                match find (c :: xs ++ [x]) with
                | some (_, n) => inMatch find (n - 1) (xs ++ [x])
                | none => inMatch find 0 (xs ++ [x]) := by
            rw [List.cons_append, hCons]
            rfl
          rcases
            hEach (c :: xs) (List.cons_ne_nil c xs)
              List.suffix_rfl with
            ⟨text, hTakes⟩ | hIgnores
          · -- The match goes on to the end of the value.
            have hMatch :
                ∀ v' rest', IsValue v' rest' →
                  sub find 0 (c :: xs ++ (v' ++ rest')) =
                    text ++ sub find 0 rest' := by
              intro v' rest' hValue'
              have hTaken := hTakes v' rest' hValue'
              rw [← List.append_assoc] at hTaken ⊢
              apply sub_of_match
              · exact List.cons_ne_nil c (xs ++ v')
              · rw [hTaken, List.length_append]
            have hTrue :
                inMatch find 0 (c :: xs ++ [x]) = true := by
              have hAtProbe := hTakes [x] [] hProbe
              rw [List.append_nil] at hAtProbe
              rw [hIn, hAtProbe]
              apply inMatch_skip
              · rw [hCons]
                exact List.cons_ne_nil d ds
              · simp only [List.length_append,
                  List.length_cons, List.length_nil]
                omega
            have hOut :
                sub find 0 (c :: xs ++ [x]) = text := by
              have hAtProbe := hMatch [x] [] hProbe
              rw [List.append_nil] at hAtProbe
              rw [hAtProbe]
              exact List.append_nil text
            rw [if_pos hTrue, hOut]
            exact hMatch v rest hValue
          · have hHere := hIgnores v rest hValue
            have hAtProbe := hIgnores [x] [] hProbe
            rw [List.append_nil] at hAtProbe
            rw [hIn, hAtProbe]
            rw [List.cons_append] at hHere hAtProbe ⊢
            cases hFind : find (c :: xs) with
            | none =>
                rw [hFind] at hHere hAtProbe
                rw [sub_of_none hHere, List.cons_append,
                  sub_of_none hAtProbe, sub_of_none hFind,
                  hRest (Nat.zero_le _)]
                split
                · rfl
                · rfl
            | some found =>
                rcases found with ⟨text, n⟩
                have hBounds := hProper _ _ _ hFind
                rw [List.length_cons] at hBounds
                rw [hFind] at hHere hAtProbe
                rw [sub_of_some hHere, List.cons_append,
                  sub_of_some hAtProbe, sub_of_some hFind,
                  hRest (by omega)]
                dsimp only
                split
                · rw [List.append_assoc]
                · rw [List.append_assoc]

end Regex

------------------------------------------------------------
-- Rules That Begin With a Word
------------------------------------------------------------

namespace Regex

variable {α : Type}

/- What is left of a text that begins with a word. -/
def afterWord : List (α → Bool) → List α → Option (List α)
| [], cs => some cs
| _ :: _, [] => none
| p :: ps, c :: cs => if p c then afterWord ps cs else none

theorem ends_word
    (w : List (α → Bool))
    (cs : List α) :
    (Pattern.word w).ends cs = (afterWord w cs).toList := by
  induction w generalizing cs with
  | nil => rfl
  | cons p ps ih =>
      cases cs with
      | nil => rfl
      | cons c cs =>
          unfold Pattern.word Pattern.ends afterWord
          by_cases hClass : p c = true
          · simp [Pattern.ends, hClass, ih]
          · simp [Pattern.ends, hClass]

theorem ends_choice
    (words : List (List (α → Bool)))
    (cs : List α) :
    (Pattern.choice (words.map Pattern.word)).ends cs =
      words.flatMap fun w => (afterWord w cs).toList := by
  induction words with
  | nil => cases cs <;> rfl
  | cons w words ih =>
      cases words with
      | nil =>
          rw [List.flatMap_singleton]
          exact ends_word w cs
      | cons w' words =>
          rw [List.flatMap_cons, ← ih, ← ends_word]
          rfl

theorem afterWord_length
    {w : List (α → Bool)}
    {cs mid : List α}
    (hAfter : afterWord w cs = some mid) :
    cs.length = w.length + mid.length ∧ mid <:+ cs := by
  induction w generalizing cs with
  | nil =>
      cases hAfter
      exact ⟨(Nat.zero_add _).symm, List.suffix_rfl⟩
  | cons p ps ih =>
      cases cs with
      | nil => cases hAfter
      | cons c cs =>
          unfold afterWord at hAfter
          split at hAfter
          · rcases ih hAfter with ⟨hLength, hSuffix⟩
            constructor
            · rw [List.length_cons, List.length_cons]
              omega
            · exact hSuffix.trans (List.suffix_cons c cs)
          · cases hAfter

/- A word does not end beyond a character that is not its. -/
theorem afterWord_append
    {w : List (α → Bool)}
    {zs : List α}
    (ys : List α)
    (hLast : ∀ p ∈ w, ∀ z ∈ zs.getLast?, p z = false)
    (hSome : zs ≠ []) :
    afterWord w (zs ++ ys) =
      (afterWord w zs).map (· ++ ys) := by
  induction w generalizing zs with
  | nil => rfl
  | cons p ps ih =>
      cases zs with
      | nil => exact absurd rfl hSome
      | cons z zs =>
          rw [List.cons_append]
          unfold afterWord
          cases zs with
          | nil =>
              have hNot : p z = false :=
                hLast p List.mem_cons_self z rfl
              rw [if_neg (by simp [hNot]),
                if_neg (by simp [hNot])]
              rfl
          | cons z' zs =>
              rw [ih _ (List.cons_ne_nil z' zs)]
              · split
                · rfl
                · rfl
              · intro q hq x hx
                apply hLast q (List.mem_cons_of_mem p hq) x
                rw [List.getLast?_cons_cons]
                exact hx

/- The first word that a match begins with, and its end. -/
def findWords
    (words : List (List (α → Bool)))
    (tail : List α → Option (List α))
    (replace : List α → List α)
    (cs : List α) : Option (List α × ℕ) :=
  words.findSome? fun w =>
    (afterWord w cs).bind fun mid =>
      (tail mid).map fun rest =>
        (replace (cs.take w.length), cs.length - rest.length)

/- A rule whose group is one of some words. -/
theorem find_eq_findWords
    {words : List (List (α → Bool))}
    {rest : Pattern α}
    {replace : List α → List α}
    (cs : List α) :
    (Rule.mk (.choice (words.map .word)) rest replace).find cs =
      findWords words (fun mid => (rest.ends mid).head?)
        replace cs := by
  unfold Rule.find findWords
  dsimp only
  rw [ends_choice, List.flatMap_assoc, List.head?_flatMap,
    List.map_findSome?]
  congr 1
  funext w
  rw [Function.comp_apply]
  cases hAfter : afterWord w cs with
  | none =>
      simp
  | some mid =>
      have hTake : cs.length - mid.length = w.length := by
        have hLength := (afterWord_length hAfter).1
        omega
      have hSame :
          ((fun x : List α × List α =>
              (replace (cs.take (cs.length - x.1.length)),
                cs.length - x.2.length)) ∘
            fun rest => (mid, rest)) =
            fun rest =>
              (replace (cs.take w.length),
                cs.length - rest.length) := by
        funext rest
        rw [Function.comp_apply, hTake]
      simp [hSame]

/- A tail leaves something of what it is given. -/
theorem findWords_proper
    {words : List (List (α → Bool))}
    {tail : List α → Option (List α)}
    {replace : List α → List α}
    (hWords : ∀ w ∈ words, w ≠ [])
    (hTail :
      ∀ mid rest, tail mid = some rest →
        rest.length ≤ mid.length) :
    Proper (findWords words tail replace) := by
  intro cs text n hFind
  rcases List.exists_of_findSome?_eq_some hFind with
    ⟨w, hw, hMatch⟩
  rcases Option.bind_eq_some_iff.mp hMatch with
    ⟨mid, hAfter, hMap⟩
  rcases Option.map_eq_some_iff.mp hMap with
    ⟨rest, hRest, hEq⟩
  rw [Prod.mk.injEq] at hEq
  have hLength := (afterWord_length hAfter).1
  have hLeft := hTail mid rest hRest
  have hPos := List.length_pos_of_ne_nil (hWords w hw)
  omega

variable {IsValue : List α → List α → Prop}

/-
  The tail of a match ends with the value, or it does not
  depend on it.
-/
def TailTakesInOrIgnores
    (tail : List α → Option (List α))
    (IsValue : List α → List α → Prop)
    (mid : List α) : Prop :=
  (∀ v rest, IsValue v rest →
    tail (mid ++ (v ++ rest)) = some rest) ∨
  ∀ v rest, IsValue v rest →
    tail (mid ++ (v ++ rest)) =
      (tail mid).map (· ++ (v ++ rest))

theorem takesInOrIgnores_findWords
    {words : List (List (α → Bool))}
    {tail : List α → Option (List α)}
    {replace : List α → List α}
    {zs : List α}
    (hSome : zs ≠ [])
    (hLast :
      ∀ w ∈ words, ∀ p ∈ w, ∀ z ∈ zs.getLast?, p z = false)
    (hTail : ∀ mid, TailTakesInOrIgnores tail IsValue mid) :
    TakesInOrIgnores (findWords words tail replace) IsValue
      zs := by
  unfold findWords
  induction words with
  | nil => exact Or.inr fun v rest hValue => rfl
  | cons w words ih =>
      have hRest :=
        ih fun w' hw' => hLast w' (List.mem_cons_of_mem w hw')
      have hAppend :
          ∀ ys,
            afterWord w (zs ++ ys) =
              (afterWord w zs).map (· ++ ys) :=
        fun ys =>
          afterWord_append ys (hLast w List.mem_cons_self) hSome
      unfold TakesInOrIgnores at hRest ⊢
      simp only [List.findSome?_cons, hAppend]
      cases hAfter : afterWord w zs with
      | none =>
          simp only [Option.map_none, Option.bind_none]
          exact hRest
      | some mid =>
          have hLength := (afterWord_length hAfter).1
          have hTake :
              ∀ ys,
                (zs ++ ys).take w.length = zs.take w.length := by
            intro ys
            apply List.take_append_of_le_length
            omega
          simp only [Option.map_some, Option.bind_some, hTake]
          rcases hTail mid with hTakes | hIgnores
          · left
            refine ⟨replace (zs.take w.length), ?_⟩
            intro v rest hValue
            rw [hTakes v rest hValue]
            simp only [Option.map_some, List.length_append,
              Option.some.injEq, Prod.mk.injEq, true_and]
            omega
          · cases hEnd : tail mid with
            | none =>
                rw [hEnd] at hIgnores
                rcases hRest with ⟨text, hText⟩ | hSame
                · left
                  refine ⟨text, ?_⟩
                  intro v rest hValue
                  rw [hIgnores v rest hValue]
                  exact hText v rest hValue
                · right
                  intro v rest hValue
                  rw [hIgnores v rest hValue]
                  exact hSame v rest hValue
            | some r =>
                rw [hEnd] at hIgnores
                right
                intro v rest hValue
                rw [hIgnores v rest hValue]
                simp only [Option.map_some, List.length_append,
                  Option.some.injEq, Prod.mk.injEq, true_and]
                omega

end Regex
