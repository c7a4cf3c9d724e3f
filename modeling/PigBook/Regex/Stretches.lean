import Mathlib.Algebra.Ring.Nat
import PigBook.Regex.Boundaries

/-
  What a substitution leaves of a text.

  Where each match keeps its beginning and a mark stands for
  the rest, the text falls into stretches, and the result has
  a mark between each two of them.

  Key definitions include:
    * `stretches`, `lastStretch`
    * `spread`

  Key theorems include:
    * `sub_eq_intercalate`
    * `sub_intercalate`
    * `inMatch_intercalate`
    * `length_intercalate`
-/

------------------------------------------------------------
-- Stretches
------------------------------------------------------------

namespace Regex

variable {α : Type}

/-
  The stretches of a text, the last one after the last match,
  with `keep` finding what is kept of a match and its length.
-/
def stretches
    (keep : List α → Option (List α × ℕ)) :
    ℕ → List α → List (List α)
| _, [] => [[]]
| skip + 1, _ :: cs => stretches keep skip cs
| 0, c :: cs =>
    match keep (c :: cs) with
    | some (kept, n) => kept :: stretches keep (n - 1) cs
    | none =>
        match stretches keep 0 cs with
        | [] => [[c]]
        | s :: ss => (c :: s) :: ss

/- What stands after the last match. -/
def lastStretch
    (keep : List α → Option (List α × ℕ))
    (text : List α) : List α :=
  (stretches keep 0 text).getLastD []

/- The length of stretches with a mark between each two. -/
def spread (mark : ℕ) (ss : List (List α)) : ℕ :=
  (ss.map List.length).sum + mark * (ss.length - 1)

variable {keep find : List α → Option (List α × ℕ)}
variable {mark : List α}

theorem stretches_ne_nil
    (skip : ℕ)
    (text : List α) :
    stretches keep skip text ≠ [] := by
  induction text generalizing skip with
  | nil =>
      unfold stretches
      exact List.cons_ne_nil _ _
  | cons c cs ih =>
      cases skip with
      | succ skip => exact ih skip
      | zero =>
          unfold stretches
          split
          · exact List.cons_ne_nil _ _
          · split
            · exact List.cons_ne_nil _ _
            · exact List.cons_ne_nil _ _

/- The marks stand between the stretches. -/
theorem sub_eq_intercalate
    (hKeeps :
      ∀ cs,
        find cs =
          (keep cs).map (fun x => (x.1 ++ mark, x.2)))
    (skip : ℕ)
    (text : List α) :
    sub find skip text =
      mark.intercalate (stretches keep skip text) := by
  induction text generalizing skip with
  | nil =>
      unfold stretches
      rw [List.intercalate_singleton]
      cases skip <;> rfl
  | cons c cs ih =>
      cases skip with
      | succ skip => exact ih skip
      | zero =>
          cases hKeep : keep (c :: cs) with
          | none =>
              have hFind : find (c :: cs) = none := by
                rw [hKeeps, hKeep]
                rfl
              have hSome : stretches keep 0 cs ≠ [] :=
                stretches_ne_nil 0 cs
              rw [sub_of_none hFind, ih 0, stretches, hKeep]
              dsimp only
              cases hStretches : stretches keep 0 cs with
              | nil => exact absurd hStretches hSome
              | cons s ss =>
                  dsimp only
                  rw [List.intercalate_cons_cons_left]
          | some found =>
              have hFind :
                  find (c :: cs) =
                    some (found.1 ++ mark, found.2) := by
                rw [hKeeps, hKeep]
                rfl
              rw [sub_of_some hFind, ih, stretches, hKeep]
              dsimp only
              rw [List.intercalate_cons_of_ne_nil
                (stretches_ne_nil _ _)]

theorem length_intercalate
    (mark : List α)
    (ss : List (List α)) :
    (mark.intercalate ss).length = spread mark.length ss := by
  induction ss with
  | nil => rfl
  | cons s ss ih =>
      cases ss with
      | nil =>
          unfold spread
          rw [List.intercalate_singleton]
          simp
      | cons t ss =>
          rw [List.intercalate_cons_cons, List.length_append,
            List.length_append, ih]
          unfold spread
          simp only [List.map_cons, List.sum_cons,
            List.length_cons, Nat.add_sub_cancel, Nat.mul_add,
            Nat.mul_one]
          omega

end Regex

------------------------------------------------------------
-- Marks Between Stretches
------------------------------------------------------------

namespace Regex

variable {α : Type}
variable {find : List α → Option (List α × ℕ)}
variable {mark : List α}

/- No match reaches into a mark, and none begins in it. -/
def Separates
    (find : List α → Option (List α × ℕ))
    (mark : List α) : Prop :=
  (∀ zs more, zs ≠ [] →
    find (zs ++ (mark ++ more)) = find zs) ∧
  ∀ zs more, zs ≠ [] → zs <:+ mark → find (zs ++ more) = none

theorem Separates.sub
    (hSeparates : Separates find mark)
    (hProper : Proper find)
    (xs more : List α) :
    sub find 0 (xs ++ (mark ++ more)) =
      sub find 0 xs ++ (mark ++ sub find 0 more) := by
  rw [sub_append _ hProper
    (fun zs hSome _ => hSeparates.1 zs more hSome)
    (Nat.zero_le _)]
  rw [sub_of_all_none more
    (fun zs hSome hSuffix =>
      hSeparates.2 zs more hSome hSuffix)]

/- The stretches are substituted for themselves. -/
theorem sub_intercalate
    (hSeparates : Separates find mark)
    (hProper : Proper find)
    (ss : List (List α)) :
    sub find 0 (mark.intercalate ss) =
      mark.intercalate (ss.map (sub find 0)) := by
  induction ss with
  | nil => rfl
  | cons s ss ih =>
      cases ss with
      | nil =>
          simp only [List.map_cons, List.map_nil,
            List.intercalate_singleton]
      | cons t ss =>
          rw [List.intercalate_cons_cons, List.append_assoc,
            hSeparates.sub hProper, ih]
          simp only [List.map_cons,
            List.intercalate_cons_cons, List.append_assoc]

/- What a match has to do with what comes later. -/
theorem inMatch_append
    {xs ys : List α}
    (hProper : Proper find)
    (hSome : ys ≠ [])
    (hEach :
      ∀ zs, zs ≠ [] → zs <:+ xs → find (zs ++ ys) = find zs)
    {skip : ℕ}
    (hSkip : skip ≤ xs.length) :
    inMatch find skip (xs ++ ys) = inMatch find 0 ys := by
  induction xs generalizing skip with
  | nil =>
      rw [Nat.le_zero.mp hSkip]
      rfl
  | cons x xs ih =>
      have hMore : ∃ y more, xs ++ ys = y :: more :=
        List.exists_cons_of_ne_nil
          (List.append_ne_nil_of_right_ne_nil xs hSome)
      have hRest :
          ∀ {k : ℕ}, k ≤ xs.length →
            inMatch find k (xs ++ ys) = inMatch find 0 ys := by
        apply ih
        intro zs hZs hSuffix
        exact
          hEach zs hZs (hSuffix.trans (List.suffix_cons x xs))
      have hHere :=
        hEach (x :: xs) (List.cons_ne_nil x xs) List.suffix_rfl
      rw [List.cons_append] at hHere ⊢
      cases skip with
      | succ k =>
          rcases hMore with ⟨y, more, hCons⟩
          rw [hCons, inMatch, ← hCons]
          · exact hRest (Nat.le_of_succ_le_succ hSkip)
          · exact List.cons_ne_nil _ _
      | zero =>
          rcases hMore with ⟨y, more, hCons⟩
          rw [hCons] at hHere ⊢
          rw [inMatch, hHere, ← hCons]
          · cases hFind : find (x :: xs) with
            | none => exact hRest (Nat.zero_le _)
            | some found =>
                have hBounds := hProper _ _ _ hFind
                rw [List.length_cons] at hBounds
                exact hRest (by omega)
          · exact List.cons_ne_nil _ _

/- Only the last stretch can begin a match of what follows. -/
theorem inMatch_intercalate
    (hSeparates : Separates find mark)
    (hProper : Proper find)
    (ss : List (List α))
    {ys : List α}
    (hSome : ys ≠ []) :
    inMatch find 0 (mark.intercalate ss ++ ys) =
      inMatch find 0 (ss.getLastD [] ++ ys) := by
  induction ss with
  | nil => rfl
  | cons s ss ih =>
      cases ss with
      | nil => rw [List.intercalate_singleton]; rfl
      | cons t ss =>
          rw [List.intercalate_cons_cons, List.append_assoc,
            List.append_assoc]
          have hNext :
              mark.intercalate (t :: ss) ++ ys ≠ [] :=
            List.append_ne_nil_of_right_ne_nil _ hSome
          rw [inMatch_append hProper
            (List.append_ne_nil_of_right_ne_nil mark hNext)
            (fun zs hZs _ => hSeparates.1 zs _ hZs)
            (Nat.zero_le _)]
          rw [inMatch_append hProper hNext _ (Nat.zero_le _),
            ih]
          · rfl
          · intro zs hZs hSuffix
            have hAlone := hSeparates.2 zs [] hZs hSuffix
            rw [List.append_nil] at hAlone
            rw [hAlone]
            exact hSeparates.2 zs _ hZs hSuffix

end Regex
