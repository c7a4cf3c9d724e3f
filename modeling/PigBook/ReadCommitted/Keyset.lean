import Mathlib.Data.List.Sort
import Mathlib.Order.Basic
import PigBook.ReadCommitted.Table

/-
  Scanning a table in the order of a key, a page at a time,
  while the rows already seen may change.

  Key definitions include:
    * `Behind`
    * `Remaining`

  Key theorems include:
    * `Remaining.page_eq`
    * `Remaining.visit`
-/

------------------------------------------------------------
-- Cursors
------------------------------------------------------------

namespace ReadCommitted

variable {ρ κ : Type} [LinearOrder κ]

/- The row lies behind the cursor, if there is one. -/
def Behind
    (key : ρ → κ)
    (cursor : Option κ)
    (r : ρ) : Prop :=
  ∀ c ∈ cursor, c < key r

instance
    (key : ρ → κ)
    (cursor : Option κ)
    (r : ρ) : Decidable (Behind key cursor r) :=
  inferInstanceAs (Decidable (∀ c ∈ cursor, _))

@[simp] theorem behind_none
    (key : ρ → κ)
    (r : ρ) :
    Behind key none r := by
  simp [Behind]

@[simp] theorem behind_some
    (key : ρ → κ)
    (c : κ)
    (r : ρ) :
    Behind key (some c) r ↔ c < key r := by
  simp [Behind]

/- The rows of a page in key order, up to its size. -/
def page
    (key : ρ → κ)
    (p : ρ → Bool)
    (cursor : Option κ)
    (size : ℕ)
    (rows : List ρ) : List ρ :=
  ((rows.filter (fun r =>
      p r && decide (Behind key cursor r))).insertionSort
    (fun r r' => key r ≤ key r')).take size

/-
  The selected rows behind the cursor are `rest`, which is
  given in key order.
-/
structure Remaining
    (key : ρ → κ)
    (p : ρ → Bool)
    (cursor : Option κ)
    (rows rest : List ρ) : Prop where
  sorted : rest.Pairwise (fun r r' => key r < key r')
  perm :
    (rows.filter (fun r =>
      p r && decide (Behind key cursor r))).Perm rest

variable {key : ρ → κ} {p : ρ → Bool} {cursor : Option κ}
variable {rows rest : List ρ}

/- Sorting puts rows with distinct keys in their order. -/
theorem insertionSort_eq_of_perm
    (hSorted : rest.Pairwise (fun r r' => key r < key r'))
    (hPerm : rows.Perm rest) :
    rows.insertionSort (fun r r' => key r ≤ key r') =
      rest := by
  have : Std.Total (fun r r' : ρ => key r ≤ key r') :=
    ⟨fun r r' => le_total (key r) (key r')⟩
  have : IsTrans ρ (fun r r' => key r ≤ key r') :=
    ⟨fun _ _ _ h h' => le_trans h h'⟩
  have hSort :=
    List.perm_insertionSort
      (fun r r' : ρ => key r ≤ key r') rows
  refine
    List.Perm.eq_of_pairwise ?_
      (List.pairwise_insertionSort
        (fun r r' : ρ => key r ≤ key r') rows)
      (hSorted.imp (fun h => le_of_lt h))
      (hSort.trans hPerm)
  intro a b ha hb hLe hLe'
  have ha' : a ∈ rest := (hSort.trans hPerm).subset ha
  have hKeyed : Keyed key rest :=
    hSorted.imp (fun h => ne_of_lt h)
  exact
    hKeyed.eq_of_key ha' hb (le_antisymm hLe hLe')

namespace Remaining

/- At the beginning everything selected remains. -/
theorem start
    (hKeyed : Keyed key rows) :
    Remaining key p none rows
      ((rows.filter p).insertionSort
        (fun r r' => key r ≤ key r')) where
  sorted := by
    have : Std.Total (fun r r' : ρ => key r ≤ key r') :=
      ⟨fun r r' => le_total (key r) (key r')⟩
    have : IsTrans ρ (fun r r' => key r ≤ key r') :=
      ⟨fun _ _ _ h h' => le_trans h h'⟩
    have hSort :=
      List.perm_insertionSort
        (fun r r' : ρ => key r ≤ key r') (rows.filter p)
    have hNe :
        Keyed key
          ((rows.filter p).insertionSort
            (fun r r' => key r ≤ key r')) := by
      have hFilter : Keyed key (rows.filter p) :=
        List.Pairwise.filter p hKeyed
      exact
        hSort.symm.pairwise hFilter (fun h => Ne.symm h)
    have hLe :=
      List.pairwise_insertionSort
        (fun r r' : ρ => key r ≤ key r') (rows.filter p)
    exact
      (hLe.and hNe).imp (fun h => lt_of_le_of_ne h.1 h.2)
  perm := by
    simp only [behind_none, decide_true, Bool.and_true]
    exact (List.perm_insertionSort _ _).symm

variable (hRest : Remaining key p cursor rows rest)

include hRest

/- A page is the beginning of what remains. -/
theorem page_eq
    (size : ℕ) :
    page key p cursor size rows = rest.take size := by
  unfold page
  rw [insertionSort_eq_of_perm hRest.sorted hRest.perm]

/- What remains is in the table, selected, and behind. -/
theorem mem_iff
    {r : ρ} :
    r ∈ rest ↔
      r ∈ rows ∧ p r = true ∧ Behind key cursor r := by
  rw [← hRest.perm.mem_iff, List.mem_filter]
  simp

end Remaining

/-
  A visit to the next row may change the selected rows only
  up to that row.  Then the others remain.
-/
theorem Remaining.visit
    {r : ρ}
    {rows' : List ρ}
    (hRest : Remaining key p cursor rows (r :: rest))
    (hSame :
      rows'.filter (fun x => p x && decide (key r < key x)) =
        rows.filter
          (fun x => p x && decide (key r < key x))) :
    Remaining key p (some (key r)) rows' rest where
  sorted := (List.pairwise_cons.mp hRest.sorted).2
  perm := by
    rcases List.pairwise_cons.mp hRest.sorted with
      ⟨hHead, -⟩
    have hRow := hRest.mem_iff.mp List.mem_cons_self
    have hNext :
        rows.filter (fun x => p x && decide (key r < key x)) =
          (rows.filter (fun x =>
            p x && decide (Behind key cursor x))).filter
              (fun x => decide (key r < key x)) := by
      rw [List.filter_filter]
      refine List.filter_congr ?_
      intro x _
      by_cases hLt : key r < key x
      · have hBehind : Behind key cursor x :=
          fun c hc => lt_trans (hRow.2.2 c hc) hLt
        simp [hLt, hBehind]
      · simp [hLt]
    have hFiltered :
        (r :: rest).filter
            (fun x => decide (key r < key x)) = rest := by
      rw [List.filter_cons_of_neg (by simp)]
      refine List.filter_eq_self.mpr ?_
      intro x hx
      exact decide_eq_true (hHead x hx)
    simp only [behind_some]
    rw [hSame, hNext]
    have hPerm :=
      hRest.perm.filter (fun x => decide (key r < key x))
    rw [hFiltered] at hPerm
    exact hPerm

end ReadCommitted
