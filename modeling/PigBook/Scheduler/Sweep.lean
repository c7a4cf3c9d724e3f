import Mathlib.Algebra.Order.Floor.Div
import Mathlib.Data.Finset.Sort
import Mathlib.Tactic.Common

/-
  Sweeping through a set that may shrink, a page at a time,
  with a cursor that wraps around at the end.

  Key definitions include:
    * `page`
    * `cycle`, `run`
    * `Shrinks`, `Stays`
    * `Within`
    * `Due`

  Key theorems include:
    * `within_length`
    * `mem_run`
    * `mem_between`
-/

------------------------------------------------------------
-- Pages
------------------------------------------------------------

namespace Sweep

variable {ι : Type} [LinearOrder ι]

/- The element lies behind the cursor, if there is one. -/
def Behind (cursor : Option ι) (x : ι) : Prop :=
  ∀ c ∈ cursor, c < x

instance
    (cursor : Option ι)
    (x : ι) : Decidable (Behind cursor x) :=
  inferInstanceAs (Decidable (∀ c ∈ cursor, _))

theorem behind_none
    (x : ι) :
    Behind none x := by
  intro c hc
  cases hc

theorem behind_some
    {c x : ι} :
    Behind (some c) x ↔ c < x := by
  constructor
  · intro hBehind
    exact hBehind c rfl
  · rintro hLt c' ⟨⟩
    exact hLt

/- The first elements behind the cursor, in their order. -/
def page
    (limit : ℕ)
    (cursor : Option ι)
    (S : Finset ι) : List ι :=
  ((S.filter (Behind cursor)).sort (· ≤ ·)).take limit

variable {limit : ℕ} {cursor : Option ι} {S : Finset ι}

theorem mem_of_mem_page
    {x : ι}
    (hMem : x ∈ page limit cursor S) :
    x ∈ S ∧ Behind cursor x := by
  have hSorted := List.mem_of_mem_take hMem
  rw [Finset.mem_sort, Finset.mem_filter] at hSorted
  exact hSorted

theorem page_sorted :
    (page limit cursor S).Pairwise (· < ·) :=
  (Finset.sortedLT_sort _).pairwise.sublist
    (List.take_sublist _ _)

/- What a page leaves out comes after a full page. -/
theorem of_not_mem_page
    {x : ι}
    (hMem : x ∈ S)
    (hBehind : Behind cursor x)
    (hOut : x ∉ page limit cursor S) :
    (page limit cursor S).length = limit ∧
      ∀ y ∈ page limit cursor S, y < x := by
  unfold page at hOut ⊢
  have hSorted :=
    (Finset.sortedLT_sort (S.filter (Behind cursor))).pairwise
  have hAll : x ∈ (S.filter (Behind cursor)).sort (· ≤ ·) := by
    rw [Finset.mem_sort, Finset.mem_filter]
    exact ⟨hMem, hBehind⟩
  generalize
    (S.filter (Behind cursor)).sort (· ≤ ·) = xs at *
  rw [← List.take_append_drop limit xs] at hSorted hAll
  rcases List.mem_append.mp hAll with hTake | hDrop
  · exact absurd hTake hOut
  constructor
  · rw [List.length_take]
    apply min_eq_left
    have hPos := List.length_pos_of_mem hDrop
    rw [List.length_drop] at hPos
    omega
  · intro y hy
    exact (List.pairwise_append.mp hSorted).2.2 y hy x hDrop

end Sweep

------------------------------------------------------------
-- Cycles
------------------------------------------------------------

namespace Sweep

variable {ι : Type} [LinearOrder ι]

/- The cursor after a page, which may have been the last. -/
def advance
    (limit : ℕ)
    (found : List ι)
    (cursor : Option ι) : Option ι :=
  if found.length < limit then
    none
  else
    match found.getLast? with
    | some c => some c
    | none => cursor

omit [LinearOrder ι] in
theorem advance_eq
    (limit : ℕ)
    (found : List ι)
    (cursor : Option ι) :
    advance limit found cursor =
      if found.length < limit then
        none
      else
        found.getLast?.or cursor := by
  unfold advance
  cases found.getLast? with
  | none => rfl
  | some c => rfl

/-
  One cycle: the page behind the cursor, or if there is none
  the first page of what is there then.
-/
def cycle
    (limit : ℕ)
    (cursor : Option ι)
    (S S' : Finset ι) : List ι × Option ι :=
  let found :=
    if page limit cursor S = [] ∧ cursor ≠ none then
      page limit none S'
    else
      page limit cursor S
  (found, advance limit found cursor)

/- Cycles one after the other: all elements visited. -/
def run
    (limit : ℕ) :
    Option ι → List (Finset ι × Finset ι) → List ι
| _, [] => []
| cursor, (S, S') :: cycles =>
    (cycle limit cursor S S').1 ++
      run limit (cycle limit cursor S S').2 cycles

theorem run_cons
    (limit : ℕ)
    (cursor : Option ι)
    (S S' : Finset ι)
    (cycles : List (Finset ι × Finset ι)) :
    run limit cursor ((S, S') :: cycles) =
      (cycle limit cursor S S').1 ++
        run limit (cycle limit cursor S S').2 cycles :=
  rfl

/- No element is ever added. -/
def Shrinks : Finset ι → List (Finset ι × Finset ι) → Prop
| _, [] => True
| T, (S, S') :: cycles => S ⊆ T ∧ S' ⊆ S ∧ Shrinks S' cycles

omit [LinearOrder ι] in
theorem Shrinks.take
    {T : Finset ι}
    {cycles : List (Finset ι × Finset ι)}
    (hShrinks : Shrinks T cycles)
    (n : ℕ) :
    Shrinks T (cycles.take n) := by
  induction cycles generalizing T n with
  | nil =>
      rw [List.take_nil]
      trivial
  | cons p cycles ih =>
      cases n with
      | zero => trivial
      | succ n => exact ⟨hShrinks.1, hShrinks.2.1, ih hShrinks.2.2 n⟩

/- The element is there at all times. -/
def Stays
    (x : ι)
    (cycles : List (Finset ι × Finset ι)) : Prop :=
  ∀ p ∈ cycles, x ∈ p.1 ∧ x ∈ p.2

variable {limit : ℕ} {cursor : Option ι} {S S' : Finset ι}

/- A full page moves the cursor to its last element. -/
theorem advance_full
    (hLimit : 1 ≤ limit)
    (hFull : (page limit cursor S).length = limit)
    (old : Option ι) :
    ∃ c ∈ page limit cursor S,
      advance limit (page limit cursor S) old = some c ∧
        ∀ y ∈ page limit cursor S, y ≤ c := by
  have hSorted : (page limit cursor S).Pairwise (· < ·) :=
    page_sorted
  generalize page limit cursor S = xs at *
  unfold advance
  rw [if_neg (by omega)]
  cases hLast : xs.getLast? with
  | none =>
      rw [List.getLast?_eq_none_iff] at hLast
      rw [hLast] at hFull
      simp only [List.length_nil] at hFull
      omega
  | some c =>
      rcases List.getLast?_eq_some_iff.mp hLast with ⟨ys, rfl⟩
      refine
        ⟨c, List.mem_append_right _ List.mem_cons_self, rfl, ?_⟩
      intro y hy
      rcases List.mem_append.mp hy with hOld | hNew
      · exact
          le_of_lt
            ((List.pairwise_append.mp hSorted).2.2 y hOld c
              List.mem_cons_self)
      · rw [List.mem_singleton.mp hNew]

/- A page either ends the round or moves the cursor on. -/
theorem advance_cases
    (hLimit : 1 ≤ limit)
    (cursor : Option ι)
    (S : Finset ι)
    (old : Option ι) :
    ((page limit cursor S).length < limit ∧
      advance limit (page limit cursor S) old = none) ∨
      ∃ c ∈ page limit cursor S,
        (page limit cursor S).length = limit ∧
          advance limit (page limit cursor S) old = some c ∧
          ∀ y ∈ page limit cursor S, y ≤ c := by
  by_cases hShort : (page limit cursor S).length < limit
  · left
    unfold advance
    rw [if_pos hShort]
    exact ⟨hShort, rfl⟩
  · right
    have hAtMost : (page limit cursor S).length ≤ limit :=
      List.length_take_le limit _
    have hFull : (page limit cursor S).length = limit := by
      omega
    rcases advance_full hLimit hFull old with
      ⟨c, hc, hAdvance, hLast⟩
    exact ⟨c, hc, hFull, hAdvance, hLast⟩

/- A cycle reads one page, and may drop the old cursor for it. -/
theorem cycle_cases
    (hLimit : 1 ≤ limit)
    (cursor : Option ι)
    (S S' : Finset ι) :
    (page limit cursor S = [] → cursor = none) ∧
        cycle limit cursor S S' =
          (page limit cursor S,
            advance limit (page limit cursor S) cursor) ∨
      (∀ x ∈ S, ¬ Behind cursor x) ∧
        cycle limit cursor S S' =
          (page limit none S',
            advance limit (page limit none S') cursor) := by
  by_cases hWrap : page limit cursor S = [] ∧ cursor ≠ none
  · right
    constructor
    · intro x hx hBehind
      by_cases hPage : x ∈ page limit cursor S
      · rw [hWrap.1] at hPage
        cases hPage
      · have hFull := (of_not_mem_page hx hBehind hPage).1
        rw [hWrap.1, List.length_nil] at hFull
        omega
    · unfold cycle
      rw [if_pos hWrap]
  · left
    constructor
    · intro hEmpty
      by_contra hCursor
      exact hWrap ⟨hEmpty, hCursor⟩
    · unfold cycle
      rw [if_neg hWrap]

theorem cycle_sorted
    (limit : ℕ)
    (cursor : Option ι)
    (S S' : Finset ι) :
    (cycle limit cursor S S').1.Pairwise (· < ·) := by
  unfold cycle
  dsimp only
  split
  · exact page_sorted
  · exact page_sorted

end Sweep

------------------------------------------------------------
-- Every element is reached
------------------------------------------------------------

namespace Sweep

variable {ι : Type} [LinearOrder ι]

/- The elements up to this one that the cursor has before it. -/
def ahead
    (cursor : Option ι)
    (S : Finset ι)
    (r : ι) : Finset ι :=
  S.filter fun x => Behind cursor x ∧ x ≤ r

/-
  Enough cycles for the pages up to the element. An element
  that the cursor has passed waits for the end and for a new
  beginning, and a page does not go over the end.
-/
def Within
    (limit : ℕ)
    (cursor : Option ι)
    (S : Finset ι)
    (r : ι)
    (n : ℕ) : Prop :=
  if Behind cursor r then
    (ahead cursor S r).card ≤ n * limit
  else
    ∃ k j,
      k + j = n ∧
        (S.filter (Behind cursor)).card ≤ k * limit ∧
        (ahead none S r).card ≤ j * limit

variable {limit : ℕ} {cursor : Option ι} {S S' : Finset ι}
variable {r : ι}

theorem mem_ahead
    {x : ι} :
    x ∈ ahead cursor S r ↔
      x ∈ S ∧ Behind cursor x ∧ x ≤ r :=
  Finset.mem_filter

/- A full page takes its share out of what was before it. -/
theorem card_add_limit_le
    {A B : Finset ι}
    {c : ι}
    (hFull : (page limit cursor S).length = limit)
    (hPage : ∀ y ∈ page limit cursor S, y ∈ A ∧ y ≤ c)
    (hRest : ∀ x ∈ B, x ∈ A ∧ c < x) :
    B.card + limit ≤ A.card := by
  have hNodup : (page limit cursor S).Nodup :=
    page_sorted.imp fun hLt => ne_of_lt hLt
  have hCard : (page limit cursor S).toFinset.card = limit := by
    rw [List.toFinset_card_of_nodup hNodup]
    exact hFull
  have hDisjoint :
      Disjoint B (page limit cursor S).toFinset := by
    rw [Finset.disjoint_left]
    intro x hx hy
    have hLe := (hPage x (List.mem_toFinset.mp hy)).2
    exact absurd (hRest x hx).2 (not_lt_of_ge hLe)
  rw [← hCard, ← Finset.card_union_of_disjoint hDisjoint]
  apply Finset.card_le_card
  apply Finset.union_subset
  · intro x hx
    exact (hRest x hx).1
  · intro x hx
    exact (hPage x (List.mem_toFinset.mp hx)).1

theorem within_behind
    {n : ℕ}
    (hBehind : Behind cursor r) :
    Within limit cursor S r n ↔
      (ahead cursor S r).card ≤ n * limit := by
  unfold Within
  rw [if_pos hBehind]

theorem within_passed
    {n : ℕ}
    (hPassed : ¬ Behind cursor r) :
    Within limit cursor S r n ↔
      ∃ k j,
        k + j = n ∧
          (S.filter (Behind cursor)).card ≤ k * limit ∧
          (ahead none S r).card ≤ j * limit := by
  unfold Within
  rw [if_neg hPassed]

/- One page towards an element that lies behind the cursor. -/
theorem within_page
    {n : ℕ}
    (hLimit : 1 ≤ limit)
    (hSub : S' ⊆ S)
    (hMem : r ∈ S)
    (hBehind : Behind cursor r)
    (hWithin : (ahead cursor S r).card ≤ n * limit)
    (hOut : r ∉ page limit cursor S)
    (old : Option ι) :
    ∃ m,
      m + 1 = n ∧
        Within limit (advance limit (page limit cursor S) old)
          S' r m := by
  rcases of_not_mem_page hMem hBehind hOut with ⟨hFull, hBefore⟩
  rcases advance_full hLimit hFull old with
    ⟨c, hc, hAdvance, hLast⟩
  have hLess :
      (ahead (some c) S' r).card + limit ≤
        (ahead cursor S r).card := by
    apply card_add_limit_le hFull
    · intro y hy
      rcases mem_of_mem_page hy with ⟨hyMem, hyBehind⟩
      exact
        ⟨mem_ahead.mpr
          ⟨hyMem, hyBehind, le_of_lt (hBefore y hy)⟩,
          hLast y hy⟩
    · intro x hx
      rcases mem_ahead.mp hx with ⟨hxMem, hxBehind, hxLe⟩
      have hcx := behind_some.mp hxBehind
      refine ⟨mem_ahead.mpr ⟨hSub hxMem, ?_, hxLe⟩, hcx⟩
      intro c' hc'
      exact lt_trans ((mem_of_mem_page hc).2 c' hc') hcx
  cases n with
  | zero => omega
  | succ m =>
      refine ⟨m, by rfl, ?_⟩
      rw [hAdvance,
        within_behind (behind_some.mpr (hBefore c hc))]
      rw [Nat.add_mul] at hWithin
      omega

theorem within_mono
    {n m : ℕ}
    (hWithin : Within limit cursor S r n)
    (hLe : n ≤ m) :
    Within limit cursor S r m := by
  by_cases hBehind : Behind cursor r
  · rw [within_behind hBehind] at hWithin ⊢
    exact
      le_trans hWithin (Nat.mul_le_mul_right limit hLe)
  · rw [within_passed hBehind] at hWithin ⊢
    rcases hWithin with ⟨k, j, hSum, hTail, hUpTo⟩
    refine ⟨k, j + (m - n), by omega, hTail, ?_⟩
    exact
      le_trans hUpTo
        (Nat.mul_le_mul_right limit (Nat.le_add_right j _))

/- One page towards the end, the element being passed. -/
theorem within_page_passed
    {k j : ℕ}
    (hLimit : 1 ≤ limit)
    (hSub : S' ⊆ S)
    (hPassed : ¬ Behind cursor r)
    (hPage : page limit cursor S ≠ [])
    (hTail : (S.filter (Behind cursor)).card ≤ k * limit)
    (hUpTo : (ahead none S' r).card ≤ j * limit)
    (old : Option ι) :
    ∃ m,
      m + 1 = k + j ∧
        Within limit (advance limit (page limit cursor S) old)
          S' r m := by
  rcases List.exists_mem_of_ne_nil _ hPage with ⟨y, hy⟩
  rcases mem_of_mem_page hy with ⟨hyMem, hyBehind⟩
  have hPos : 0 < (S.filter (Behind cursor)).card := by
    apply Finset.card_pos.mpr
    exact ⟨y, Finset.mem_filter.mpr ⟨hyMem, hyBehind⟩⟩
  cases k with
  | zero => omega
  | succ k =>
      refine ⟨k + j, by omega, ?_⟩
      rcases advance_cases hLimit cursor S old with
        ⟨-, hAdvance⟩ | ⟨c, hc, hFull, hAdvance, hLast⟩
      · rw [hAdvance, within_behind (behind_none r), Nat.add_mul]
        omega
      · have hcBehind := (mem_of_mem_page hc).2
        have hStill : ¬ Behind (some c) r := by
          intro hrc
          apply hPassed
          intro c' hc'
          exact
            lt_trans (hcBehind c' hc') (behind_some.mp hrc)
        have hLess :
            (S'.filter (Behind (some c))).card + limit ≤
              (S.filter (Behind cursor)).card := by
          apply card_add_limit_le hFull
          · intro x hx
            exact
              ⟨Finset.mem_filter.mpr (mem_of_mem_page hx),
                hLast x hx⟩
          · intro x hx
            rcases Finset.mem_filter.mp hx with ⟨hxMem, hxc⟩
            have hcx := behind_some.mp hxc
            refine
              ⟨Finset.mem_filter.mpr ⟨hSub hxMem, ?_⟩, hcx⟩
            intro c' hc'
            exact lt_trans (hcBehind c' hc') hcx
        rw [hAdvance, within_passed hStill]
        rw [Nat.add_mul] at hTail
        exact ⟨k, j, rfl, by omega, hUpTo⟩

/- One cycle reaches the element or comes one nearer to it. -/
theorem within_cycle
    {n : ℕ}
    (hLimit : 1 ≤ limit)
    (hSub : S' ⊆ S)
    (hMem : r ∈ S')
    (hWithin : Within limit cursor S r n)
    (hOut : r ∉ (cycle limit cursor S S').1) :
    ∃ m,
      m + 1 = n ∧
        Within limit (cycle limit cursor S S').2 S' r m := by
  have hFewer :
      (ahead none S' r).card ≤ (ahead none S r).card := by
    apply Finset.card_le_card
    exact Finset.filter_subset_filter _ hSub
  rcases cycle_cases hLimit cursor S S' with
    ⟨hPage, hCycle⟩ | ⟨hEnd, hCycle⟩
  · rw [hCycle] at hOut ⊢
    by_cases hBehind : Behind cursor r
    · rw [within_behind hBehind] at hWithin
      exact
        within_page hLimit hSub (hSub hMem) hBehind hWithin
          hOut cursor
    · rw [within_passed hBehind] at hWithin
      rcases hWithin with ⟨k, j, rfl, hTail, hUpTo⟩
      apply within_page_passed hLimit hSub hBehind
      · intro hEmpty
        apply hBehind
        rw [hPage hEmpty]
        exact behind_none r
      · exact hTail
      · exact le_trans hFewer hUpTo
  · rw [hCycle] at hOut ⊢
    rw [within_passed (hEnd r (hSub hMem))] at hWithin
    rcases hWithin with ⟨k, j, rfl, -, hUpTo⟩
    rcases
      within_page hLimit (Finset.Subset.refl S') hMem
        (behind_none r) (le_trans hFewer hUpTo) hOut
        cursor with
      ⟨m, rfl, hNext⟩
    exact
      ⟨k + m, by omega,
        within_mono hNext (Nat.le_add_left m k)⟩

theorem Within.subset
    {T : Finset ι}
    {n : ℕ}
    (hSub : T ⊆ S)
    (hWithin : Within limit cursor S r n) :
    Within limit cursor T r n := by
  have hAhead :
      ∀ c : Option ι, (ahead c T r).card ≤ (ahead c S r).card := by
    intro c
    apply Finset.card_le_card
    exact Finset.filter_subset_filter _ hSub
  by_cases hBehind : Behind cursor r
  · rw [within_behind hBehind] at hWithin ⊢
    exact le_trans (hAhead cursor) hWithin
  · rw [within_passed hBehind] at hWithin ⊢
    rcases hWithin with ⟨k, j, hSum, hTail, hUpTo⟩
    refine ⟨k, j, hSum, ?_, le_trans (hAhead none) hUpTo⟩
    apply le_trans _ hTail
    apply Finset.card_le_card
    exact Finset.filter_subset_filter _ hSub

/-
  The run lemma: an element that stays is visited when the
  cycles are as many as its distance from the cursor.
-/
theorem mem_run_of_within
    (hLimit : 1 ≤ limit)
    {cycles : List (Finset ι × Finset ι)}
    {T : Finset ι}
    {n : ℕ}
    (hShrinks : Shrinks T cycles)
    (hStays : Stays r cycles)
    (hMem : r ∈ T)
    (hWithin : Within limit cursor T r n)
    (hEnough : n ≤ cycles.length) :
    r ∈ run limit cursor cycles := by
  induction cycles generalizing cursor T n with
  | nil =>
      -- The element itself is before the cursor.
      have hZero : n = 0 := by
        rw [List.length_nil] at hEnough
        omega
      have hPos :
          ∀ c : Option ι, Behind c r →
            0 < (ahead c T r).card := by
        intro c hBehind
        apply Finset.card_pos.mpr
        exact ⟨r, mem_ahead.mpr ⟨hMem, hBehind, le_refl r⟩⟩
      by_cases hBehind : Behind cursor r
      · rw [within_behind hBehind] at hWithin
        have hSome := hPos cursor hBehind
        rw [hZero] at hWithin
        omega
      · rw [within_passed hBehind] at hWithin
        rcases hWithin with ⟨k, j, hSum, -, hUpTo⟩
        have hSome := hPos none (behind_none r)
        have hj : j = 0 := by omega
        rw [hj] at hUpTo
        omega
  | cons p cycles ih =>
      rcases p with ⟨S, S'⟩
      rcases hShrinks with ⟨hS, hS', hRest⟩
      have hHere := hStays (S, S') List.mem_cons_self
      unfold run
      by_cases hFound : r ∈ (cycle limit cursor S S').1
      · exact List.mem_append_left _ hFound
      · apply List.mem_append_right
        rcases
          within_cycle hLimit hS' hHere.2 (hWithin.subset hS)
            hFound with
          ⟨m, rfl, hNext⟩
        apply ih hRest _ hHere.2 hNext
        · rw [List.length_cons] at hEnough
          omega
        · intro p hp
          exact hStays p (List.mem_cons_of_mem _ hp)

/- Wherever the cursor stands, the distance is bounded. -/
theorem within_length
    (hLimit : 1 ≤ limit)
    (S : Finset ι)
    (r : ι) :
    Within limit cursor S r (S.card ⌈/⌉ limit + 1) := by
  have hCeil :
      ∀ n : ℕ,
        n ≤ (n ⌈/⌉ limit) * limit ∧
          (n ⌈/⌉ limit) * limit < n + limit := by
    intro n
    rw [Nat.ceilDiv_eq_add_pred_div]
    have hDiv := Nat.div_add_mod' (n + limit - 1) limit
    have hMod := Nat.mod_lt (n + limit - 1) hLimit
    omega
  have hAll := (hCeil S.card).1
  by_cases hBehind : Behind cursor r
  · rw [within_behind hBehind]
    have hLe : (ahead cursor S r).card ≤ S.card :=
      Finset.card_le_card (Finset.filter_subset _ S)
    rw [Nat.add_mul]
    omega
  · rw [within_passed hBehind]
    have hParts :
        (S.filter (Behind cursor)).card +
            (ahead none S r).card ≤ S.card := by
      rw [← Finset.card_union_of_disjoint]
      · apply Finset.card_le_card
        apply Finset.union_subset
        · exact Finset.filter_subset _ S
        · exact Finset.filter_subset _ S
      · rw [Finset.disjoint_left]
        intro x hx hUpTo
        apply hBehind
        intro c hc
        exact
          lt_of_lt_of_le ((Finset.mem_filter.mp hx).2 c hc)
            (mem_ahead.mp hUpTo).2.2
    have hTail := hCeil (S.filter (Behind cursor)).card
    have hLe :
        (S.filter (Behind cursor)).card ⌈/⌉ limit ≤
          S.card ⌈/⌉ limit := by
      rw [Nat.ceilDiv_eq_add_pred_div,
        Nat.ceilDiv_eq_add_pred_div]
      apply Nat.div_le_div_right
      omega
    refine
      ⟨(S.filter (Behind cursor)).card ⌈/⌉ limit,
        S.card ⌈/⌉ limit + 1 -
          (S.filter (Behind cursor)).card ⌈/⌉ limit,
        by omega, hTail.1, ?_⟩
    rw [Nat.sub_mul, Nat.add_mul]
    omega

/-
  Every element that stays is visited within a bounded number
  of cycles, wherever the cursor stood at first.
-/
theorem mem_run
    (hLimit : 1 ≤ limit)
    {cycles : List (Finset ι × Finset ι)}
    (hShrinks : Shrinks S cycles)
    (hStays : Stays r cycles)
    (hMem : r ∈ S)
    (hEnough : S.card ⌈/⌉ limit + 1 ≤ cycles.length) :
    r ∈ run limit cursor cycles :=
  mem_run_of_within hLimit hShrinks hStays hMem
    (within_length hLimit S r) hEnough

end Sweep

------------------------------------------------------------
-- Every other element comes before the same one again
------------------------------------------------------------

namespace Sweep

variable {ι : Type} [LinearOrder ι]

/- Going around from the cursor, one meets q before r. -/
def Due
    (q r : ι) : Option ι → Prop
| none => q < r
| some c => (c < q ∧ (q < r ∨ r ≤ c)) ∨ (q < r ∧ r ≤ c)

variable {limit : ℕ} {cursor : Option ι} {S S' : Finset ι}
variable {q r : ι}

theorem due_behind
    (hBehind : Behind cursor q)
    (hDue : Due q r cursor) :
    q < r ∨ ¬ Behind cursor r := by
  cases cursor with
  | none => exact Or.inl hDue
  | some c =>
      rw [behind_some, not_lt]
      rcases hDue with ⟨-, hBefore | hPassed⟩ | ⟨hBefore, -⟩
      · exact Or.inl hBefore
      · exact Or.inr hPassed
      · exact Or.inl hBefore

theorem due_not_behind
    (hPassed : ¬ Behind cursor q)
    (hDue : Due q r cursor) :
    q < r ∧ ¬ Behind cursor r := by
  cases cursor with
  | none => exact absurd (behind_none q) hPassed
  | some c =>
      rw [behind_some] at hPassed ⊢
      rcases hDue with ⟨hLt, -⟩ | ⟨hBefore, hLe⟩
      · exact absurd hLt hPassed
      · exact ⟨hBefore, not_lt_of_ge hLe⟩

theorem behind_of_lt
    {x y : ι}
    (hBehind : Behind cursor x)
    (hLt : x < y) :
    Behind cursor y := by
  intro c hc
  exact lt_trans (hBehind c hc) hLt

/- What the page holds or has passed by does not come first. -/
theorem due_advance
    (hLimit : 1 ≤ limit)
    (hBefore : q < r)
    (hPage : Behind cursor r → r ∈ page limit cursor S)
    (old : Option ι) :
    Due q r (advance limit (page limit cursor S) old) := by
  rcases advance_cases hLimit cursor S old with
    ⟨-, hAdvance⟩ | ⟨c, hc, -, hAdvance, hLast⟩
  · rw [hAdvance]
    exact hBefore
  · rw [hAdvance]
    right
    refine ⟨hBefore, ?_⟩
    by_contra hNot
    have hBehind :=
      behind_of_lt (mem_of_mem_page hc).2 (not_le.mp hNot)
    exact hNot (hLast r (hPage hBehind))

/- What a full page stops before comes next. -/
theorem due_next
    (hLimit : 1 ≤ limit)
    (hMem : q ∈ S)
    (hBehind : Behind cursor q)
    (hOut : q ∉ page limit cursor S)
    (hLater : q < r ∨ (Behind cursor r → r ∈ page limit cursor S))
    (old : Option ι) :
    Due q r (advance limit (page limit cursor S) old) := by
  rcases of_not_mem_page hMem hBehind hOut with ⟨hFull, hBefore⟩
  rcases advance_full hLimit hFull old with
    ⟨c, hc, hAdvance, hLast⟩
  rw [hAdvance]
  left
  refine ⟨hBefore c hc, ?_⟩
  rcases hLater with hLt | hPage
  · exact Or.inl hLt
  · right
    by_contra hNot
    have hrBehind :=
      behind_of_lt (mem_of_mem_page hc).2 (not_le.mp hNot)
    exact hNot (hLast r (hPage hrBehind))

theorem mem_of_lt
    {xs ys : List ι}
    (hSorted : (xs ++ r :: ys).Pairwise (· < ·))
    (hMem : q ∈ xs ++ r :: ys)
    (hLt : q < r) :
    q ∈ xs := by
  rcases List.mem_append.mp hMem with hXs | hCons
  · exact hXs
  rcases List.mem_cons.mp hCons with hEq | hYs
  · exact absurd hEq (ne_of_lt hLt)
  · have hTail := (List.pairwise_append.mp hSorted).2.1
    exact
      absurd ((List.pairwise_cons.mp hTail).1 q hYs)
        (not_lt_of_gt hLt)

/- The page step, q being due and still to come. -/
theorem due_page
    (hLimit : 1 ≤ limit)
    (hMem : q ∈ S)
    (hBehind : Behind cursor q)
    (hDue : Due q r cursor)
    (old : Option ι) :
    (∀ xs ys, page limit cursor S = xs ++ r :: ys → q ∈ xs) ∧
      (q ∈ page limit cursor S ∨
        Due q r
          (advance limit (page limit cursor S) old)) := by
  have hOrder := due_behind hBehind hDue
  constructor
  · intro xs ys hSplit
    have hr : r ∈ page limit cursor S := by
      rw [hSplit]
      exact List.mem_append_right _ List.mem_cons_self
    have hLt : q < r := by
      rcases hOrder with hLt | hPassed
      · exact hLt
      · exact absurd (mem_of_mem_page hr).2 hPassed
    by_cases hPage : q ∈ page limit cursor S
    · have hSorted : (page limit cursor S).Pairwise (· < ·) :=
        page_sorted
      rw [hSplit] at hSorted hPage
      exact mem_of_lt hSorted hPage hLt
    · have hBefore :=
        (of_not_mem_page hMem hBehind hPage).2 r hr
      exact absurd hLt (not_lt_of_gt hBefore)
  · by_cases hPage : q ∈ page limit cursor S
    · exact Or.inl hPage
    · right
      apply due_next hLimit hMem hBehind hPage
      rcases hOrder with hLt | hPassed
      · exact Or.inl hLt
      · right
        intro hr
        exact absurd hr hPassed

/- The cycle step: what is due comes first. -/
theorem due_cycle
    (hLimit : 1 ≤ limit)
    (hMem : q ∈ S)
    (hMem' : q ∈ S')
    (hDue : Due q r cursor) :
    (∀ xs ys,
      (cycle limit cursor S S').1 = xs ++ r :: ys → q ∈ xs) ∧
      (q ∈ (cycle limit cursor S S').1 ∨
        Due q r (cycle limit cursor S S').2) := by
  rcases cycle_cases hLimit cursor S S' with
    ⟨-, hCycle⟩ | ⟨hEnd, hCycle⟩
  · rw [hCycle]
    by_cases hBehind : Behind cursor q
    · exact due_page hLimit hMem hBehind hDue cursor
    · rcases due_not_behind hBehind hDue with ⟨hLt, hPassed⟩
      dsimp only
      constructor
      · intro xs ys hSplit
        have hr : r ∈ page limit cursor S := by
          rw [hSplit]
          exact List.mem_append_right _ List.mem_cons_self
        exact absurd (mem_of_mem_page hr).2 hPassed
      · right
        apply due_advance hLimit hLt
        intro hr
        exact absurd hr hPassed
  · rw [hCycle]
    have hLt := (due_not_behind (hEnd q hMem) hDue).1
    exact due_page hLimit hMem' (behind_none q) hLt cursor

/- Once r was visited, any other element is due before it. -/
theorem due_after
    (hLimit : 1 ≤ limit)
    (hMem : q ∈ S)
    (hMem' : q ∈ S')
    (hNe : q ≠ r)
    {xs ys : List ι}
    (hSplit : (cycle limit cursor S S').1 = xs ++ r :: ys) :
    q ∈ ys ∨ Due q r (cycle limit cursor S S').2 := by
  have hPage :
      ∀ (c : Option ι) (T : Finset ι),
        q ∈ T →
        page limit c T = xs ++ r :: ys →
        q ∈ ys ∨
          Due q r (advance limit (page limit c T) cursor) := by
    intro c T hT hFound
    have hr : r ∈ page limit c T := by
      rw [hFound]
      exact List.mem_append_right _ List.mem_cons_self
    rcases lt_or_gt_of_ne hNe with hLt | hGt
    · exact Or.inr (due_advance hLimit hLt (fun _ => hr) cursor)
    have hBehind := behind_of_lt (mem_of_mem_page hr).2 hGt
    by_cases hIn : q ∈ page limit c T
    · left
      have hSorted : (page limit c T).Pairwise (· < ·) :=
        page_sorted
      rw [hFound] at hSorted hIn
      rcases List.mem_append.mp hIn with hXs | hCons
      · exact
          absurd
            ((List.pairwise_append.mp hSorted).2.2 q hXs r
              List.mem_cons_self)
            (not_lt_of_gt hGt)
      · exact (List.mem_cons.mp hCons).resolve_left hNe
    · right
      apply due_next hLimit hT hBehind hIn
      exact Or.inr fun _ => hr
  rcases cycle_cases hLimit cursor S S' with
    ⟨-, hCycle⟩ | ⟨-, hCycle⟩
  · rw [hCycle] at hSplit ⊢
    exact hPage cursor S hMem hSplit
  · rw [hCycle] at hSplit ⊢
    exact hPage none S' hMem' hSplit

omit [LinearOrder ι] in
theorem Stays.tail
    {x : ι}
    {p : Finset ι × Finset ι}
    {cycles : List (Finset ι × Finset ι)}
    (hStays : Stays x (p :: cycles)) :
    Stays x cycles :=
  fun p' hp => hStays p' (List.mem_cons_of_mem p hp)

/- The run lemma for what is due. -/
theorem mem_of_due
    (hLimit : 1 ≤ limit)
    {cycles : List (Finset ι × Finset ι)}
    (hStays : Stays q cycles)
    (hDue : Due q r cursor)
    {xs ys : List ι}
    (hRun : run limit cursor cycles = xs ++ r :: ys) :
    q ∈ xs := by
  induction cycles generalizing cursor xs with
  | nil =>
      unfold run at hRun
      exact absurd hRun.symm (by simp)
  | cons p cycles ih =>
      rcases p with ⟨S, S'⟩
      have hHere := hStays (S, S') List.mem_cons_self
      rcases due_cycle hLimit hHere.1 hHere.2 hDue with
        ⟨hFirst, hNext⟩
      unfold run at hRun
      rcases List.append_eq_append_iff.mp hRun with
        ⟨zs, rfl, hRest⟩ | ⟨zs, hFound, hRest⟩
      · rcases hNext with hIn | hLater
        · exact List.mem_append_left _ hIn
        · exact
            List.mem_append_right _
              (ih hStays.tail hLater hRest)
      · cases zs with
        | nil =>
            rw [List.append_nil] at hFound
            rcases hNext with hIn | hLater
            · rw [hFound] at hIn
              exact hIn
            · have hNone : q ∈ ([] : List ι) :=
                ih hStays.tail hLater hRest.symm
              cases hNone
        | cons z zs =>
            rw [List.cons_append, List.cons.injEq] at hRest
            rw [← hRest.1] at hFound
            exact hFirst xs zs hFound

/-
  Between two visits to one element, every other element that
  stays is visited.
-/
theorem mem_between
    (hLimit : 1 ≤ limit)
    {cycles : List (Finset ι × Finset ι)}
    (hStays : Stays q cycles)
    (hNe : q ≠ r)
    {xs between ys : List ι}
    (hRun :
      run limit cursor cycles =
        xs ++ r :: (between ++ r :: ys)) :
    q ∈ between := by
  induction cycles generalizing cursor xs with
  | nil =>
      unfold run at hRun
      exact absurd hRun.symm (by simp)
  | cons p cycles ih =>
      rcases p with ⟨S, S'⟩
      have hHere := hStays (S, S') List.mem_cons_self
      unfold run at hRun
      rcases List.append_eq_append_iff.mp hRun with
        ⟨zs, rfl, hRest⟩ | ⟨zs, hFound, hRest⟩
      · exact ih hStays.tail hRest
      cases zs with
      | nil =>
          have hLater :
              run limit (cycle limit cursor S S').2 cycles =
                [] ++ r :: (between ++ r :: ys) := hRest.symm
          exact ih hStays.tail hLater
      | cons z zs =>
          rw [List.cons_append, List.cons.injEq] at hRest
          rcases hRest with ⟨rfl, hRest⟩
          have hAfter :=
            due_after hLimit hHere.1 hHere.2 hNe hFound
          rcases List.append_eq_append_iff.mp hRest with
            ⟨as, rfl, hNext⟩ | ⟨as, rfl, hNext⟩
          · cases as with
            | nil =>
                rw [List.append_nil] at hAfter
                rcases hAfter with hIn | hDue
                · exact hIn
                · have hNone : q ∈ ([] : List ι) :=
                    mem_of_due hLimit hStays.tail hDue
                      hNext.symm
                  cases hNone
            | cons a as =>
                -- One cycle does not visit an element twice.
                rw [List.cons_append, List.cons.injEq] at hNext
                rw [← hNext.1] at hFound
                have hSorted := cycle_sorted limit cursor S S'
                rw [hFound] at hSorted
                have hTail :=
                  (List.pairwise_append.mp hSorted).2.1
                have hLt :=
                  (List.pairwise_cons.mp hTail).1 r
                    (List.mem_append_right _
                      List.mem_cons_self)
                exact absurd hLt (lt_irrefl r)
          · rcases hAfter with hIn | hDue
            · exact List.mem_append_left _ hIn
            · apply List.mem_append_right
              exact mem_of_due hLimit hStays.tail hDue hNext

end Sweep
