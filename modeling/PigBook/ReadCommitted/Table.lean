import Mathlib.Data.List.Forall2
import Mathlib.Data.List.Pairwise
import Mathlib.Tactic.Common

/-
  Tables as lists of rows that a key tells apart.

  Key definitions include:
    * `Keyed`
    * `updateWhere`
    * `Grows`

  Key theorems include:
    * `mem_updateWhere_key`
    * `pairwise_updateWhere`
    * `Grows.trans`
-/

------------------------------------------------------------
-- Keyed Tables
------------------------------------------------------------

namespace ReadCommitted

variable {ρ κ : Type}

/- No two rows of the table have the same key. -/
def Keyed
    (key : ρ → κ)
    (rows : List ρ) : Prop :=
  rows.Pairwise (fun r r' => key r ≠ key r')

variable {key : ρ → κ} {rows : List ρ}

/- The key determines the row. -/
theorem Keyed.eq_of_key
    (hKeyed : Keyed key rows)
    {r r' : ρ}
    (hRow : r ∈ rows)
    (hRow' : r' ∈ rows)
    (hKey : key r = key r') :
    r = r' := by
  by_contra hNe
  have : Std.Symm (fun x x' : ρ => key x ≠ key x') :=
    ⟨fun _ _ h => h.symm⟩
  exact List.Pairwise.forall hKeyed hRow hRow' hNe hKey

theorem Keyed.append_singleton
    (hKeyed : Keyed key rows)
    {r : ρ}
    (hFresh : ∀ r' ∈ rows, key r' ≠ key r) :
    Keyed key (rows ++ [r]) := by
  refine List.pairwise_append.mpr ⟨hKeyed, by simp, ?_⟩
  intro r' hRow' x hx
  rw [List.mem_singleton.mp hx]
  exact hFresh r' hRow'

/- A predicate that selects by the key selects one row. -/
theorem Keyed.filter_eq_singleton
    (hKeyed : Keyed key rows)
    {r : ρ}
    (hRow : r ∈ rows)
    {p : ρ → Bool}
    (hSelects : ∀ x ∈ rows, p x = true ↔ key x = key r) :
    rows.filter p = [r] := by
  induction rows with
  | nil => cases hRow
  | cons x xs ih =>
      rcases List.pairwise_cons.mp hKeyed with
        ⟨hHead, hTail⟩
      rcases List.mem_cons.mp hRow with hEq | hRest
      · subst hEq
        have hNone : xs.filter p = [] := by
          refine List.filter_eq_nil_iff.mpr ?_
          intro y hy hSelected
          have hKey :=
            (hSelects y (List.mem_cons_of_mem _ hy)).mp
              hSelected
          exact hHead y hy hKey.symm
        have hSelf := (hSelects r List.mem_cons_self).mpr rfl
        rw [List.filter_cons_of_pos hSelf, hNone]
      · have hOut : ¬ p x = true := by
          intro hSelected
          have hKey :=
            (hSelects x List.mem_cons_self).mp hSelected
          exact hHead r hRest hKey
        rw [List.filter_cons_of_neg hOut]
        exact
          ih hTail hRest
            (fun y hy =>
              hSelects y (List.mem_cons_of_mem _ hy))

end ReadCommitted

------------------------------------------------------------
-- Conditional Updates
------------------------------------------------------------

namespace ReadCommitted

variable {ρ κ : Type}

/- UPDATE: the rows that the predicate selects, changed. -/
def updateWhere
    (p : ρ → Bool)
    (f : ρ → ρ)
    (rows : List ρ) : List ρ :=
  rows.map (fun r => if p r then f r else r)

variable {p : ρ → Bool} {f : ρ → ρ} {rows : List ρ}

@[simp] theorem updateWhere_nil :
    updateWhere p f [] = [] :=
  rfl

@[simp] theorem updateWhere_append
    (rows' : List ρ) :
    updateWhere p f (rows ++ rows') =
      updateWhere p f rows ++ updateWhere p f rows' := by
  simp [updateWhere]

theorem mem_updateWhere
    {x : ρ} :
    x ∈ updateWhere p f rows ↔
      (∃ r ∈ rows, p r = true ∧ x = f r) ∨
        (x ∈ rows ∧ p x = false) := by
  unfold updateWhere
  rw [List.mem_map]
  constructor
  · rintro ⟨r, hRow, rfl⟩
    cases hCase : p r with
    | true => exact Or.inl ⟨r, hRow, hCase, by simp⟩
    | false => exact Or.inr (by simpa [hCase] using hRow)
  · rintro (⟨r, hRow, hCase, rfl⟩ | ⟨hRow, hCase⟩)
    · exact ⟨r, hRow, by simp [hCase]⟩
    · exact ⟨x, hRow, by simp [hCase]⟩

/- An update that selects no row changes nothing. -/
theorem updateWhere_eq_self
    (hNone : ∀ r ∈ rows, p r = false) :
    updateWhere p f rows = rows := by
  unfold updateWhere
  have hMap :
      rows.map (fun r => if p r then f r else r) =
        rows.map id := by
    refine List.map_congr_left ?_
    intro r hRow
    simp [hNone r hRow]
  rw [hMap, List.map_id]

/- Updates agree when their predicates agree on the rows. -/
theorem updateWhere_congr
    {p' : ρ → Bool}
    (hSame : ∀ r ∈ rows, p r = p' r) :
    updateWhere p f rows = updateWhere p' f rows := by
  unfold updateWhere
  refine List.map_congr_left ?_
  intro r hRow
  rw [hSame r hRow]

/- A filter that no changed row passes sees no change. -/
theorem filter_updateWhere
    {q : ρ → Bool}
    (hOut :
      ∀ r ∈ rows, p r = true →
        q r = false ∧ q (f r) = false) :
    (updateWhere p f rows).filter q = rows.filter q := by
  induction rows with
  | nil => rfl
  | cons r rows ih =>
      have hTail :=
        ih (fun x hx => hOut x (List.mem_cons_of_mem _ hx))
      change
        List.filter q
            ((if p r then f r else r) ::
              updateWhere p f rows) = _
      by_cases hCase : p r = true
      · rcases hOut r List.mem_cons_self hCase with
          ⟨hOld, hNew⟩
        rw [if_pos hCase, List.filter_cons_of_neg (by simp [hNew]),
          List.filter_cons_of_neg (by simp [hOld]), hTail]
      · rw [if_neg hCase, List.filter_cons, List.filter_cons,
          hTail]

/- A filter that changed rows only leave gets no longer. -/
theorem length_filter_updateWhere_le
    {q : ρ → Bool}
    (hLeaves :
      ∀ r ∈ rows, p r = true → q (f r) = true → q r = true) :
    ((updateWhere p f rows).filter q).length ≤
      (rows.filter q).length := by
  unfold updateWhere
  rw [← List.countP_eq_length_filter,
    ← List.countP_eq_length_filter, List.countP_map]
  refine List.countP_mono_left ?_
  intro r hRow hPasses
  by_cases hCase : p r = true
  · simp only [Function.comp_apply, hCase, if_true]
      at hPasses
    exact hLeaves r hRow hCase hPasses
  · simpa [hCase] using hPasses

/- A relation that the changes respect stays pairwise. -/
theorem pairwise_updateWhere
    {R : ρ → ρ → Prop}
    (hPairwise : rows.Pairwise R)
    (hRespects :
      ∀ a ∈ rows, ∀ b ∈ rows, R a b →
        R (if p a then f a else a) (if p b then f b else b)) :
    (updateWhere p f rows).Pairwise R := by
  unfold updateWhere
  rw [List.pairwise_map]
  exact hPairwise.imp_of_mem
    (fun ha hb hR => hRespects _ ha _ hb hR)

variable {key : ρ → κ}

/- Changes that keep the key keep a table keyed. -/
theorem Keyed.updateWhere
    (hKeyed : Keyed key rows)
    (hSame : ∀ r ∈ rows, p r = true → key (f r) = key r) :
    Keyed key (updateWhere p f rows) := by
  refine pairwise_updateWhere hKeyed ?_
  intro a ha b hb hNe
  have hKey :
      ∀ r ∈ rows, key (if p r then f r else r) = key r := by
    intro r hRow
    by_cases hCase : p r = true
    · simp [hCase, hSame r hRow hCase]
    · simp [hCase]
  rw [hKey a ha, hKey b hb]
  exact hNe

/- An update of one row by its key: the others remain. -/
theorem mem_updateWhere_key
    (hKeyed : Keyed key rows)
    {r : ρ}
    (hRow : r ∈ rows)
    (hSelects : ∀ x ∈ rows, p x = true ↔ key x = key r)
    {x : ρ} :
    x ∈ ReadCommitted.updateWhere p f rows ↔
      x = f r ∨ (x ∈ rows ∧ key x ≠ key r) := by
  rw [mem_updateWhere]
  constructor
  · rintro (⟨y, hy, hSelected, rfl⟩ | ⟨hx, hOut⟩)
    · have hKey := (hSelects y hy).mp hSelected
      rw [hKeyed.eq_of_key hy hRow hKey]
      exact Or.inl rfl
    · refine Or.inr ⟨hx, ?_⟩
      intro hKey
      rw [(hSelects x hx).mpr hKey] at hOut
      cases hOut
  · rintro (rfl | ⟨hx, hNe⟩)
    · exact
        Or.inl ⟨r, hRow, (hSelects r hRow).mpr rfl, rfl⟩
    · refine Or.inr ⟨hx, ?_⟩
      rw [Bool.eq_false_iff]
      intro hSelected
      exact hNe ((hSelects x hx).mp hSelected)

end ReadCommitted

------------------------------------------------------------
-- Tables That Grow
------------------------------------------------------------

namespace ReadCommitted

variable {ρ : Type} {kept : ρ → ρ → Prop} {new : ρ → Prop}

/-
  The rows of a table are kept in their places, in the sense
  of `kept`, and the rows appended to them are `new`.
-/
inductive Grows
    (kept : ρ → ρ → Prop)
    (new : ρ → Prop) : List ρ → List ρ → Prop
  | grown
      {rows : List ρ}
      (hNew : ∀ r ∈ rows, new r) :
      Grows kept new [] rows
  | row
      {r r' : ρ} {rows rows' : List ρ}
      (hKept : kept r r')
      (hRest : Grows kept new rows rows') :
      Grows kept new (r :: rows) (r' :: rows')

namespace Grows

variable {rows rows' rows'' : List ρ} {r : ρ}

theorem refl
    (hRefl : ∀ r, kept r r)
    (rows : List ρ) :
    Grows kept new rows rows := by
  induction rows with
  | nil => exact .grown (fun r hMem => by cases hMem)
  | cons r rows ih => exact .row (hRefl r) ih

theorem of_forall₂
    (hKept : List.Forall₂ kept rows rows')
    {added : List ρ}
    (hNew : ∀ r ∈ added, new r) :
    Grows kept new rows (rows' ++ added) := by
  induction hKept with
  | nil => exact .grown hNew
  | cons hHead hTail ih => exact .row hHead ih

/- Each row is found later on. -/
theorem later
    (hGrows : Grows kept new rows rows')
    (hMem : r ∈ rows) :
    ∃ r' ∈ rows', kept r r' := by
  induction hGrows with
  | grown hNew => cases hMem
  | @row x x' rows rows' hKept hRest ih =>
      rcases List.mem_cons.mp hMem with rfl | hTail
      · exact ⟨x', List.mem_cons_self, hKept⟩
      · rcases ih hTail with ⟨r', hMem', hLater⟩
        exact ⟨r', List.mem_cons_of_mem _ hMem', hLater⟩

/- Each row was there before, or is new. -/
theorem origin
    (hGrows : Grows kept new rows rows')
    (hMem : r ∈ rows') :
    (∃ r₀ ∈ rows, kept r₀ r) ∨ new r := by
  induction hGrows with
  | grown hNew => exact Or.inr (hNew r hMem)
  | @row x x' rows rows' hKept hRest ih =>
      rcases List.mem_cons.mp hMem with rfl | hTail
      · exact Or.inl ⟨x, List.mem_cons_self, hKept⟩
      · rcases ih hTail with ⟨r₀, hMem₀, hLater⟩ | hNew
        · exact
            Or.inl ⟨r₀, List.mem_cons_of_mem _ hMem₀, hLater⟩
        · exact Or.inr hNew

/- An update that keeps the rows, and an insertion. -/
theorem of_updateWhere
    {p : ρ → Bool}
    {f : ρ → ρ}
    {added : List ρ}
    (hRefl : ∀ r, kept r r)
    (hKept : ∀ r ∈ rows, p r = true → kept r (f r))
    (hNew : ∀ r ∈ added, new r) :
    Grows kept new rows (updateWhere p f rows ++ added) := by
  apply Grows.of_forall₂ _ hNew
  induction rows with
  | nil => exact .nil
  | cons r rows ih =>
      apply List.Forall₂.cons
      · change kept r (if p r then f r else r)
        by_cases hSelected : p r = true
        · rw [if_pos hSelected]
          exact hKept r List.mem_cons_self hSelected
        · rw [if_neg hSelected]
          exact hRefl r
      · exact
          ih (fun x hx => hKept x (List.mem_cons_of_mem r hx))

/- One growth after another, each in its own sense. -/
theorem comp
    {kept' kept'' : ρ → ρ → Prop}
    {new' new'' : ρ → Prop}
    (hFirst : Grows kept new rows rows')
    (hSecond : Grows kept' new' rows' rows'')
    (hKept :
      ∀ {r r' r''}, kept r r' → kept' r' r'' → kept'' r r'')
    (hOld : ∀ {r r'}, kept' r r' → new r → new'' r')
    (hNew : ∀ {r}, new' r → new'' r) :
    Grows kept'' new'' rows rows'' := by
  induction hFirst generalizing rows'' with
  | grown hRows =>
      apply Grows.grown
      intro r hMem
      rcases hSecond.origin hMem with ⟨r₀, hMem₀, hLater⟩ | hHere
      · exact hOld hLater (hRows r₀ hMem₀)
      · exact hNew hHere
  | row hHead hRest ih =>
      cases hSecond with
      | row hHead' hRest' =>
          exact .row (hKept hHead hHead') (ih hRest')

theorem trans
    (hTrans :
      ∀ {r r' r''}, kept r r' → kept r' r'' → kept r r'')
    (hStays : ∀ {r r'}, kept r r' → new r → new r')
    (hFirst : Grows kept new rows rows')
    (hSecond : Grows kept new rows' rows'') :
    Grows kept new rows rows'' :=
  hFirst.comp hSecond hTrans hStays (fun hNew => hNew)

theorem mono
    {kept' : ρ → ρ → Prop}
    {new' : ρ → Prop}
    (hKept : ∀ {r r'}, kept r r' → kept' r r')
    (hNew : ∀ {r}, new r → new' r)
    (hGrows : Grows kept new rows rows') :
    Grows kept' new' rows rows' := by
  induction hGrows with
  | grown hRows =>
      exact .grown (fun r hMem => hNew (hRows r hMem))
  | row hHead hRest ih => exact .row (hKept hHead) ih

/- Where no new row is selected, the selected rows are kept. -/
theorem filter
    {p : ρ → Bool}
    (hKept : ∀ {r r'}, kept r r' → p r' = p r)
    (hNew : ∀ {r}, new r → p r = false)
    (hGrows : Grows kept new rows rows') :
    List.Forall₂ kept (rows.filter p) (rows'.filter p) := by
  induction hGrows with
  | @grown rows hRows =>
      have hNone : rows.filter p = [] := by
        apply List.filter_eq_nil_iff.mpr
        intro r hMem
        rw [hNew (hRows r hMem)]
        simp
      rw [hNone]
      exact .nil
  | @row r r' rows rows' hHead hRest ih =>
      by_cases hSelected : p r = true
      · rw [List.filter_cons_of_pos hSelected,
          List.filter_cons_of_pos
            (by rw [hKept hHead]; exact hSelected)]
        exact .cons hHead ih
      · rw [List.filter_cons_of_neg hSelected,
          List.filter_cons_of_neg
            (by rw [hKept hHead]; exact hSelected)]
        exact ih

end Grows

end ReadCommitted
