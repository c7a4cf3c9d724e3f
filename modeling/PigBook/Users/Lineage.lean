import Mathlib.Data.List.Chain
import PigBook.Users.Families

/-
  A family of refresh tokens as a chain.

  Key definitions include:
    * `Succeeds`
    * `Lineage`

  Key theorems include:
    * `Lineage.unused_last`
    * `Lineage.rotate`
-/

------------------------------------------------------------
-- Chains of Tokens
------------------------------------------------------------

namespace PigBook

open ReadCommitted

/- The token `child` was issued when `parent` was used. -/
structure Succeeds (parent child : RefreshToken) : Prop where
  parentId : child.parentId = some parent.id
  used : parent.usedAt.isSome
  userId : child.userId = parent.userId
  familyExpiresAt :
    child.familyExpiresAt = parent.familyExpiresAt

/-
  A root, and each further token succeeds the one before it.
-/
def Lineage : List RefreshToken → Prop
| [] => True
| root :: rest =>
    root.parentId = none ∧ List.IsChain Succeeds (root :: rest)

section Chains

variable {tokens : List RefreshToken} {a t t' : RefreshToken}
variable {id : Uuid}

/- Each token after the first has its parent before it. -/
theorem chain_parent
    (hChain : List.IsChain Succeeds (a :: tokens))
    (hMem : t ∈ tokens) :
    ∃ p ∈ a :: tokens, t.parentId = some p.id ∧
      p.usedAt.isSome := by
  induction tokens generalizing a with
  | nil => cases hMem
  | cons b rest ih =>
      rcases List.isChain_cons_cons.mp hChain with
        ⟨hFirst, hRest⟩
      rcases List.mem_cons.mp hMem with rfl | hTail
      · exact
          ⟨a, List.mem_cons_self, hFirst.parentId, hFirst.used⟩
      · rcases ih hRest hTail with ⟨p, hParent, hId, hUsed⟩
        exact ⟨p, List.mem_cons_of_mem a hParent, hId, hUsed⟩

/- No two tokens after the first have the same parent. -/
theorem chain_child
    (hChain : List.IsChain Succeeds (a :: tokens))
    (hKeyed : Keyed RefreshToken.id (a :: tokens))
    (hMem : t ∈ tokens)
    (hMem' : t' ∈ tokens)
    (hSame : t.parentId = t'.parentId) :
    t = t' := by
  induction tokens generalizing a with
  | nil => cases hMem
  | cons b rest ih =>
      rcases List.isChain_cons_cons.mp hChain with
        ⟨hFirst, hRest⟩
      rcases List.pairwise_cons.mp hKeyed with
        ⟨hHead, hTail⟩
      -- the second token's parent is the first, which is no
      -- parent further on
      have hApart :
          ∀ x ∈ rest, x.parentId ≠ b.parentId := by
        intro x hx hEq
        rcases chain_parent hRest hx with ⟨p, hp, hId, -⟩
        rw [hEq, hFirst.parentId] at hId
        exact hHead p hp (Option.some.inj hId)
      rcases List.mem_cons.mp hMem with rfl | hLater
      · rcases List.mem_cons.mp hMem' with rfl | hLater'
        · rfl
        · exact absurd hSame.symm (hApart t' hLater')
      · rcases List.mem_cons.mp hMem' with rfl | hLater'
        · exact absurd hSame (hApart t hLater)
        · exact ih hRest hTail hLater hLater'

/- Only the last token of a chain may be unused. -/
theorem chain_unused_last
    (hChain : List.IsChain Succeeds tokens)
    (hMem : t ∈ tokens)
    (hUnused : t.usedAt = none) :
    ∃ older, tokens = older ++ [t] := by
  induction tokens with
  | nil => cases hMem
  | cons b rest ih =>
      cases rest with
      | nil =>
          rw [List.mem_singleton.mp hMem]
          exact ⟨[], rfl⟩
      | cons b' rest =>
          rcases List.isChain_cons_cons.mp hChain with
            ⟨hFirst, hRest⟩
          rcases List.mem_cons.mp hMem with rfl | hTail
          · have hUsed := hFirst.used
            rw [hUnused] at hUsed
            cases hUsed
          · rcases ih hRest hTail with ⟨older, hOlder⟩
            exact ⟨b :: older, by rw [hOlder]; rfl⟩

/- A chain has one user and one end. -/
theorem chain_same
    (hChain : List.IsChain Succeeds (a :: tokens))
    (hMem : t ∈ a :: tokens) :
    t.userId = a.userId ∧
      t.familyExpiresAt = a.familyExpiresAt := by
  induction tokens generalizing a with
  | nil =>
      rw [List.mem_singleton.mp hMem]
      exact ⟨rfl, rfl⟩
  | cons b rest ih =>
      rcases List.isChain_cons_cons.mp hChain with
        ⟨hFirst, hRest⟩
      rcases List.mem_cons.mp hMem with rfl | hTail
      · exact ⟨rfl, rfl⟩
      · rcases ih hRest hTail with ⟨hUser, hEnd⟩
        exact ⟨hUser.trans hFirst.userId,
          hEnd.trans hFirst.familyExpiresAt⟩

end Chains

namespace Lineage

variable {tokens : List RefreshToken} {t t' : RefreshToken}
variable {id : Uuid}

theorem chain
    (hLineage : Lineage tokens) :
    List.IsChain Succeeds tokens := by
  cases tokens with
  | nil => exact .nil
  | cons a tokens => exact hLineage.2

/- Each token with a parent has it, used, in the lineage. -/
theorem parent
    (hLineage : Lineage tokens)
    (hMem : t ∈ tokens)
    (hParent : t.parentId = some id) :
    ∃ p ∈ tokens, p.id = id ∧ p.usedAt.isSome := by
  cases tokens with
  | nil => cases hMem
  | cons a tokens =>
      rcases List.mem_cons.mp hMem with rfl | hTail
      · rw [hLineage.1] at hParent
        cases hParent
      · rcases chain_parent hLineage.2 hTail with
          ⟨p, hp, hId, hUsed⟩
        rw [hParent] at hId
        exact ⟨p, hp, (Option.some.inj hId).symm, hUsed⟩

theorem child
    (hLineage : Lineage tokens)
    (hKeyed : Keyed RefreshToken.id tokens)
    (hMem : t ∈ tokens)
    (hMem' : t' ∈ tokens)
    (hSame : t.parentId = t'.parentId) :
    t = t' := by
  cases tokens with
  | nil => cases hMem
  | cons a tokens =>
      -- the root has no parent, and the others have one
      have hSome : ∀ x ∈ tokens, x.parentId ≠ a.parentId := by
        intro x hx hEq
        rcases chain_parent hLineage.2 hx with ⟨p, -, hId, -⟩
        rw [hEq, hLineage.1] at hId
        cases hId
      rcases List.mem_cons.mp hMem with rfl | hTail
      · rcases List.mem_cons.mp hMem' with rfl | hTail'
        · rfl
        · exact absurd hSame.symm (hSome t' hTail')
      · rcases List.mem_cons.mp hMem' with rfl | hTail'
        · exact absurd hSame (hSome t hTail)
        · exact chain_child hLineage.2 hKeyed hTail hTail' hSame

theorem unused_last
    (hLineage : Lineage tokens)
    (hMem : t ∈ tokens)
    (hUnused : t.usedAt = none) :
    ∃ older, tokens = older ++ [t] :=
  chain_unused_last hLineage.chain hMem hUnused

/- At most one token of a lineage is unused. -/
theorem unused_unique
    (hLineage : Lineage tokens)
    (hMem : t ∈ tokens)
    (hMem' : t' ∈ tokens)
    (hUnused : t.usedAt = none)
    (hUnused' : t'.usedAt = none) :
    t = t' := by
  rcases hLineage.unused_last hMem hUnused with ⟨older, hLast⟩
  rcases hLineage.unused_last hMem' hUnused' with
    ⟨older', hLast'⟩
  rw [hLast] at hLast'
  exact (List.append_inj' hLast' rfl).2 |> List.cons.inj |>.1

theorem same
    (hLineage : Lineage tokens)
    (hMem : t ∈ tokens)
    (hMem' : t' ∈ tokens) :
    t.userId = t'.userId ∧
      t.familyExpiresAt = t'.familyExpiresAt := by
  cases tokens with
  | nil => cases hMem
  | cons a tokens =>
      rcases chain_same hLineage.2 hMem with ⟨hUser, hEnd⟩
      rcases chain_same hLineage.2 hMem' with
        ⟨hUser', hEnd'⟩
      exact ⟨hUser.trans hUser'.symm, hEnd.trans hEnd'.symm⟩

/- A lineage has a root. -/
theorem root
    (hLineage : Lineage tokens)
    (hMem : t ∈ tokens) :
    ∃ r ∈ tokens, r.parentId = none := by
  cases tokens with
  | nil => cases hMem
  | cons a tokens => exact ⟨a, List.mem_cons_self, hLineage.1⟩

/- Changes of single tokens that keep the links. -/
theorem updateWhere
    {p : RefreshToken → Bool}
    {f : RefreshToken → RefreshToken}
    (hLineage : Lineage tokens)
    (hLater : ∀ t : RefreshToken, t.Later (f t)) :
    Lineage (ReadCommitted.updateWhere p f tokens) := by
  have hAll :
      ∀ t : RefreshToken, t.Later (if p t then f t else t) := by
    intro t
    split
    · exact hLater t
    · exact .refl t
  cases tokens with
  | nil => trivial
  | cons a tokens =>
      constructor
      · change (if p a then f a else a).parentId = none
        rw [(hAll a).parentId]
        exact hLineage.1
      · change
          List.IsChain Succeeds
            ((a :: tokens).map (fun t =>
              if p t then f t else t))
        apply List.isChain_map_of_isChain _ _ hLineage.2
        intro x y hLink
        exact {
          parentId := by
            rw [(hAll y).parentId, (hAll x).id]
            exact hLink.parentId
          used := (hAll x).used hLink.used
          userId := by
            rw [(hAll y).userId, (hAll x).userId]
            exact hLink.userId
          familyExpiresAt := by
            rw [(hAll y).familyExpiresAt,
              (hAll x).familyExpiresAt]
            exact hLink.familyExpiresAt
        }

/- The last token is used for one more. -/
theorem rotate
    {parent child : RefreshToken}
    {now : ℤ}
    (hLineage : Lineage tokens)
    (hKeyed : Keyed RefreshToken.id tokens)
    (hMem : parent ∈ tokens)
    (hUnused : parent.usedAt = none)
    (hParent : child.parentId = some parent.id)
    (hUser : child.userId = parent.userId)
    (hEnd : child.familyExpiresAt = parent.familyExpiresAt) :
    Lineage (rotated parent child now tokens) := by
  have hUpdated :
      Lineage
        (ReadCommitted.updateWhere (fun t => t.id = parent.id)
          (fun t => { t with usedAt := some now })
          tokens) :=
    hLineage.updateWhere
      (fun t => ⟨rfl, fun _ => rfl, fun h => h⟩)
  rcases hLineage.unused_last hMem hUnused with ⟨older, rfl⟩
  have hLast :
      ReadCommitted.updateWhere (fun t => t.id = parent.id)
          (fun t => { t with usedAt := some now })
          [parent] =
        [{ parent with usedAt := some now }] := by
    simp [ReadCommitted.updateWhere]
  have hLink :
      Succeeds { parent with usedAt := some now } child :=
    ⟨hParent, rfl, hUser, hEnd⟩
  unfold rotated
  rw [updateWhere_append, hLast] at hUpdated ⊢
  cases hOlder :
      ReadCommitted.updateWhere (fun t => t.id = parent.id)
        (fun t => { t with usedAt := some now }) older with
  | nil =>
      rw [hOlder] at hUpdated
      exact ⟨hUpdated.1,
        List.isChain_cons_cons.mpr ⟨hLink, .singleton _⟩⟩
  | cons a rest =>
      rw [hOlder] at hUpdated
      refine ⟨hUpdated.1, ?_⟩
      have hChain := hUpdated.chain
      change
        List.IsChain Succeeds
          ((a :: rest) ++
            [{ parent with usedAt := some now }] ++ [child])
      apply List.IsChain.append hChain (.singleton _)
      intro x hx y hy
      rw [Option.mem_def, List.getLast?_concat] at hx
      cases hx
      cases hy
      exact hLink

end Lineage

end PigBook
