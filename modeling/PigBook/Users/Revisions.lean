import PigBook.Users.Login
import PigBook.Users.Patches

/-
  Transactions that rewrite users whom they have locked.

  A revision is one locked row and what becomes of it.  A
  transaction that has made some revisions, and revoked some
  tokens of the revised users, changes exactly these.

  Key definitions include:
    * `Revision`, `revise`
    * `Revising`
    * `Revised`

  Key theorems include:
    * `Revising.update`, `Revising.revoke`
    * `Revising.revised`
    * `Revising.rowsStable`
-/

------------------------------------------------------------
-- Revisions
------------------------------------------------------------

namespace PigBook

open ReadCommitted

/- A locked row, and the row that an update leaves of it. -/
structure Revision where
  user : User
  result : User → User
  same : ∀ u, (result u).id = u.id

/- The users after some revisions, one after another. -/
def revise
    (vs : List Revision)
    (users : List User) : List User :=
  vs.foldl
    (fun users v =>
      updateWhere (fun u => u.id = v.user.id) v.result users)
    users

section Revise

variable {vs : List Revision} {v : Revision}
variable {users : List User} {id : Uuid}

@[simp] theorem revise_nil :
    revise [] users = users :=
  rfl

@[simp] theorem revise_cons :
    revise (v :: vs) users =
      revise vs
        (updateWhere (fun u => u.id = v.user.id) v.result
          users) :=
  rfl

theorem revise_append_singleton :
    revise (vs ++ [v]) users =
      updateWhere (fun u => u.id = v.user.id) v.result
        (revise vs users) := by
  simp [revise, List.foldl_append]

theorem map_id_updateWhere
    {p : User → Bool}
    {f : User → User}
    (hSame : ∀ u, (f u).id = u.id) :
    (updateWhere p f users).map (·.id) =
      users.map (·.id) := by
  unfold updateWhere
  rw [List.map_map]
  apply List.map_congr_left
  intro u hMem
  simp only [Function.comp]
  split
  · exact hSame u
  · rfl

/- Revisions neither add nor remove users. -/
theorem map_id_revise :
    (revise vs users).map (·.id) = users.map (·.id) := by
  induction vs generalizing users with
  | nil => rfl
  | cons v vs ih =>
      rw [revise_cons, ih, map_id_updateWhere v.same]

theorem keyed_revise
    (hKeyed : Keyed User.id users) :
    Keyed User.id (revise vs users) := by
  induction vs generalizing users with
  | nil => exact hKeyed
  | cons v vs ih =>
      exact ih (hKeyed.updateWhere (fun u _ _ => v.same u))

/- Other users are left alone. -/
theorem find_revise_of_not
    (hNot : ∀ v ∈ vs, v.user.id ≠ id) :
    (revise vs users).find? (fun u => u.id = id) =
      users.find? (fun u => u.id = id) := by
  induction vs generalizing users with
  | nil => rfl
  | cons v vs ih =>
      rw [revise_cons,
        ih (fun x hx => hNot x (List.mem_cons_of_mem v hx))]
      apply find_updateWhere_of_not _ v.same
      intro u hMem hSelected
      rw [decide_eq_true_eq] at hSelected
      rw [hSelected]
      exact hNot v List.mem_cons_self

/- A user who is revised once is seen revised. -/
theorem find_revise_of_mem
    (hApart :
      vs.Pairwise (fun v v' => v.user.id ≠ v'.user.id))
    (hMem : v ∈ vs)
    (hFound :
      users.find? (fun u => u.id = v.user.id) =
        some v.user) :
    (revise vs users).find? (fun u => u.id = v.user.id) =
      some (v.result v.user) := by
  induction vs generalizing users with
  | nil => cases hMem
  | cons x vs ih =>
      rcases List.pairwise_cons.mp hApart with
        ⟨hHead, hTail⟩
      rw [revise_cons]
      rcases List.mem_cons.mp hMem with rfl | hLater
      · rw [find_revise_of_not
          (fun x hx hSame => hHead x hx hSame.symm)]
        exact
          find_updateWhere_of_mem hFound (by simp) v.same
      · apply ih hTail hLater
        rw [← hFound]
        apply find_updateWhere_of_not _ x.same
        intro u hRow hSelected
        rw [decide_eq_true_eq] at hSelected
        rw [hSelected]
        exact hHead v hLater

end Revise

end PigBook

------------------------------------------------------------
-- Revoked Tokens of Revised Users
------------------------------------------------------------

namespace PigBook

open ReadCommitted

variable {s s' : Accounts} {id : Uuid}

/- Revocations in turn, at one time, are one revocation. -/
theorem revokeIds_append
    (ids ids' : List Uuid)
    (now : ℤ)
    (tokens : List RefreshToken) :
    revokeIds (ids ++ ids') now tokens =
      revokeIds ids' now (revokeIds ids now tokens) := by
  unfold revokeIds updateWhere
  rw [List.map_map]
  apply List.map_congr_left
  intro t hMem
  by_cases hFirst : t.id ∈ ids
  · simp [hFirst]
  · simp [hFirst]

/- Which tokens a user has does not depend on revocations. -/
theorem tokensOf_revokeIds
    (id : Uuid)
    (ids : List Uuid)
    (now : ℤ)
    (hTokens : s'.tokens = revokeIds ids now s.tokens) :
    tokensOf id s' = revokeIds ids now (tokensOf id s) := by
  unfold tokensOf
  rw [hTokens]
  unfold revokeIds updateWhere
  rw [List.filter_map]
  congr 1
  apply List.filter_congr
  intro t hMem
  simp only [Function.comp]
  split
  · rfl
  · rfl

theorem map_id_revokeIds
    (ids : List Uuid)
    (now : ℤ)
    (tokens : List RefreshToken) :
    (revokeIds ids now tokens).map (·.id) =
      tokens.map (·.id) := by
  unfold revokeIds updateWhere
  rw [List.map_map]
  apply List.map_congr_left
  intro t hMem
  simp only [Function.comp]
  split
  · rfl
  · rfl

theorem map_id_tokensKept
    {holds : AccountKey → Prop}
    {ts ts' : List RefreshToken}
    (hKept : List.Forall₂ (TokenKept holds) ts ts') :
    ts'.map (·.id) = ts.map (·.id) := by
  induction hKept with
  | nil => rfl
  | cons hHead hTail ih =>
      rw [List.map_cons, List.map_cons, hHead.id, ih]

/- A user locked for an update keeps the tokens. -/
theorem RowsStable.tokenIds
    {holds : AccountKey → Prop}
    (hStable : RowsStable holds s s')
    (hKey : holds (.userUpdate id)) :
    (tokensOf id s').map (·.id) =
      (tokensOf id s).map (·.id) :=
  map_id_tokensKept (hStable.tokens id hKey)

end PigBook

------------------------------------------------------------
-- Transactions that Revise
------------------------------------------------------------

namespace PigBook.Users

open ReadCommitted

section Revising

variable {W : World accounts} {γ : Type}
variable {R : Rules W Accounts γ}
variable {stable : List AccountKey → Accounts → Accounts → Prop}
variable {ks ks' : List AccountKey} {now : ℤ}
variable {vs : List Revision} {v : Revision}
variable {revoked : List Uuid} {w w' : Accounts → Accounts}
variable {c c' : Config W Accounts γ}

/-
  A transaction that has locked and revised some users, and
  revoked tokens of theirs.
-/
structure Revising
    (now : ℤ)
    (vs : List Revision)
    (revoked : List Uuid)
    (ks : List AccountKey)
    (w : Accounts → Accounts)
    (c : Config W Accounts γ) : Prop where
  users : ∀ s, (w s).users = revise vs s.users
  tokens : ∀ s, (w s).tokens = revokeIds revoked now s.tokens
  key : ∀ v ∈ vs, AccountKey.userUpdate v.user.id ∈ ks
  row : ∀ v ∈ vs, userById v.user.id c.db = some v.user
  owned :
    ∀ i ∈ revoked, ∃ v ∈ vs,
      i ∈ (tokensOf v.user.id c.db).map (·.id)
  apart :
    vs.Pairwise (fun v v' => v.user.id ≠ v'.user.id)

theorem Revising.start :
    Revising now [] [] ks id c where
  users := fun s => rfl
  tokens := fun s => (revokeIds_nil now s.tokens).symm
  key := fun v hMem => by cases hMem
  row := fun v hMem => by cases hMem
  owned := fun i hMem => by cases hMem
  apart := .nil

/- What is locked stays. -/
theorem Revising.kept
    (hRevising : Revising now vs revoked ks w c)
    (hRules : AccountRules R Embedding.refl stable)
    (hStable : stable ks c.db c'.db)
    (hKeys : ∀ k ∈ ks, k ∈ ks') :
    Revising now vs revoked ks' w c' where
  users := hRevising.users
  tokens := hRevising.tokens
  key := fun v hMem => hKeys _ (hRevising.key v hMem)
  row := by
    intro v hMem
    have hSame :=
      (hRules.rows hStable).user v.user.id
        (Or.inl (hRevising.key v hMem))
    exact hSame.trans (hRevising.row v hMem)
  owned := by
    intro i hMem
    rcases hRevising.owned i hMem with ⟨v, hv, hToken⟩
    refine ⟨v, hv, ?_⟩
    rw [(hRules.rows hStable).tokenIds (hRevising.key v hv)]
    exact hToken
  apart := hRevising.apart

/- Changes of other tables do not matter. -/
theorem Revising.frame
    (hRevising : Revising now vs revoked ks w c)
    (hUsers : ∀ s, (w' s).users = (w s).users)
    (hTokens : ∀ s, (w' s).tokens = (w s).tokens) :
    Revising now vs revoked ks w' c where
  users := fun s => (hUsers s).trans (hRevising.users s)
  tokens := fun s => (hTokens s).trans (hRevising.tokens s)
  key := hRevising.key
  row := hRevising.row
  owned := hRevising.owned
  apart := hRevising.apart

/- One more user, who has not been revised, is revised. -/
theorem Revising.update
    (hRevising : Revising now vs revoked ks w c)
    (hKey : AccountKey.userUpdate v.user.id ∈ ks)
    (hRow : userById v.user.id c.db = some v.user)
    (hNew : ∀ x ∈ vs, x.user.id ≠ v.user.id) :
    Revising now (vs ++ [v]) revoked ks
      (fun s =>
        (w s).setUsers (fun u => u.id = v.user.id) v.result)
      c where
  users := by
    intro s
    rw [Accounts.setUsers_users, hRevising.users,
      revise_append_singleton]
  tokens := hRevising.tokens
  key := by
    intro x hMem
    rcases List.mem_append.mp hMem with hOld | hLast
    · exact hRevising.key x hOld
    · rw [List.mem_singleton.mp hLast]
      exact hKey
  row := by
    intro x hMem
    rcases List.mem_append.mp hMem with hOld | hLast
    · exact hRevising.row x hOld
    · rw [List.mem_singleton.mp hLast]
      exact hRow
  owned := by
    intro i hMem
    rcases hRevising.owned i hMem with ⟨x, hx, hToken⟩
    exact ⟨x, List.mem_append_left _ hx, hToken⟩
  apart := by
    rw [List.pairwise_append]
    refine ⟨hRevising.apart, List.pairwise_singleton _ _, ?_⟩
    intro x hx y hy
    rw [List.mem_singleton.mp hy]
    exact hNew x hx

/- The tokens of a revised user, as the statement sees them. -/
theorem Revising.revoke
    (hRevising : Revising now vs revoked ks w c)
    (hMem : v ∈ vs) :
    Revising now vs
      (revoked ++
        (unrevoked (fun t => t.userId = v.user.id)
          (w c.db)).map (·.id))
      ks
      (fun s =>
        (w s).setTokens
          (fun t =>
            t.id ∈
              (unrevoked (fun t => t.userId = v.user.id)
                (w c.db)).map (·.id))
          (fun t => { t with revokedAt := some now }))
      c where
  users := hRevising.users
  tokens := by
    intro s
    rw [revokeIds_append, ← hRevising.tokens]
    rfl
  key := hRevising.key
  row := hRevising.row
  owned := by
    intro i hRevoked
    rcases List.mem_append.mp hRevoked with hOld | hLast
    · exact hRevising.owned i hOld
    · refine ⟨v, hMem, ?_⟩
      rcases List.mem_map.mp hLast with ⟨t, hToken, rfl⟩
      rw [unrevoked_user] at hToken
      rw [← map_id_revokeIds revoked now,
        ← tokensOf_revokeIds v.user.id revoked now
          (hRevising.tokens c.db)]
      exact List.mem_map_of_mem (List.mem_filter.mp hToken).1
  apart := hRevising.apart

/- Users not yet revised are seen as they are. -/
theorem Revising.userById_of_not
    {s : Accounts}
    {id : Uuid}
    (hRevising : Revising now vs revoked ks w c)
    (hNot : ∀ v ∈ vs, v.user.id ≠ id) :
    userById id (w s) = userById id s := by
  unfold userById
  rw [hRevising.users]
  exact find_revise_of_not hNot

end Revising

end PigBook.Users

------------------------------------------------------------
-- Commits of Revisions
------------------------------------------------------------

namespace PigBook

open ReadCommitted

/- From one committed state to the next, these revisions. -/
structure Revised
    (vs : List Revision)
    (before after : Accounts) : Prop where
  row :
    ∀ v ∈ vs, userById v.user.id before = some v.user ∧
      userById v.user.id after = some (v.result v.user)
  others :
    ∀ id, (∀ v ∈ vs, v.user.id ≠ id) →
      userById id after = userById id before

namespace Users

section Commits

variable {W : World accounts} {γ : Type}
variable {ks ks' : List AccountKey} {now : ℤ}
variable {vs : List Revision} {revoked : List Uuid}
variable {w : Accounts → Accounts}
variable {c : Config W Accounts γ}

theorem Revising.revised
    (hRevising : Revising now vs revoked ks w c) :
    Revised vs c.db (w c.db) where
  row := by
    intro v hMem
    have hRow := hRevising.row v hMem
    refine ⟨hRow, ?_⟩
    unfold userById
    rw [hRevising.users]
    exact find_revise_of_mem hRevising.apart hMem hRow
  others := fun id hNot => hRevising.userById_of_not hNot

theorem Revising.valid
    (hRevising : Revising now vs revoked ks w c)
    (hValid : c.db.Valid) :
    (w c.db).Valid where
  users := by
    rw [hRevising.users]
    exact keyed_revise hValid.users
  tokens := by
    rw [hRevising.tokens]
    exact keyed_revokeIds hValid.tokens (fun _ => rfl)
  hashes := by
    rw [hRevising.tokens]
    exact keyed_revokeIds hValid.hashes (fun _ => rfl)

theorem Revising.ids
    (hRevising : Revising now vs revoked ks w c) :
    (w c.db).users.map (·.id) = c.db.users.map (·.id) := by
  rw [hRevising.users]
  exact map_id_revise

/- Tokens of users who are not revised are left alone. -/
theorem Revising.tokensOf_of_not
    {id : Uuid}
    (hRevising : Revising now vs revoked ks w c)
    (hValid : c.db.Valid)
    (hNot : ∀ v ∈ vs, v.user.id ≠ id) :
    tokensOf id (w c.db) = tokensOf id c.db := by
  rw [tokensOf_revokeIds id revoked now
    (hRevising.tokens c.db)]
  apply updateWhere_eq_self
  intro t hMem
  rcases List.mem_filter.mp hMem with ⟨hToken, hUser⟩
  rw [decide_eq_true_eq] at hUser
  rw [decide_eq_false_iff_not]
  intro hRevoked
  rcases hRevising.owned t.id hRevoked with ⟨v, hv, hOwned⟩
  rcases List.mem_map.mp hOwned with ⟨t', hMem', hSame⟩
  rcases List.mem_filter.mp hMem' with ⟨hToken', hUser'⟩
  rw [decide_eq_true_eq] at hUser'
  rw [hValid.tokens.eq_of_key hToken' hToken hSame] at hUser'
  exact hNot v hv (hUser'.symm.trans hUser)

/- The commit is stable for whoever holds other keys. -/
theorem Revising.rowsStable
    (hRevising : Revising now vs revoked ks w c)
    (hValid : c.db.Valid)
    (hCompat : Compatible (S := accounts) ks ks') :
    RowsStable (fun k => k ∈ ks') c.db (w c.db) where
  user := by
    intro id hHeld
    apply hRevising.userById_of_not
    rintro v hMem rfl
    have hKey := hRevising.key v hMem
    rcases hHeld with hUpdate | hShare
    · exact hCompat _ hKey _ hUpdate rfl
    · exact hCompat _ hKey _ hShare rfl
  tokens := by
    intro id hUpdate
    have hNot : ∀ v ∈ vs, v.user.id ≠ id := by
      rintro v hMem rfl
      exact hCompat _ (hRevising.key v hMem) _ hUpdate rfl
    rw [hRevising.tokensOf_of_not hValid hNot]
    exact List.forall₂_same.mpr (fun t _ => .refl t)

end Commits

end Users

end PigBook
