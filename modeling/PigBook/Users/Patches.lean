import PigBook.Users.Sharing

/-
  What a committed patch does to the accounts.

  Key definitions include:
    * `revokeIds`
    * `PatchOutcome`
    * `patchProgram`

  Key theorems include:
    * `Patching.outcome`
    * `userById_patched_target`
    * `PatchOutcome.rowsStable`
-/

------------------------------------------------------------
-- Updates of One User
------------------------------------------------------------

namespace PigBook

open ReadCommitted

section Updates

variable {s : Accounts} {id : Uuid} {u : User}
variable {p : User → Bool} {f : User → User}

/- An update of other users does not move a user. -/
theorem find_updateWhere_of_not
    {users : List User}
    (hOut : ∀ u ∈ users, p u = true → u.id ≠ id)
    (hId : ∀ u, (f u).id = u.id) :
    (updateWhere p f users).find? (fun u => u.id = id) =
      users.find? (fun u => u.id = id) := by
  induction users with
  | nil => rfl
  | cons x xs ih =>
      have hTail :=
        ih (fun u hMem => hOut u (List.mem_cons_of_mem x hMem))
      change
        List.find? (fun u => decide (u.id = id))
            ((if p x then f x else x) ::
              updateWhere p f xs) = _
      by_cases hCase : p x = true
      · have hNe := hOut x List.mem_cons_self hCase
        rw [if_pos hCase,
          List.find?_cons_of_neg (by simp [hId, hNe]),
          List.find?_cons_of_neg (by simp [hNe]), hTail]
      · rw [if_neg hCase, List.find?_cons, List.find?_cons,
          hTail]

/- An update of one user is seen when the user is selected. -/
theorem find_updateWhere_of_mem
    {users : List User}
    (hFound : users.find? (fun u => u.id = id) = some u)
    (hSelected : p u = true)
    (hId : ∀ u, (f u).id = u.id) :
    (updateWhere p f users).find? (fun u => u.id = id) =
      some (f u) := by
  induction users with
  | nil => cases hFound
  | cons x xs ih =>
      change
        List.find? (fun u => decide (u.id = id))
            ((if p x then f x else x) ::
              updateWhere p f xs) = _
      by_cases hCase : x.id = id
      · rw [List.find?_cons_of_pos (by simp [hCase])] at hFound
        cases hFound
        rw [if_pos hSelected,
          List.find?_cons_of_pos (by simp [hId, hCase])]
      · rw [List.find?_cons_of_neg (by simp [hCase])] at hFound
        have hSkip : (if p x then f x else x).id ≠ id := by
          split
          · rw [hId]
            exact hCase
          · exact hCase
        rw [List.find?_cons_of_neg (by simp [hSkip])]
        exact ih hFound

end Updates

end PigBook

------------------------------------------------------------
-- Revocations
------------------------------------------------------------

namespace PigBook

open ReadCommitted

/- The tokens after those with the given ids are revoked. -/
def revokeIds
    (ids : List Uuid)
    (now : ℤ)
    (tokens : List RefreshToken) : List RefreshToken :=
  updateWhere (fun t => t.id ∈ ids)
    (fun t => { t with revokedAt := some now }) tokens

@[simp] theorem revokeIds_nil
    (now : ℤ)
    (tokens : List RefreshToken) :
    revokeIds [] now tokens = tokens :=
  updateWhere_eq_self (by simp)

theorem mem_revokeIds
    {ids : List Uuid}
    {now : ℤ}
    {tokens : List RefreshToken}
    {t : RefreshToken} :
    t ∈ revokeIds ids now tokens ↔
      (∃ t' ∈ tokens, t'.id ∈ ids ∧
        t = { t' with revokedAt := some now }) ∨
      (t ∈ tokens ∧ t.id ∉ ids) := by
  unfold revokeIds
  rw [mem_updateWhere]
  simp

/- Revocation keeps every field but the time of revocation. -/
theorem keyed_revokeIds
    {κ : Type}
    {key : RefreshToken → κ}
    {ids : List Uuid}
    {now : ℤ}
    {tokens : List RefreshToken}
    (hKeyed : Keyed key tokens)
    (hKey :
      ∀ t, key { t with revokedAt := some now } = key t) :
    Keyed key (revokeIds ids now tokens) :=
  hKeyed.updateWhere (fun t _ _ => hKey t)

/- The ids of tokens that a predicate selects select them. -/
theorem id_mem_unrevoked
    {s : Accounts}
    {p : RefreshToken → Bool}
    {t : RefreshToken}
    (hKeyed : Keyed RefreshToken.id s.tokens)
    (hMem : t ∈ s.tokens) :
    t.id ∈ (unrevoked p s).map (·.id) ↔
      p t = true ∧ t.revokedAt = none := by
  constructor
  · intro hId
    rcases List.mem_map.mp hId with ⟨t', hMem', hSame⟩
    rcases mem_unrevoked.mp hMem' with
      ⟨hRow, hSelected, hRevoked⟩
    have hEq := hKeyed.eq_of_key hRow hMem hSame
    rw [← hEq]
    exact ⟨hSelected, hRevoked⟩
  · rintro ⟨hSelected, hRevoked⟩
    exact
      List.mem_map.mpr
        ⟨t, mem_unrevoked.mpr ⟨hMem, hSelected, hRevoked⟩,
          rfl⟩

/- After the unrevoked tokens are revoked, all of them are. -/
theorem revoked_of_revokeIds
    {s : Accounts}
    {p : RefreshToken → Bool}
    {now : ℤ}
    {t : RefreshToken}
    (hKeyed : Keyed RefreshToken.id s.tokens)
    (hMem :
      t ∈ revokeIds ((unrevoked p s).map (·.id)) now s.tokens)
    (hSelected : p t = true) :
    t.revokedAt.isSome := by
  rcases mem_revokeIds.mp hMem with
    ⟨t', hRow, hId, rfl⟩ | ⟨hRow, hOut⟩
  · rfl
  · cases hRevoked : t.revokedAt with
    | some at' => rfl
    | none =>
        exact absurd
          ((id_mem_unrevoked hKeyed hRow).mpr
            ⟨hSelected, hRevoked⟩) hOut

/- Tokens of others are not touched. -/
theorem filter_revokeIds
    {s : Accounts}
    {p q : RefreshToken → Bool}
    {now : ℤ}
    (hKeyed : Keyed RefreshToken.id s.tokens)
    (hApart : ∀ t, p t = true → q t = false)
    (hField :
      ∀ t, q { t with revokedAt := some now } = q t) :
    (revokeIds ((unrevoked p s).map (·.id)) now
        s.tokens).filter q =
      s.tokens.filter q := by
  apply filter_updateWhere
  intro t hMem hId
  have hSelected :=
    ((id_mem_unrevoked hKeyed hMem).mp (by simpa using hId)).1
  have hOut := hApart t hSelected
  exact ⟨hOut, by rw [hField, hOut]⟩

end PigBook

------------------------------------------------------------
-- Outcomes of Patches
------------------------------------------------------------

namespace PigBook

open ReadCommitted

variable {lax : Json → Option Bool}

/-
  A committed patch: its target and its actor are the users
  of the store it started from, and its changes are those of
  `patched`.
-/
structure PatchOutcome
    (r : PatchRequest lax)
    (authority : Authority)
    (before after : Accounts) : Prop where
  actor :
    ∃ actor, userById r.principalId before = some actor ∧
      actor.enabled = true ∧ actor.role = .admin ∧
      authority = actor.authority
  changes :
    ∃ target now revoked auditId reqId,
      userById r.objectId before = some target ∧
      target.version = r.expectedVersion ∧
      after = patched r target now revoked
        (r.record target now auditId reqId) before ∧
      (r.Disables target →
        revoked =
          (unrevoked (fun t => t.userId = r.objectId)
            before).map (·.id)) ∧
      (¬ r.Disables target → revoked = [])

/- The patch leaves the other users alone. -/
theorem userById_patched_of_ne
    {r : PatchRequest lax}
    {target : User}
    {now : ℤ}
    {revoked : List Uuid}
    {record : AccountRecord}
    {s : Accounts}
    {id : Uuid}
    (hNe : id ≠ r.objectId) :
    userById id (patched r target now revoked record s) =
      userById id s := by
  apply find_updateWhere_of_not
  · intro u hMem hSelected
    simp only [decide_eq_true_eq] at hSelected
    rw [hSelected.1]
    exact hNe.symm
  · intro u
    rfl

/- The patch moves its target. -/
theorem userById_patched_target
    {r : PatchRequest lax}
    {target : User}
    {now : ℤ}
    {revoked : List Uuid}
    {record : AccountRecord}
    {s : Accounts}
    (hTarget : userById r.objectId s = some target)
    (hVersion : target.version = r.expectedVersion) :
    userById r.objectId
        (patched r target now revoked record s) =
      some (r.data.apply target now target) := by
  apply find_updateWhere_of_mem hTarget
  · simp [userById_id hTarget, hVersion]
  · intro u
    rfl

theorem patched_valid
    {r : PatchRequest lax}
    {target : User}
    {now : ℤ}
    {revoked : List Uuid}
    {record : AccountRecord}
    {s : Accounts}
    (hValid : s.Valid) :
    (patched r target now revoked record s).Valid where
  users := hValid.users.updateWhere (fun _ _ _ => rfl)
  tokens := keyed_revokeIds hValid.tokens (fun _ => rfl)
  hashes := keyed_revokeIds hValid.hashes (fun _ => rfl)

/-
  Whoever holds no key of the target sees no change of the
  rows that are locked.
-/
theorem patched_rowsStable
    {r : PatchRequest lax}
    {target : User}
    {now : ℤ}
    {revoked : List Uuid}
    {record : AccountRecord}
    {s : Accounts}
    {holds : AccountKey → Prop}
    (hValid : s.Valid)
    (hRevoked :
      revoked =
          (unrevoked (fun t => t.userId = r.objectId) s).map
            (·.id) ∨
        revoked = [])
    (hUpdate : ¬ holds (.userUpdate r.objectId))
    (hShare : ¬ holds (.userShare r.objectId)) :
    RowsStable holds s
      (patched r target now revoked record s) where
  user := by
    intro id hKey
    apply userById_patched_of_ne
    rintro rfl
    exact hKey.elim hUpdate hShare
  tokens := by
    intro id hKey
    have hNe : id ≠ r.objectId := by
      rintro rfl
      exact hUpdate hKey
    have hSame :
        tokensOf id (patched r target now revoked record s) =
          tokensOf id s := by
      change (revokeIds revoked now s.tokens).filter _ = _
      rcases hRevoked with rfl | rfl
      · apply filter_revokeIds hValid.tokens
        · intro t hUser
          simp only [decide_eq_true_eq] at hUser
          rw [decide_eq_false_iff_not, hUser]
          exact hNe.symm
        · intro t
          rfl
      · rw [revokeIds_nil]
        rfl
    rw [hSame]
    exact List.forall₂_same.mpr (fun t _ => .refl t)

namespace PatchOutcome

variable {r : PatchRequest lax} {authority : Authority}
variable {before after : Accounts}

theorem valid
    (hOutcome : PatchOutcome r authority before after)
    (hValid : before.Valid) :
    after.Valid := by
  rcases hOutcome.changes with
    ⟨target, now, revoked, auditId, reqId, -, -, rfl, -⟩
  exact patched_valid hValid

theorem rowsStable
    {holds : AccountKey → Prop}
    (hOutcome : PatchOutcome r authority before after)
    (hValid : before.Valid)
    (hUpdate : ¬ holds (.userUpdate r.objectId))
    (hShare : ¬ holds (.userShare r.objectId)) :
    RowsStable holds before after := by
  rcases hOutcome.changes with
    ⟨target, now, revoked, auditId, reqId, hTarget,
      hVersion, rfl, hSome, hNone⟩
  apply patched_rowsStable hValid _ hUpdate hShare
  by_cases hDisables : r.Disables target
  · exact Or.inl (hSome hDisables)
  · exact Or.inr (hNone hDisables)

end PatchOutcome

namespace Users

section Commits

variable {S' : Sig} {W : World S'} {σ' γ : Type}
variable {R : Rules W σ' γ}
variable {E : Embedding accounts S' Accounts σ'}
variable {stable : List S'.Key → Accounts → Accounts → Prop}
variable {r : PatchRequest lax} {actor target : User}
variable {ks : List S'.Key} {w : σ' → σ'}
variable {c : Config W σ' γ}

/- What a patch has established is what its commit does. -/
theorem Patching.outcome
    (hPatching : Patching E stable r actor target ks w c) :
    PatchOutcome r actor.authority (E.get c.db)
      (E.get (w c.db)) where
  actor :=
    ⟨actor, hPatching.checked.pair.actor.row,
      hPatching.checked.enabled, hPatching.checked.admin, rfl⟩
  changes := by
    rcases hPatching.changes with
      ⟨now, revoked, auditId, reqId, hW, hSome, hNone, -⟩
    refine
      ⟨target, now, revoked, auditId, reqId,
        hPatching.checked.pair.target.row,
        hPatching.checked.version, ?_, hSome, hNone⟩
    rw [hW, E.get_lift]

/- A commit of a patch is stable for whoever holds no key. -/
theorem Patching.rowsStable
    {ks' : List S'.Key}
    (hPatching : Patching E stable r actor target ks w c)
    (hValid : (E.get c.db).Valid)
    (hCompat : Compatible ks ks')
    (hConflict :
      ∀ k k', accounts.Conflict k k' →
        S'.Conflict (E.key k) (E.key k')) :
    RowsStable (fun k => E.key k ∈ ks') (E.get c.db)
      (E.get (w c.db)) := by
  have hKey := hPatching.checked.pair.key
  apply hPatching.outcome.rowsStable hValid
  · intro hHeld
    exact hCompat _ hKey _ hHeld (hConflict _ _ rfl)
  · intro hHeld
    exact hCompat _ hKey _ hHeld (hConflict _ _ rfl)

end Commits

end Users

end PigBook

------------------------------------------------------------
-- Clients
------------------------------------------------------------

namespace PigBook

open ReadCommitted

/- What a committed patch answers, with its request. -/
structure PatchReply (lax : Json → Option Bool) where
  request : PatchRequest lax
  authority : Authority
  view : UserView

/- The client that runs a request and keeps its answer. -/
def patchProgram
    {lax : Json → Option Bool}
    (r : PatchRequest lax) :
    Prog accounts Accounts (PatchReply lax) := do
  let (authority, view) ← Users.updateUserEndpoint r
  return ⟨r, authority, view⟩

/- What a client that patches has established. -/
theorem patchProgram_rwp
    {W : World accounts}
    {γ : Type}
    {R : Rules W Accounts γ}
    {stable : List AccountKey → Accounts → Accounts → Prop}
    (hRules : Users.AccountRules R Embedding.refl stable)
    {lax : Json → Option Bool}
    {r : PatchRequest lax}
    {pid : ℕ}
    {c : Config W Accounts γ}
    (hRefuse :
      Users.MayRefuse R Embedding.refl stable pid r
        (begunAs pid c.trace))
    {post :
      PatchReply lax → List (Action accounts) →
        (Accounts → Accounts) → Config W Accounts γ → Prop}
    (hPost :
      ∀ actor target view log w c',
        Users.Patching Embedding.refl stable r actor target
          (held log) w c' →
          post ⟨r, actor.authority, view⟩ log w c') :
    (patchProgram r).rwp R pid post [] id c := by
  unfold patchProgram
  simp only [Prog.bind_eq, Prog.rwp_bind, Prog.pure_eq_done,
    Prog.rwp_done]
  rw [← Prog.embed_refl (Users.updateUserEndpoint r)]
  apply Users.updateUserEndpoint_rwp hRules hRefuse
  intro actor target view log w c' hPatching
  exact hPost actor target view log w c' hPatching

end PigBook
