import PigBook.Users.Patches

/-
  Mutations stop when their authority is taken away.

  A mutation is a single transaction over all tables, which
  begins with the revalidation of its principal.  It runs
  among user patches and whatever else leaves the users and
  their tokens alone.

  Key definitions include:
    * `Authorized`
    * `Mutation`, `Mutation.program`
    * `realmPrograms`
    * `Restores`

  Key theorems include:
    * `mutation_keeps`
    * `authority_restored`
-/

------------------------------------------------------------
-- Mutations
------------------------------------------------------------

namespace PigBook

open ReadCommitted

/- The user is enabled, and has a role that the policy admits. -/
def Authorized
    (policy : Policy)
    (userId : Uuid)
    (s : Accounts) : Prop :=
  ∃ u ∈ userById userId s,
    u.enabled = true ∧ u.role ∈ policy.allowed

instance
    (policy : Policy)
    (userId : Uuid)
    (s : Accounts) :
    Decidable (Authorized policy userId s) :=
  inferInstanceAs (Decidable (∃ u ∈ userById userId s, _))

/- The accounts beside the tables of `T`. -/
abbrev realm (T : Sig) : Sig := accounts.sum T

abbrev Realm (τ : Type) := Accounts × τ

abbrev RealmM (T : Sig) (τ : Type) :=
  Prog (realm T) (Realm τ)

/- What only patches change. -/
def credentials
    {τ : Type}
    (s : Realm τ) : List User × List RefreshToken :=
  (s.1.users, s.1.tokens)

section Programs

variable {T : Sig} {τ ρ : Type} {lax : Json → Option Bool}

/- A program over the accounts. -/
def onAccounts {α : Type} (p : AccountsM α) : RealmM T τ α :=
  p.embed (Embedding.inl accounts T Accounts τ)

/-
  A mutating request.  Its preliminaries are what it does
  after its authorization and before its own transaction:
  it pays its rate limits and looks up its path.
-/
structure Mutation (T : Sig) (τ ρ : Type) where
  policy : Policy
  principalId : Uuid
  preliminaries : RealmM T τ Unit
  operation : RealmM T τ ρ

/- A mutation is answered with what it was authorized as. -/
inductive RealmReply (lax : Json → Option Bool) (ρ : Type)
  | mutated (policy : Policy) (principalId : Uuid) (answer : ρ)
  | patched (reply : PatchReply lax)
  | other (answer : ρ)

/-
  The dependency and the endpoint: the principal is
  authorized, and revalidated at the beginning of the
  transaction that runs the operation.
-/
def Mutation.program
    (m : Mutation T τ ρ) : RealmM T τ (RealmReply lax ρ) := do
  onAccounts (Users.authorize m.policy m.principalId)
  m.preliminaries
  Prog.undo
  let _ ← onAccounts
    (Users.assertCurrent m.policy m.principalId)
  let answer ← m.operation
  return .mutated m.policy m.principalId answer

/- Mutations, user patches, and other programs. -/
inductive RealmRequest
    (lax : Json → Option Bool)
    (T : Sig)
    (τ ρ : Type)
  | mutate (m : Mutation T τ ρ)
  | patch (r : PatchRequest lax)
  | other (p : RealmM T τ ρ)

def RealmRequest.program :
    RealmRequest lax T τ ρ → RealmM T τ (RealmReply lax ρ)
| mutate m => m.program
| patch r => do
    let reply ← onAccounts (patchProgram r)
    return .patched reply
| other p => do
    let answer ← p
    return .other answer

/-
  The operation of a mutation does not end its transaction,
  and only patches write users or their tokens.
-/
def RealmRequest.Allowed : RealmRequest lax T τ ρ → Prop
| mutate m =>
    m.preliminaries.Spares credentials ∧
      m.operation.Single ∧ m.operation.Spares credentials
| patch _ => True
| other p => p.Spares credentials

def realmPrograms
    (p : RealmM T τ (RealmReply lax ρ)) : Prop :=
  ∃ r : RealmRequest lax T τ ρ, r.Allowed ∧ p = r.program

end Programs

end PigBook

------------------------------------------------------------
-- The Contract
------------------------------------------------------------

namespace PigBook

open ReadCommitted

section Contracts

variable {T : Sig} {τ ρ : Type} {W : World (realm T)}
variable {lax : Json → Option Bool}

/-
  What a commit is worth: a patch has its outcome, and a
  mutation leaves the users alone and is authorized by the
  store that it commits to.
-/
def realmEvent :
    Event (realm T) (Realm τ) (RealmReply lax ρ) → Prop
| .committed _ _ before after (some (.patched reply)) =>
    PatchOutcome reply.request reply.authority before.1 after.1
| .committed _ _ before after
    (some (.mutated policy userId _)) =>
    credentials after = credentials before ∧
      Authorized policy userId before.1
| .committed _ _ before after _ =>
    credentials after = credentials before
| _ => True

/- Locked user rows stay as they are. -/
def realmStable
    (ks : List (realm T).Key)
    (s s' : Accounts) : Prop :=
  RowsStable (fun k => Sum.inl k ∈ ks) s s'

def realmContract
    (W : World (realm T))
    (lax : Json → Option Bool)
    (ρ : Type)
    (db : Realm τ) :
    Contract W (Realm τ) (RealmReply lax ρ) where
  start := db
  later := fun _ _ => True
  valid := fun s _ => s.1.Valid
  stable := fun ks s s' => realmStable ks s.1 s'.1
  outcome := fun _ e => realmEvent e
  later_refl := fun _ => trivial
  later_trans := fun _ _ => trivial
  later_answers := fun _ => trivial
  later_advance := fun _ => trivial
  valid_later := fun _ hValid => hValid
  stable_refl := fun _ s => RowsStable.refl s.1
  stable_trans := fun hFirst hSecond => hFirst.trans hSecond
  outcome_quiet := by
    intro older e hQuiet
    cases e with
    | committed pid log before after answer => cases hQuiet
    | _ => trivial

variable {db : Realm τ} {pid : ℕ}

theorem realmContract_silent
    (q : (realm T).Query) :
    (realmContract W lax ρ db).rules.Silent q :=
  Contract.silent (fun _ _ _ _ => trivial)

theorem realmContract_lenient :
    (realmContract W lax ρ db).rules.Lenient :=
  Contract.lenient (fun _ _ _ => trivial)

theorem realmContract_rules :
    Users.AccountRules (realmContract W lax ρ db).rules
      (Embedding.inl accounts T Accounts τ)
      realmStable where
  silent := fun q => realmContract_silent (Sum.inl q)
  mayAbort := fun _ => trivial
  begun := begunAs_rely
  stable_of_rely := fun hRely => hRely.stable
  refl := fun _ s => RowsStable.refl s
  trans := fun hFirst hSecond => hFirst.trans hSecond
  mono := by
    intro ks ks' s s' hKeys hStable
    exact hStable.mono (fun k hKey => hKeys _ hKey)
  rows := fun hStable => hStable

/- The rows of equal users and tokens are stable. -/
theorem realmStable_of_credentials
    {ks : List (realm T).Key}
    {s s' : Realm τ}
    (hSame : credentials s' = credentials s) :
    realmStable ks s.1 s'.1 where
  user := by
    intro id hKey
    have hUsers : s'.1.users = s.1.users :=
      congrArg Prod.fst hSame
    unfold userById
    rw [hUsers]
  tokens := by
    intro id hKey
    have hTokens : s'.1.tokens = s.1.tokens :=
      congrArg Prod.snd hSame
    unfold tokensOf
    rw [hTokens]
    exact List.forall₂_same.mpr (fun t _ => .refl t)

theorem valid_of_credentials
    {s s' : Realm τ}
    (hSame : credentials s' = credentials s)
    (hValid : s.1.Valid) :
    s'.1.Valid := by
  have hUsers : s'.1.users = s.1.users :=
    congrArg Prod.fst hSame
  have hTokens : s'.1.tokens = s.1.tokens :=
    congrArg Prod.snd hSame
  constructor
  · rw [hUsers]
    exact hValid.users
  · rw [hTokens]
    exact hValid.tokens
  · rw [hTokens]
    exact hValid.hashes

/- A commit that spares the credentials is right. -/
theorem realmContract_commits
    {log : List (Action (realm T))}
    {w : Realm τ → Realm τ}
    {answer : Option (RealmReply lax ρ)}
    {c : Config W (Realm τ) (RealmReply lax ρ)}
    (hGood : (realmContract W lax ρ db).Good c)
    (hWrites : ∀ t, credentials (w t) = credentials t)
    (hEvent :
      realmEvent (.committed pid log c.db (w c.db) answer)) :
    (realmContract W lax ρ db).rules.Commits pid log w answer
      c := by
  apply Contract.commits hGood
  · exact valid_of_credentials (hWrites c.db) hGood.valid
  · exact hEvent
  · intro ks' hCompat
    exact realmStable_of_credentials (hWrites c.db)

end Contracts

end PigBook

------------------------------------------------------------
-- Programs under the Contract
------------------------------------------------------------

namespace PigBook

open ReadCommitted

section Keeps

variable {T : Sig} {τ ρ : Type} {W : World (realm T)}
variable {lax : Json → Option Bool} {db : Realm τ}

/-
  From its revalidation to its commit a mutation holds the
  row of its principal as it was when it was accepted.
-/
theorem mutation_keeps
    {m : Mutation T τ ρ}
    (hAllowed :
      (.mutate m : RealmRequest lax T τ ρ).Allowed) :
    (realmContract W lax ρ db).rules.Keeps m.program := by
  rcases hAllowed with ⟨hBefore, hSingle, hSpares⟩
  have hRules :
      Users.AccountRules (realmContract W lax ρ db).rules
        (Embedding.inl accounts T Accounts τ) realmStable :=
    realmContract_rules
  intro pid c hGood
  unfold Mutation.program
  simp only [Prog.bind_eq, Prog.rwp_bind]
  apply Users.authorize_rwp hRules
  intro c₁ hGood₁
  -- rate limits and path lookups may commit on their own
  apply Prog.Spares.rwp realmContract_silent
    realmContract_lenient _ _ hBefore (fun _ => rfl)
  · intro log w c hGood hWrites
    exact realmContract_commits hGood hWrites (hWrites c.db)
  intro _ log w c₂ hWrites
  simp only [Prog.rwp_undo]
  intro c₃ hGood₃ hRely₃
  apply Users.assertCurrent_rwp hRules
  intro u act c₄ hGood₄ hLocked hEnabled hRole
  -- the operation runs while the principal's row is locked
  apply Prog.Spares.rwp_single
    (I := fun log c =>
      Users.Locked (Embedding.inl accounts T Accounts τ)
        (held log) c m.principalId u)
    realmContract_silent realmContract_lenient _ _ hSingle
    hSpares hLocked (fun _ => rfl)
  · intro log act c c' hLocked hRan
    exact
      hLocked.kept hRules (hRules.ran hRan)
        (fun _ => Users.mem_held_append)
  · intro answer log w c hLocked hWrites c' hGood hRely
    have hNow :=
      hLocked.kept hRules hRely.stable (fun _ hKey => hKey)
    apply realmContract_commits hGood hWrites
    exact ⟨hWrites c'.db, u, hNow.row, hEnabled, hRole⟩

theorem realmPatch_keeps
    (r : PatchRequest lax) :
    (realmContract W lax ρ db).rules.Keeps
      (.patch r : RealmRequest lax T τ ρ).program := by
  have hRules :
      Users.AccountRules (realmContract W lax ρ db).rules
        (Embedding.inl accounts T Accounts τ) realmStable :=
    realmContract_rules
  intro pid c hGood
  unfold RealmRequest.program onAccounts patchProgram
  simp only [Prog.bind_eq, Prog.embed_bind, Prog.rwp_bind]
  apply
    Users.updateUserEndpoint_rwp hRules
      (fun _ _ _ _ _ => trivial)
  intro actor target view log w c₁ hPatching c₂ hGood₂ hRely
  have hNow :=
    hPatching.kept hRules hRely.stable (fun _ hKey => hKey)
  have hValid : c₂.db.1.Valid := hGood₂.valid
  apply Contract.commits hGood₂
  · exact hNow.outcome.valid hValid
  · exact hNow.outcome
  · intro ks' hCompat
    exact hNow.rowsStable hValid hCompat (fun _ _ h => h)

theorem realmOther_keeps
    {p : RealmM T τ ρ}
    (hSpares : p.Spares credentials) :
    (realmContract W lax ρ db).rules.Keeps
      (.other p : RealmRequest lax T τ ρ).program := by
  intro pid c hGood
  apply (Prog.rwp_bind _ _).mpr
  apply Prog.Spares.rwp realmContract_silent
    realmContract_lenient _ _ hSpares (fun _ => rfl)
  · intro log w c hGood hWrites
    exact realmContract_commits hGood hWrites (hWrites c.db)
  · intro answer log w c hWrites c' hGood hRely
    exact realmContract_commits hGood hWrites (hWrites c'.db)

theorem realm_good
    {env : W.Carrier}
    {s : Sys W (Realm τ) (RealmReply lax ρ)}
    (hValid : db.1.Valid)
    (hReach : Reachable realmPrograms (Sys.initial db env) s) :
    (realmContract W lax ρ db).Good s.toConfig := by
  apply Contract.good_of_reachable _ hValid hReach
  intro p hProgram
  rcases hProgram with ⟨r, hAllowed, rfl⟩
  cases r with
  | mutate m => exact mutation_keeps hAllowed
  | patch r => exact realmPatch_keeps r
  | other p => exact realmOther_keeps hAllowed

end Keeps

end PigBook

------------------------------------------------------------
-- Authority along a Run
------------------------------------------------------------

namespace PigBook

open ReadCommitted

section Runs

variable {T : Sig} {τ ρ : Type} {W : World (realm T)}
variable {lax : Json → Option Bool} {db : Realm τ}
variable {policy : Policy} {userId : Uuid}

/-
  A patch by another user, who is an enabled administrator,
  gives the user the authority that was missing.
-/
def Restores
    (policy : Policy)
    (userId : Uuid)
    (c : Commit (realm T) (Realm τ) (RealmReply lax ρ)) :
    Prop :=
  ∃ reply, c.answer = some (.patched reply) ∧
    reply.request.objectId = userId ∧
    reply.request.principalId ≠ userId ∧
    Authorized .admin reply.request.principalId c.before.1 ∧
    ¬ Authorized policy userId c.before.1 ∧
    Authorized policy userId c.after.1

/- Whoever has no authority is no enabled administrator. -/
theorem Authorized.of_admin
    {s s' : Accounts}
    (hAdmin : Authorized .admin userId s)
    (hSome : Authorized policy userId s') :
    Authorized policy userId s := by
  rcases hAdmin with ⟨u, hUser, hEnabled, hRole⟩
  rcases hSome with ⟨u', -, -, hAllowed⟩
  refine ⟨u, hUser, hEnabled, ?_⟩
  rw [List.mem_singleton.mp hRole]
  cases policy with
  | publicAccess => cases hAllowed
  | metrics => cases hAllowed
  | admin => exact List.mem_singleton.mpr rfl
  | _ => exact List.mem_cons_of_mem _ List.mem_cons_self

theorem authorized_of_credentials
    {s s' : Realm τ}
    (hSame : credentials s' = credentials s)
    (hAuthorized : Authorized policy userId s'.1) :
    Authorized policy userId s.1 := by
  have hUsers : s'.1.users = s.1.users :=
    congrArg Prod.fst hSame
  unfold Authorized userById at *
  rw [← hUsers]
  exact hAuthorized

/- Only a patch restores the authority of a user. -/
theorem realmEvent_restores
    {pid : ℕ}
    {log : List (Action (realm T))}
    {before after : Realm τ}
    {answer : Option (RealmReply lax ρ)}
    (hEvent :
      realmEvent (.committed pid log before after answer))
    (hNot : ¬ Authorized policy userId before.1)
    (hNow : Authorized policy userId after.1) :
    Restores policy userId ⟨log, before, after, answer⟩ := by
  have hMoved : credentials after ≠ credentials before :=
    fun hSame => hNot (authorized_of_credentials hSame hNow)
  match answer, hEvent with
  | none, hSame => exact absurd hSame hMoved
  | some (.other _), hSame => exact absurd hSame hMoved
  | some (.mutated _ _ _), hSame => exact absurd hSame.1 hMoved
  | some (.patched reply), hOutcome =>
      rcases hOutcome.actor with
        ⟨actor, hActor, hEnabled, hRole, -⟩
      have hAdmin :
          Authorized .admin reply.request.principalId
            before.1 :=
        ⟨actor, hActor, hEnabled,
          List.mem_singleton.mpr hRole⟩
      refine ⟨reply, rfl, ?_, ?_, hAdmin, hNot, hNow⟩
      · by_contra hNe
        rcases hOutcome.changes with
          ⟨target, now, revoked, auditId, reqId, -, -, hAfter,
            -⟩
        apply hNot
        rcases hNow with ⟨u, hUser, hRest⟩
        rw [hAfter, userById_patched_of_ne (Ne.symm hNe)]
          at hUser
        exact ⟨u, hUser, hRest⟩
      · rintro rfl
        exact hNot (hAdmin.of_admin hNow)

/- Between a state without the authority and one with it. -/
theorem authority_restored
    {newer older :
      List (Event (realm T) (Realm τ) (RealmReply lax ρ))}
    (hLinked :
      Audited (Event.Follows db) (newer ++ older))
    (hAudited :
      Audited (fun _ e => realmEvent e) (newer ++ older))
    (hNot : ¬ Authorized policy userId (latest db older).1)
    (hNow :
      Authorized policy userId (latest db (newer ++ older)).1) :
    ∃ c ∈ commits newer, Restores policy userId c := by
  induction newer with
  | nil => exact absurd hNow hNot
  | cons e newer ih =>
      have hRest := ih hLinked.2 hAudited.2
      cases e with
      | committed pid log before after answer =>
          by_cases hBefore : Authorized policy userId before.1
          · have hFollows :
                before = latest db (newer ++ older) :=
              hLinked.1
            rw [hFollows] at hBefore
            rcases hRest hBefore with ⟨c, hc, hRestores⟩
            exact ⟨c, List.mem_cons_of_mem _ hc, hRestores⟩
          · exact
              ⟨_, List.mem_cons_self,
                realmEvent_restores hAudited.1 hBefore hNow⟩
      | _ => exact hRest hNow

end Runs

end PigBook
