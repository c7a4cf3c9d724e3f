import PigBook.Users.Refresh
import PigBook.Users.Retention
import PigBook.Users.Sessions

/-
  Which logins outlive a revocation.

  Key definitions include:
    * `Revokes`, `Revocation`
    * `Minted`
    * `SessionsEnd`, `MintedEnd`, `NoneOvertaken`

  Key theorems include:
    * `Revokes.cleared`
    * `minted_stays_revoked`
    * `sessions_end_iff`
-/

------------------------------------------------------------
-- Commits that Revoke
------------------------------------------------------------

namespace PigBook

open ReadCommitted

section Commits

variable {lax : Json → Option Bool} {X : Primitives}
variable {db : Accounts} {userId : Uuid} {pid : ℕ}
variable {older : List (SessionEvent lax)}

/- The commit disables the user, or sets a new password. -/
def Revokes
    (userId : Uuid)
    (c : Commit accounts Accounts (SessionReply lax)) : Prop :=
  match c.answer with
  | some (.patched reply) =>
      reply.request.objectId = userId ∧
        (∃ u ∈ userById userId c.before, u.enabled = true) ∧
        ∃ u ∈ userById userId c.after, u.enabled = false
  | some (.reset id apply _) => id = userId ∧ apply = true
  | some (.loggedIn _ _) => False
  | none => False

instance
    (userId : Uuid)
    (c : Commit accounts Accounts (SessionReply lax)) :
    Decidable (Revokes userId c) := by
  unfold Revokes
  split <;> infer_instance

/- A patch that disables its target revokes all its tokens. -/
theorem PatchOutcome.cleared
    {r : PatchRequest lax}
    {authority : Authority}
    {before after : Accounts}
    (hOutcome : PatchOutcome r authority before after)
    (hBefore :
      ∃ u ∈ userById r.objectId before, u.enabled = true)
    (hAfter :
      ∃ u ∈ userById r.objectId after, u.enabled = false) :
    Cleared r.objectId before after := by
  rcases hOutcome.changes with
    ⟨target, now, revoked, auditId, reqId, hTarget, hVersion,
      rfl, hAll, -⟩
  rcases hBefore with ⟨u, hUser, hOn⟩
  rcases hAfter with ⟨u', hUser', hOff⟩
  have hDisables : r.Disables target := by
    constructor
    · rw [hTarget] at hUser
      rw [Option.some.inj hUser]
      exact hOn
    · rw [userById_patched_target hTarget hVersion] at hUser'
      rw [← Option.some.inj hUser'] at hOff
      exact hOff
  refine ⟨now, ?_⟩
  rw [← hAll hDisables]
  rfl

variable {c : Commit accounts Accounts (SessionReply lax)}

theorem Revokes.cleared
    (hRevokes : Revokes userId c)
    (hEvent :
      sessionEvent X db older
        (.committed pid c.log c.before c.after c.answer)) :
    Cleared userId c.before c.after := by
  unfold Revokes at hRevokes
  split at hRevokes
  · rename_i reply hAnswer
    rw [hAnswer] at hEvent
    rcases hRevokes with ⟨rfl, hBefore, hAfter⟩
    exact PatchOutcome.cleared hEvent.2 hBefore hAfter
  · rename_i id apply count hAnswer
    rw [hAnswer] at hEvent
    rcases hRevokes with ⟨rfl, rfl⟩
    exact hEvent.2
  · cases hRevokes
  · cases hRevokes

/- No commit loses a token, or takes a revocation back. -/
theorem sessionEvent_later
    {log : List (Action accounts)}
    {before after : Accounts}
    {answer : Option (SessionReply lax)}
    (hEvent :
      sessionEvent X db older
        (.committed pid log before after answer)) :
    ∀ t ∈ before.tokens, ∃ t' ∈ after.tokens, t.Later t' := by
  intro t hMem
  match answer, hEvent with
  | some (.loggedIn password result), hEvent =>
      rcases hEvent.2 with
        ⟨user, earlier, root, -, -, -, -, -, rfl⟩
      exact ⟨t, List.mem_append_left _ hMem, .refl t⟩
  | some (.patched reply), hEvent =>
      rcases hEvent.2.changes with
        ⟨target, now, revoked, auditId, reqId, -, -, rfl, -⟩
      exact later_updateWhere (later_revoked now) hMem
  | some (.reset id true count), hEvent =>
      rcases hEvent.2 with ⟨now, hTokens⟩
      rw [hTokens]
      exact later_updateWhere (later_revoked now) hMem
  | some (.reset id false count), hEvent =>
      rw [show after.tokens = before.tokens from hEvent.2]
      exact ⟨t, hMem, .refl t⟩

end Commits

end PigBook

------------------------------------------------------------
-- Histories of Sessions
------------------------------------------------------------

namespace PigBook

open ReadCommitted

section Histories

variable {lax : Json → Option Bool} {X : Primitives}
variable {db : Accounts} {userId : Uuid}
variable {trace newer older : List (SessionEvent lax)}

/- What every event of a run is worth. -/
structure SessionRun
    (X : Primitives)
    (db : Accounts)
    (trace : List (SessionEvent lax)) : Prop where
  valid : FamilyValid db
  linked : Audited (Event.Follows db) trace
  audited : Audited (sessionEvent X db) trace

theorem SessionRun.of_suffix
    (hRun : SessionRun X db trace)
    (hSuffix : older <:+ trace) :
    SessionRun X db older where
  valid := hRun.valid
  linked := hRun.linked.of_suffix hSuffix
  audited := hRun.audited.of_suffix hSuffix

theorem SessionRun.latest_valid
    (hRun : SessionRun X db trace) :
    FamilyValid (latest db trace) := by
  induction trace with
  | nil => exact hRun.valid
  | cons e older ih =>
      have hOlder := hRun.of_suffix (List.suffix_cons e older)
      cases e with
      | committed pid log before after answer =>
          cases answer with
          | none => exact hRun.audited.1.elim
          | some reply => exact hRun.audited.1.1
      | _ => exact ih hOlder

/- A token stays along a run, as itself or later on. -/
theorem SessionRun.later
    (hRun : SessionRun X db trace)
    (hSuffix : older <:+ trace)
    {t : RefreshToken}
    (hMem : t ∈ (latest db older).tokens) :
    ∃ t' ∈ (latest db trace).tokens, t.Later t' := by
  rcases hSuffix with ⟨newer, rfl⟩
  refine
    latest_append
      (P := fun s => ∃ t' ∈ s.tokens, t.Later t')
      hRun.linked ?_ ⟨t, hMem, .refl t⟩
  intro c hc hBefore
  rcases exists_of_mem_commits hc with
    ⟨newer', pid, older', rfl⟩
  rcases hBefore with ⟨t₁, hMem₁, hLater₁⟩
  have hAudited := hRun.audited
  rw [List.append_assoc, List.cons_append] at hAudited
  rcases sessionEvent_later hAudited.split.1 t₁ hMem₁ with
    ⟨t₂, hMem₂, hLater₂⟩
  exact ⟨t₂, hMem₂, hLater₁.trans hLater₂⟩

/- The history ends with a commit that revokes. -/
def Revocation
    (userId : Uuid) : List (SessionEvent lax) → Prop
| .committed _ log before after answer :: _ =>
    Revokes userId ⟨log, before, after, answer⟩
| _ => False

instance
    (userId : Uuid)
    (history : List (SessionEvent lax)) :
    Decidable (Revocation userId history) := by
  unfold Revocation
  split <;> infer_instance

/-
  The history ends with the commit of a login that adds the
  token `root`, after it has checked the user that it saw in
  the state that the events `earlier` had left.
-/
def Minted
    (db : Accounts)
    (root : RefreshToken)
    (earlier : List (SessionEvent lax)) :
    List (SessionEvent lax) → Prop
| .committed pid _ before after (some (.loggedIn _ _)) ::
    older =>
    after = before.addToken root ∧
      ∃ user, LoginSaw db pid older earlier user ∧
        root.userId = user.id
| _ => False

/- After a revocation all tokens of the user are revoked. -/
theorem SessionRun.revocation
    (hRun : SessionRun X db trace)
    (hRevocation : Revocation userId trace)
    {t : RefreshToken}
    (hMem : t ∈ (latest db trace).tokens)
    (hUser : t.userId = userId) :
    t.revokedAt.isSome := by
  unfold Revocation at hRevocation
  split at hRevocation
  · rename_i pid log before after answer older
    have hBefore : before = latest db older := hRun.linked.1
    have hOlder :=
      (hRun.of_suffix (List.suffix_cons _ older)).latest_valid
    rw [← hBefore] at hOlder
    exact
      (hRevocation.cleared hRun.audited.1).revoked
        hOlder.valid.tokens hMem hUser
  · cases hRevocation

/- The login leaves its token, and it is not revoked. -/
theorem SessionRun.minted
    {root : RefreshToken}
    {earlier : List (SessionEvent lax)}
    (hRun : SessionRun X db trace)
    (hMinted : Minted db root earlier trace) :
    root ∈ (latest db trace).tokens ∧
      root.revokedAt = none := by
  unfold Minted at hMinted
  split at hMinted
  · rename_i pid log before after password result older
    rcases hMinted with ⟨rfl, -⟩
    refine
      ⟨List.mem_append_right _ (List.mem_singleton.mpr rfl), ?_⟩
    rcases hRun.audited.1.2 with
      ⟨user, seen, own, -, -, -, -, hUnrevoked, hSame⟩
    have hTokens :
        before.tokens ++ [root] = before.tokens ++ [own] :=
      congrArg Accounts.tokens hSame
    rw [List.cons.inj (List.append_cancel_left hTokens) |>.1]
    exact hUnrevoked
  · cases hMinted

/-
  A token that a login has minted before a revocation of its
  user is revoked, then and ever after.
-/
theorem minted_stays_revoked
    {root : RefreshToken}
    {earlier minted revoked later : List (SessionEvent lax)}
    (hRun : SessionRun X db trace)
    (hLater : later <:+ trace)
    (hMinted : Minted db root earlier minted)
    (hFirst : minted <:+ revoked)
    (hRevocation : Revocation root.userId revoked)
    (hThen : revoked <:+ later)
    {t : RefreshToken}
    (hMem : t ∈ (latest db later).tokens)
    (hId : t.id = root.id) :
    t.revokedAt.isSome := by
  have hRunLater := hRun.of_suffix hLater
  have hRunRevoked := hRunLater.of_suffix hThen
  have hRoot :=
    ((hRunRevoked.of_suffix hFirst).minted hMinted).1
  rcases hRunRevoked.later hFirst hRoot with
    ⟨t₁, hMem₁, hLater₁⟩
  have hRevoked :=
    hRunRevoked.revocation hRevocation hMem₁ hLater₁.userId
  rcases hRunLater.later hThen hMem₁ with
    ⟨t₂, hMem₂, hLater₂⟩
  have hSame : t₂ = t := by
    apply
      hRunLater.latest_valid.valid.tokens.eq_of_key hMem₂ hMem
    rw [hLater₂.id, hLater₁.id, hId]
  rw [← hSame]
  exact hLater₂.revoked hRevoked

/-
  A session whose login has checked its user before a
  revocation is revoked ever after.
-/
def SessionsEnd
    (db : Accounts)
    (trace : List (SessionEvent lax)) : Prop :=
  ∀ root earlier minted revoked,
    minted <:+ trace →
    Minted db root earlier minted →
    revoked <:+ trace →
    Revocation root.userId revoked →
    earlier <:+ revoked.tail →
    ∀ later, later <:+ trace → revoked <:+ later →
      ∀ t ∈ (latest db later).tokens,
        t.id = root.id → t.revokedAt.isSome

/-
  A session that was there when its user's sessions were
  revoked is revoked ever after.
-/
def MintedEnd
    (db : Accounts)
    (trace : List (SessionEvent lax)) : Prop :=
  ∀ root earlier minted revoked,
    Minted db root earlier minted →
    minted <:+ revoked →
    Revocation root.userId revoked →
    ∀ later, later <:+ trace → revoked <:+ later →
      ∀ t ∈ (latest db later).tokens,
        t.id = root.id → t.revokedAt.isSome

/-
  No login commits after a revocation that has committed
  since the login read its user.
-/
def NoneOvertaken
    (db : Accounts)
    (trace : List (SessionEvent lax)) : Prop :=
  ∀ root earlier minted revoked,
    minted <:+ trace →
    Minted db root earlier minted →
    revoked <:+ minted →
    Revocation root.userId revoked →
    ¬ earlier <:+ revoked.tail

theorem SessionRun.sessions_end
    (hRun : SessionRun X db trace)
    (hNone : NoneOvertaken db trace) :
    SessionsEnd db trace := by
  intro root earlier minted revoked hMinted hMint hRevoked
    hRevocation hEarlier later hLater hThen t hMem hId
  rcases List.suffix_or_suffix_of_suffix hMinted hRevoked with
    hFirst | hSince
  · exact
      minted_stays_revoked hRun hLater hMint hFirst hRevocation
        hThen hMem hId
  · exact
      absurd hEarlier
        (hNone root earlier minted revoked hMinted hMint hSince
          hRevocation)

theorem SessionRun.none_overtaken
    (hRun : SessionRun X db trace)
    (hEnd : SessionsEnd db trace) :
    NoneOvertaken db trace := by
  intro root earlier minted revoked hMinted hMint hSince
    hRevocation hEarlier
  have hRoot := (hRun.of_suffix hMinted).minted hMint
  have hRevoked :=
    hEnd root earlier minted revoked hMinted hMint
      (hSince.trans hMinted) hRevocation hEarlier minted hMinted
      hSince root hRoot.1 rfl
  rw [hRoot.2] at hRevoked
  cases hRevoked

theorem sessionRun_of_reachable
    {settings : Settings}
    {W : World accounts}
    {env : W.Carrier}
    {s : Sys W Accounts (SessionReply lax)}
    (hValid : FamilyValid db)
    (hReach :
      Reachable (sessionPrograms X settings lax)
        (Sys.initial db env) s) :
    SessionRun X db s.trace where
  valid := hValid
  linked := (session_good (X := X) hValid hReach).linked
  audited := (session_good hValid hReach).audited

end Histories

end PigBook

------------------------------------------------------------
-- A Login that Is Overtaken
------------------------------------------------------------

namespace PigBook

open ReadCommitted

/- User 1 disables user 2. -/
def disabling : PatchRequest pydanticBool where
  principalId := 1
  objectId := 2
  expectedVersion := 1
  requestId := none
  body := [("enabled", .bool false)]
  data := { role := none, enabled := some false }
  admitted := rfl

/- The member logs in, and the administrator disables it. -/
def sessionRequests : ℕ → SessionRequest pydanticBool
| 0 => .login "admin 2" ""
| _ => .patch disabling

/- The login has read its user before the patch commits. -/
def overtakenMoves :
    List
      (Move accounts Accounts (SessionReply pydanticBool)) :=
  [[.spawn 0
      ((sessionRequests 0).program plainPrimitives
        plainSettings)],
    List.replicate 2 (.step 0),
    [.spawn 1
      ((sessionRequests 1).program plainPrimitives
        plainSettings)],
    List.replicate 20 (.step 1),
    List.replicate 20 (.step 0)].flatten

def overtakenRun :
    Sys accountsWorld Accounts (SessionReply pydanticBool) :=
  (Sys.initial (W := accountsWorld)
    (accountsOf [adminRow 1, memberRow 2]) ⟨0, 0⟩).exec
    Users.simulator [0, 1] overtakenMoves

theorem overtakenRun_reachable :
    Reachable
      (sessionPrograms plainPrimitives plainSettings
        pydanticBool)
      (Sys.initial (W := accountsWorld)
        (accountsOf [adminRow 1, memberRow 2]) ⟨0, 0⟩)
      overtakenRun := by
  refine Sys.exec_reachable (fun _ _ => rfl) ?_
  intro m hm
  cases m with
  | spawn pid p =>
      simp only [overtakenMoves, List.flatten_cons,
        List.mem_append, List.mem_cons, List.mem_replicate,
        Move.spawn.injEq, reduceCtorEq, and_false,
        List.flatten_nil, List.not_mem_nil, or_false,
        false_or] at hm
      rcases hm with hm | hm
      · exact ⟨sessionRequests 0, hm.2⟩
      · exact ⟨sessionRequests 1, hm.2⟩
  | step pid => trivial
  | pass => trivial

/- The last event is the commit of a login. -/
def loginEnds
    {lax : Json → Option Bool} :
    List (SessionEvent lax) → Bool
| .committed 0 _ _ _ (some (.loggedIn _ _)) :: _ => true
| _ => false

/- The login has seen user 2, and has seen `n` events. -/
def sawMember
    {lax : Json → Option Bool}
    (db : Accounts)
    (n : ℕ)
    (older : List (SessionEvent lax)) : Bool :=
  match lastRan 0 Users.isLoginRead older with
  | some (⟨.loginRead email, _, _⟩, earlier) =>
      earlier.length = n ∧
        (userByEmail email (latest db earlier)).map (·.id) =
          some 2
  | _ => false

theorem LoginSaw.member
    {lax : Json → Option Bool}
    {db : Accounts}
    {n : ℕ}
    {older earlier : List (SessionEvent lax)}
    {user : User}
    (hSaw : LoginSaw db 0 older earlier user)
    (hMember : sawMember db n older = true) :
    user.id = 2 ∧ earlier.length = n ∧ earlier <:+ older := by
  rcases hSaw with ⟨email, hLast, hUser⟩
  simp only [sawMember, hLast, hUser, decide_eq_true_eq]
    at hMember
  refine ⟨Option.some.inj hMember.2, hMember.1, ?_⟩
  rcases (lastRan_split hLast).2 with ⟨newer, rfl⟩
  exact
    (List.suffix_cons _ earlier).trans
      (List.suffix_append newer _)

end PigBook

------------------------------------------------------------
-- Sessions that End
------------------------------------------------------------

namespace PigBook

open ReadCommitted

variable {lax : Json → Option Bool} {W : World accounts}
variable {X : Primitives} {settings : Settings}
variable {db : Accounts}

/-
  The sessions of a user end at every revocation exactly in
  those runs in which no login is overtaken.  In every run
  those end that were there before the revocation.
-/
theorem sessions_end_iff
    {env : W.Carrier}
    {s : Sys W Accounts (SessionReply lax)}
    (hValid : FamilyValid db)
    (hReach :
      Reachable (sessionPrograms X settings lax)
        (Sys.initial db env) s) :
    (SessionsEnd db s.trace ↔ NoneOvertaken db s.trace) ∧
      MintedEnd db s.trace := by
  have hRun := sessionRun_of_reachable hValid hReach
  refine ⟨⟨hRun.none_overtaken, hRun.sessions_end⟩, ?_⟩
  intro root earlier minted revoked hMinted hFirst hRevocation
    later hLater hThen t hMem hId
  exact
    minted_stays_revoked hRun hLater hMinted hFirst
      hRevocation hThen hMem hId

/- The session of a disabled user that does not end. -/
theorem sessions_end_iff_overtaken :
    ¬ SessionsEnd (accountsOf [adminRow 1, memberRow 2])
      overtakenRun.trace := by
  have hValid :
      FamilyValid (accountsOf [adminRow 1, memberRow 2]) := by
    constructor
    · exact accountsOf_valid (by decide +kernel)
    · intro t hMem
      cases hMem
  have hIff :=
    (sessions_end_iff hValid overtakenRun_reachable).1
  rw [hIff]
  have hRun :=
    sessionRun_of_reachable hValid overtakenRun_reachable
  have hEnds : loginEnds overtakenRun.trace = true := by
    decide +kernel
  have hMember :
      sawMember (accountsOf [adminRow 1, memberRow 2]) 2
        overtakenRun.trace.tail = true := by
    decide +kernel
  have hRevocation :
      Revocation 2 (overtakenRun.trace.drop 7) := by
    decide +kernel
  have hLength : 2 ≤ (overtakenRun.trace.drop 8).length := by
    decide +kernel
  generalize overtakenRun.trace = trace at *
  unfold loginEnds at hEnds
  split at hEnds
  · rename_i log before after password result older
    rcases hRun.audited.1.2 with
      ⟨user, earlier, root, hSaw, -, -, hOwner, -, hAfter⟩
    rcases hSaw.member hMember with ⟨hTwo, hRead, hSuffix⟩
    intro hNone
    apply
      hNone root earlier _ _ List.suffix_rfl
        ⟨hAfter, user, hSaw, hOwner⟩ (List.drop_suffix 7 _)
    · rw [hOwner, hTwo]
      exact hRevocation
    · rw [List.tail_drop]
      apply
        List.suffix_of_suffix_length_le hSuffix
          (List.drop_suffix 7 older)
      rw [hRead]
      exact hLength
  · cases hEnds

end PigBook
