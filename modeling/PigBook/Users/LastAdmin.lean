import PigBook.Users.Patches
import PigBook.Users.Surroundings

/-
  The guard of the last administrator.

  The guard and the patch read the request body in different
  ways.  They disagree exactly on the values that the lax
  parser turns into `False`, and every way to lose the last
  enabled administrator goes through such a value.

  Key definitions include:
    * `HasAdmin`, `SoleAdmin`
    * `CoercedOff`
    * `RemovesLast`
    * `patchContract`

  Key theorems include:
    * `last_admin_iff`
    * `last_admin_lost`
-/

------------------------------------------------------------
-- Administrators
------------------------------------------------------------

namespace PigBook

open ReadCommitted

/- Some enabled user is an administrator. -/
def HasAdmin (s : Accounts) : Prop :=
  ∃ u ∈ s.users, u.isActiveAdmin = true

instance (s : Accounts) : Decidable (HasAdmin s) :=
  inferInstanceAs (Decidable (∃ u ∈ s.users, _))

/- Every enabled administrator is the user with the id. -/
def SoleAdmin (id : Uuid) (s : Accounts) : Prop :=
  ∀ u ∈ s.users, u.isActiveAdmin = true → u.id = id

/- A sole administrator is counted at most once. -/
theorem SoleAdmin.count
    {id : Uuid}
    {s : Accounts}
    (hKeyed : Keyed User.id s.users)
    (hSole : SoleAdmin id s) :
    activeAdmins s ≤ 1 := by
  by_contra hMany
  push Not at hMany
  have hLength :
      1 < (s.users.filter User.isActiveAdmin).length := by
    rw [← List.countP_eq_length_filter]
    exact hMany
  have hPairwise :=
    List.Pairwise.filter User.isActiveAdmin hKeyed
  cases hRows : s.users.filter User.isActiveAdmin with
  | nil => simp [hRows] at hLength
  | cons u rest =>
      cases rest with
      | nil => simp [hRows] at hLength
      | cons v rest =>
          rw [hRows] at hPairwise
          have hMem :
              ∀ x ∈ u :: v :: rest, x.id = id := by
            intro x hx
            rw [← hRows] at hx
            rcases List.mem_filter.mp hx with
              ⟨hRow, hActive⟩
            exact hSole x hRow hActive
          have hNe :=
            (List.pairwise_cons.mp hPairwise).1 v
              List.mem_cons_self
          apply hNe
          rw [hMem u (by simp), hMem v (by simp)]

end PigBook

------------------------------------------------------------
-- The Two Readings of a Body
------------------------------------------------------------

namespace PigBook

variable {lax : Json → Option Bool}

/-
  The guard takes the body for one that keeps an enabled
  administrator, but the lax parser reads `enabled` off.
-/
def CoercedOff
    (lax : Json → Option Bool)
    (body : RequestBody) : Prop :=
  body.keepsRole = true ∧
    ∃ v, body.lookup "enabled" = some v ∧
      v ≠ .bool false ∧ lax v = some false

/- The fields of an admitted patch come from its body. -/
theorem UserPatch.validate_fields
    {body : RequestBody}
    {data : UserPatch}
    (hAdmitted : UserPatch.validate lax body = .ok data) :
    validateRole (body.lookup "role") = .ok data.role ∧
      validateEnabled lax (body.lookup "enabled") =
        .ok data.enabled := by
  unfold UserPatch.validate at hAdmitted
  split at hAdmitted
  · cases hAdmitted
  · cases hRole : validateRole (body.lookup "role") with
    | error message =>
        rw [hRole] at hAdmitted
        cases hAdmitted
    | ok role =>
        cases hEnabled :
            validateEnabled lax (body.lookup "enabled") with
        | error message =>
            rw [hRole, hEnabled] at hAdmitted
            cases hAdmitted
        | ok enabled =>
            rw [hRole, hEnabled] at hAdmitted
            simp only [bind, Except.bind, pure,
              Except.pure] at hAdmitted
            split at hAdmitted
            · cases hAdmitted
            · cases hAdmitted
              exact ⟨rfl, rfl⟩

/- Both readers agree on the role. -/
theorem keepsRole_iff
    {body : RequestBody}
    {role : Option Role}
    (hRole :
      UserPatch.validateRole (body.lookup "role") =
        .ok role) :
    body.keepsRole = true ↔ role ≠ some .member := by
  unfold RequestBody.keepsRole
  unfold UserPatch.validateRole at hRole
  split at hRole
  · rename_i hBody
    cases hRole
    simp [hBody]
  · cases hRole
  · rename_i hBody
    cases hRole
    simp [hBody]
  · rename_i hBody
    cases hRole
    simp [hBody]
  · cases hRole

/- A patch that sets `enabled` off was read off its body. -/
theorem enabled_off_iff
    {body : RequestBody}
    {enabled : Option Bool}
    (hEnabled :
      UserPatch.validateEnabled lax (body.lookup "enabled") =
        .ok enabled) :
    enabled = some false ↔
      ∃ v, body.lookup "enabled" = some v ∧
        v ≠ .null ∧ lax v = some false := by
  unfold UserPatch.validateEnabled at hEnabled
  split at hEnabled
  · rename_i hBody
    cases hEnabled
    simp [hBody]
  · cases hEnabled
  · rename_i v hNull hBody
    rw [hBody]
    split at hEnabled
    · rename_i b hLax
      cases hEnabled
      constructor
      · rintro ⟨⟩
        exact ⟨v, rfl, fun hEq => hNull hEq, hLax⟩
      · rintro ⟨v', hSome, -, hOff⟩
        cases hSome
        rw [hLax] at hOff
        exact hOff
    · cases hEnabled

/- The guard overlooks only what the lax parser coerces. -/
theorem PatchRequest.coercedOff_of_remains
    (r : PatchRequest lax)
    {target : User}
    {now : ℤ}
    (hActive : target.isActiveAdmin = true)
    (hRemains : r.body.remainsAdmin = true)
    (hGone :
      (r.data.apply target now target).isActiveAdmin =
        false) :
    CoercedOff lax r.body := by
  rcases UserPatch.validate_fields r.admitted with
    ⟨hRole, hEnabled⟩
  unfold RequestBody.remainsAdmin at hRemains
  rcases Bool.and_eq_true_iff.mp hRemains with
    ⟨hKeepsRole, hKeepsEnabled⟩
  rcases User.isActiveAdmin_iff.mp hActive with
    ⟨hAdmin, hOn⟩
  have hRoleKept :
      (r.data.apply target now target).role = .admin := by
    change r.data.role.getD target.role = .admin
    have hNot := (keepsRole_iff hRole).mp hKeepsRole
    cases hData : r.data.role with
    | none => exact hAdmin
    | some role =>
        cases role with
        | admin => rfl
        | member => exact absurd hData hNot
  have hOff : r.data.enabled = some false := by
    cases hData : r.data.enabled with
    | none =>
        have hStays :
            (r.data.apply target now target).isActiveAdmin =
              true := by
          rw [User.isActiveAdmin_iff]
          refine ⟨hRoleKept, ?_⟩
          change r.data.enabled.getD target.enabled = true
          rw [hData]
          exact hOn
        rw [hStays] at hGone
        cases hGone
    | some enabled =>
        cases enabled with
        | false => rfl
        | true =>
            have hStays :
                (r.data.apply target now target).isActiveAdmin
                  = true := by
              rw [User.isActiveAdmin_iff]
              refine ⟨hRoleKept, ?_⟩
              change r.data.enabled.getD target.enabled = true
              rw [hData]
              rfl
            rw [hStays] at hGone
            cases hGone
  rcases (enabled_off_iff hEnabled).mp hOff with
    ⟨v, hBody, -, hLax⟩
  refine ⟨hKeepsRole, v, hBody, ?_, hLax⟩
  rintro rfl
  unfold RequestBody.keepsEnabled at hKeepsEnabled
  rw [hBody] at hKeepsEnabled
  cases hKeepsEnabled

/- A coerced body disables its target. -/
theorem PatchRequest.disabled_of_coercedOff
    (r : PatchRequest lax)
    (hCoerced : CoercedOff lax r.body)
    (target : User)
    (now : ℤ) :
    (r.data.apply target now target).isActiveAdmin =
      false := by
  rcases UserPatch.validate_fields r.admitted with
    ⟨-, hEnabled⟩
  rcases hCoerced with ⟨-, v, hBody, -, hLax⟩
  have hNotNull : v ≠ .null := by
    rintro rfl
    rw [hBody] at hEnabled
    cases hEnabled
  have hOff : r.data.enabled = some false :=
    (enabled_off_iff hEnabled).mpr
      ⟨v, hBody, hNotNull, hLax⟩
  rw [Bool.eq_false_iff]
  intro hActive
  have hOn := (User.isActiveAdmin_iff.mp hActive).2
  change r.data.enabled.getD target.enabled = true at hOn
  rw [hOff] at hOn
  cases hOn

end PigBook

------------------------------------------------------------
-- One Patch
------------------------------------------------------------

namespace PigBook

open ReadCommitted

variable {lax : Json → Option Bool}
variable {r : PatchRequest lax} {authority : Authority}
variable {before after : Accounts}

/- The users after a patch. -/
theorem PatchOutcome.mem_users
    (hOutcome : PatchOutcome r authority before after)
    (hKeyed : Keyed User.id before.users) :
    ∃ target now, target ∈ before.users ∧
      target.id = r.objectId ∧
      ∀ u, u ∈ after.users ↔
        u = r.data.apply target now target ∨
          (u ∈ before.users ∧ u.id ≠ r.objectId) := by
  rcases hOutcome.changes with
    ⟨target, now, revoked, auditId, reqId, hTarget,
      hVersion, rfl, -⟩
  have hMem := userById_mem hTarget
  have hId := userById_id hTarget
  refine ⟨target, now, hMem, hId, ?_⟩
  intro u
  rw [← hId]
  apply mem_updateWhere_key hKeyed hMem
  intro x hRow
  simp only [decide_eq_true_eq]
  constructor
  · intro hSelected
    rw [hSelected.1, hId]
  · intro hSame
    rw [hKeyed.eq_of_key hRow hMem hSame]
    exact ⟨hId, hVersion⟩

/- The guard of a patch was passed in the store it changes. -/
def GuardPassed
    (r : PatchRequest lax)
    (s : Accounts) : Prop :=
  ∀ target, userById r.objectId s = some target →
    target.isActiveAdmin = true →
      r.body.remainsAdmin = false → 1 < activeAdmins s

/-
  A patch that has passed its guard removes the last enabled
  administrator exactly when its body is coerced off and its
  target is the only one.
-/
theorem PatchOutcome.hasAdmin_iff
    (hOutcome : PatchOutcome r authority before after)
    (hKeyed : Keyed User.id before.users)
    (hGuard : GuardPassed r before)
    (hAdmin : HasAdmin before) :
    HasAdmin after ↔
      ¬ (CoercedOff lax r.body ∧
        SoleAdmin r.objectId before) := by
  rcases hOutcome.mem_users hKeyed with
    ⟨target, now, hTarget, hId, hUsers⟩
  constructor
  · rintro ⟨u, hRow, hActive⟩ ⟨hCoerced, hSole⟩
    rcases (hUsers u).mp hRow with rfl | ⟨hOld, hNe⟩
    · rw [r.disabled_of_coercedOff hCoerced] at hActive
      cases hActive
    · exact hNe (hSole u hOld hActive)
  · intro hNot
    by_contra hNone
    -- whoever was an enabled administrator is the target
    have hSole : SoleAdmin r.objectId before := by
      intro u hRow hActive
      by_contra hNe
      exact
        hNone ⟨u, (hUsers u).mpr (Or.inr ⟨hRow, hNe⟩),
          hActive⟩
    have hGone :
        (r.data.apply target now target).isActiveAdmin =
          false := by
      rw [Bool.eq_false_iff]
      intro hActive
      exact hNone ⟨_, (hUsers _).mpr (Or.inl rfl), hActive⟩
    have hTargetActive : target.isActiveAdmin = true := by
      rcases hAdmin with ⟨u, hRow, hActive⟩
      have hSame :=
        hKeyed.eq_of_key hRow hTarget
          ((hSole u hRow hActive).trans hId.symm)
      rw [← hSame]
      exact hActive
    cases hRemains : r.body.remainsAdmin with
    | true =>
        apply hNot
        exact
          ⟨r.coercedOff_of_remains hTargetActive hRemains
            hGone, hSole⟩
    | false =>
        have hFound : userById r.objectId before = some target := by
          rw [← hId]
          exact userById_of_mem hKeyed hTarget
        have hMany := hGuard target hFound hTargetActive hRemains
        have hFew := hSole.count hKeyed
        omega

/-
  There is an enabled administrator, and there is none after
  the patch, whenever it is applied.
-/
def RemovesLast
    (r : PatchRequest lax)
    (s : Accounts) : Prop :=
  HasAdmin s ∧
    ∃ target, userById r.objectId s = some target ∧
      ∀ now revoked record,
        ¬ HasAdmin (patched r target now revoked record s)

/- The body does not keep its target an administrator. -/
theorem PatchRequest.off_of_overrun
    (hFalse : lax (.bool false) = some false)
    (hOverrun : r.body.remainsAdmin = false)
    (target : User)
    (now : ℤ) :
    (r.data.apply target now target).isActiveAdmin =
      false := by
  rcases UserPatch.validate_fields r.admitted with
    ⟨hRole, hEnabled⟩
  rw [Bool.eq_false_iff]
  intro hActive
  rcases User.isActiveAdmin_iff.mp hActive with
    ⟨hAdmin, hOn⟩
  change r.data.role.getD target.role = .admin at hAdmin
  change r.data.enabled.getD target.enabled = true at hOn
  have hKeepsRole : r.body.keepsRole = true := by
    rw [keepsRole_iff hRole]
    intro hMember
    rw [hMember] at hAdmin
    cases hAdmin
  have hKeepsEnabled : r.body.keepsEnabled = true := by
    unfold RequestBody.keepsEnabled
    split
    · rename_i hBody
      have hOff : r.data.enabled = some false :=
        (enabled_off_iff hEnabled).mpr
          ⟨_, hBody, by simp, hFalse⟩
      rw [hOff] at hOn
      cases hOn
    · rfl
  unfold RequestBody.remainsAdmin at hOverrun
  rw [hKeepsRole, hKeepsEnabled] at hOverrun
  cases hOverrun

/- What the guard sees, the lax parser does not coerce. -/
theorem not_coercedOff
    {body : RequestBody}
    (hOverrun : body.remainsAdmin = false) :
    ¬ CoercedOff lax body := by
  rintro ⟨hRole, v, hBody, hNot, -⟩
  have hEnabled : body.keepsEnabled = true := by
    unfold RequestBody.keepsEnabled
    split
    · rename_i hFalse
      rw [hBody] at hFalse
      exact absurd (Option.some.inj hFalse) hNot
    · rfl
  unfold RequestBody.remainsAdmin at hOverrun
  rw [hRole, hEnabled] at hOverrun
  cases hOverrun

/- The only administrator of a store with at most one. -/
theorem soleAdmin_of_count
    {s : Accounts}
    {target : User}
    (hTarget : target ∈ s.users)
    (hActive : target.isActiveAdmin = true)
    (hFew : activeAdmins s ≤ 1) :
    SoleAdmin target.id s := by
  intro u hRow hAdmin
  by_contra hNe
  rcases List.append_of_mem hTarget with
    ⟨others, rest, hUsers⟩
  have hOne :
      0 < (others ++ rest).countP User.isActiveAdmin := by
    refine List.countP_pos_iff.mpr ⟨u, ?_, hAdmin⟩
    rw [hUsers] at hRow
    rcases List.mem_append.mp hRow with hBefore | hAfter
    · exact List.mem_append_left _ hBefore
    · rcases List.mem_cons.mp hAfter with rfl | hRest
      · exact absurd rfl hNe
      · exact List.mem_append_right _ hRest
  unfold activeAdmins at hFew
  rw [hUsers, List.countP_append,
    List.countP_cons_of_pos hActive] at hFew
  rw [List.countP_append] at hOne
  omega

/- A patch that the guard refuses would remove the last. -/
theorem removesLast_of_refused
    {s : Accounts}
    {target : User}
    (hFalse : lax (.bool false) = some false)
    (hKeyed : Keyed User.id s.users)
    (hTarget : userById r.objectId s = some target)
    (hVersion : target.version = r.expectedVersion)
    (hActive : target.isActiveAdmin = true)
    (hOverrun : r.body.remainsAdmin = false)
    (hFew : activeAdmins s ≤ 1) :
    RemovesLast r s := by
  have hMem := userById_mem hTarget
  have hSole := soleAdmin_of_count hMem hActive hFew
  refine ⟨⟨target, hMem, hActive⟩, target, hTarget, ?_⟩
  intro now revoked record
  rintro ⟨u, hRow, hAdmin⟩
  rcases mem_updateWhere.mp hRow with
    ⟨u₀, hRow₀, hSelected, rfl⟩ | ⟨hOld, hOther⟩
  · -- the row that is changed is the target's
    have hId : u₀.id = r.objectId :=
      (of_decide_eq_true hSelected).1
    have hSame :=
      hKeyed.eq_of_key hRow₀ hMem
        (hId.trans (userById_id hTarget).symm)
    rw [hSame, r.off_of_overrun hFalse hOverrun] at hAdmin
    cases hAdmin
  · -- and nobody else was an administrator
    have hSame :=
      hKeyed.eq_of_key hOld hMem (hSole u hOld hAdmin)
    rw [hSame] at hOther
    exact
      of_decide_eq_false hOther
        ⟨userById_id hTarget, hVersion⟩

end PigBook

------------------------------------------------------------
-- Runs of Patches
------------------------------------------------------------

namespace PigBook

open ReadCommitted

/- The clients that patch users. -/
def patchPrograms
    (lax : Json → Option Bool)
    (p : Prog accounts Accounts (PatchReply lax)) : Prop :=
  ∃ r : PatchRequest lax, p = patchProgram r

section Runs

variable {lax : Json → Option Bool} {W : World accounts}

/-
  What an event of a run of patches is worth.  Whoever is
  refused had overrun the guard, at the moment of the error.
-/
def patchEvent
    (db : Accounts)
    (older : List (Event accounts Accounts (PatchReply lax))) :
    Event accounts Accounts (PatchReply lax) → Prop
| .committed pid _ before after (some reply) =>
    begunAs pid older = some (patchProgram reply.request) ∧
      PatchOutcome reply.request reply.authority before
        after ∧
      GuardPassed reply.request before
| .committed _ _ _ _ none => False
| .aborted pid (.lastAdmin _) =>
    ∃ (r : PatchRequest lax) (target : User),
      begunAs pid older = some (patchProgram r) ∧
      userById r.objectId (latest db older) = some target ∧
      target.version = r.expectedVersion ∧
      target.isActiveAdmin = true ∧
      r.body.remainsAdmin = false ∧
      activeAdmins (latest db older) ≤ 1
| _ => True

/-
  The contract of the patches: besides the locked rows, the
  number of enabled administrators is stable for the holder
  of the advisory lock.
-/
def patchContract
    (W : World accounts)
    (lax : Json → Option Bool)
    (db : Accounts) :
    Contract W Accounts (PatchReply lax) where
  start := db
  later := fun _ _ => True
  valid := fun s _ => s.Valid
  stable := fun ks s s' =>
    RowsStable (· ∈ ks) s s' ∧
      (.advisory 714001 ∈ ks →
        activeAdmins s' = activeAdmins s)
  outcome := patchEvent db
  later_refl := fun _ => trivial
  later_trans := fun _ _ => trivial
  later_answers := fun _ => trivial
  later_advance := fun _ => trivial
  valid_later := fun _ hValid => hValid
  stable_refl := fun _ s => ⟨.refl s, fun _ => rfl⟩
  stable_trans := by
    intro ks s s' s'' hFirst hSecond
    refine ⟨hFirst.1.trans hSecond.1, ?_⟩
    intro hKey
    rw [hSecond.2 hKey, hFirst.2 hKey]
  outcome_quiet := by
    intro older e hQuiet
    cases e with
    | committed pid log before after answer => cases hQuiet
    | aborted pid error => cases hQuiet
    | _ => trivial

theorem patchContract_rules
    (W : World accounts)
    (lax : Json → Option Bool)
    (db : Accounts) :
    Users.AccountRules (patchContract W lax db).rules
      Embedding.refl (patchContract W lax db).stable where
  silent := fun q => Contract.silent (fun _ _ _ _ => trivial)
  mayAbort := by
    intro pid c e hError
    change patchEvent db c.trace (.aborted pid e)
    cases e with
    | lastAdmin message => exact absurd trivial hError
    | _ => trivial
  begun := begunAs_rely
  stable_of_rely := fun hRely => hRely.stable
  refl := (patchContract W lax db).stable_refl
  trans := (patchContract W lax db).stable_trans
  mono := by
    intro ks ks' s s' hKeys hStable
    exact ⟨hStable.1.mono hKeys,
      fun hKey => hStable.2 (hKeys _ hKey)⟩
  rows := fun hStable => hStable.1

/- Every patch keeps the contract. -/
theorem patchProgram_keeps
    (db : Accounts)
    (r : PatchRequest lax) :
    (patchContract W lax db).rules.Keeps
      (patchProgram r) := by
  intro pid c hGood
  have hRules := patchContract_rules W lax db
  refine Prog.rwp_begun hRules.begun (begunAs_spawned _) ?_
  apply patchProgram_rwp hRules
  · -- the guard refuses in the store as it is
    intro target c' hGood' hBegun hRefused
    rcases hRefused.counted with ⟨s₀, hFew, hSince⟩
    have hDb : c'.db = latest db c'.trace := hGood'.db
    have hCount :=
      hSince.2 (List.mem_singleton.mpr rfl)
    change activeAdmins c'.db = activeAdmins s₀ at hCount
    have hRow := hRefused.row
    change userById r.objectId c'.db = some target at hRow
    rw [hDb] at hRow hCount
    refine
      ⟨r, target, hBegun.trans (begunAs_spawned _), hRow,
        hRefused.version, hRefused.active, hRefused.overrun,
        ?_⟩
    rw [hCount]
    exact hFew
  intro actor target view log w c₁ hPatching hBegun₁ c₂ hGood₂
    hRely
  have hNow :=
    hPatching.kept hRules hRely.stable (fun _ hKey => hKey)
  have hValid : c₂.db.Valid := hGood₂.valid
  have hOutcome := hNow.outcome
  apply Contract.commits hGood₂
  · exact hOutcome.valid hValid
  · refine
      ⟨(begunAs_rely hRely).trans hBegun₁, hOutcome, ?_⟩
    intro target' hTarget' hActive hRemains
    have hSame : target' = target := by
      have hRow := hNow.checked.pair.target.row
      change userById r.objectId c₂.db = some target at hRow
      rw [hTarget'] at hRow
      exact Option.some.inj hRow
    subst hSame
    rcases hNow.checked.guard hActive hRemains with
      ⟨s₀, hCount, hSince⟩
    have hSame := hSince.2 (List.mem_singleton.mpr rfl)
    change activeAdmins c₂.db = activeAdmins s₀ at hSame
    rw [hSame]
    exact hCount
  · intro ks' hCompat
    refine
      ⟨hNow.rowsStable hValid hCompat (fun _ _ h => h), ?_⟩
    intro hKey
    exact
      absurd rfl
        (hCompat _ hNow.checked.advisory _ hKey)

/-
  Along a history of patches the accounts stay valid, and an
  administrator is lost with the first patch that overlooks
  the last one.
-/
theorem history_hasAdmin_iff
    {db : Accounts}
    (hValid : db.Valid)
    (hAdmin : HasAdmin db)
    {trace :
      List (Event accounts Accounts (PatchReply lax))}
    (hLinked : Audited (Event.Follows db) trace)
    (hAudited : Audited (patchEvent db) trace) :
    (latest db trace).Valid ∧
      ((∀ t ∈ states db trace, HasAdmin t) ↔
        ∀ c ∈ commits trace, ∀ reply,
          c.answer = some reply →
            ¬ (CoercedOff lax reply.request.body ∧
              SoleAdmin reply.request.objectId c.before)) := by
  induction trace with
  | nil =>
      refine ⟨hValid, ?_⟩
      constructor
      · intro _ c hc
        cases hc
      · intro _ t hMem
        rw [List.mem_singleton.mp hMem]
        exact hAdmin
  | cons e older ih =>
      have hOlder := ih hLinked.2 hAudited.2
      cases e with
      | committed pid log before after answer =>
          have hFollows : before = latest db older := hLinked.1
          have hEvent := hAudited.1
          cases answer with
          | none => cases hEvent
          | some reply =>
              rcases hEvent with ⟨-, hOutcome, hGuard⟩
              have hBefore : before.Valid := by
                rw [hFollows]
                exact hOlder.1
              refine ⟨hOutcome.valid hBefore, ?_⟩
              have hMem : before ∈ states db older := by
                rw [hFollows]
                exact latest_mem_states db older
              constructor
              · intro hAll c hc reply' hReply
                rcases List.mem_cons.mp hc with rfl | hOld
                · cases hReply
                  have hWas :=
                    hAll before (List.mem_cons_of_mem _ hMem)
                  exact
                    (hOutcome.hasAdmin_iff hBefore.users
                      hGuard hWas).mp
                      (hAll after List.mem_cons_self)
                · exact
                    hOlder.2.mp
                      (fun t ht =>
                        hAll t (List.mem_cons_of_mem _ ht))
                      c hOld reply' hReply
              · intro hNone
                have hWere :=
                  hOlder.2.mpr
                    (fun c hc =>
                      hNone c (List.mem_cons_of_mem _ hc))
                intro t hState
                rcases List.mem_cons.mp hState with rfl | hOld
                · exact
                    (hOutcome.hasAdmin_iff hBefore.users
                      hGuard (hWere before hMem)).mpr
                      (hNone _ List.mem_cons_self reply rfl)
                · exact hWere t hOld
      | _ => exact hOlder

/-
  Whether a patch was refused as one of the last administrator:
  it was not when it has come to its commit.
-/
def refused :
    Event accounts Accounts (PatchReply lax) → Option Bool
| .committed _ _ _ _ _ => some false
| .aborted _ (.lastAdmin _) => some true
| _ => none

/- A patch that commits would not have been refused. -/
theorem PatchOutcome.passed
    {r : PatchRequest lax}
    {authority : Authority}
    {before after : Accounts}
    (hOutcome : PatchOutcome r authority before after)
    (hKeyed : Keyed User.id before.users)
    (hGuard : GuardPassed r before)
    (hRemoves : RemovesLast r before) :
    CoercedOff lax r.body := by
  rcases hRemoves with ⟨hAdmin, target, hTarget, hGone⟩
  rcases hOutcome.changes with
    ⟨target', now, revoked, auditId, reqId, hTarget', -,
      hAfter, -⟩
  rw [hTarget] at hTarget'
  cases hTarget'
  have hLost : ¬ HasAdmin after := by
    rw [hAfter]
    exact hGone now revoked _
  rw [hOutcome.hasAdmin_iff hKeyed hGuard hAdmin] at hLost
  exact (not_not.mp hLost).1

/- The guard decides on what the lax parser does not coerce. -/
theorem refused_iff
    {db : Accounts}
    (hFalse : lax (.bool false) = some false)
    {pid : ℕ}
    {older : List (Event accounts Accounts (PatchReply lax))}
    {e : Event accounts Accounts (PatchReply lax)}
    {answer : Bool}
    (hKeyed : Keyed User.id (latest db older).users)
    (hFollows : Event.Follows db older e)
    (hEvent : patchEvent db older e)
    (hPid : e.pid = pid)
    (hRefused : refused e = some answer) :
    ∃ r : PatchRequest lax,
      begunAs pid older = some (patchProgram r) ∧
      (answer = true ↔
        RemovesLast r (latest db older) ∧
          ¬ CoercedOff lax r.body) := by
  cases e with
  | committed pid' log before after reply =>
      cases hPid
      cases hRefused
      cases reply with
      | none => cases hEvent
      | some reply =>
          rcases hEvent with ⟨hBegun, hOutcome, hGuard⟩
          have hBefore : before = latest db older := hFollows
          subst hBefore
          refine ⟨reply.request, hBegun, by simp, ?_⟩
          rintro ⟨hRemoves, hNot⟩
          exact
            absurd (hOutcome.passed hKeyed hGuard hRemoves) hNot
  | aborted pid' error =>
      cases hPid
      cases error with
      | lastAdmin message =>
          cases hRefused
          rcases hEvent with
            ⟨r, target, hBegun, hTarget, hVersion, hActive,
              hOverrun, hFew⟩
          refine ⟨r, hBegun, fun _ => ⟨?_, ?_⟩, fun _ => rfl⟩
          · exact
              removesLast_of_refused hFalse hKeyed hTarget
                hVersion hActive hOverrun hFew
          · exact not_coercedOff hOverrun
      | _ => cases hRefused
  | _ => cases hRefused

/-
  In every run of patches from accounts with an enabled
  administrator, every committed state has one if and only
  if no committed patch had a body that the lax parser
  coerces off while the guard does not see it, and the only
  enabled administrator as its target.  And where the lax
  parser leaves `false` alone, the guard refuses exactly the
  patches that would remove the last enabled administrator,
  except for such bodies.
-/
theorem last_admin_iff
    {db : Accounts}
    {env : W.Carrier}
    {s : Sys W Accounts (PatchReply lax)}
    (hValid : db.Valid)
    (hAdmin : HasAdmin db)
    (hReach :
      Reachable (patchPrograms lax) (Sys.initial db env) s) :
    ((∀ t ∈ states db s.trace, HasAdmin t) ↔
      ∀ c ∈ commits s.trace, ∀ reply,
        c.answer = some reply →
          ¬ (CoercedOff lax reply.request.body ∧
            SoleAdmin reply.request.objectId c.before)) ∧
    (lax (.bool false) = some false →
      ∀ newer e older answer,
        s.trace = newer ++ e :: older →
        refused e = some answer →
        ∃ r : PatchRequest lax,
          begunAs e.pid older = some (patchProgram r) ∧
          (answer = true ↔
            RemovesLast r (latest db older) ∧
              ¬ CoercedOff lax r.body)) := by
  have hGood : (patchContract W lax db).Good s.toConfig := by
    apply Contract.good_of_reachable _ hValid hReach
    rintro p ⟨r, rfl⟩
    exact patchProgram_keeps db r
  constructor
  · exact
      (history_hasAdmin_iff hValid hAdmin hGood.linked
        hGood.audited).2
  · intro hFalse newer e older answer hTrace hRefused
    have hAudited := hGood.audited
    have hLinked := hGood.linked
    rw [hTrace] at hAudited hLinked
    have hSuffix : older <:+ newer ++ e :: older :=
      (List.suffix_cons e older).trans
        (List.suffix_append _ _)
    have hKeyed :=
      (history_hasAdmin_iff hValid hAdmin
        (hLinked.of_suffix hSuffix)
        (hAudited.of_suffix hSuffix)).1.users
    exact
      refused_iff hFalse hKeyed hLinked.split.1
        hAudited.split.1 rfl hRefused

end Runs

end PigBook

------------------------------------------------------------
-- Two Runs
------------------------------------------------------------

namespace PigBook

open ReadCommitted

/- The lax parser of Booleans that the model uses. -/
def pydanticBool : Json → Option Bool
| .bool b => some b
| .int 0 => some false
| .int 1 => some true
| .float (some x) =>
    if x = 0 then some false
    else if x = 1 then some true
    else none
| .string text =>
    if text.toLower ∈ ["0", "off", "f", "false", "n", "no"]
    then
      some false
    else if text.toLower ∈
        ["1", "on", "t", "true", "y", "yes"] then
      some true
    else
      none
| _ => none

/- User 1 patches itself with `{"enabled": 0}`. -/
def coercedPatch : PatchRequest pydanticBool where
  principalId := 1
  objectId := 1
  expectedVersion := 1
  requestId := none
  body := [("enabled", .int 0)]
  data := { role := none, enabled := some false }
  admitted := rfl

/- The body that makes a user a member. -/
def memberBody : RequestBody :=
  [("role", .string "member")]

def memberPatch : UserPatch :=
  { role := some .member, enabled := none }

theorem memberBody_admitted :
    UserPatch.validate pydanticBool memberBody =
      .ok memberPatch :=
  rfl

/- User 1 demotes user 2. -/
def demotion : PatchRequest pydanticBool where
  principalId := 1
  objectId := 2
  expectedVersion := 1
  requestId := none
  body := memberBody
  data := memberPatch
  admitted := memberBody_admitted

/- User 1 demotes itself. -/
def selfDemotion : PatchRequest pydanticBool where
  principalId := 1
  objectId := 1
  expectedVersion := 1
  requestId := none
  body := memberBody
  data := memberPatch
  admitted := memberBody_admitted

/- One patch, run alone from the accounts of the users. -/
def patchRun
    (users : List User)
    (r : PatchRequest pydanticBool) :
    Sys accountsWorld Accounts (PatchReply pydanticBool) :=
  (Sys.initial (W := accountsWorld) (accountsOf users)
    ⟨0, 0⟩).exec Users.simulator [0]
    (.spawn 0 (patchProgram r) ::
      List.replicate 20 (.step 0))

theorem patchRun_reachable
    (users : List User)
    (r : PatchRequest pydanticBool) :
    Reachable (patchPrograms pydanticBool)
      (Sys.initial (W := accountsWorld) (accountsOf users)
        ⟨0, 0⟩)
      (patchRun users r) := by
  apply Sys.exec_reachable (fun _ _ => rfl)
  intro m hm
  exact Move.allowed_of_begun ⟨r, rfl⟩ hm

/- The last event is a refusal. -/
def lastRefused
    (trace :
      List (Event accounts Accounts
        (PatchReply pydanticBool))) : Bool :=
  trace.head?.any (fun e => refused e = some true)

/-
  After one of two administrators was demoted, one remains;
  and the only one is refused its own demotion.
-/
theorem last_admin_iff_demotion :
    (commits
        (patchRun [adminRow 1, adminRow 2]
          demotion).trace).length = 1 ∧
      (∀ t ∈ states (accountsOf [adminRow 1, adminRow 2])
          (patchRun [adminRow 1, adminRow 2] demotion).trace,
        HasAdmin t) ∧
      ∃ e older, ∃ r : PatchRequest pydanticBool,
        (patchRun [adminRow 1] selfDemotion).trace =
          e :: older ∧
        refused e = some true ∧
        begunAs e.pid older = some (patchProgram r) ∧
        RemovesLast r (latest (accountsOf [adminRow 1]) older) ∧
        ¬ CoercedOff pydanticBool r.body := by
  refine ⟨by decide +kernel, ?_, ?_⟩
  · apply
      (last_admin_iff (accountsOf_valid (by decide +kernel))
        (by decide +kernel) (patchRun_reachable _ _)).1.mpr
    have hBodies :
        (commits
            (patchRun [adminRow 1, adminRow 2]
              demotion).trace).all
          (fun c =>
            c.answer.all (fun reply =>
              (reply.request.body.lookup "enabled").isNone)) =
          true := by
      decide +kernel
    rintro c hc reply hReply ⟨⟨-, v, hBody, -⟩, -⟩
    have hNone := List.all_eq_true.mp hBodies c hc
    rw [hReply] at hNone
    simp [hBody] at hNone
  · have hLast :
        lastRefused
          (patchRun [adminRow 1] selfDemotion).trace =
            true := by
      decide +kernel
    rcases Option.any_eq_true .. |>.mp hLast with
      ⟨e, hHead, hRefused⟩
    have hRefused : refused e = some true :=
      of_decide_eq_true hRefused
    rcases List.head?_eq_some_iff.mp hHead with
      ⟨older, hTrace⟩
    rcases
      (last_admin_iff (accountsOf_valid (by decide +kernel))
        (by decide +kernel)
        (patchRun_reachable [adminRow 1] selfDemotion)).2 rfl
        [] e older true hTrace hRefused with
      ⟨r, hBegun, hExact⟩
    exact
      ⟨e, older, r, hTrace, hRefused, hBegun,
        hExact.mp rfl⟩

/-
  The only administrator is disabled by `{"enabled": 0}`,
  which the model admits and the guard lets pass.
-/
theorem last_admin_lost :
    ¬ ∀ (db : Accounts) (env : Outside)
        (s : Sys accountsWorld Accounts
          (PatchReply pydanticBool)),
        db.Valid → HasAdmin db →
        Reachable (patchPrograms pydanticBool)
          (Sys.initial db env) s →
        ∀ t ∈ states db s.trace, HasAdmin t := by
  intro hClaim
  have hAll :=
    hClaim (accountsOf [adminRow 1]) ⟨0, 0⟩
      (patchRun [adminRow 1] coercedPatch)
      (accountsOf_valid (by decide +kernel))
      (by decide +kernel) (patchRun_reachable _ _)
  have hLost :
      ¬ HasAdmin (latest (accountsOf [adminRow 1])
        (patchRun [adminRow 1] coercedPatch).trace) := by
    decide +kernel
  exact hLost (hAll _ (latest_mem_states _ _))

end PigBook
