import PigBook.Invitations.Registry
import PigBook.ReadCommitted.Attempts
import PigBook.ReadCommitted.Course
import PigBook.ReadCommitted.Schedule
import PigBook.Users.Surroundings

/-
  An invitation makes one user at most.

  Key definitions include:
    * `Registration`, `Creation`
    * `registryContract`
    * `RegistersFrom`

  Key theorems include:
    * `RegistryRequest.keeps`
    * `invitations_single_use`
-/

------------------------------------------------------------
-- What Transactions Do
------------------------------------------------------------

namespace PigBook.Invitations

open ReadCommitted

/- The clock that the request has read at its beginning. -/
def RequestedAt
    (log : List (Action registry))
    (now : ℤ) : Prop :=
  log.head? = some ⟨.now, now, []⟩

/-
  A registration: the unconsumed invitation `i` makes the
  user `u`, with its own address and role, and is consumed.
-/
structure Registration
    (X : RegistryPrimitives)
    (log : List (Action registry))
    (before after : Registry)
    (data : Register)
    (u : User)
    (i : Invitation) : Prop where
  row : i ∈ before.invitations
  token : i.tokenHash = X.sha256 data.invitationToken
  unconsumed : i.consumedAt = none
  requested : X.normalizeEmail data.email = .ok u.email
  invited : u.email = X.lower (X.strip i.email)
  role : u.role = i.role
  newEmail : ∀ u' ∈ before.users, u'.email ≠ u.email
  users : after.users = before.users ++ [u]
  consumed :
    ∃ now, RequestedAt log now ∧ now < i.expiresAt ∧
      after.invitations =
        updateWhere (fun x => x.id = i.id)
          (fun x => { x with consumedAt := some now })
          before.invitations
  audit :
    ∃ a : RegistryRecord, a.action = "auth.register" ∧
      a.targetId = some u.id ∧
      after.audit = before.audit ++ [a]

/- A new invitation, which nobody has used. -/
structure Creation
    (log : List (Action registry))
    (before after : Registry)
    (principalId : Uuid)
    (result : InvitationResult) : Prop where
  users : after.users = before.users
  invitations :
    ∃ i : Invitation, i.consumedAt = none ∧
      i.id = result.id ∧ i.email = result.email ∧
      i.role = result.role ∧
      i.expiresAt = result.expiresAt ∧
      (∀ i' ∈ before.invitations,
        i'.id ≠ i.id ∧ i'.tokenHash ≠ i.tokenHash) ∧
      after.invitations = before.invitations ++ [i]
  audit :
    ∃ a : RegistryRecord,
      a.action = "admin.invitation_create" ∧
      a.targetType = "invitation" ∧
      a.targetId = some result.id ∧
      a.actorId = some principalId ∧
      after.audit = before.audit ++ [a]

/- What a transaction has done when it answers. -/
def Done
    (X : RegistryPrimitives)
    (log : List (Action registry))
    (before after : Registry) :
    RegistryReply → Prop
| .registered data u =>
    ∃ i, Registration X log before after data u i
| .invited principalId result =>
    Creation log before after principalId result

/- What an event of a run is worth. -/
def registryEvent
    (X : RegistryPrimitives)
    (_older : List (Event registry Registry RegistryReply)) :
    Event registry Registry RegistryReply → Prop
| .committed _ log before after answer =>
    ∃ reply, answer = some reply ∧
      Done X log before after reply
| _ => True

/- The unique keys of the tables. -/
structure RegistryValid (s : Registry) : Prop where
  emails : Keyed User.email s.users
  ids : Keyed Invitation.id s.invitations
  hashes : Keyed Invitation.tokenHash s.invitations

/-
  What the holder of some keys may rely on: locked
  invitations stay as they are, and what is not there does
  not appear while its index entry is in flight.
-/
structure RegistryStable
    (ks : List RegistryKey)
    (s s' : Registry) : Prop where
  invitation :
    ∀ i ∈ s.invitations, .invitationUpdate i.id ∈ ks →
      i ∈ s'.invitations
  email :
    ∀ email, .usersEmail email ∈ ks →
      (∀ u ∈ s.users, u.email ≠ email) →
        ∀ u ∈ s'.users, u.email ≠ email
  id :
    ∀ id, .invitationsPkey id ∈ ks →
      (∀ i ∈ s.invitations, i.id ≠ id) →
        ∀ i ∈ s'.invitations, i.id ≠ id
  hash :
    ∀ hash, .invitationsTokenHash hash ∈ ks →
      (∀ i ∈ s.invitations, i.tokenHash ≠ hash) →
        ∀ i ∈ s'.invitations, i.tokenHash ≠ hash

theorem RegistryStable.refl
    (ks : List RegistryKey)
    (s : Registry) :
    RegistryStable ks s s where
  invitation := fun _ hRow _ => hRow
  email := fun _ _ hNone => hNone
  id := fun _ _ hNone => hNone
  hash := fun _ _ hNone => hNone

theorem RegistryStable.trans
    {ks : List RegistryKey}
    {s s' s'' : Registry}
    (hFirst : RegistryStable ks s s')
    (hSecond : RegistryStable ks s' s'') :
    RegistryStable ks s s'' where
  invitation := fun i hRow hKey =>
    hSecond.invitation i (hFirst.invitation i hRow hKey) hKey
  email := fun e hKey hNone =>
    hSecond.email e hKey (hFirst.email e hKey hNone)
  id := fun id hKey hNone =>
    hSecond.id id hKey (hFirst.id id hKey hNone)
  hash := fun hash hKey hNone =>
    hSecond.hash hash hKey (hFirst.hash hash hKey hNone)

def registryContract
    (W : World registry)
    (X : RegistryPrimitives)
    (db : Registry) :
    Contract W Registry RegistryReply where
  start := db
  later := fun _ _ => True
  valid := fun s _ => RegistryValid s
  stable := RegistryStable
  outcome := registryEvent X
  later_refl := fun _ => trivial
  later_trans := fun _ _ => trivial
  later_answers := fun _ => trivial
  later_advance := fun _ => trivial
  valid_later := fun _ hValid => hValid
  stable_refl := .refl
  stable_trans := .trans
  outcome_quiet := by
    intro older e hQuiet
    cases e with
    | committed pid log before after answer => cases hQuiet
    | _ => trivial

section Contract

variable {W : World registry} {X : RegistryPrimitives}
variable {db : Registry}

theorem registryContract_silent
    (q : RegistryQuery) :
    (registryContract W X db).rules.Silent
      (S := registry) q :=
  Contract.silent (fun _ _ _ _ => trivial)

theorem registryContract_lenient :
    (registryContract W X db).rules.Lenient :=
  Contract.lenient (fun _ _ _ => trivial)

end Contract

end PigBook.Invitations

------------------------------------------------------------
-- Committed Changes
------------------------------------------------------------

namespace PigBook.Invitations

open ReadCommitted

variable {X : RegistryPrimitives}
variable {log : List (Action registry)}
variable {before after : Registry}

/- The update keeps the keys of the invitations. -/
theorem mem_consumed
    {i x : Invitation}
    {now : ℤ}
    {rows : List Invitation} :
    x ∈ updateWhere (fun x => x.id = i.id)
        (fun x => { x with consumedAt := some now }) rows ↔
      ∃ y ∈ rows,
        x = if y.id = i.id then
          { y with consumedAt := some now } else y := by
  unfold updateWhere
  rw [List.mem_map]
  constructor
  · rintro ⟨y, hRow, rfl⟩
    exact ⟨y, hRow, by simp⟩
  · rintro ⟨y, hRow, rfl⟩
    exact ⟨y, hRow, by simp⟩

theorem Registration.valid
    {data : Register}
    {u : User}
    {i : Invitation}
    (hValid : RegistryValid before)
    (hDone : Registration X log before after data u i) :
    RegistryValid after := by
  rcases hDone.consumed with ⟨now, -, -, hInvitations⟩
  constructor
  · rw [hDone.users]
    exact hValid.emails.append_singleton hDone.newEmail
  · rw [hInvitations]
    exact hValid.ids.updateWhere (fun _ _ _ => rfl)
  · rw [hInvitations]
    exact hValid.hashes.updateWhere (fun _ _ _ => rfl)

theorem Creation.valid
    {principalId : Uuid}
    {result : InvitationResult}
    (hValid : RegistryValid before)
    (hDone : Creation log before after principalId result) :
    RegistryValid after := by
  rcases hDone.invitations with
    ⟨i, -, -, -, -, -, hFresh, hInvitations⟩
  constructor
  · rw [hDone.users]
    exact hValid.emails
  · rw [hInvitations]
    exact
      hValid.ids.append_singleton
        (fun i' hRow => (hFresh i' hRow).1)
  · rw [hInvitations]
    exact
      hValid.hashes.append_singleton
        (fun i' hRow => (hFresh i' hRow).2)

/- Those who hold other keys see nothing of a registration. -/
theorem Registration.stable
    {data : Register}
    {u : User}
    {i : Invitation}
    {ks : List RegistryKey}
    (hDone : Registration X log before after data u i)
    (hInvitation : .invitationUpdate i.id ∉ ks)
    (hEmail : .usersEmail u.email ∉ ks) :
    RegistryStable ks before after := by
  rcases hDone.consumed with ⟨now, -, -, hInvitations⟩
  constructor
  · intro x hRow hKey
    rw [hInvitations]
    refine mem_consumed.mpr ⟨x, hRow, ?_⟩
    rw [if_neg]
    intro hId
    rw [hId] at hKey
    exact hInvitation hKey
  · intro email hKey hNone u' hRow hSame
    rw [hDone.users] at hRow
    rcases List.mem_append.mp hRow with hOld | hNew
    · exact hNone u' hOld hSame
    · rw [List.mem_singleton.mp hNew] at hSame
      rw [← hSame] at hKey
      exact hEmail hKey
  · intro id _ hNone x hRow
    rw [hInvitations] at hRow
    rcases mem_consumed.mp hRow with ⟨y, hOld, rfl⟩
    have hId := hNone y hOld
    split
    · exact hId
    · exact hId
  · intro hash _ hNone x hRow
    rw [hInvitations] at hRow
    rcases mem_consumed.mp hRow with ⟨y, hOld, rfl⟩
    have hHash := hNone y hOld
    split
    · exact hHash
    · exact hHash

end PigBook.Invitations

------------------------------------------------------------
-- Registrations Keep the Contract
------------------------------------------------------------

namespace PigBook.Invitations

open ReadCommitted

variable {W : World registry} {X : RegistryPrimitives}
variable {db : Registry} {pid : ℕ}

theorem userViolation_none
    {u : User}
    {s : Registry}
    (hNone : userViolation X u s = none) :
    ∀ u' ∈ s.users, u'.email ≠ u.email := by
  intro u' hRow hEmail
  unfold userViolation at hNone
  repeat' split at hNone
  all_goals try cases hNone
  rename_i hFree
  exact hFree ⟨u', hRow, hEmail⟩

/- The transaction has locked the invitation. -/
structure Locked
    (i : Invitation)
    (now : ℤ)
    (log : List (Action registry))
    (s : Registry) : Prop where
  row : i ∈ s.invitations
  key : .invitationUpdate i.id ∈ held log
  head : RequestedAt log now

/- The index entry of an address is in flight, for no user. -/
structure Reserved
    (email : String)
    (log : List (Action registry))
    (s : Registry) : Prop where
  key : .usersEmail email ∈ held log
  free : ∀ u ∈ s.users, u.email ≠ email

theorem RequestedAt.extend
    {log : List (Action registry)}
    {now : ℤ}
    (hHead : RequestedAt log now)
    (rest : List (Action registry)) :
    RequestedAt (log ++ rest) now := by
  unfold RequestedAt at *
  rw [List.head?_append, hHead]
  rfl

section Steps

variable {c c' : Config W Registry RegistryReply}
variable {log : List (Action registry)}
variable {act : Action registry}

theorem Locked.ran
    {i : Invitation}
    {now : ℤ}
    (hLocked : Locked i now log c.db)
    (hRan :
      (registryContract W X db).rules.Ran pid (held log) act c
        c') :
    Locked i now (log ++ [act]) c'.db where
  row :=
    (Contract.ran_stable hRan).invitation i hLocked.row
      hLocked.key
  key := by
    rw [held_append]
    exact List.mem_append_left _ hLocked.key
  head := hLocked.head.extend _

theorem Reserved.ran
    {email : String}
    (hReserved : Reserved email log c.db)
    (hRan :
      (registryContract W X db).rules.Ran pid (held log) act c
        c') :
    Reserved email (log ++ [act]) c'.db where
  key := by
    rw [held_append]
    exact List.mem_append_left _ hReserved.key
  free :=
    (Contract.ran_stable hRan).email email hReserved.key
      hReserved.free

/- The statement finds no user, and puts the entry there. -/
theorem Reserved.inserted
    {email : String}
    (_hRan :
      (registryContract W X db).rules.Ran pid (held log) act c
        c')
    (hKey : .usersEmail email ∈ act.keys)
    (hFree : ∀ u ∈ c'.db.users, u.email ≠ email) :
    Reserved email (log ++ [act]) c'.db where
  key := by
    rw [held_append, held_singleton]
    exact List.mem_append_right _ hKey
  free := hFree

end Steps

/- A commit that registers keeps the contract. -/
theorem Registration.finishes
    {c : Config W Registry RegistryReply}
    {log : List (Action registry)}
    {w : Registry → Registry}
    {data : Register}
    {u : User}
    {i : Invitation}
    {now : ℤ}
    (hLocked : Locked i now log c.db)
    (hReserved : Reserved u.email log c.db)
    (hDone :
      ∀ s : Registry, i ∈ s.invitations →
        (∀ u' ∈ s.users, u'.email ≠ u.email) →
          Registration X log s (w s) data u i) :
    (registryContract W X db).rules.Finishes pid
      (.registered data u) log w c := by
  intro c' hGood hRely
  have hStable : RegistryStable (held log) c.db c'.db :=
    hRely.stable
  have hRegistration :=
    hDone c'.db
      (hStable.invitation i hLocked.row hLocked.key)
      (hStable.email u.email hReserved.key hReserved.free)
  refine
    Contract.commits hGood
      (hRegistration.valid hGood.valid) ?_ ?_
  · exact ⟨_, rfl, i, hRegistration⟩
  · intro ks' hCompat
    apply hRegistration.stable
    · intro hKey
      exact hCompat _ hLocked.key _ hKey rfl
    · intro hKey
      exact hCompat _ hReserved.key _ hKey rfl

theorem admitUser_rwp
    {c : Config W Registry RegistryReply}
    {log : List (Action registry)}
    {i : Invitation}
    {data : Register}
    {normEmail : String}
    {requestId : Uuid}
    {now : ℤ}
    (hLocked : Locked i now log c.db)
    (hToken : i.tokenHash = X.sha256 data.invitationToken)
    (hUnconsumed : i.consumedAt = none)
    (hEarly : now < i.expiresAt)
    (hRequested : X.normalizeEmail data.email = .ok normEmail)
    (hInvited : X.lower (X.strip i.email) = normEmail) :
    (admitUser X i data normEmail requestId now).rwp
      (registryContract W X db).rules pid
      (fun u =>
        (registryContract W X db).rules.Finishes pid
          (.registered data u))
      log id c := by
  unfold admitUser
  simp only [Prog.bind_eq, Prog.rwp_bind]
  refine
    Prog.rwp_select_of_silent (registryContract_silent _) ?_
  intro _ c₁ hRan₁
  have hLocked₁ := hLocked.ran hRan₁
  split
  · exact Prog.rwp_fail_of_lenient registryContract_lenient _
  simp only [Prog.rwp_bind]
  refine Prog.rwp_ask_of_silent (registryContract_silent _) ?_
  intro pwdHash c₂ hRan₂
  have hLocked₂ := hLocked₁.ran hRan₂
  refine Prog.rwp_ask_of_silent (registryContract_silent _) ?_
  intro userId c₃ hRan₃
  have hLocked₃ := hLocked₂.ran hRan₃
  refine
    Prog.rwp_stmt_of_silent (registryContract_silent _) ?_
  intro _ c₄ hRan₄
  have hLocked₄ := hLocked₃.ran hRan₄
  cases hCase :
      userViolation X
        (newUser X i data normEmail pwdHash userId now) c₄.db with
  | some constraint =>
      simp only [id_eq, hCase, Prog.rwp_done]
      exact
        Prog.rwp_fail_of_lenient registryContract_lenient _
  | none =>
      have hReserved₄ :=
        Reserved.inserted hRan₄ (by simp [newUser])
          (userViolation_none hCase)
      simp only [id_eq, hCase, if_true, Prog.rwp_done,
        Prog.rwp_bind]
      refine
        Prog.rwp_stmt_of_silent (registryContract_silent _) ?_
      intro _ c₅ hRan₅
      have hLocked₅ := hLocked₄.ran hRan₅
      have hReserved₅ := hReserved₄.ran hRan₅
      simp only [Prog.rwp_done]
      unfold appendAuditLog
      simp only [Prog.bind_eq, Prog.rwp_bind]
      refine
        Prog.rwp_ask_of_silent (registryContract_silent _) ?_
      intro auditId c₆ hRan₆
      have hLocked₆ := hLocked₅.ran hRan₆
      have hReserved₆ := hReserved₅.ran hRan₆
      refine
        Prog.rwp_stmt_of_silent (registryContract_silent _) ?_
      intro _ c₇ hRan₇
      split
      · exact
          Prog.rwp_fail_of_lenient registryContract_lenient _
      simp only [Prog.rwp_done, Prog.pure_eq_done]
      have hLocked₇ := hLocked₆.ran hRan₇
      refine
        Registration.finishes hLocked₇
          (hReserved₆.ran hRan₇) ?_
      intro s hRow hFree
      exact {
        row := hRow
        token := hToken
        unconsumed := hUnconsumed
        requested := hRequested
        invited := hInvited.symm
        role := rfl
        newEmail := hFree
        users := rfl
        consumed := ⟨now, hLocked₇.head, hEarly, rfl⟩
        audit := ⟨_, rfl, rfl, rfl⟩
      }

end PigBook.Invitations

namespace PigBook.Invitations

open ReadCommitted

variable {W : World registry} {X : RegistryPrimitives}
variable {db : Registry} {pid : ℕ}

theorem invitationByHash_mem
    {hash : String}
    {i : Invitation}
    {s : Registry}
    (hFound : invitationByHash hash s = some i) :
    i ∈ s.invitations ∧ i.tokenHash = hash := by
  unfold invitationByHash at hFound
  refine ⟨List.mem_of_find?_eq_some hFound, ?_⟩
  simpa using List.find?_some hFound

theorem register_rwp
    {c : Config W Registry RegistryReply}
    {log : List (Action registry)}
    {data : Register}
    {requestId : Uuid}
    {now : ℤ}
    (hHead : RequestedAt log now) :
    (register X data requestId now).rwp
      (registryContract W X db).rules pid
      (fun u =>
        (registryContract W X db).rules.Finishes pid
          (.registered data u))
      log id c := by
  unfold register
  cases hRequested : X.normalizeEmail data.email with
  | error message =>
      exact
        Prog.rwp_fail_of_lenient registryContract_lenient _
  | ok normEmail =>
      simp only [Prog.bind_eq, Prog.rwp_bind]
      refine
        Prog.rwp_select_of_silent
          (registryContract_silent _) ?_
      intro a c₁ hRan
      cases hFound :
          invitationByHash (X.sha256 data.invitationToken)
            c₁.db with
      | none =>
          simp only [id_eq, hFound]
          exact
            Prog.rwp_fail_of_lenient registryContract_lenient _
      | some i =>
          have hRow := invitationByHash_mem hFound
          simp only [id_eq, hFound]
          split
          · exact
              Prog.rwp_fail_of_lenient registryContract_lenient
                _
          rename_i hConsumed
          split
          · exact
              Prog.rwp_fail_of_lenient registryContract_lenient
                _
          rename_i hExpired
          split
          · exact
              Prog.rwp_fail_of_lenient registryContract_lenient
                _
          rename_i hInvited
          refine
            admitUser_rwp ?_ hRow.2 ?_ (by omega) hRequested
              (not_not.mp hInvited)
          · exact {
              row := hRow.1
              key := by
                rw [held_append, held_singleton]
                apply List.mem_append_right
                refine List.mem_map.mpr ⟨i, ?_, rfl⟩
                exact
                  List.mem_filter.mpr
                    ⟨hRow.1, by simpa using hRow.2⟩
              head := hHead.extend _
            }
          · simpa using hConsumed

/- The identifier and the hash of an invitation in flight. -/
structure Drafted
    (i : Invitation)
    (log : List (Action registry))
    (s : Registry) : Prop where
  idKey : .invitationsPkey i.id ∈ held log
  hashKey : .invitationsTokenHash i.tokenHash ∈ held log
  freshId : ∀ i' ∈ s.invitations, i'.id ≠ i.id
  freshHash :
    ∀ i' ∈ s.invitations, i'.tokenHash ≠ i.tokenHash

theorem Drafted.ran
    {c c' : Config W Registry RegistryReply}
    {log : List (Action registry)}
    {act : Action registry}
    {i : Invitation}
    (hDrafted : Drafted i log c.db)
    (hRan :
      (registryContract W X db).rules.Ran pid (held log) act c
        c') :
    Drafted i (log ++ [act]) c'.db where
  idKey := by
    rw [held_append]
    exact List.mem_append_left _ hDrafted.idKey
  hashKey := by
    rw [held_append]
    exact List.mem_append_left _ hDrafted.hashKey
  freshId :=
    (Contract.ran_stable hRan).id _ hDrafted.idKey
      hDrafted.freshId
  freshHash :=
    (Contract.ran_stable hRan).hash _ hDrafted.hashKey
      hDrafted.freshHash

/- The statement puts the entries there. -/
theorem Drafted.inserted
    {c c' : Config W Registry RegistryReply}
    {log : List (Action registry)}
    {act : Action registry}
    {i : Invitation}
    (_hRan :
      (registryContract W X db).rules.Ran pid (held log) act c
        c')
    (hId : .invitationsPkey i.id ∈ act.keys)
    (hHash : .invitationsTokenHash i.tokenHash ∈ act.keys)
    (hFresh :
      (∀ i' ∈ c'.db.invitations, i'.id ≠ i.id) ∧
        ∀ i' ∈ c'.db.invitations,
          i'.tokenHash ≠ i.tokenHash) :
    Drafted i (log ++ [act]) c'.db where
  idKey := by
    rw [held_append, held_singleton]
    exact List.mem_append_right _ hId
  hashKey := by
    rw [held_append, held_singleton]
    exact List.mem_append_right _ hHash
  freshId := hFresh.1
  freshHash := hFresh.2

theorem invitationViolation_none
    {i : Invitation}
    {s : Registry}
    (hNone : invitationViolation X i s = none) :
    (∀ i' ∈ s.invitations, i'.id ≠ i.id) ∧
      ∀ i' ∈ s.invitations, i'.tokenHash ≠ i.tokenHash := by
  unfold invitationViolation at hNone
  repeat' split at hNone
  all_goals try cases hNone
  rename_i hId hHash _
  exact
    ⟨fun i' hRow hSame => hId ⟨i', hRow, hSame⟩,
      fun i' hRow hSame => hHash ⟨i', hRow, hSame⟩⟩

/- Those who hold other keys do not miss a new invitation. -/
theorem Creation.stable
    {log : List (Action registry)}
    {before after : Registry}
    {principalId : Uuid}
    {result : InvitationResult}
    {i : Invitation}
    {ks : List RegistryKey}
    (hDone : Creation log before after principalId result)
    (hInvitations :
      after.invitations = before.invitations ++ [i])
    (hId : .invitationsPkey i.id ∉ ks)
    (hHash : .invitationsTokenHash i.tokenHash ∉ ks) :
    RegistryStable ks before after := by
  constructor
  · intro x hRow _
    rw [hInvitations]
    exact List.mem_append_left _ hRow
  · intro email _ hNone
    rw [hDone.users]
    exact hNone
  · intro id hKey hNone x hRow hSame
    rw [hInvitations] at hRow
    rcases List.mem_append.mp hRow with hOld | hNew
    · exact hNone x hOld hSame
    · rw [List.mem_singleton.mp hNew] at hSame
      rw [← hSame] at hKey
      exact hId hKey
  · intro hash hKey hNone x hRow hSame
    rw [hInvitations] at hRow
    rcases List.mem_append.mp hRow with hOld | hNew
    · exact hNone x hOld hSame
    · rw [List.mem_singleton.mp hNew] at hSame
      rw [← hSame] at hKey
      exact hHash hKey

/- A commit that invites keeps the contract. -/
theorem Creation.finishes
    {c : Config W Registry RegistryReply}
    {log : List (Action registry)}
    {w : Registry → Registry}
    {principalId : Uuid}
    {result : InvitationResult}
    {i : Invitation}
    (hDrafted : Drafted i log c.db)
    (hWrite :
      ∀ s, (w s).invitations = s.invitations ++ [i])
    (hDone :
      ∀ s : Registry,
        (∀ i' ∈ s.invitations,
          i'.id ≠ i.id ∧ i'.tokenHash ≠ i.tokenHash) →
          Creation log s (w s) principalId result) :
    (registryContract W X db).rules.Finishes pid
      (.invited principalId result) log w c := by
  intro c' hGood hRely
  have hStable : RegistryStable (held log) c.db c'.db :=
    hRely.stable
  have hId :=
    hStable.id _ hDrafted.idKey hDrafted.freshId
  have hHash :=
    hStable.hash _ hDrafted.hashKey hDrafted.freshHash
  have hCreation :=
    hDone c'.db (fun i' hRow => ⟨hId i' hRow, hHash i' hRow⟩)
  refine
    Contract.commits hGood (hCreation.valid hGood.valid)
      ⟨_, rfl, hCreation⟩ ?_
  intro ks' hCompat
  apply hCreation.stable (hWrite c'.db)
  · intro hKey
    exact hCompat _ hDrafted.idKey _ hKey rfl
  · intro hKey
    exact hCompat _ hDrafted.hashKey _ hKey rfl

theorem createInvitation_rwp
    {c : Config W Registry RegistryReply}
    {log : List (Action registry)}
    {appOrigin : String}
    {principalId : Uuid}
    {data : InviteCreate}
    {requestId : Uuid}
    {now : ℤ} :
    (createInvitation X appOrigin principalId data requestId
        now).rwp
      (registryContract W X db).rules pid
      (fun result =>
        (registryContract W X db).rules.Finishes pid
          (.invited principalId result))
      log id c := by
  unfold createInvitation
  cases hRequested : X.normalizeEmail data.email with
  | error message =>
      exact
        Prog.rwp_fail_of_lenient registryContract_lenient _
  | ok normEmail =>
      simp only [Prog.bind_eq, Prog.rwp_bind]
      refine
        Prog.rwp_select_of_silent
          (registryContract_silent _) ?_
      intro _ c₁ _
      split
      · exact
          Prog.rwp_fail_of_lenient registryContract_lenient _
      simp only [Prog.rwp_bind]
      refine
        Prog.rwp_ask_of_silent (registryContract_silent _) ?_
      intro rawToken c₂ _
      refine
        Prog.rwp_ask_of_silent (registryContract_silent _) ?_
      intro invitationId c₃ _
      refine
        Prog.rwp_stmt_of_silent (registryContract_silent _) ?_
      intro _ c₄ hRan₄
      split
      · exact
          Prog.rwp_fail_of_lenient registryContract_lenient _
      rename_i hNone
      have hFresh := invitationViolation_none hNone
      have hDrafted₄ :=
        Drafted.inserted hRan₄ List.mem_cons_self
          (List.mem_cons_of_mem _ List.mem_cons_self)
          hFresh
      simp only [Prog.rwp_done]
      unfold appendAuditLog
      simp only [Prog.bind_eq, Prog.rwp_bind]
      refine
        Prog.rwp_ask_of_silent (registryContract_silent _) ?_
      intro auditId c₅ hRan₅
      have hDrafted₅ := hDrafted₄.ran hRan₅
      refine
        Prog.rwp_stmt_of_silent (registryContract_silent _) ?_
      intro _ c₆ hRan₆
      split
      · exact
          Prog.rwp_fail_of_lenient registryContract_lenient _
      simp only [Prog.rwp_done, Prog.pure_eq_done]
      refine
        Creation.finishes (hDrafted₅.ran hRan₆)
          (fun _ => rfl) ?_
      intro s hUnused
      exact {
        users := rfl
        invitations :=
          ⟨_, rfl, rfl, rfl, rfl, rfl, hUnused, rfl⟩
        audit := ⟨_, rfl, rfl, rfl, rfl, rfl⟩
      }

/- Every request keeps the contract. -/
theorem RegistryRequest.keeps
    {appOrigin : String}
    (request : RegistryRequest) :
    (registryContract W X db).rules.Keeps
      (request.program X appOrigin) := by
  intro pid c _
  cases request with
  | register data requestId =>
      unfold RegistryRequest.program
      simp only [Prog.bind_eq, Prog.rwp_bind]
      refine
        Prog.rwp_ask_of_silent (registryContract_silent _) ?_
      intro now c₁ _
      exact register_rwp rfl
  | createInvitation principalId data requestId =>
      unfold RegistryRequest.program
      simp only [Prog.bind_eq, Prog.rwp_bind]
      refine
        Prog.rwp_ask_of_silent (registryContract_silent _) ?_
      intro now c₁ _
      exact createInvitation_rwp

end PigBook.Invitations

------------------------------------------------------------
-- Single Use
------------------------------------------------------------

namespace PigBook.Invitations

open ReadCommitted

variable {X : RegistryPrimitives}
variable {db : Registry}

/- The commit makes a user of the invitation. -/
def RegistersFrom
    (X : RegistryPrimitives)
    (id : Uuid)
    (c : Commit registry Registry RegistryReply) : Prop :=
  ∃ data u i, c.answer = some (.registered data u) ∧
    i.id = id ∧ Registration X c.log c.before c.after data u i

/- The user that a commit answers with, if it makes one. -/
def newUser?
    (c : Commit registry Registry RegistryReply) :
    Option User :=
  match c.answer with
  | some (.registered _ u) => some u
  | _ => none

/- The invitation was used up before the run. -/
def UsedBefore (id : Uuid) (db : Registry) : Prop :=
  ∃ i ∈ db.invitations, i.id = id ∧ i.consumedAt.isSome

/-
  What the commits so far say about the store `s`: which
  invitations are used, and which users there are.
-/
structure UsedOnce
    (X : RegistryPrimitives)
    (db : Registry)
    (done : List (Commit registry Registry RegistryReply))
    (s : Registry) : Prop where
  valid : RegistryValid s
  users :
    s.users = db.users ++ done.reverse.filterMap newUser?
  once :
    ∀ id, done.Pairwise (fun c c' =>
      ¬ (RegistersFrom X id c ∧ RegistersFrom X id c'))
  consumed :
    ∀ i ∈ s.invitations,
      (i.consumedAt.isSome ↔
        UsedBefore i.id db ∨
          ∃ c ∈ done, RegistersFrom X i.id c)
  known :
    ∀ id,
      (UsedBefore id db ∨ ∃ c ∈ done, RegistersFrom X id c) →
        ∃ i ∈ s.invitations, i.id = id

theorem UsedOnce.initial
    (hValid : RegistryValid db) :
    UsedOnce X db [] db where
  valid := hValid
  users := (List.append_nil _).symm
  once := fun _ => .nil
  consumed := by
    intro i hRow
    constructor
    · intro hConsumed
      exact Or.inl ⟨i, hRow, rfl, hConsumed⟩
    · rintro (⟨j, hMem, hId, hConsumed⟩ | ⟨c, hc, -⟩)
      · rw [← hValid.ids.eq_of_key hMem hRow hId]
        exact hConsumed
      · cases hc
  known := by
    rintro id (⟨j, hMem, hId, -⟩ | ⟨c, hc, -⟩)
    · exact ⟨j, hMem, hId⟩
    · cases hc

section Step

variable {done : List (Commit registry Registry RegistryReply)}
variable {log : List (Action registry)}
variable {before after : Registry}

/- Only the invitation of the answer is used by a commit. -/
theorem RegistersFrom.unique
    {data : Register}
    {u : User}
    {i : Invitation}
    {id : Uuid}
    (hValid : RegistryValid before)
    (hDone : Registration X log before after data u i)
    (hFrom :
      RegistersFrom X id
        ⟨log, before, after, some (.registered data u)⟩) :
    id = i.id := by
  rcases hFrom with ⟨data', u', i', hAnswer, rfl, hOther⟩
  cases hAnswer
  have hSame :=
    hValid.hashes.eq_of_key hOther.row hDone.row
      (hOther.token.trans hDone.token.symm)
  rw [hSame]

/- A registration uses up its invitation, and no other. -/
theorem UsedOnce.registered
    {data : Register}
    {u : User}
    {i : Invitation}
    (hUsed : UsedOnce X db done before)
    (hDone : Registration X log before after data u i) :
    UsedOnce X db
      (⟨log, before, after, some (.registered data u)⟩ ::
        done)
      after := by
  have hFrom :
      RegistersFrom X i.id
        ⟨log, before, after, some (.registered data u)⟩ :=
    ⟨data, u, i, rfl, rfl, hDone⟩
  have hNever :
      ¬ (UsedBefore i.id db ∨
        ∃ c ∈ done, RegistersFrom X i.id c) := by
    rw [← hUsed.consumed i hDone.row, hDone.unconsumed]
    simp
  have hInvitations := hDone.consumed
  rcases hInvitations with ⟨now, -, -, hInvitations⟩
  constructor
  · exact hDone.valid hUsed.valid
  · rw [hDone.users, hUsed.users]
    simp [newUser?]
  · intro id
    refine List.pairwise_cons.mpr ⟨?_, hUsed.once id⟩
    rintro c hc ⟨hNew, hOld⟩
    rw [RegistersFrom.unique hUsed.valid hDone hNew] at hOld
    exact hNever (Or.inr ⟨c, hc, hOld⟩)
  · intro x hRow
    rw [hInvitations] at hRow
    rcases mem_consumed.mp hRow with ⟨y, hOld, rfl⟩
    by_cases hId : y.id = i.id
    · rw [if_pos hId]
      constructor
      · intro _
        refine Or.inr ⟨_, List.mem_cons_self, ?_⟩
        rw [hId]
        exact hFrom
      · intro _
        rfl
    · rw [if_neg hId, hUsed.consumed y hOld]
      constructor
      · rintro (hStart | ⟨c, hc, hOther⟩)
        · exact Or.inl hStart
        · exact
            Or.inr ⟨c, List.mem_cons_of_mem _ hc, hOther⟩
      · rintro (hStart | ⟨c, hc, hOther⟩)
        · exact Or.inl hStart
        · rcases List.mem_cons.mp hc with rfl | hOlder
          · exact
              absurd
                (RegistersFrom.unique hUsed.valid hDone hOther)
                hId
          · exact Or.inr ⟨c, hOlder, hOther⟩
  · intro id hKnown
    have hRow : ∃ y ∈ before.invitations, y.id = id := by
      rcases hKnown with hStart | ⟨c, hc, hOther⟩
      · exact hUsed.known id (Or.inl hStart)
      · rcases List.mem_cons.mp hc with rfl | hOlder
        · rw [RegistersFrom.unique hUsed.valid hDone hOther]
          exact ⟨i, hDone.row, rfl⟩
        · exact hUsed.known id (Or.inr ⟨c, hOlder, hOther⟩)
    rcases hRow with ⟨y, hOld, hId⟩
    rw [hInvitations]
    refine ⟨_, mem_consumed.mpr ⟨y, hOld, rfl⟩, ?_⟩
    split
    · exact hId
    · exact hId

/- A new invitation is unused. -/
theorem UsedOnce.invited
    {principalId : Uuid}
    {result : InvitationResult}
    (hUsed : UsedOnce X db done before)
    (hDone : Creation log before after principalId result) :
    UsedOnce X db
      (⟨log, before, after,
        some (.invited principalId result)⟩ :: done)
      after := by
  have hNone :
      ∀ id, ¬ RegistersFrom X id
        ⟨log, before, after,
          some (.invited principalId result)⟩ := by
    rintro id ⟨data, u, i, hAnswer, -⟩
    cases hAnswer
  have hSame :
      ∀ id,
        (∃ c ∈ (⟨log, before, after,
            some (.invited principalId result)⟩ :: done),
          RegistersFrom X id c) ↔
        ∃ c ∈ done, RegistersFrom X id c := by
    intro id
    simp only [List.mem_cons, or_and_right, exists_or,
      exists_eq_left, hNone id, false_or]
  rcases hDone.invitations with
    ⟨i, hUnconsumed, -, -, -, -, hFresh, hInvitations⟩
  constructor
  · exact hDone.valid hUsed.valid
  · rw [hDone.users, hUsed.users]
    simp [newUser?]
  · intro id
    refine List.pairwise_cons.mpr ⟨?_, hUsed.once id⟩
    rintro c - ⟨hNew, -⟩
    exact hNone id hNew
  · intro x hRow
    rw [hSame]
    rw [hInvitations] at hRow
    rcases List.mem_append.mp hRow with hOld | hNew
    · exact hUsed.consumed x hOld
    · rw [List.mem_singleton.mp hNew, hUnconsumed]
      constructor
      · intro hConsumed
        cases hConsumed
      · intro hKnown
        rcases hUsed.known i.id hKnown with
          ⟨y, hOld, hId⟩
        exact absurd hId (hFresh y hOld).1
  · intro id hKnown
    rw [hSame] at hKnown
    rcases hUsed.known id hKnown with ⟨y, hOld, hId⟩
    rw [hInvitations]
    exact ⟨y, List.mem_append_left _ hOld, hId⟩

end Step

/- Along a history, invitations are used once. -/
theorem history_usedOnce
    (hValid : RegistryValid db)
    {trace : List (Event registry Registry RegistryReply)}
    (hLinked : Audited (Event.Follows db) trace)
    (hAudited : Audited (registryEvent X) trace) :
    UsedOnce X db (commits trace) (latest db trace) := by
  induction trace with
  | nil => exact .initial hValid
  | cons e older ih =>
      have hOlder := ih hLinked.2 hAudited.2
      cases e with
      | committed pid log before after answer =>
          have hFollows : before = latest db older := hLinked.1
          rw [← hFollows] at hOlder
          rcases hAudited.1 with ⟨reply, rfl, hDone⟩
          cases reply with
          | registered data u =>
              rcases hDone with ⟨i, hRegistration⟩
              exact hOlder.registered hRegistration
          | invited principalId result =>
              exact hOlder.invited hDone
      | _ => exact hOlder

end PigBook.Invitations

------------------------------------------------------------
-- One Transaction a Request
------------------------------------------------------------

namespace PigBook.Invitations

open ReadCommitted

variable {X : RegistryPrimitives}

theorem appendAuditLog_single
    {action targetType : String}
    {targetId actorId requestId : Uuid}
    {details : RegistryDetails}
    {now : ℤ} :
    (appendAuditLog action targetType targetId actorId
      requestId details now).Single := by
  refine Prog.Single.bind (fun _ _ => trivial) ?_
  intro auditId s _
  dsimp only
  split
  · trivial
  · trivial

theorem admitUser_single
    {i : Invitation}
    {data : Register}
    {normEmail : String}
    {requestId : Uuid}
    {now : ℤ} :
    (admitUser X i data normEmail requestId now).Single := by
  refine Prog.Single.bind (fun _ _ => trivial) ?_
  intro existing
  split
  · trivial
  refine Prog.Single.bind (fun _ _ => trivial) ?_
  intro pwdHash
  refine Prog.Single.bind (fun _ _ => trivial) ?_
  intro userId
  refine Prog.Single.bind (fun _ _ => trivial) ?_
  intro violation
  cases violation with
  | some constraint => trivial
  | none =>
      refine Prog.Single.bind (fun _ _ => trivial) ?_
      intro _
      exact
        Prog.Single.bind appendAuditLog_single
          (fun _ => trivial)

theorem register_single
    {data : Register}
    {requestId : Uuid}
    {now : ℤ} :
    (register X data requestId now).Single := by
  unfold register
  cases X.normalizeEmail data.email with
  | error message => trivial
  | ok normEmail =>
      refine Prog.Single.bind (fun _ _ => trivial) ?_
      intro found
      cases found with
      | none => trivial
      | some i =>
          dsimp only
          split
          · trivial
          split
          · trivial
          split
          · trivial
          · exact admitUser_single

theorem createInvitation_single
    {appOrigin : String}
    {principalId : Uuid}
    {data : InviteCreate}
    {requestId : Uuid}
    {now : ℤ} :
    (createInvitation X appOrigin principalId data requestId
      now).Single := by
  unfold createInvitation
  cases X.normalizeEmail data.email with
  | error message => trivial
  | ok normEmail =>
      refine Prog.Single.bind (fun _ _ => trivial) ?_
      intro existing
      split
      · trivial
      refine Prog.Single.bind (fun _ _ => trivial) ?_
      intro rawToken
      refine Prog.Single.bind (fun _ _ => trivial) ?_
      intro invitationId
      refine Prog.Single.bind ?_ ?_
      · intro s _
        dsimp only
        split
        · trivial
        · trivial
      · intro _
        exact
          Prog.Single.bind appendAuditLog_single
            (fun _ => trivial)

/- A request is one transaction. -/
theorem RegistryRequest.single
    {appOrigin : String}
    (request : RegistryRequest) :
    (request.program X appOrigin).Single := by
  cases request with
  | register data requestId =>
      refine Prog.Single.bind (fun _ _ => trivial) ?_
      intro now
      exact
        Prog.Single.bind register_single (fun _ => trivial)
  | createInvitation principalId data requestId =>
      refine Prog.Single.bind (fun _ _ => trivial) ?_
      intro now
      exact
        Prog.Single.bind createInvitation_single
          (fun _ => trivial)

end PigBook.Invitations

------------------------------------------------------------
-- Runs
------------------------------------------------------------

namespace PigBook

open ReadCommitted Invitations

/-
  In every run of registrations and invitations: no address
  is used twice, users are those of the start and those of
  the committed registrations, an invitation makes one user
  at most, and it is consumed if and only if it made one.
  Every commit is a registration with an unconsumed,
  unexpired invitation or a new invitation, and a request
  that ends otherwise has committed nothing.
-/
theorem invitations_single_use
    {W : World registry}
    {X : RegistryPrimitives}
    {appOrigin : String}
    {db : Registry}
    {env : W.Carrier}
    {s : Sys W Registry RegistryReply}
    (hValid : RegistryValid db)
    (hReach :
      Reachable (registryPrograms X appOrigin)
        (Sys.initial db env) s) :
    s.db.users.Pairwise (fun u u' => u.email ≠ u'.email) ∧
    s.db.users =
      db.users ++
        (commits s.trace).reverse.filterMap newUser? ∧
    (∀ id, (commits s.trace).Pairwise (fun c c' =>
      ¬ (RegistersFrom X id c ∧ RegistersFrom X id c'))) ∧
    (∀ i ∈ s.db.invitations,
      (i.consumedAt.isSome ↔
        UsedBefore i.id db ∨
          ∃ c ∈ commits s.trace, RegistersFrom X i.id c)) ∧
    (∀ c ∈ commits s.trace, ∃ reply,
      c.answer = some reply ∧
        Done X c.log c.before c.after reply) ∧
    s.db = latest db s.trace ∧
    Audited Event.Ending s.trace := by
  have hGood :
      (registryContract W X db).Good s.toConfig := by
    apply Contract.good_of_reachable _ hValid hReach
    rintro p ⟨request, rfl⟩
    exact request.keeps
  have hUsed :=
    history_usedOnce hValid hGood.linked hGood.audited
  have hLatest : s.db = latest db s.trace := hGood.db
  rw [← hLatest] at hUsed
  refine
    ⟨hUsed.valid.emails, hUsed.users, hUsed.once,
      hUsed.consumed, ?_, hLatest, ?_⟩
  · intro c hc
    rcases exists_of_mem_commits hc with
      ⟨newer, pid, older, hTrace⟩
    have hAudited : Audited (registryEvent X) s.trace :=
      hGood.audited
    rw [hTrace] at hAudited
    exact hAudited.split.1
  · apply hReach.all_or_nothing
    rintro p ⟨request, rfl⟩
    exact request.single

end PigBook

------------------------------------------------------------
-- A Race
------------------------------------------------------------

namespace PigBook.Invitations

open ReadCommitted

def registryWorld : World registry where
  Carrier := Outside
  answers := fun _ _ _ _ => True
  advance := fun _ _ => True

/- Values are drawn in turn. -/
def respond
    (env : Outside)
    (q : RegistryQuery) : q.Answer × Outside :=
  match q with
  | .plain => ((), env)
  | .now => (env.clock, env)
  | .uuid =>
      (Fin.ofNat (2 ^ 128) (env.drawn + 1), env.draw)
  | .tokenUrlsafe => (env.text, env.draw)
  | .passwordHash password =>
      (env.text ++ password, env.draw)

def simulator : Simulator registryWorld where
  respond := respond
  answers := fun _ _ => trivial
  pass := fun env : Outside =>
    { env with clock := env.clock + hours 1 }
  advance := fun _ => trivial

def plainRegistry : RegistryPrimitives :=
  { plainPrimitives with lowerBtrim := id }

def oneAdmin : Registry where
  users := [adminRow 1]
  invitations := []
  audit := []

def invitation : RegistryRequest :=
  .createInvitation 1 { email := "new", role := .member } 0

def registration : RegistryRequest :=
  .register {
    invitationToken := "drawn 0"
    email := "new"
    password := "long enough"
    displayName := "New"
  } 0

/- Two registrations race for one new invitation. -/
def race : Sys registryWorld Registry RegistryReply :=
  (Sys.initial (W := registryWorld) oneAdmin
    ⟨0, 0⟩).exec simulator [0, 1, 2]
    (.spawn 0 (invitation.program plainRegistry "") ::
      List.replicate 8 (.step 0) ++
      [.spawn 1 (registration.program plainRegistry ""),
        .spawn 2 (registration.program plainRegistry "")] ++
      (List.replicate 12 [.step 1, .step 2]).flatten)

theorem race_reachable :
    Reachable (registryPrograms plainRegistry "")
      (Sys.initial (W := registryWorld) oneAdmin ⟨0, 0⟩)
      race := by
  apply Sys.exec_reachable (fun _ _ => rfl)
  intro m hm
  simp only [List.mem_append, List.mem_cons,
    List.not_mem_nil, or_false, List.mem_flatten] at hm
  rcases hm with ((rfl | hStep) | rfl | rfl) | hRest
  · exact ⟨_, rfl⟩
  · rw [List.eq_of_mem_replicate hStep]
    trivial
  · exact ⟨_, rfl⟩
  · exact ⟨_, rfl⟩
  · rcases hRest with ⟨turn, hTurn, hm⟩
    rw [List.eq_of_mem_replicate hTurn] at hm
    simp only [List.mem_cons, List.not_mem_nil,
      or_false] at hm
    rcases hm with rfl | rfl
    · trivial
    · trivial

end PigBook.Invitations

namespace PigBook

open ReadCommitted Invitations

/- The invitation of the race is consumed, for one user. -/
theorem invitations_single_use_race :
    race.db.users.length = 2 ∧
      ∀ i ∈ race.db.invitations,
        UsedBefore i.id oneAdmin ∨
          ∃ c ∈ commits race.trace,
            RegistersFrom plainRegistry i.id c := by
  refine ⟨by decide +kernel, ?_⟩
  have hValid : RegistryValid oneAdmin := {
    emails := List.pairwise_singleton _ _
    ids := .nil
    hashes := .nil
  }
  have hConsumed :
      ∀ i ∈ race.db.invitations,
        i.consumedAt.isSome = true := by
    decide +kernel
  intro i hRow
  exact
    ((invitations_single_use hValid
      race_reachable).2.2.2.1 i hRow).mp (hConsumed i hRow)

end PigBook
