import PigBook.Users.Lineage
import PigBook.Users.Reuse
import PigBook.Users.Surroundings

/-
  Families of refresh tokens in every run.

  Key definitions include:
    * `familyOf`
    * `draws`
    * `RootedIn`
    * `FamiliesHold`
    * `ReuseEnds`

  Key theorems include:
    * `history_families`
    * `refresh_families`
-/

------------------------------------------------------------
-- Families in a Store
------------------------------------------------------------

namespace PigBook

open ReadCommitted

/- The tokens of a family, in the order of their insertion. -/
def familyOf
    (familyId : Uuid)
    (s : Accounts) : List RefreshToken :=
  s.tokens.filter (fun t => t.familyId = familyId)

theorem mem_familyOf
    {familyId : Uuid}
    {s : Accounts}
    {t : RefreshToken} :
    t ∈ familyOf familyId s ↔
      t ∈ s.tokens ∧ t.familyId = familyId := by
  simp [familyOf]

/- The identifier that a statement has drawn. -/
def drawnId
    {lax : Json → Option Bool} :
    FamilyEvent lax → Option Uuid
| .ran _ ⟨.uuid, id, _⟩ => some id
| _ => none

/- The identifiers drawn in a run, the latest first. -/
def draws
    {lax : Json → Option Bool}
    (trace : List (FamilyEvent lax)) : List Uuid :=
  trace.filterMap drawnId

/- Updates of single tokens act on each family alone. -/
theorem filter_updateWhere_later
    {p : RefreshToken → Bool}
    {f : RefreshToken → RefreshToken}
    (hLater : ∀ t : RefreshToken, t.Later (f t))
    (familyId : Uuid)
    (tokens : List RefreshToken) :
    (updateWhere p f tokens).filter
        (fun t => t.familyId = familyId) =
      updateWhere p f
        (tokens.filter (fun t => t.familyId = familyId)) := by
  unfold updateWhere
  rw [List.filter_map]
  congr 1
  apply List.filter_congr
  intro t hMem
  simp only [Function.comp]
  split
  · rw [(hLater t).familyId]
  · rfl

theorem later_revoked
    (now : ℤ)
    (t : RefreshToken) :
    t.Later { t with revokedAt := some now } :=
  ⟨rfl, fun h => h, fun _ => rfl⟩

theorem later_used
    (now : ℤ)
    (t : RefreshToken) :
    t.Later { t with usedAt := some now } :=
  ⟨rfl, fun _ => rfl, fun h => h⟩

/- Each token is found after an update of single tokens. -/
theorem later_updateWhere
    {p : RefreshToken → Bool}
    {f : RefreshToken → RefreshToken}
    {tokens : List RefreshToken}
    {t : RefreshToken}
    (hLater : ∀ t : RefreshToken, t.Later (f t))
    (hMem : t ∈ tokens) :
    ∃ t' ∈ updateWhere p f tokens, t.Later t' := by
  by_cases hCase : p t = true
  · exact
      ⟨f t, mem_updateWhere.mpr (Or.inl ⟨t, hMem, hCase, rfl⟩),
        hLater t⟩
  · exact
      ⟨t, mem_updateWhere.mpr
        (Or.inr ⟨hMem, by simpa using hCase⟩), .refl t⟩

end PigBook

------------------------------------------------------------
-- What Holds of Families
------------------------------------------------------------

namespace PigBook

open ReadCommitted

variable {lax : Json → Option Bool}

/-
  A login in the run has added the root of the family, and
  the family ends for the token when it does for the root:
  thirty days after the login.
-/
def RootedIn
    (trace : List (FamilyEvent lax))
    (t : RefreshToken) : Prop :=
  ∃ newer pid log before after result older root,
    trace =
      newer ++
        .committed pid log before after
          (some (.loggedIn result)) :: older ∧
    after = before.addToken root ∧
    root.parentId = none ∧
    root.familyId = t.familyId ∧
    root.familyExpiresAt = root.createdAt + days 30 ∧
    t.familyExpiresAt = root.familyExpiresAt

namespace RootedIn

variable {trace : List (FamilyEvent lax)}
variable {t t' : RefreshToken}

theorem event
    (hRooted : RootedIn trace t)
    (e : FamilyEvent lax) :
    RootedIn (e :: trace) t := by
  rcases hRooted with
    ⟨newer, pid, log, before, after, result, older, root,
      rfl, hRoot⟩
  exact
    ⟨e :: newer, pid, log, before, after, result, older, root,
      rfl, hRoot⟩

/- The tokens of a family have the same root. -/
theorem congr
    (hRooted : RootedIn trace t)
    (hFamily : t'.familyId = t.familyId)
    (hExpires : t'.familyExpiresAt = t.familyExpiresAt) :
    RootedIn trace t' := by
  rcases hRooted with
    ⟨newer, pid, log, before, after, result, older, root,
      hTrace, hAfter, hParent, hSame, hLength, hEnd⟩
  exact
    ⟨newer, pid, log, before, after, result, older, root,
      hTrace, hAfter, hParent, hSame.trans hFamily.symm,
      hLength, hExpires.trans hEnd⟩

end RootedIn

/-
  What holds of the families in a store that the events of
  `trace` have led to.  Each family was drawn by a client
  that has committed since, and it was begun by a login.
-/
structure FamiliesHold
    (trace : List (FamilyEvent lax))
    (s : Accounts) : Prop where
  valid : FamilyValid s
  lineage : ∀ familyId, Lineage (familyOf familyId s)
  bounded : ∀ t ∈ s.tokens, t.expiresAt ≤ t.familyExpiresAt
  whole :
    ∀ t ∈ s.tokens, ∀ t' ∈ s.tokens,
      t'.familyId = t.familyId → t.revokedAt.isSome →
        t'.revokedAt.isSome
  begun :
    ∀ t ∈ s.tokens, ∃ newer pid earlier,
      trace =
        newer ++ .ran pid ⟨.uuid, t.familyId, []⟩ :: earlier ∧
      ∃ e ∈ newer, e.pid = pid ∧ ∀ act, e ≠ .ran pid act
  rooted : ∀ t ∈ s.tokens, RootedIn trace t

namespace FamiliesHold

variable {trace older : List (FamilyEvent lax)}
variable {s before after : Accounts}

theorem keyed
    (hHold : FamiliesHold trace s)
    (familyId : Uuid) :
    Keyed RefreshToken.id (familyOf familyId s) :=
  List.Pairwise.filter _ hHold.valid.valid.tokens

/- Another event does not matter. -/
theorem event
    (hHold : FamiliesHold older s)
    (e : FamilyEvent lax) :
    FamiliesHold (e :: older) s where
  valid := hHold.valid
  lineage := hHold.lineage
  bounded := hHold.bounded
  whole := hHold.whole
  begun := by
    intro t hMem
    rcases hHold.begun t hMem with
      ⟨newer, pid, earlier, rfl, x, hx, hPid, hNot⟩
    exact
      ⟨e :: newer, pid, earlier, rfl, x,
        List.mem_cons_of_mem e hx, hPid, hNot⟩
  rooted := fun t hMem => (hHold.rooted t hMem).event e

/- A family is begun once. -/
theorem not_begun
    {pid : ℕ}
    {familyId : Uuid}
    {newer earlier : List (FamilyEvent lax)}
    (hHold : FamiliesHold older before)
    (hFresh : (draws older).Nodup)
    (hDrawn :
      older =
        newer ++ .ran pid ⟨.uuid, familyId, []⟩ :: earlier)
    (hOwn :
      ∀ e ∈ newer, e.pid = pid → ∃ act, e = .ran pid act) :
    ∀ t ∈ before.tokens, t.familyId ≠ familyId := by
  rintro t hMem rfl
  rcases hHold.begun t hMem with
    ⟨newer', pid', earlier', hDrawn', e, hEvent, hPid, hNot⟩
  have hSame := hDrawn
  rw [hDrawn'] at hSame
  unfold draws at hFresh
  rw [hDrawn'] at hFresh
  rcases
    split_unique (f := drawnId) (v := t.familyId) rfl rfl
      hFresh hSame with
    ⟨rfl, hEq, -⟩
  cases hEq
  rcases hOwn e hEvent hPid with ⟨act, hAct⟩
  exact hNot act hAct

theorem login
    {X : Primitives}
    {pid : ℕ}
    {log : List (Action accounts)}
    {result : TokenResult}
    (hHold : FamiliesHold older before)
    (hFresh : (draws older).Nodup)
    (hValid : FamilyValid after)
    (hOutcome : LoginOutcome X pid older before after) :
    FamiliesHold
      (.committed pid log before after
        (some (.loggedIn result)) :: older)
      after := by
  rcases hOutcome with
    ⟨root, rfl, hShape, newer, earlier, hDrawn, hOwn⟩
  have hNew :=
    hHold.not_begun hFresh hDrawn hOwn
  have hRoot :
      root.parentId = none ∧ root.revokedAt = none ∧
        root.expiresAt ≤ root.familyExpiresAt ∧
        root.familyExpiresAt = root.createdAt + days 30 := by
    rcases hShape with
      ⟨userId, tokenId, familyId, rawRefresh, now, rfl⟩
    refine ⟨rfl, rfl, ?_, rfl⟩
    change now + days 7 ≤ now + days 30
    unfold days hours minutes seconds
    omega
  constructor
  · exact hValid
  · intro familyId
    have hSplit :
        familyOf familyId (before.addToken root) =
          familyOf familyId before ++
            [root].filter (fun t => t.familyId = familyId) :=
      List.filter_append ..
    rw [hSplit]
    by_cases hSame : root.familyId = familyId
    · have hEmpty : familyOf familyId before = [] := by
        apply List.filter_eq_nil_iff.mpr
        intro t hMem
        rw [← hSame]
        simpa using hNew t hMem
      rw [hEmpty]
      simp only [hSame, decide_true, List.filter_cons_of_pos,
        List.filter_nil, List.nil_append]
      exact ⟨hRoot.1, .singleton _⟩
    · simp only [hSame, decide_false, Bool.false_eq_true,
        not_false_eq_true, List.filter_cons_of_neg,
        List.filter_nil, List.append_nil]
      exact hHold.lineage familyId
  · intro t hMem
    rcases List.mem_append.mp hMem with hOld | hHere
    · exact hHold.bounded t hOld
    · rw [List.mem_singleton.mp hHere]
      exact hRoot.2.2.1
  · intro t hMem t' hMem' hFamily hRevoked
    rcases List.mem_append.mp hMem with hOld | hHere
    · rcases List.mem_append.mp hMem' with hOld' | hHere'
      · exact hHold.whole t hOld t' hOld' hFamily hRevoked
      · rw [List.mem_singleton.mp hHere'] at hFamily
        exact absurd hFamily.symm (hNew t hOld)
    · rw [List.mem_singleton.mp hHere, hRoot.2.1] at hRevoked
      cases hRevoked
  · intro t hMem
    rcases List.mem_append.mp hMem with hOld | hHere
    · exact (hHold.event _).begun t hOld
    · rw [List.mem_singleton.mp hHere, hDrawn]
      exact
        ⟨_ :: newer, pid, earlier, rfl, _, List.mem_cons_self,
          rfl, fun act hEq => by cases hEq⟩
  · intro t hMem
    rcases List.mem_append.mp hMem with hOld | hHere
    · exact (hHold.rooted t hOld).event _
    · rw [List.mem_singleton.mp hHere]
      exact
        ⟨[], pid, log, before, _, result, older, root, rfl,
          rfl, hRoot.1, rfl, hRoot.2.2.2, rfl⟩

/- A rotation puts a child after the last token. -/
theorem rotation
    {X : Primitives}
    {db : Accounts}
    {pid : ℕ}
    {rawToken : String}
    {log : List (Action accounts)}
    {answer : Option (FamilyReply lax)}
    (hHold : FamiliesHold older before)
    (hValid : FamilyValid after)
    (hOutcome :
      RotationOutcome X db pid rawToken older before after) :
    FamiliesHold
      (.committed pid log before after answer :: older)
      after := by
  rcases hOutcome with
    ⟨parent, now, childId, childRaw, ks, earlier, -, -,
      hParent, hUnused, hUnrevoked, -, -, -, hTokens⟩
  -- where a token of the new table comes from
  have hCases :
      ∀ t ∈ after.tokens,
        (∃ t₀ ∈ before.tokens, t₀.Later t ∧
          (t.revokedAt.isSome → t₀.revokedAt.isSome)) ∨
        t = childToken X parent childId childRaw now := by
    intro t hMem
    rw [hTokens] at hMem
    rcases List.mem_append.mp hMem with hOld | hHere
    · rcases mem_updateWhere.mp hOld with
        ⟨t₀, hMem₀, -, rfl⟩ | ⟨hOld, -⟩
      · exact
          Or.inl ⟨t₀, hMem₀, later_used now t₀, fun h => h⟩
      · exact Or.inl ⟨t, hOld, .refl t, fun h => h⟩
    · exact Or.inr (List.mem_singleton.mp hHere)
  constructor
  · exact hValid
  · intro familyId
    have hSplit :
        familyOf familyId after =
          updateWhere (fun t => t.id = parent.id)
              (fun t => { t with usedAt := some now })
              (familyOf familyId before) ++
            [childToken X parent childId childRaw now].filter
              (fun t => t.familyId = familyId) := by
      unfold familyOf
      rw [hTokens, rotated, List.filter_append,
        filter_updateWhere_later (later_used now)]
    rw [hSplit]
    by_cases hSame : parent.familyId = familyId
    · have hMem : parent ∈ familyOf familyId before :=
        mem_familyOf.mpr ⟨hParent, hSame⟩
      have hOne :
          [childToken X parent childId childRaw now].filter
              (fun t => t.familyId = familyId) =
            [childToken X parent childId childRaw now] := by
        simp [childToken, hSame]
      rw [hOne]
      exact
        (hHold.lineage familyId).rotate (hHold.keyed familyId)
          hMem hUnused rfl rfl rfl
    · have hNone :
          [childToken X parent childId childRaw now].filter
              (fun t => t.familyId = familyId) = [] := by
        simp [childToken, hSame]
      rw [hNone, List.append_nil]
      exact
        (hHold.lineage familyId).updateWhere (later_used now)
  · intro t hMem
    rcases hCases t hMem with ⟨t₀, hMem₀, hLater, -⟩ | rfl
    · rw [hLater.expiresAt, hLater.familyExpiresAt]
      exact hHold.bounded t₀ hMem₀
    · exact min_le_right _ _
  · intro t hMem t' hMem' hFamily hRevoked
    rcases hCases t hMem with ⟨t₀, hMem₀, hLater, hWas⟩ | rfl
    · rcases hCases t' hMem' with
        ⟨t₀', hMem₀', hLater', -⟩ | rfl
      · rw [hLater.familyId, hLater'.familyId] at hFamily
        exact
          hLater'.revoked
            (hHold.whole t₀ hMem₀ t₀' hMem₀' hFamily
              (hWas hRevoked))
      · -- a family with a good token is not revoked
        rw [hLater.familyId] at hFamily
        have hParentRevoked :=
          hHold.whole t₀ hMem₀ parent hParent hFamily
            (hWas hRevoked)
        rw [hUnrevoked] at hParentRevoked
        cases hParentRevoked
    · cases hRevoked
  · intro t hMem
    rcases hCases t hMem with ⟨t₀, hMem₀, hLater, -⟩ | rfl
    · rw [hLater.familyId]
      exact (hHold.event _).begun t₀ hMem₀
    · exact (hHold.event _).begun parent hParent
  · intro t hMem
    rcases hCases t hMem with ⟨t₀, hMem₀, hLater, -⟩ | rfl
    · exact
        ((hHold.rooted t₀ hMem₀).congr hLater.familyId
          hLater.familyExpiresAt).event _
    · exact
        ((hHold.rooted parent hParent).congr rfl rfl).event _

/- Revocations that are complete for every family. -/
theorem revoked
    {ids : List Uuid}
    {now : ℤ}
    {e : FamilyEvent lax}
    (hHold : FamiliesHold older before)
    (hValid : FamilyValid after)
    (hTokens : after.tokens = revokeIds ids now before.tokens)
    (hComplete :
      ∀ t ∈ before.tokens, t.id ∈ ids →
        ∀ t' ∈ before.tokens, t'.familyId = t.familyId →
          t'.id ∈ ids ∨ t'.revokedAt.isSome) :
    FamiliesHold (e :: older) after := by
  have hCases :
      ∀ t ∈ after.tokens, ∃ t₀ ∈ before.tokens,
        t₀.Later t ∧
          (t₀.id ∈ ids → t.revokedAt.isSome) ∧
          (t.revokedAt.isSome →
            t₀.id ∈ ids ∨ t₀.revokedAt.isSome) := by
    intro t hMem
    rw [hTokens] at hMem
    rcases mem_revokeIds.mp hMem with
      ⟨t₀, hMem₀, hId, rfl⟩ | ⟨hOld, hOut⟩
    · exact
        ⟨t₀, hMem₀, later_revoked now t₀, fun _ => rfl,
          fun _ => Or.inl hId⟩
    · exact
        ⟨t, hOld, .refl t, fun hId => absurd hId hOut,
          Or.inr⟩
  constructor
  · exact hValid
  · intro familyId
    unfold familyOf
    rw [hTokens, revokeIds,
      filter_updateWhere_later (later_revoked now)]
    exact
      (hHold.lineage familyId).updateWhere (later_revoked now)
  · intro t hMem
    rcases hCases t hMem with ⟨t₀, hMem₀, hLater, -, -⟩
    rw [hLater.expiresAt, hLater.familyExpiresAt]
    exact hHold.bounded t₀ hMem₀
  · intro t hMem t' hMem' hFamily hRevoked
    rcases hCases t hMem with ⟨t₀, hMem₀, hLater, -, hWas⟩
    rcases hCases t' hMem' with
      ⟨t₀', hMem₀', hLater', hNow, -⟩
    rw [hLater.familyId, hLater'.familyId] at hFamily
    rcases hWas hRevoked with hId | hOld
    · rcases hComplete t₀ hMem₀ hId t₀' hMem₀' hFamily with
        hId' | hOld'
      · exact hNow hId'
      · exact hLater'.revoked hOld'
    · exact
        hLater'.revoked
          (hHold.whole t₀ hMem₀ t₀' hMem₀' hFamily hOld)
  · intro t hMem
    rcases hCases t hMem with ⟨t₀, hMem₀, hLater, -, -⟩
    rw [hLater.familyId]
    exact (hHold.event e).begun t₀ hMem₀
  · intro t hMem
    rcases hCases t hMem with ⟨t₀, hMem₀, hLater, -, -⟩
    exact
      ((hHold.rooted t₀ hMem₀).congr hLater.familyId
        hLater.familyExpiresAt).event e

/-
  The tokens that a revocation names are those of the family
  that are unrevoked when it commits.
-/
theorem revocation_complete
    {db : Accounts}
    {familyId : Uuid}
    {earlier : List (FamilyEvent lax)}
    (hHold : FamiliesHold older before)
    (hEarlier : FamiliesHold earlier (latest db earlier))
    (hLater :
      ∀ t ∈ (latest db earlier).tokens,
        ∃ t' ∈ before.tokens, t.Later t')
    (hSome :
      ∃ t ∈ (latest db earlier).tokens,
        t.familyId = familyId)
    (hJoined :
      ∀ t ∈ before.tokens, t.familyId = familyId →
        t.parentId.isSome →
          ∃ t₀ ∈ (latest db earlier).tokens, t₀.id = t.id)
    {t : RefreshToken}
    (hMem : t ∈ before.tokens)
    (hFamily : t.familyId = familyId) :
    t.id ∈ (unrevoked (fun t => t.familyId = familyId)
        (latest db earlier)).map (·.id) ∨
      t.revokedAt.isSome := by
  -- the token, or the root, was there before
  have hThere :
      ∃ t₀ ∈ (latest db earlier).tokens, t₀.id = t.id := by
    cases hParent : t.parentId with
    | some id =>
        exact hJoined t hMem hFamily (by rw [hParent]; rfl)
    | none =>
        rcases hSome with ⟨t₁, hMem₁, hFamily₁⟩
        rcases
          (hEarlier.lineage familyId).root
            (mem_familyOf.mpr ⟨hMem₁, hFamily₁⟩) with
          ⟨r, hRoot, hNone⟩
        rcases mem_familyOf.mp hRoot with ⟨hRow, hRowFamily⟩
        rcases hLater r hRow with ⟨r', hRow', hSame⟩
        have hEq :=
          (hHold.lineage familyId).child (hHold.keyed familyId)
            (mem_familyOf.mpr
              ⟨hRow', hSame.familyId.trans hRowFamily⟩)
            (mem_familyOf.mpr ⟨hMem, hFamily⟩)
            (by rw [hSame.parentId, hNone, hParent])
        exact ⟨r, hRow, by rw [← hEq, hSame.id]⟩
  rcases hThere with ⟨t₀, hMem₀, hId⟩
  rcases hLater t₀ hMem₀ with ⟨t', hMem', hSame⟩
  have hEq :=
    hHold.valid.valid.tokens.eq_of_key hMem' hMem
      (hSame.id.trans hId)
  subst hEq
  cases hRevoked : t₀.revokedAt with
  | some at' =>
      exact Or.inr (hSame.revoked (by rw [hRevoked]; rfl))
  | none =>
      left
      rw [← hId]
      apply
        List.mem_map_of_mem (f := fun t : RefreshToken => t.id)
      apply mem_unrevoked.mpr
      refine ⟨hMem₀, ?_, hRevoked⟩
      rw [← hSame.familyId]
      simpa using hFamily

theorem revocation
    {db : Accounts}
    {familyId : Uuid}
    {e : FamilyEvent lax}
    (hHold : FamiliesHold older before)
    (hAll :
      ∀ earlier, earlier <:+ older →
        FamiliesHold earlier (latest db earlier) ∧
          ∀ t ∈ (latest db earlier).tokens,
            ∃ t' ∈ before.tokens, t.Later t')
    (hValid : FamilyValid after)
    (hOutcome :
      FamilyRevocation db familyId older before after) :
    FamiliesHold (e :: older) after ∧
      ∀ t ∈ after.tokens, t.familyId = familyId →
        t.revokedAt.isSome := by
  rcases hOutcome with
    ⟨now, earlier, hSuffix, hSome, hJoined, -, hTokens⟩
  rcases hAll earlier hSuffix with ⟨hEarlier, hLater⟩
  have hComplete :=
    fun {t : RefreshToken} =>
      hHold.revocation_complete hEarlier hLater hSome hJoined
        (t := t)
  constructor
  · apply hHold.revoked hValid hTokens
    intro t hMem hId t' hMem' hFamily
    -- only tokens of the family are named
    rcases List.mem_map.mp hId with ⟨t₀, hSelected, hSame⟩
    rcases mem_unrevoked.mp hSelected with
      ⟨hMem₀, hFamily₀, -⟩
    rcases hLater t₀ hMem₀ with ⟨t₁, hMem₁, hLater₁⟩
    have hEq :=
      hHold.valid.valid.tokens.eq_of_key hMem₁ hMem
        (hLater₁.id.trans hSame)
    subst hEq
    apply hComplete hMem'
    rw [hFamily, hLater₁.familyId]
    simpa using hFamily₀
  · intro t hMem hFamily
    rw [hTokens] at hMem
    rcases mem_revokeIds.mp hMem with
      ⟨t₀, hMem₀, -, rfl⟩ | ⟨hOld, hOut⟩
    · rfl
    · rcases hComplete hOld hFamily with hId | hRevoked
      · exact absurd hId hOut
      · exact hRevoked

/- A patch revokes all tokens of a user, or none. -/
theorem patch
    {r : PatchRequest lax}
    {authority : Authority}
    {e : FamilyEvent lax}
    (hHold : FamiliesHold older before)
    (hValid : FamilyValid after)
    (hOutcome : PatchOutcome r authority before after) :
    FamiliesHold (e :: older) after := by
  rcases hOutcome.changes with
    ⟨target, now, revoked, auditId, reqId, -, -, hAfter,
      hSome, hNone⟩
  have hTokens :
      after.tokens = revokeIds revoked now before.tokens := by
    rw [hAfter]
    rfl
  apply hHold.revoked hValid hTokens
  intro t hMem hId t' hMem' hFamily
  by_cases hDisables : r.Disables target
  · rw [hSome hDisables] at hId ⊢
    have hKeyed := hHold.valid.valid.tokens
    have hUser := ((id_mem_unrevoked hKeyed hMem).mp hId).1
    -- a family has one user
    have hUser' : t'.userId = t.userId :=
      ((hHold.lineage t.familyId).same
        (mem_familyOf.mpr ⟨hMem', hFamily⟩)
        (mem_familyOf.mpr ⟨hMem, rfl⟩)).1
    cases hRevoked : t'.revokedAt with
    | some at' => exact Or.inr rfl
    | none =>
        left
        apply (id_mem_unrevoked hKeyed hMem').mpr
        refine ⟨?_, hRevoked⟩
        rw [hUser']
        exact hUser
  · rw [hNone hDisables] at hId
    cases hId

end FamiliesHold

end PigBook

------------------------------------------------------------
-- Families along a History
------------------------------------------------------------

namespace PigBook

open ReadCommitted

variable {lax : Json → Option Bool}

/- A commit keeps every token, as itself or later on. -/
theorem familyEvent_later
    {X : Primitives}
    {db : Accounts}
    {older : List (FamilyEvent lax)}
    {pid : ℕ}
    {log : List (Action accounts)}
    {before after : Accounts}
    {answer : Option (FamilyReply lax)}
    (hEvent :
      familyEvent X db older
        (.committed pid log before after answer)) :
    ∀ t ∈ before.tokens, ∃ t' ∈ after.tokens, t.Later t' := by
  intro t hMem
  have hRevocation :
      ∀ familyId,
        FamilyRevocation db familyId older before after →
          ∃ t' ∈ after.tokens, t.Later t' := by
    rintro familyId ⟨now, earlier, -, -, -, -, hTokens⟩
    rw [hTokens]
    exact later_updateWhere (later_revoked now) hMem
  rcases hEvent with ⟨-, hEvent⟩
  cases answer with
  | none =>
      rcases hEvent with ⟨familyId, hOutcome⟩
      exact hRevocation familyId hOutcome
  | some reply =>
      cases reply with
      | loggedIn result =>
          rcases hEvent with ⟨root, rfl, -⟩
          exact ⟨t, List.mem_append_left _ hMem, .refl t⟩
      | refreshed rawToken result =>
          rcases hEvent with
            ⟨parent, now, childId, childRaw, ks, earlier, -, -,
              -, -, -, -, -, -, hTokens⟩
          rcases later_updateWhere
              (p := fun t => t.id = parent.id)
              (later_used now) hMem with
            ⟨t', hMem', hLater⟩
          rw [hTokens]
          exact ⟨t', List.mem_append_left _ hMem', hLater⟩
      | loggedOut rawToken =>
          rcases hEvent with
            rfl | ⟨raw, familyId, -, -, hOutcome⟩
          · exact ⟨t, hMem, .refl t⟩
          · exact hRevocation familyId hOutcome
      | patched reply =>
          rcases hEvent.changes with
            ⟨target, now, revoked, auditId, reqId, -, -,
              rfl, -⟩
          exact later_updateWhere (later_revoked now) hMem

/- Each commit keeps what holds of the families. -/
theorem FamiliesHold.commit
    {X : Primitives}
    {db : Accounts}
    {older : List (FamilyEvent lax)}
    {pid : ℕ}
    {log : List (Action accounts)}
    {before after : Accounts}
    {answer : Option (FamilyReply lax)}
    (hHold : FamiliesHold older before)
    (hFresh : (draws older).Nodup)
    (hAll :
      ∀ earlier, earlier <:+ older →
        FamiliesHold earlier (latest db earlier) ∧
          ∀ t ∈ (latest db earlier).tokens,
            ∃ t' ∈ before.tokens, t.Later t')
    (hEvent :
      familyEvent X db older
        (.committed pid log before after answer)) :
    FamiliesHold
      (.committed pid log before after answer :: older)
      after := by
  rcases hEvent with ⟨hValid, hEvent⟩
  cases answer with
  | none =>
      rcases hEvent with ⟨familyId, hOutcome⟩
      exact (hHold.revocation hAll hValid hOutcome).1
  | some reply =>
      cases reply with
      | loggedIn result =>
          exact hHold.login hFresh hValid hEvent
      | refreshed rawToken result =>
          exact hHold.rotation hValid hEvent
      | loggedOut rawToken =>
          rcases hEvent with
            rfl | ⟨raw, familyId, -, -, hOutcome⟩
          · exact hHold.event _
          · exact (hHold.revocation hAll hValid hOutcome).1
      | patched reply => exact hHold.patch hValid hEvent

/- The families of every state of a history, and since. -/
theorem history_families
    {X : Primitives}
    {db : Accounts}
    (hValid : FamilyValid db)
    (hNone : db.tokens = [])
    {trace : List (FamilyEvent lax)}
    (hFresh : (draws trace).Nodup)
    (hLinked : Audited (Event.Follows db) trace)
    (hAudited : Audited (familyEvent X db) trace) :
    ∀ earlier, earlier <:+ trace →
      FamiliesHold earlier (latest db earlier) ∧
        ∀ t ∈ (latest db earlier).tokens,
          ∃ t' ∈ (latest db trace).tokens, t.Later t' := by
  induction trace with
  | nil =>
      intro earlier hSuffix
      rw [List.suffix_nil.mp hSuffix]
      have hEmpty : ∀ t : RefreshToken, t ∉ db.tokens := by
        intro t hMem
        rw [hNone] at hMem
        cases hMem
      constructor
      · exact {
          valid := hValid
          lineage := by
            intro familyId
            change
              Lineage
                (db.tokens.filter
                  (fun t => t.familyId = familyId))
            rw [hNone]
            trivial
          bounded := fun t hMem => absurd hMem (hEmpty t)
          whole := fun t hMem => absurd hMem (hEmpty t)
          begun := fun t hMem => absurd hMem (hEmpty t)
          rooted := fun t hMem => absurd hMem (hEmpty t)
        }
      · exact fun t hMem => absurd hMem (hEmpty t)
  | cons e older ih =>
      have hFreshOlder : (draws older).Nodup :=
        hFresh.sublist
          (List.Sublist.filterMap _
            (List.sublist_cons_self e older))
      have hOlder := ih hFreshOlder hLinked.2 hAudited.2
      have hHold := (hOlder older (List.suffix_refl older)).1
      -- what the new event does to the store
      have hNew :
          FamiliesHold (e :: older) (latest db (e :: older)) ∧
            ∀ t ∈ (latest db older).tokens,
              ∃ t' ∈ (latest db (e :: older)).tokens,
                t.Later t' := by
        cases e with
        | committed pid log before after answer =>
            have hFollows : before = latest db older :=
              hLinked.1
            subst hFollows
            exact
              ⟨hHold.commit hFreshOlder hOlder hAudited.1,
                familyEvent_later hAudited.1⟩
        | _ =>
            exact
              ⟨hHold.event _, fun t hMem => ⟨t, hMem, .refl t⟩⟩
      intro earlier hSuffix
      rcases List.suffix_cons_iff.mp hSuffix with rfl | hOld
      · exact ⟨hNew.1, fun t hMem => ⟨t, hMem, .refl t⟩⟩
      · refine ⟨(hOlder earlier hOld).1, ?_⟩
        intro t hMem
        rcases (hOlder earlier hOld).2 t hMem with
          ⟨t₁, hMem₁, hLater₁⟩
        rcases hNew.2 t₁ hMem₁ with ⟨t₂, hMem₂, hLater₂⟩
        exact ⟨t₂, hMem₂, hLater₁.trans hLater₂⟩

end PigBook

------------------------------------------------------------
-- Runs
------------------------------------------------------------

namespace PigBook

open ReadCommitted

/- The clients that touch refresh tokens. -/
def familyPrograms
    (X : Primitives)
    (settings : Settings)
    (lax : Json → Option Bool)
    (p : Prog accounts Accounts (FamilyReply lax)) : Prop :=
  ∃ request : FamilyRequest lax, p = request.program X settings

/- The family has tokens, and all of them are revoked. -/
def FamilyRevoked
    (familyId : Uuid)
    (s : Accounts) : Prop :=
  (∃ t ∈ s.tokens, t.familyId = familyId) ∧
    ∀ t ∈ s.tokens, t.familyId = familyId →
      t.revokedAt.isSome

/-
  How a client ends that has presented the used token `t`,
  unless it crashes:  with the answer 401 after a commit that
  has revoked the family, or with a clash in the audit log.
-/
def ReuseEnds
    {lax : Json → Option Bool}
    (db : Accounts)
    (t : RefreshToken)
    (earlier older : List (FamilyEvent lax)) :
    FamilyEvent lax → Prop
| .committed _ _ _ _ answer => answer = none
| .aborted pid error =>
    (error = Users.invalidRefresh ∧
      ∃ newer log before after middle,
        older =
          newer ++
            .committed pid log before after none :: middle ∧
        earlier <:+ middle ∧
        FamilyRevoked t.familyId after) ∨
    (error = .integrityError .auditLogPkey ∧
      AuditClash db pid older)
| _ => True

/-
  The answer 401 to a used token comes after a commit that
  has revoked the whole family.
-/
theorem reuse_revoked
    {X : Primitives}
    {lax : Json → Option Bool}
    {db : Accounts}
    {trace newer older earlier : List (FamilyEvent lax)}
    {pid : ℕ}
    {message tokenHash : String}
    {now : ℤ}
    {t : RefreshToken}
    (hStart : FamilyValid db)
    (hNone : db.tokens = [])
    (hLinked : Audited (Event.Follows db) trace)
    (hAudited : Audited (familyEvent X db) trace)
    (hFresh : (draws trace).Nodup)
    (hTrace :
      trace =
        newer ++
          .aborted pid (AccountError.invalidRefresh message) ::
            older)
    (hPresented :
      Presented db pid older tokenHash now earlier t)
    (hUsed : t.usedAt.isSome)
    (hLive : t.Live now) :
    ∃ newer' log before after middle,
      older =
        newer' ++
          .committed pid log before after none :: middle ∧
      earlier <:+ middle ∧
      FamilyRevoked t.familyId after := by
  rcases hPresented with ⟨ks, hLast, hFound⟩
  rcases hLive with ⟨hUnrevoked, hCurrent, hFamily⟩
  have hOlder := hAudited
  rw [hTrace] at hOlder
  rcases
    hOlder.split.1 tokenHash now ks earlier t hLast hFound
      hUsed hUnrevoked hCurrent hFamily with
    ⟨newer', log, before, after, middle, rfl, hSuffix,
      hRevocation⟩
  refine
    ⟨newer', log, before, after, middle, rfl, hSuffix, ?_⟩
  -- the history up to that commit
  have hCommit :
      .committed pid log before after none :: middle <:+
        trace := by
    rw [hTrace]
    exact
      List.IsSuffix.trans ⟨newer', rfl⟩
        ((List.suffix_cons _ _).trans ⟨newer, rfl⟩)
  have hMiddle := (List.suffix_cons _ middle).trans hCommit
  have hEvent := (hAudited.of_suffix hCommit).1
  have hFollows : before = latest db middle :=
    (hLinked.of_suffix hCommit).1
  subst hFollows
  have hFreshMiddle : (draws middle).Nodup :=
    hFresh.sublist (hMiddle.sublist.filterMap _)
  have hThen :=
    history_families hStart hNone hFreshMiddle
      (hLinked.of_suffix hMiddle)
      (hAudited.of_suffix hMiddle)
  have hHold := (hThen middle (List.suffix_refl _)).1
  have hRevoked :=
    (hHold.revocation (e := Event.crashed pid) hThen
      hEvent.1 hRevocation).2
  refine ⟨?_, hRevoked⟩
  rcases
    (hThen earlier hSuffix).2 t
      (tokenByHash_mem hFound).1 with
    ⟨t₁, hMem₁, hLater₁⟩
  rcases familyEvent_later hEvent t₁ hMem₁ with
    ⟨t₂, hMem₂, hLater₂⟩
  exact
    ⟨t₂, hMem₂, hLater₂.familyId.trans hLater₁.familyId⟩

/-
  A login, a refresh, and two refreshes with the token that
  the first one has given.
-/
def reusingRequests : List (FamilyRequest fun _ => none) :=
  [.login "admin 1" "", .refresh "drawn 1",
    .refresh "drawn 4", .refresh "drawn 4"]

/- They run one after another. -/
def reusingRun :
    Sys accountsWorld Accounts
      (FamilyReply fun _ => none) :=
  (Sys.initial (W := accountsWorld) (accountsOf [adminRow 1])
    ⟨0, 0⟩).exec Users.simulator [0, 1, 2, 3]
    (reusingRequests.zipIdx.flatMap (fun (request, pid) =>
      .spawn pid
          (request.program plainPrimitives plainSettings) ::
        List.replicate 20 (.step pid)))

theorem reusingRun_reachable :
    Reachable
      (familyPrograms plainPrimitives plainSettings
        (fun _ => none))
      (Sys.initial (W := accountsWorld)
        (accountsOf [adminRow 1]) ⟨0, 0⟩)
      reusingRun := by
  apply Sys.exec_reachable (fun _ _ => rfl)
  intro m hm
  rcases List.mem_flatMap.mp hm with ⟨⟨request, pid⟩, -, hMove⟩
  exact Move.allowed_of_begun ⟨request, rfl⟩ hMove

/- The last event of the run is the answer 401 to client 3. -/
def unauthorized :
    List (FamilyEvent fun _ => none) → Bool
| .aborted pid error :: _ =>
    pid = 3 ∧ error = Users.invalidRefresh
| _ => false

theorem unauthorized_cons
    {trace : List (FamilyEvent fun _ => none)}
    (hLast : unauthorized trace = true) :
    trace = .aborted 3 Users.invalidRefresh :: trace.tail := by
  unfold unauthorized at hLast
  split at hLast
  · rcases of_decide_eq_true hLast with ⟨rfl, rfl⟩
    rfl
  · cases hLast

/- The token is one that its family has not begun with. -/
def reusedChild (now : ℤ) (t : RefreshToken) : Prop :=
  t.parentId = some 4 ∧ t.usedAt.isSome ∧ t.Live now

instance (now : ℤ) (t : RefreshToken) :
    Decidable (reusedChild now t) :=
  inferInstanceAs
    (Decidable (_ ∧ _ ∧ t.revokedAt = none ∧
      now < t.expiresAt ∧ now < t.familyExpiresAt))

end PigBook
