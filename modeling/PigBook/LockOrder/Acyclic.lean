import PigBook.LockOrder.Transactions
import PigBook.Users.Surroundings

/-
  The transactions never wait for each other in a circle.

  Locks are taken in the order of `Object.rank`, with some
  exceptions.  Bookings and entries are locked in any order,
  by the one who has their resource; tokens by the one who has
  their user or their family.  A promotion locks the users of
  its offers after the resource, but only against those who
  patch them, and a patch that has its target does not wait.

  Key definitions include:
    * `Object.rank`
    * `Requests`, `lockOrder`

  Key theorems include:
    * `lockOrder_ranking`
    * `Transaction.keeps`
    * `no_deadlock`
-/

------------------------------------------------------------
-- The Lock Order
------------------------------------------------------------

namespace PigBook.LockOrder

open Locking

/- Where the lock stands in the order. -/
def Object.rank : Object → ℕ
| advisory key => if key = 714001 then 0 else 2 ^ 128 + 2
| user id => id.val + 1
| idempotencyKey _ _ => 2 ^ 128 + 1
| refreshToken _ _ _ => 2 ^ 128 + 3
| resource _ => 2 ^ 128 + 4
| booking _ _ => 2 ^ 128 + 5
| waitlistEntry _ _ => 2 ^ 128 + 6
| workerHeartbeat => 2 ^ 128 + 7

/- The lock comes after those that are held. -/
def Climbs (ks : List Lock) (k : Lock) : Prop :=
  ∀ h ∈ ks, h.object.rank < k.object.rank

/- No user is locked for a patch. -/
def Unpatched (ks : List Lock) : Prop :=
  ∀ id, ⟨.user id, .update⟩ ∉ ks

/- What the transactions ask for, and what they have then. -/
inductive Requests
    (X : Primitives)
    (ks : List Lock) : Lock → Prop
  | again
      {h k : Lock}
      (hHeld : h ∈ ks)
      (hObject : h.object = k.object)
      (hMode : k.mode.strength ≤ h.mode.strength) :
      Requests X ks k
  | guard
      (hNone : ks = []) :
      Requests X ks ⟨.advisory 714001, .update⟩
  | principal
      {id : Uuid}
      (hClimbs : Climbs ks ⟨.user id, .share⟩)
      (hUnpatched : Unpatched ks) :
      Requests X ks ⟨.user id, .share⟩
  | actor
      {id : Uuid}
      (hGuard : ⟨.advisory 714001, .update⟩ ∈ ks) :
      Requests X ks ⟨.user id, .share⟩
  | target
      {id : Uuid}
      (hGuard : ⟨.advisory 714001, .update⟩ ∈ ks)
      (hClimbs : Climbs ks ⟨.user id, .update⟩)
      (hUnpatched : Unpatched ks) :
      Requests X ks ⟨.user id, .update⟩
  | reference
      {id : Uuid}
      (hUnpatched : Unpatched ks) :
      Requests X ks ⟨.user id, .keyShare⟩
  | family
      {familyId : Uuid}
      (hClimbs :
        Climbs ks
          ⟨.advisory (X.deriveFamilyAdvisoryKey familyId),
            .update⟩)
      (hUnpatched : Unpatched ks) :
      Requests X ks
        ⟨.advisory (X.deriveFamilyAdvisoryKey familyId),
          .update⟩
  | token
      {userId familyId id : Uuid} {mode : Mode}
      (hOwner :
        ⟨.user userId, .update⟩ ∈ ks ∨
          (⟨.user userId, .share⟩ ∈ ks ∧
            ⟨.advisory (X.deriveFamilyAdvisoryKey familyId),
              .update⟩ ∈ ks)) :
      Requests X ks ⟨.refreshToken userId familyId id, mode⟩
  | idempotencyKey
      {userId key : Uuid} {mode : Mode}
      (hClimbs :
        Climbs ks ⟨.idempotencyKey userId key, mode⟩)
      (hUnpatched : Unpatched ks) :
      Requests X ks ⟨.idempotencyKey userId key, mode⟩
  | resource
      {id : Uuid} {mode : Mode}
      (hClimbs : Climbs ks ⟨.resource id, mode⟩)
      (hUnpatched : Unpatched ks) :
      Requests X ks ⟨.resource id, mode⟩
  | booking
      {resourceId id : Uuid} {mode : Mode}
      (hResource : ⟨.resource resourceId, .update⟩ ∈ ks) :
      Requests X ks ⟨.booking resourceId id, mode⟩
  | newBooking
      {resourceId id : Uuid}
      (hResource : ⟨.resource resourceId, .share⟩ ∈ ks) :
      Requests X ks ⟨.booking resourceId id, .keyShare⟩
  | waitlistEntry
      {resourceId id : Uuid} {mode : Mode}
      (hResource : ⟨.resource resourceId, .update⟩ ∈ ks) :
      Requests X ks ⟨.waitlistEntry resourceId id, mode⟩
  | workerHeartbeat
      {mode : Mode}
      (hNone : ks = []) :
      Requests X ks ⟨.workerHeartbeat, mode⟩

/- Only the scheduler skips, and has no other lock then. -/
def lockOrder (X : Primitives) : Discipline locks where
  requests := Requests X
  tries := fun ks k =>
    ks = [] ∧ ∃ id, k = ⟨.resource id, .update⟩

end PigBook.LockOrder

------------------------------------------------------------
-- What Comes with a Lock
------------------------------------------------------------

namespace PigBook.LockOrder

open Locking

variable {X : Primitives} {ks : List Lock}

/-
  The locks that a lock is taken under.  Users are locked
  strongly by patches only.
-/
def Object.Under
    (X : Primitives)
    (ks : List Lock)
    (mode : Mode) : Object → Prop
| user _ =>
    2 ≤ mode.strength → ⟨.advisory 714001, .update⟩ ∈ ks
| refreshToken userId familyId _ =>
    ⟨.user userId, .update⟩ ∈ ks ∨
      (⟨.user userId, .share⟩ ∈ ks ∧
        ⟨.advisory (X.deriveFamilyAdvisoryKey familyId),
          .update⟩ ∈ ks)
| booking resourceId _ =>
    ⟨.resource resourceId, .update⟩ ∈ ks ∨
      (⟨.resource resourceId, .share⟩ ∈ ks ∧
        mode = .keyShare)
| waitlistEntry resourceId _ =>
    ⟨.resource resourceId, .update⟩ ∈ ks
| _ => True

/- More locks, or a weaker one, do not change that. -/
theorem Object.Under.mono
    {ks ks' : List Lock}
    {mode mode' : Mode}
    {o : Object}
    (hUnder : o.Under X ks mode)
    (hMore : ∀ k ∈ ks, k ∈ ks')
    (hWeaker : mode'.strength ≤ mode.strength) :
    o.Under X ks' mode' := by
  cases o with
  | user id =>
      intro hStrong
      exact hMore _ (hUnder (hStrong.trans hWeaker))
  | refreshToken userId familyId id =>
      rcases hUnder with hUser | ⟨hUser, hFamily⟩
      · exact Or.inl (hMore _ hUser)
      · exact Or.inr ⟨hMore _ hUser, hMore _ hFamily⟩
  | booking resourceId id =>
      rcases hUnder with hResource | ⟨hResource, rfl⟩
      · exact Or.inl (hMore _ hResource)
      · refine Or.inr ⟨hMore _ hResource, ?_⟩
        cases mode' <;> simp_all [Mode.strength]
  | waitlistEntry resourceId id => exact hMore _ hUnder
  | _ => trivial

theorem Requests.under
    {k : Lock}
    (hAll : ∀ h ∈ ks, h.object.Under X ks h.mode)
    (hRequests : Requests X ks k) :
    k.object.Under X ks k.mode := by
  cases hRequests with
  | again hHeld hObject hMode =>
      rw [← hObject]
      exact (hAll _ hHeld).mono (fun _ hKey => hKey) hMode
  | principal | actor | reference =>
      intro hStrong
      simp [Mode.strength] at hStrong
  | target hGuard => exact fun _ => hGuard
  | token hOwner => exact hOwner
  | booking hResource => exact Or.inl hResource
  | newBooking hResource => exact Or.inr ⟨hResource, rfl⟩
  | waitlistEntry hResource => exact hResource
  | _ => trivial

/- Every lock comes with those that it is taken under. -/
theorem held_under
    {ks : List locks.Key}
    (hHeld : (lockOrder X).Held ks) :
    ∀ h ∈ ks, h.object.Under X ks h.mode := by
  induction hHeld with
  | nil =>
      intro h hMem
      cases hMem
  | @cons ks k hHeld hRule ih =>
      have hUnder : k.object.Under X ks k.mode := by
        rcases hRule with hRequests | ⟨-, id, rfl⟩
        · exact Requests.under ih hRequests
        · trivial
      intro h hMem
      rcases List.mem_cons.mp hMem with rfl | hOld
      · exact
          hUnder.mono (fun _ => List.mem_cons_of_mem _)
            le_rfl
      · exact
          (ih h hOld).mono (fun _ => List.mem_cons_of_mem _)
            le_rfl

end PigBook.LockOrder

------------------------------------------------------------
-- The Ranking
------------------------------------------------------------

namespace PigBook.LockOrder

open Locking

variable {X : Primitives} {ks : List Lock}

theorem conflict_update
    {o : Object}
    {mode : Mode}
    {ks ks' : List Lock}
    (hHeld : ⟨o, .update⟩ ∈ ks)
    (hOther : ⟨o, mode⟩ ∈ ks') :
    ∃ g ∈ ks, ∃ g' ∈ ks', locks.Conflict g g' := by
  refine ⟨_, hHeld, _, hOther, rfl, ?_⟩
  rw [Mode.conflict_iff]
  simp [Mode.strength]

theorem conflict_with_update
    {o : Object}
    {mode : Mode}
    {ks ks' : List Lock}
    (hHeld : ⟨o, mode⟩ ∈ ks)
    (hOther : ⟨o, .update⟩ ∈ ks') :
    ∃ g ∈ ks, ∃ g' ∈ ks', locks.Conflict g g' := by
  refine ⟨_, hHeld, _, hOther, rfl, ?_⟩
  rw [Mode.conflict_iff]
  simp [Mode.strength]

/- What is locked already is not waited for. -/
theorem guarded_again
    {h k : Lock}
    (hHeld : h ∈ ks)
    (hObject : h.object = k.object)
    (hMode : k.mode.strength ≤ h.mode.strength) :
    (lockOrder X).Guarded ks k := by
  rintro ks' - k' hKey ⟨hSame, hConflict⟩
  refine ⟨h, hHeld, k', hKey, hObject.trans hSame, ?_⟩
  rw [Mode.conflict_iff] at *
  omega

/- Under the advisory lock nobody else patches the actor. -/
theorem guarded_actor
    {id : Uuid}
    (hGuard : ⟨.advisory 714001, .update⟩ ∈ ks) :
    (lockOrder X).Guarded ks ⟨.user id, .share⟩ := by
  rintro ks' hHeld k' hKey ⟨hSame, hConflict⟩
  have hUnder := held_under hHeld k' hKey
  change Object.user id = k'.object at hSame
  rw [← hSame] at hUnder
  refine conflict_update hGuard (hUnder ?_)
  have hSum : 3 ≤ Mode.share.strength + k'.mode.strength :=
    (Mode.conflict_iff _ _).mp hConflict
  have hShare : Mode.share.strength = 1 := rfl
  omega

theorem guarded_token
    {userId familyId id : Uuid}
    {mode : Mode}
    (hOwner :
      Object.Under X ks mode
        (.refreshToken userId familyId id)) :
    (lockOrder X).Guarded ks
      ⟨.refreshToken userId familyId id, mode⟩ := by
  rintro ks' hHeld k' hKey ⟨hSame, -⟩
  have hUnder := held_under hHeld k' hKey
  change Object.refreshToken userId familyId id = k'.object
    at hSame
  rw [← hSame] at hUnder
  rcases hOwner with hUser | ⟨hUser, hFamily⟩
  · rcases hUnder with hUser' | ⟨hUser', -⟩
    · exact conflict_update hUser hUser'
    · exact conflict_update hUser hUser'
  · rcases hUnder with hUser' | ⟨-, hFamily'⟩
    · exact conflict_with_update hUser hUser'
    · exact conflict_update hFamily hFamily'

/- Who has the resource has its bookings and entries. -/
theorem guarded_booking
    {resourceId id : Uuid}
    {mode : Mode}
    (hResource : ⟨.resource resourceId, .update⟩ ∈ ks) :
    (lockOrder X).Guarded ks
      ⟨.booking resourceId id, mode⟩ := by
  rintro ks' hHeld k' hKey ⟨hSame, -⟩
  have hUnder := held_under hHeld k' hKey
  change Object.booking resourceId id = k'.object at hSame
  rw [← hSame] at hUnder
  rcases hUnder with hOther | ⟨hOther, -⟩
  · exact conflict_update hResource hOther
  · exact conflict_update hResource hOther

theorem guarded_newBooking
    {resourceId id : Uuid}
    (hResource : ⟨.resource resourceId, .share⟩ ∈ ks) :
    (lockOrder X).Guarded ks
      ⟨.booking resourceId id, .keyShare⟩ := by
  rintro ks' hHeld k' hKey ⟨hSame, hConflict⟩
  have hUnder := held_under hHeld k' hKey
  change Object.booking resourceId id = k'.object at hSame
  rw [← hSame] at hUnder
  rcases hUnder with hOther | ⟨-, hMode⟩
  · exact conflict_with_update hResource hOther
  · rw [hMode] at hConflict
    exact hConflict.elim

theorem guarded_waitlistEntry
    {resourceId id : Uuid}
    {mode : Mode}
    (hResource : ⟨.resource resourceId, .update⟩ ∈ ks) :
    (lockOrder X).Guarded ks
      ⟨.waitlistEntry resourceId id, mode⟩ := by
  rintro ks' hHeld k' hKey ⟨hSame, -⟩
  have hUnder := held_under hHeld k' hKey
  change Object.waitlistEntry resourceId id = k'.object
    at hSame
  rw [← hSame] at hUnder
  exact conflict_update hResource hUnder

/- A patch that has its target does not wait. -/
theorem guarded_of_patch
    {id : Uuid}
    {k : Lock}
    (hTarget : ⟨.user id, .update⟩ ∈ ks)
    (hRequests : Requests X ks k) :
    (lockOrder X).Guarded ks k := by
  cases hRequests with
  | again hHeld hObject hMode =>
      exact guarded_again hHeld hObject hMode
  | guard hNone | workerHeartbeat hNone =>
      rw [hNone] at hTarget
      cases hTarget
  | actor hGuard => exact guarded_actor hGuard
  | token hOwner => exact guarded_token hOwner
  | booking hResource => exact guarded_booking hResource
  | newBooking hResource => exact guarded_newBooking hResource
  | waitlistEntry hResource =>
      exact guarded_waitlistEntry hResource
  | principal _ hUnpatched | target _ _ hUnpatched
  | reference hUnpatched | family _ hUnpatched
  | idempotencyKey _ hUnpatched | resource _ hUnpatched =>
      exact absurd hTarget (hUnpatched id)

/- Only a patch keeps a user from being referred to. -/
theorem last_reference
    (id : Uuid) :
    (lockOrder X).Last ⟨.user id, .keyShare⟩ := by
  rintro ks' - k' hKey ⟨hSame, hConflict⟩ k'' hRequests
  rcases k' with ⟨o, mode⟩
  change Object.user id = o at hSame
  subst hSame
  cases mode with
  | update => exact guarded_of_patch hKey hRequests
  | _ => exact hConflict.elim

/- The transactions follow the order of their locks. -/
def lockOrder_ranking
    (X : Primitives) : Ranking (lockOrder X) where
  rank := fun k => Object.rank (Lock.object k)
  conflict := by
    rintro k k' ⟨hSame, -⟩
    exact congrArg Object.rank hSame
  order := by
    intro ks k _ hRequests
    cases hRequests with
    | again hHeld hObject hMode =>
        exact Or.inr (Or.inl
          (guarded_again hHeld hObject hMode))
    | guard hNone | workerHeartbeat hNone =>
        refine Or.inl ?_
        rw [hNone]
        intro h hMem
        cases hMem
    | principal hClimbs | target _ hClimbs
    | family hClimbs | idempotencyKey hClimbs
    | resource hClimbs => exact Or.inl hClimbs
    | actor hGuard =>
        exact Or.inr (Or.inl (guarded_actor hGuard))
    | reference =>
        exact Or.inr (Or.inr (last_reference _))
    | token hOwner =>
        exact Or.inr (Or.inl (guarded_token hOwner))
    | booking hResource =>
        exact Or.inr (Or.inl (guarded_booking hResource))
    | newBooking hResource =>
        exact Or.inr (Or.inl (guarded_newBooking hResource))
    | waitlistEntry hResource =>
        exact Or.inr (Or.inl
          (guarded_waitlistEntry hResource))

end PigBook.LockOrder

------------------------------------------------------------
-- Statements in Order
------------------------------------------------------------

namespace PigBook.LockOrder

open Locking

variable {X : Primitives} {ks ks' : List locks.Key}

/- More locks, and no user among them that is patched. -/
structure Extends (ks ks' : List locks.Key) : Prop where
  suffix : ks <:+ ks'
  unpatched : Unpatched ks → Unpatched ks'

theorem Extends.refl
    (ks : List locks.Key) :
    Extends ks ks where
  suffix := List.suffix_rfl
  unpatched := fun hUnpatched => hUnpatched

theorem Extends.trans
    {ks'' : List locks.Key}
    (hFirst : Extends ks ks')
    (hSecond : Extends ks' ks'') :
    Extends ks ks'' where
  suffix := hFirst.suffix.trans hSecond.suffix
  unpatched := fun hUnpatched =>
    hSecond.unpatched (hFirst.unpatched hUnpatched)

theorem Extends.mem
    {k : Lock}
    (hExtends : Extends ks ks')
    (hKey : k ∈ ks) :
    k ∈ ks' :=
  hExtends.suffix.mem hKey

/- Back at the savepoint there are the locks from before. -/
theorem Extends.sinceBefore
    (hExtends : Extends ks ks') :
    sinceBefore ks.length ks' = ks := by
  rcases hExtends.suffix with ⟨more, rfl⟩
  unfold Locking.sinceBefore
  rw [List.length_append, Nat.add_sub_cancel]
  exact List.drop_left

theorem extends_cons
    {k : Lock}
    (hPlain : ∀ id, k ≠ ⟨.user id, .update⟩) :
    Extends ks (k :: ks) where
  suffix := List.suffix_cons k ks
  unpatched := by
    intro hUnpatched id hKey
    rcases List.mem_cons.mp hKey with hSame | hOld
    · exact hPlain id hSame.symm
    · exact hUnpatched id hOld

/- A lock that is asked for in order. -/
theorem acquire_wp
    {k : Lock}
    (hRequests : Requests X ks k)
    (hPlain : ∀ id, k ≠ ⟨.user id, .update⟩) :
    (Prog.acquire (L := locks) k).wp (lockOrder X)
      (fun _ ks' => Extends ks ks') ks :=
  ⟨hRequests, extends_cons hPlain⟩

/- A lock, and what follows it. -/
theorem lock_wp
    {β : Type}
    {k : Lock}
    {f : Unit → LockM β}
    {post : β → List locks.Key → Prop}
    (hRequests : Requests X ks k)
    (hNext : (f ()).wp (lockOrder X) post (k :: ks)) :
    ((Prog.acquire (L := locks) k).bind f).wp (lockOrder X)
      post ks :=
  ⟨hRequests, hNext⟩

/- One program after another. -/
theorem seq_wp
    {α β : Type}
    {p : LockM α}
    {f : α → LockM β}
    {post : β → List locks.Key → Prop}
    (hFirst :
      p.wp (lockOrder X) (fun _ ks' => Extends ks ks') ks)
    (hNext :
      ∀ a ks', Extends ks ks' →
        (f a).wp (lockOrder X) post ks') :
    (p.bind f).wp (lockOrder X) post ks := by
  rw [Prog.wp_bind]
  exact Prog.wp_mono _ hNext hFirst

theorem select_wp
    {α β : Type}
    {f : α → LockM β}
    {post : β → List locks.Key → Prop}
    (hNext : ∀ a, (f a).wp (lockOrder X) post ks) :
    ((Prog.select α).bind f).wp (lockOrder X) post ks :=
  hNext

theorem mark_wp
    {β : Type}
    {f : ℕ → LockM β}
    {post : β → List locks.Key → Prop}
    (hNext : (f ks.length).wp (lockOrder X) post ks) :
    (Prog.mark.bind f).wp (lockOrder X) post ks :=
  hNext

theorem each_wp
    {β : Type}
    {f : β → LockM Unit}
    (hTurn :
      ∀ x ks', Extends ks ks' →
        (f x).wp (lockOrder X) (fun _ ks'' => Extends ks' ks'')
          ks')
    (xs : List β) :
    (Prog.each f xs).wp (lockOrder X)
      (fun _ ks' => Extends ks ks') ks := by
  apply Prog.wp_each _ _ (Extends.refl ks)
  intro x ks' hExtends
  exact
    Prog.wp_mono _ (fun _ _ hMore => hExtends.trans hMore)
      (hTurn x ks' hExtends)

section Statements

variable {resourceId userId createdBy bookingId : Uuid}

/- A reference to a row that is locked already. -/
theorem references_wp
    {o : Object}
    {mode : Mode}
    (hHeld : ⟨o, mode⟩ ∈ ks) :
    (references o).wp (lockOrder X)
      (fun _ ks' => Extends ks ks') ks := by
  have hRequests : Requests X ks ⟨o, .keyShare⟩ :=
    .again hHeld rfl (Nat.zero_le _)
  apply acquire_wp hRequests
  intro id hSame
  cases congrArg Lock.mode hSame

theorem references_user_wp
    (hUnpatched : Unpatched ks) :
    (references (.user userId)).wp (lockOrder X)
      (fun _ ks' => Extends ks ks') ks :=
  acquire_wp (.reference hUnpatched) (by rintro id ⟨⟩)

theorem insertBooking_wp
    {owner : Option Uuid}
    {mode : Mode}
    (hResource : ⟨.resource resourceId, mode⟩ ∈ ks)
    (hUnpatched : Unpatched ks) :
    (insertBooking resourceId owner createdBy).wp
      (lockOrder X) (fun _ ks' => Extends ks ks') ks := by
  have hRest :
      ∀ ks₁, Extends ks ks₁ →
        (references (.user createdBy)).wp (lockOrder X)
          (fun _ ks' => Extends ks ks') ks₁ := by
    intro ks₁ hExtends
    exact
      Prog.wp_mono _ (fun _ _ hMore => hExtends.trans hMore)
        (references_user_wp (hExtends.unpatched hUnpatched))
  cases owner with
  | none =>
      exact
        seq_wp (references_wp hResource)
          (fun _ => hRest)
  | some userId =>
      refine seq_wp (references_wp hResource) ?_
      intro _ ks₁ hExtends₁
      refine
        seq_wp
          (references_user_wp
            (hExtends₁.unpatched hUnpatched))
          ?_
      intro _ ks₂ hExtends₂
      exact hRest ks₂ (hExtends₁.trans hExtends₂)

theorem appendEvent_wp
    (hResource :
      ⟨.resource resourceId, .update⟩ ∈ ks ∨
        ⟨.resource resourceId, .share⟩ ∈ ks) :
    (appendEvent resourceId bookingId).wp (lockOrder X)
      (fun _ ks' => Extends ks ks') ks := by
  refine acquire_wp ?_ (by rintro id ⟨⟩)
  rcases hResource with hUpdate | hShare
  · exact .booking hUpdate
  · exact .newBooking hShare

/- Bookings and entries, for the one who has the resource. -/
theorem booking_wp
    {mode : Mode}
    (hResource : ⟨.resource resourceId, .update⟩ ∈ ks) :
    (Prog.acquire (L := locks)
      ⟨.booking resourceId bookingId, mode⟩).wp (lockOrder X)
      (fun _ ks' => Extends ks ks') ks :=
  acquire_wp (.booking hResource) (by rintro id ⟨⟩)

theorem waitlistEntry_wp
    {entryId : Uuid}
    {mode : Mode}
    (hResource : ⟨.resource resourceId, .update⟩ ∈ ks) :
    (Prog.acquire (L := locks)
      ⟨.waitlistEntry resourceId entryId, mode⟩).wp
      (lockOrder X) (fun _ ks' => Extends ks ks') ks :=
  acquire_wp (.waitlistEntry hResource) (by rintro id ⟨⟩)

theorem visit_wp
    (hResource : ⟨.resource resourceId, .update⟩ ∈ ks)
    (hUnpatched : Unpatched ks)
    (v : Visit) :
    (visit resourceId v).wp (lockOrder X)
      (fun _ ks' => Extends ks ks') ks := by
  cases v with
  | expired entryId => exact waitlistEntry_wp hResource
  | blocked => exact .refl ks
  | offered entryId userId bookingId =>
      refine mark_wp (select_wp ?_)
      intro overlaps
      cases overlaps with
      | true =>
          change Extends ks (sinceBefore ks.length ks)
          rw [(Extends.refl ks).sinceBefore]
          exact .refl ks
      | false =>
          refine
            seq_wp (insertBooking_wp hResource hUnpatched) ?_
          intro _ ks₁ hExtends₁
          refine select_wp ?_
          intro moved
          cases moved with
          | true =>
              change Extends ks (sinceBefore ks.length ks₁)
              rw [hExtends₁.sinceBefore]
              exact .refl ks
          | false =>
              refine
                seq_wp
                  (waitlistEntry_wp (hExtends₁.mem hResource))
                  ?_
              intro _ ks₂ hExtends₂
              have hResource₂ :=
                hExtends₂.mem (hExtends₁.mem hResource)
              refine seq_wp (booking_wp hResource₂) ?_
              intro _ ks₃ hExtends₃
              refine
                Prog.wp_mono _ ?_
                  (appendEvent_wp
                    (Or.inl (hExtends₃.mem hResource₂)))
              intro _ ks₄ hExtends₄
              exact
                hExtends₁.trans
                  (hExtends₂.trans
                    (hExtends₃.trans hExtends₄))

theorem promoteWaiters_wp
    (hResource : ⟨.resource resourceId, .update⟩ ∈ ks)
    (hUnpatched : Unpatched ks) :
    (promoteWaiters resourceId).wp (lockOrder X)
      (fun _ _ => True) ks := by
  unfold promoteWaiters
  refine
    seq_wp
      (acquire_wp (.again hResource rfl le_rfl)
        (by rintro id ⟨⟩))
      ?_
  intro _ ks₁ hExtends₁
  refine select_wp ?_
  intro visits
  refine Prog.wp_mono _ (fun _ _ _ => trivial) (each_wp ?_ _)
  intro v ks₂ hExtends₂
  have hExtends := hExtends₁.trans hExtends₂
  exact
    visit_wp (hExtends.mem hResource)
      (hExtends.unpatched hUnpatched) v

end Statements

end PigBook.LockOrder

------------------------------------------------------------
-- Transactions in Order
------------------------------------------------------------

namespace PigBook.LockOrder

open Locking

variable {X : Primitives} {ks : List locks.Key}
variable {resourceId userId bookingId entryId key : Uuid}

/- The revalidation is the first lock of its transaction. -/
theorem assertCurrent_wp
    {β : Type}
    {f : Unit → LockM β}
    {post : β → List locks.Key → Prop}
    (hNext :
      (f ()).wp (lockOrder X) post
        [⟨.user userId, .share⟩]) :
    ((assertCurrent userId).bind f).wp (lockOrder X) post
      [] := by
  refine ⟨.principal ?_ ?_, hNext⟩
  · intro h hMem
    cases hMem
  · intro id hMem
    cases hMem

/- The locks of one who has a resource to itself. -/
structure Owning
    (resourceId userId : Uuid)
    (ks : List locks.Key) : Prop where
  resource : ⟨.resource resourceId, .update⟩ ∈ ks
  user : ⟨.user userId, .share⟩ ∈ ks
  unpatched : Unpatched ks

theorem Owning.extend
    {ks' : List locks.Key}
    (hOwning : Owning resourceId userId ks)
    (hExtends : Extends ks ks') :
    Owning resourceId userId ks' where
  resource := hExtends.mem hOwning.resource
  user := hExtends.mem hOwning.user
  unpatched := hExtends.unpatched hOwning.unpatched

/- The resource comes next. -/
theorem owning_wp
    {β : Type}
    {f : Unit → LockM β}
    {post : β → List locks.Key → Prop}
    (hNext :
      ∀ ks, Owning resourceId userId ks →
        (f ()).wp (lockOrder X) post ks) :
    ((assertCurrent userId).bind (fun _ =>
      (forUpdate (.resource resourceId)).bind f)).wp
      (lockOrder X) post [] := by
  apply assertCurrent_wp
  refine ⟨.resource ?_ ?_, hNext _ ⟨?_, ?_, ?_⟩⟩
  · intro h hMem
    rw [List.mem_singleton.mp hMem]
    change userId.val + 1 < 2 ^ 128 + 4
    omega
  · intro id hMem
    cases List.mem_singleton.mp hMem
  · exact List.mem_cons_self
  · exact List.mem_cons_of_mem _ List.mem_cons_self
  · intro id hMem
    simp at hMem

theorem joinWaitlist_keeps :
    (joinWaitlist resourceId userId).Keeps (lockOrder X) := by
  apply owning_wp
  intro ks hOwning
  refine seq_wp (references_wp hOwning.user) ?_
  intro _ ks₁ hExtends₁
  exact
    Prog.wp_mono _ (fun _ _ _ => trivial)
      (references_wp (hOwning.extend hExtends₁).resource)

theorem acceptOffer_keeps :
    (acceptOffer resourceId userId entryId bookingId).Keeps
      (lockOrder X) := by
  apply owning_wp
  intro ks hOwning
  refine seq_wp (waitlistEntry_wp hOwning.resource) ?_
  intro _ ks₁ hExtends₁
  have hOwning₁ := hOwning.extend hExtends₁
  refine seq_wp (booking_wp hOwning₁.resource) ?_
  intro _ ks₂ hExtends₂
  have hOwning₂ := hOwning₁.extend hExtends₂
  refine select_wp ?_
  intro expired
  cases expired with
  | true =>
      refine seq_wp (waitlistEntry_wp hOwning₂.resource) ?_
      intro _ ks₃ hExtends₃
      have hOwning₃ := hOwning₂.extend hExtends₃
      refine seq_wp (booking_wp hOwning₃.resource) ?_
      intro _ ks₄ hExtends₄
      have hOwning₄ := hOwning₃.extend hExtends₄
      refine
        seq_wp (appendEvent_wp (Or.inl hOwning₄.resource)) ?_
      intro _ ks₅ hExtends₅
      have hOwning₅ := hOwning₄.extend hExtends₅
      exact
        promoteWaiters_wp hOwning₅.resource
          hOwning₅.unpatched
  | false =>
      refine seq_wp (booking_wp hOwning₂.resource) ?_
      intro _ ks₃ hExtends₃
      have hOwning₃ := hOwning₂.extend hExtends₃
      refine seq_wp (waitlistEntry_wp hOwning₃.resource) ?_
      intro _ ks₄ hExtends₄
      have hOwning₄ := hOwning₃.extend hExtends₄
      exact
        Prog.wp_mono _ (fun _ _ _ => trivial)
          (appendEvent_wp (Or.inl hOwning₄.resource))

theorem declineEntry_keeps :
    (declineEntry resourceId userId entryId).Keeps
      (lockOrder X) := by
  apply owning_wp
  intro ks hOwning
  refine seq_wp (waitlistEntry_wp hOwning.resource) ?_
  intro _ ks₁ hExtends₁
  have hOwning₁ := hOwning.extend hExtends₁
  refine select_wp ?_
  intro waiting
  cases waiting with
  | true =>
      exact
        Prog.wp_mono _ (fun _ _ _ => trivial)
          (waitlistEntry_wp hOwning₁.resource)
  | false =>
      -- what follows the booking, if there is one
      have hRest :
          ∀ ks', Extends ks₁ ks' →
            ((updateRow
                (.waitlistEntry resourceId entryId)).bind
              (fun _ => promoteWaiters resourceId)).wp
                (lockOrder X) (fun _ _ => True) ks' := by
        intro ks₂ hExtends₂
        have hOwning₂ := hOwning₁.extend hExtends₂
        refine
          seq_wp (waitlistEntry_wp hOwning₂.resource) ?_
        intro _ ks₃ hExtends₃
        have hOwning₃ := hOwning₂.extend hExtends₃
        exact
          promoteWaiters_wp hOwning₃.resource
            hOwning₃.unpatched
      refine select_wp ?_
      intro linked
      cases linked with
      | none => exact hRest ks₁ (.refl ks₁)
      | some bookingId =>
          refine seq_wp (booking_wp hOwning₁.resource) ?_
          intro _ ks₂ hExtends₂
          have hOwning₂ := hOwning₁.extend hExtends₂
          refine select_wp ?_
          intro offered
          cases offered with
          | true =>
              refine seq_wp (booking_wp hOwning₂.resource) ?_
              intro _ ks₃ hExtends₃
              exact hRest ks₃ (hExtends₂.trans hExtends₃)
          | false => exact hRest ks₂ hExtends₂

theorem cancelBooking_keeps
    {audit : Bool} :
    (cancelBooking resourceId userId bookingId audit).Keeps
      (lockOrder X) := by
  apply owning_wp
  intro ks hOwning
  refine seq_wp (booking_wp hOwning.resource) ?_
  intro _ ks₁ hExtends₁
  have hOwning₁ := hOwning.extend hExtends₁
  refine seq_wp (booking_wp hOwning₁.resource) ?_
  intro _ ks₂ hExtends₂
  have hOwning₂ := hOwning₁.extend hExtends₂
  refine select_wp ?_
  intro entries
  refine seq_wp (each_wp ?_ entries) ?_
  · intro entryId ks' hExtends
    exact
      waitlistEntry_wp (hOwning₂.extend hExtends).resource
  intro _ ks₃ hExtends₃
  have hOwning₃ := hOwning₂.extend hExtends₃
  refine
    seq_wp (appendEvent_wp (Or.inl hOwning₃.resource)) ?_
  intro _ ks₄ hExtends₄
  have hOwning₄ := hOwning₃.extend hExtends₄
  cases audit with
  | true =>
      refine seq_wp (references_wp hOwning₄.user) ?_
      intro _ ks₅ hExtends₅
      have hOwning₅ := hOwning₄.extend hExtends₅
      exact
        promoteWaiters_wp hOwning₅.resource
          hOwning₅.unpatched
  | false =>
      exact
        promoteWaiters_wp hOwning₄.resource
          hOwning₄.unpatched

theorem cancelBlackout_keeps :
    (cancelBlackout resourceId userId bookingId).Keeps
      (lockOrder X) := by
  apply owning_wp
  intro ks hOwning
  refine seq_wp (booking_wp hOwning.resource) ?_
  intro _ ks₁ hExtends₁
  have hOwning₁ := hOwning.extend hExtends₁
  refine seq_wp (booking_wp hOwning₁.resource) ?_
  intro _ ks₂ hExtends₂
  have hOwning₂ := hOwning₁.extend hExtends₂
  refine seq_wp (references_wp hOwning₂.user) ?_
  intro _ ks₃ hExtends₃
  have hOwning₃ := hOwning₂.extend hExtends₃
  exact
    promoteWaiters_wp hOwning₃.resource hOwning₃.unpatched

theorem updateResource_keeps :
    (updateResource resourceId userId).Keeps
      (lockOrder X) := by
  apply owning_wp
  intro ks hOwning
  have hAgain :
      Requests X ks ⟨.resource resourceId, .noKeyUpdate⟩ :=
    .again hOwning.resource rfl (Nat.le_succ 2)
  refine
    seq_wp (acquire_wp hAgain (by rintro id ⟨⟩)) ?_
  intro _ ks₁ hExtends₁
  exact
    Prog.wp_mono _ (fun _ _ _ => trivial)
      (references_wp (hOwning.extend hExtends₁).user)

theorem expireAndPromote_keeps :
    (expireAndPromote resourceId).Keeps (lockOrder X) := by
  refine ⟨⟨rfl, resourceId, rfl⟩, ?_, trivial⟩
  have hResource :
      (⟨.resource resourceId, .update⟩ : Lock) ∈
        ([⟨.resource resourceId, .update⟩] :
          List locks.Key) :=
    List.mem_cons_self
  have hUnpatched :
      Unpatched [⟨.resource resourceId, .update⟩] := by
    intro id hMem
    cases List.mem_singleton.mp hMem
  refine select_wp ?_
  intro due
  refine
    seq_wp
      (each_wp
        (fun hold ks' hExtends =>
          booking_wp (hExtends.mem hResource))
        due)
      ?_
  intro _ ks₁ hExtends₁
  have hResource₁ := hExtends₁.mem hResource
  refine seq_wp (each_wp ?_ due) ?_
  · intro hold ks' hExtends
    have hResource' := hExtends.mem hResource₁
    -- what follows the entry, if there is one
    have hRest :
        ∀ ks'', Extends ks' ks'' →
          ((updateRow (.booking resourceId hold.1)).bind
            (fun _ => appendEvent resourceId hold.1)).wp
              (lockOrder X)
              (fun _ ks''' => Extends ks' ks''') ks'' := by
      intro ks₂ hExtends₂
      refine
        seq_wp (booking_wp (hExtends₂.mem hResource')) ?_
      intro _ ks₃ hExtends₃
      have hBoth := hExtends₂.trans hExtends₃
      exact
        Prog.wp_mono _ (fun _ _ hMore => hBoth.trans hMore)
          (appendEvent_wp (Or.inl (hBoth.mem hResource')))
    rcases hold with ⟨bookingId, linked⟩
    cases linked with
    | none => exact hRest ks' (.refl ks')
    | some entryId =>
        refine seq_wp (waitlistEntry_wp hResource') ?_
        intro _ ks₂ hExtends₂
        refine
          seq_wp
            (waitlistEntry_wp (hExtends₂.mem hResource')) ?_
        intro _ ks₃ hExtends₃
        exact hRest ks₃ (hExtends₂.trans hExtends₃)
  · intro _ ks₂ hExtends₂
    exact
      promoteWaiters_wp (hExtends₂.mem hResource₁)
        (hExtends₂.unpatched
          (hExtends₁.unpatched hUnpatched))

end PigBook.LockOrder

------------------------------------------------------------
-- Creations in Order
------------------------------------------------------------

namespace PigBook.LockOrder

open Locking

variable {X : Primitives} {ks : List locks.Key}
variable {resourceId userId bookingId key : Uuid}

/-
  The locks before the operation of a creation: the user, and
  the key or nothing that comes after it.
-/
structure Creating
    (userId key : Uuid)
    (ks : List locks.Key) : Prop where
  user : ⟨.user userId, .share⟩ ∈ ks
  unpatched : Unpatched ks
  low : ∀ h ∈ ks, (Lock.object h).rank ≤ 2 ^ 128 + 1
  once :
    ⟨.idempotencyKey userId key, .update⟩ ∈ ks ∨
      ∀ h ∈ ks, (Lock.object h).rank ≤ 2 ^ 128

theorem creating_principal :
    Creating userId key [⟨.user userId, .share⟩] where
  user := List.mem_cons_self
  unpatched := by
    intro id hMem
    cases List.mem_singleton.mp hMem
  low := by
    intro h hMem
    rw [List.mem_singleton.mp hMem]
    change userId.val + 1 ≤ 2 ^ 128 + 1
    omega
  once := by
    refine Or.inr ?_
    intro h hMem
    rw [List.mem_singleton.mp hMem]
    change userId.val + 1 ≤ 2 ^ 128
    omega

/- The key may be locked, also once more. -/
theorem Creating.key_wp
    {β : Type}
    {f : Unit → LockM β}
    {post : β → List locks.Key → Prop}
    (hCreating : Creating userId key ks)
    (hNext :
      ∀ ks', Creating userId key ks' →
        ⟨.idempotencyKey userId key, .update⟩ ∈ ks' →
          (f ()).wp (lockOrder X) post ks') :
    ((forUpdate (.idempotencyKey userId key)).bind f).wp
      (lockOrder X) post ks := by
  refine
    ⟨?_, hNext _ ⟨?_, ?_, ?_, Or.inl List.mem_cons_self⟩
      List.mem_cons_self⟩
  · rcases hCreating.once with hHeld | hLow
    · exact .again hHeld rfl le_rfl
    · refine .idempotencyKey ?_ hCreating.unpatched
      intro h hMem
      exact Nat.lt_succ_of_le (hLow h hMem)
  · exact List.mem_cons_of_mem _ hCreating.user
  · exact
      (extends_cons (by rintro id ⟨⟩)).unpatched
        hCreating.unpatched
  · intro h hMem
    rcases List.mem_cons.mp hMem with rfl | hOld
    · exact le_rfl
    · exact hCreating.low h hOld

/- The new key refers to the user. -/
theorem Creating.refer
    (hCreating : Creating userId key ks)
    (hKey : ⟨.idempotencyKey userId key, .update⟩ ∈ ks) :
    Creating userId key (⟨.user userId, .keyShare⟩ :: ks) where
  user := List.mem_cons_of_mem _ hCreating.user
  unpatched :=
    (extends_cons (by rintro id ⟨⟩)).unpatched
      hCreating.unpatched
  low := by
    intro h hMem
    rcases List.mem_cons.mp hMem with rfl | hOld
    · change userId.val + 1 ≤ 2 ^ 128 + 1
      omega
    · exact hCreating.low h hOld
  once := Or.inl (List.mem_cons_of_mem _ hKey)

/- Every attempt begins without the key, or with it. -/
theorem executeCreate_wp
    {operation : LockM Unit}
    (hOperation :
      ∀ ks', Creating userId key ks' →
        operation.wp (lockOrder X)
          (fun _ ks'' => Extends ks' ks'') ks')
    (n : ℕ)
    (hCreating : Creating userId key ks) :
    (executeCreate userId key operation n).wp (lockOrder X)
      (fun _ _ => True) ks := by
  induction n generalizing ks with
  | zero => trivial
  | succ n ih =>
      refine select_wp ?_
      intro acquired
      cases acquired with
      | true =>
          refine hCreating.key_wp ?_
          intro ks₁ hCreating₁ hKey₁
          refine
            lock_wp
              (.again hCreating₁.user rfl (Nat.zero_le _)) ?_
          have hCreating₂ := hCreating₁.refer hKey₁
          refine seq_wp (hOperation _ hCreating₂) ?_
          intro _ ks₃ hExtends₃
          have hKey₃ :=
            hExtends₃.mem (List.mem_cons_of_mem _ hKey₁)
          exact ⟨.again hKey₃ rfl (Nat.le_succ 2), trivial⟩
      | false =>
          refine select_wp ?_
          intro found
          cases found with
          | true =>
              refine hCreating.key_wp ?_
              intro ks₁ hCreating₁ hKey₁
              refine select_wp ?_
              intro expired
              cases expired with
              | true =>
                  refine hCreating₁.key_wp ?_
                  intro ks₂ hCreating₂ _
                  exact ih hCreating₂
              | false => trivial
          | false => exact ih hCreating

/- The insertion, and what follows it if it is made. -/
theorem insertConfirmed_wp
    {owner : Option Uuid}
    {f : Bool → LockM Unit}
    (hCreating : Creating userId key ks)
    (hUndone :
      ∀ ks', Extends ks ks' →
        (f false).wp (lockOrder X)
          (fun _ ks'' => Extends ks ks'') ks')
    (hInserted :
      ∀ ks', Extends ks ks' →
        ⟨.resource resourceId, .share⟩ ∈ ks' →
          (f true).wp (lockOrder X)
            (fun _ ks'' => Extends ks ks'') ks') :
    ((insertConfirmed resourceId owner userId).bind f).wp
      (lockOrder X) (fun _ ks' => Extends ks ks') ks := by
  have hExtends₁ :
      Extends ks (⟨.resource resourceId, .share⟩ :: ks) :=
    extends_cons (by rintro id ⟨⟩)
  have hUnpatched₁ :=
    hExtends₁.unpatched hCreating.unpatched
  rw [Prog.wp_bind]
  refine lock_wp (.resource ?_ hCreating.unpatched) ?_
  · intro h hMem
    have hLow := hCreating.low h hMem
    change h.object.rank < 2 ^ 128 + 4
    omega
  refine mark_wp (select_wp ?_)
  intro overlaps
  cases overlaps with
  | true =>
      change
        (f false).wp (lockOrder X) _
          (sinceBefore (_ :: ks).length (_ :: ks))
      rw [(Extends.refl _).sinceBefore]
      exact hUndone _ hExtends₁
  | false =>
      refine
        seq_wp
          (insertBooking_wp List.mem_cons_self hUnpatched₁)
          ?_
      intro _ ks₂ hExtends₂
      exact
        hInserted ks₂ (hExtends₁.trans hExtends₂)
          (hExtends₂.mem List.mem_cons_self)

theorem createBooking_keeps :
    (createBooking resourceId userId key bookingId).Keeps
      (lockOrder X) := by
  apply assertCurrent_wp
  apply executeCreate_wp _ 5 creating_principal
  intro ks hCreating
  refine insertConfirmed_wp hCreating ?_ ?_
  · intro ks' hExtends
    exact hExtends
  · intro ks' hExtends hResource
    exact
      Prog.wp_mono _ (fun _ _ hMore => hExtends.trans hMore)
        (appendEvent_wp (Or.inr hResource))

theorem createBlackout_keeps :
    (createBlackout resourceId userId key).Keeps
      (lockOrder X) := by
  apply assertCurrent_wp
  apply executeCreate_wp _ 5 creating_principal
  intro ks hCreating
  refine insertConfirmed_wp hCreating ?_ ?_
  · intro ks' hExtends
    exact hExtends
  · intro ks' hExtends hResource
    exact
      Prog.wp_mono _ (fun _ _ hMore => hExtends.trans hMore)
        (references_wp (hExtends.mem hCreating.user))

end PigBook.LockOrder

------------------------------------------------------------
-- Accounts in Order
------------------------------------------------------------

namespace PigBook.LockOrder

open Locking

variable {X : Primitives} {ks : List locks.Key}
variable {userId familyId tokenId actorId targetId : Uuid}

/- A patch from where it has both of its users. -/
theorem patching_wp
    {mode : Mode}
    (hTarget : ⟨.user targetId, .update⟩ ∈ ks)
    (hActor : ⟨.user actorId, mode⟩ ∈ ks) :
    ((forUpdate (.user targetId)).bind (fun _ =>
      (updateRow (.user targetId)).bind (fun _ =>
        (Prog.select (List (Uuid × Uuid))).bind (fun tokens =>
          (Prog.each (updateToken targetId) tokens).bind
            (fun _ => appendAuditLog actorId))))).wp
      (lockOrder X) (fun _ _ => True) ks := by
  refine
    ⟨.again hTarget rfl le_rfl,
      .again (List.mem_cons_of_mem _ hTarget) rfl
        (Nat.le_succ 2), ?_⟩
  refine select_wp ?_
  intro tokens
  have hTarget₂ :
      (⟨.user targetId, .update⟩ : Lock) ∈
        (⟨.user targetId, .noKeyUpdate⟩ ::
          ⟨.user targetId, .update⟩ :: ks :
            List locks.Key) :=
    List.mem_cons_of_mem _ List.mem_cons_self
  refine seq_wp (each_wp ?_ tokens) ?_
  · intro token ks' hExtends
    exact
      acquire_wp (.token (Or.inl (hExtends.mem hTarget₂)))
        (by rintro id ⟨⟩)
  · intro _ ks' hExtends
    have hActor' :=
      hExtends.mem
        (List.mem_cons_of_mem _
          (List.mem_cons_of_mem _ hActor))
    exact
      Prog.wp_mono _ (fun _ _ _ => trivial)
        (references_wp hActor')

theorem updateUser_keeps :
    (updateUser actorId targetId).Keeps (lockOrder X) := by
  refine ⟨.guard rfl, ?_⟩
  have hGuard :
      (⟨.advisory 714001, .update⟩ : Lock) ∈
        ([⟨.advisory 714001, .update⟩] : List locks.Key) :=
    List.mem_cons_self
  have hFirst :
      ∀ (id : Uuid) (mode : Mode),
        Climbs [⟨.advisory 714001, .update⟩]
          ⟨.user id, mode⟩ := by
    intro id mode h hMem
    rw [List.mem_singleton.mp hMem]
    exact Nat.succ_pos id.val
  have hUnpatched :
      Unpatched [⟨.advisory 714001, .update⟩] := by
    intro id hMem
    cases List.mem_singleton.mp hMem
  by_cases hSame : actorId = targetId
  · rw [if_pos hSame, hSame]
    refine ⟨.target hGuard (hFirst _ _) hUnpatched, ?_⟩
    exact patching_wp List.mem_cons_self List.mem_cons_self
  · rw [if_neg hSame]
    by_cases hLess : actorId < targetId
    · rw [if_pos hLess]
      refine ⟨.actor hGuard, .target ?_ ?_ ?_, ?_⟩
      · exact List.mem_cons_of_mem _ hGuard
      · intro h hMem
        rcases List.mem_cons.mp hMem with rfl | hOld
        · exact Nat.succ_lt_succ hLess
        · exact hFirst targetId .update h hOld
      · exact
          (extends_cons (by rintro id ⟨⟩)).unpatched
            hUnpatched
      · exact
          patching_wp List.mem_cons_self
            (List.mem_cons_of_mem _ List.mem_cons_self)
    · rw [if_neg hLess]
      refine
        ⟨.target hGuard (hFirst _ _) hUnpatched,
          .actor (List.mem_cons_of_mem _ hGuard), ?_⟩
      exact
        patching_wp
          (List.mem_cons_of_mem _ List.mem_cons_self)
          List.mem_cons_self

/- The locks of one who has a family of tokens. -/
structure Family
    (X : Primitives)
    (userId familyId : Uuid)
    (ks : List locks.Key) : Prop where
  user : ⟨.user userId, .share⟩ ∈ ks
  family :
    ⟨.advisory (X.deriveFamilyAdvisoryKey familyId),
      .update⟩ ∈ ks

theorem Family.extend
    {ks' : List locks.Key}
    (hFamily : Family X userId familyId ks)
    (hExtends : Extends ks ks') :
    Family X userId familyId ks' where
  user := hExtends.mem hFamily.user
  family := hExtends.mem hFamily.family

theorem Family.token_wp
    {mode : Mode}
    {id : Uuid}
    (hFamily : Family X userId familyId ks) :
    (Prog.acquire (L := locks)
      ⟨.refreshToken userId familyId id, mode⟩).wp
      (lockOrder X) (fun _ ks' => Extends ks ks') ks :=
  acquire_wp
    (.token (Or.inr ⟨hFamily.user, hFamily.family⟩))
    (by rintro id ⟨⟩)

/- The user comes first, and then the family. -/
theorem family_wp
    {β : Type}
    {f : Unit → LockM β}
    {post : β → List locks.Key → Prop}
    (hNoGuard : X.deriveFamilyAdvisoryKey familyId ≠ 714001)
    (hNext :
      ∀ ks, Family X userId familyId ks →
        (f ()).wp (lockOrder X) post ks) :
    ((forShare (.user userId)).bind (fun _ =>
      (forUpdate
        (.advisory
          (X.deriveFamilyAdvisoryKey familyId))).bind f)).wp
      (lockOrder X) post [] := by
  apply assertCurrent_wp
  refine ⟨.family ?_ ?_, hNext _ ⟨?_, ?_⟩⟩
  · intro h hMem
    have hRank :
        (Object.advisory
          (X.deriveFamilyAdvisoryKey familyId)).rank =
            2 ^ 128 + 2 :=
      if_neg hNoGuard
    rw [List.mem_singleton.mp hMem, hRank]
    change userId.val + 1 < 2 ^ 128 + 2
    omega
  · intro id hMem
    cases List.mem_singleton.mp hMem
  · exact List.mem_cons_of_mem _ List.mem_cons_self
  · exact List.mem_cons_self

theorem revokeFamily_wp
    (hNoGuard :
      X.deriveFamilyAdvisoryKey familyId ≠ 714001) :
    (revokeFamily X userId familyId tokenId).wp (lockOrder X)
      (fun _ ks' => ⟨.user userId, .share⟩ ∈ ks') [] := by
  apply family_wp hNoGuard
  intro ks hFamily
  refine seq_wp hFamily.token_wp ?_
  intro _ ks₁ hExtends₁
  have hFamily₁ := hFamily.extend hExtends₁
  refine select_wp ?_
  intro tokens
  refine
    Prog.wp_mono _
      (fun _ _ hMore => (hFamily₁.extend hMore).user)
      (each_wp ?_ tokens)
  intro token ks' hExtends
  exact (hFamily₁.extend hExtends).token_wp

theorem rotateRefresh_keeps
    (hNoGuard :
      X.deriveFamilyAdvisoryKey familyId ≠ 714001) :
    (rotateRefresh X userId familyId tokenId).Keeps
      (lockOrder X) := by
  apply family_wp hNoGuard
  intro ks hFamily
  refine seq_wp hFamily.token_wp ?_
  intro _ ks₁ hExtends₁
  have hFamily₁ := hFamily.extend hExtends₁
  refine select_wp ?_
  intro reused
  cases reused with
  | true =>
      change
        ((revokeFamily X userId familyId tokenId).bind _).wp
          _ _ (sinceBefore 0 ks₁)
      have hNone : sinceBefore 0 ks₁ = [] := by
        unfold sinceBefore
        rw [Nat.sub_zero, List.drop_length]
      rw [hNone, Prog.wp_bind]
      refine Prog.wp_mono _ ?_ (revokeFamily_wp hNoGuard)
      intro _ ks' hUser
      exact
        Prog.wp_mono _ (fun _ _ _ => trivial)
          (references_wp hUser)
  | false =>
      refine seq_wp hFamily₁.token_wp ?_
      intro _ ks₂ hExtends₂
      have hFamily₂ := hFamily₁.extend hExtends₂
      refine seq_wp (references_wp hFamily₂.user) ?_
      intro _ ks₃ hExtends₃
      exact
        Prog.wp_mono _ (fun _ _ _ => trivial)
          (hFamily₂.extend hExtends₃).token_wp

/- Every transaction keeps to the order of the locks. -/
theorem Transaction.keeps
    (t : Transaction)
    (hNoGuard :
      ∀ familyId ∈ t.familyId,
        X.deriveFamilyAdvisoryKey familyId ≠ 714001) :
    (t.program X).Keeps (lockOrder X) := by
  cases t with
  | createBooking => exact createBooking_keeps
  | createBlackout => exact createBlackout_keeps
  | cancelBooking => exact cancelBooking_keeps
  | cancelBlackout => exact cancelBlackout_keeps
  | joinWaitlist => exact joinWaitlist_keeps
  | acceptOffer => exact acceptOffer_keeps
  | declineEntry => exact declineEntry_keeps
  | updateResource => exact updateResource_keeps
  | updateUser => exact updateUser_keeps
  | rotateRefresh userId familyId tokenId =>
      exact rotateRefresh_keeps (hNoGuard familyId rfl)
  | revokeFamily userId familyId tokenId =>
      exact
        Prog.wp_mono _ (fun _ _ _ => trivial)
          (revokeFamily_wp (hNoGuard familyId rfl))
  | expireAndPromote => exact expireAndPromote_keeps
  | recordHeartbeat =>
      exact ⟨.workerHeartbeat rfl, trivial⟩

end PigBook.LockOrder

------------------------------------------------------------
-- No Deadlock
------------------------------------------------------------

namespace PigBook

open Locking LockOrder

/-
  Whatever transactions run at once, they never wait for each
  other in a circle, provided that no family of tokens has the
  advisory key of the patches.
-/
theorem no_deadlock
    {X : Primitives}
    {families : Set Uuid}
    (hNoGuard :
      ∀ familyId ∈ families,
        X.deriveFamilyAdvisoryKey familyId ≠ 714001)
    {s : State locks}
    (hReach : Reachable (transactions X families) s) :
    Acyclic s := by
  apply hReach.acyclic (lockOrder_ranking X)
  rintro p ⟨t, hFamilies, rfl⟩
  apply t.keeps
  intro familyId hFamily
  exact hNoGuard familyId (hFamilies familyId hFamily)

end PigBook

------------------------------------------------------------
-- A Promotion that Waits
------------------------------------------------------------

namespace PigBook.LockOrder

open Locking

/- The digest for family 1. -/
def digestOfOne : String :=
  "cafd7d183de639e5144f838bdda36494" ++
  "160cafd186ed5b92bc21ffc511b11a92"

def oneDigest : Primitives :=
  { plainPrimitives with
    sha256 := fun _ => digestOfOne }

theorem oneDigest_noGuard :
    oneDigest.deriveFamilyAdvisoryKey 1 ≠ 714001 := by
  have hValue :
      Primitives.hexValue (digestOfOne.toList.take 16) =
        0xcafd7d183de639e5 := by
    decide +kernel
  unfold Primitives.deriveFamilyAdvisoryKey oneDigest
  simp only [hValue]
  decide

/- Two transactions and no others. -/
def pair (a b : Option (Holder locks)) : State locks
| 0 => a
| 1 => b
| _ => none

variable {programs : LockM Unit → Prop}
variable {a b o : Option (Holder locks)}

theorem reachable_pair :
    Reachable programs (pair none none) := by
  have hNone : pair none none = fun _ => none := by
    funext pid
    match pid with
    | 0 => rfl
    | 1 => rfl
    | _ + 2 => rfl
  rw [hNone]
  exact .refl

theorem reachable_zero
    (hReach : Reachable programs (pair a b))
    (hStep :
      Step programs (pair a b)
        (Function.update (pair a b) 0 o)) :
    Reachable programs (pair o b) := by
  have hPair : Function.update (pair a b) 0 o = pair o b := by
    funext pid
    match pid with
    | 0 => rfl
    | 1 => rfl
    | _ + 2 => rfl
  rw [← hPair]
  exact hReach.tail hStep

theorem reachable_one
    (hReach : Reachable programs (pair a b))
    (hStep :
      Step programs (pair a b)
        (Function.update (pair a b) 1 o)) :
    Reachable programs (pair a o) := by
  have hPair : Function.update (pair a b) 1 o = pair a o := by
    funext pid
    match pid with
    | 0 => rfl
    | 1 => rfl
    | _ + 2 => rfl
  rw [← hPair]
  exact hReach.tail hStep

theorem free_zero
    {k : Lock}
    (hFree :
      ∀ tx, b = some tx → ∀ k' ∈ tx.held,
        Lock.object k' ≠ k.object) :
    Free (pair a b) 0 k := by
  intro pid tx hNe hTx k' hKey hConflict
  match pid with
  | 0 => exact hNe rfl
  | 1 => exact hFree tx hTx k' hKey hConflict.1.symm
  | _ + 2 => cases hTx

theorem free_one
    {k : Lock}
    (hFree :
      ∀ tx, a = some tx → ∀ k' ∈ tx.held,
        Lock.object k' ≠ k.object) :
    Free (pair a b) 1 k := by
  intro pid tx hNe hTx k' hKey hConflict
  match pid with
  | 0 => exact hFree tx hTx k' hKey hConflict.1.symm
  | 1 => exact hNe rfl
  | _ + 2 => cases hTx

/-
  User 1 patches user 2, who waits for a window of resource 5
  that the scheduler promotes.
-/
theorem promotion_waits :
    ∃ s, Reachable (transactions oneDigest {1}) s ∧
      WaitsFor s 1 0 := by
  have h₁ :
      Reachable (transactions oneDigest {1})
        (pair (some ⟨[], updateUser 1 2⟩) none) :=
    reachable_zero reachable_pair
      (.begins rfl ⟨.updateUser 1 2, nofun, rfl⟩)
  -- the patch locks both of its users
  have h₂ :=
    reachable_zero h₁
      (.locks rfl (free_zero (by rintro tx ⟨⟩)))
  have h₃ :=
    reachable_zero h₂
      (.locks rfl (free_zero (by rintro tx ⟨⟩)))
  have h₄ :=
    reachable_zero h₃
      (.locks rfl (free_zero (by rintro tx ⟨⟩)))
  -- the scheduler gets to its offer
  have h₅ :=
    reachable_one h₄
      (.begins rfl ⟨.expireAndPromote 5, nofun, rfl⟩)
  have h₆ :=
    reachable_one h₅
      (.tries rfl (free_one (by rintro tx ⟨⟩; simp)))
  have h₇ := reachable_one h₆ (.reads rfl [])
  have h₈ :=
    reachable_one h₇
      (.locks rfl (free_one (by rintro tx ⟨⟩; simp)))
  have h₉ :=
    reachable_one h₈ (.reads rfl [.offered 7 2 8])
  have h₁₀ := reachable_one h₉ (.marks rfl)
  have h₁₁ := reachable_one h₁₀ (.reads rfl false)
  have h₁₂ :=
    reachable_one h₁₁
      (.locks rfl (free_one (by rintro tx ⟨⟩; simp)))
  refine ⟨_, h₁₂, by decide, _, _, _, _, rfl, rfl, ?_⟩
  exact
    ⟨⟨.user 2, .update⟩, List.mem_cons_self, rfl, trivial⟩

end PigBook.LockOrder

namespace PigBook

open Locking LockOrder

/- The promotion waits, but nobody waits in a circle. -/
theorem no_deadlock_promotion :
    ∃ s : State locks,
      Reachable (transactions oneDigest {1}) s ∧
        WaitsFor s 1 0 ∧ Acyclic s := by
  rcases promotion_waits with ⟨s, hReach, hWaits⟩
  exact
    ⟨s, hReach, hWaits,
      no_deadlock
        (by
          intro familyId hFamily
          rw [Set.mem_singleton_iff.mp hFamily]
          exact oneDigest_noGuard)
        hReach⟩

end PigBook
