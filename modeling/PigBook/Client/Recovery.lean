import PigBook.Client.Binding

/-
  What becomes of the attempt in the slot.

  Both dialogs use the one slot, an answer clears it whatever
  it holds, and so does the page that restores it for another
  principal.  These are the only ways in which an attempt is
  lost that is neither answered nor given up.

  Key definitions include:
    * `GivesUp`, `Settles`
    * `Overwrites`, `Misfires`, `Evicts`
    * `App.Owned`, `Strands`
    * `Kept`

  Key theorems include:
    * `slot_step`
    * `attempts_kept_iff`
-/

------------------------------------------------------------
-- Losses
------------------------------------------------------------

namespace PigBook.Client

/- The user gives an attempt up, or the session ends. -/
def GivesUp (e : DialogEvent) (s : App) : Prop :=
  match e with
  | .startedNew => True
  | .abandonConfirmed => True
  | .blackoutAbandoned => True
  | .signedOut => True
  | .editedStart _ => s.blackout.isUncertain = true
  | .editedEnd _ => s.blackout.isUncertain = true
  | _ => False

/- A definitive answer to a POST with the key. -/
def Settles
    (e : DialogEvent)
    (key : Uuid)
    (s : App) : Prop :=
  ∃ n outcome p, e = .answered n outcome ∧
    s.posts[n]? = some p ∧ outcome.definitive = true ∧
    p.attempt.key = key

/- A definitive answer to a POST with another key. -/
def Misfires
    (e : DialogEvent)
    (key : Uuid)
    (s : App) : Prop :=
  ∃ n outcome p, e = .answered n outcome ∧
    s.posts[n]? = some p ∧ outcome.definitive = true ∧
    p.attempt.key ≠ key

/- A dialog that knows of no attempt begins one. -/
def Overwrites (zone : Zone) (e : DialogEvent) (s : App) : Prop :=
  match e with
  | .bookingSubmitted _ =>
      s.user.isSome = true ∧ s.booking.resource.isSome = true ∧
        s.booking.replayed = none ∧
        s.booking.bookingWindow.isSome = true
  | .blackoutSubmitted _ =>
      s.user.isSome = true ∧
        (s.blackout.validate zone).isSome = true ∧
        s.blackout.activeAttempt = none
  | _ => False

/- The attempt in the slot stays, or it is no longer needed. -/
def Kept (e : DialogEvent) (s s' : App) : Prop :=
  ∀ a, s.slot = some a →
    s'.slot = some a ∨ GivesUp e s ∨ Settles e a.key s

/-
  The principal for whom the slot is read in the course of a
  step, if it is: a page or a dialog restores the attempt.
-/
def restoredFor (e : DialogEvent) (s : App) : Option Uuid :=
  match e with
  | .navigated page => if page = .resource then s.user else none
  | .reloaded => if s.page = .resource then s.user else none
  | .bookingShown isOpen _ _ =>
      if isOpen ∧ ¬ s.booking.isOpen then s.user else none
  | .blackoutOpened => s.user
  | .blackoutMoved _ =>
      if s.blackout.isOpen then s.user else none
  | .userRefreshed user =>
      if s.booking.isOpen ∨ s.page = .resource ∨
          s.blackout.isOpen then
        some user
      else
        none
  | .signedIn user =>
      if s.page = .resource then some user else none
  | _ => none

/- It is cleared, as it is not the principal's. -/
def Evicts
    (e : DialogEvent)
    (a : CreateAttempt)
    (s : App) : Prop :=
  ∃ user, restoredFor e s = some user ∧ a.principalId ≠ user

/- The attempt in the slot is the signed-in principal's. -/
def App.Owned (s : App) : Prop :=
  ∀ a, s.slot = some a → s.user = some a.principalId

/- Another principal is signed in, and nothing is restored. -/
def Strands (e : DialogEvent) (s : App) : Prop :=
  restoredFor e s = none ∧
  ∃ a user, e = .userRefreshed user ∧ s.slot = some a ∧
    a.principalId ≠ user

/- The user after a step. -/
def nextUser (e : DialogEvent) (s : App) : Option Uuid :=
  match e with
  | .userRefreshed user => some user
  | .signedIn user => some user
  | .signedOut => none
  | _ => s.user

/- What restoring it for a principal leaves of the storage. -/
def SessionStorage.restored
    (storage : SessionStorage)
    (user : Option Uuid) : SessionStorage :=
  match user with
  | some user => (restoreAttempt user storage).2
  | none => storage

theorem restored_slot
    {user : Uuid}
    {storage : SessionStorage}
    {a : CreateAttempt} :
    (storage.restored (some user)).slot = some a ↔
      storage.slot = some a ∧ a.principalId = user := by
  unfold SessionStorage.restored restoreAttempt
  dsimp only
  cases hSlot : storage.slot with
  | none => simp [hSlot]
  | some attempt =>
      dsimp only
      split
      · rename_i hOther
        rw [slot_clearAttempt]
        constructor
        · intro hNone
          cases hNone
        · rintro ⟨hSame, hOwn⟩
          cases hSame
          exact absurd hOwn hOther
      · rename_i hOwn
        rw [not_not] at hOwn
        rw [hSlot]
        constructor
        · intro hSame
          cases hSame
          exact ⟨rfl, hOwn⟩
        · exact fun hBoth => hBoth.1

/- To restore it once more for the principal does nothing. -/
theorem restored_twice
    (user : Option Uuid)
    (storage : SessionStorage) :
    (storage.restored user).restored user =
      storage.restored user := by
  cases user with
  | none => rfl
  | some user =>
      unfold SessionStorage.restored restoreAttempt
      dsimp only
      cases hSlot : storage.slot with
      | none => simp only [hSlot]
      | some attempt =>
          by_cases hForeign : attempt.principalId ≠ user
          · simp only [if_pos hForeign, slot_clearAttempt]
          · simp only [if_neg hForeign, hSlot]

theorem bookingEffect_storage (s : App) :
    (bookingEffect s).user = s.user ∧
    (bookingEffect s).page = s.page ∧
    (bookingEffect s).blackout = s.blackout ∧
    (bookingEffect s).storage =
      s.storage.restored
        (if s.booking.isOpen then s.user else none) := by
  unfold bookingEffect
  split
  · rename_i hUser
    rw [hUser, ite_self]
    exact ⟨rfl, rfl, rfl, rfl⟩
  rename_i user hUser
  by_cases hOpen : s.booking.isOpen = false
  · rw [if_pos hOpen, hOpen]
    exact ⟨rfl, rfl, rfl, rfl⟩
  · rw [if_neg hOpen, if_pos ((Bool.not_eq_false _).mp hOpen),
      hUser]
    dsimp only
    split
    · exact ⟨rfl, rfl, rfl, rfl⟩
    · split
      · exact ⟨rfl, rfl, rfl, rfl⟩
      · exact ⟨rfl, rfl, rfl, rfl⟩

variable {zone : Zone}

theorem blackoutEffect_storage (s : App) :
    (blackoutEffect zone s).user = s.user ∧
    (blackoutEffect zone s).storage =
      s.storage.restored
        (if s.blackout.isOpen then s.user else none) := by
  unfold blackoutEffect
  split
  · rename_i hUser
    rw [hUser, ite_self]
    exact ⟨rfl, rfl⟩
  rename_i user hUser
  by_cases hOpen : s.blackout.isOpen = false
  · rw [if_pos hOpen, hOpen]
    exact ⟨rfl, rfl⟩
  · rw [if_neg hOpen, if_pos ((Bool.not_eq_false _).mp hOpen),
      hUser]
    dsimp only
    split
    · exact ⟨rfl, rfl⟩
    · split
      · exact ⟨rfl, rfl⟩
      · split
        · exact ⟨rfl, rfl⟩
        · exact ⟨rfl, rfl⟩

theorem resourceEffect_storage (s : App) :
    s.resourceEffect.user = s.user ∧
    s.resourceEffect.blackout = s.blackout ∧
    s.resourceEffect.storage =
      s.storage.restored
        (if s.page = .resource then s.user else none) := by
  unfold App.resourceEffect
  split
  · rename_i user hPage hUser
    rw [if_pos hPage, hUser]
    exact ⟨rfl, rfl, rfl⟩
  · rename_i hNot
    refine ⟨rfl, rfl, ?_⟩
    by_cases hPage : s.page = .resource
    · rw [if_pos hPage]
      cases hUser : s.user with
      | none => rfl
      | some user => exact absurd hUser (hNot user hPage)
    · rw [if_neg hPage]
      rfl

theorem showPage_storage (page : Page) (s : App) :
    (s.showPage page).user = s.user ∧
    (s.showPage page).storage =
      s.storage.restored
        (if page = .resource then s.user else none) := by
  have hEffect := resourceEffect_storage (s.mountPage page)
  exact ⟨hEffect.1, hEffect.2.2⟩

end PigBook.Client

------------------------------------------------------------
-- Steps
------------------------------------------------------------

namespace PigBook.Client

variable {zone : Zone}

/-
  What a step does to the slot: it is restored, if at all, or
  cleared for a reason, or an attempt is begun and stored.
-/
inductive SlotMove
    (zone : Zone)
    (e : DialogEvent)
    (s s' : App) : Prop
  | restored
      (hStorage :
        s'.storage = s.storage.restored (restoredFor e s))
  | givenUp
      (hGives : GivesUp e s)
      (hNone : s'.slot = none)
  | answered
      (n : ℕ)
      (outcome : Outcome)
      (p : Post)
      (hEvent : e = .answered n outcome)
      (hPost : s.posts[n]? = some p)
      (hDefinitive : outcome.definitive = true)
      (hNone : s'.slot = none)
  | begun
      (a : CreateAttempt)
      (hOverwrites : Overwrites zone e s)
      (hFresh : a.key ∉ s.keys)
      (hUser : s.user = some a.principalId)
      (hStorage : s'.storage = s.storage.setItem a)

theorem windowToUse_of_none
    {d : BookingDialog}
    (hNone : d.replayed = none) :
    d.windowToUse = d.bookingWindow := by
  unfold BookingDialog.windowToUse
  rw [hNone]

theorem bookingSubmit_slot
    {key : Uuid}
    {s s' : App}
    (hSubmit : bookingSubmit key s = some s') :
    SlotMove zone (.bookingSubmitted key) s s' ∧
      s'.user = nextUser (.bookingSubmitted key) s := by
  unfold bookingSubmit at hSubmit
  split at hSubmit
  · rename_i user resource times hUser hResource hWindow
    split at hSubmit
    · cases hSubmit
      exact ⟨.restored rfl, rfl⟩
    · rename_i hNone
      split at hSubmit
      · cases hSubmit
      · rename_i hFresh
        cases hSubmit
        rw [windowToUse_of_none hNone] at hWindow
        refine ⟨?_, rfl⟩
        apply
          SlotMove.begun
            ⟨key, ⟨resource, times⟩, .booking, user, s.now⟩
        · exact
            ⟨by rw [hUser]; rfl, by rw [hResource]; rfl, hNone,
              by rw [hWindow]; rfl⟩
        · exact hFresh
        · exact hUser
        · rfl
  · cases hSubmit
    exact ⟨.restored rfl, rfl⟩

theorem blackoutSubmit_slot
    {key : Uuid}
    {s s' : App}
    (hSubmit : blackoutSubmit zone key s = some s') :
    SlotMove zone (.blackoutSubmitted key) s s' ∧
      s'.user = nextUser (.blackoutSubmitted key) s := by
  unfold blackoutSubmit at hSubmit
  split at hSubmit
  · rename_i times user hTimes hUser
    dsimp only at hSubmit
    split at hSubmit
    · cases hSubmit
      exact ⟨.restored rfl, rfl⟩
    · rename_i hNone
      split at hSubmit
      · cases hSubmit
      · rename_i hFresh
        cases hSubmit
        refine ⟨?_, rfl⟩
        apply
          SlotMove.begun
            ⟨key, ⟨s.blackout.resourceId, times⟩, .blackout,
              user, s.now⟩
        · exact
            ⟨by rw [hUser]; rfl, by rw [hTimes]; rfl, hNone⟩
        · exact hFresh
        · exact hUser
        · rfl
  · cases hSubmit
    exact ⟨.restored rfl, rfl⟩

theorem editField_slot
    {d : BlackoutDialog}
    {e : DialogEvent}
    {s : App}
    (hGives : s.blackout.isUncertain = true → GivesUp e s)
    (hUnread : restoredFor e s = none) :
    SlotMove zone e s (editField d s) ∧
      (editField d s).user = s.user := by
  unfold editField
  split
  · rename_i hUncertain
    exact
      ⟨.givenUp (hGives hUncertain)
        (slot_clearAttempt s.storage), rfl⟩
  · refine ⟨.restored ?_, rfl⟩
    rw [hUnread]
    rfl

theorem bookingStep_slot
    {e : DialogEvent}
    {s s' : App}
    (hStep : bookingStep e s = some s') :
    SlotMove zone e s s' ∧ s'.user = nextUser e s := by
  unfold bookingStep at hStep
  cases e with
  | bookingSubmitted key =>
      dsimp only at hStep
      split at hStep
      · exact bookingSubmit_slot hStep
      · cases hStep
  | startedNew =>
      dsimp only at hStep
      split at hStep
      · cases hStep
        exact
          ⟨.givenUp trivial (slot_clearAttempt s.storage), rfl⟩
      · cases hStep
  | abandoned =>
      dsimp only at hStep
      split at hStep
      · cases hStep
        exact ⟨.restored rfl, rfl⟩
      · cases hStep
  | abandonConfirmed =>
      dsimp only at hStep
      split at hStep
      · cases hStep
        exact
          ⟨.givenUp trivial (slot_clearAttempt s.storage), rfl⟩
      · cases hStep
  | _ => cases hStep

theorem blackoutStep_slot
    {e : DialogEvent}
    {s s' : App}
    (hStep : blackoutStep zone e s = some s') :
    SlotMove zone e s s' ∧ s'.user = nextUser e s := by
  unfold blackoutStep at hStep
  cases e with
  | editedStart text =>
      dsimp only at hStep
      split at hStep
      · cases hStep
        exact editField_slot (fun hUncertain => hUncertain) rfl
      · cases hStep
  | editedEnd text =>
      dsimp only at hStep
      split at hStep
      · cases hStep
        exact editField_slot (fun hUncertain => hUncertain) rfl
      · cases hStep
  | blackoutSubmitted key =>
      dsimp only at hStep
      split at hStep
      · exact blackoutSubmit_slot hStep
      · cases hStep
  | blackoutClosed =>
      dsimp only at hStep
      split at hStep
      · cases hStep
        exact ⟨.restored rfl, rfl⟩
      · cases hStep
  | blackoutAbandoned =>
      dsimp only at hStep
      split at hStep
      · cases hStep
        exact
          ⟨.givenUp trivial (slot_clearAttempt s.storage), rfl⟩
      · cases hStep
  | _ => cases hStep

theorem answerPost_storage
    (p : Post)
    (outcome : Outcome)
    (s : App) :
    (answerPost p outcome s).storage =
        (if outcome.definitive then s.storage.clearAttempt
          else s.storage) ∧
      (answerPost p outcome s).user = s.user := by
  unfold answerPost
  dsimp only
  generalize hStart :
    (if outcome.definitive then s.clearAttempt else s) = t
  have hStorage :
      t.storage =
        (if outcome.definitive then s.storage.clearAttempt
          else s.storage) ∧ t.user = s.user := by
    rw [← hStart]
    split
    · exact ⟨rfl, rfl⟩
    · exact ⟨rfl, rfl⟩
  by_cases hMount : p.mount ≠ t.mount
  · rw [if_pos hMount]
    exact hStorage
  · rw [if_neg hMount]
    cases p.attempt.kind with
    | _ => exact hStorage

theorem restored_or
    (p q : Prop)
    [Decidable p]
    [Decidable q]
    (user : Uuid)
    (storage : SessionStorage) :
    (storage.restored (if p then some user else none)).restored
        (if q then some user else none) =
      storage.restored (if p ∨ q then some user else none) := by
  by_cases hFirst : p
  · rw [if_pos hFirst, if_pos (Or.inl hFirst)]
    split
    · exact restored_twice (some user) storage
    · rfl
  · rw [if_neg hFirst]
    simp only [hFirst, false_or]
    rfl

/- Where the page or a dialog is open, it is restored. -/
theorem refresh_slot
    (user : Uuid)
    (s : App) :
    SlotMove zone (.userRefreshed user) s
        (blackoutEffect zone
          (bookingEffect
            { s with user := some user }).resourceEffect) ∧
      (blackoutEffect zone
        (bookingEffect
          { s with user := some user }).resourceEffect).user =
        some user := by
  rcases bookingEffect_storage { s with user := some user } with
    ⟨hUser, hPage, hBlackout, hBooking⟩
  generalize bookingEffect { s with user := some user } = t
    at *
  rcases resourceEffect_storage t with
    ⟨hUser', hBlackout', hResource⟩
  rcases @blackoutEffect_storage zone t.resourceEffect with
    ⟨hUser'', hLast⟩
  rw [hUser', hUser] at hUser'' hLast
  refine ⟨.restored ?_, hUser''⟩
  rw [hLast, hResource, hBlackout', hBlackout, hPage, hUser,
    hBooking]
  dsimp only
  rw [restored_or, restored_or]
  rfl

theorem slot_step
    {e : DialogEvent}
    {s s' : App}
    (hStep : dialogStep zone e s = some s') :
    SlotMove zone e s s' ∧ s'.user = nextUser e s := by
  cases e with
  | navigated page =>
      cases hStep
      have hShown := showPage_storage page s
      exact ⟨.restored hShown.2, hShown.1⟩
  | reloaded =>
      cases hStep
      have hShown := showPage_storage s.page s
      exact ⟨.restored hShown.2, hShown.1⟩
  | bookingShown isOpen resource bookingWindow =>
      unfold dialogStep at hStep
      dsimp only at hStep
      split at hStep
      · split at hStep
        · rename_i hSame
          cases hStep
          refine ⟨.restored ?_, rfl⟩
          unfold restoredFor
          dsimp only
          rw [if_neg (by rw [hSame]; exact fun h => h.2 h.1)]
          rfl
        · rename_i hOther
          cases hStep
          have hEffect :=
            bookingEffect_storage
              { s with
                booking :=
                  { s.booking with
                    isOpen := isOpen
                    resource := resource
                    bookingWindow := bookingWindow } }
          refine ⟨.restored ?_, hEffect.1⟩
          rw [hEffect.2.2.2]
          unfold restoredFor
          dsimp only
          cases isOpen with
          | false => rfl
          | true =>
              have hClosed : s.booking.isOpen = false := by
                by_contra hOpen
                exact
                  hOther ((Bool.not_eq_false _).mp hOpen).symm
              rw [hClosed]
              rfl
      · cases hStep
  | blackoutOpened =>
      unfold dialogStep at hStep
      dsimp only at hStep
      split at hStep
      · cases hStep
      · cases hStep
        have hEffect :=
          @blackoutEffect_storage zone
            { s with
              blackout := { s.blackout with isOpen := true } }
        exact ⟨.restored hEffect.2, hEffect.1⟩
  | blackoutMoved resourceId =>
      unfold dialogStep at hStep
      dsimp only at hStep
      split at hStep
      · cases hStep
      · cases hStep
        have hEffect :=
          @blackoutEffect_storage zone
            { s with
              page := .blackouts resourceId
              blackout :=
                { s.blackout with resourceId := resourceId } }
        exact ⟨.restored hEffect.2, hEffect.1⟩
  | answered n outcome =>
      rcases Option.bind_eq_some_iff.mp hStep with
        ⟨p, hPost, hAnswer⟩
      cases hAnswer
      have hSame :=
        answerPost_storage p outcome
          { s with posts := s.posts.eraseIdx n }
      refine ⟨?_, hSame.2⟩
      by_cases hDefinitive : outcome.definitive = true
      · rw [if_pos hDefinitive] at hSame
        apply
          SlotMove.answered n outcome p rfl hPost hDefinitive
        unfold App.slot
        rw [hSame.1]
        exact slot_clearAttempt s.storage
      · rw [if_neg hDefinitive] at hSame
        exact .restored hSame.1
  | resent n =>
      rcases Option.bind_eq_some_iff.mp hStep with
        ⟨p, hPost, hSend⟩
      split at hSend
      · cases hSend
      · cases hSend
        exact ⟨.restored rfl, rfl⟩
  | userRefreshed user =>
      unfold dialogStep at hStep
      dsimp only at hStep
      split at hStep
      · cases hStep
        exact refresh_slot user s
      · cases hStep
  | signedIn user =>
      unfold dialogStep at hStep
      dsimp only at hStep
      split at hStep
      · cases hStep
      · cases hStep
        have hShown :=
          showPage_storage s.page { s with user := some user }
        exact ⟨.restored hShown.2, hShown.1⟩
  | signedOut =>
      cases hStep
      exact
        ⟨.givenUp trivial (slot_clearAttempt s.storage), rfl⟩
  | ticked d =>
      cases hStep
      exact ⟨.restored rfl, rfl⟩
  | bookingSubmitted key => exact bookingStep_slot hStep
  | startedNew => exact bookingStep_slot hStep
  | abandoned => exact bookingStep_slot hStep
  | abandonConfirmed => exact bookingStep_slot hStep
  | editedStart text => exact blackoutStep_slot hStep
  | editedEnd text => exact blackoutStep_slot hStep
  | blackoutSubmitted key => exact blackoutStep_slot hStep
  | blackoutClosed => exact blackoutStep_slot hStep
  | blackoutAbandoned => exact blackoutStep_slot hStep

end PigBook.Client

------------------------------------------------------------
-- Runs
------------------------------------------------------------

namespace PigBook.Client

open Machine

variable {zone : Zone}

/- Somebody is signed in while there is an attempt. -/
def App.Attended (s : App) : Prop :=
  ∀ a, s.slot = some a → s.user.isSome = true

theorem initial_empty
    (storage : SessionStorage)
    (now : ℤ) :
    (App.initial storage now).Attended ∧
      (App.initial storage now).Owned := by
  have hNone : (App.initial storage now).slot = none :=
    slot_clearAttempt storage
  constructor
  · intro a hSlot
    rw [hNone] at hSlot
    cases hSlot
  · intro a hSlot
    rw [hNone] at hSlot
    cases hSlot

/- What gives an attempt up does not read the slot. -/
theorem unread_of_givesUp
    {e : DialogEvent}
    {s : App}
    (hGives : GivesUp e s) :
    restoredFor e s = none := by
  cases e
  all_goals first
    | rfl
    | exact absurd hGives id

theorem unread_of_overwrites
    {e : DialogEvent}
    {s : App}
    (hOverwrites : Overwrites zone e s) :
    restoredFor e s = none ∧ nextUser e s = s.user := by
  cases e with
  | bookingSubmitted key => exact ⟨rfl, rfl⟩
  | blackoutSubmitted key => exact ⟨rfl, rfl⟩
  | _ => exact absurd hOverwrites id

/- An attempt in the slot was there, or it has been begun. -/
theorem slot_origin
    {e : DialogEvent}
    {s s' : App}
    {a : CreateAttempt}
    (hStep : dialogStep zone e s = some s')
    (hSlot : s'.slot = some a) :
    (s.slot = some a ∧ e ≠ .signedOut ∧
      ∀ user, restoredFor e s = some user →
        a.principalId = user) ∨
    Overwrites zone e s ∧ s.user = some a.principalId ∧
      s'.user = s.user := by
  have hStays : e ≠ .signedOut := by
    rintro rfl
    cases hStep
    have hNone :
        ({ (s.mountPage s.page).clearAttempt with
          user := none } : App).slot = none :=
      slot_clearAttempt s.storage
    rw [hNone] at hSlot
    cases hSlot
  rcases slot_step hStep with ⟨hMove, hUser⟩
  cases hMove with
  | restored hStorage =>
      left
      unfold App.slot at hSlot ⊢
      rw [hStorage] at hSlot
      cases hFor : restoredFor e s with
      | none =>
          rw [hFor] at hSlot
          refine ⟨hSlot, hStays, ?_⟩
          intro user hSome
          cases hSome
      | some user =>
          rw [hFor, restored_slot] at hSlot
          refine ⟨hSlot.1, hStays, ?_⟩
          intro user' hSome
          cases hSome
          exact hSlot.2
  | givenUp hGives hNone =>
      rw [hNone] at hSlot
      cases hSlot
  | answered n outcome p hEvent hPost hDefinitive hNone =>
      rw [hNone] at hSlot
      cases hSlot
  | begun a' hOverwrites hFresh hBegins hStorage =>
      right
      unfold App.slot at hSlot
      rw [hStorage] at hSlot
      rw [slot_setItem hSlot]
      rw [(unread_of_overwrites hOverwrites).2] at hUser
      exact ⟨hOverwrites, hBegins, hUser⟩

theorem nextUser_isSome
    {e : DialogEvent}
    {s : App}
    (hStays : e ≠ .signedOut)
    (hUser : s.user.isSome = true) :
    (nextUser e s).isSome = true := by
  cases e with
  | userRefreshed user => rfl
  | signedIn user => rfl
  | signedOut => exact absurd rfl hStays
  | _ => exact hUser

theorem attended_step
    {e : DialogEvent}
    {s s' : App}
    (hAttended : s.Attended)
    (hStep : dialogStep zone e s = some s') :
    s'.Attended := by
  intro a hSlot
  rcases slot_origin hStep hSlot with
    ⟨hOld, hStays, -⟩ | ⟨-, hUser, hSame⟩
  · rw [(slot_step hStep).2]
    exact nextUser_isSome hStays (hAttended a hOld)
  · rw [hSame, hUser]
    rfl

/- The slot is read for who is signed in then. -/
theorem nextUser_of_restoredFor
    {e : DialogEvent}
    {s : App}
    {user : Uuid}
    (hFor : restoredFor e s = some user) :
    nextUser e s = some user := by
  unfold restoredFor at hFor
  unfold nextUser
  cases e
  all_goals dsimp only at hFor ⊢
  all_goals first
    | exact hFor
    | cases hFor
    | skip
  all_goals
    split at hFor
    · exact hFor
    · cases hFor

theorem owned_of_restored
    {e : DialogEvent}
    {s s' : App}
    {user : Uuid}
    (hFor : restoredFor e s = some user)
    (hStep : dialogStep zone e s = some s') :
    s'.Owned := by
  intro a hSlot
  rcases slot_origin hStep hSlot with
    ⟨-, -, hOwn⟩ | ⟨-, hUser, hSame⟩
  · rw [(slot_step hStep).2, nextUser_of_restoredFor hFor,
      hOwn user hFor]
  · rw [hSame]
    exact hUser

/- Nobody signs in where somebody is signed in. -/
theorem nextUser_of_owned
    {e : DialogEvent}
    {s s' : App}
    {owner : Uuid}
    (hUser : s.user = some owner)
    (hStays : e ≠ .signedOut)
    (hStep : dialogStep zone e s = some s') :
    nextUser e s = some owner ∨
      ∃ user, e = .userRefreshed user := by
  cases e with
  | userRefreshed user => exact Or.inr ⟨user, rfl⟩
  | signedIn user =>
      unfold dialogStep at hStep
      dsimp only at hStep
      rw [hUser, Option.isSome_some, if_pos rfl] at hStep
      cases hStep
  | signedOut => exact absurd rfl hStays
  | _ => exact Or.inl hUser

/- Only who exchanges the user makes it another's attempt. -/
theorem owned_iff
    {e : DialogEvent}
    {s s' : App}
    (hOwned : s.Owned)
    (hStep : dialogStep zone e s = some s') :
    s'.Owned ↔ ¬ Strands e s := by
  constructor
  · intro hAfter hStrands
    rcases hStrands with
      ⟨hUnread, a, user, rfl, hSlot, hForeign⟩
    rcases slot_step hStep with ⟨hMove, hUser⟩
    cases hMove with
    | restored hStorage =>
        rw [hUnread] at hStorage
        have hStill : s'.slot = some a := by
          unfold App.slot
          rw [hStorage]
          exact hSlot
        have hSame := hAfter a hStill
        rw [hUser] at hSame
        exact hForeign (Option.some.inj hSame).symm
    | givenUp hGives hNone => exact hGives
    | answered n outcome p hEvent => cases hEvent
    | begun a' hOverwrites => exact hOverwrites
  · intro hTight a hSlot
    rcases slot_origin hStep hSlot with
      ⟨hOld, hStays, hOwn⟩ | ⟨-, hUser, hSame⟩
    · have hUser := hOwned a hOld
      rw [(slot_step hStep).2]
      rcases nextUser_of_owned hUser hStays hStep with
        hNext | ⟨user, rfl⟩
      · exact hNext
      · cases hFor : restoredFor (.userRefreshed user) s with
        | some user' =>
            rw [nextUser_of_restoredFor hFor, hOwn user' hFor]
        | none =>
            by_contra hForeign
            apply hTight
            refine ⟨hFor, a, user, rfl, hOld, ?_⟩
            intro hEq
            apply hForeign
            rw [hEq]
            rfl
    · rw [hSame]
      exact hUser

/- The step loses an attempt that is still needed. -/
def Leaks (zone : Zone) (e : DialogEvent) (s : App) : Prop :=
  ∃ a, s.slot = some a ∧
    (Misfires e a.key s ∨ Overwrites zone e s ∨ Evicts e a s)

/- The submission buttons are enabled. -/
theorem overwrites_begins
    {e : DialogEvent}
    {s s' : App}
    {a : CreateAttempt}
    (hSlot : s.slot = some a)
    (hOverwrites : Overwrites zone e s)
    (hStep : dialogStep zone e s = some s') :
    ∃ a', a'.key ∉ s.keys ∧ s'.slot = some a' := by
  have hStored :
      ∀ a' : CreateAttempt,
        (s.storage.setItem a').slot = some a' := by
    intro a'
    unfold App.slot at hSlot
    cases hStorage : s.storage with
    | none =>
        rw [hStorage] at hSlot
        cases hSlot
    | some slot => rfl
  cases e with
  | bookingSubmitted key =>
      rcases hOverwrites with
        ⟨hUser, hResource, hNone, hWindow⟩
      obtain ⟨user, hUser⟩ := Option.isSome_iff_exists.mp hUser
      obtain ⟨resource, hResource⟩ :=
        Option.isSome_iff_exists.mp hResource
      obtain ⟨times, hWindow⟩ :=
        Option.isSome_iff_exists.mp hWindow
      have hSubmit :
          bookingStep (.bookingSubmitted key) s = some s' :=
        hStep
      unfold bookingStep at hSubmit
      dsimp only at hSubmit
      split at hSubmit
      · unfold bookingSubmit at hSubmit
        rw [windowToUse_of_none hNone, hUser, hResource,
          hWindow] at hSubmit
        dsimp only at hSubmit
        rw [hNone] at hSubmit
        dsimp only at hSubmit
        split at hSubmit
        · cases hSubmit
        · rename_i hFresh
          cases hSubmit
          exact ⟨_, hFresh, hStored _⟩
      · cases hSubmit
  | blackoutSubmitted key =>
      rcases hOverwrites with ⟨hUser, hTimes, hNone⟩
      obtain ⟨user, hUser⟩ := Option.isSome_iff_exists.mp hUser
      obtain ⟨times, hTimes⟩ :=
        Option.isSome_iff_exists.mp hTimes
      have hSubmit :
          blackoutStep zone (.blackoutSubmitted key) s =
            some s' :=
        hStep
      unfold blackoutStep at hSubmit
      dsimp only at hSubmit
      split at hSubmit
      · unfold blackoutSubmit at hSubmit
        rw [hTimes, hUser] at hSubmit
        dsimp only at hSubmit
        rw [hNone] at hSubmit
        dsimp only at hSubmit
        split at hSubmit
        · cases hSubmit
        · rename_i hFresh
          cases hSubmit
          exact ⟨_, hFresh, hStored _⟩
      · cases hSubmit
  | _ => cases hOverwrites

/- A step keeps the attempt, if and only if it does not leak. -/
theorem kept_iff
    {e : DialogEvent}
    {s s' : App}
    (hCustody : Custody s)
    (hStep : dialogStep zone e s = some s') :
    Kept e s s' ↔ ¬ Leaks zone e s := by
  constructor
  · rintro hKept ⟨a, hSlot, hLeak⟩
    rcases hLeak with
      ⟨n, outcome, p, rfl, hPost, hDefinitive, hOther⟩ |
        hOverwrites | ⟨user, hFor, hForeign⟩
    · rcases hKept a hSlot with hSame | hGives | hSettles
      · rcases Option.bind_eq_some_iff.mp hStep with
          ⟨p', hPost', hAnswer⟩
        rw [hPost] at hPost'
        cases hPost'
        cases hAnswer
        have hStorage :=
          (answerPost_storage p outcome
            { s with posts := s.posts.eraseIdx n }).1
        rw [if_pos hDefinitive] at hStorage
        unfold App.slot at hSame
        rw [hStorage, slot_clearAttempt] at hSame
        cases hSame
      · exact hGives
      · rcases hSettles with
          ⟨n', outcome', p', hEvent, hPost', -, hKey⟩
        injection hEvent with hIndex
        rw [← hIndex, hPost] at hPost'
        cases hPost'
        exact hOther hKey
    · rcases overwrites_begins hSlot hOverwrites hStep with
        ⟨a', hFresh, hSlot'⟩
      rcases hKept a hSlot with hSame | hGives | hSettles
      · rw [hSlot'] at hSame
        cases hSame
        rcases hCustody.slot a hSlot with ⟨r, hMem, hAttempt⟩
        apply hFresh
        exact
          List.mem_map.mpr
            ⟨r, hMem, by rw [hAttempt]⟩
      · cases e with
        | bookingSubmitted key => exact hGives
        | blackoutSubmitted key => exact hGives
        | _ => exact hOverwrites
      · rcases hSettles with ⟨n, outcome, p, rfl, -⟩
        exact hOverwrites
    · rcases hKept a hSlot with hSame | hGives | hSettles
      · rcases slot_origin hStep hSame with
          ⟨-, -, hOwn⟩ | ⟨hOverwrites, -⟩
        · exact hForeign (hOwn user hFor)
        · rw [(unread_of_overwrites hOverwrites).1] at hFor
          cases hFor
      · rw [unread_of_givesUp hGives] at hFor
        cases hFor
      · rcases hSettles with ⟨n, outcome, p, rfl, -⟩
        cases hFor
  · intro hTight a hSlot
    cases (slot_step hStep).1 with
    | restored hStorage =>
        apply Or.inl
        unfold App.slot
        rw [hStorage]
        cases hFor : restoredFor e s with
        | none => exact hSlot
        | some user =>
            rw [restored_slot]
            refine ⟨hSlot, ?_⟩
            by_contra hForeign
            exact
              hTight
                ⟨a, hSlot, Or.inr (Or.inr ⟨user, hFor, hForeign⟩)⟩
    | givenUp hGives hNone => exact Or.inr (Or.inl hGives)
    | answered n outcome p hEvent hPost hDefinitive hNone =>
        apply Or.inr
        apply Or.inr
        by_contra hOther
        apply hTight
        refine ⟨a, hSlot, Or.inl ?_⟩
        refine
          ⟨n, outcome, p, hEvent, hPost, hDefinitive, ?_⟩
        intro hKey
        exact
          hOther ⟨n, outcome, p, hEvent, hPost, hDefinitive, hKey⟩
    | begun a' hOverwrites hFresh hUser hStorage =>
        exact
          absurd ⟨a, hSlot, Or.inr (Or.inl hOverwrites)⟩ hTight

/-
  After every run of the tab, the attempt in the slot has been
  sent and somebody is signed in.  It is the attempt of who is
  signed in, unless the user was exchanged at a step of the
  run that does not restore it; and where a step restores it,
  it is so again.  Whatever comes next keeps the attempt until
  it is answered or given up, if and only if it is neither a
  definitive answer to a POST with another key, nor the
  beginning of an attempt beside it, nor the restoring for
  another principal.
-/
theorem attempts_kept_iff
    {storage : SessionStorage}
    {now : ℤ}
    {es : List DialogEvent}
    {s : App}
    (hRun :
      run (dialogStep zone) es (App.initial storage now) =
        some s) :
    (∀ a, s.slot = some a →
      s.HasSent a ∧ s.user.isSome = true) ∧
    (s.Owned ∨
      ∃ es₁ e es₂ t, es = es₁ ++ e :: es₂ ∧
        run (dialogStep zone) es₁ (App.initial storage now) =
          some t ∧
        Strands e t) ∧
    ∀ e s', dialogStep zone e s = some s' →
      (s.Owned → (s'.Owned ↔ ¬ Strands e s)) ∧
      ((restoredFor e s).isSome = true → s'.Owned) ∧
      (Kept e s s' ↔ ¬ Leaks zone e s) := by
  have hAlways : Custody s ∧ s.Attended := by
    refine
      run_invariant (P := fun t => Custody t ∧ t.Attended) ?_
        ⟨Custody.initial storage now,
          (initial_empty storage now).1⟩
        hRun
    intro e t t' hBefore hStep
    exact ⟨hBefore.1.step hStep, attended_step hBefore.2 hStep⟩
  refine ⟨?_, ?_, ?_⟩
  · intro a hSlot
    exact ⟨hAlways.1.slot a hSlot, hAlways.2 a hSlot⟩
  · refine run_breaks ?_ (initial_empty storage now).2 hRun
    intro e t t' hOwned hStep
    by_cases hStrands : Strands e t
    · exact Or.inr hStrands
    · exact Or.inl ((owned_iff hOwned hStep).mpr hStrands)
  · intro e s' hStep
    refine
      ⟨fun hOwned => owned_iff hOwned hStep, ?_,
        kept_iff hAlways.1 hStep⟩
    intro hFor
    rcases Option.isSome_iff_exists.mp hFor with ⟨user, hUser⟩
    exact owned_of_restored hUser hStep

/-
  A booking whose answer is lost, then another page, and then
  another user in another tab.
-/
def elsewhere : List DialogEvent :=
  [.signedIn 2, .bookingShown true (some 7) (some ⟨9, 17⟩),
    .bookingSubmitted 1, .answered 0 .failure,
    .navigated (.blackouts 8)]

/-
  The page without an open dialog keeps the attempt when the
  user is another one, and the dialog clears it then.
-/
theorem attempts_kept_iff_elsewhere :
    (tab elsewhere).Owned ∧
    ¬ (tab (elsewhere ++ [.userRefreshed 5])).Owned ∧
    ∃ s', dialogStep threeTimes .blackoutOpened
        (tab (elsewhere ++ [.userRefreshed 5])) = some s' ∧
      s'.Owned ∧
      ¬ Kept .blackoutOpened
        (tab (elsewhere ++ [.userRefreshed 5])) s' := by
  have hRun :
      run (dialogStep threeTimes) elsewhere
          (App.initial (some none) 0) =
        some (tab elsewhere) := by
    decide +kernel
  have hSwitched :
      run (dialogStep threeTimes)
          (elsewhere ++ [.userRefreshed 5])
          (App.initial (some none) 0) =
        some (tab (elsewhere ++ [.userRefreshed 5])) := by
    decide +kernel
  have hSlot :
      (tab elsewhere).slot =
        some ⟨1, ⟨7, ⟨9, 17⟩⟩, .booking, 2, 0⟩ := by
    decide +kernel
  have hStill :
      (tab (elsewhere ++ [.userRefreshed 5])).slot =
        some ⟨1, ⟨7, ⟨9, 17⟩⟩, .booking, 2, 0⟩ := by
    decide +kernel
  have hStep :
      dialogStep threeTimes (.userRefreshed 5)
          (tab elsewhere) =
        some (tab (elsewhere ++ [.userRefreshed 5])) := by
    decide +kernel
  have hOpened :
      dialogStep threeTimes .blackoutOpened
          (tab (elsewhere ++ [.userRefreshed 5])) =
        some
          (tab
            (elsewhere ++
              [.userRefreshed 5, .blackoutOpened])) := by
    decide +kernel
  have hFor :
      restoredFor .blackoutOpened
          (tab (elsewhere ++ [.userRefreshed 5])) =
        some 5 := by
    decide +kernel
  have hOwned : (tab elsewhere).Owned := by
    intro a hSome
    rw [hSlot] at hSome
    cases hSome
    decide +kernel
  refine ⟨hOwned, ?_, _, hOpened, ?_, ?_⟩
  · intro hStays
    apply
      (((attempts_kept_iff hRun).2.2 _ _ hStep).1 hOwned).mp
        hStays
    exact ⟨by decide +kernel, _, 5, rfl, hSlot, by decide⟩
  · apply ((attempts_kept_iff hSwitched).2.2 _ _ hOpened).2.1
    rw [hFor]
    rfl
  · rw [((attempts_kept_iff hSwitched).2.2 _ _ hOpened).2.2,
      not_not]
    exact
      ⟨_, hStill,
        Or.inr (Or.inr ⟨5, hFor, by decide⟩)⟩

end PigBook.Client
