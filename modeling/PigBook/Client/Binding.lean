import PigBook.Client.Attempts
import PigBook.Json.Strings

/-
  Keys and requests of the dialogs.

  All requests with one key are for one attempt.  They are one
  request as long as the blackout dialog is never submitted
  with an attempt whose data its fields no longer have.

  Key definitions include:
    * `Quiet`, `Posts`, `Source`
    * `Custody`
    * `Drifts`

  Key theorems include:
    * `dialogStep_cases`
    * `Custody.step`
    * `keys_bound_iff`
-/

------------------------------------------------------------
-- Moves
------------------------------------------------------------

namespace PigBook.Client

/- Nothing is sent, and attempts come from the slot only. -/
structure Quiet (s s' : App) : Prop where
  sent : s'.sent = s.sent
  posts :
    ∀ p ∈ s'.posts, ∃ p₀ ∈ s.posts,
      p₀.attempt = p.attempt ∧ p₀.request = p.request
  slot : ∀ a, s'.slot = some a → s.slot = some a
  current :
    ∀ a, s'.booking.currentAttempt = some a →
      s.booking.currentAttempt = some a ∨
        s.slot = some a ∧ a.kind = .booking
  active :
    ∀ a, s'.blackout.activeAttempt = some a →
      s.blackout.activeAttempt = some a ∨
        s.slot = some a ∧ a.kind = .blackout

/- One request is sent, for one attempt. -/
structure Posts
    (a : CreateAttempt)
    (r : CreateRequest)
    (s s' : App) : Prop where
  sent : s'.sent = ⟨r, a, s.now⟩ :: s.sent
  posts :
    ∀ p ∈ s'.posts,
      (∃ p₀ ∈ s.posts,
        p₀.attempt = p.attempt ∧ p₀.request = p.request) ∨
      a = p.attempt ∧ r = p.request
  slot :
    ∀ a', s'.slot = some a' → s.slot = some a' ∨ a' = a
  current :
    ∀ a', s'.booking.currentAttempt = some a' →
      s.booking.currentAttempt = some a' ∨
        a' = a ∧ a.kind = .booking
  active :
    ∀ a', s'.blackout.activeAttempt = some a' →
      s.blackout.activeAttempt = some a' ∨
        a' = a ∧ a.kind = .blackout

/- Where a request comes from. -/
inductive Source
    (zone : Zone)
    (e : DialogEvent)
    (s : App) : CreateAttempt → CreateRequest → Prop
  | begun
      (a : CreateAttempt)
      (hFresh : a.key ∉ s.keys) :
      Source zone e s a a.request
  | replayed
      (a : CreateAttempt)
      (hCurrent : s.booking.currentAttempt = some a) :
      Source zone e s a (bookingRequest a.key a.payload)
  | resubmitted
      (a : CreateAttempt)
      (times : Times)
      (hEvent : ∃ key, e = .blackoutSubmitted key)
      (hUser : s.user.isSome = true)
      (hActive : s.blackout.activeAttempt = some a)
      (hTimes : s.blackout.validate zone = some times) :
      Source zone e s a
        (blackoutRequest a.key ⟨s.blackout.resourceId, times⟩)
  | resent
      (p : Post)
      (hPost : p ∈ s.posts) :
      Source zone e s p.attempt p.request

theorem Quiet.refl (s : App) : Quiet s s where
  sent := rfl
  posts := fun p hMem => ⟨p, hMem, rfl, rfl⟩
  slot := fun _ hSlot => hSlot
  current := fun _ hCurrent => Or.inl hCurrent
  active := fun _ hActive => Or.inl hActive

theorem Quiet.trans
    {s s' s'' : App}
    (hFirst : Quiet s s')
    (hSecond : Quiet s' s'') :
    Quiet s s'' where
  sent := hSecond.sent.trans hFirst.sent
  posts := by
    intro p hMem
    rcases hSecond.posts p hMem with
      ⟨p₁, hMem₁, hAttempt₁, hRequest₁⟩
    rcases hFirst.posts p₁ hMem₁ with
      ⟨p₀, hMem₀, hAttempt₀, hRequest₀⟩
    exact
      ⟨p₀, hMem₀, hAttempt₀.trans hAttempt₁,
        hRequest₀.trans hRequest₁⟩
  slot := fun a hSlot => hFirst.slot a (hSecond.slot a hSlot)
  current := by
    intro a hCurrent
    rcases hSecond.current a hCurrent with
      hOld | ⟨hSlot, hKind⟩
    · exact hFirst.current a hOld
    · exact Or.inr ⟨hFirst.slot a hSlot, hKind⟩
  active := by
    intro a hActive
    rcases hSecond.active a hActive with
      hOld | ⟨hSlot, hKind⟩
    · exact hFirst.active a hOld
    · exact Or.inr ⟨hFirst.slot a hSlot, hKind⟩

theorem slot_clearAttempt (storage : SessionStorage) :
    storage.clearAttempt.slot = none := by
  cases storage with
  | none => rfl
  | some slot => rfl

theorem slot_setItem
    {a a' : CreateAttempt}
    {storage : SessionStorage}
    (hSlot : (storage.setItem a).slot = some a') :
    a' = a := by
  cases storage with
  | none => cases hSlot
  | some slot => exact (Option.some.inj hSlot).symm

/- What is restored was in the slot, and is still there. -/
theorem restoreAttempt_spec
    {user : Uuid}
    {storage storage' : SessionStorage}
    {saved : Option CreateAttempt}
    (hRestore :
      restoreAttempt user storage = (saved, storage')) :
    (∀ a, saved = some a → storage.slot = some a) ∧
      ∀ a, storage'.slot = some a → storage.slot = some a := by
  unfold restoreAttempt at hRestore
  cases hSlot : storage.slot with
  | none =>
      rw [hSlot] at hRestore
      cases hRestore
      constructor
      · intro a hNone
        cases hNone
      · intro a hSome
        rw [hSlot] at hSome
        cases hSome
  | some attempt =>
      rw [hSlot] at hRestore
      dsimp only at hRestore
      split at hRestore
      · cases hRestore
        constructor
        · intro a hNone
          cases hNone
        · intro a hSome
          rw [slot_clearAttempt] at hSome
          cases hSome
      · cases hRestore
        constructor
        · exact fun _ hSome => hSome
        · intro a hSome
          rw [hSlot] at hSome
          exact hSome

theorem clearAttempt_quiet (s : App) :
    Quiet s s.clearAttempt where
  sent := rfl
  posts := fun p hMem => ⟨p, hMem, rfl, rfl⟩
  slot := by
    intro a hSlot
    have hNone : s.clearAttempt.slot = none :=
      slot_clearAttempt s.storage
    rw [hNone] at hSlot
    cases hSlot
  current := fun _ hCurrent => Or.inl hCurrent
  active := fun _ hActive => Or.inl hActive

theorem mountPage_quiet (page : Page) (s : App) :
    Quiet s (s.mountPage page) where
  sent := rfl
  posts := fun p hMem => ⟨p, hMem, rfl, rfl⟩
  slot := fun _ hSlot => hSlot
  current := by
    intro a hCurrent
    cases hCurrent
  active := by
    intro a hActive
    unfold App.mountPage at hActive
    dsimp only at hActive
    split at hActive
    · cases hActive
    · cases hActive

theorem resourceEffect_quiet (s : App) :
    Quiet s s.resourceEffect := by
  unfold App.resourceEffect
  split
  · rename_i user hPage hUser
    exact {
      sent := rfl
      posts := fun p hMem => ⟨p, hMem, rfl, rfl⟩
      slot := (restoreAttempt_spec rfl).2
      current := fun _ hCurrent => Or.inl hCurrent
      active := fun _ hActive => Or.inl hActive
    }
  · exact .refl s

theorem showPage_quiet (page : Page) (s : App) :
    Quiet s (s.showPage page) :=
  (mountPage_quiet page s).trans (resourceEffect_quiet _)

theorem bookingEffect_quiet (s : App) :
    Quiet s (bookingEffect s) := by
  unfold bookingEffect
  split
  · exact .refl s
  rename_i user hUser
  by_cases hOpen : s.booking.isOpen = false
  · rw [if_pos hOpen]
    exact .refl s
  rw [if_neg hOpen]
  rcases hRestore : restoreAttempt user s.storage with
    ⟨saved, storage⟩
  rcases restoreAttempt_spec hRestore with ⟨hSaved, hSlot⟩
  have hCleared :
      ∀ d : BookingDialog, d.currentAttempt = none →
        Quiet s { s with storage := storage, booking := d } := by
    intro d hNone
    exact {
      sent := rfl
      posts := fun p hMem => ⟨p, hMem, rfl, rfl⟩
      slot := hSlot
      current := by
        intro a hCurrent
        change d.currentAttempt = some a at hCurrent
        rw [hNone] at hCurrent
        cases hCurrent
      active := fun _ hActive => Or.inl hActive
    }
  dsimp only
  split
  · exact hCleared _ rfl
  · rename_i attempt
    by_cases hKind : attempt.kind ≠ .booking
    · rw [if_pos hKind]
      exact hCleared _ rfl
    · rw [if_neg hKind]
      exact {
        sent := rfl
        posts := fun p hMem => ⟨p, hMem, rfl, rfl⟩
        slot := hSlot
        current := by
          intro a hCurrent
          have hSame : attempt = a := Option.some.inj hCurrent
          rw [← hSame]
          exact
            Or.inr ⟨hSaved attempt rfl, not_not.mp hKind⟩
        active := fun _ hActive => Or.inl hActive
      }

theorem blackoutEffect_quiet (zone : Zone) (s : App) :
    Quiet s (blackoutEffect zone s) := by
  unfold blackoutEffect
  split
  · exact .refl s
  rename_i user hUser
  by_cases hOpen : s.blackout.isOpen = false
  · rw [if_pos hOpen]
    exact .refl s
  rw [if_neg hOpen]
  rcases hRestore : restoreAttempt user s.storage with
    ⟨stored, storage⟩
  rcases restoreAttempt_spec hRestore with ⟨hStored, hSlot⟩
  have hSame :
      ∀ d : BlackoutDialog,
        d.activeAttempt = s.blackout.activeAttempt →
        Quiet s { s with storage := storage, blackout := d } := by
    intro d hActive
    exact {
      sent := rfl
      posts := fun p hMem => ⟨p, hMem, rfl, rfl⟩
      slot := hSlot
      current := fun _ hCurrent => Or.inl hCurrent
      active := by
        intro a hSome
        exact Or.inl (hActive ▸ hSome)
    }
  dsimp only
  split
  · exact hSame _ rfl
  · rename_i attempt
    by_cases hKind : attempt.kind ≠ .blackout
    · rw [if_pos hKind]
      exact hSame _ rfl
    rw [if_neg hKind]
    split
    · exact {
        sent := rfl
        posts := fun p hMem => ⟨p, hMem, rfl, rfl⟩
        slot := hSlot
        current := fun _ hCurrent => Or.inl hCurrent
        active := by
          intro a hActive
          have hEq : attempt = a := Option.some.inj hActive
          rw [← hEq]
          exact
            Or.inr ⟨hStored attempt rfl, not_not.mp hKind⟩
      }
    · exact hSame s.blackout rfl

theorem answerPost_quiet
    (p : Post)
    (outcome : Outcome)
    (s : App) :
    Quiet s (answerPost p outcome s) := by
  have hFirst :
      Quiet s (if outcome.definitive then s.clearAttempt
        else s) := by
    split
    · exact clearAttempt_quiet s
    · exact .refl s
  apply hFirst.trans
  unfold answerPost
  dsimp only
  generalize
    (if outcome.definitive then s.clearAttempt else s) = t
  by_cases hMount : p.mount ≠ t.mount
  · rw [if_pos hMount]
    exact .refl t
  rw [if_neg hMount]
  cases p.attempt.kind with
  | booking =>
      exact {
        sent := rfl
        posts := fun p hMem => ⟨p, hMem, rfl, rfl⟩
        slot := fun _ hSlot => hSlot
        current := by
          intro a hCurrent
          apply Or.inl
          change (t.booking.answered outcome).currentAttempt = _
            at hCurrent
          unfold BookingDialog.answered at hCurrent
          split at hCurrent
          · cases hCurrent
          · split at hCurrent
            · cases hCurrent
            · exact hCurrent
          · exact hCurrent
        active := fun _ hActive => Or.inl hActive
      }
  | blackout =>
      exact {
        sent := rfl
        posts := fun p hMem => ⟨p, hMem, rfl, rfl⟩
        slot := fun _ hSlot => hSlot
        current := fun _ hCurrent => Or.inl hCurrent
        active := by
          intro a hActive
          apply Or.inl
          change (t.blackout.answered outcome).activeAttempt = _
            at hActive
          unfold BlackoutDialog.answered at hActive
          split at hActive
          · cases hActive
          · split at hActive
            · cases hActive
            · split at hActive
              · exact hActive
              · exact hActive
          · exact hActive
      }

theorem editField_quiet
    {d : BlackoutDialog}
    {s : App}
    (hSame : d.activeAttempt = s.blackout.activeAttempt) :
    Quiet s (editField d s) := by
  unfold editField
  split
  · exact {
      sent := rfl
      posts := fun p hMem => ⟨p, hMem, rfl, rfl⟩
      slot := (clearAttempt_quiet s).slot
      current := fun _ hCurrent => Or.inl hCurrent
      active := fun _ hActive => by cases hActive
    }
  · exact {
      sent := rfl
      posts := fun p hMem => ⟨p, hMem, rfl, rfl⟩
      slot := fun _ hSlot => hSlot
      current := fun _ hCurrent => Or.inl hCurrent
      active := by
        intro a hActive
        exact Or.inl (hSame ▸ hActive)
    }

theorem handleStartNewAttempt_quiet (s : App) :
    Quiet s (handleStartNewAttempt s) where
  sent := rfl
  posts := fun p hMem => ⟨p, hMem, rfl, rfl⟩
  slot := (clearAttempt_quiet s).slot
  current := fun _ hCurrent => by cases hCurrent
  active := fun _ hActive => Or.inl hActive

theorem handleAbandon_quiet (s : App) :
    Quiet s (handleAbandon s) where
  sent := rfl
  posts := fun p hMem => ⟨p, hMem, rfl, rfl⟩
  slot := (clearAttempt_quiet s).slot
  current := fun _ hCurrent => Or.inl hCurrent
  active := fun _ hActive => by cases hActive

/- A request that is posted, for an attempt. -/
theorem post_posts
    {s t : App}
    {a : CreateAttempt}
    {r : CreateRequest}
    (hSent : t.sent = s.sent)
    (hNow : t.now = s.now)
    (hPosts : t.posts = s.posts)
    (hSlot :
      ∀ a', t.slot = some a' → s.slot = some a' ∨ a' = a)
    (hCurrent :
      ∀ a', t.booking.currentAttempt = some a' →
        s.booking.currentAttempt = some a' ∨
          a' = a ∧ a.kind = .booking)
    (hActive :
      ∀ a', t.blackout.activeAttempt = some a' →
        s.blackout.activeAttempt = some a' ∨
          a' = a ∧ a.kind = .blackout) :
    Posts a r s (t.post a r) where
  sent := by
    unfold App.post
    dsimp only
    rw [hSent, hNow]
  posts := by
    intro p hMem
    unfold App.post at hMem
    dsimp only at hMem
    rcases List.mem_append.mp hMem with hOld | hNew
    · rw [hPosts] at hOld
      exact Or.inl ⟨p, hOld, rfl, rfl⟩
    · rw [List.mem_singleton.mp hNew]
      exact Or.inr ⟨rfl, rfl⟩
  slot := hSlot
  current := hCurrent
  active := hActive

/- An attempt that a submission sends again is its own. -/
theorem BookingDialog.replayed_eq
    {d : BookingDialog}
    {a : CreateAttempt}
    (hReplayed : d.replayed = some a) :
    d.currentAttempt = some a := by
  unfold BookingDialog.replayed at hReplayed
  split at hReplayed
  · exact hReplayed
  · cases hReplayed

/- A step sends nothing, or one request from some source. -/
def Moves
    (zone : Zone)
    (e : DialogEvent)
    (s s' : App) : Prop :=
  Quiet s s' ∨ ∃ a r, Posts a r s s' ∧ Source zone e s a r

theorem bookingSubmit_moves
    {zone : Zone}
    {e : DialogEvent}
    {key : Uuid}
    {s s' : App}
    (hSubmit : bookingSubmit key s = some s') :
    Moves zone e s s' := by
  unfold bookingSubmit at hSubmit
  split at hSubmit
  · rename_i user resource times hUser hResource hWindow
    split at hSubmit
    · rename_i attempt hReplayed
      cases hSubmit
      refine
        Or.inr
          ⟨attempt,
            bookingRequest attempt.key attempt.payload, ?_,
            .replayed attempt
              (BookingDialog.replayed_eq hReplayed)⟩
      refine post_posts rfl rfl rfl ?_ ?_ ?_
      · exact fun _ hSlot => Or.inl hSlot
      · exact fun _ hCurrent => Or.inl hCurrent
      · exact fun _ hActive => Or.inl hActive
    · split at hSubmit
      · cases hSubmit
      · rename_i hFresh
        cases hSubmit
        refine
          Or.inr
            ⟨_, _, ?_,
              .begun
                ⟨key, ⟨resource, times⟩, .booking, user, s.now⟩
                hFresh⟩
        refine post_posts rfl rfl rfl ?_ ?_ ?_
        · intro a' hSlot
          exact Or.inr (slot_setItem hSlot)
        · intro a' hCurrent
          exact Or.inr ⟨(Option.some.inj hCurrent).symm, rfl⟩
        · exact fun _ hActive => Or.inl hActive
  · cases hSubmit
    exact Or.inl (.refl s)

theorem blackoutSubmit_moves
    {zone : Zone}
    {key : Uuid}
    {s s' : App}
    (hSubmit : blackoutSubmit zone key s = some s') :
    Moves zone (.blackoutSubmitted key) s s' := by
  unfold blackoutSubmit at hSubmit
  split at hSubmit
  · rename_i times user hTimes hUser
    dsimp only at hSubmit
    split at hSubmit
    · rename_i attempt hActive
      cases hSubmit
      refine
        Or.inr
          ⟨attempt, _, ?_,
            .resubmitted attempt times ⟨key, rfl⟩
              (by rw [hUser]; rfl) hActive hTimes⟩
      refine post_posts rfl rfl rfl ?_ ?_ ?_
      · exact fun _ hSlot => Or.inl hSlot
      · exact fun _ hCurrent => Or.inl hCurrent
      · exact fun _ hActive => Or.inl hActive
    · split at hSubmit
      · cases hSubmit
      · rename_i hFresh
        cases hSubmit
        refine
          Or.inr
            ⟨_, _, ?_,
              .begun
                ⟨key, ⟨s.blackout.resourceId, times⟩,
                  .blackout, user, s.now⟩
                hFresh⟩
        refine post_posts rfl rfl rfl ?_ ?_ ?_
        · intro a' hSlot
          exact Or.inr (slot_setItem hSlot)
        · exact fun _ hCurrent => Or.inl hCurrent
        · intro a' hActive
          exact Or.inr ⟨(Option.some.inj hActive).symm, rfl⟩
  · cases hSubmit
    exact Or.inl (.refl s)

theorem bookingStep_moves
    {zone : Zone}
    {e : DialogEvent}
    {s s' : App}
    (hStep : bookingStep e s = some s') :
    Moves zone e s s' := by
  unfold bookingStep at hStep
  cases e with
  | bookingSubmitted key =>
      dsimp only at hStep
      split at hStep
      · exact bookingSubmit_moves hStep
      · cases hStep
  | startedNew =>
      dsimp only at hStep
      split at hStep
      · cases hStep
        exact Or.inl (handleStartNewAttempt_quiet s)
      · cases hStep
  | abandoned =>
      dsimp only at hStep
      split at hStep
      · cases hStep
        exact
          Or.inl
            ⟨rfl, fun p hMem => ⟨p, hMem, rfl, rfl⟩,
              fun _ hSlot => hSlot,
              fun _ hCurrent => Or.inl hCurrent,
              fun _ hActive => Or.inl hActive⟩
      · cases hStep
  | abandonConfirmed =>
      dsimp only at hStep
      split at hStep
      · cases hStep
        exact Or.inl (handleStartNewAttempt_quiet s)
      · cases hStep
  | _ => cases hStep

theorem blackoutStep_moves
    {zone : Zone}
    {e : DialogEvent}
    {s s' : App}
    (hStep : blackoutStep zone e s = some s') :
    Moves zone e s s' := by
  unfold blackoutStep at hStep
  cases e with
  | editedStart text =>
      dsimp only at hStep
      split at hStep
      · cases hStep
        exact Or.inl (editField_quiet rfl)
      · cases hStep
  | editedEnd text =>
      dsimp only at hStep
      split at hStep
      · cases hStep
        exact Or.inl (editField_quiet rfl)
      · cases hStep
  | blackoutSubmitted key =>
      dsimp only at hStep
      split at hStep
      · exact blackoutSubmit_moves hStep
      · cases hStep
  | blackoutClosed =>
      dsimp only at hStep
      split at hStep
      · cases hStep
        exact
          Or.inl
            ⟨rfl, fun p hMem => ⟨p, hMem, rfl, rfl⟩,
              fun _ hSlot => hSlot,
              fun _ hCurrent => Or.inl hCurrent,
              fun _ hActive => by cases hActive⟩
      · cases hStep
  | blackoutAbandoned =>
      dsimp only at hStep
      split at hStep
      · cases hStep
        exact Or.inl (handleAbandon_quiet s)
      · cases hStep
  | _ => cases hStep

/- The slot and the attempts of the dialogs are as they were. -/
theorem Quiet.of_eq
    {s s' : App}
    (hSent : s'.sent = s.sent)
    (hPosts : List.Sublist s'.posts s.posts)
    (hStorage : s'.storage = s.storage)
    (hCurrent :
      s'.booking.currentAttempt = s.booking.currentAttempt)
    (hActive :
      s'.blackout.activeAttempt = s.blackout.activeAttempt) :
    Quiet s s' where
  sent := hSent
  posts := fun p hMem => ⟨p, hPosts.subset hMem, rfl, rfl⟩
  slot := by
    intro a hSlot
    unfold App.slot at hSlot ⊢
    rw [hStorage] at hSlot
    exact hSlot
  current := fun a hSome => Or.inl (hCurrent ▸ hSome)
  active := fun a hSome => Or.inl (hActive ▸ hSome)

theorem dialogStep_cases
    {zone : Zone}
    {e : DialogEvent}
    {s s' : App}
    (hStep : dialogStep zone e s = some s') :
    Moves zone e s s' := by
  cases e with
  | navigated page =>
      cases hStep
      exact Or.inl (showPage_quiet page s)
  | reloaded =>
      cases hStep
      apply Or.inl
      apply (showPage_quiet s.page s).trans
      exact .of_eq rfl (List.nil_sublist _) rfl rfl rfl
  | bookingShown isOpen resource bookingWindow =>
      unfold dialogStep at hStep
      dsimp only at hStep
      split at hStep
      · have hShown :
            Quiet s
              { s with
                booking :=
                  { s.booking with
                    isOpen := isOpen
                    resource := resource
                    bookingWindow := bookingWindow } } :=
          .of_eq rfl (List.Sublist.refl _) rfl rfl rfl
        split at hStep
        · cases hStep
          exact Or.inl hShown
        · cases hStep
          exact Or.inl (hShown.trans (bookingEffect_quiet _))
      · cases hStep
  | blackoutOpened =>
      unfold dialogStep at hStep
      dsimp only at hStep
      split at hStep
      · cases hStep
      · cases hStep
        apply Or.inl
        apply Quiet.trans _ (blackoutEffect_quiet zone _)
        exact .of_eq rfl (List.Sublist.refl _) rfl rfl rfl
  | blackoutMoved resourceId =>
      unfold dialogStep at hStep
      dsimp only at hStep
      split at hStep
      · cases hStep
      · cases hStep
        apply Or.inl
        apply Quiet.trans _ (blackoutEffect_quiet zone _)
        exact .of_eq rfl (List.Sublist.refl _) rfl rfl rfl
  | answered n outcome =>
      rcases Option.bind_eq_some_iff.mp hStep with
        ⟨p, hPost, hAnswer⟩
      cases hAnswer
      apply Or.inl
      apply Quiet.trans _ (answerPost_quiet p outcome _)
      exact .of_eq rfl (List.eraseIdx_sublist _ _) rfl rfl rfl
  | resent n =>
      rcases Option.bind_eq_some_iff.mp hStep with
        ⟨p, hPost, hSend⟩
      have hMem : p ∈ s.posts := List.mem_of_getElem? hPost
      split at hSend
      · cases hSend
      · cases hSend
        refine
          Or.inr ⟨p.attempt, p.request, ?_, .resent p hMem⟩
        exact {
          sent := rfl
          posts := by
            intro p' hMem'
            rcases List.mem_or_eq_of_mem_set hMem' with
              hOld | rfl
            · exact Or.inl ⟨p', hOld, rfl, rfl⟩
            · exact Or.inr ⟨rfl, rfl⟩
          slot := fun _ hSlot => Or.inl hSlot
          current := fun _ hCurrent => Or.inl hCurrent
          active := fun _ hActive => Or.inl hActive
        }
  | userRefreshed user =>
      unfold dialogStep at hStep
      dsimp only at hStep
      split at hStep
      · cases hStep
        apply Or.inl
        apply Quiet.trans _ (blackoutEffect_quiet zone _)
        apply Quiet.trans _ (resourceEffect_quiet _)
        apply Quiet.trans _ (bookingEffect_quiet _)
        exact .of_eq rfl (List.Sublist.refl _) rfl rfl rfl
      · cases hStep
  | signedIn user =>
      unfold dialogStep at hStep
      dsimp only at hStep
      split at hStep
      · cases hStep
      · cases hStep
        apply Or.inl
        apply Quiet.trans _ (showPage_quiet s.page _)
        exact .of_eq rfl (List.Sublist.refl _) rfl rfl rfl
  | signedOut =>
      cases hStep
      apply Or.inl
      apply (mountPage_quiet s.page s).trans
      apply (clearAttempt_quiet _).trans
      exact .of_eq rfl (List.Sublist.refl _) rfl rfl rfl
  | ticked d =>
      cases hStep
      exact
        Or.inl (.of_eq rfl (List.Sublist.refl _) rfl rfl rfl)
  | bookingSubmitted key =>
      exact bookingStep_moves (e := .bookingSubmitted key) hStep
  | startedNew =>
      exact bookingStep_moves (e := .startedNew) hStep
  | abandoned =>
      exact bookingStep_moves (e := .abandoned) hStep
  | abandonConfirmed =>
      exact bookingStep_moves (e := .abandonConfirmed) hStep
  | editedStart text =>
      exact blackoutStep_moves (e := .editedStart text) hStep
  | editedEnd text =>
      exact blackoutStep_moves (e := .editedEnd text) hStep
  | blackoutSubmitted key =>
      exact blackoutStep_moves (e := .blackoutSubmitted key) hStep
  | blackoutClosed =>
      exact blackoutStep_moves (e := .blackoutClosed) hStep
  | blackoutAbandoned =>
      exact blackoutStep_moves (e := .blackoutAbandoned) hStep

end PigBook.Client

------------------------------------------------------------
-- Custody of Keys
------------------------------------------------------------

namespace PigBook.Client

/- A request has been sent for the attempt. -/
def App.HasSent (a : CreateAttempt) (s : App) : Prop :=
  ∃ r ∈ s.sent, r.attempt = a

/-
  Keys are those of one attempt each, every attempt has been
  sent as it was begun, and what the tab keeps has been sent.
-/
structure Custody (s : App) : Prop where
  key : ∀ r ∈ s.sent, r.request.key = r.attempt.key
  once :
    ∀ r ∈ s.sent, ∀ r' ∈ s.sent,
      r.attempt.key = r'.attempt.key → r.attempt = r'.attempt
  first :
    ∀ r ∈ s.sent, ∃ r' ∈ s.sent, r'.attempt = r.attempt ∧
      r'.request = r.attempt.request
  booking :
    ∀ r ∈ s.sent, r.attempt.kind = .booking →
      r.request = r.attempt.request
  slot : ∀ a, s.slot = some a → s.HasSent a
  current :
    ∀ a, s.booking.currentAttempt = some a →
      s.HasSent a ∧ a.kind = .booking
  active :
    ∀ a, s.blackout.activeAttempt = some a →
      s.HasSent a ∧ a.kind = .blackout
  posts :
    ∀ p ∈ s.posts, ∃ r ∈ s.sent,
      r.attempt = p.attempt ∧ r.request = p.request

theorem Custody.initial
    (storage : SessionStorage)
    (now : ℤ) :
    Custody (App.initial storage now) where
  key := fun _ hMem => absurd hMem List.not_mem_nil
  once := fun _ hMem => absurd hMem List.not_mem_nil
  first := fun _ hMem => absurd hMem List.not_mem_nil
  booking := fun _ hMem => absurd hMem List.not_mem_nil
  slot := by
    intro a hSlot
    have hNone : (App.initial storage now).slot = none :=
      slot_clearAttempt storage
    rw [hNone] at hSlot
    cases hSlot
  current := fun _ hNone => by cases hNone
  active := fun _ hNone => by cases hNone
  posts := fun _ hMem => absurd hMem List.not_mem_nil

/- A quiet step keeps the custody. -/
theorem Custody.quiet
    {s s' : App}
    (hCustody : Custody s)
    (hQuiet : Quiet s s') :
    Custody s' := by
  have hSent : ∀ a, s.HasSent a → s'.HasSent a := by
    intro a hOld
    unfold App.HasSent
    rw [hQuiet.sent]
    exact hOld
  constructor
  · rw [hQuiet.sent]
    exact hCustody.key
  · rw [hQuiet.sent]
    exact hCustody.once
  · rw [hQuiet.sent]
    exact hCustody.first
  · rw [hQuiet.sent]
    exact hCustody.booking
  · intro a hSlot
    exact hSent a (hCustody.slot a (hQuiet.slot a hSlot))
  · intro a hCurrent
    rcases hQuiet.current a hCurrent with hOld | ⟨hSlot, hKind⟩
    · have hOwn := hCustody.current a hOld
      exact ⟨hSent a hOwn.1, hOwn.2⟩
    · exact ⟨hSent a (hCustody.slot a hSlot), hKind⟩
  · intro a hActive
    rcases hQuiet.active a hActive with hOld | ⟨hSlot, hKind⟩
    · have hOwn := hCustody.active a hOld
      exact ⟨hSent a hOwn.1, hOwn.2⟩
    · exact ⟨hSent a (hCustody.slot a hSlot), hKind⟩
  · intro p hMem
    rcases hQuiet.posts p hMem with
      ⟨p₀, hMem₀, hAttempt, hRequest⟩
    rcases hCustody.posts p₀ hMem₀ with
      ⟨r, hOld, hSame, hSame'⟩
    rw [hQuiet.sent]
    exact
      ⟨r, hOld, hSame.trans hAttempt, hSame'.trans hRequest⟩

/- What a source says of the request and of its attempt. -/
structure Sendable
    (s : App)
    (a : CreateAttempt)
    (r : CreateRequest) : Prop where
  key : r.key = a.key
  known : a.key ∉ s.keys ∧ r = a.request ∨ s.HasSent a
  booking : a.kind = .booking → r = a.request

theorem Source.sendable
    {zone : Zone}
    {e : DialogEvent}
    {s : App}
    {a : CreateAttempt}
    {r : CreateRequest}
    (hSource : Source zone e s a r)
    (hCustody : Custody s) :
    Sendable s a r := by
  cases hSource with
  | begun a hFresh =>
      refine ⟨?_, Or.inl ⟨hFresh, rfl⟩, fun _ => rfl⟩
      unfold CreateAttempt.request
      split
      · rfl
      · rfl
  | replayed a hCurrent =>
      have hOwn := hCustody.current a hCurrent
      refine ⟨rfl, Or.inr hOwn.1, ?_⟩
      intro _
      unfold CreateAttempt.request
      rw [hOwn.2]
  | resubmitted a times hEvent hUser hActive hTimes =>
      have hOwn := hCustody.active a hActive
      refine ⟨rfl, Or.inr hOwn.1, ?_⟩
      intro hKind
      rw [hOwn.2] at hKind
      cases hKind
  | resent p hPost =>
      rcases hCustody.posts p hPost with
        ⟨r, hMem, hAttempt, hRequest⟩
      constructor
      · rw [← hRequest, ← hAttempt]
        exact hCustody.key r hMem
      · exact Or.inr ⟨r, hMem, hAttempt⟩
      · intro hKind
        rw [← hRequest, ← hAttempt]
        rw [← hAttempt] at hKind
        exact hCustody.booking r hMem hKind

theorem Custody.sends
    {s s' : App}
    {a : CreateAttempt}
    {r : CreateRequest}
    (hCustody : Custody s)
    (hPosts : Posts a r s s')
    (hSendable : Sendable s a r) :
    Custody s' := by
  have hMem :
      ∀ x, x ∈ s'.sent ↔ x = ⟨r, a, s.now⟩ ∨ x ∈ s.sent := by
    intro x
    rw [hPosts.sent, List.mem_cons]
  have hSent : ∀ a', s.HasSent a' → s'.HasSent a' := by
    rintro a' ⟨x, hOld, hEq⟩
    exact ⟨x, (hMem x).mpr (Or.inr hOld), hEq⟩
  have hNew : s'.HasSent a :=
    ⟨⟨r, a, s.now⟩, (hMem _).mpr (Or.inl rfl), rfl⟩
  have hOnce :
      ∀ x ∈ s.sent, x.attempt.key = a.key → x.attempt = a := by
    intro x hOld hKey
    rcases hSendable.known with ⟨hFresh, -⟩ | ⟨x', hOld', hEq⟩
    · exact absurd (List.mem_map.mpr ⟨x, hOld, hKey⟩) hFresh
    · rw [← hEq] at hKey ⊢
      exact hCustody.once x hOld x' hOld' hKey
  constructor
  · intro x hx
    rcases (hMem x).mp hx with rfl | hOld
    · exact hSendable.key
    · exact hCustody.key x hOld
  · intro x hx x' hx' hKey
    rcases (hMem x).mp hx with rfl | hOld
    · rcases (hMem x').mp hx' with rfl | hOld'
      · rfl
      · exact (hOnce x' hOld' hKey.symm).symm
    · rcases (hMem x').mp hx' with rfl | hOld'
      · exact hOnce x hOld hKey
      · exact hCustody.once x hOld x' hOld' hKey
  · intro x hx
    rcases (hMem x).mp hx with rfl | hOld
    · rcases hSendable.known with ⟨-, hRequest⟩ | ⟨x', hOld', hEq⟩
      · exact ⟨_, hx, rfl, hRequest⟩
      · rcases hCustody.first x' hOld' with
          ⟨x'', hOld'', hAttempt, hRequest⟩
        rw [hEq] at hAttempt hRequest
        exact
          ⟨x'', (hMem x'').mpr (Or.inr hOld''), hAttempt,
            hRequest⟩
    · rcases hCustody.first x hOld with
        ⟨x', hOld', hAttempt, hRequest⟩
      exact
        ⟨x', (hMem x').mpr (Or.inr hOld'), hAttempt, hRequest⟩
  · intro x hx hKind
    rcases (hMem x).mp hx with rfl | hOld
    · exact hSendable.booking hKind
    · exact hCustody.booking x hOld hKind
  · intro a' hSlot
    rcases hPosts.slot a' hSlot with hOld | rfl
    · exact hSent a' (hCustody.slot a' hOld)
    · exact hNew
  · intro a' hCurrent
    rcases hPosts.current a' hCurrent with hOld | ⟨rfl, hKind⟩
    · have hOwn := hCustody.current a' hOld
      exact ⟨hSent a' hOwn.1, hOwn.2⟩
    · exact ⟨hNew, hKind⟩
  · intro a' hActive
    rcases hPosts.active a' hActive with hOld | ⟨rfl, hKind⟩
    · have hOwn := hCustody.active a' hOld
      exact ⟨hSent a' hOwn.1, hOwn.2⟩
    · exact ⟨hNew, hKind⟩
  · intro p hp
    rcases hPosts.posts p hp with
      ⟨p₀, hOld, hAttempt, hRequest⟩ | ⟨hAttempt, hRequest⟩
    · rcases hCustody.posts p₀ hOld with
        ⟨x, hx, hSame, hSame'⟩
      exact
        ⟨x, (hMem x).mpr (Or.inr hx), hSame.trans hAttempt,
          hSame'.trans hRequest⟩
    · exact
        ⟨⟨r, a, s.now⟩, (hMem _).mpr (Or.inl rfl), hAttempt,
          hRequest⟩

variable {zone : Zone}

theorem Custody.step
    {e : DialogEvent}
    {s s' : App}
    (hCustody : Custody s)
    (hStep : dialogStep zone e s = some s') :
    Custody s' := by
  rcases dialogStep_cases hStep with
    hQuiet | ⟨a, r, hPosts, hSource⟩
  · exact hCustody.quiet hQuiet
  · exact hCustody.sends hPosts (hSource.sendable hCustody)

end PigBook.Client

------------------------------------------------------------
-- Drift
------------------------------------------------------------

namespace PigBook.Client

open Machine

/-
  The blackout dialog is submitted with an attempt whose data
  are not those of its fields.
-/
def Drifts
    (zone : Zone)
    (e : DialogEvent)
    (s : App) : Prop :=
  (∃ key, e = .blackoutSubmitted key) ∧
  (dialogStep zone e s).isSome = true ∧
  s.user.isSome = true ∧
  ∃ times attempt,
    s.blackout.validate zone = some times ∧
    s.blackout.activeAttempt = some attempt ∧
    attempt.payload ≠ ⟨s.blackout.resourceId, times⟩

/- All requests with one key are the same. -/
def App.Bound (s : App) : Prop :=
  ∀ r ∈ s.sent, ∀ r' ∈ s.sent,
    r.request.key = r'.request.key → r.request = r'.request

/- Each request is that which its attempt was begun for. -/
def App.Faithful (s : App) : Prop :=
  ∀ r ∈ s.sent, r.request = r.attempt.request

theorem Custody.bound_iff
    {s : App}
    (hCustody : Custody s) :
    s.Bound ↔ s.Faithful := by
  constructor
  · intro hBound r hMem
    rcases hCustody.first r hMem with
      ⟨r', hMem', hAttempt, hRequest⟩
    rw [← hRequest]
    apply hBound r hMem r' hMem'
    rw [hCustody.key r hMem, hCustody.key r' hMem', hAttempt]
  · intro hFaithful r hMem r' hMem' hKey
    rw [hCustody.key r hMem, hCustody.key r' hMem'] at hKey
    rw [hFaithful r hMem, hFaithful r' hMem',
      hCustody.once r hMem r' hMem' hKey]

theorem blackoutRequest_injective
    {key : Uuid}
    {payload payload' : Payload}
    (hEq :
      blackoutRequest key payload =
        blackoutRequest key payload') :
    payload = payload' := by
  injection hEq with hMethod hPath hKey hBody
  injection hBody with hNone hTimes
  have hText := congrArg String.toList hPath
  simp only [String.toList_append] at hText
  have hName :=
    List.append_cancel_left (List.append_cancel_right hText)
  have hResource :=
    uuidStr_injective (String.toList_inj.mp hName)
  cases payload with
  | mk resourceId times =>
      cases payload' with
      | mk resourceId' times' =>
          rw [show resourceId = resourceId' from hResource,
            show times = times' from hTimes]

theorem request_of_blackout
    {a : CreateAttempt}
    (hKind : a.kind = .blackout) :
    a.request = blackoutRequest a.key a.payload := by
  unfold CreateAttempt.request
  rw [hKind]

variable {zone : Zone}

/- A submission that drifts sends what was not begun. -/
theorem Drifts.not_faithful
    {e : DialogEvent}
    {s s' : App}
    (hCustody : Custody s)
    (hStep : dialogStep zone e s = some s')
    (hDrifts : Drifts zone e s) :
    ¬ s'.Faithful := by
  rcases hDrifts with
    ⟨⟨key, rfl⟩, -, hUser, times, attempt, hTimes, hActive,
      hOther⟩
  obtain ⟨user, hUser⟩ := Option.isSome_iff_exists.mp hUser
  have hSubmit :
      blackoutStep zone (.blackoutSubmitted key) s = some s' :=
    hStep
  unfold blackoutStep at hSubmit
  dsimp only at hSubmit
  split at hSubmit
  · unfold blackoutSubmit at hSubmit
    rw [hTimes, hUser] at hSubmit
    dsimp only at hSubmit
    rw [hActive] at hSubmit
    cases hSubmit
    intro hFaithful
    have hSame := hFaithful _ List.mem_cons_self
    dsimp only at hSame
    rw [request_of_blackout
      (hCustody.active attempt hActive).2] at hSame
    exact hOther (blackoutRequest_injective hSame).symm
  · cases hSubmit

theorem faithful_step
    {e : DialogEvent}
    {s s' : App}
    (hCustody : Custody s)
    (hStep : dialogStep zone e s = some s') :
    s'.Faithful ↔
      s.Faithful ∧ ¬ Drifts zone e s := by
  constructor
  · intro hFaithful
    refine ⟨?_, ?_⟩
    · intro r hMem
      apply hFaithful r
      rcases dialogStep_cases hStep with
        hQuiet | ⟨a, r', hPosts, -⟩
      · rw [hQuiet.sent]
        exact hMem
      · rw [hPosts.sent]
        exact List.mem_cons_of_mem _ hMem
    · intro hDrifts
      exact hDrifts.not_faithful hCustody hStep hFaithful
  · rintro ⟨hFaithful, hSteady⟩
    rcases dialogStep_cases hStep with
      hQuiet | ⟨a, r, hPosts, hSource⟩
    · unfold App.Faithful
      rw [hQuiet.sent]
      exact hFaithful
    have hNew : r = a.request := by
      cases hSource with
      | begun a hFresh => rfl
      | replayed a hCurrent =>
          unfold CreateAttempt.request
          rw [(hCustody.current a hCurrent).2]
      | resent p hPost =>
          rcases hCustody.posts p hPost with
            ⟨r, hMem, hAttempt, hRequest⟩
          rw [← hRequest, ← hAttempt]
          exact hFaithful r hMem
      | resubmitted a times hEvent hUser hActive hTimes =>
          rw [request_of_blackout
            (hCustody.active a hActive).2]
          by_contra hOther
          apply hSteady
          refine
            ⟨hEvent, by rw [hStep]; rfl, hUser, times, a,
              hTimes, hActive, ?_⟩
          intro hSame
          apply hOther
          rw [hSame]
    intro x hMem
    rw [hPosts.sent] at hMem
    rcases List.mem_cons.mp hMem with rfl | hOld
    · exact hNew
    · exact hFaithful x hOld

/-
  Over every run of the tab, requests with one key are one
  request, if and only if no submission has drifted.  Drift
  apart they are for one attempt, and those of a booking are
  always the request of their attempt.
-/
theorem keys_bound_iff
    {storage : SessionStorage}
    {now : ℤ}
    {es : List DialogEvent}
    {s : App}
    (hRun :
      run (dialogStep zone) es
        (App.initial storage now) = some s) :
    (s.Bound ↔
      ∀ es₁ e es₂ t, es = es₁ ++ e :: es₂ →
        run (dialogStep zone) es₁
          (App.initial storage now) = some t →
          ¬ Drifts zone e t) ∧
    (∀ r ∈ s.sent, ∀ r' ∈ s.sent,
      r.request.key = r'.request.key →
        r.attempt = r'.attempt) ∧
    ∀ r ∈ s.sent, r.attempt.kind = .booking →
      r.request = r.attempt.request := by
  have hCustody : Custody s :=
    run_invariant (P := Custody)
      (fun _ _ _ hBefore hStep => hBefore.step hStep)
      (Custody.initial storage now) hRun
  have hAttempts :
      ∀ r ∈ s.sent, ∀ r' ∈ s.sent,
        r.request.key = r'.request.key →
          r.attempt = r'.attempt := by
    intro r hMem r' hMem' hKey
    rw [hCustody.key r hMem, hCustody.key r' hMem'] at hKey
    exact hCustody.once r hMem r' hMem' hKey
  refine ⟨?_, hAttempts, hCustody.booking⟩
  rw [hCustody.bound_iff]
  clear hAttempts hCustody
  induction es using List.reverseRecOn generalizing s with
  | nil =>
      cases hRun
      constructor
      · intro _ es₁ e es₂ t hSplit
        exact absurd hSplit.symm (by simp)
      · intro _ r hMem
        exact absurd hMem List.not_mem_nil
  | append_singleton es e ih =>
      rcases run_append_eq_some.mp hRun with
        ⟨t, hBefore, hLast⟩
      rcases run_cons_eq_some.mp hLast with
        ⟨s₁, hStep, hEnd⟩
      cases hEnd
      have hCustody : Custody t :=
        run_invariant (P := Custody)
          (fun _ _ _ hOld hStep => hOld.step hStep)
          (Custody.initial storage now) hBefore
      rw [faithful_step hCustody hStep, ih hBefore]
      constructor
      · rintro ⟨hEarlier, hNow⟩ es₁ e' es₂ t' hSplit hRun'
        rcases List.eq_nil_or_concat es₂ with
          rfl | ⟨es₃, x, rfl⟩
        · have hParts := List.append_inj' hSplit rfl
          cases hParts.2
          rw [← hParts.1, hBefore] at hRun'
          cases hRun'
          exact hNow
        · rw [List.concat_eq_append, ← List.cons_append,
            ← List.append_assoc] at hSplit
          have hParts := List.append_inj' hSplit rfl
          exact hEarlier es₁ e' es₃ t' hParts.1 hRun'
      · intro hNever
        constructor
        · intro es₁ e' es₂ t' hSplit hRun'
          apply hNever es₁ e' (es₂ ++ [e]) t' _ hRun'
          rw [hSplit, List.append_assoc, List.cons_append]
        · exact hNever es e [] t rfl hBefore

/- Three times of day, for a browser in no time zone. -/
def threeTimes : Zone where
  parse := fun text =>
    if text = "nine" then some 9
    else if text = "five" then some 17
    else if text = "six" then some 18
    else none
  toInputFormat := fun _ => "nine"
  tomorrow := fun _ => ("nine", "five")

/- A blackout that the server answers with status 500. -/
def refused : List DialogEvent :=
  [.signedIn 2, .navigated (.blackouts 7), .blackoutOpened,
    .blackoutSubmitted 1, .answered 0 (.apiError 500),
    .editedEnd "six"]

def tab (es : List DialogEvent) : App :=
  (run (dialogStep threeTimes) es
    (App.initial (some none) 0)).getD (App.initial none 0)

/- Edited after status 500, it is sent under the old key. -/
theorem keys_bound_iff_refused :
    ¬ (tab (refused ++ [.blackoutSubmitted 3])).Bound := by
  intro hBound
  have hRun :
      run (dialogStep threeTimes)
          (refused ++ [.blackoutSubmitted 3])
          (App.initial (some none) 0) =
        some (tab (refused ++ [.blackoutSubmitted 3])) := by
    decide +kernel
  have hBefore :
      run (dialogStep threeTimes) refused
          (App.initial (some none) 0) =
        some (tab refused) := by
    decide +kernel
  apply
    (keys_bound_iff hRun).1.mp hBound refused _ [] _ rfl
      hBefore
  refine
    ⟨⟨3, rfl⟩, by decide +kernel, by decide +kernel, ⟨9, 18⟩,
      ⟨1, ⟨7, ⟨9, 17⟩⟩, .blackout, 2, 0⟩, by decide +kernel,
      by decide +kernel, by decide⟩

end PigBook.Client
