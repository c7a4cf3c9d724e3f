import PigBook.Client.Session
import PigBook.Machine.SingleUse

/-
  No refresh cookie is sent twice.

  The browser keeps its cookies as a jar from which the tabs
  spend; the lock keeps the tabs from spending at once, and the
  promise of a tab keeps its calls from it.

  Key definitions include:
    * `Browser.custody`
    * `Exclusive`

  Key theorems include:
    * `step_custody`
    * `refresh_cookies_unrepeated`
-/

------------------------------------------------------------
-- The Jar
------------------------------------------------------------

namespace PigBook.Client

open Machine

namespace Browser

/- The cookie of a tab's POST that is in flight. -/
def spending (s : Browser) (i : ℕ) : Option String :=
  (s.tabs i).bind Tab.spends

/- The browser as a jar from which tabs spend. -/
def custody (s : Browser) : Custody ℕ String where
  jar := s.jar
  issued := s.issued
  spending := s.spending
  sent := s.sent

variable {s : Browser} {i j : ℕ} {t t' : Tab}

theorem spending_setTab :
    (s.setTab i t).spending =
      Function.update s.spending i t.spends := by
  funext j
  by_cases hSame : j = i
  · subst hSame
    simp [spending, setTab]
  · simp [spending, setTab, hSame]

/- A change of a tab that does not concern its POST. -/
theorem spending_setTab_of_same
    (hTab : s.tabs i = some t)
    (hSame : t'.spends = t.spends) :
    (s.setTab i t').spending = s.spending := by
  rw [spending_setTab, hSame]
  apply Function.update_eq_self_iff.mpr
  simp [spending, hTab]

theorem spending_broadcast
    (msg : AuthMessage) :
    (s.broadcast i msg).spending = s.spending := by
  funext j
  unfold spending broadcast
  dsimp only
  split
  · rfl
  · cases s.tabs j with
    | none => rfl
    | some t => rfl

end Browser

/-
  Only the holder of the lock is in the callback of the lock.
-/
def Exclusive (s : Browser) : Prop :=
  ∀ i t, s.tabs i = some t → t.inCallback = true →
    s.holder = some i

theorem Tab.inCallback_of_spends
    {t : Tab}
    {v : String}
    (hSpends : t.spends = some v) :
    t.inCallback = true := by
  unfold Tab.spends at hSpends
  unfold Tab.inCallback
  split at hSpends
  · rename_i hPosting
    rw [hPosting]
  · cases hSpends

/- While nobody holds the lock, nobody spends. -/
theorem Exclusive.idle
    {s : Browser}
    (hExclusive : Exclusive s)
    (hFree : s.holder = none)
    (i : ℕ) :
    s.spending i = none := by
  cases hTab : s.tabs i with
  | none => simp [Browser.spending, hTab]
  | some t =>
      cases hSpends : t.spends with
      | none => simp [Browser.spending, hTab, hSpends]
      | some v =>
          have hHolder :=
            hExclusive i t hTab
              (Tab.inCallback_of_spends hSpends)
          rw [hFree] at hHolder
          cases hHolder

end PigBook.Client

------------------------------------------------------------
-- The Lock
------------------------------------------------------------

namespace PigBook.Client

variable {s s' : Browser} {i : ℕ} {t t' : Tab}

/- A tab that does not enter the callback. -/
theorem Exclusive.setTab
    (hExclusive : Exclusive s)
    (hTab : s.tabs i = some t)
    (hEnters : t'.inCallback = true → t.inCallback = true) :
    Exclusive (s.setTab i t') := by
  intro j x hx hCallback
  by_cases hSame : j = i
  · subst hSame
    rw [Browser.setTab_tabs_self] at hx
    cases hx
    exact hExclusive j t hTab (hEnters hCallback)
  · rw [Browser.setTab_tabs_of_ne hSame] at hx
    exact hExclusive j x hx hCallback

theorem Exclusive.broadcast
    (hExclusive : Exclusive s)
    (msg : AuthMessage) :
    Exclusive (s.broadcast i msg) := by
  intro j x hx hCallback
  change
    (if j = i then s.tabs j
      else
        (s.tabs j).map
          (fun t => { t with inbox := t.inbox ++ [msg] })) =
      some x at hx
  split at hx
  · exact hExclusive j x hx hCallback
  · rcases Option.map_eq_some_iff.mp hx with ⟨y, hy, rfl⟩
    exact hExclusive j y hy hCallback

/- The lock was free, and the tab holds it now. -/
theorem Exclusive.grant
    (hExclusive : Exclusive s)
    (hFree : s.holder = none)
    (hOthers : ∀ j, j ≠ i → s'.tabs j = s.tabs j)
    (hHolder : s'.holder = some i) :
    Exclusive s' := by
  intro j x hx hCallback
  by_cases hSame : j = i
  · subst hSame
    exact hHolder
  · rw [hOthers j hSame] at hx
    have hHeld := hExclusive j x hx hCallback
    rw [hFree] at hHeld
    cases hHeld

/- The tab has left the callback, and gives up the lock. -/
theorem Exclusive.release
    (hExclusive : Exclusive s)
    (hOut : ∀ t', s'.tabs i = some t' → t'.inCallback = false)
    (hOthers : ∀ j, j ≠ i → s'.tabs j = s.tabs j)
    (hHolder :
      s'.holder =
        if s.holder = some i then none else s.holder) :
    Exclusive s' := by
  intro j x hx hCallback
  by_cases hSame : j = i
  · subst hSame
    rw [hOut x hx] at hCallback
    cases hCallback
  · rw [hOthers j hSame] at hx
    have hHeld := hExclusive j x hx hCallback
    rw [hHolder, if_neg, hHeld]
    rw [hHeld]
    rintro ⟨⟩
    exact hSame rfl

/- With the lock, a call only asks for it. -/
theorem Exclusive.refreshSession
    (hExclusive : Exclusive s)
    (hTab : s.tabs i = some t)
    (hSame : t'.refreshPromise = t.refreshPromise) :
    Exclusive (refreshSession true i t' s) := by
  unfold Client.refreshSession
  split
  · apply hExclusive.setTab hTab
    intro hCallback
    unfold Tab.inCallback at hCallback ⊢
    rw [← hSame]
    exact hCallback
  · rw [if_pos rfl]
    apply hExclusive.setTab hTab
    rintro ⟨⟩

/- Every event keeps the lock to one tab. -/
theorem Exclusive.step
    {e : Event}
    (hExclusive : Exclusive s)
    (hStep : step true e s = some s') :
    Exclusive s' := by
  cases e with
  | opened i =>
      simp only [Client.step] at hStep
      split at hStep
      · cases hStep
      · rename_i hNone
        cases hStep
        intro j x hx hCallback
        by_cases hSame : j = i
        · subst hSame
          rw [Browser.setTab_tabs_self] at hx
          cases hx
          cases hCallback
        · rw [Browser.setTab_tabs_of_ne hSame] at hx
          exact hExclusive j x hx hCallback
  | closed i =>
      rcases Option.bind_eq_some_iff.mp hStep with
        ⟨t, hTab, hRest⟩
      split at hRest
      · cases hRest
      · cases hRest
        apply hExclusive.release (i := i)
        · intro t' hTab'
          simp at hTab'
        · intro j hNe
          simp [hNe]
        · rfl
  | requested i url =>
      rcases Option.bind_eq_some_iff.mp hStep with
        ⟨t, hTab, hRest⟩
      cases hRest
      exact hExclusive.setTab hTab (fun h => h)
  | answered i n status =>
      rcases Option.bind_eq_some_iff.mp hStep with
        ⟨t, hTab, hRest⟩
      rcases Option.bind_eq_some_iff.mp hRest with
        ⟨call, hCall, hRest⟩
      dsimp only at hRest
      split at hRest
      · cases hRest
        exact hExclusive.refreshSession hTab rfl
      · cases hRest
        exact hExclusive.setTab hTab (fun h => h)
  | checked i =>
      rcases Option.bind_eq_some_iff.mp hStep with
        ⟨t, hTab, hRest⟩
      cases hRest
      exact hExclusive.refreshSession hTab rfl
  | granted i =>
      rcases Option.bind_eq_some_iff.mp hStep with
        ⟨t, hTab, hRest⟩
      split at hRest
      · rename_i hGrant
        cases hRest
        unfold grantLock
        split
        · exact
            hExclusive.grant hGrant.2
              (fun j hNe => Browser.setTab_tabs_of_ne hNe _ _)
              rfl
        · exact
            hExclusive.grant hGrant.2
              (fun j hNe => Browser.setTab_tabs_of_ne hNe _ _)
              rfl
      · cases hRest
  | received i answer =>
      rcases Option.bind_eq_some_iff.mp hStep with
        ⟨t, hTab, hRest⟩
      split at hRest
      · rename_i hPosting
        have hIn : t.inCallback = true := by
          unfold Tab.isPosting at hPosting
          unfold Tab.inCallback
          split at hPosting
          · rename_i hPhase
            rw [hPhase]
          · cases hPosting
        cases answer with
        | some cookie =>
            simp only [receive] at hRest
            split at hRest
            · cases hRest
            · cases hRest
              exact hExclusive.setTab hTab (fun _ => hIn)
        | none =>
            cases hRest
            exact hExclusive.setTab hTab (fun _ => hIn)
      · cases hRest
  | read i token =>
      rcases Option.bind_eq_some_iff.mp hStep with
        ⟨t, hTab, hRest⟩
      split at hRest
      · rename_i ok hPhase
        have hIn : t.inCallback = true := by
          unfold Tab.inCallback
          rw [hPhase]
        cases hRest
        unfold readBody
        split
        · exact
            (hExclusive.setTab hTab (fun _ => hIn)).broadcast
              _
        · exact hExclusive.setTab hTab (fun _ => hIn)
        · exact
            (hExclusive.setTab hTab (fun _ => hIn)).broadcast
              _
      · cases hRest
  | released i =>
      rcases Option.bind_eq_some_iff.mp hStep with
        ⟨t, hTab, hRest⟩
      split at hRest
      · rename_i ok hPhase
        cases hRest
        apply hExclusive.release (i := i)
        · intro t' hTab'
          have hSelf :=
            Browser.setTab_tabs_self i
              { t with refreshPromise := some (.released ok) }
              s
          cases hTab'.symm.trans hSelf
          rfl
        · exact
            fun j hNe => Browser.setTab_tabs_of_ne hNe _ _
        · rfl
      · cases hRest
  | settled i =>
      rcases Option.bind_eq_some_iff.mp hStep with
        ⟨t, hTab, hRest⟩
      split at hRest
      · cases hRest
        unfold settle
        split
        · exact hExclusive.setTab hTab (fun h => by cases h)
        · exact hExclusive.setTab hTab (fun h => by cases h)
      · cases hRest
  | delivered i n =>
      rcases Option.bind_eq_some_iff.mp hStep with
        ⟨t, hTab, hRest⟩
      rcases Option.bind_eq_some_iff.mp hRest with
        ⟨msg, hMsg, hRest⟩
      cases hRest
      apply hExclusive.setTab hTab
      cases msg with
      | tokenRefreshed token => exact fun h => h
      | logout => exact fun h => h
  | loggedIn i cookie token =>
      rcases Option.bind_eq_some_iff.mp hStep with
        ⟨t, hTab, hRest⟩
      split at hRest
      · cases hRest
      · cases hRest
        have hSet :
            Exclusive
              (s.setTab i
                (t.setAccessToken (some token) s.now)) :=
          hExclusive.setTab hTab (fun h => h)
        exact
          Exclusive.broadcast
            (s := (s.setTab i _).setCookie cookie) hSet _
  | loggedOut i =>
      rcases Option.bind_eq_some_iff.mp hStep with
        ⟨t, hTab, hRest⟩
      cases hRest
      have hSet :
          Exclusive
            (s.setTab i (t.setAccessToken none s.now)) :=
        hExclusive.setTab hTab (fun h => h)
      exact
        Exclusive.broadcast
          (s := { s.setTab i _ with jar := none }) hSet _
  | expired =>
      cases hStep
      exact hExclusive
  | ticked d =>
      cases hStep
      exact hExclusive

end PigBook.Client

------------------------------------------------------------
-- Spending
------------------------------------------------------------

namespace PigBook.Client

open Machine

variable {locks : Bool} {s s' : Browser} {i : ℕ}
variable {t t' : Tab}

namespace Browser

theorem custody_setTab_of_same
    (hTab : s.tabs i = some t)
    (hSame : t'.spends = t.spends) :
    (s.setTab i t').custody = s.custody :=
  Custody.ext rfl rfl (spending_setTab_of_same hTab hSame) rfl

theorem custody_broadcast
    (msg : AuthMessage) :
    (s.broadcast i msg).custody = s.custody :=
  Custody.ext rfl rfl (spending_broadcast msg) rfl

end Browser

/- Sending the POST spends the cookie, if there is one. -/
theorem doRefresh_custody
    (hIdle : s.spending i = none)
    (hAlone : locks = true → ∀ j, s.spending j = none) :
    (doRefresh i t s).custody = s.custody ∨
      Custody.Step (locks = true) s.custody
        (doRefresh i t s).custody := by
  have hSpending :
      (doRefresh i t s).spending =
        Function.update s.spending i s.jar :=
    Browser.spending_setTab
  cases hJar : s.jar with
  | none =>
      left
      refine Custody.ext rfl rfl ?_ ?_
      · change (doRefresh i t s).spending = s.spending
        rw [hSpending, hJar]
        exact Function.update_eq_self_iff.mpr hIdle.symm
      · simp [Browser.custody, doRefresh, hJar]
  | some v =>
      right
      have hStep : Custody.Step (locks = true) s.custody _ :=
        .spend i v hJar hIdle hAlone
      have hSame :
          (doRefresh i t s).custody =
            { s.custody with
              spending :=
                Function.update s.spending i (some v)
              sent := (i, v) :: s.sent } := by
        refine Custody.ext rfl rfl ?_ ?_
        · change (doRefresh i t s).spending = _
          rw [hSpending, hJar]
        · simp [Browser.custody, doRefresh, hJar]
      rw [hSame]
      exact hStep

/- What an event does to the custody of the cookies. -/
def Moved
    (locks : Bool)
    (s s' : Browser) : Prop :=
  s'.custody = s.custody ∨
    Custody.Step (locks = true) s.custody s'.custody

theorem moved_setTab
    (hTab : s.tabs i = some t)
    (hSame : t'.spends = t.spends) :
    Moved locks s (s.setTab i t') :=
  Or.inl (Browser.custody_setTab_of_same hTab hSame)

/- A call that asks for the lock, or joins, or sends a POST. -/
theorem moved_refreshSession
    (hTab : s.tabs i = some t)
    (hSame : t'.refreshPromise = t.refreshPromise) :
    Moved locks s (refreshSession locks i t' s) := by
  unfold refreshSession
  split
  · apply moved_setTab hTab
    unfold Tab.spends
    rw [hSame]
  · rename_i hNone
    rw [hSame, Option.not_isSome_iff_eq_none] at hNone
    have hIdle : t.spends = none := by
      unfold Tab.spends
      rw [hNone]
    split
    · exact moved_setTab hTab hIdle.symm
    · rename_i hLocks
      apply doRefresh_custody
      · rw [Browser.spending, hTab]
        exact hIdle
      · intro hOn
        exact absurd hOn hLocks

/- A POST is answered with a new cookie, or with none. -/
theorem moved_receive
    {answer : Option String}
    (hReceive : receive i answer t s = some s') :
    Moved locks s s' := by
  right
  cases answer with
  | some cookie =>
      simp only [receive] at hReceive
      split at hReceive
      · cases hReceive
      · rename_i hFresh
        cases hReceive
        have hSame :
            ((s.setTab i
              { t with
                refreshPromise :=
                  some (.reading true) }).setCookie
                    cookie).custody =
              { s.custody with
                jar := some cookie
                issued := cookie :: s.issued
                spending :=
                  Function.update s.spending i none } :=
          Custody.ext rfl rfl Browser.spending_setTab rfl
        rw [hSame]
        exact .answer (s := s.custody) i cookie hFresh
  | none =>
      cases hReceive
      have hSame :
          ({ s.setTab i
              { t with refreshPromise := some (.reading false) }
            with jar := none } : Browser).custody =
            { s.custody with
              jar := none
              spending := Function.update s.spending i none } :=
        Custody.ext rfl rfl Browser.spending_setTab rfl
      rw [hSame]
      exact .refuse (s := s.custody) i

/- Every event moves the cookies as the jar allows. -/
theorem step_custody
    {e : Event}
    (hExclusive : locks = true → Exclusive s)
    (hStep : step locks e s = some s') :
    Moved locks s s' := by
  cases e with
  | opened i =>
      simp only [step] at hStep
      split at hStep
      · cases hStep
      · rename_i hNone
        rw [Option.not_isSome_iff_eq_none] at hNone
        cases hStep
        left
        refine Custody.ext rfl rfl ?_ rfl
        change (s.setTab i .fresh).spending = s.spending
        rw [Browser.spending_setTab]
        apply Function.update_eq_self_iff.mpr
        rw [Browser.spending, hNone]
        rfl
  | closed i =>
      rcases Option.bind_eq_some_iff.mp hStep with
        ⟨t, hTab, hRest⟩
      split at hRest
      · cases hRest
      · rename_i hQuiet
        cases hRest
        left
        refine Custody.ext rfl rfl ?_ rfl
        funext j
        by_cases hSame : j = i
        · subst hSame
          have hIdle : t.spends = none := by
            cases hSpends : t.spends with
            | none => rfl
            | some v =>
                exfalso
                apply hQuiet
                unfold Tab.spends at hSpends
                unfold Tab.isPosting
                split at hSpends
                · rfl
                · cases hSpends
          simp [Browser.custody, Browser.spending, hTab, hIdle]
        · simp [Browser.custody, Browser.spending, hSame]
  | requested i url =>
      rcases Option.bind_eq_some_iff.mp hStep with
        ⟨t, hTab, hRest⟩
      cases hRest
      exact moved_setTab hTab rfl
  | answered i n status =>
      rcases Option.bind_eq_some_iff.mp hStep with
        ⟨t, hTab, hRest⟩
      rcases Option.bind_eq_some_iff.mp hRest with
        ⟨call, hCall, hRest⟩
      dsimp only at hRest
      split at hRest
      · cases hRest
        exact moved_refreshSession hTab rfl
      · cases hRest
        exact moved_setTab hTab rfl
  | checked i =>
      rcases Option.bind_eq_some_iff.mp hStep with
        ⟨t, hTab, hRest⟩
      cases hRest
      exact moved_refreshSession hTab rfl
  | granted i =>
      rcases Option.bind_eq_some_iff.mp hStep with
        ⟨t, hTab, hRest⟩
      split at hRest
      · rename_i hGrant
        have hIdle : t.spends = none := by
          unfold Tab.spends
          rw [hGrant.1]
        cases hRest
        unfold grantLock
        split
        · exact
            Or.inl
              (Browser.custody_setTab_of_same hTab hIdle.symm)
        · have hMoved : Moved locks s (doRefresh i t s) := by
            apply doRefresh_custody
            · rw [Browser.spending, hTab]
              exact hIdle
            · intro hOn
              exact (hExclusive hOn).idle hGrant.2
          exact hMoved
      · cases hRest
  | received i answer =>
      rcases Option.bind_eq_some_iff.mp hStep with
        ⟨t, hTab, hRest⟩
      split at hRest
      · exact moved_receive hRest
      · cases hRest
  | read i token =>
      rcases Option.bind_eq_some_iff.mp hStep with
        ⟨t, hTab, hRest⟩
      split at hRest
      · rename_i ok hPhase
        have hIdle : t.spends = none := by
          unfold Tab.spends
          rw [hPhase]
        cases hRest
        left
        unfold readBody
        split
        · rw [Browser.custody_broadcast]
          exact
            Browser.custody_setTab_of_same hTab hIdle.symm
        · exact
            Browser.custody_setTab_of_same hTab hIdle.symm
        · rw [Browser.custody_broadcast]
          exact
            Browser.custody_setTab_of_same hTab hIdle.symm
      · cases hRest
  | released i =>
      rcases Option.bind_eq_some_iff.mp hStep with
        ⟨t, hTab, hRest⟩
      split at hRest
      · rename_i ok hPhase
        have hIdle : t.spends = none := by
          unfold Tab.spends
          rw [hPhase]
        cases hRest
        exact
          Or.inl
            (Browser.custody_setTab_of_same hTab hIdle.symm)
      · cases hRest
  | settled i =>
      rcases Option.bind_eq_some_iff.mp hStep with
        ⟨t, hTab, hRest⟩
      split at hRest
      · rename_i ok hPhase
        have hIdle : t.spends = none := by
          unfold Tab.spends
          rw [hPhase]
        cases hRest
        unfold settle
        split
        · exact moved_setTab hTab hIdle.symm
        · exact moved_setTab hTab hIdle.symm
      · cases hRest
  | delivered i n =>
      rcases Option.bind_eq_some_iff.mp hStep with
        ⟨t, hTab, hRest⟩
      rcases Option.bind_eq_some_iff.mp hRest with
        ⟨msg, hMsg, hRest⟩
      cases hRest
      apply moved_setTab hTab
      cases msg with
      | tokenRefreshed token => rfl
      | logout => rfl
  | loggedIn i cookie token =>
      rcases Option.bind_eq_some_iff.mp hStep with
        ⟨t, hTab, hRest⟩
      split at hRest
      · cases hRest
      · rename_i hFresh
        cases hRest
        right
        rw [Browser.custody_broadcast]
        have hSame :
            ((s.setTab i
              (t.setAccessToken (some token) s.now)).setCookie
                cookie).custody =
              { s.custody with
                jar := some cookie
                issued := cookie :: s.issued } :=
          Custody.ext rfl rfl
            (Browser.spending_setTab_of_same hTab rfl) rfl
        rw [hSame]
        exact .renew (s := s.custody) cookie hFresh
  | loggedOut i =>
      rcases Option.bind_eq_some_iff.mp hStep with
        ⟨t, hTab, hRest⟩
      cases hRest
      right
      rw [Browser.custody_broadcast]
      have hSame :
          ({ s.setTab i (t.setAccessToken none s.now) with
              jar := none } : Browser).custody =
            { s.custody with jar := none } :=
        Custody.ext rfl rfl
          (Browser.spending_setTab_of_same hTab rfl) rfl
      rw [hSame]
      exact .drop (s := s.custody)
  | expired =>
      cases hStep
      exact Or.inr (.drop (s := s.custody))
  | ticked d =>
      cases hStep
      exact Or.inl rfl

end PigBook.Client

------------------------------------------------------------
-- Runs
------------------------------------------------------------

namespace PigBook.Client

open Machine

variable {locks : Bool} {jar : Option String} {now : ℤ}
variable {events : List Event} {s : Browser}

/- What every run of the browser keeps. -/
theorem run_sound
    (hRun :
      run (step locks) events (.initial jar now) = some s) :
    (locks = true → Exclusive s) ∧
      Custody.Sound (locks = true) s.custody := by
  apply
    run_invariant
      (P := fun s =>
        (locks = true → Exclusive s) ∧
          Custody.Sound (locks = true) s.custody)
      _ _ hRun
  · rintro e s s' ⟨hExclusive, hSound⟩ hStep
    constructor
    · rintro rfl
      exact (hExclusive rfl).step hStep
    · rcases step_custody hExclusive hStep with hSame | hMove
      · rw [hSame]
        exact hSound
      · exact hSound.step hMove
  · constructor
    · intro hOn i t hTab
      cases hTab
    · apply Custody.Sound.unspent
      · intro v hJar
        exact Option.mem_toList.mpr hJar
      · rfl

/-
  In every run of any number of tabs, whatever the order of
  calls, grants, answers, and messages: no tab sends two POSTs
  to `/auth/refresh` with the same cookie; and where there is
  the lock, no two POSTs of any tabs have the same cookie.
-/
theorem refresh_cookies_unrepeated
    (hRun :
      run (step locks) events (.initial jar now) = some s) :
    (∀ i,
      ((s.sent.filter (fun p => p.1 = i)).map
        Prod.snd).Nodup) ∧
    (locks = true → (s.sent.map Prod.snd).Nodup) := by
  have hSound := (run_sound hRun).2
  exact ⟨hSound.own, hSound.once⟩

/-
  Two tabs have two calls answered with 401; one of them waits
  for the lock and takes over the other's token.  When the
  token is old, both refresh again, one after the other.
-/
def twoTabs : List Event :=
  [.opened 0, .opened 1, .requested 0 "/api/v1/me",
    .requested 1 "/api/v1/me", .answered 0 0 401,
    .answered 1 0 401, .granted 1, .received 1 (some "second"),
    .read 1 (some "token"), .released 1, .delivered 0 0,
    .granted 0, .released 0, .settled 0, .settled 1,
    .ticked 5000, .checked 0, .checked 1, .granted 0,
    .received 0 (some "third"), .read 0 (some "other"),
    .released 0, .granted 1]

theorem refresh_cookies_unrepeated_twoTabs :
    ∃ s,
      run (step true) twoTabs (.initial (some "first") 1) =
          some s ∧
        s.sent.map Prod.snd = ["third", "second", "first"] ∧
        (s.sent.map Prod.snd).Nodup := by
  have hSent :
      (run (step true) twoTabs
        (.initial (some "first") 1)).map
          (fun s => s.sent.map Prod.snd) =
        some ["third", "second", "first"] := by
    decide +kernel
  rcases Option.map_eq_some_iff.mp hSent with
    ⟨s, hRun, hValues⟩
  exact
    ⟨s, hRun, hValues,
      (refresh_cookies_unrepeated hRun).2 rfl⟩

end PigBook.Client
