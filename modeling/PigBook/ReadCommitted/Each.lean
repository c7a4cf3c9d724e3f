import PigBook.ReadCommitted.Partition

/-
  Every statement of a program, and every value it obtains.

  A weakest precondition speaks about the end of a program.
  What holds of each statement on the way is a property of
  its own, with the same rules for sequencing.

  Key definitions include:
    * `Prog.each`
    * `Event.picked`, `picks`
    * `Owned`

  Key theorems include:
    * `Prog.each_bind`
    * `Prog.Serial.each_sound`
    * `Reachable.owned`
    * `Reachable.commits_apart`
-/

------------------------------------------------------------
-- Each Statement
------------------------------------------------------------

namespace ReadCommitted

namespace Prog

variable {S : Sig} {σ α β : Type}

/-
  Each statement of the open transaction, run alone, is `ok`:
  the log and the view before it, its keys, the view after
  it, and the rest of the program.  An error satisfies `err`.
-/
def each
    (ok :
      List (Action S) → σ → List S.Key → σ →
        Prog S σ α → Prop)
    (err : List (Action S) → S.Error → Prop) :
    Prog S σ α → List (Action S) → σ → Prop
| done _, _, _ => True
| fail e, log, _ => err log e
| stmt q need write next, log, s =>
    ∀ a : S.Answer q,
      ok log s (need s a) (write s a s) (next s a) ∧
        (next s a).each ok err
          (log ++ [⟨q, a, need s a⟩]) (write s a s)
| commit _, _, _ => True
| rollback _, _, _ => True

variable
  {ok ok' :
    List (Action S) → σ → List S.Key → σ →
      Prog S σ α → Prop}
  {err : List (Action S) → S.Error → Prop}
  {log : List (Action S)} {s : σ}

@[simp] theorem each_done
    (a : α) :
    (done a : Prog S σ α).each ok err log s :=
  trivial

@[simp] theorem each_fail
    (e : S.Error) :
    (fail e : Prog S σ α).each ok err log s ↔ err log e :=
  Iff.rfl

@[simp] theorem each_stmt
    (q : S.Query)
    (need : σ → S.Answer q → List S.Key)
    (write : σ → S.Answer q → σ → σ)
    (next : σ → S.Answer q → Prog S σ α) :
    (stmt q need write next).each ok err log s ↔
      ∀ a : S.Answer q,
        ok log s (need s a) (write s a s) (next s a) ∧
          (next s a).each ok err
            (log ++ [⟨q, a, need s a⟩]) (write s a s) :=
  Iff.rfl

/-
  Sequencing: the statements of the first program, and then
  those of the second one, wherever the first one ends.
-/
theorem each_bind
    {p : Prog S σ β}
    {f : β → Prog S σ α}
    (hFirst :
      p.each
        (fun log s ks s' rest => ok log s ks s' (rest.bind f))
        err log s)
    (hRest :
      p.wp (fun log s a => (f a).each ok err log s)
        (fun _ _ => True) log s) :
    (p.bind f).each ok err log s := by
  induction p generalizing log s with
  | done a => exact hRest
  | fail e => exact hFirst
  | stmt q need write next ih =>
      intro a
      exact ⟨(hFirst a).1, ih s a (hFirst a).2 (hRest a)⟩
  | commit next ih => trivial
  | rollback next ih => trivial

theorem each_mono
    (p : Prog S σ α)
    (hOk :
      ∀ log s ks s' rest, ok log s ks s' rest →
        ok' log s ks s' rest)
    (hEach : p.each ok err log s) :
    p.each ok' err log s := by
  induction p generalizing log s with
  | done a => trivial
  | fail e => exact hEach
  | stmt q need write next ih =>
      intro a
      exact ⟨hOk _ _ _ _ _ (hEach a).1, ih s a (hEach a).2⟩
  | commit next ih => trivial
  | rollback next ih => trivial

/- What holds of each statement holds of those to come. -/
theorem Serial.each_sound
    {p p' : Prog S σ α}
    {w : σ → σ}
    (run : Serial p s log w p')
    (hEach : p.each ok err [] s) :
    p'.each ok err log (w s) := by
  induction run with
  | start => exact hEach
  | step run a ih => exact (ih a).2

end Prog

end ReadCommitted

------------------------------------------------------------
-- Values Obtained Once
------------------------------------------------------------

namespace ReadCommitted

variable {S : Sig} {W : World S} {σ α β : Type}

/- What `pick` finds in the statement of an event. -/
def Event.picked
    (pick : Action S → Option β) :
    Event S σ α → Option β
| .ran _ act => pick act
| _ => none

/- The values that statements have obtained, latest first. -/
def picks
    (pick : Action S → Option β)
    (trace : List (Event S σ α)) : List β :=
  trace.filterMap (Event.picked pick)

/-
  The values of a client are its own: they are all different,
  and no other client has them, nor any transaction that has
  been committed.
-/
structure Owned
    (pick : Action S → Option β)
    (s : Sys W σ α) : Prop where
  asked :
    ∀ pid pr, s.procs pid = some pr →
      ∀ v ∈ pr.log.filterMap pick, v ∈ picks pick s.trace
  committed :
    ∀ c ∈ commits s.trace,
      ∀ v ∈ c.log.filterMap pick, v ∈ picks pick s.trace
  once :
    ∀ pid pr, s.procs pid = some pr →
      (pr.log.filterMap pick).Nodup
  fresh :
    ∀ pid pr, s.procs pid = some pr →
      ∀ v ∈ pr.log.filterMap pick,
        ∀ c ∈ commits s.trace, v ∉ c.log.filterMap pick
  apart :
    ∀ pid pid' pr pr', pid ≠ pid' →
      s.procs pid = some pr → s.procs pid' = some pr' →
        ∀ v ∈ pr.log.filterMap pick,
          v ∉ pr'.log.filterMap pick

variable {pick : Action S → Option β}
variable {programs : Prog S σ α → Prop}
variable {c c' : Config W σ α} {pid : ℕ}
variable {o o' : Option (Proc S σ α)} {keys : List S.Key}

/- A client obtains a value, or its log starts anew. -/
theorem Acts.picks
    (pick : Action S → Option β)
    (hActs : Acts programs c pid o keys c' o') :
    (∃ pr act pr', o = some pr ∧ o' = some pr' ∧
      pr'.log = pr.log ++ [act] ∧
      c'.trace = .ran pid act :: c.trace) ∨
    ((∀ pr', o' = some pr' → pr'.log = []) ∧
      ReadCommitted.picks pick c'.trace =
        ReadCommitted.picks pick c.trace ∧
      ∀ x ∈ commits c'.trace,
        x ∈ commits c.trace ∨
          ∃ pr, o = some pr ∧ x.log = pr.log) := by
  cases hActs with
  | @run pr q need write next a env' hProg hAnswer =>
      exact Or.inl ⟨pr, _, _, rfl, rfl, rfl, rfl⟩
  | spawn | rollback =>
      refine Or.inr ⟨?_, rfl, fun x hx => Or.inl hx⟩
      intro pr' hSome
      cases hSome
      rfl
  | abort | crash =>
      refine Or.inr ⟨?_, rfl, fun x hx => Or.inl hx⟩
      intro pr' hSome
      cases hSome
  | @commit pr next hProg =>
      refine Or.inr ⟨?_, rfl, ?_⟩
      · intro pr' hSome
        cases hSome
        rfl
      · intro x hx
        rcases List.mem_cons.mp hx with rfl | hOld
        · exact Or.inr ⟨pr, rfl, rfl⟩
        · exact Or.inl hOld
  | @finish pr a hProg =>
      refine Or.inr ⟨?_, rfl, ?_⟩
      · intro pr' hSome
        cases hSome
      · intro x hx
        rcases List.mem_cons.mp hx with rfl | hOld
        · exact Or.inr ⟨pr, rfl, rfl⟩
        · exact Or.inl hOld

/- The log of a client when one of them has acted. -/
theorem update_cases
    {procs : ℕ → Option (Proc S σ α)}
    {pid' : ℕ}
    {pr : Proc S σ α}
    (hProc : Function.update procs pid o' pid' = some pr) :
    (pid' = pid ∧ o' = some pr) ∨
      (pid' ≠ pid ∧ procs pid' = some pr) := by
  by_cases hSame : pid' = pid
  · subst hSame
    rw [Function.update_self] at hProc
    exact Or.inl ⟨rfl, hProc⟩
  · rw [Function.update_of_ne hSame] at hProc
    exact Or.inr ⟨hSame, hProc⟩

/- What a client obtains next belongs to nobody yet. -/
theorem Owned.obtain
    {s : Sys W σ α}
    (hOwned : Owned pick s)
    {pr pr' : Proc S σ α}
    {act : Action S}
    (hOld : s.procs pid = some pr)
    (hLog : pr'.log = pr.log ++ [act])
    (hTrace : c'.trace = .ran pid act :: s.trace)
    (hOnce : (picks pick c'.trace).Nodup) :
    Owned pick
      ⟨c', Function.update s.procs pid (some pr')⟩ := by
  have hPicks :
      picks pick c'.trace =
        (pick act).toList ++ picks pick s.trace := by
    rw [hTrace]
    cases hAct : pick act <;>
      simp [picks, Event.picked, hAct]
  have hSame : commits c'.trace = commits s.trace := by
    rw [hTrace]
    rfl
  have hNew :
      pr'.log.filterMap pick =
        pr.log.filterMap pick ++ (pick act).toList := by
    rw [hLog]
    cases hAct : pick act <;> simp [hAct]
  rw [hPicks] at hOnce
  have hUnseen :
      ∀ v ∈ (pick act).toList, v ∉ picks pick s.trace :=
    fun v hv hSeen =>
      (List.nodup_append.mp hOnce).2.2 v hv v hSeen rfl
  constructor
  · intro pid' x hProc v hv
    change v ∈ picks pick c'.trace
    rw [hPicks, List.mem_append]
    rcases update_cases hProc with ⟨-, hSome⟩ | ⟨-, hSome⟩
    · cases hSome
      rw [hNew, List.mem_append] at hv
      rcases hv with hv | hv
      · exact Or.inr (hOwned.asked pid pr hOld v hv)
      · exact Or.inl hv
    · exact Or.inr (hOwned.asked pid' x hSome v hv)
  · intro x hx v hv
    change v ∈ picks pick c'.trace
    change x ∈ commits c'.trace at hx
    rw [hSame] at hx
    rw [hPicks, List.mem_append]
    exact Or.inr (hOwned.committed x hx v hv)
  · intro pid' x hProc
    rcases update_cases hProc with ⟨-, hSome⟩ | ⟨-, hSome⟩
    · cases hSome
      rw [hNew]
      apply List.nodup_append.mpr
      refine
        ⟨hOwned.once pid pr hOld,
          (List.nodup_append.mp hOnce).1, ?_⟩
      rintro v hv v' hv' rfl
      exact hUnseen v hv' (hOwned.asked pid pr hOld v hv)
    · exact hOwned.once pid' x hSome
  · intro pid' x hProc v hv y hy hIn
    change y ∈ commits c'.trace at hy
    rw [hSame] at hy
    rcases update_cases hProc with ⟨-, hSome⟩ | ⟨-, hSome⟩
    · cases hSome
      rw [hNew, List.mem_append] at hv
      rcases hv with hv | hv
      · exact hOwned.fresh pid pr hOld v hv y hy hIn
      · exact hUnseen v hv (hOwned.committed y hy v hIn)
    · exact hOwned.fresh pid' x hSome v hv y hy hIn
  · intro p p' x x' hNe hProc hProc' v hv hv'
    rcases update_cases hProc with
      ⟨rfl, hSome⟩ | ⟨hOther, hSome⟩
    · cases hSome
      rcases update_cases hProc' with
        ⟨rfl, -⟩ | ⟨-, hSome'⟩
      · exact hNe rfl
      · rw [hNew, List.mem_append] at hv
        rcases hv with hv | hv
        · exact
            hOwned.apart p p' pr x' hNe hOld hSome' v hv hv'
        · exact
            hUnseen v hv (hOwned.asked p' x' hSome' v hv')
    · rcases update_cases hProc' with
        ⟨rfl, hSome'⟩ | ⟨-, hSome'⟩
      · cases hSome'
        rw [hNew, List.mem_append] at hv'
        rcases hv' with hv' | hv'
        · exact
            hOwned.apart p p' x pr hNe hSome hOld v hv hv'
        · exact hUnseen v hv' (hOwned.asked p x hSome v hv)
      · exact
          hOwned.apart p p' x x' hNe hSome hSome' v hv hv'

/- A log that starts anew gives its values to the commit. -/
theorem Owned.release
    {s : Sys W σ α}
    (hOwned : Owned pick s)
    (hNil : ∀ pr', o' = some pr' → pr'.log = [])
    (hPicks : picks pick c'.trace = picks pick s.trace)
    (hCommits :
      ∀ x ∈ commits c'.trace,
        x ∈ commits s.trace ∨
          ∃ pr, s.procs pid = some pr ∧ x.log = pr.log) :
    Owned pick ⟨c', Function.update s.procs pid o'⟩ := by
  constructor
  · intro pid' x hProc v hv
    change v ∈ picks pick c'.trace
    rw [hPicks]
    rcases update_cases hProc with ⟨-, hSome⟩ | ⟨-, hSome⟩
    · rw [hNil x hSome] at hv
      cases hv
    · exact hOwned.asked pid' x hSome v hv
  · intro x hx v hv
    change v ∈ picks pick c'.trace
    rw [hPicks]
    rcases hCommits x hx with hOld | ⟨pr, hSome, hLog⟩
    · exact hOwned.committed x hOld v hv
    · rw [hLog] at hv
      exact hOwned.asked pid pr hSome v hv
  · intro pid' x hProc
    rcases update_cases hProc with ⟨-, hSome⟩ | ⟨-, hSome⟩
    · rw [hNil x hSome]
      exact .nil
    · exact hOwned.once pid' x hSome
  · intro pid' x hProc v hv y hy hIn
    rcases update_cases hProc with
      ⟨-, hSome⟩ | ⟨hOther, hSome⟩
    · rw [hNil x hSome] at hv
      cases hv
    · rcases hCommits y hy with hOld | ⟨pr, hPr, hLog⟩
      · exact hOwned.fresh pid' x hSome v hv y hOld hIn
      · rw [hLog] at hIn
        exact
          hOwned.apart pid' pid x pr hOther hSome hPr v hv
            hIn
  · intro p p' x x' hNe hProc hProc' v hv hv'
    rcases update_cases hProc with ⟨-, hSome⟩ | ⟨-, hSome⟩
    · rw [hNil x hSome] at hv
      cases hv
    · rcases update_cases hProc' with
        ⟨-, hSome'⟩ | ⟨-, hSome'⟩
      · rw [hNil x' hSome'] at hv'
        cases hv'
      · exact
          hOwned.apart p p' x x' hNe hSome hSome' v hv hv'

theorem Owned.act
    {s : Sys W σ α}
    (hOwned : Owned pick s)
    (hActs :
      Acts programs s.toConfig pid (s.procs pid) keys c' o')
    (hOnce : (picks pick c'.trace).Nodup) :
    Owned pick ⟨c', Function.update s.procs pid o'⟩ := by
  rcases hActs.picks pick with
    ⟨pr, act, pr', hOld, rfl, hLog, hTrace⟩ |
      ⟨hNil, hPicks, hCommits⟩
  · exact hOwned.obtain hOld hLog hTrace hOnce
  · exact hOwned.release hNil hPicks hCommits

/- The values of a run without repetitions are owned. -/
theorem Reachable.owned
    {db : σ}
    {env : W.Carrier}
    {s : Sys W σ α}
    (hReach : Reachable programs (Sys.initial db env) s)
    (hOnce : (picks pick s.trace).Nodup) :
    Owned pick s := by
  induction hReach with
  | refl =>
      constructor
      · intro pid pr hProc
        cases hProc
      · intro c hc
        cases hc
      · intro pid pr hProc
        cases hProc
      · intro pid pr hProc
        cases hProc
      · intro pid pid' pr pr' hNe hProc
        cases hProc
  | @tail s s' hPrefix hStep ih =>
      cases hStep with
      | tick hAdvance =>
          have hOwned := ih hOnce
          exact ⟨hOwned.asked, hOwned.committed, hOwned.once,
            hOwned.fresh, hOwned.apart⟩
      | @act pid keys c' o' hActs hFree =>
          have hBefore : (picks pick s.trace).Nodup := by
            rcases hActs.picks pick with
              ⟨pr, act, pr', -, -, -, hTrace⟩ |
                ⟨-, hPicks, -⟩
            · change (picks pick c'.trace).Nodup at hOnce
              rw [hTrace] at hOnce
              exact
                hOnce.sublist
                  (List.Sublist.filterMap _
                    (List.sublist_cons_self _ _))
            · rw [← hPicks]
              exact hOnce
          exact (ih hBefore).act hActs hOnce

/- No value is obtained by two of its commits. -/
theorem Reachable.commits_apart
    {db : σ}
    {env : W.Carrier}
    {s : Sys W σ α}
    (hReach : Reachable programs (Sys.initial db env) s)
    (hOnce : (picks pick s.trace).Nodup) :
    (commits s.trace).Pairwise (fun x x' =>
      ∀ v ∈ x.log.filterMap pick,
        v ∉ x'.log.filterMap pick) := by
  induction hReach with
  | refl => exact .nil
  | @tail s s' hPrefix hStep ih =>
      cases hStep with
      | tick hAdvance => exact ih hOnce
      | @act pid keys c' o' hActs hFree =>
          have hCommitted :
              ∀ {pr : Proc S σ α} {x : Commit S σ α},
                s.procs pid = some pr → x.log = pr.log →
                (picks pick s.trace).Nodup →
                (x :: commits s.trace).Pairwise (fun y y' =>
                  ∀ v ∈ y.log.filterMap pick,
                    v ∉ y'.log.filterMap pick) := by
            intro pr x hProc hLog hOnce
            apply List.pairwise_cons.mpr
            refine ⟨?_, ih hOnce⟩
            intro y hy v hv
            rw [hLog] at hv
            exact
              (Reachable.owned hPrefix hOnce).fresh pid pr
                hProc v hv y hy
          generalize hBefore : s.procs pid = o at hActs
          cases hActs with
          | @run pr q need write next a env' hProg hAnswer =>
              apply ih
              exact
                List.Nodup.sublist
                  (List.Sublist.filterMap _
                    (List.sublist_cons_self _ _))
                  hOnce
          | spawn | rollback | abort | crash => exact ih hOnce
          | @commit pr next hProg =>
              exact hCommitted hBefore rfl hOnce
          | @finish pr a hProg =>
              exact hCommitted hBefore rfl hOnce

end ReadCommitted
