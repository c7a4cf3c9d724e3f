import PigBook.ReadCommitted.Outline

/-
  What the statements of one client leave in the history.

  A client that executes several statements moves along a
  course; in between only others act.  The last statement of
  a kind can be read off the history.

  Key definitions include:
    * `Rules.Course`
    * `lastRan`
    * `begunAs`

  Key theorems include:
    * `Rules.Course.history`
    * `lastRan_course`
    * `begunAs_ran`, `Prog.rwp_begun`
    * `states_total`
    * `split_unique`
-/

------------------------------------------------------------
-- Courses
------------------------------------------------------------

namespace ReadCommitted

variable {S : Sig} {W : World S} {σ α : Type}

namespace Rules

/-
  `R.Course pid P log c log' c'`: the client, who had executed
  `log` at `c`, has executed `log'` at `c'`; each statement in
  between satisfies `P`.
-/
inductive Course
    (R : Rules W σ α)
    (pid : ℕ)
    (P : Action S → Prop)
    (log : List (Action S))
    (c : Config W σ α) :
    List (Action S) → Config W σ α → Prop
  | start : Course R pid P log c log c
  | step
      {log' : List (Action S)} {act : Action S}
      {c' c'' : Config W σ α}
      (hCourse : Course R pid P log c log' c')
      (hRan : R.Ran pid (held log') act c' c'')
      (hAct : P act) :
      Course R pid P log c (log' ++ [act]) c''

variable {R : Rules W σ α} {pid : ℕ}
variable {P Q : Action S → Prop}
variable {log log' log'' : List (Action S)} {act : Action S}
variable {c c' c'' : Config W σ α}

theorem Course.single
    (log : List (Action S))
    (hRan : R.Ran pid (held log) act c c')
    (hAct : P act) :
    R.Course pid P log c (log ++ [act]) c' :=
  Course.start.step hRan hAct

theorem Course.trans
    (hFirst : R.Course pid P log c log' c')
    (hSecond : R.Course pid P log' c' log'' c'') :
    R.Course pid P log c log'' c'' := by
  induction hSecond with
  | start => exact hFirst
  | step hCourse hRan hAct ih => exact ih.step hRan hAct

theorem Course.mono
    (hImp : ∀ act, P act → Q act)
    (hCourse : R.Course pid P log c log' c') :
    R.Course pid Q log c log' c' := by
  induction hCourse with
  | start => exact .start
  | step hCourse hRan hAct ih =>
      exact ih.step hRan (hImp _ hAct)

theorem Course.held_subset
    (hCourse : R.Course pid P log c log' c') :
    ∀ k ∈ held log, k ∈ held log' := by
  induction hCourse with
  | start => exact fun k hKey => hKey
  | step hCourse hRan hAct ih =>
      intro k hKey
      rw [held_append]
      exact List.mem_append_left _ (ih k hKey)

theorem Course.good
    (hCourse : R.Course pid P log c log' c')
    (hGood : R.good c) :
    R.good c' := by
  cases hCourse with
  | start => exact hGood
  | step hCourse hRan hAct => exact hRan.good

/-
  What the others keep under the first keys lasts along a
  course.
-/
theorem Course.keeps
    (rel : Config W σ α → Config W σ α → Prop)
    (hRefl : ∀ c, rel c c)
    (hTrans : ∀ {c c' c''}, rel c c' → rel c' c'' → rel c c'')
    (hRan :
      ∀ {ks act c c'}, (∀ k ∈ held log, k ∈ ks) →
        R.Ran pid ks act c c' → rel c c')
    (hCourse : R.Course pid P log c log' c') :
    rel c c' := by
  induction hCourse with
  | start => exact hRefl c
  | step hCourse hStep hAct ih =>
      exact hTrans ih (hRan hCourse.held_subset hStep)

end Rules

namespace Contract

variable {K : Contract W σ α} {pid : ℕ}
variable {ks : List S.Key} {act : Action S}
variable {log acts : List (Action S)}
variable {c c' : Config W σ α}

/- Before the statement others may have acted. -/
theorem ran_history
    (hRan : K.rules.Ran pid ks act c c') :
    ∃ newer, c'.trace = .ran pid act :: (newer ++ c.trace) ∧
      ∀ e ∈ newer, e.pid ≠ pid := by
  rcases hRan.step with
    ⟨c₀, -, hRely, -, -, hTrace⟩
  rcases hRely.events with ⟨newer, hNewer, hOthers⟩
  refine ⟨newer, ?_, fun e hMem => (hOthers e hMem).1⟩
  rw [hTrace, hNewer]

/- The store that the statement saw is that of the history. -/
theorem ran_latest
    (hRan : K.rules.Ran pid ks act c c') :
    ∃ older, c'.trace = .ran pid act :: older ∧
      c.trace <:+ older ∧ c'.db = latest K.start older := by
  rcases hRan.step with
    ⟨c₀, hGood, hRely, -, hDb, hTrace⟩
  rcases hRely.events with ⟨newer, hNewer, -⟩
  refine ⟨c₀.trace, hTrace, ⟨newer, hNewer.symm⟩, ?_⟩
  rw [hDb]
  exact hGood.db

/- A statement whose event is worth what it should be. -/
theorem rwp_stmt_of_outcome
    {β : Type}
    {log : List (Action S)}
    {w : σ → σ}
    {post :
      β → List (Action S) → (σ → σ) → Config W σ α → Prop}
    {q : S.Query}
    {need : σ → S.Answer q → List S.Key}
    {write : σ → S.Answer q → σ → σ}
    {next : σ → S.Answer q → Prog S σ β}
    (hOutcome :
      ∀ a c', K.Good c' → K.Rely pid (held log) c c' →
        K.outcome c'.trace
          (.ran pid ⟨q, a, need (w c'.db) a⟩))
    (h :
      ∀ a c',
        K.rules.Ran pid (held log)
          ⟨q, a, need (w c'.db) a⟩ c c' →
          (next (w c'.db) a).rwp K.rules pid post
            (log ++ [⟨q, a, need (w c'.db) a⟩])
            (fun t => write (w c'.db) a (w t)) c') :
    (Prog.stmt q need write next).rwp K.rules pid post log w
      c := by
  intro c₀ hGood hRely a env' hAnswer
  have hLater := K.later_answers hAnswer
  have hGood' :
      K.Good (c₀.ran pid ⟨q, a, need (w c₀.db) a⟩ env') := {
    db := hGood.db
    valid := K.valid_later hLater hGood.valid
    linked := ⟨trivial, hGood.linked⟩
    audited := ⟨hOutcome a c₀ hGood hRely, hGood.audited⟩
  }
  refine
    ⟨hGood',
      fun _ _ hNe _ => Contract.Rely.event hNe rfl hLater, ?_⟩
  apply h a (c₀.ran pid _ env')
  exact {
    good := hGood'
    step := ⟨c₀, hGood, hRely, hAnswer, rfl, rfl⟩
  }

end Contract

/- A course leaves only its statements in the history. -/
theorem Rules.Course.history
    {K : Contract W σ α}
    {pid : ℕ}
    {P : Action S → Prop}
    {log log' : List (Action S)}
    {c c' : Config W σ α}
    (hCourse : K.rules.Course pid P log c log' c') :
    ∃ newer, c'.trace = newer ++ c.trace ∧
      ∀ e ∈ newer, e.pid = pid →
        ∃ act, P act ∧ e = .ran pid act := by
  induction hCourse with
  | start => exact ⟨[], rfl, fun e hMem => by cases hMem⟩
  | @step log' act c' c'' hCourse hRan hAct ih =>
      rcases ih with ⟨newer, hTrace, hOwn⟩
      rcases Contract.ran_history hRan with
        ⟨others, hTrace', hOthers⟩
      refine ⟨.ran pid act :: (others ++ newer), ?_, ?_⟩
      · rw [hTrace', hTrace]
        simp
      · intro e hMem hPid
        rcases List.mem_cons.mp hMem with rfl | hMem
        · exact ⟨act, hAct, rfl⟩
        rcases List.mem_append.mp hMem with hOther | hOld
        · exact absurd hPid (hOthers e hOther)
        · exact hOwn e hOld hPid

end ReadCommitted

------------------------------------------------------------
-- The Last Statement of a Kind
------------------------------------------------------------

namespace ReadCommitted

variable {S : Sig} {W : World S} {σ α : Type}

/-
  The last statement of a client whose question is of a kind,
  since the client began, and the events before it.
-/
def lastRan
    (pid : ℕ)
    (kind : S.Query → Bool) :
    List (Event S σ α) →
      Option (Action S × List (Event S σ α))
| [] => none
| .ran pid' act :: older =>
    if pid' = pid ∧ kind act.query = true then
      some (act, older)
    else
      lastRan pid kind older
| .spawned pid' _ :: older =>
    if pid' = pid then none else lastRan pid kind older
| .committed _ _ _ _ _ :: older => lastRan pid kind older
| .rolledBack _ :: older => lastRan pid kind older
| .aborted _ _ :: older => lastRan pid kind older
| .crashed _ :: older => lastRan pid kind older

variable {pid : ℕ} {kind : S.Query → Bool}
variable {trace newer older : List (Event S σ α)}
variable {act : Action S}

@[simp] theorem lastRan_spawned
    (p : Prog S σ α) :
    lastRan pid kind (.spawned pid p :: trace) = none := by
  simp [lastRan]

theorem lastRan_ran
    (hKind : kind act.query = true) :
    lastRan pid kind (.ran pid act :: trace) =
      some (act, trace) := by
  simp [lastRan, hKind]

/- Other events of the client's transactions do not matter. -/
theorem lastRan_append
    (hNewer :
      ∀ e ∈ newer, e.pid = pid →
        (∃ act, kind act.query = false ∧
          e = .ran pid act) ∨
        (∀ act, e ≠ .ran pid act) ∧
          ∀ p, e ≠ .spawned pid p) :
    lastRan pid kind (newer ++ trace) =
      lastRan pid kind trace := by
  induction newer with
  | nil => rfl
  | cons e newer ih =>
      have hRest :=
        ih (fun x hx => hNewer x (List.mem_cons_of_mem e hx))
      rw [List.cons_append, ← hRest]
      have hHead := hNewer e List.mem_cons_self
      cases e with
      | ran pid' act =>
          rw [lastRan, if_neg]
          rintro ⟨rfl, hKind⟩
          rcases hHead rfl with ⟨act', hNot, hEq⟩ | ⟨hNot, -⟩
          · cases hEq
            rw [hKind] at hNot
            cases hNot
          · exact hNot act rfl
      | spawned pid' p =>
          rw [lastRan, if_neg]
          rintro rfl
          rcases hHead rfl with ⟨act', -, hEq⟩ | ⟨-, hNot⟩
          · cases hEq
          · exact hNot p rfl
      | _ => rfl

theorem lastRan_others
    (hOthers : ∀ e ∈ newer, e.pid ≠ pid) :
    lastRan pid kind (newer ++ trace) =
      lastRan pid kind trace :=
  lastRan_append
    (fun e hMem hPid => absurd hPid (hOthers e hMem))

/- A course of other kinds keeps the last statement. -/
theorem lastRan_course
    {K : Contract W σ α}
    {P : Action S → Prop}
    {log log' : List (Action S)}
    {c c' : Config W σ α}
    (hKind : ∀ act, P act → kind act.query = false)
    (hCourse : K.rules.Course pid P log c log' c') :
    lastRan pid kind c'.trace = lastRan pid kind c.trace := by
  rcases hCourse.history with ⟨newer, hTrace, hOwn⟩
  rw [hTrace]
  apply lastRan_append
  intro e hMem hPid
  rcases hOwn e hMem hPid with ⟨act, hAct, hEq⟩
  exact Or.inl ⟨act, hKind act hAct, hEq⟩

theorem lastRan_rely
    {K : Contract W σ α}
    {ks : List S.Key}
    {c c' : Config W σ α}
    (hRely : K.Rely pid ks c c') :
    lastRan pid kind c'.trace = lastRan pid kind c.trace := by
  rcases hRely.events with ⟨newer, hTrace, hOthers⟩
  rw [hTrace]
  exact lastRan_others (fun e hMem => (hOthers e hMem).1)

/- What is found is in the history. -/
theorem lastRan_split
    (hLast : lastRan pid kind trace = some (act, older)) :
    kind act.query = true ∧
      ∃ newer, trace = newer ++ .ran pid act :: older := by
  induction trace with
  | nil => cases hLast
  | cons e rest ih =>
      cases e with
      | ran pid' act' =>
          rw [lastRan] at hLast
          split at hLast
          · rename_i hOwn
            cases hLast
            rw [hOwn.1]
            exact ⟨hOwn.2, [], rfl⟩
          · rcases ih hLast with ⟨hKind, newer, hRest⟩
            exact ⟨hKind, _ :: newer, by rw [hRest]; rfl⟩
      | spawned pid' p =>
          rw [lastRan] at hLast
          split at hLast
          · cases hLast
          · rcases ih hLast with ⟨hKind, newer, hRest⟩
            exact ⟨hKind, _ :: newer, by rw [hRest]; rfl⟩
      | _ =>
          rcases ih hLast with ⟨hKind, newer, hRest⟩
          exact ⟨hKind, _ :: newer, by rw [hRest]; rfl⟩

end ReadCommitted

------------------------------------------------------------
-- The Program of a Client
------------------------------------------------------------

namespace ReadCommitted

variable {S : Sig} {W : World S} {σ α : Type}

/- The program with which a client has begun last. -/
def begunAs
    (pid : ℕ) :
    List (Event S σ α) → Option (Prog S σ α)
| [] => none
| .spawned pid' p :: older =>
    if pid' = pid then some p else begunAs pid older
| .ran _ _ :: older => begunAs pid older
| .committed _ _ _ _ _ :: older => begunAs pid older
| .rolledBack _ :: older => begunAs pid older
| .aborted _ _ :: older => begunAs pid older
| .crashed _ :: older => begunAs pid older

variable {K : Contract W σ α} {pid : ℕ}
variable {ks : List S.Key} {act : Action S}
variable {trace newer : List (Event S σ α)}
variable {c c' : Config W σ α}

@[simp] theorem begunAs_spawned
    (p : Prog S σ α) :
    begunAs pid (.spawned pid p :: trace) = some p := by
  simp [begunAs]

theorem begunAs_others
    (hOthers : ∀ e ∈ newer, e.pid ≠ pid) :
    begunAs pid (newer ++ trace) = begunAs pid trace := by
  induction newer with
  | nil => rfl
  | cons e newer ih =>
      have hRest :=
        ih (fun x hx => hOthers x (List.mem_cons_of_mem e hx))
      rw [List.cons_append, ← hRest]
      have hHead := hOthers e List.mem_cons_self
      cases e with
      | spawned pid' p => exact if_neg hHead
      | _ => rfl

/- Nobody else changes what a client has begun as. -/
theorem begunAs_rely
    (hRely : K.Rely pid ks c c') :
    begunAs pid c'.trace = begunAs pid c.trace := by
  rcases hRely.events with ⟨newer, hTrace, hOthers⟩
  rw [hTrace]
  exact begunAs_others (fun e hMem => (hOthers e hMem).1)

/- Nor does a statement of its own. -/
theorem begunAs_ran
    (hRan : K.rules.Ran pid ks act c c') :
    begunAs pid c'.trace = begunAs pid c.trace := by
  rcases Contract.ran_history hRan with
    ⟨newer, hTrace, hOthers⟩
  rw [hTrace]
  exact begunAs_others hOthers

/-
  A program keeps what its client has begun as, so that a
  postcondition may rely on it.
-/
theorem Prog.rwp_begun
    {β : Type}
    {R : Rules W σ α}
    {post :
      β → List (Action S) → (σ → σ) → Config W σ α → Prop}
    {begun : Option (Prog S σ α)}
    (hRely :
      ∀ {ks : List S.Key} {c c' : Config W σ α},
        R.rely pid ks c c' →
          begunAs pid c'.trace = begunAs pid c.trace)
    {p : Prog S σ β}
    {log : List (Action S)}
    {w : σ → σ}
    {c : Config W σ α}
    (hBegun : begunAs pid c.trace = begun)
    (h :
      p.rwp R pid
        (fun a log w c' =>
          begunAs pid c'.trace = begun → post a log w c')
        log w c) :
    p.rwp R pid post log w c := by
  induction p generalizing log w c with
  | done a => exact h hBegun
  | fail e => exact h
  | stmt q need write next ih =>
      intro c' hGood hOthers a env' hAnswer
      rcases h c' hGood hOthers a env' hAnswer with
        ⟨hGood', hGuarantee, hNext⟩
      refine ⟨hGood', hGuarantee, ih _ a ?_ hNext⟩
      exact (hRely hOthers).trans hBegun
  | commit next ih =>
      intro c' hGood hOthers
      rcases h c' hGood hOthers with ⟨hCommits, hNext⟩
      exact ⟨hCommits, ih ((hRely hOthers).trans hBegun) hNext⟩
  | rollback next ih =>
      intro c' hGood hOthers
      exact
        ih ((hRely hOthers).trans hBegun) (h c' hGood hOthers)

end ReadCommitted

------------------------------------------------------------
-- Commits and States of a History
------------------------------------------------------------

namespace ReadCommitted

variable {S : Sig} {σ α : Type}
variable {trace older : List (Event S σ α)}
variable {db : σ}

/- A commit has its place in the history. -/
theorem exists_of_mem_commits
    {c : Commit S σ α}
    (hMem : c ∈ commits trace) :
    ∃ newer pid older,
      trace =
        newer ++
          .committed pid c.log c.before c.after c.answer ::
            older := by
  rcases List.mem_filterMap.mp hMem with ⟨e, hEvent, hCommit⟩
  rcases List.append_of_mem hEvent with
    ⟨newer, older, rfl⟩
  cases e with
  | committed pid log before after answer =>
      cases hCommit
      exact ⟨newer, pid, older, rfl⟩
  | _ => cases hCommit

theorem mem_commits_of_split
    {newer : List (Event S σ α)}
    {pid : ℕ}
    {log : List (Action S)}
    {before after : σ}
    {answer : Option α} :
    ⟨log, before, after, answer⟩ ∈
      commits
        (newer ++
          .committed pid log before after answer :: older) := by
  apply List.mem_filterMap.mpr
  exact
    ⟨_, List.mem_append_right _ List.mem_cons_self, rfl⟩

/- A committed store is the latest one of an earlier history. -/
theorem exists_of_mem_states
    {t : σ}
    (hMem : t ∈ states db trace) :
    ∃ newer older, trace = newer ++ older ∧
      t = latest db older := by
  induction trace with
  | nil => exact ⟨[], [], rfl, List.mem_singleton.mp hMem⟩
  | cons e older ih =>
      have hOld :
          t ∈ states db older →
            ∃ newer older', e :: older = newer ++ older' ∧
              t = latest db older' := by
        intro hIn
        rcases ih hIn with ⟨newer, older', rfl, hLatest⟩
        exact ⟨e :: newer, older', rfl, hLatest⟩
      cases e with
      | committed pid log before after answer =>
          rcases List.mem_cons.mp hMem with hNew | hIn
          · exact ⟨[], _, rfl, hNew⟩
          · exact hOld hIn
      | _ => exact hOld hMem

/- What was committed once is a state of the whole run. -/
theorem states_of_suffix
    (hSuffix : older <:+ trace) :
    ∀ t ∈ states db older, t ∈ states db trace := by
  rcases hSuffix with ⟨newer, rfl⟩
  intro t hMem
  unfold states commits at hMem ⊢
  rw [List.filterMap_append, List.map_append,
    List.append_assoc]
  exact List.mem_append_right _ hMem

/- What every commit in between keeps holds afterwards. -/
theorem latest_append
    {P : σ → Prop}
    {newer : List (Event S σ α)}
    (hLinked :
      Audited (Event.Follows db) (newer ++ older))
    (hKeep : ∀ c ∈ commits newer, P c.before → P c.after)
    (hBefore : P (latest db older)) :
    P (latest db (newer ++ older)) := by
  induction newer with
  | nil => exact hBefore
  | cons e rest ih =>
      cases e with
      | committed pid log before after answer =>
          have hRest :=
            ih hLinked.2
              (fun c hc => hKeep c (List.mem_cons_of_mem _ hc))
          have hFollows : before = latest db (rest ++ older) :=
            hLinked.1
          apply hKeep _ List.mem_cons_self
          rw [hFollows]
          exact hRest
      | _ => exact ih hLinked.2 hKeep

/-
  When every commit goes along a preorder, the states of a run
  are ordered by it.
-/
theorem states_le_latest
    {rel : σ → σ → Prop}
    (hRefl : ∀ s, rel s s)
    (hTrans : ∀ {s s' s''}, rel s s' → rel s' s'' → rel s s'')
    (hLinked : Audited (Event.Follows db) trace)
    (hStep : ∀ c ∈ commits trace, rel c.before c.after) :
    ∀ t ∈ states db trace, rel t (latest db trace) := by
  induction trace with
  | nil =>
      intro t hMem
      rw [List.mem_singleton.mp hMem]
      exact hRefl db
  | cons e rest ih =>
      cases e with
      | committed pid log before after answer =>
          have hRest :=
            ih hLinked.2
              (fun c hc => hStep c (List.mem_cons_of_mem _ hc))
          have hFollows : before = latest db rest := hLinked.1
          intro t hMem
          rcases List.mem_cons.mp hMem with rfl | hOld
          · exact hRefl _
          · apply hTrans (hRest t hOld)
            rw [← hFollows]
            exact hStep _ List.mem_cons_self
      | _ => exact ih hLinked.2 hStep

theorem states_total
    {rel : σ → σ → Prop}
    (hRefl : ∀ s, rel s s)
    (hTrans : ∀ {s s' s''}, rel s s' → rel s' s'' → rel s s'')
    (hLinked : Audited (Event.Follows db) trace)
    (hStep : ∀ c ∈ commits trace, rel c.before c.after) :
    ∀ t ∈ states db trace, ∀ t' ∈ states db trace,
      rel t t' ∨ rel t' t := by
  induction trace with
  | nil =>
      intro t hMem t' hMem'
      rw [List.mem_singleton.mp hMem,
        List.mem_singleton.mp hMem']
      exact Or.inl (hRefl db)
  | cons e rest ih =>
      have hLast :=
        states_le_latest hRefl hTrans hLinked hStep
      cases e with
      | committed pid log before after answer =>
          intro t hMem t' hMem'
          rcases List.mem_cons.mp hMem with rfl | hOld
          · exact Or.inr (hLast t' hMem')
          rcases List.mem_cons.mp hMem' with rfl | hOld'
          · exact Or.inl (hLast t hMem)
          · exact
              ih hLinked.2
                (fun c hc =>
                  hStep c (List.mem_cons_of_mem _ hc))
                t hOld t' hOld'
      | _ => exact ih hLinked.2 hStep

end ReadCommitted

------------------------------------------------------------
-- Unrepeated Values in a History
------------------------------------------------------------

namespace ReadCommitted

/-
  Where the values that `f` reads off a list are all distinct,
  a value has one place.
-/
theorem split_unique
    {α β : Type}
    {f : α → Option β}
    {x y : α}
    {v : β}
    (hx : f x = some v)
    (hy : f y = some v)
    {xs xs' ys ys' : List α}
    (hNodup : ((xs ++ x :: xs').filterMap f).Nodup)
    (hSame : xs ++ x :: xs' = ys ++ y :: ys') :
    xs = ys ∧ x = y ∧ xs' = ys' := by
  induction xs generalizing ys with
  | nil =>
      cases ys with
      | nil =>
          cases hSame
          exact ⟨rfl, rfl, rfl⟩
      | cons z ys =>
          cases hSame
          simp [hx, hy] at hNodup
  | cons z xs ih =>
      cases ys with
      | nil =>
          cases hSame
          simp [hx, hy] at hNodup
      | cons z' ys =>
          rcases List.cons.inj hSame with ⟨rfl, hRest⟩
          have hTail :
              ((xs ++ x :: xs').filterMap f).Nodup := by
            rw [List.cons_append, List.filterMap_cons] at hNodup
            split at hNodup
            · exact hNodup
            · exact (List.nodup_cons.mp hNodup).2
          rcases ih hTail hRest with ⟨rfl, hEq, hEnd⟩
          exact ⟨rfl, hEq, hEnd⟩

/- Two places in a list are one, or one is behind the other. -/
theorem split_cases
    {α : Type}
    {x y : α}
    {xs xs' ys ys' : List α}
    (hSame : xs ++ x :: xs' = ys ++ y :: ys') :
    (xs = ys ∧ x = y ∧ xs' = ys') ∨
      (∃ zs, ys = xs ++ x :: zs ∧ xs' = zs ++ y :: ys') ∨
      ∃ zs, xs = ys ++ y :: zs ∧ ys' = zs ++ x :: xs' := by
  rcases List.append_eq_append_iff.mp hSame with
    ⟨zs, hYs, hRest⟩ | ⟨zs, hXs, hRest⟩
  · cases zs with
    | nil =>
        rw [List.nil_append] at hRest
        rcases List.cons.inj hRest with ⟨hEq, hTail⟩
        rw [List.append_nil] at hYs
        exact Or.inl ⟨hYs.symm, hEq, hTail⟩
    | cons z zs =>
        rcases List.cons.inj hRest with ⟨hEq, hTail⟩
        rw [← hEq] at hYs
        exact Or.inr (Or.inl ⟨zs, hYs, hTail⟩)
  · cases zs with
    | nil =>
        rw [List.nil_append] at hRest
        rcases List.cons.inj hRest with ⟨hEq, hTail⟩
        rw [List.append_nil] at hXs
        exact Or.inl ⟨hXs, hEq.symm, hTail.symm⟩
    | cons z zs =>
        rcases List.cons.inj hRest with ⟨hEq, hTail⟩
        rw [← hEq] at hXs
        exact Or.inr (Or.inr ⟨zs, hXs, hTail⟩)

end ReadCommitted
