import PigBook.ReadCommitted.Course
import PigBook.ReadCommitted.Embedding

/-
  Contracts that only watch.

  What the events of a run are worth can be shown apart from
  what keeps its store consistent.  Where an event is judged
  by the last statement of a kind, a program that asks no
  question of the kind is judged by its errors and answers
  alone.

  Key definitions include:
    * `Contract.watch`
    * `Prog.Avoids`

  Key theorems include:
    * `Prog.Avoids.bind`
    * `Prog.Avoids.rwp`
-/

------------------------------------------------------------
-- Watching
------------------------------------------------------------

namespace ReadCommitted

variable {S : Sig} {W : World S} {σ α : Type}

namespace Contract

/- Nothing matters but what the events are worth. -/
def watch
    (W : World S)
    (db : σ)
    (outcome : List (Event S σ α) → Event S σ α → Prop)
    (hQuiet : ∀ older e, Event.Quiet e → outcome older e) :
    Contract W σ α where
  start := db
  later := fun _ _ => True
  valid := fun _ _ => True
  stable := fun _ _ _ => True
  outcome := outcome
  later_refl := fun _ => trivial
  later_trans := fun _ _ => trivial
  later_answers := fun _ => trivial
  later_advance := fun _ => trivial
  valid_later := fun _ _ => trivial
  stable_refl := fun _ _ => trivial
  stable_trans := fun _ _ => trivial
  outcome_quiet := hQuiet

variable {db : σ}
variable {outcome : List (Event S σ α) → Event S σ α → Prop}
variable {hQuiet : ∀ older e, Event.Quiet e → outcome older e}
variable {pid : ℕ} {log : List (Action S)} {w : σ → σ}
variable {c : Config W σ α}

/- Only a commit's worth is at stake. -/
theorem watch_commits
    {answer : Option α}
    (hGood : (watch W db outcome hQuiet).Good c)
    (hOutcome :
      outcome c.trace
        (.committed pid log c.db (w c.db) answer)) :
    (watch W db outcome hQuiet).rules.Commits pid log w
      answer c :=
  Contract.commits hGood trivial hOutcome
    (fun _ _ => trivial)

end Contract

end ReadCommitted

------------------------------------------------------------
-- Avoiding a Kind of Question
------------------------------------------------------------

namespace ReadCommitted

namespace Prog

variable {S : Sig} {W : World S} {σ α β γ δ : Type}
variable {kind : S.Query → Bool} {mayFail : S.Error → Prop}

/-
  The program asks no question of the kind, and fails only
  with some errors.
-/
def Avoids
    (kind : S.Query → Bool)
    (mayFail : S.Error → Prop) : Prog S σ α → Prop
| done _ => True
| fail e => mayFail e
| stmt q _ _ next =>
    kind q = false ∧ ∀ s a, (next s a).Avoids kind mayFail
| commit next => next.Avoids kind mayFail
| rollback next => next.Avoids kind mayFail

theorem Avoids.bind
    {p : Prog S σ α}
    {f : α → Prog S σ β}
    (hAvoids : p.Avoids kind mayFail)
    (hNext : ∀ a, (f a).Avoids kind mayFail) :
    (p.bind f).Avoids kind mayFail := by
  induction p with
  | done a => exact hNext a
  | fail e => exact hAvoids
  | stmt q need write next ih =>
      exact
        ⟨hAvoids.1, fun s a => ih s a (hAvoids.2 s a)⟩
  | commit next ih => exact ih hAvoids
  | rollback next ih => exact ih hAvoids

theorem Avoids.select
    {q : S.Query}
    {need : σ → List S.Key}
    {f : σ → β}
    (hKind : kind q = false) :
    (select q need f).Avoids kind mayFail :=
  ⟨hKind, fun _ _ => trivial⟩

theorem Avoids.ask
    {q : S.Query}
    (hKind : kind q = false) :
    (ask q : Prog S σ (S.Answer q)).Avoids kind mayFail :=
  ⟨hKind, fun _ _ => trivial⟩

variable {db : σ} {pid : ℕ}
variable {outcome : List (Event S σ γ) → Event S σ γ → Prop}
variable {hQuiet : ∀ older e, Event.Quiet e → outcome older e}
variable {f : σ → δ}
variable
  {post :
    β → List (Action S) → (σ → σ) → Config W σ γ → Prop}

/-
  A program that avoids the kind is run under a watching
  contract:  the last statement of the kind stays the same,
  and it is enough that after it the statements, the errors
  of the program and its intermediate commits are worth what
  they should be.
-/
theorem Avoids.rwp
    {last : Option (Action S × List (Event S σ γ))}
    (hRan :
      ∀ older act, lastRan pid kind older = last →
        outcome older (.ran pid act))
    (hFail :
      ∀ older e, lastRan pid kind older = last →
        mayFail e → outcome older (.aborted pid e))
    (hSave :
      ∀ older log before after,
        lastRan pid kind older = last →
          outcome older
            (.committed pid log before after none))
    {p : Prog S σ β}
    (hAvoids : p.Avoids kind mayFail)
    (hSpares : p.Spares f)
    {log : List (Action S)}
    {w : σ → σ}
    {c : Config W σ γ}
    (hLast : lastRan pid kind c.trace = last)
    (hKeep : ∀ t, f (w t) = f t)
    (hPost :
      ∀ a log w c', lastRan pid kind c'.trace = last →
        (∀ t, f (w t) = f t) → post a log w c') :
    p.rwp (Contract.watch W db outcome hQuiet).rules pid post
      log w c := by
  induction p generalizing log w c with
  | done a => exact hPost a log w c hLast hKeep
  | fail e =>
      intro c' hGood hRely
      exact
        hFail c'.trace e ((lastRan_rely hRely).trans hLast)
          hAvoids
  | stmt q need write next ih =>
      refine Contract.rwp_stmt_of_outcome ?_ ?_
      · intro a c' hGood hRely
        exact
          hRan c'.trace _ ((lastRan_rely hRely).trans hLast)
      · intro a c' hRan'
        refine ih _ a (hAvoids.2 _ _) (hSpares _ a).2 ?_ ?_
        · have hCourse :=
            Rules.Course.single log
              (P := fun act => kind act.query = false)
              hRan' hAvoids.1
          rw [lastRan_course (fun act hAct => hAct) hCourse]
          exact hLast
        · intro t
          exact ((hSpares _ a).1 (w t)).trans (hKeep t)
  | commit next ih =>
      intro c' hGood hRely
      have hLast' := (lastRan_rely hRely).trans hLast
      refine
        ⟨Contract.watch_commits hGood
          (hSave _ _ _ _ hLast'), ?_⟩
      exact ih hAvoids hSpares hLast' (fun _ => rfl)
  | rollback next ih =>
      intro c' hGood hRely
      have hLast' := (lastRan_rely hRely).trans hLast
      exact ih hAvoids hSpares hLast' (fun _ => rfl)

end Prog

end ReadCommitted
