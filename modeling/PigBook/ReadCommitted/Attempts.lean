import PigBook.ReadCommitted.Embedding

/-
  All or nothing: what the programs that run in one
  transaction leave behind.

  Key definitions include:
    * `attempt`
    * `Event.Ending`

  Key theorems include:
    * `Reachable.all_or_nothing`
-/

------------------------------------------------------------
-- Attempts
------------------------------------------------------------

namespace ReadCommitted

variable {S : Sig} {W : World S} {σ α : Type}

/- The events of the client since it last began. -/
def attempt
    (pid : ℕ) :
    List (Event S σ α) → List (Event S σ α)
| [] => []
| .spawned pid' _ :: older =>
    if pid' = pid then [] else attempt pid older
| e :: older =>
    if e.pid = pid then
      e :: attempt pid older
    else
      attempt pid older

/- The client has run statements, and ended nothing. -/
def Uncommitted
    (pid : ℕ)
    (older : List (Event S σ α)) : Prop :=
  ∀ e ∈ attempt pid older, ∃ act, e = .ran pid act

/-
  A commit answers.  Whoever ends with an error, or crashes,
  has not committed before.  Nobody starts over.
-/
def Event.Ending
    (older : List (Event S σ α)) : Event S σ α → Prop
| committed pid _ _ _ answer =>
    answer.isSome ∧ Uncommitted pid older
| aborted pid _ => Uncommitted pid older
| crashed pid => Uncommitted pid older
| rolledBack _ => False
| _ => True

variable {pid pid' : ℕ} {older : List (Event S σ α)}

theorem Uncommitted.spawned
    (p : Prog S σ α) :
    Uncommitted pid (.spawned pid p :: older) := by
  simp [Uncommitted, attempt]

theorem Uncommitted.ran
    (hOwn : Uncommitted pid older)
    (act : Action S) :
    Uncommitted pid (.ran pid act :: older) := by
  intro e hMem
  simp only [attempt, Event.pid, if_true] at hMem
  rcases List.mem_cons.mp hMem with rfl | hOld
  · exact ⟨act, rfl⟩
  · exact hOwn e hOld

/- The events of others do not count. -/
theorem Uncommitted.other
    {e : Event S σ α}
    (hOther : e.pid ≠ pid)
    (hOwn : Uncommitted pid older) :
    Uncommitted pid (e :: older) := by
  intro x hMem
  refine hOwn x ?_
  cases e with
  | spawned pid' p =>
      have hNe : pid' ≠ pid := hOther
      simp only [attempt, if_neg hNe] at hMem
      exact hMem
  | _ =>
      simp only [attempt, if_neg hOther] at hMem
      exact hMem

end ReadCommitted

------------------------------------------------------------
-- All or Nothing
------------------------------------------------------------

namespace ReadCommitted

variable {S : Sig} {W : World S} {σ α : Type}
variable {programs : Prog S σ α → Prop}

/- The client is in the midst of its only transaction. -/
structure Attempting
    (c : Config W σ α)
    (pid : ℕ)
    (pr : Proc S σ α) : Prop where
  single : pr.prog.Single
  uncommitted : Uncommitted pid c.trace

/- An act adds one event, about the client that acts. -/
theorem Acts.event
    {c c' : Config W σ α}
    {pid : ℕ}
    {o o' : Option (Proc S σ α)}
    {keys : List S.Key}
    (hActs : Acts programs c pid o keys c' o') :
    ∃ e, e.pid = pid ∧ c'.trace = e :: c.trace := by
  cases hActs <;> exact ⟨_, rfl, rfl⟩

theorem Acts.attempting
    (hSingle : ∀ p, programs p → p.Single)
    {c c' : Config W σ α}
    {pid : ℕ}
    {o o' : Option (Proc S σ α)}
    {keys : List S.Key}
    (hActs : Acts programs c pid o keys c' o')
    (hEnding : Audited Event.Ending c.trace)
    (hOwn : ∀ pr, o = some pr → Attempting c pid pr) :
    Audited Event.Ending c'.trace ∧
      ∀ pr', o' = some pr' → Attempting c' pid pr' := by
  cases hActs with
  | @spawn p hProgram =>
      refine ⟨⟨trivial, hEnding⟩, ?_⟩
      rintro pr' ⟨⟩
      exact ⟨hSingle p hProgram, .spawned p⟩
  | @run pr q need write next a env' hProg hAnswer =>
      have hAttempt := hOwn pr rfl
      refine ⟨⟨trivial, hEnding⟩, ?_⟩
      rintro pr' ⟨⟩
      have hRest := hAttempt.single
      rw [hProg] at hRest
      exact ⟨hRest _ _, hAttempt.uncommitted.ran _⟩
  | @commit pr next hProg =>
      have hRest := (hOwn pr rfl).single
      rw [hProg] at hRest
      exact hRest.elim
  | @finish pr a hProg =>
      refine
        ⟨⟨⟨rfl, (hOwn pr rfl).uncommitted⟩, hEnding⟩, ?_⟩
      rintro pr' ⟨⟩
  | @rollback pr next hProg =>
      have hRest := (hOwn pr rfl).single
      rw [hProg] at hRest
      exact hRest.elim
  | @abort pr e hProg =>
      refine ⟨⟨(hOwn pr rfl).uncommitted, hEnding⟩, ?_⟩
      rintro pr' ⟨⟩
  | @crash pr =>
      refine ⟨⟨(hOwn pr rfl).uncommitted, hEnding⟩, ?_⟩
      rintro pr' ⟨⟩

/-
  Programs that are single transactions commit once, when
  they answer.  What ends otherwise has committed nothing.
-/
theorem Reachable.all_or_nothing
    (hSingle : ∀ p, programs p → p.Single)
    {db : σ}
    {env : W.Carrier}
    {s : Sys W σ α}
    (hReach :
      Reachable programs (Sys.initial db env) s) :
    Audited Event.Ending s.trace := by
  have hRules :
      RelyGuarantee W programs
        (fun c => Audited Event.Ending c.trace)
        Attempting := {
    own := fun hActs hEnding hOwn =>
      hActs.attempting hSingle hEnding hOwn
    rely := by
      intro c c' pid o o' keys hActs hEnding hOwn pid' pr' hNe
        hOther hKeys hHeld
      rcases hActs.event with ⟨e, hPid, hTrace⟩
      refine ⟨hOther.single, ?_⟩
      rw [hTrace]
      refine hOther.uncommitted.other ?_
      rw [hPid]
      exact hNe.symm
    tick := fun _ hEnding => ⟨hEnding, fun pid pr hOther =>
      ⟨hOther.single, hOther.uncommitted⟩⟩
  }
  exact (hReach.rely_guarantee hRules trivial).1

end ReadCommitted
