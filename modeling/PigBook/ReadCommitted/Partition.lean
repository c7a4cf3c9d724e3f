import PigBook.ReadCommitted.System

/-
  Stores that fall into cells, with a lock on each cell.

  A program over one cell first takes the cell's lock,
  exclusively or shared with others of its kind.  Then no
  interleaving can be told from one in which each committed
  program ran alone at the moment of its commit.

  Key definitions include:
    * `Prog.atCell` and `onCell`
    * `Prog.Guarded`, `Prog.Steady`
    * `Discipline` and `Disciplined`
    * `Phase`
    * `Proc.Running`

  Key theorems include:
    * `Reachable.phased`
    * `Reachable.running`
    * `Reachable.commit_induction`
-/

------------------------------------------------------------
-- Programs over One Cell
------------------------------------------------------------

namespace ReadCommitted

variable {S : Sig} {ι C α : Type} [DecidableEq ι]

/- Apply a change of one cell to the store of all cells. -/
def onCell
    (i : ι)
    (w : C → C)
    (t : ι → C) : ι → C :=
  Function.update t i (w (t i))

@[simp] theorem onCell_id
    (i : ι) :
    onCell i (id : C → C) = id := by
  funext t
  simp [onCell]

@[simp] theorem onCell_self
    (i : ι)
    (w : C → C)
    (t : ι → C) :
    onCell i w t i = w (t i) := by
  simp [onCell]

theorem onCell_of_ne
    {i j : ι}
    (hNe : j ≠ i)
    (w : C → C)
    (t : ι → C) :
    onCell i w t j = t j := by
  simp [onCell, Function.update_of_ne hNe]

theorem onCell_eq_self
    {i : ι}
    {w : C → C}
    {t : ι → C}
    (hSame : w (t i) = t i) :
    onCell i w t = t := by
  simp [onCell, hSame]

namespace Prog

/- A program over one cell, run in the store of all cells. -/
def atCell
    (i : ι) : Prog S C α → Prog S (ι → C) α
| done a => done a
| fail e => fail e
| stmt q need write next =>
    stmt q
      (fun s a => need (s i) a)
      (fun s a => onCell i (write (s i) a))
      (fun s a => (next (s i) a).atCell i)
| commit next => commit (next.atCell i)
| rollback next => rollback (next.atCell i)

end Prog

end ReadCommitted

------------------------------------------------------------
-- Locking Discipline
------------------------------------------------------------

namespace ReadCommitted

variable {S : Sig} {ι C α β : Type}

namespace Prog

/-
  Until a statement obtains the key `k`, or finds the valid
  cell inert, the program neither reads nor writes the cell.
-/
def Guarded
    (k : S.Key)
    (valid inert : C → Prop) : Prog S C α → Prop
| done _ => True
| fail _ => True
| stmt _ need write next =>
    ∀ a,
      (∀ s, valid s → k ∈ need s a ∨ inert s) ∨
      ((∀ s, need s a = []) ∧
        (∀ s, write s a = id) ∧
        (∀ s s', next s a = next s' a) ∧
        ∀ s, (next s a).Guarded k valid inert)
| commit _ => False
| rollback _ => False

/-
  The program executes the same statements from `s` and from
  `s'`, as long as its keys are compatible with `ks`.
-/
def Steady
    (ks : List S.Key) : Prog S C α → C → C → Prop
| done _, _, _ => True
| fail _, _, _ => True
| stmt _ need write next, s, s' =>
    ∀ a, Compatible (need s a) ks →
      need s' a = need s a ∧
      write s' a = write s a ∧
      next s' a = next s a ∧
      (next s a).Steady ks (write s a s) (write s a s')
| commit _, _, _ => True
| rollback _, _, _ => True

/- A steady program has the same serial run from both cells. -/
theorem Serial.transport
    {p p' : Prog S C α}
    {s s' : C}
    {log : List (Action S)}
    {w : C → C}
    {ks : List S.Key}
    (run : Serial p s log w p')
    (hSteady : p.Steady ks s s')
    (hCompat : Compatible (held log) ks) :
    Serial p s' log w p' ∧
      p'.Steady ks (w s) (w s') := by
  induction run with
  | start => exact ⟨.start, hSteady⟩
  | @step log w q need write next run a ih =>
      rw [held_append, held_singleton] at hCompat
      rcases ih hCompat.left_of_append with ⟨run', hNow⟩
      rcases hNow a hCompat.right_of_append with
        ⟨hNeed, hWrite, hNext, hLater⟩
      have hStep := run'.step a
      rw [hNeed, hWrite, hNext] at hStep
      exact ⟨hStep, hLater⟩

end Prog

/- How a program uses the lock of its cell. -/
inductive Access
  | exclusive
  | shared
deriving DecidableEq

/-
  The locks of the cells.  Every program preserves validity,
  and none changes an inert cell.  With `grows i ks s s'` a
  program that shares cell `i` and holds the keys `ks` may
  change the cell from `s` to `s'`.
-/
structure Discipline (S : Sig) (ι C : Type) where
  key : Access → ι → S.Key
  conflict :
    ∀ m i, S.Conflict (key .exclusive i) (key m i)
  valid : C → Prop
  inert : C → Prop
  grows : ι → List S.Key → C → C → Prop

/-
  The program is a single transaction on cell `i` that
  follows the discipline.
-/
structure Disciplined
    (D : Discipline S ι C)
    (i : ι)
    (m : Access)
    (p : Prog S C α) : Prop where
  guarded : p.Guarded (D.key m i) D.valid D.inert
  valid :
    ∀ {s}, D.valid s →
      p.wp (fun _ t _ => D.valid t) (fun _ _ => True) [] s
  inert :
    ∀ {s}, D.inert s →
      p.wp (fun _ t _ => t = s) (fun _ _ => True) [] s
  grows :
    m = .shared → ∀ {s}, D.valid s →
      p.wp (fun log t _ => D.grows i (held log) s t)
        (fun _ _ => True) [] s
  steady :
    m = .shared → ∀ {ks s s'}, D.valid s →
      D.grows i ks s s' → p.Steady ks s s'

/- A disciplined program ends its transaction once. -/
theorem Disciplined.not_commit
    {D : Discipline S ι C}
    {i : ι}
    {m : Access}
    {p next : Prog S C α}
    {s : C}
    {log : List (Action S)}
    {w : C → C}
    (hDisciplined : Disciplined D i m p)
    (hValid : D.valid s) :
    ¬ Prog.Serial p s log w (.commit next) :=
  fun run => run.wp_sound (hDisciplined.valid hValid)

theorem Disciplined.not_rollback
    {D : Discipline S ι C}
    {i : ι}
    {m : Access}
    {p next : Prog S C α}
    {s : C}
    {log : List (Action S)}
    {w : C → C}
    (hDisciplined : Disciplined D i m p)
    (hValid : D.valid s) :
    ¬ Prog.Serial p s log w (.rollback next) :=
  fun run => run.wp_sound (hDisciplined.valid hValid)

end ReadCommitted

------------------------------------------------------------
-- Phases of a Transaction
------------------------------------------------------------

namespace ReadCommitted

variable {S : Sig} {W : World S} {ι C α : Type}

/-
  How far a transaction `p` on cell `i` has come, when the
  committed cell is `s`: it has not touched the cell, it
  holds the lock, or it has found the cell inert.
-/
inductive Phase
    (D : Discipline S ι C)
    (i : ι)
    (m : Access)
    (p : Prog S C α)
    (s : C)
    (log : List (Action S)) :
    (C → C) → Prog S C α → Prop
  | untouched
      {p' : Prog S C α}
      (hRuns : ∀ t, Prog.Serial p t log id p')
      (hGuarded :
        p'.Guarded (D.key m i) D.valid D.inert) :
      Phase D i m p s log id p'
  | locked
      {w : C → C} {p' : Prog S C α}
      (hHeld : D.key m i ∈ held log)
      (hRun : Prog.Serial p s log w p') :
      Phase D i m p s log w p'
  | inert
      {w : C → C} {p' : Prog S C α}
      (hInert : D.inert s)
      (hRun : Prog.Serial p s log w p') :
      Phase D i m p s log w p'

variable {D : Discipline S ι C} {i : ι} {m : Access}
variable {p p' : Prog S C α} {s : C}
variable {log : List (Action S)} {w : C → C}

/- In every phase the transaction has run as if alone. -/
theorem Phase.serial
    (hPhase : Phase D i m p s log w p') :
    Prog.Serial p s log w p' := by
  cases hPhase with
  | untouched hRuns hGuarded => exact hRuns s
  | locked hHeld hRun => exact hRun
  | inert hInert hRun => exact hRun

/- One more statement leads to the next phase. -/
theorem Phase.step
    (hValid : D.valid s)
    {q : S.Query}
    {need : C → S.Answer q → List S.Key}
    {write : C → S.Answer q → C → C}
    {next : C → S.Answer q → Prog S C α}
    (hPhase :
      Phase D i m p s log w (.stmt q need write next))
    (a : S.Answer q) :
    Phase D i m p s
      (log ++ [⟨q, a, need (w s) a⟩])
      (fun t => write (w s) a (w t))
      (next (w s) a) := by
  have hSerial := hPhase.serial.step a
  cases hPhase with
  | locked hHeld hRun =>
      refine .locked ?_ hSerial
      rw [held_append]
      exact List.mem_append_left _ hHeld
  | inert hInert hRun => exact .inert hInert hSerial
  | untouched hRuns hGuarded =>
      rcases hGuarded a with hLock | hAsk
      · rcases hLock s hValid with hKey | hInert
        · refine .locked ?_ hSerial
          rw [held_append, held_singleton]
          exact List.mem_append_right _ hKey
        · exact .inert hInert hSerial
      · rcases hAsk with ⟨hNeed, hWrite, hNext, hLater⟩
        simp only [hNeed, hWrite, id] at hSerial ⊢
        refine .untouched ?_ (hLater s)
        intro t
        have hStep := (hRuns t).step a
        simp only [hNeed, hWrite, id] at hStep
        rw [hNext t s] at hStep
        exact hStep

/-
  A transaction keeps its phase when another disciplined
  one, in the phase given by the primed names, commits.
-/
theorem Phase.survives
    {m' : Access}
    {o : Prog S C α}
    {a : α}
    {log' : List (Action S)}
    {w' : C → C}
    (hValid : D.valid s)
    (hPhase : Phase D i m p s log w p')
    (hMine : Disciplined D i m p)
    (hOther : Phase D i m' o s log' w' (.done a))
    (hTheirs : Disciplined D i m' o)
    (hCompat : Compatible (held log') (held log)) :
    Phase D i m p (w' s) log w p' := by
  cases hOther with
  | untouched hRuns hGuarded => exact hPhase
  | inert hInert hRun =>
      rw [hRun.post_of_done (hTheirs.inert hInert)]
      exact hPhase
  | locked hHeld' hRun' =>
      cases hPhase with
      | untouched hRuns hGuarded =>
          exact .untouched hRuns hGuarded
      | inert hInert hRun =>
          rw [hRun'.post_of_done (hTheirs.inert hInert)]
          exact .inert hInert hRun
      | locked hHeld hRun =>
          have hKeys :=
            hCompat _ hHeld' _ hHeld
          -- both hold the lock, so both share it
          have hShared' : m' = .shared := by
            cases m' with
            | shared => rfl
            | exclusive =>
                exact absurd (D.conflict m i) hKeys
          have hShared : m = .shared := by
            cases m with
            | shared => rfl
            | exclusive =>
                exact absurd
                  (S.symm _ _ (D.conflict m' i)) hKeys
          have hGrows :=
            hRun'.post_of_done (hTheirs.grows hShared' hValid)
          have hSteady := hMine.steady hShared hValid hGrows
          exact .locked hHeld
            (hRun.transport hSteady hCompat.symm).1

end ReadCommitted

------------------------------------------------------------
-- Commit Histories
------------------------------------------------------------

namespace ReadCommitted

variable {S : Sig} {σ α : Type}

/- A committed transaction. -/
structure Commit (S : Sig) (σ α : Type) where
  log : List (Action S)
  before : σ
  after : σ
  answer : Option α

/- The commit that an event records, if it is one. -/
def Event.commit? : Event S σ α → Option (Commit S σ α)
| .committed _ log before after answer =>
    some ⟨log, before, after, answer⟩
| _ => none

/- The committed transactions of a run, the latest first. -/
def commits
    (trace : List (Event S σ α)) : List (Commit S σ α) :=
  trace.filterMap Event.commit?

@[simp] theorem commits_nil :
    commits ([] : List (Event S σ α)) = [] :=
  rfl

@[simp] theorem commits_committed
    (pid : ℕ)
    (log : List (Action S))
    (before after : σ)
    (answer : Option α)
    (trace : List (Event S σ α)) :
    commits
        (.committed pid log before after answer :: trace) =
      ⟨log, before, after, answer⟩ :: commits trace :=
  rfl

end ReadCommitted

------------------------------------------------------------
-- Interleavings of Disciplined Programs
------------------------------------------------------------

namespace ReadCommitted

variable {S : Sig} {W : World S} {ι C α : Type}
variable [DecidableEq ι]

/- The clients that run the given operations on cells. -/
def cellPrograms
    (ops : ι → Prog S C α → Prop)
    (q : Prog S (ι → C) α) : Prop :=
  ∃ i p, ops i p ∧ q = p.atCell i

/- A client is in some phase of an operation on a cell. -/
def Phased
    (D : Discipline S ι C)
    (ops : ι → Prog S C α → Prop)
    (c : Config W (ι → C) α)
    (_pid : ℕ)
    (pr : Proc S (ι → C) α) : Prop :=
  ∃ i m p p' w,
    ops i p ∧ Disciplined D i m p ∧
      pr.start = p.atCell i ∧
      pr.prog = p'.atCell i ∧
      pr.writes = onCell i w ∧
      Phase D i m p (c.db i) pr.log w p'

variable {D : Discipline S ι C}
variable {ops : ι → Prog S C α → Prop}

/- A client that begins an operation has touched nothing. -/
theorem Phased.begin
    {c : Config W (ι → C) α}
    {pid : ℕ}
    {i : ι}
    {m : Access}
    {p : Prog S C α}
    (hOp : ops i p)
    (hDisciplined : Disciplined D i m p) :
    Phased D ops c pid (Proc.begin (p.atCell i)) :=
  ⟨i, m, p, p, id, hOp, hDisciplined, rfl, rfl,
    (onCell_id i).symm,
    .untouched (fun _ => .start) hDisciplined.guarded⟩

/-
  What an act can do to the store: nothing, or the commit of
  a whole operation on one cell.
-/
theorem Acts.commits_operation
    {c c' : Config W (ι → C) α}
    {pid : ℕ}
    {o o' : Option (Proc S (ι → C) α)}
    {keys : List S.Key}
    (hActs :
      Acts (cellPrograms ops) c pid o keys c' o')
    (hValid : ∀ i, D.valid (c.db i))
    (hPhased : ∀ pr, o = some pr → Phased D ops c pid pr) :
    (c'.db = c.db ∧ commits c'.trace = commits c.trace) ∨
      ∃ pr i m p w a,
        o = some pr ∧ ops i p ∧
          Disciplined D i m p ∧
          Phase D i m p (c.db i) pr.log w (.done a) ∧
          c'.db = onCell i w c.db ∧
          commits c'.trace =
            ⟨pr.log, c.db, onCell i w c.db, some a⟩ ::
              commits c.trace := by
  cases hActs with
  | spawn hProgram => exact Or.inl ⟨rfl, rfl⟩
  | run hProg hAnswer => exact Or.inl ⟨rfl, rfl⟩
  | rollback hProg => exact Or.inl ⟨rfl, rfl⟩
  | abort hProg => exact Or.inl ⟨rfl, rfl⟩
  | crash => exact Or.inl ⟨rfl, rfl⟩
  | @commit pr next hProg =>
      rcases hPhased pr rfl with
        ⟨i, m, p, p', w, hOp, hDisciplined, hStart, hAt,
          hWrites, hPhase⟩
      rw [hAt] at hProg
      cases p' with
      | commit next =>
          exact
            absurd hPhase.serial
              (hDisciplined.not_commit (hValid i))
      | _ => simp [Prog.atCell] at hProg
  | @finish pr a hProg =>
      rcases hPhased pr rfl with
        ⟨i, m, p, p', w, hOp, hDisciplined, hStart, hAt,
          hWrites, hPhase⟩
      rw [hAt] at hProg
      cases p' with
      | done b =>
          cases hProg
          refine Or.inr ⟨pr, i, m, p, w, a, rfl, hOp,
            hDisciplined, hPhase, ?_, ?_⟩
          · simp [Proc.view, hWrites]
          · simp [Proc.view, hWrites]
      | _ => simp [Prog.atCell] at hProg

/- Every cell stays valid. -/
theorem Acts.valid
    {c c' : Config W (ι → C) α}
    {pid : ℕ}
    {o o' : Option (Proc S (ι → C) α)}
    {keys : List S.Key}
    (hActs :
      Acts (cellPrograms ops) c pid o keys c' o')
    (hValid : ∀ i, D.valid (c.db i))
    (hPhased : ∀ pr, o = some pr → Phased D ops c pid pr) :
    ∀ i, D.valid (c'.db i) := by
  intro j
  rcases hActs.commits_operation hValid hPhased with
    ⟨hSame, -⟩ | ⟨pr, i, m, p, w, a, -, -, hDisciplined,
      hPhase, hDb, -⟩
  · rw [hSame]
    exact hValid j
  · rw [hDb]
    by_cases hCell : j = i
    · subst hCell
      rw [onCell_self]
      exact
        hPhase.serial.post_of_done
          (hDisciplined.valid (hValid j))
    · rw [onCell_of_ne hCell]
      exact hValid j

/- The acting client stays in some phase. -/
theorem Acts.phased
    (hOps : ∀ i p, ops i p → ∃ m, Disciplined D i m p)
    {c c' : Config W (ι → C) α}
    {pid : ℕ}
    {o : Option (Proc S (ι → C) α)}
    {pr' : Proc S (ι → C) α}
    {keys : List S.Key}
    (hActs :
      Acts (cellPrograms ops) c pid o keys c' (some pr'))
    (hValid : ∀ i, D.valid (c.db i))
    (hPhased : ∀ pr, o = some pr → Phased D ops c pid pr) :
    Phased D ops c' pid pr' := by
  cases hActs with
  | spawn hProgram =>
      rcases hProgram with ⟨i, p, hOp, rfl⟩
      rcases hOps i p hOp with ⟨m, hDisciplined⟩
      exact Phased.begin hOp hDisciplined
  | @commit pr next hProg =>
      rcases hPhased pr rfl with
        ⟨i, m, p, p', w, hOp, hDisciplined, hStart, hAt,
          hWrites, hPhase⟩
      rw [hAt] at hProg
      cases p' with
      | commit next =>
          exact
            absurd hPhase.serial
              (hDisciplined.not_commit (hValid i))
      | _ => simp [Prog.atCell] at hProg
  | @rollback pr next hProg =>
      rcases hPhased pr rfl with
        ⟨i, m, p, p', w, hOp, hDisciplined, hStart, hAt,
          hWrites, hPhase⟩
      rw [hAt] at hProg
      cases p' with
      | rollback next =>
          exact
            absurd hPhase.serial
              (hDisciplined.not_rollback (hValid i))
      | _ => simp [Prog.atCell] at hProg
  | @run pr q need write next a env' hProg hAnswer =>
      rcases hPhased pr rfl with
        ⟨i, m, p, p', w, hOp, hDisciplined, hStart, hAt,
          hWrites, hPhase⟩
      rw [hAt] at hProg
      cases p' with
      | stmt q' need' write' next' =>
          cases hProg
          have hView : pr.view c.db i = w (c.db i) := by
            simp [Proc.view, hWrites]
          refine ⟨i, m, p, next' (w (c.db i)) a,
            fun t => write' (w (c.db i)) a (w t),
            hOp, hDisciplined, hStart, ?_, ?_, ?_⟩
          · simp only [hView]
          · funext t
            simp [hView, hWrites, onCell]
          · simp only [hView]
            exact hPhase.step (hValid i) a
      | _ => simp [Prog.atCell] at hProg

/- Another client's phase survives an act. -/
theorem Acts.phased_other
    {c c' : Config W (ι → C) α}
    {pid pid' : ℕ}
    {o o' : Option (Proc S (ι → C) α)}
    {pr' : Proc S (ι → C) α}
    {keys : List S.Key}
    (hActs :
      Acts (cellPrograms ops) c pid o keys c' o')
    (hValid : ∀ i, D.valid (c.db i))
    (hPhased : ∀ pr, o = some pr → Phased D ops c pid pr)
    (hOther : Phased D ops c pid' pr')
    (hCompat :
      ∀ pr, o = some pr → Compatible pr.held pr'.held) :
    Phased D ops c' pid' pr' := by
  rcases hOther with
    ⟨j, m', p₂, p₂', w₂, hOp₂, hDisciplined₂, hStart, hAt,
      hWrites, hPhase₂⟩
  refine ⟨j, m', p₂, p₂', w₂, hOp₂, hDisciplined₂, hStart,
    hAt, hWrites, ?_⟩
  rcases hActs.commits_operation hValid hPhased with
    ⟨hSame, -⟩ | ⟨pr, i, m, p, w, a, hSome, hOp,
      hDisciplined, hPhase, hDb, -⟩
  · rw [hSame]
    exact hPhase₂
  · rw [hDb]
    by_cases hCell : j = i
    · subst hCell
      rw [onCell_self]
      exact
        hPhase₂.survives (hValid j) hDisciplined₂ hPhase
          hDisciplined (hCompat pr hSome)
    · rw [onCell_of_ne hCell]
      exact hPhase₂

/-
  In every reachable state every cell is valid, and every
  client is in some phase.
-/
theorem Reachable.phased
    (hOps : ∀ i p, ops i p → ∃ m, Disciplined D i m p)
    {db : ι → C}
    {env : W.Carrier}
    {s : Sys W (ι → C) α}
    (hStart : ∀ i, D.valid (db i))
    (hReach :
      Reachable (cellPrograms ops) (Sys.initial db env) s) :
    (∀ i, D.valid (s.db i)) ∧
      ∀ pid pr, s.procs pid = some pr →
        Phased D ops s.toConfig pid pr := by
  have hRules :
      RelyGuarantee W (cellPrograms ops)
        (fun c => ∀ i, D.valid (c.db i))
        (Phased D ops) := {
    own := fun hActs hValid hPhased =>
      ⟨hActs.valid hValid hPhased, fun pr' hSome => by
        subst hSome
        exact hActs.phased hOps hValid hPhased⟩
    rely := fun hActs hValid hPhased _ _ _ hOther _
        hCompat =>
      hActs.phased_other hValid hPhased hOther hCompat
    tick := fun _ hValid =>
      ⟨hValid, fun _ _ hPhased => hPhased⟩
  }
  exact hReach.rely_guarantee hRules hStart

end ReadCommitted

------------------------------------------------------------
-- Clients in Flight
------------------------------------------------------------

namespace ReadCommitted

variable {S : Sig} {W : World S} {ι C α : Type}
variable [DecidableEq ι]

/-
  The client runs `p` on cell `i`.  It has executed its log
  on the committed cell, with the changes `w`, and `p'` is
  left to do.
-/
structure Proc.Running
    (i : ι)
    (p p' : Prog S C α)
    (w : C → C)
    (db : ι → C)
    (pr : Proc S (ι → C) α) : Prop where
  start : pr.start = p.atCell i
  prog : pr.prog = p'.atCell i
  writes : pr.writes = onCell i w
  serial : Prog.Serial p (db i) pr.log w p'

variable {D : Discipline S ι C}
variable {ops : ι → Prog S C α → Prop}

/-
  Whatever a client has done so far, it could have done alone
  from the store that is now committed.
-/
theorem Reachable.running
    (hOps : ∀ i p, ops i p → ∃ m, Disciplined D i m p)
    {db : ι → C}
    {env : W.Carrier}
    {s : Sys W (ι → C) α}
    (hStart : ∀ i, D.valid (db i))
    (hReach :
      Reachable (cellPrograms ops) (Sys.initial db env) s)
    {pid : ℕ}
    {pr : Proc S (ι → C) α}
    (hProc : s.procs pid = some pr) :
    ∃ i p p' w, ops i p ∧ pr.Running i p p' w s.db := by
  rcases (Reachable.phased hOps hStart hReach).2 pid pr
      hProc with
    ⟨i, m, p, p', w, hOp, -, hBegan, hAt, hWrites, hPhase⟩
  exact ⟨i, p, p', w, hOp,
    ⟨hBegan, hAt, hWrites, hPhase.serial⟩⟩

/- A program over one cell runs alike in the whole store. -/
theorem Prog.Serial.atCell
    {i : ι}
    {db : ι → C}
    {p p' : Prog S C α}
    {log : List (Action S)}
    {w : C → C}
    (run : Prog.Serial p (db i) log w p') :
    Prog.Serial (p.atCell i) db log (onCell i w)
      (p'.atCell i) := by
  induction run with
  | start =>
      rw [onCell_id]
      exact .start
  | @step log w q need write next run a ih =>
      have hStep := ih.step a
      simp only [onCell_self] at hStep
      have hWrites :
          onCell i (fun t => write (w (db i)) a (w t)) =
            fun t =>
              onCell i (write (w (db i)) a)
                (onCell i w t) := by
        funext t
        simp [onCell]
      rw [hWrites]
      exact hStep

theorem Prog.Serial.of_atCell
    {i : ι}
    {db : ι → C}
    {p : Prog S C α}
    {q : Prog S (ι → C) α}
    {log : List (Action S)}
    {u : (ι → C) → ι → C}
    (run : Prog.Serial (p.atCell i) db log u q) :
    ∃ p' w, Prog.Serial p (db i) log w p' ∧
      q = p'.atCell i ∧ u = onCell i w := by
  generalize hStart : p.atCell i = p₀ at run
  induction run with
  | start =>
      subst hStart
      exact ⟨p, id, .start, rfl, (onCell_id i).symm⟩
  | @step log u q need write next run a ih =>
      rcases ih with ⟨p', w, run', hProg, rfl⟩
      cases p' with
      | stmt q' need' write' next' =>
          cases hProg
          refine ⟨next' (w (db i)) a,
            fun t => write' (w (db i)) a (w t), ?_, ?_, ?_⟩
          · simp only [onCell_self]
            exact run'.step a
          · simp only [onCell_self]
          · funext t
            simp [onCell]
      | _ => simp [Prog.atCell] at hProg

/- The client runs whatever operation it has begun with. -/
theorem Proc.Running.of_start
    {i j : ι}
    {p q q' : Prog S C α}
    {w : C → C}
    {db : ι → C}
    {pr : Proc S (ι → C) α}
    (hRunning : pr.Running j q q' w db)
    (hStart : pr.start = p.atCell i) :
    ∃ p' w', pr.Running i p p' w' db := by
  have run := hRunning.serial.atCell
  rw [← hRunning.start, hStart] at run
  rcases run.of_atCell with ⟨p', w', run', hProg, hWrites⟩
  exact ⟨p', w', hStart, hRunning.prog.trans hProg,
    hRunning.writes.trans hWrites, run'⟩

end ReadCommitted

------------------------------------------------------------
-- The Rule for Disciplined Programs
------------------------------------------------------------

namespace ReadCommitted

variable {S : Sig} {W : World S} {ι C α : Type}
variable [DecidableEq ι]
variable {D : Discipline S ι C}
variable {ops : ι → Prog S C α → Prop}

/-
  The rule for disciplined programs.  What holds at the start
  and is preserved when an operation runs alone to its end
  holds of the committed store and history of every reachable
  state.
-/
theorem Reachable.commit_induction
    (hOps : ∀ i p, ops i p → ∃ m, Disciplined D i m p)
    {db : ι → C}
    {env : W.Carrier}
    {s : Sys W (ι → C) α}
    {Inv :
      (ι → C) → List (Commit S (ι → C) α) → Prop}
    (hStart : ∀ i, D.valid (db i))
    (hInit : Inv db [])
    (hCommit :
      ∀ t hist i p log w a,
        ops i p → (∀ j, D.valid (t j)) → Inv t hist →
          Prog.Serial p (t i) log w (.done a) →
            Inv (onCell i w t)
              (⟨log, t, onCell i w t, some a⟩ :: hist))
    (hReach :
      Reachable (cellPrograms ops) (Sys.initial db env) s) :
    Inv s.db (commits s.trace) := by
  induction hReach with
  | refl => exact hInit
  | @tail s s' hPrefix hStep ih =>
      cases hStep with
      | tick hAdvance => exact ih
      | @act pid keys c' o' hActs hFree =>
          rcases Reachable.phased hOps hStart hPrefix with
            ⟨hValid, hPhased⟩
          change Inv c'.db (commits c'.trace)
          rcases hActs.commits_operation hValid (hPhased pid) with
            ⟨hDb, hTrace⟩ | ⟨pr, i, m, p, w, a, -, hOp, -,
              hPhase, hDb, hTrace⟩
          · rw [hDb, hTrace]
            exact ih
          · rw [hDb, hTrace]
            exact
              hCommit s.db (commits s.trace) i p pr.log w a
                hOp hValid ih hPhase.serial

end ReadCommitted
