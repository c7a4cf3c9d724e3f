import PigBook.ReadCommitted.System

/-
  Running a system by a schedule.

  A schedule says which client moves next.  With a way to
  answer questions it determines a run, which can be computed.

  Key definitions include:
    * `Simulator`
    * `Move`
    * `Sys.exec`
    * `Prog.follow`

  Key theorems include:
    * `Sys.exec_reachable`
    * `Prog.follow_serial`
-/

------------------------------------------------------------
-- Schedules
------------------------------------------------------------

namespace ReadCommitted

/- One way in which the surroundings may behave. -/
structure Simulator
    {S : Sig}
    (W : World S) where
  respond :
    W.Carrier → (q : S.Query) → S.Answer q × W.Carrier
  answers :
    ∀ env q, W.answers env q (respond env q).1
      (respond env q).2
  pass : W.Carrier → W.Carrier
  advance : ∀ env, W.advance env (pass env)

/- A client begins, a client goes on, or time passes. -/
inductive Move (S : Sig) (σ α : Type)
  | spawn (pid : ℕ) (p : Prog S σ α)
  | step (pid : ℕ)
  | pass

/- The schedule begins only programs of the system. -/
def Move.Allowed
    {S : Sig} {σ α : Type}
    (programs : Prog S σ α → Prop) : Move S σ α → Prop
| spawn _ p => programs p
| _ => True

/- A client begins with a program and goes on with it. -/
theorem Move.allowed_of_begun
    {S : Sig} {σ α : Type}
    {programs : Prog S σ α → Prop}
    {p : Prog S σ α}
    {pid n : ℕ}
    {m : Move S σ α}
    (hBegun : programs p)
    (hMove :
      m ∈ .spawn pid p :: List.replicate n (.step pid)) :
    m.Allowed programs := by
  rcases List.mem_cons.mp hMove with rfl | hStep
  · exact hBegun
  · rw [List.eq_of_mem_replicate hStep]
    trivial

variable {S : Sig} {W : World S} {σ α : Type}

namespace Sys

/- There are no clients but those of the list. -/
def Confined
    (pids : List ℕ)
    (s : Sys W σ α) : Prop :=
  ∀ pid, pid ∉ pids → s.procs pid = none

variable {pids : List ℕ} {s : Sys W σ α}

theorem Confined.update
    (hConfined : s.Confined pids)
    {pid : ℕ}
    (hPid : pid ∈ pids)
    (o : Option (Proc S σ α)) :
    ∀ pid', pid' ∉ pids →
      Function.update s.procs pid o pid' = none := by
  intro pid' hOut
  have hNe : pid' ≠ pid := by
    intro hEq
    rw [hEq] at hOut
    exact hOut hPid
  rw [Function.update_of_ne hNe]
  exact hConfined pid' hOut

/- A client of a confined system is in the list. -/
theorem Confined.mem
    (hConfined : s.Confined pids)
    {pid : ℕ}
    {pr : Proc S σ α}
    (hProc : s.procs pid = some pr) :
    pid ∈ pids := by
  by_contra hOut
  rw [hConfined pid hOut] at hProc
  cases hProc

/- No keys, no waiting. -/
theorem no_keys
    (pid : ℕ) :
    ∀ pid', pid' ≠ pid → ∀ pr', s.procs pid' = some pr' →
      Compatible [] pr'.held :=
  fun _ _ _ _ _ hKey => by cases hKey

/- No client among `pids` but `pid` stands in the way. -/
def Free
    (pids : List ℕ)
    (pid : ℕ)
    (keys : List S.Key)
    (s : Sys W σ α) : Prop :=
  ∀ pid' ∈ pids, pid' ≠ pid → ∀ pr' ∈ s.procs pid',
    Compatible keys pr'.held

theorem Free.compatible
    {pid : ℕ}
    {keys : List S.Key}
    (hFree : s.Free pids pid keys)
    (hConfined : s.Confined pids) :
    ∀ pid', pid' ≠ pid → ∀ pr', s.procs pid' = some pr' →
      Compatible keys pr'.held :=
  fun pid' hNe pr' hProc =>
    hFree pid' (hConfined.mem hProc) hNe pr' hProc

end Sys

variable [DecidableRel S.Conflict]

instance (ks ks' : List S.Key) :
    Decidable (Compatible ks ks') :=
  inferInstanceAs (Decidable (∀ k ∈ ks, ∀ k' ∈ ks', _))

namespace Sys

instance
    (pids : List ℕ)
    (pid : ℕ)
    (keys : List S.Key)
    (s : Sys W σ α) : Decidable (s.Free pids pid keys) :=
  inferInstanceAs (Decidable (∀ pid' ∈ pids, _))

/- The client goes on, unless it has to wait. -/
def stepClient
    (sim : Simulator W)
    (pids : List ℕ)
    (pid : ℕ)
    (pr : Proc S σ α)
    (s : Sys W σ α) : Sys W σ α :=
  match pr.prog with
  | .stmt q need write next =>
      let seen := pr.view s.db
      let a := (sim.respond s.env q).1
      if s.Free pids pid (need seen a) then
        { db := s.db
          env := (sim.respond s.env q).2
          trace := .ran pid ⟨q, a, need seen a⟩ :: s.trace
          procs := Function.update s.procs pid
            (some
              { prog := next seen a
                start := pr.start
                writes := fun t => write seen a (pr.writes t)
                log := pr.log ++ [⟨q, a, need seen a⟩] }) }
      else
        s
  | .done a =>
      { db := pr.view s.db
        env := s.env
        trace :=
          .committed pid pr.log s.db (pr.view s.db)
            (some a) :: s.trace
        procs := Function.update s.procs pid none }
  | .commit next =>
      { db := pr.view s.db
        env := s.env
        trace :=
          .committed pid pr.log s.db (pr.view s.db) none ::
            s.trace
        procs :=
          Function.update s.procs pid
            (some (Proc.begin next)) }
  | .rollback next =>
      { db := s.db
        env := s.env
        trace := .rolledBack pid :: s.trace
        procs :=
          Function.update s.procs pid
            (some (Proc.begin next)) }
  | .fail e =>
      { db := s.db
        env := s.env
        trace := .aborted pid e :: s.trace
        procs := Function.update s.procs pid none }

/- The next state under the schedule; a vain move waits. -/
def move
    (sim : Simulator W)
    (pids : List ℕ)
    (s : Sys W σ α) : Move S σ α → Sys W σ α
| .spawn pid p =>
    match s.procs pid with
    | none =>
        if pid ∈ pids then
          { db := s.db
            env := s.env
            trace := .spawned pid p :: s.trace
            procs :=
              Function.update s.procs pid
                (some (Proc.begin p)) }
        else
          s
    | some _ => s
| .step pid =>
    match s.procs pid with
    | none => s
    | some pr => s.stepClient sim pids pid pr
| .pass =>
    { db := s.db
      env := sim.pass s.env
      trace := s.trace
      procs := s.procs }

/- The state at the end of a schedule. -/
def exec
    (sim : Simulator W)
    (pids : List ℕ)
    (s : Sys W σ α)
    (moves : List (Move S σ α)) : Sys W σ α :=
  moves.foldl (move sim pids) s

variable {sim : Simulator W} {pids : List ℕ}
variable {s : Sys W σ α} {programs : Prog S σ α → Prop}

theorem stepClient_reachable
    (hConfined : s.Confined pids)
    {pid : ℕ}
    {pr : Proc S σ α}
    (hProc : s.procs pid = some pr) :
    Reachable programs s (s.stepClient sim pids pid pr) ∧
      (s.stepClient sim pids pid pr).Confined pids := by
  have hPid := hConfined.mem hProc
  unfold stepClient
  split
  · rename_i q need write next hProg
    dsimp only
    split
    · rename_i hFree
      refine ⟨.single ?_, hConfined.update hPid _⟩
      refine .act ?_ (hFree.compatible hConfined)
      rw [hProc]
      exact .run hProg (sim.answers s.env q)
    · exact ⟨.refl, hConfined⟩
  · rename_i a hProg
    refine ⟨.single (.act ?_ (no_keys pid)),
      hConfined.update hPid _⟩
    rw [hProc]
    exact .finish hProg
  · rename_i next hProg
    refine ⟨.single (.act ?_ (no_keys pid)),
      hConfined.update hPid _⟩
    rw [hProc]
    exact .commit hProg
  · rename_i next hProg
    refine ⟨.single (.act ?_ (no_keys pid)),
      hConfined.update hPid _⟩
    rw [hProc]
    exact .rollback hProg
  · rename_i e hProg
    refine ⟨.single (.act ?_ (no_keys pid)),
      hConfined.update hPid _⟩
    rw [hProc]
    exact .abort hProg

theorem move_reachable
    (sim : Simulator W)
    (hConfined : s.Confined pids)
    {m : Move S σ α}
    (hAllowed : m.Allowed programs) :
    Reachable programs s (s.move sim pids m) ∧
      (s.move sim pids m).Confined pids := by
  cases m with
  | spawn pid p =>
      simp only [move]
      split
      · rename_i hProc
        split
        · rename_i hPid
          refine
            ⟨.single (.act ?_ (no_keys pid)),
              hConfined.update hPid _⟩
          rw [hProc]
          exact .spawn hAllowed
        · exact ⟨.refl, hConfined⟩
      · exact ⟨.refl, hConfined⟩
  | step pid =>
      simp only [move]
      split
      · exact ⟨.refl, hConfined⟩
      · rename_i pr hProc
        exact stepClient_reachable hConfined hProc
  | pass =>
      exact ⟨.single (.tick (sim.advance s.env)), hConfined⟩

/- Every schedule is a run of the system. -/
theorem exec_reachable
    (hConfined : s.Confined pids)
    {moves : List (Move S σ α)}
    (hAllowed : ∀ m ∈ moves, m.Allowed programs) :
    Reachable programs s (s.exec sim pids moves) := by
  induction moves generalizing s with
  | nil => exact .refl
  | cons m moves ih =>
      rcases
        move_reachable sim hConfined
          (hAllowed m List.mem_cons_self) with
        ⟨hMove, hConfined'⟩
      exact
        hMove.trans
          (ih hConfined'
            (fun m' hm' =>
              hAllowed m' (List.mem_cons_of_mem m hm')))

end Sys

end ReadCommitted

------------------------------------------------------------
-- One Program Alone
------------------------------------------------------------

namespace ReadCommitted

variable {S : Sig} {σ α : Type}

/- What is left of a program with its log and changes. -/
structure Prog.Progress (S : Sig) (σ α : Type) where
  log : List (Action S)
  writes : σ → σ
  rest : Prog S σ α

namespace Prog

/- The answer of a program that has come to its end. -/
def Progress.answer? (x : Progress S σ α) : Option α :=
  match x.rest with
  | done a => some a
  | _ => none

theorem Progress.rest_of_answer
    {x : Progress S σ α}
    {a : α}
    (hAnswer : x.answer? = some a) :
    x.rest = done a := by
  unfold Progress.answer? at hAnswer
  split at hAnswer
  · rename_i b hRest
    rw [hRest, Option.some.inj hAnswer]
  · cases hAnswer

/- One statement per answer, as long as there are any. -/
def follow
    (s : σ) :
    List ((q : S.Query) → S.Answer q) → Progress S σ α →
      Progress S σ α
| [], x => x
| answer :: answers, ⟨log, w, stmt q need write next⟩ =>
    follow s answers
      ⟨log ++ [⟨q, answer q, need (w s) (answer q)⟩],
        fun t => write (w s) (answer q) (w t),
        next (w s) (answer q)⟩
| _, x => x

theorem follow_serial
    {p : Prog S σ α}
    {s : σ}
    {answers : List ((q : S.Query) → S.Answer q)}
    {x : Progress S σ α}
    (run : Serial p s x.log x.writes x.rest) :
    Serial p s (follow s answers x).log
      (follow s answers x).writes
      (follow s answers x).rest := by
  fun_induction follow s answers x with
  | case1 x => exact run
  | case2 answer answers log w q need write next ih =>
      exact ih (run.step (answer q))
  | case3 answers x hNot => exact run

end Prog

end ReadCommitted
