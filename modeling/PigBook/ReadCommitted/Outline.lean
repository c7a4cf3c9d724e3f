import PigBook.ReadCommitted.Partition

/-
  Proof outlines for programs that run among others.

  Rules say what every client may assume of the others while
  it holds some keys.  Under such rules a program has a
  weakest precondition that is stable between its statements,
  and programs can be verified one at a time.

  Key definitions include:
    * `Rules` and `Rules.Guarantees`
    * `Prog.rwp`
    * `Rules.Keeps`
    * `latest`, `states`
    * `Contract`

  Key theorems include:
    * `Prog.rwp_bind`
    * `Reachable.good`
    * `Contract.commits`
    * `Contract.good_of_reachable`
-/

------------------------------------------------------------
-- Shared Parts
------------------------------------------------------------

namespace ReadCommitted

variable {S : Sig} {W : World S} {σ α : Type}

namespace Event

/- The client that an event is about. -/
def pid : Event S σ α → ℕ
| spawned pid _ => pid
| ran pid _ => pid
| committed pid _ _ _ _ => pid
| rolledBack pid => pid
| aborted pid _ => pid
| crashed pid => pid

/- The event runs no statement and answers nothing. -/
def Quiet : Event S σ α → Prop
| spawned _ _ => True
| rolledBack _ => True
| crashed _ => True
| _ => False

/- The keys that a transaction held until its commit. -/
def keys : Event S σ α → List S.Key
| committed _ log _ _ _ => held log
| _ => []

@[simp] theorem keys_ran
    (pid : ℕ)
    (act : Action S) :
    (ran pid act : Event S σ α).keys = [] :=
  rfl

@[simp] theorem keys_committed
    (pid : ℕ)
    (log : List (Action S))
    (before after : σ)
    (answer : Option α) :
    (committed pid log before after answer).keys =
      held log :=
  rfl

theorem Quiet.keys
    {e : Event S σ α}
    (hQuiet : e.Quiet) :
    e.keys = [] := by
  cases e with
  | ran pid act => cases hQuiet
  | committed pid log before after answer => cases hQuiet
  | spawned pid p => rfl
  | rolledBack pid => rfl
  | aborted pid e => rfl
  | crashed pid => rfl

end Event

namespace Config

/- The shared part after an event that leaves the store. -/
def record
    (e : Event S σ α)
    (c : Config W σ α) : Config W σ α :=
  { c with trace := e :: c.trace }

/- The shared part after a statement. -/
def ran
    (pid : ℕ)
    (act : Action S)
    (env' : W.Carrier)
    (c : Config W σ α) : Config W σ α :=
  { c with env := env', trace := .ran pid act :: c.trace }

/- The shared part after a commit. -/
def commit
    (pid : ℕ)
    (log : List (Action S))
    (w : σ → σ)
    (answer : Option α)
    (c : Config W σ α) : Config W σ α :=
  { c with
    db := w c.db
    trace :=
      .committed pid log c.db (w c.db) answer :: c.trace }

variable {c : Config W σ α} {pid : ℕ} {act : Action S}
variable {env' : W.Carrier} {log : List (Action S)}
variable {w : σ → σ} {answer : Option α}

@[simp] theorem record_db
    (e : Event S σ α) :
    (c.record e).db = c.db :=
  rfl

@[simp] theorem record_trace
    (e : Event S σ α) :
    (c.record e).trace = e :: c.trace :=
  rfl

@[simp] theorem ran_db :
    (c.ran pid act env').db = c.db :=
  rfl

@[simp] theorem ran_trace :
    (c.ran pid act env').trace = .ran pid act :: c.trace :=
  rfl

@[simp] theorem commit_db :
    (c.commit pid log w answer).db = w c.db :=
  rfl

@[simp] theorem commit_trace :
    (c.commit pid log w answer).trace =
      .committed pid log c.db (w c.db) answer :: c.trace :=
  rfl

end Config

end ReadCommitted

------------------------------------------------------------
-- Rules
------------------------------------------------------------

namespace ReadCommitted

variable {S : Sig} {W : World S} {σ α : Type}

/-
  `good` holds of the shared part at all times.  While client
  `pid` holds the keys `ks`, the others change the shared
  part only as `rely pid ks` allows.  An error may end a
  client only where `mayAbort` holds.
-/
structure Rules
    (W : World S)
    (σ α : Type) where
  good : Config W σ α → Prop
  rely :
    ℕ → List S.Key → Config W σ α → Config W σ α → Prop
  mayAbort : ℕ → S.Error → Config W σ α → Prop
  refl : ∀ {pid ks c}, rely pid ks c c
  trans :
    ∀ {pid ks c c' c''},
      rely pid ks c c' → rely pid ks c' c'' →
        rely pid ks c c''
  quiet :
    ∀ {c : Config W σ α} {e : Event S σ α},
      e.Quiet → good c →
      good (c.record e) ∧
        ∀ pid ks, e.pid ≠ pid →
          rely pid ks c (c.record e)
  abort :
    ∀ {c : Config W σ α} {pid e}, mayAbort pid e c → good c →
      good (c.record (.aborted pid e)) ∧
        ∀ pid' ks, pid ≠ pid' →
          rely pid' ks c (c.record (.aborted pid e))
  tick :
    ∀ {c : Config W σ α} {env'},
      W.advance c.env env' → good c →
        good { c with env := env' } ∧
          ∀ pid ks, rely pid ks c { c with env := env' }

namespace Rules

/-
  A step of client `pid`, which then holds `ks`, is allowed
  by what the others assume.
-/
def Guarantees
    (R : Rules W σ α)
    (pid : ℕ)
    (ks : List S.Key)
    (c c' : Config W σ α) : Prop :=
  ∀ pid' ks', pid ≠ pid' → Compatible ks ks' →
    R.rely pid' ks' c c'

/- The commit of the changes `w` respects the rules. -/
def Commits
    (R : Rules W σ α)
    (pid : ℕ)
    (log : List (Action S))
    (w : σ → σ)
    (answer : Option α)
    (c : Config W σ α) : Prop :=
  R.good (c.commit pid log w answer) ∧
    R.Guarantees pid (held log) c
      (c.commit pid log w answer)

/- Whatever the others do first, the final commit is right. -/
def Finishes
    (R : Rules W σ α)
    (pid : ℕ)
    (a : α)
    (log : List (Action S))
    (w : σ → σ)
    (c : Config W σ α) : Prop :=
  ∀ c', R.good c' → R.rely pid (held log) c c' →
    R.Commits pid log w (some a) c'

end Rules

namespace Prog

variable {β γ : Type}

/-
  Weakest precondition of a program that client `pid` runs
  among others which respect the rules.  The postcondition
  sees the statements of the open transaction, its row
  changes, and the shared part after the last statement.
-/
def rwp
    (R : Rules W σ α)
    (pid : ℕ)
    (post :
      β → List (Action S) → (σ → σ) → Config W σ α → Prop) :
    Prog S σ β → List (Action S) → (σ → σ) →
      Config W σ α → Prop
| done a, log, w, c => post a log w c
| fail e, log, _, c =>
    ∀ c', R.good c' → R.rely pid (held log) c c' →
      R.mayAbort pid e c'
| stmt q need write next, log, w, c =>
    ∀ c', R.good c' → R.rely pid (held log) c c' →
    ∀ (a : S.Answer q) (env' : W.Carrier),
      W.answers c'.env q a env' →
      let act : Action S := ⟨q, a, need (w c'.db) a⟩
      R.good (c'.ran pid act env') ∧
      R.Guarantees pid (held (log ++ [act])) c'
        (c'.ran pid act env') ∧
      (next (w c'.db) a).rwp R pid post (log ++ [act])
        (fun t => write (w c'.db) a (w t))
        (c'.ran pid act env')
| commit next, log, w, c =>
    ∀ c', R.good c' → R.rely pid (held log) c c' →
      R.Commits pid log w none c' ∧
      next.rwp R pid post [] id (c'.commit pid log w none)
| rollback next, log, _, c =>
    ∀ c', R.good c' → R.rely pid (held log) c c' →
      next.rwp R pid post [] id
        (c'.record (.rolledBack pid))

end Prog

/- Run by any client, the program respects the rules. -/
def Rules.Keeps
    (R : Rules W σ α)
    (p : Prog S σ α) : Prop :=
  ∀ (pid : ℕ) (c : Config W σ α),
    R.good (c.record (.spawned pid p)) →
    p.rwp R pid (R.Finishes pid) [] id
      (c.record (.spawned pid p))

end ReadCommitted

------------------------------------------------------------
-- Preconditions
------------------------------------------------------------

namespace ReadCommitted

namespace Prog

variable {S : Sig} {W : World S} {σ α β γ : Type}
variable {R : Rules W σ α} {pid : ℕ}
variable
  {post post' :
    β → List (Action S) → (σ → σ) → Config W σ α → Prop}
variable {log : List (Action S)} {w : σ → σ}
variable {c c' : Config W σ α}

@[simp] theorem rwp_done
    (a : β) :
    (done a : Prog S σ β).rwp R pid post log w c ↔
      post a log w c :=
  Iff.rfl

@[simp] theorem rwp_fail
    (e : S.Error) :
    (fail e : Prog S σ β).rwp R pid post log w c ↔
      ∀ c', R.good c' → R.rely pid (held log) c c' →
        R.mayAbort pid e c' :=
  Iff.rfl

@[simp] theorem rwp_save
    {post :
      Unit → List (Action S) → (σ → σ) → Config W σ α → Prop} :
    (save : Prog S σ Unit).rwp R pid post log w c ↔
      ∀ c', R.good c' → R.rely pid (held log) c c' →
        R.Commits pid log w none c' ∧
          post () [] id (c'.commit pid log w none) :=
  Iff.rfl

@[simp] theorem rwp_undo
    {post :
      Unit → List (Action S) → (σ → σ) → Config W σ α → Prop} :
    (undo : Prog S σ Unit).rwp R pid post log w c ↔
      ∀ c', R.good c' → R.rely pid (held log) c c' →
        post () [] id (c'.record (.rolledBack pid)) :=
  Iff.rfl

/- Sequencing composes preconditions. -/
@[simp] theorem rwp_bind
    (p : Prog S σ γ)
    (f : γ → Prog S σ β) :
    (p.bind f).rwp R pid post log w c ↔
      p.rwp R pid
        (fun a log w c => (f a).rwp R pid post log w c)
        log w c := by
  induction p generalizing log w c with
  | done a => rfl
  | fail e => rfl
  | stmt q need write next ih =>
      simp only [bind, rwp, ih]
  | commit next ih => simp only [bind, rwp, ih]
  | rollback next ih => simp only [bind, rwp, ih]

/- Preconditions are monotone in the postcondition. -/
theorem rwp_mono
    (p : Prog S σ β)
    (hPost :
      ∀ a log w c, post a log w c → post' a log w c)
    (h : p.rwp R pid post log w c) :
    p.rwp R pid post' log w c := by
  induction p generalizing log w c with
  | done a => exact hPost a log w c h
  | fail e => exact h
  | stmt q need write next ih =>
      intro c' hGood hRely a env' hAnswer
      rcases h c' hGood hRely a env' hAnswer with
        ⟨hGood', hOthers, hNext⟩
      exact ⟨hGood', hOthers, ih _ a hNext⟩
  | commit next ih =>
      intro c' hGood hRely
      rcases h c' hGood hRely with ⟨hCommits, hNext⟩
      exact ⟨hCommits, ih hNext⟩
  | rollback next ih =>
      intro c' hGood hRely
      exact ih (h c' hGood hRely)

/- What is established separately is established together. -/
theorem rwp_and
    (p : Prog S σ β)
    (h : p.rwp R pid post log w c)
    (h' : p.rwp R pid post' log w c) :
    p.rwp R pid
      (fun a log w c => post a log w c ∧ post' a log w c)
      log w c := by
  induction p generalizing log w c with
  | done a => exact ⟨h, h'⟩
  | fail e => exact h
  | stmt q need write next ih =>
      intro c' hGood hRely a env' hAnswer
      rcases h c' hGood hRely a env' hAnswer with
        ⟨hGood', hOthers, hNext⟩
      rcases h' c' hGood hRely a env' hAnswer with
        ⟨-, -, hNext'⟩
      exact ⟨hGood', hOthers, ih _ a hNext hNext'⟩
  | commit next ih =>
      intro c' hGood hRely
      rcases h c' hGood hRely with ⟨hCommits, hNext⟩
      exact ⟨hCommits, ih hNext (h' c' hGood hRely).2⟩
  | rollback next ih =>
      intro c' hGood hRely
      exact ih (h c' hGood hRely) (h' c' hGood hRely)

/- What the others do does not hurt a precondition. -/
theorem rwp_stable
    (p : Prog S σ α)
    (hRely : R.rely pid (held log) c c')
    (h : p.rwp R pid (R.Finishes pid) log w c) :
    p.rwp R pid (R.Finishes pid) log w c' := by
  cases p with
  | done a =>
      intro c₂ hGood hNext
      exact h c₂ hGood (R.trans hRely hNext)
  | fail e =>
      intro c₂ hGood hNext
      exact h c₂ hGood (R.trans hRely hNext)
  | stmt q need write next =>
      intro c₂ hGood hNext
      exact h c₂ hGood (R.trans hRely hNext)
  | commit next =>
      intro c₂ hGood hNext
      exact h c₂ hGood (R.trans hRely hNext)
  | rollback next =>
      intro c₂ hGood hNext
      exact h c₂ hGood (R.trans hRely hNext)

end Prog

end ReadCommitted

------------------------------------------------------------
-- Silent Statements and Errors
------------------------------------------------------------

namespace ReadCommitted

variable {S : Sig} {W : World S} {σ α : Type}

namespace Rules

/- That such a statement ran makes no difference to others. -/
def Silent
    (R : Rules W σ α)
    (q : S.Query) : Prop :=
  ∀ {pid c a ks env'}, W.answers c.env q a env' →
    R.good c →
      R.good (c.ran pid ⟨q, a, ks⟩ env') ∧
        ∀ pid' ks', pid ≠ pid' →
          R.rely pid' ks' c (c.ran pid ⟨q, a, ks⟩ env')

/-
  From `c` on, while the client held `ks`, the others led to
  some `c₀`, and then its statement led to `c'`.
-/
structure Ran
    (R : Rules W σ α)
    (pid : ℕ)
    (ks : List S.Key)
    (act : Action S)
    (c c' : Config W σ α) : Prop where
  good : R.good c'
  step :
    ∃ c₀, R.good c₀ ∧ R.rely pid ks c c₀ ∧
      W.answers c₀.env act.query act.answer c'.env ∧
      c'.db = c₀.db ∧
      c'.trace = .ran pid act :: c₀.trace

/- Any error may end a client anywhere. -/
def Lenient (R : Rules W σ α) : Prop :=
  ∀ pid e c, R.mayAbort pid e c

end Rules

namespace Prog

variable {β : Type} {R : Rules W σ α} {pid : ℕ}
variable {log : List (Action S)} {w : σ → σ}
variable {c : Config W σ α}

theorem rwp_stmt_of_silent
    {post :
      β → List (Action S) → (σ → σ) → Config W σ α → Prop}
    {q : S.Query}
    {need : σ → S.Answer q → List S.Key}
    {write : σ → S.Answer q → σ → σ}
    {next : σ → S.Answer q → Prog S σ β}
    (hSilent : R.Silent q)
    (h :
      ∀ a c',
        R.Ran pid (held log) ⟨q, a, need (w c'.db) a⟩ c c' →
          (next (w c'.db) a).rwp R pid post
            (log ++ [⟨q, a, need (w c'.db) a⟩])
            (fun t => write (w c'.db) a (w t)) c') :
    (stmt q need write next).rwp R pid post log w c := by
  intro c₀ hGood hRely a env' hAnswer
  rcases hSilent hAnswer hGood with ⟨hGood', hSame⟩
  refine
    ⟨hGood', fun pid' ks' hNe _ => hSame pid' ks' hNe, ?_⟩
  apply h a (c₀.ran pid _ env')
  exact {
    good := hGood'
    step := ⟨c₀, hGood, hRely, hAnswer, rfl, rfl⟩
  }

theorem rwp_fail_of_lenient
    {post :
      β → List (Action S) → (σ → σ) → Config W σ α → Prop}
    (hLenient : R.Lenient)
    (e : S.Error) :
    (fail e : Prog S σ β).rwp R pid post log w c :=
  fun c' _ _ => hLenient pid e c'

theorem rwp_ask_of_silent
    {q : S.Query}
    {post :
      S.Answer q → List (Action S) → (σ → σ) →
        Config W σ α → Prop}
    (hSilent : R.Silent q)
    (h :
      ∀ a c', R.Ran pid (held log) ⟨q, a, []⟩ c c' →
        post a (log ++ [⟨q, a, []⟩]) w c') :
    (ask q).rwp R pid post log w c :=
  rwp_stmt_of_silent hSilent h

theorem rwp_select_of_silent
    {q : S.Query}
    {need : σ → List S.Key}
    {f : σ → β}
    {post :
      β → List (Action S) → (σ → σ) → Config W σ α → Prop}
    (hSilent : R.Silent q)
    (h :
      ∀ a c',
        R.Ran pid (held log) ⟨q, a, need (w c'.db)⟩ c c' →
          post (f (w c'.db))
            (log ++ [⟨q, a, need (w c'.db)⟩]) w c') :
    (select q need f).rwp R pid post log w c :=
  rwp_stmt_of_silent hSilent h

end Prog

end ReadCommitted

------------------------------------------------------------
-- The Rule for Programs among Others
------------------------------------------------------------

namespace ReadCommitted

variable {S : Sig} {W : World S} {σ α : Type}
variable {programs : Prog S σ α → Prop}
variable {R : Rules W σ α}

/- What is left of a client's program respects the rules. -/
def Rules.Outlined
    (R : Rules W σ α)
    (c : Config W σ α)
    (pid : ℕ)
    (pr : Proc S σ α) : Prop :=
  pr.prog.rwp R pid (R.Finishes pid) pr.log pr.writes c

/- The acting client respects the rules and goes on to. -/
theorem Acts.outlined
    (hKeeps : ∀ p, programs p → R.Keeps p)
    {c c' : Config W σ α}
    {pid : ℕ}
    {o o' : Option (Proc S σ α)}
    {keys : List S.Key}
    (hActs : Acts programs c pid o keys c' o')
    (hGood : R.good c)
    (hOutlined : ∀ pr, o = some pr → R.Outlined c pid pr) :
    R.good c' ∧
      (∀ pr', o' = some pr' → R.Outlined c' pid pr') ∧
      ∀ pid' ks', pid ≠ pid' → Compatible keys ks' →
        (∀ pr, o = some pr → Compatible pr.held ks') →
        R.rely pid' ks' c c' := by
  cases hActs with
  | @spawn p hProgram =>
      have hQuiet :=
        R.quiet (e := .spawned pid p) trivial hGood
      refine ⟨hQuiet.1, ?_, ?_⟩
      · rintro pr' ⟨⟩
        exact hKeeps p hProgram pid c hQuiet.1
      · intro pid' ks' hNe hKeys hHeld
        exact hQuiet.2 pid' ks' hNe
  | @run pr q need write next a env' hProg hAnswer =>
      have hOwn := hOutlined pr rfl
      unfold Rules.Outlined at hOwn
      rw [hProg] at hOwn
      rcases hOwn c hGood R.refl a env' hAnswer with
        ⟨hGood', hOthers, hNext⟩
      refine ⟨hGood', ?_, ?_⟩
      · rintro pr' ⟨⟩
        exact hNext
      · intro pid' ks' hNe hKeys hHeld
        apply hOthers pid' ks' hNe
        rw [held_append, held_singleton]
        exact (hHeld pr rfl).append_left hKeys
  | @commit pr next hProg =>
      have hOwn := hOutlined pr rfl
      unfold Rules.Outlined at hOwn
      rw [hProg] at hOwn
      rcases hOwn c hGood R.refl with ⟨hCommits, hNext⟩
      refine ⟨hCommits.1, ?_, ?_⟩
      · rintro pr' ⟨⟩
        exact hNext
      · intro pid' ks' hNe hKeys hHeld
        exact hCommits.2 pid' ks' hNe (hHeld pr rfl)
  | @finish pr a hProg =>
      have hOwn := hOutlined pr rfl
      unfold Rules.Outlined at hOwn
      rw [hProg] at hOwn
      have hCommits := hOwn c hGood R.refl
      refine ⟨hCommits.1, ?_, ?_⟩
      · rintro pr' ⟨⟩
      · intro pid' ks' hNe hKeys hHeld
        exact hCommits.2 pid' ks' hNe (hHeld pr rfl)
  | @rollback pr next hProg =>
      have hOwn := hOutlined pr rfl
      unfold Rules.Outlined at hOwn
      rw [hProg] at hOwn
      have hQuiet :=
        R.quiet (e := .rolledBack pid) trivial hGood
      refine ⟨hQuiet.1, ?_, ?_⟩
      · rintro pr' ⟨⟩
        exact hOwn c hGood R.refl
      · intro pid' ks' hNe hKeys hHeld
        exact hQuiet.2 pid' ks' hNe
  | @abort pr e hProg =>
      have hOwn := hOutlined pr rfl
      unfold Rules.Outlined at hOwn
      rw [hProg] at hOwn
      have hAbort := R.abort (hOwn c hGood R.refl) hGood
      refine ⟨hAbort.1, ?_, ?_⟩
      · rintro pr' ⟨⟩
      · intro pid' ks' hNe hKeys hHeld
        exact hAbort.2 pid' ks' hNe
  | @crash pr =>
      have hQuiet :=
        R.quiet (e := .crashed pid) trivial hGood
      refine ⟨hQuiet.1, ?_, ?_⟩
      · rintro pr' ⟨⟩
      · intro pid' ks' hNe hKeys hHeld
        exact hQuiet.2 pid' ks' hNe

/- Programs that respect the rules keep the shared part good. -/
theorem Reachable.outlined
    (hKeeps : ∀ p, programs p → R.Keeps p)
    {db : σ}
    {env : W.Carrier}
    {s : Sys W σ α}
    (hInit : R.good ⟨db, env, []⟩)
    (hReach :
      Reachable programs (Sys.initial db env) s) :
    R.good s.toConfig ∧
      ∀ pid pr, s.procs pid = some pr →
        R.Outlined s.toConfig pid pr := by
  have hRules :
      RelyGuarantee W programs R.good R.Outlined := {
    own := by
      intro c c' pid o o' keys hActs hGood hOwn
      have hAll := hActs.outlined hKeeps hGood hOwn
      exact ⟨hAll.1, hAll.2.1⟩
    rely := by
      intro c c' pid o o' keys hActs hGood hOwn pid' pr' hNe
        hOther hKeys hHeld
      have hAll := hActs.outlined hKeeps hGood hOwn
      exact
        Prog.rwp_stable pr'.prog
          (hAll.2.2 pid' pr'.held hNe.symm hKeys hHeld)
          hOther
    tick := by
      intro c env' hAdvance hGood
      have hTick := R.tick hAdvance hGood
      constructor
      · exact hTick.1
      · intro pid pr hOther
        exact
          Prog.rwp_stable pr.prog (hTick.2 pid pr.held) hOther
  }
  exact hReach.rely_guarantee hRules hInit

theorem Reachable.good
    (hKeeps : ∀ p, programs p → R.Keeps p)
    {db : σ}
    {env : W.Carrier}
    {s : Sys W σ α}
    (hInit : R.good ⟨db, env, []⟩)
    (hReach :
      Reachable programs (Sys.initial db env) s) :
    R.good s.toConfig :=
  (hReach.outlined hKeeps hInit).1

end ReadCommitted

------------------------------------------------------------
-- Contracts
------------------------------------------------------------

namespace ReadCommitted

variable {S : Sig} {W : World S} {σ α : Type}

/- The store after the recorded events, from `db` on. -/
def latest
    (db : σ) : List (Event S σ α) → σ
| [] => db
| .committed _ _ _ after _ :: _ => after
| .spawned _ _ :: older => latest db older
| .ran _ _ :: older => latest db older
| .rolledBack _ :: older => latest db older
| .aborted _ _ :: older => latest db older
| .crashed _ :: older => latest db older

/- Every event fits the events before it. -/
def Audited
    (outcome : List (Event S σ α) → Event S σ α → Prop) :
    List (Event S σ α) → Prop
| [] => True
| e :: older => outcome older e ∧ Audited outcome older

/- A commit starts from the store that the events left. -/
def Event.Follows
    (db : σ)
    (older : List (Event S σ α)) : Event S σ α → Prop
| committed _ _ before _ _ => before = latest db older
| _ => True

theorem Event.Quiet.follows
    {db : σ}
    {older : List (Event S σ α)}
    {e : Event S σ α}
    (hQuiet : e.Quiet) :
    e.Follows db older := by
  cases e with
  | committed pid log before after answer => cases hQuiet
  | _ => trivial

theorem Audited.split
    {outcome : List (Event S σ α) → Event S σ α → Prop}
    {newer older : List (Event S σ α)}
    {e : Event S σ α}
    (hAudited : Audited outcome (newer ++ e :: older)) :
    outcome older e ∧ Audited outcome older := by
  induction newer with
  | nil => exact hAudited
  | cons x xs ih => exact ih hAudited.2

theorem Audited.of_suffix
    {outcome : List (Event S σ α) → Event S σ α → Prop}
    {trace older : List (Event S σ α)}
    (hAudited : Audited outcome trace)
    (hSuffix : older <:+ trace) :
    Audited outcome older := by
  rcases hSuffix with ⟨newer, rfl⟩
  induction newer with
  | nil => exact hAudited
  | cons x xs ih => exact ih hAudited.2

/- The committed stores of a run that began with `db`. -/
def states
    (db : σ)
    (trace : List (Event S σ α)) : List σ :=
  (commits trace).map Commit.after ++ [db]

theorem latest_mem_states
    (db : σ)
    (trace : List (Event S σ α)) :
    latest db trace ∈ states db trace := by
  induction trace with
  | nil => exact List.mem_singleton.mpr rfl
  | cons e older ih =>
      cases e with
      | committed pid log before after answer =>
          exact List.mem_cons_self
      | _ => exact ih

/-
  Rules in a common form.  The store stays valid; others
  keep what is stable under the keys that a client holds;
  and `outcome older e` says what an event is worth after
  the events `older`.
-/
structure Contract
    (W : World S)
    (σ α : Type) where
  start : σ
  later : W.Carrier → W.Carrier → Prop
  valid : σ → W.Carrier → Prop
  stable : List S.Key → σ → σ → Prop
  outcome : List (Event S σ α) → Event S σ α → Prop
  later_refl : ∀ env, later env env
  later_trans :
    ∀ {env env' env''},
      later env env' → later env' env'' → later env env''
  later_answers :
    ∀ {env q a env'}, W.answers env q a env' →
      later env env'
  later_advance :
    ∀ {env env'}, W.advance env env' → later env env'
  valid_later :
    ∀ {db env env'}, later env env' → valid db env →
      valid db env'
  stable_refl : ∀ ks db, stable ks db db
  stable_trans :
    ∀ {ks db db' db''}, stable ks db db' →
      stable ks db' db'' → stable ks db db''
  outcome_quiet :
    ∀ older e, Event.Quiet e → outcome older e

namespace Contract

variable (K : Contract W σ α)

/- What holds of the shared part under the contract. -/
structure Good (c : Config W σ α) : Prop where
  db : c.db = latest K.start c.trace
  valid : K.valid c.db c.env
  linked : Audited (Event.Follows K.start) c.trace
  audited : Audited K.outcome c.trace

/-
  What the others may do: the client's rows are stable, and
  no event is the client's own or needed conflicting keys.
-/
structure Rely
    (pid : ℕ)
    (ks : List S.Key)
    (c c' : Config W σ α) : Prop where
  stable : K.stable ks c.db c'.db
  later : K.later c.env c'.env
  events :
    ∃ newer, c'.trace = newer ++ c.trace ∧
      ∀ e ∈ newer, e.pid ≠ pid ∧ Compatible e.keys ks

variable {K} {pid : ℕ} {ks : List S.Key}
variable {c c' c'' : Config W σ α}

theorem Rely.refl : K.Rely pid ks c c where
  stable := K.stable_refl ks c.db
  later := K.later_refl c.env
  events := ⟨[], rfl, by simp⟩

theorem Rely.trans
    (hFirst : K.Rely pid ks c c')
    (hSecond : K.Rely pid ks c' c'') :
    K.Rely pid ks c c'' := by
  rcases hFirst.events with ⟨newer, hTrace, hNewer⟩
  rcases hSecond.events with ⟨newer', hTrace', hNewer'⟩
  exact {
    stable := K.stable_trans hFirst.stable hSecond.stable
    later := K.later_trans hFirst.later hSecond.later
    events := by
      refine ⟨newer' ++ newer, ?_, ?_⟩
      · rw [hTrace', hTrace, List.append_assoc]
      · intro e hMem
        rcases List.mem_append.mp hMem with hNew | hOld
        · exact hNewer' e hNew
        · exact hNewer e hOld
  }

/- An event of another client that leaves the store. -/
theorem Rely.event
    {e : Event S σ α}
    {env' : W.Carrier}
    (hNe : e.pid ≠ pid)
    (hKeys : e.keys = [])
    (hLater : K.later c.env env') :
    K.Rely pid ks c
      { c with env := env', trace := e :: c.trace } where
  stable := K.stable_refl ks c.db
  later := hLater
  events := by
    refine ⟨[e], rfl, ?_⟩
    intro x hMem
    rw [List.mem_singleton.mp hMem, hKeys]
    exact ⟨hNe, fun k hKey => by cases hKey⟩

theorem Good.quiet
    {e : Event S σ α}
    (hQuiet : e.Quiet)
    (hGood : K.Good c) :
    K.Good (c.record e) where
  db := by
    cases e with
    | ran pid act => cases hQuiet
    | committed pid log before after answer => cases hQuiet
    | spawned pid p => exact hGood.db
    | rolledBack pid => exact hGood.db
    | aborted pid e => exact hGood.db
    | crashed pid => exact hGood.db
  valid := hGood.valid
  linked := ⟨hQuiet.follows, hGood.linked⟩
  audited :=
    ⟨K.outcome_quiet c.trace e hQuiet, hGood.audited⟩

variable (K)

/- The rules that a contract stands for. -/
def rules : Rules W σ α where
  good := K.Good
  rely := K.Rely
  mayAbort := fun pid e c =>
    K.outcome c.trace (.aborted pid e)
  refl := Rely.refl
  trans := Rely.trans
  quiet := by
    intro c e hQuiet hGood
    refine ⟨hGood.quiet hQuiet, ?_⟩
    intro pid ks hNe
    exact Rely.event hNe hQuiet.keys (K.later_refl c.env)
  abort := by
    intro c pid e hOutcome hGood
    constructor
    · exact {
        db := hGood.db
        valid := hGood.valid
        linked := ⟨trivial, hGood.linked⟩
        audited := ⟨hOutcome, hGood.audited⟩
      }
    · intro pid' ks hNe
      exact Rely.event hNe rfl (K.later_refl c.env)
  tick := by
    intro c env' hAdvance hGood
    have hLater := K.later_advance hAdvance
    constructor
    · exact {
        db := hGood.db
        valid := K.valid_later hLater hGood.valid
        linked := hGood.linked
        audited := hGood.audited
      }
    · intro pid ks
      exact {
        stable := K.stable_refl ks c.db
        later := hLater
        events := ⟨[], rfl, by simp⟩
      }

variable {K}

/- A statement that is worth nothing special is silent. -/
theorem silent
    {q : S.Query}
    (hOutcome :
      ∀ older pid a ks,
        K.outcome older (.ran pid ⟨q, a, ks⟩)) :
    K.rules.Silent q := by
  intro pid c a ks env' hAnswer hGood
  have hLater := K.later_answers hAnswer
  constructor
  · exact {
      db := hGood.db
      valid := K.valid_later hLater hGood.valid
      linked := ⟨trivial, hGood.linked⟩
      audited :=
        ⟨hOutcome c.trace pid a ks, hGood.audited⟩
    }
  · intro pid' ks' hNe
    exact Rely.event hNe rfl hLater

theorem lenient
    (hOutcome :
      ∀ older pid e, K.outcome older (.aborted pid e)) :
    K.rules.Lenient :=
  fun pid e c => hOutcome c.trace pid e

/-
  A commit is right when it leads to a valid store, has the
  outcome it should, and is stable for everyone else.
-/
theorem commits
    {log : List (Action S)}
    {w : σ → σ}
    {answer : Option α}
    (hGood : K.Good c)
    (hValid : K.valid (w c.db) c.env)
    (hOutcome :
      K.outcome c.trace
        (.committed pid log c.db (w c.db) answer))
    (hStable :
      ∀ ks', Compatible (held log) ks' →
        K.stable ks' c.db (w c.db)) :
    K.rules.Commits pid log w answer c := by
  constructor
  · exact {
      db := rfl
      valid := hValid
      linked := ⟨hGood.db, hGood.linked⟩
      audited := ⟨hOutcome, hGood.audited⟩
    }
  · intro pid' ks' hNe hCompat
    exact {
      stable := hStable ks' hCompat
      later := K.later_refl c.env
      events := by
        refine
          ⟨[.committed pid log c.db (w c.db) answer],
            rfl, ?_⟩
        intro e hMem
        rw [List.mem_singleton.mp hMem]
        exact ⟨hNe, hCompat⟩
    }

/- What one statement more means under a contract. -/
theorem ran_stable
    {act : Action S}
    (hRan : K.rules.Ran pid ks act c c') :
    K.stable ks c.db c'.db := by
  rcases hRan.step with ⟨c₀, -, hRely, -, hDb, -⟩
  rw [hDb]
  exact hRely.stable

/- Programs that respect a contract keep it in every run. -/
theorem good_of_reachable
    {programs : Prog S σ α → Prop}
    {env : W.Carrier}
    {s : Sys W σ α}
    (hKeeps : ∀ p, programs p → K.rules.Keeps p)
    (hValid : K.valid K.start env)
    (hReach :
      Reachable programs (Sys.initial K.start env) s) :
    K.Good s.toConfig :=
  hReach.good hKeeps
    { db := rfl, valid := hValid, linked := trivial,
      audited := trivial }

end Contract

end ReadCommitted
