import Mathlib.Logic.Relation
import Mathlib.Tactic.Common
import PigBook.ReadCommitted.Program

/-
  Interleaved clients of one store under READ COMMITTED.

  A statement reads the latest committed store overlaid with
  the row changes of its own transaction, waits while another
  client holds a conflicting key, and keeps its keys until
  its transaction ends.  A commit makes all row changes of a
  transaction visible at once; a rollback or a crash drops
  them.  Steps of different clients interleave freely.

  Key definitions include:
    * `World`
    * `Proc`, `Event`, `Config`, `Sys`
    * `Acts` and `Step`
    * `Reachable`

  Key theorems include:
    * `Reachable.exclusive`
    * `Reachable.rely_guarantee`
-/

------------------------------------------------------------
-- Clients and Configurations
------------------------------------------------------------

namespace ReadCommitted

/-
  What surrounds the store: how questions are answered, and
  how the surroundings change on their own.
-/
structure World (S : Sig) where
  Carrier : Type
  answers :
    Carrier → (q : S.Query) → S.Answer q → Carrier → Prop
  advance : Carrier → Carrier → Prop

/-
  A client: the rest of its program, the program text of its
  open transaction, that transaction's row changes, and the
  statements it has executed so far.
-/
structure Proc (S : Sig) (σ α : Type) where
  prog : Prog S σ α
  start : Prog S σ α
  writes : σ → σ
  log : List (Action S)

namespace Proc

variable {S : Sig} {σ α : Type}

/- A client at the beginning of a transaction. -/
def begin (p : Prog S σ α) : Proc S σ α where
  prog := p
  start := p
  writes := id
  log := []

/- The keys held by the open transaction. -/
def held (pr : Proc S σ α) : List S.Key :=
  ReadCommitted.held pr.log

/- The store as the open transaction sees it. -/
def view (pr : Proc S σ α) (db : σ) : σ :=
  pr.writes db

@[simp] theorem held_begin
    (p : Prog S σ α) :
    (begin p).held = [] :=
  rfl

end Proc

/- What an observer of the whole system records. -/
inductive Event (S : Sig) (σ α : Type)
  | spawned (pid : ℕ) (p : Prog S σ α)
  | ran (pid : ℕ) (act : Action S)
  | committed
      (pid : ℕ)
      (log : List (Action S))
      (before after : σ)
      (answer : Option α)
  | rolledBack (pid : ℕ)
  | aborted (pid : ℕ) (e : S.Error)
  | crashed (pid : ℕ)

/-
  The shared part of a system state; `trace` holds the
  events, the latest first.
-/
structure Config
    {S : Sig}
    (W : World S)
    (σ α : Type) where
  db : σ
  env : W.Carrier
  trace : List (Event S σ α)

structure Sys
    {S : Sig}
    (W : World S)
    (σ α : Type) extends Config W σ α where
  procs : ℕ → Option (Proc S σ α)

end ReadCommitted

------------------------------------------------------------
-- Steps
------------------------------------------------------------

namespace ReadCommitted

variable {S : Sig} {W : World S} {σ α : Type}

/-
  `Acts programs c pid o keys c' o'`: client `pid` turns from
  `o` to `o'` and the shared part from `c` to `c'`; `keys`
  are the keys it needs for that.
-/
inductive Acts
    (programs : Prog S σ α → Prop) :
    Config W σ α → ℕ → Option (Proc S σ α) → List S.Key →
      Config W σ α → Option (Proc S σ α) → Prop
  | spawn
      {c : Config W σ α} {pid : ℕ} {p : Prog S σ α}
      (hProgram : programs p) :
      Acts programs c pid none []
        { c with trace := .spawned pid p :: c.trace }
        (some (Proc.begin p))
  | run
      {c : Config W σ α} {pid : ℕ} {pr : Proc S σ α}
      {q : S.Query}
      {need : σ → S.Answer q → List S.Key}
      {write : σ → S.Answer q → σ → σ}
      {next : σ → S.Answer q → Prog S σ α}
      {a : S.Answer q} {env' : W.Carrier}
      (hProg : pr.prog = .stmt q need write next)
      (hAnswer : W.answers c.env q a env') :
      Acts programs c pid (some pr)
        (need (pr.view c.db) a)
        { c with
          env := env'
          trace :=
            .ran pid ⟨q, a, need (pr.view c.db) a⟩ ::
              c.trace }
        (some
          { prog := next (pr.view c.db) a
            start := pr.start
            writes := fun t =>
              write (pr.view c.db) a (pr.writes t)
            log :=
              pr.log ++
                [⟨q, a, need (pr.view c.db) a⟩] })
  | commit
      {c : Config W σ α} {pid : ℕ} {pr : Proc S σ α}
      {next : Prog S σ α}
      (hProg : pr.prog = .commit next) :
      Acts programs c pid (some pr) []
        { c with
          db := pr.view c.db
          trace :=
            .committed pid pr.log c.db (pr.view c.db)
              none :: c.trace }
        (some (Proc.begin next))
  | finish
      {c : Config W σ α} {pid : ℕ} {pr : Proc S σ α}
      {a : α}
      (hProg : pr.prog = .done a) :
      Acts programs c pid (some pr) []
        { c with
          db := pr.view c.db
          trace :=
            .committed pid pr.log c.db (pr.view c.db)
              (some a) :: c.trace }
        none
  | rollback
      {c : Config W σ α} {pid : ℕ} {pr : Proc S σ α}
      {next : Prog S σ α}
      (hProg : pr.prog = .rollback next) :
      Acts programs c pid (some pr) []
        { c with trace := .rolledBack pid :: c.trace }
        (some (Proc.begin next))
  | abort
      {c : Config W σ α} {pid : ℕ} {pr : Proc S σ α}
      {e : S.Error}
      (hProg : pr.prog = .fail e) :
      Acts programs c pid (some pr) []
        { c with trace := .aborted pid e :: c.trace }
        none
  | crash
      {c : Config W σ α} {pid : ℕ} {pr : Proc S σ α} :
      Acts programs c pid (some pr) []
        { c with trace := .crashed pid :: c.trace }
        none

/- One step of the whole system. -/
inductive Step
    (programs : Prog S σ α → Prop) :
    Sys W σ α → Sys W σ α → Prop
  | act
      {s : Sys W σ α} {pid : ℕ} {keys : List S.Key}
      {c' : Config W σ α} {o' : Option (Proc S σ α)}
      (hActs :
        Acts programs s.toConfig pid (s.procs pid) keys
          c' o')
      (hFree :
        ∀ pid', pid' ≠ pid → ∀ pr',
          s.procs pid' = some pr' →
            Compatible keys pr'.held) :
      Step programs s
        ⟨c', Function.update s.procs pid o'⟩
  | tick
      {s : Sys W σ α} {env' : W.Carrier}
      (hAdvance : W.advance s.env env') :
      Step programs s
        ⟨{ s.toConfig with env := env' }, s.procs⟩

/- A store with no client and nothing recorded yet. -/
def Sys.initial
    (db : σ)
    (env : W.Carrier) : Sys W σ α where
  db := db
  env := env
  trace := []
  procs := fun _ => none

/- The states that some interleaving leads to. -/
def Reachable
    (programs : Prog S σ α → Prop)
    (s₀ s : Sys W σ α) : Prop :=
  Relation.ReflTransGen (Step programs) s₀ s

end ReadCommitted

------------------------------------------------------------
-- Lock Exclusion
------------------------------------------------------------

namespace ReadCommitted

variable {S : Sig} {W : World S} {σ α : Type}
variable {programs : Prog S σ α → Prop}

/- A client's keys are its old ones and the ones it needed. -/
theorem Acts.held_subset
    {c c' : Config W σ α}
    {pid : ℕ}
    {o : Option (Proc S σ α)}
    {pr' : Proc S σ α}
    {keys : List S.Key}
    (hActs : Acts programs c pid o keys c' (some pr')) :
    ∀ k ∈ pr'.held,
      k ∈ keys ∨ ∃ pr, o = some pr ∧ k ∈ pr.held := by
  intro k hk
  cases hActs with
  | spawn hProgram => simp at hk
  | @run pr q need write next a env' hProg hAnswer =>
      simp only [Proc.held, held_append, held_singleton,
        List.mem_append] at hk
      rcases hk with hk | hk
      · exact Or.inr ⟨pr, rfl, hk⟩
      · exact Or.inl hk
  | commit hProg => simp at hk
  | rollback hProg => simp at hk

/- Open transactions never hold conflicting keys. -/
def Exclusive (s : Sys W σ α) : Prop :=
  ∀ pid pid' pr pr', pid ≠ pid' →
    s.procs pid = some pr → s.procs pid' = some pr' →
      Compatible pr.held pr'.held

theorem Step.exclusive
    {s s' : Sys W σ α}
    (hStep : Step programs s s')
    (hExclusive : Exclusive s) :
    Exclusive s' := by
  cases hStep with
  | tick hAdvance => exact hExclusive
  | @act pid keys c' o' hActs hFree =>
      -- the stepping client against any other one
      have hNew :
          ∀ pid' pr pr', pid' ≠ pid → o' = some pr →
            s.procs pid' = some pr' →
              Compatible pr.held pr'.held := by
        intro pid' pr pr' hNe hSome hOther k hk
        subst hSome
        rcases hActs.held_subset k hk with hKey | hOld
        · exact hFree pid' hNe pr' hOther k hKey
        · rcases hOld with ⟨old, hOld, hk⟩
          exact
            hExclusive pid pid' old pr' hNe.symm hOld
              hOther k hk
      intro p p' pr pr' hNe hp hp'
      change Function.update s.procs pid o' p = _ at hp
      change Function.update s.procs pid o' p' = _ at hp'
      by_cases hFirst : p = pid
      · subst hFirst
        rw [Function.update_self] at hp
        rw [Function.update_of_ne hNe.symm] at hp'
        exact hNew p' pr pr' hNe.symm hp hp'
      · rw [Function.update_of_ne hFirst] at hp
        by_cases hSecond : p' = pid
        · subst hSecond
          rw [Function.update_self] at hp'
          exact (hNew p pr' pr hFirst hp' hp).symm
        · rw [Function.update_of_ne hSecond] at hp'
          exact hExclusive p p' pr pr' hNe hp hp'

theorem Reachable.exclusive
    {db : σ}
    {env : W.Carrier}
    {s : Sys W σ α}
    (hReach :
      Reachable programs (Sys.initial db env) s) :
    Exclusive s := by
  induction hReach with
  | refl =>
      intro pid pid' pr pr' hNe hp
      cases hp
  | tail _ hStep ih => exact hStep.exclusive ih

end ReadCommitted

------------------------------------------------------------
-- Rely and Guarantee
------------------------------------------------------------

namespace ReadCommitted

variable {S : Sig} {W : World S} {σ α : Type}

/-
  A thread-modular invariant.  `glob` speaks about the shared
  part of the state and `loc` about one client against it.
  The client that acts re-establishes both (`own`), every
  other client's part survives the act (`rely`), and both
  survive a change of the surroundings (`tick`).
-/
structure RelyGuarantee
    (W : World S)
    (programs : Prog S σ α → Prop)
    (glob : Config W σ α → Prop)
    (loc : Config W σ α → ℕ → Proc S σ α → Prop) :
    Prop where
  own :
    ∀ {c c' pid o o' keys},
      Acts programs c pid o keys c' o' →
      glob c →
      (∀ pr, o = some pr → loc c pid pr) →
      glob c' ∧ ∀ pr', o' = some pr' → loc c' pid pr'
  rely :
    ∀ {c c' pid o o' keys},
      Acts programs c pid o keys c' o' →
      glob c →
      (∀ pr, o = some pr → loc c pid pr) →
      ∀ {pid' pr'}, pid' ≠ pid →
      loc c pid' pr' →
      Compatible keys pr'.held →
      (∀ pr, o = some pr → Compatible pr.held pr'.held) →
      loc c' pid' pr'
  tick :
    ∀ {c : Config W σ α} {env'},
      W.advance c.env env' →
      glob c →
      glob { c with env := env' } ∧
        ∀ pid pr, loc c pid pr →
          loc { c with env := env' } pid pr

/- A thread-modular invariant holds of every reachable state. -/
theorem Reachable.rely_guarantee
    {programs : Prog S σ α → Prop}
    {glob : Config W σ α → Prop}
    {loc : Config W σ α → ℕ → Proc S σ α → Prop}
    {db : σ}
    {env : W.Carrier}
    {s : Sys W σ α}
    (hReach :
      Reachable programs (Sys.initial db env) s)
    (hRules : RelyGuarantee W programs glob loc)
    (hInit : glob ⟨db, env, []⟩) :
    glob s.toConfig ∧
      ∀ pid pr, s.procs pid = some pr →
        loc s.toConfig pid pr := by
  induction hReach with
  | refl =>
      refine ⟨hInit, ?_⟩
      intro pid pr hProc
      cases hProc
  | @tail s s' hPrefix hStep ih =>
      have hExclusive : Exclusive s :=
        Reachable.exclusive hPrefix
      rcases ih with ⟨hGlob, hLoc⟩
      cases hStep with
      | tick hAdvance =>
          rcases hRules.tick hAdvance hGlob with
            ⟨hGlob', hLoc'⟩
          exact ⟨hGlob',
            fun pid pr hProc =>
              hLoc' pid pr (hLoc pid pr hProc)⟩
      | @act pid keys c' o' hActs hFree =>
          have hOwn :=
            hRules.own hActs hGlob (hLoc pid)
          refine ⟨hOwn.1, ?_⟩
          intro pid' pr' hProc
          by_cases hSame : pid' = pid
          · subst hSame
            exact hOwn.2 pr'
              (by simpa using hProc)
          · have hOther : s.procs pid' = some pr' := by
              simpa [Function.update_of_ne hSame]
                using hProc
            exact
              hRules.rely hActs hGlob (hLoc pid) hSame
                (hLoc pid' pr' hOther)
                (hFree pid' hSame pr' hOther)
                (fun pr hpr =>
                  hExclusive pid pid' pr pr'
                    (Ne.symm hSame) hpr hOther)

end ReadCommitted
