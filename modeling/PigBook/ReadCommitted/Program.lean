import Mathlib.Data.List.Basic
import Mathlib.Logic.Function.Basic

/-
  Transaction programs over a relational store.

  A program is the text of one database client: a sequence
  of statements, each of which reads the client's current
  view of the store, may ask the surroundings for a value
  (a clock reading, a fresh identifier, the answer of an
  external service), and writes.  A statement also names
  the lock keys it has to obtain before it runs.

  Key definitions include:
    * `Sig`
    * `Action`
    * `Prog` and `Prog.bind`
    * `Prog.ask`, `Prog.select`, `Prog.save`, `Prog.undo`
    * `Prog.Serial`
    * `Prog.wp`

  Key theorems include:
    * `Prog.wp_bind`
    * `Prog.Serial.wp_sound`
    * `Prog.Serial.post_of_done`
-/

------------------------------------------------------------
-- Signatures and Actions
------------------------------------------------------------

namespace ReadCommitted

/-
  The vocabulary shared by all programs of one application:
  lock keys with their conflicts, the questions a statement
  may ask, and the errors a program may raise.
-/
structure Sig where
  Key : Type
  Conflict : Key → Key → Prop
  symm : ∀ k k', Conflict k k' → Conflict k' k
  Query : Type
  Answer : Query → Type
  Error : Type

/- One executed statement, as the program saw it. -/
structure Action (S : Sig) where
  query : S.Query
  answer : S.Answer query
  keys : List S.Key

/- The lock keys obtained by a list of statements. -/
def held
    {S : Sig}
    (log : List (Action S)) : List S.Key :=
  log.flatMap Action.keys

/- No key of the first list conflicts with one of the second. -/
def Compatible
    {S : Sig}
    (ks ks' : List S.Key) : Prop :=
  ∀ k ∈ ks, ∀ k' ∈ ks', ¬ S.Conflict k k'

@[simp] theorem held_nil
    {S : Sig} :
    held ([] : List (Action S)) = [] :=
  rfl

@[simp] theorem held_append
    {S : Sig}
    (log log' : List (Action S)) :
    held (log ++ log') = held log ++ held log' := by
  simp [held]

@[simp] theorem held_cons
    {S : Sig}
    (act : Action S)
    (log : List (Action S)) :
    held (act :: log) = act.keys ++ held log :=
  rfl

@[simp] theorem held_singleton
    {S : Sig}
    (act : Action S) :
    held [act] = act.keys := by
  simp [held]

theorem Compatible.symm
    {S : Sig}
    {ks ks' : List S.Key}
    (hCompat : Compatible ks ks') :
    Compatible ks' ks := by
  intro k hk k' hk' hConflict
  exact hCompat k' hk' k hk (S.symm k k' hConflict)

theorem Compatible.append_left
    {S : Sig}
    {ks ks' ks'' : List S.Key}
    (hLeft : Compatible ks ks'')
    (hRight : Compatible ks' ks'') :
    Compatible (ks ++ ks') ks'' := by
  intro k hk
  rcases List.mem_append.mp hk with hk | hk
  · exact hLeft k hk
  · exact hRight k hk

theorem Compatible.left_of_append
    {S : Sig}
    {ks ks' ks'' : List S.Key}
    (hCompat : Compatible (ks ++ ks') ks'') :
    Compatible ks ks'' :=
  fun k hk => hCompat k (List.mem_append_left ks' hk)

theorem Compatible.right_of_append
    {S : Sig}
    {ks ks' ks'' : List S.Key}
    (hCompat : Compatible (ks ++ ks') ks'') :
    Compatible ks' ks'' :=
  fun k hk => hCompat k (List.mem_append_right ks hk)

end ReadCommitted

------------------------------------------------------------
-- Programs
------------------------------------------------------------

namespace ReadCommitted

/-
  Programs over a store `σ` that answer a value of `α`.

  `stmt q need write next` is one statement.  It runs on the
  program's view `s` with the answer `a` to `q`, once no
  other client holds a key that conflicts with `need s a`.
  Its row changes are fixed by what it saw: `write s a` is
  applied to the view now and to the store at the commit.

  `commit` and `rollback` end a transaction and go on with
  the next one; `done` commits and ends the program, and
  `fail` rolls back and ends it with an error.
-/
inductive Prog (S : Sig) (σ α : Type) : Type
  | done (a : α)
  | fail (e : S.Error)
  | stmt
      (q : S.Query)
      (need : σ → S.Answer q → List S.Key)
      (write : σ → S.Answer q → σ → σ)
      (next : σ → S.Answer q → Prog S σ α)
  | commit (next : Prog S σ α)
  | rollback (next : Prog S σ α)

namespace Prog

variable {S : Sig} {σ α β : Type}

/- Continue a program with its answer. -/
def bind :
    Prog S σ α → (α → Prog S σ β) → Prog S σ β
| done a, f => f a
| fail e, _ => fail e
| stmt q need write next, f =>
    stmt q need write (fun s a => (next s a).bind f)
| commit next, f => commit (next.bind f)
| rollback next, f => rollback (next.bind f)

instance : Monad (Prog S σ) where
  pure := done
  bind := bind

@[simp] theorem pure_eq_done
    (a : α) :
    (pure a : Prog S σ α) = done a :=
  rfl

@[simp] theorem bind_eq
    (p : Prog S σ α)
    (f : α → Prog S σ β) :
    (p >>= f) = p.bind f :=
  rfl

theorem bind_assoc
    {γ : Type}
    (p : Prog S σ α)
    (f : α → Prog S σ β)
    (g : β → Prog S σ γ) :
    (p.bind f).bind g = p.bind (fun a => (f a).bind g) := by
  induction p with
  | done a => rfl
  | fail e => rfl
  | stmt q need write next ih =>
      simp only [bind, ih]
  | commit next ih => simp only [bind, ih]
  | rollback next ih => simp only [bind, ih]

/- Ask for a value without touching the store. -/
def ask
    (q : S.Query) : Prog S σ (S.Answer q) :=
  stmt q (fun _ _ => []) (fun _ _ s => s)
    (fun _ a => done a)

/-
  Read the view under the keys that the read asks for; `q`
  is the question of a statement that asks nothing.
-/
def select
    (q : S.Query)
    (need : σ → List S.Key)
    (f : σ → β) : Prog S σ β :=
  stmt q (fun s _ => need s) (fun _ _ s => s)
    (fun s _ => done (f s))

/- Commit the open transaction. -/
def save : Prog S σ Unit :=
  commit (done ())

/- Roll the open transaction back. -/
def undo : Prog S σ Unit :=
  rollback (done ())

end Prog

end ReadCommitted

------------------------------------------------------------
-- Serial Runs
------------------------------------------------------------

namespace ReadCommitted

namespace Prog

variable {S : Sig} {σ α β : Type}

/-
  `Serial p s log w p'`: run alone from the store `s`, the
  open transaction of `p` can execute the statements `log`,
  after which its row changes are `w` and `p'` remains.
-/
inductive Serial
    (p : Prog S σ α)
    (s : σ) :
    List (Action S) → (σ → σ) → Prog S σ α → Prop
  | start : Serial p s [] id p
  | step
      {log : List (Action S)}
      {w : σ → σ}
      {q : S.Query}
      {need : σ → S.Answer q → List S.Key}
      {write : σ → S.Answer q → σ → σ}
      {next : σ → S.Answer q → Prog S σ α}
      (run : Serial p s log w (stmt q need write next))
      (a : S.Answer q) :
      Serial p s
        (log ++ [⟨q, a, need (w s) a⟩])
        (fun t => write (w s) a (w t))
        (next (w s) a)

end Prog

end ReadCommitted

------------------------------------------------------------
-- Weakest Preconditions
------------------------------------------------------------

namespace ReadCommitted

namespace Prog

variable {S : Sig} {σ α β : Type}

/-
  Weakest precondition of one transaction run alone.  Both
  postconditions see the statements executed so far.  The
  logic is about a single transaction, so a program that
  goes on after its commit is not covered.
-/
def wp
    (post : List (Action S) → σ → α → Prop)
    (err : List (Action S) → S.Error → Prop) :
    Prog S σ α → List (Action S) → σ → Prop
| done a, log, s => post log s a
| fail e, log, _ => err log e
| stmt q need write next, log, s =>
    ∀ a : S.Answer q,
      (next s a).wp post err
        (log ++ [⟨q, a, need s a⟩]) (write s a s)
| commit _, _, _ => False
| rollback _, _, _ => False

variable
  {post post' : List (Action S) → σ → α → Prop}
  {err err' : List (Action S) → S.Error → Prop}
  {log : List (Action S)} {s : σ}

@[simp] theorem wp_done
    (a : α) :
    (done a : Prog S σ α).wp post err log s ↔
      post log s a :=
  Iff.rfl

@[simp] theorem wp_fail
    (e : S.Error) :
    (fail e : Prog S σ α).wp post err log s ↔
      err log e :=
  Iff.rfl

@[simp] theorem wp_stmt
    (q : S.Query)
    (need : σ → S.Answer q → List S.Key)
    (write : σ → S.Answer q → σ → σ)
    (next : σ → S.Answer q → Prog S σ α) :
    (stmt q need write next).wp post err log s ↔
      ∀ a : S.Answer q,
        (next s a).wp post err
          (log ++ [⟨q, a, need s a⟩]) (write s a s) :=
  Iff.rfl

@[simp] theorem wp_ask
    (q : S.Query)
    {post : List (Action S) → σ → S.Answer q → Prop} :
    (ask q : Prog S σ _).wp post err log s ↔
      ∀ a, post (log ++ [⟨q, a, []⟩]) s a :=
  Iff.rfl

@[simp] theorem wp_select
    (q : S.Query)
    (need : σ → List S.Key)
    (f : σ → α) :
    (select q need f).wp post err log s ↔
      ∀ a, post (log ++ [⟨q, a, need s⟩]) s (f s) :=
  Iff.rfl

/- Sequencing composes preconditions. -/
@[simp] theorem wp_bind
    (p : Prog S σ α)
    (f : α → Prog S σ β)
    {post : List (Action S) → σ → β → Prop} :
    (p.bind f).wp post err log s ↔
      p.wp
        (fun log s a => (f a).wp post err log s)
        err log s := by
  induction p generalizing log s with
  | done a => rfl
  | fail e => rfl
  | stmt q need write next ih =>
      constructor
      · intro h a
        exact (ih s a).mp (h a)
      · intro h a
        exact (ih s a).mpr (h a)
  | commit next ih => rfl
  | rollback next ih => rfl

/- Preconditions are monotone in both postconditions. -/
theorem wp_mono
    (p : Prog S σ α)
    (hPost : ∀ log s a, post log s a → post' log s a)
    (hErr : ∀ log e, err log e → err' log e)
    (h : p.wp post err log s) :
    p.wp post' err' log s := by
  induction p generalizing log s with
  | done a => exact hPost log s a h
  | fail e => exact hErr log e h
  | stmt q need write next ih =>
      intro a
      exact ih s a (h a)
  | commit next ih => exact h
  | rollback next ih => exact h

/- A serial run carries its precondition along. -/
theorem Serial.wp_sound
    {p p' : Prog S σ α}
    {w : σ → σ}
    (run : Serial p s log w p')
    (h : p.wp post err [] s) :
    p'.wp post err log (w s) := by
  induction run with
  | start => exact h
  | step run a ih => exact ih a

/- A serial run that answers ends in its postcondition. -/
theorem Serial.post_of_done
    {p : Prog S σ α}
    {w : σ → σ}
    {a : α}
    (run : Serial p s log w (done a))
    (h : p.wp post err [] s) :
    post log (w s) a :=
  run.wp_sound h

/- A serial run that raises ends in its error condition. -/
theorem Serial.err_of_fail
    {p : Prog S σ α}
    {w : σ → σ}
    {e : S.Error}
    (run : Serial p s log w (fail e))
    (h : p.wp post err [] s) :
    err log e :=
  run.wp_sound h

end Prog

end ReadCommitted
