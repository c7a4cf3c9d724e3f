import PigBook.ReadCommitted.Each

/-
  Programs that run alone, to their end.

  When no other client is there, the surroundings are all
  that a program depends on besides its store.  An oracle
  answers for them, so that the run is a function.

  Key definitions include:
    * `Oracle`
    * `Prog.alone`, `Prog.runAlone`

  Key theorems include:
    * `Prog.alone_ok`, `Prog.alone_error`
    * `Prog.alone_each`
    * `Prog.alone_log`
-/

------------------------------------------------------------
-- Runs
------------------------------------------------------------

namespace ReadCommitted

/- How the surroundings answer after some statements. -/
abbrev Oracle (S : Sig) :=
  List (Action S) → (q : S.Query) → S.Answer q

/- What a program has executed, left and answered. -/
structure Alone (S : Sig) (σ α : Type) where
  log : List (Action S)
  db : σ
  result : Except S.Error α

namespace Prog

variable {S : Sig} {σ α : Type}

/-
  The run of a program after the statements `log`, with the
  store `s` and the view `v` of the open transaction.
-/
def alone
    (o : Oracle S) :
    Prog S σ α → List (Action S) → σ → σ → Alone S σ α
| done a, log, _, v => ⟨log, v, .ok a⟩
| fail e, log, s, _ => ⟨log, s, .error e⟩
| stmt q need write next, log, s, v =>
    (next v (o log q)).alone o
      (log ++ [⟨q, o log q, need v (o log q)⟩]) s
      (write v (o log q) v)
| commit next, log, _, v => next.alone o log v v
| rollback next, log, s, _ => next.alone o log s s

def runAlone
    (o : Oracle S)
    (p : Prog S σ α)
    (s : σ) : Alone S σ α :=
  p.alone o [] s s

end Prog

end ReadCommitted

------------------------------------------------------------
-- Rules
------------------------------------------------------------

namespace ReadCommitted

namespace Prog

variable {S : Sig} {σ α : Type} {o : Oracle S}
variable {post : List (Action S) → σ → α → Prop}
variable {err err' : List (Action S) → S.Error → Prop}
variable
  {ok :
    List (Action S) → σ → List S.Key → σ →
      Prog S σ α → Prop}
variable {log : List (Action S)} {s v : σ}

/- An answer satisfies the postcondition. -/
theorem alone_ok
    (p : Prog S σ α)
    (h : p.wp post err log v)
    {a : α}
    (hResult : (p.alone o log s v).result = .ok a) :
    post (p.alone o log s v).log (p.alone o log s v).db a := by
  induction p generalizing log v with
  | done b =>
      cases hResult
      exact h
  | fail e => cases hResult
  | stmt q need write next ih =>
      exact ih v (o log q) (h (o log q)) hResult
  | commit next ih => exact False.elim h
  | rollback next ih => exact False.elim h

/- An error satisfies its own, and the store is kept. -/
theorem alone_error
    (p : Prog S σ α)
    (h : p.wp post err log v)
    {e : S.Error}
    (hResult : (p.alone o log s v).result = .error e) :
    err (p.alone o log s v).log e ∧
      (p.alone o log s v).db = s := by
  induction p generalizing log v with
  | done b => cases hResult
  | fail e' =>
      cases hResult
      exact ⟨h, rfl⟩
  | stmt q need write next ih =>
      exact ih v (o log q) (h (o log q)) hResult
  | commit next ih => exact False.elim h
  | rollback next ih => exact False.elim h

/- So it does where each statement is known to be `ok`. -/
theorem alone_each
    (p : Prog S σ α)
    (h : p.wp post err log v)
    (hEach : p.each ok err' log v)
    {e : S.Error}
    (hResult : (p.alone o log s v).result = .error e) :
    err' (p.alone o log s v).log e := by
  induction p generalizing log v with
  | done b => cases hResult
  | fail e' =>
      cases hResult
      exact hEach
  | stmt q need write next ih =>
      exact
        ih v (o log q) (h (o log q)) (hEach (o log q)).2
          hResult
  | commit next ih => exact False.elim h
  | rollback next ih => exact False.elim h

/- What the answers of the oracle keep holds of the log. -/
theorem alone_log
    (p : Prog S σ α)
    {inv : List (Action S) → Prop}
    (hKeeps :
      ∀ log q keys, inv log → inv (log ++ [⟨q, o log q, keys⟩]))
    (hInv : inv log) :
    inv (p.alone o log s v).log := by
  induction p generalizing log s v with
  | done a => exact hInv
  | fail e => exact hInv
  | stmt q need write next ih =>
      exact ih _ _ (hKeeps log q _ hInv)
  | commit next ih => exact ih hInv
  | rollback next ih => exact ih hInv

end Prog

end ReadCommitted
