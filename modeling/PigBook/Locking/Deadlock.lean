import Mathlib

/-
  Transactions that take locks one after another, and keep
  them to their end.

  A wait-for graph has no cycle when the locks are taken in
  the order of a rank.  Requests out of order do no harm if
  nobody can hold a conflicting lock, or if those who hold one
  never wait.

  Key definitions include:
    * `Locks`, `Prog`
    * `Step`, `Reachable`
    * `WaitsFor`
    * `Discipline`, `Ranking`
    * `Prog.wp`

  Key theorems include:
    * `Reachable.acyclic`
-/

------------------------------------------------------------
-- Programs of Locks
------------------------------------------------------------

namespace Locking

/- Locks, and which of them two may not hold at once. -/
structure Locks where
  Key : Type
  Conflict : Key → Key → Prop
  symm : ∀ k k', Conflict k k' → Conflict k' k

/-
  A transaction as far as its locks go.  `lock` waits, and
  `tryLock` skips a lock that is taken.  What is read from the
  tables may be anything.  A savepoint is the number of locks
  that were held.
-/
inductive Prog (L : Locks) (α : Type) : Type 1
  | done (a : α)
  | lock (k : L.Key) (next : Prog L α)
  | tryLock (k : L.Key) (next : Bool → Prog L α)
  | read (β : Type) (next : β → Prog L α)
  | savepoint (next : ℕ → Prog L α)
  | rollbackTo (n : ℕ) (next : Prog L α)

namespace Prog

variable {L : Locks} {α β : Type}

def bind : Prog L α → (α → Prog L β) → Prog L β
| done a, f => f a
| lock k next, f => lock k (next.bind f)
| tryLock k next, f => tryLock k (fun b => (next b).bind f)
| read γ next, f => read γ (fun x => (next x).bind f)
| savepoint next, f => savepoint (fun n => (next n).bind f)
| rollbackTo n next, f => rollbackTo n (next.bind f)

instance : Monad (Prog L) where
  pure := done
  bind := bind

theorem bind_eq
    (p : Prog L α)
    (f : α → Prog L β) :
    p >>= f = p.bind f :=
  rfl

theorem pure_eq_done
    (a : α) :
    (pure a : Prog L α) = done a :=
  rfl

/- Take a lock, and wait for it if need be. -/
def acquire (k : L.Key) : Prog L Unit :=
  lock k (done ())

/- Take a lock unless somebody has it. -/
def acquireSkipLocked (k : L.Key) : Prog L Bool :=
  tryLock k done

/- Whatever a SELECT finds. -/
def select (β : Type) : Prog L β :=
  read β done

def mark : Prog L ℕ :=
  savepoint done

def releaseTo (n : ℕ) : Prog L Unit :=
  rollbackTo n (done ())

/- One program for each element of a list. -/
def each (f : β → Prog L Unit) : List β → Prog L Unit
| [] => done ()
| x :: xs => (f x).bind (fun _ => each f xs)

end Prog

end Locking

------------------------------------------------------------
-- Systems of Transactions
------------------------------------------------------------

namespace Locking

variable {L : Locks}

/- A transaction in flight, its latest lock first. -/
structure Holder (L : Locks) where
  held : List L.Key
  prog : Prog L Unit

abbrev State (L : Locks) := ℕ → Option (Holder L)

/- Nobody else holds what conflicts with the lock. -/
def Free
    (s : State L)
    (pid : ℕ)
    (k : L.Key) : Prop :=
  ∀ pid' tx', pid' ≠ pid → s pid' = some tx' →
    ∀ k' ∈ tx'.held, ¬ L.Conflict k k'

/- The locks that a rollback to the savepoint leaves. -/
def sinceBefore
    (n : ℕ)
    (ks : List L.Key) : List L.Key :=
  ks.drop (ks.length - n)

/-
  One step of any transaction.  A transaction may end at any
  time: by an early answer, by an error, or with its last
  statement.
-/
inductive Step
    (programs : Prog L Unit → Prop)
    (s : State L) : State L → Prop
  | begins
      {pid : ℕ} {p : Prog L Unit}
      (hNone : s pid = none)
      (hProgram : programs p) :
      Step programs s (Function.update s pid (some ⟨[], p⟩))
  | locks
      {pid : ℕ} {ks : List L.Key} {k : L.Key}
      {next : Prog L Unit}
      (hTx : s pid = some ⟨ks, .lock k next⟩)
      (hFree : Free s pid k) :
      Step programs s
        (Function.update s pid (some ⟨k :: ks, next⟩))
  | tries
      {pid : ℕ} {ks : List L.Key} {k : L.Key}
      {next : Bool → Prog L Unit}
      (hTx : s pid = some ⟨ks, .tryLock k next⟩)
      (hFree : Free s pid k) :
      Step programs s
        (Function.update s pid (some ⟨k :: ks, next true⟩))
  | skips
      {pid : ℕ} {ks : List L.Key} {k : L.Key}
      {next : Bool → Prog L Unit}
      (hTx : s pid = some ⟨ks, .tryLock k next⟩) :
      Step programs s
        (Function.update s pid (some ⟨ks, next false⟩))
  | reads
      {pid : ℕ} {ks : List L.Key} {β : Type}
      {next : β → Prog L Unit}
      (hTx : s pid = some ⟨ks, .read β next⟩)
      (x : β) :
      Step programs s
        (Function.update s pid (some ⟨ks, next x⟩))
  | marks
      {pid : ℕ} {ks : List L.Key}
      {next : ℕ → Prog L Unit}
      (hTx : s pid = some ⟨ks, .savepoint next⟩) :
      Step programs s
        (Function.update s pid (some ⟨ks, next ks.length⟩))
  | releases
      {pid : ℕ} {ks : List L.Key} {n : ℕ}
      {next : Prog L Unit}
      (hTx : s pid = some ⟨ks, .rollbackTo n next⟩) :
      Step programs s
        (Function.update s pid
          (some ⟨sinceBefore n ks, next⟩))
  | ends
      {pid : ℕ} {tx : Holder L}
      (hTx : s pid = some tx) :
      Step programs s (Function.update s pid none)

/- The states that transactions can get into. -/
def Reachable
    (programs : Prog L Unit → Prop)
    (s : State L) : Prop :=
  Relation.ReflTransGen (Step programs) (fun _ => none) s

/-
  The transaction waits for a lock that conflicts with one
  that the other holds.
-/
structure WaitsFor
    (s : State L)
    (pid pid' : ℕ) : Prop where
  other : pid' ≠ pid
  blocked :
    ∃ ks k next tx', s pid = some ⟨ks, .lock k next⟩ ∧
      s pid' = some tx' ∧
        ∃ k' ∈ tx'.held, L.Conflict k k'

/- The wait-for graph has no cycle. -/
def Acyclic (s : State L) : Prop :=
  ∀ pid, ¬ Relation.TransGen (WaitsFor s) pid pid

end Locking

------------------------------------------------------------
-- Disciplines
------------------------------------------------------------

namespace Locking

variable {L : Locks}

/- Which locks may be asked for while others are held. -/
structure Discipline (L : Locks) where
  requests : List L.Key → L.Key → Prop
  tries : List L.Key → L.Key → Prop

namespace Discipline

variable (D : Discipline L)

/- The locks that come together under the discipline. -/
inductive Held : List L.Key → Prop
  | nil : Held []
  | cons
      {ks : List L.Key} {k : L.Key}
      (hHeld : Held ks)
      (hRule : D.requests ks k ∨ D.tries ks k) :
      Held (k :: ks)

/- Nobody else can hold what conflicts with the request. -/
def Guarded (ks : List L.Key) (k : L.Key) : Prop :=
  ∀ ks', D.Held ks' → ∀ k' ∈ ks', L.Conflict k k' →
    ∃ g ∈ ks, ∃ g' ∈ ks', L.Conflict g g'

/- Those who hold what conflicts with it do not wait. -/
def Last (k : L.Key) : Prop :=
  ∀ ks', D.Held ks' → ∀ k' ∈ ks', L.Conflict k k' →
    ∀ k'', D.requests ks' k'' → D.Guarded ks' k''

/- A drop of the latest locks is under the discipline. -/
theorem Held.drop
    {D : Discipline L}
    {ks : List L.Key}
    (hHeld : D.Held ks)
    (n : ℕ) :
    D.Held (ks.drop n) := by
  induction n generalizing ks with
  | zero => exact hHeld
  | succ n ih =>
      cases hHeld with
      | nil => exact .nil
      | cons hRest _ => exact ih hRest

end Discipline

/-
  A rank of the locks.  Requests either climb, or are guarded,
  or are the last ones.
-/
structure Ranking (D : Discipline L) where
  rank : L.Key → ℕ
  conflict :
    ∀ {k k'}, L.Conflict k k' → rank k = rank k'
  order :
    ∀ {ks k}, D.Held ks → D.requests ks k →
      (∀ h ∈ ks, rank h < rank k) ∨ D.Guarded ks k ∨
        D.Last k

end Locking

------------------------------------------------------------
-- Preconditions
------------------------------------------------------------

namespace Locking

namespace Prog

variable {L : Locks} {D : Discipline L} {α β : Type}

/- The program keeps to the discipline from some locks on. -/
def wp
    (D : Discipline L)
    (post : α → List L.Key → Prop) :
    Prog L α → List L.Key → Prop
| done a, ks => post a ks
| lock k next, ks => D.requests ks k ∧ next.wp D post (k :: ks)
| tryLock k next, ks =>
    D.tries ks k ∧ (next true).wp D post (k :: ks) ∧
      (next false).wp D post ks
| read _ next, ks => ∀ x, (next x).wp D post ks
| savepoint next, ks => (next ks.length).wp D post ks
| rollbackTo n next, ks => next.wp D post (sinceBefore n ks)

variable {post post' : α → List L.Key → Prop}
variable {ks : List L.Key}

theorem wp_bind
    (p : Prog L β)
    (f : β → Prog L α) :
    (p.bind f).wp D post ks ↔
      p.wp D (fun b ks' => (f b).wp D post ks') ks := by
  induction p generalizing ks with
  | done b => rfl
  | lock k next ih => simp only [bind, wp, ih]
  | tryLock k next ih => simp only [bind, wp, ih]
  | read γ next ih => simp only [bind, wp, ih]
  | savepoint next ih => simp only [bind, wp, ih]
  | rollbackTo n next ih => simp only [bind, wp, ih]

theorem wp_mono
    (p : Prog L α)
    (hPost : ∀ a ks, post a ks → post' a ks)
    (h : p.wp D post ks) :
    p.wp D post' ks := by
  induction p generalizing ks with
  | done a => exact hPost a ks h
  | lock k next ih => exact ⟨h.1, ih h.2⟩
  | tryLock k next ih =>
      exact ⟨h.1, ih true h.2.1, ih false h.2.2⟩
  | read γ next ih => exact fun x => ih x (h x)
  | savepoint next ih => exact ih _ h
  | rollbackTo n next ih => exact ih h

/- What every turn keeps holds after all of them. -/
theorem wp_each
    {I : List L.Key → Prop}
    {f : β → Prog L Unit}
    (hTurn :
      ∀ x ks, I ks → (f x).wp D (fun _ ks' => I ks') ks)
    (xs : List β)
    (hStart : I ks) :
    (each f xs).wp D (fun _ ks' => I ks') ks := by
  induction xs generalizing ks with
  | nil => exact hStart
  | cons x xs ih =>
      unfold each
      rw [wp_bind]
      exact
        wp_mono _ (fun _ _ hNext => ih hNext)
          (hTurn x ks hStart)

/- The program keeps to the discipline from its beginning. -/
def Keeps
    (D : Discipline L)
    (p : Prog L Unit) : Prop :=
  p.wp D (fun _ _ => True) []

end Prog

end Locking

------------------------------------------------------------
-- No Cycles
------------------------------------------------------------

namespace Locking

variable {L : Locks} {D : Discipline L}
variable {programs : Prog L Unit → Prop}
variable {s : State L}

/- What holds of every transaction in flight. -/
structure Holder.Lawful
    (D : Discipline L)
    (tx : Holder L) : Prop where
  held : D.Held tx.held
  rest : tx.prog.wp D (fun _ _ => True) tx.held

/- Transactions are lawful, and their locks compatible. -/
structure Sound
    (D : Discipline L)
    (s : State L) : Prop where
  lawful : ∀ pid tx, s pid = some tx → tx.Lawful D
  compatible :
    ∀ pid tx, s pid = some tx → ∀ k ∈ tx.held, Free s pid k

theorem Sound.update
    (hSound : Sound D s)
    {pid : ℕ}
    {o : Option (Holder L)}
    (hLawful : ∀ tx, o = some tx → tx.Lawful D)
    (hFree :
      ∀ tx, o = some tx → ∀ k ∈ tx.held, Free s pid k) :
    Sound D (Function.update s pid o) where
  lawful := by
    intro pid' tx hTx
    by_cases hOwn : pid' = pid
    · subst hOwn
      rw [Function.update_self] at hTx
      exact hLawful tx hTx
    · rw [Function.update_of_ne hOwn] at hTx
      exact hSound.lawful pid' tx hTx
  compatible := by
    intro pid₁ tx₁ hTx₁ k hKey pid₂ tx₂ hNe hTx₂ k' hKey'
    by_cases hOwn₁ : pid₁ = pid
    · subst hOwn₁
      rw [Function.update_self] at hTx₁
      rw [Function.update_of_ne hNe] at hTx₂
      exact
        hFree tx₁ hTx₁ k hKey pid₂ tx₂ hNe hTx₂ k' hKey'
    · rw [Function.update_of_ne hOwn₁] at hTx₁
      by_cases hOwn₂ : pid₂ = pid
      · subst hOwn₂
        rw [Function.update_self] at hTx₂
        intro hConflict
        exact
          hFree tx₂ hTx₂ k' hKey' pid₁ tx₁ hNe.symm hTx₁ k
            hKey (L.symm k k' hConflict)
      · rw [Function.update_of_ne hOwn₂] at hTx₂
        exact
          hSound.compatible pid₁ tx₁ hTx₁ k hKey pid₂ tx₂
            hNe hTx₂ k' hKey'

/- A transaction that takes no new lock stays compatible. -/
theorem Sound.fewer
    (hSound : Sound D s)
    {pid : ℕ}
    {tx tx' : Holder L}
    (hTx : s pid = some tx)
    (hLawful : tx'.Lawful D)
    (hFewer : ∀ k ∈ tx'.held, k ∈ tx.held) :
    Sound D (Function.update s pid (some tx')) := by
  apply hSound.update
  · rintro _ ⟨⟩
    exact hLawful
  · rintro _ ⟨⟩ k hKey
    exact hSound.compatible pid tx hTx k (hFewer k hKey)

/- A lock that is free may be taken. -/
theorem Sound.more
    (hSound : Sound D s)
    {pid : ℕ}
    {tx : Holder L}
    {k : L.Key}
    {next : Prog L Unit}
    (hTx : s pid = some tx)
    (hFree : Free s pid k)
    (hLawful : Holder.Lawful D ⟨k :: tx.held, next⟩) :
    Sound D
      (Function.update s pid (some ⟨k :: tx.held, next⟩)) := by
  apply hSound.update
  · rintro _ ⟨⟩
    exact hLawful
  · rintro _ ⟨⟩ k' hKey
    rcases List.mem_cons.mp hKey with rfl | hOld
    · exact hFree
    · exact hSound.compatible pid tx hTx k' hOld

theorem Sound.step
    (hPrograms : ∀ p, programs p → p.Keeps D)
    {s' : State L}
    (hSound : Sound D s)
    (hStep : Step programs s s') :
    Sound D s' := by
  cases hStep with
  | @begins pid p hNone hProgram =>
      apply hSound.update
      · rintro _ ⟨⟩
        exact ⟨.nil, hPrograms p hProgram⟩
      · rintro _ ⟨⟩ k hKey
        cases hKey
  | @locks pid ks k next hTx hFree =>
      have hLawful := hSound.lawful pid _ hTx
      exact
        hSound.more hTx hFree
          ⟨hLawful.held.cons (Or.inl hLawful.rest.1),
            hLawful.rest.2⟩
  | @tries pid ks k next hTx hFree =>
      have hLawful := hSound.lawful pid _ hTx
      exact
        hSound.more hTx hFree
          ⟨hLawful.held.cons (Or.inr hLawful.rest.1),
            hLawful.rest.2.1⟩
  | skips hTx =>
      have hLawful := hSound.lawful _ _ hTx
      exact
        hSound.fewer hTx
          ⟨hLawful.held, hLawful.rest.2.2⟩ (fun _ hKey => hKey)
  | reads hTx x =>
      have hLawful := hSound.lawful _ _ hTx
      exact
        hSound.fewer hTx ⟨hLawful.held, hLawful.rest x⟩
          (fun _ hKey => hKey)
  | marks hTx =>
      have hLawful := hSound.lawful _ _ hTx
      exact
        hSound.fewer hTx ⟨hLawful.held, hLawful.rest⟩
          (fun _ hKey => hKey)
  | releases hTx =>
      have hLawful := hSound.lawful _ _ hTx
      exact
        hSound.fewer hTx
          ⟨hLawful.held.drop _, hLawful.rest⟩
          (fun _ hKey => List.mem_of_mem_drop hKey)
  | ends hTx =>
      apply hSound.update
      · rintro _ ⟨⟩
      · rintro _ ⟨⟩

theorem Reachable.sound
    (hPrograms : ∀ p, programs p → p.Keeps D)
    (hReach : Reachable programs s) :
    Sound D s := by
  induction hReach with
  | refl =>
      constructor
      · intro pid tx hTx
        cases hTx
      · intro pid tx hTx
        cases hTx
  | tail _ hStep ih => exact ih.step hPrograms hStep

/- The transaction waits for the lock. -/
def Requests
    (s : State L)
    (pid : ℕ)
    (ks : List L.Key)
    (k : L.Key) : Prop :=
  ∃ next, s pid = some ⟨ks, .lock k next⟩

open Classical in
/- The rank of a request, on top when it does not climb. -/
noncomputable def Ranking.height
    (R : Ranking D)
    (ks : List L.Key)
    (k : L.Key) : WithTop ℕ :=
  if ∀ h ∈ ks, R.rank h < R.rank k then R.rank k else ⊤

/- Whoever waits does not wait for a guarded lock. -/
theorem Sound.not_guarded
    (hSound : Sound D s)
    {pid pid' : ℕ}
    (hWaits : WaitsFor s pid pid')
    {ks : List L.Key}
    {k : L.Key}
    (hRequests : Requests s pid ks k) :
    ¬ D.Guarded ks k := by
  intro hGuarded
  rcases hRequests with ⟨next, hTx⟩
  rcases hWaits.blocked with
    ⟨ks₁, k₁, next₁, tx', hTx₁, hTx', k', hKey', hConflict⟩
  rw [hTx] at hTx₁
  cases hTx₁
  have hHeld := (hSound.lawful pid' tx' hTx').held
  rcases hGuarded tx'.held hHeld k' hKey' hConflict with
    ⟨g, hg, g', hg', hBoth⟩
  exact
    hSound.compatible pid _ hTx g hg pid' tx' hWaits.other
      hTx' g' hg' hBoth

/- Along the graph, the heights of the requests grow. -/
theorem Sound.height_lt
    (R : Ranking D)
    (hSound : Sound D s)
    {a b c : ℕ}
    (hWaits : WaitsFor s a b)
    (hNext : WaitsFor s b c)
    {ks ks' : List L.Key}
    {k k' : L.Key}
    (hRequests : Requests s a ks k)
    (hRequests' : Requests s b ks' k') :
    R.height ks k < R.height ks' k' := by
  have hNot := hSound.not_guarded hWaits hRequests
  have hNot' := hSound.not_guarded hNext hRequests'
  rcases hRequests with ⟨next, hTx⟩
  rcases hRequests' with ⟨next', hTx'⟩
  rcases hWaits.blocked with
    ⟨ks₁, k₁, next₁, tx', hTx₁, hTx₂, h, hKey, hConflict⟩
  rw [hTx] at hTx₁
  cases hTx₁
  rw [hTx'] at hTx₂
  cases hTx₂
  have hLawful := hSound.lawful a _ hTx
  have hLawful' := hSound.lawful b _ hTx'
  have hClimbs : ∀ h ∈ ks, R.rank h < R.rank k := by
    rcases R.order hLawful.held hLawful.rest.1 with
      hClimbs | hGuarded | hLast
    · exact hClimbs
    · exact absurd hGuarded hNot
    · exact
        absurd
          (hLast ks' hLawful'.held h hKey hConflict k'
            hLawful'.rest.1)
          hNot'
  unfold Ranking.height
  rw [if_pos hClimbs]
  split
  · rename_i hClimbs'
    rw [R.conflict hConflict]
    exact WithTop.coe_lt_coe.mpr (hClimbs' h hKey)
  · exact WithTop.coe_lt_top _

theorem WaitsFor.requests
    {pid pid' : ℕ}
    (hWaits : WaitsFor s pid pid') :
    ∃ ks k, Requests s pid ks k := by
  rcases hWaits.blocked with
    ⟨ks, k, next, tx', hTx, -⟩
  exact ⟨ks, k, next, hTx⟩

/- A path that can be continued climbs. -/
theorem Sound.path_height_lt
    (R : Ranking D)
    (hSound : Sound D s)
    {a b c : ℕ}
    (hPath : Relation.TransGen (WaitsFor s) a b)
    (hNext : WaitsFor s b c)
    {ks ks' : List L.Key}
    {k k' : L.Key}
    (hRequests : Requests s a ks k)
    (hRequests' : Requests s b ks' k') :
    R.height ks k < R.height ks' k' := by
  induction hPath generalizing c ks' k' with
  | single hWaits =>
      exact
        hSound.height_lt R hWaits hNext hRequests hRequests'
  | tail hPath hWaits ih =>
      rcases hWaits.requests with ⟨ks₁, k₁, hRequests₁⟩
      exact
        (ih hWaits hRequests₁).trans
          (hSound.height_lt R hWaits hNext hRequests₁
            hRequests')

/-
  Transactions that keep to a ranked discipline never wait in
  a circle.
-/
theorem Reachable.acyclic
    (R : Ranking D)
    (hPrograms : ∀ p, programs p → p.Keeps D)
    (hReach : Reachable programs s) :
    Acyclic s := by
  intro pid hCycle
  have hSound := hReach.sound hPrograms
  have hWaits : ∃ pid', WaitsFor s pid pid' := by
    rcases Relation.TransGen.head'_iff.mp hCycle with
      ⟨pid', hWaits, -⟩
    exact ⟨pid', hWaits⟩
  rcases hWaits with ⟨pid', hWaits⟩
  rcases hWaits.requests with ⟨ks, k, hRequests⟩
  exact
    lt_irrefl _
      (hSound.path_height_lt R hCycle hWaits hRequests
        hRequests)

end Locking
