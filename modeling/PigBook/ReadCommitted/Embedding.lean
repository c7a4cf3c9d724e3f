import PigBook.ReadCommitted.Outline
import PigBook.ReadCommitted.Schedule

/-
  Programs over a part of the store.

  An embedding says how a signature and a store sit inside
  larger ones; a program over the part is then a program over
  the whole.  Two signatures have a sum, in which each one is
  embedded.

  Key definitions include:
    * `Embedding`, `Embedding.refl`
    * `Prog.embed`
    * `Sig.sum`, `Embedding.inl`, `Embedding.inr`
    * `Prog.Single`, `Sys.Amid`, `Prog.Spares`

  Key theorems include:
    * `Prog.embed_bind`
    * `Prog.rwp_embed_select`
    * `Prog.Single.rwp_embed`
    * `Sys.amid_spawned`
    * `Prog.Spares.rwp`
-/

------------------------------------------------------------
-- Embeddings
------------------------------------------------------------

namespace ReadCommitted

/- One signature and store as a part of others. -/
structure Embedding
    (S S' : Sig)
    (σ σ' : Type) where
  key : S.Key → S'.Key
  query : S.Query → S'.Query
  answer : (q : S.Query) → S'.Answer (query q) → S.Answer q
  error : S.Error → S'.Error
  get : σ' → σ
  put : σ → σ' → σ'
  get_put : ∀ s t, get (put s t) = s
  put_get : ∀ t, put (get t) t = t
  put_put : ∀ s s' t, put s (put s' t) = put s t

namespace Embedding

variable {S S' : Sig} {σ σ' : Type}

/- A change of the part as a change of the whole. -/
def lift
    (E : Embedding S S' σ σ')
    (w : σ → σ) : σ' → σ' :=
  fun t => E.put (w (E.get t)) t

variable (E : Embedding S S' σ σ')

@[simp] theorem get_lift
    (w : σ → σ)
    (t : σ') :
    E.get (E.lift w t) = w (E.get t) :=
  E.get_put _ _

@[simp] theorem lift_id :
    E.lift id = id := by
  funext t
  exact E.put_get t

@[simp] theorem lift_lift
    (w w' : σ → σ)
    (t : σ') :
    E.lift w (E.lift w' t) = E.lift (fun s => w (w' s)) t := by
  simp only [lift, E.get_put, E.put_put]

theorem comp_lift
    (w w' : σ → σ) :
    (fun t => E.lift w (E.lift w' t)) =
      E.lift (fun s => w (w' s)) := by
  funext t
  exact E.lift_lift w w' t

/- The part that is the whole. -/
def refl : Embedding S S σ σ where
  key := id
  query := id
  answer := fun _ a => a
  error := id
  get := id
  put := fun s _ => s
  get_put := fun _ _ => rfl
  put_get := fun _ => rfl
  put_put := fun _ _ _ => rfl

@[simp] theorem refl_lift
    (w : σ → σ) :
    (refl : Embedding S S σ σ).lift w = w :=
  rfl

end Embedding

namespace Prog

variable {S S' : Sig} {σ σ' α β : Type}

/- A program over the part, run in the whole. -/
def embed
    (E : Embedding S S' σ σ') :
    Prog S σ α → Prog S' σ' α
| done a => done a
| fail e => fail (E.error e)
| stmt q need write next =>
    stmt (E.query q)
      (fun t a => (need (E.get t) (E.answer q a)).map E.key)
      (fun t a => E.lift (write (E.get t) (E.answer q a)))
      (fun t a => (next (E.get t) (E.answer q a)).embed E)
| commit next => commit (next.embed E)
| rollback next => rollback (next.embed E)

variable (E : Embedding S S' σ σ')

@[simp] theorem embed_done
    (a : α) :
    (done a : Prog S σ α).embed E = done a :=
  rfl

@[simp] theorem embed_fail
    (e : S.Error) :
    (fail e : Prog S σ α).embed E = fail (E.error e) :=
  rfl

@[simp] theorem embed_save :
    (save : Prog S σ Unit).embed E = save :=
  rfl

@[simp] theorem embed_undo :
    (undo : Prog S σ Unit).embed E = undo :=
  rfl

@[simp] theorem embed_bind
    (p : Prog S σ α)
    (f : α → Prog S σ β) :
    (p.bind f).embed E =
      (p.embed E).bind (fun a => (f a).embed E) := by
  induction p with
  | done a => rfl
  | fail e => rfl
  | stmt q need write next ih =>
      simp only [bind, embed, ih]
  | commit next ih => simp only [bind, embed, ih]
  | rollback next ih => simp only [bind, embed, ih]

theorem embed_refl
    (p : Prog S σ α) :
    p.embed Embedding.refl = p := by
  induction p with
  | done a => rfl
  | fail e => rfl
  | stmt q need write next ih =>
      change
        stmt q (fun t a => (need t a).map id) write
            (fun t a => (next t a).embed Embedding.refl) = _
      simp only [List.map_id, ih]
  | commit next ih => rw [embed, ih]
  | rollback next ih => rw [embed, ih]

end Prog

end ReadCommitted

------------------------------------------------------------
-- Rules for Embedded Statements
------------------------------------------------------------

namespace ReadCommitted

namespace Prog

variable {S S' : Sig} {W : World S'} {σ σ' α β : Type}
variable {R : Rules W σ' α} {E : Embedding S S' σ σ'}
variable {pid : ℕ} {log : List (Action S')} {w : σ' → σ'}
variable {c : Config W σ' α} {q : S.Query}

theorem rwp_embed_ask
    {post :
      S.Answer q → List (Action S') → (σ' → σ') →
        Config W σ' α → Prop}
    (hSilent : R.Silent (E.query q))
    (h :
      ∀ a c',
        R.Ran pid (held log) ⟨E.query q, a, []⟩ c c' →
          post (E.answer q a)
            (log ++ [⟨E.query q, a, []⟩]) w c') :
    ((ask q).embed E).rwp R pid post log w c := by
  apply rwp_stmt_of_silent hSilent
  intro a c' hRan
  have hSame : (fun t => E.lift (fun s => s) (w t)) = w := by
    funext t
    exact congrFun E.lift_id (w t)
  change post _ _ (fun t => E.lift (fun s => s) (w t)) c'
  rw [hSame]
  exact h a c' hRan

theorem rwp_embed_select
    {need : σ → List S.Key}
    {f : σ → β}
    {post :
      β → List (Action S') → (σ' → σ') →
        Config W σ' α → Prop}
    (hSilent : R.Silent (E.query q))
    (h :
      ∀ a c',
        R.Ran pid (held log)
            ⟨E.query q, a,
              (need (E.get (w c'.db))).map E.key⟩ c c' →
          post (f (E.get (w c'.db)))
            (log ++
              [⟨E.query q, a,
                (need (E.get (w c'.db))).map E.key⟩])
            w c') :
    ((select q need f).embed E).rwp R pid post log w c := by
  apply rwp_stmt_of_silent hSilent
  intro a c' hRan
  have hSame : (fun t => E.lift (fun s => s) (w t)) = w := by
    funext t
    exact congrFun E.lift_id (w t)
  change post _ _ (fun t => E.lift (fun s => s) (w t)) c'
  rw [hSame]
  exact h a c' hRan

theorem rwp_embed_stmt
    {need : σ → S.Answer q → List S.Key}
    {write : σ → S.Answer q → σ → σ}
    {next : σ → S.Answer q → Prog S σ β}
    {post :
      β → List (Action S') → (σ' → σ') →
        Config W σ' α → Prop}
    (hSilent : R.Silent (E.query q))
    (h :
      ∀ a c',
        R.Ran pid (held log)
            ⟨E.query q, a,
              (need (E.get (w c'.db)) (E.answer q a)).map
                E.key⟩ c c' →
          ((next (E.get (w c'.db)) (E.answer q a)).embed
            E).rwp R pid post
            (log ++
              [⟨E.query q, a,
                (need (E.get (w c'.db)) (E.answer q a)).map
                  E.key⟩])
            (fun t =>
              E.lift (write (E.get (w c'.db)) (E.answer q a))
                (w t))
            c') :
    ((stmt q need write next).embed E).rwp R pid post
      log w c :=
  rwp_stmt_of_silent hSilent h

end Prog

end ReadCommitted

------------------------------------------------------------
-- Sums
------------------------------------------------------------

namespace ReadCommitted

namespace Sig

/- Keys of the same summand conflict as they do there. -/
def SumConflict
    (S T : Sig) : S.Key ⊕ T.Key → S.Key ⊕ T.Key → Prop
| .inl k, .inl k' => S.Conflict k k'
| .inr k, .inr k' => T.Conflict k k'
| _, _ => False

/- Two signatures side by side. -/
def sum (S T : Sig) : Sig where
  Key := S.Key ⊕ T.Key
  Conflict := SumConflict S T
  symm := by
    rintro (k | k) (k' | k') hConflict
    · exact S.symm k k' hConflict
    · exact hConflict
    · exact hConflict
    · exact T.symm k k' hConflict
  Query := S.Query ⊕ T.Query
  Answer := Sum.elim S.Answer T.Answer
  Error := S.Error ⊕ T.Error

instance
    (S T : Sig)
    [DecidableRel S.Conflict]
    [DecidableRel T.Conflict] :
    DecidableRel (S.sum T).Conflict
| .inl k, .inl k' =>
    inferInstanceAs (Decidable (S.Conflict k k'))
| .inr k, .inr k' =>
    inferInstanceAs (Decidable (T.Conflict k k'))
| .inl _, .inr _ => inferInstanceAs (Decidable False)
| .inr _, .inl _ => inferInstanceAs (Decidable False)

end Sig

namespace Embedding

variable (S T : Sig) (σ τ : Type)

/- The first component of a product store. -/
def inl : Embedding S (S.sum T) σ (σ × τ) where
  key := Sum.inl
  query := Sum.inl
  answer := fun _ a => a
  error := Sum.inl
  get := Prod.fst
  put := fun s t => (s, t.2)
  get_put := fun _ _ => rfl
  put_get := fun _ => rfl
  put_put := fun _ _ _ => rfl

/- The second component of a product store. -/
def inr : Embedding T (S.sum T) τ (σ × τ) where
  key := Sum.inr
  query := Sum.inr
  answer := fun _ a => a
  error := Sum.inr
  get := Prod.snd
  put := fun s t => (t.1, s)
  get_put := fun _ _ => rfl
  put_get := fun _ => rfl
  put_put := fun _ _ _ => rfl

end Embedding

end ReadCommitted

------------------------------------------------------------
-- Single Transactions
------------------------------------------------------------

namespace ReadCommitted

namespace Prog

variable {S S' : Sig} {σ σ' α β γ : Type}

/- The program does not end its transaction on the way. -/
def Single : Prog S σ α → Prop
| done _ => True
| fail _ => True
| stmt _ _ _ next => ∀ s a, (next s a).Single
| commit _ => False
| rollback _ => False

theorem Single.bind
    {p : Prog S σ α}
    {f : α → Prog S σ β}
    (hSingle : p.Single)
    (hNext : ∀ a, (f a).Single) :
    (p.bind f).Single := by
  induction p with
  | done a => exact hNext a
  | fail e => trivial
  | stmt q need write next ih =>
      intro s a
      exact ih s a (hSingle s a)
  | commit next ih => exact hSingle
  | rollback next ih => exact hSingle

theorem Single.embed
    {p : Prog S σ α}
    {E : Embedding S S' σ σ'}
    (hSingle : p.Single) :
    (p.embed E).Single := by
  induction p with
  | done a => trivial
  | fail e => trivial
  | stmt q need write next ih =>
      intro s a
      exact ih _ _ (hSingle _ _)
  | commit next ih => exact hSingle
  | rollback next ih => exact hSingle

variable {W : World S'} {R : Rules W σ' γ}
variable {E : Embedding S S' σ σ'} {pid : ℕ}
variable
  {post :
    α → List (Action S') → (σ' → σ') → Config W σ' γ → Prop}

/-
  A single transaction over a part of the store, whose
  questions are silent and whose errors are free.  What holds
  before it and survives its changes to the part holds after
  it.
-/
theorem Single.rwp_embed
    {I : List (Action S') → (σ' → σ') → Config W σ' γ → Prop}
    (hSilent : ∀ q, R.Silent (E.query q))
    (hLenient : R.Lenient)
    (hStep :
      ∀ log w c act c' f,
        I log w c → R.Ran pid (held log) act c c' →
          I (log ++ [act]) (fun t => E.lift f (w t)) c')
    (hPost : ∀ a log w c, I log w c → post a log w c)
    {p : Prog S σ α}
    (hSingle : p.Single)
    {log : List (Action S')}
    {w : σ' → σ'}
    {c : Config W σ' γ}
    (hInv : I log w c) :
    (p.embed E).rwp R pid post log w c := by
  induction p generalizing log w c with
  | done a => exact hPost a log w c hInv
  | fail e => exact rwp_fail_of_lenient hLenient _
  | stmt q need write next ih =>
      apply rwp_stmt_of_silent (hSilent q)
      intro a c' hRan
      apply ih _ _ (hSingle _ _)
      exact hStep log w c _ c' _ hInv hRan
  | commit next ih => exact hSingle.elim
  | rollback next ih => exact hSingle.elim

end Prog

end ReadCommitted

------------------------------------------------------------
-- Clients of Single Transactions
------------------------------------------------------------

namespace ReadCommitted.Sys

variable {S : Sig} {W : World S} {σ α : Type}
variable {sim : Simulator W} {pids : List ℕ}
variable {pid : ℕ} {p : Prog S σ α} {s : Sys W σ α}

/- The client, if there is one, is in the program's midst. -/
def Amid
    (pid : ℕ)
    (p : Prog S σ α)
    (s : Sys W σ α) : Prop :=
  ∀ pr, s.procs pid = some pr →
    pr.start = p ∧ pr.prog.Single

theorem Amid.update
    (s' : Sys W σ α)
    {o : Option (Proc S σ α)}
    (hProcs : s'.procs = Function.update s.procs pid o)
    (hClient : ∀ pr ∈ o, pr.start = p ∧ pr.prog.Single) :
    s'.Amid pid p := by
  intro pr hProc
  rw [hProcs, Function.update_self] at hProc
  exact hClient pr hProc

variable [DecidableRel S.Conflict]

theorem Amid.step
    (hAmid : s.Amid pid p) :
    (s.move sim pids (.step pid)).Amid pid p := by
  simp only [move]
  split
  · exact hAmid
  rename_i pr hProc
  rcases hAmid pr hProc with ⟨hStart, hSingle⟩
  unfold stepClient
  split
  · rename_i q need write next hProg
    rw [hProg] at hSingle
    dsimp only
    split
    · apply Amid.update _ rfl
      intro pr' hMem
      rw [Option.mem_some_iff] at hMem
      rw [← hMem]
      exact ⟨hStart, hSingle _ _⟩
    · exact hAmid
  · exact Amid.update _ rfl (fun _ hMem => by cases hMem)
  · rename_i next hProg
    rw [hProg] at hSingle
    exact hSingle.elim
  · rename_i next hProg
    rw [hProg] at hSingle
    exact hSingle.elim
  · exact Amid.update _ rfl (fun _ hMem => by cases hMem)

/- A client that is begun stays in its program's midst. -/
theorem amid_spawned
    (n : ℕ)
    (hIdle : (s.procs pid).isNone)
    (hPid : pid ∈ pids)
    (hSingle : p.Single) :
    (s.exec sim pids
      (.spawn pid p :: List.replicate n (.step pid))).Amid
        pid p := by
  have hSteps :
      ∀ n, ∀ t : Sys W σ α, t.Amid pid p →
        (t.exec sim pids
          (List.replicate n (.step pid))).Amid pid p := by
    intro n
    induction n with
    | zero => exact fun _ hAmid => hAmid
    | succ n ih => exact fun _ hAmid => ih _ hAmid.step
  apply hSteps n
  simp only [move]
  rw [Option.isNone_iff_eq_none.mp hIdle]
  dsimp only
  rw [if_pos hPid]
  apply Amid.update _ rfl
  intro pr hMem
  rw [Option.mem_some_iff] at hMem
  rw [← hMem]
  exact ⟨rfl, hSingle⟩

end ReadCommitted.Sys

------------------------------------------------------------
-- What Programs Leave Alone
------------------------------------------------------------

namespace ReadCommitted

namespace Prog

variable {S S' : Sig} {σ σ' α β γ δ : Type} {f : σ → δ}

/- No statement of the program changes what `f` reads. -/
def Spares (f : σ → δ) : Prog S σ α → Prop
| done _ => True
| fail _ => True
| stmt _ _ write next =>
    ∀ s a,
      (∀ t, f (write s a t) = f t) ∧ (next s a).Spares f
| commit next => next.Spares f
| rollback next => next.Spares f

theorem Spares.bind
    {p : Prog S σ α}
    {g : α → Prog S σ β}
    (hSpares : p.Spares f)
    (hNext : ∀ a, (g a).Spares f) :
    (p.bind g).Spares f := by
  induction p with
  | done a => exact hNext a
  | fail e => trivial
  | stmt q need write next ih =>
      intro s a
      exact ⟨(hSpares s a).1, ih s a (hSpares s a).2⟩
  | commit next ih => exact ih hSpares
  | rollback next ih => exact ih hSpares

/- Reading spares everything. -/
theorem Spares.select
    {q : S.Query}
    {need : σ → List S.Key}
    {g : σ → β} :
    (select q need g).Spares f :=
  fun _ _ => ⟨fun _ => rfl, trivial⟩

/- There is always something that is spared. -/
theorem spares_const
    (d : δ)
    (p : Prog S σ α) :
    p.Spares (fun _ => d) := by
  induction p with
  | done a => trivial
  | fail e => trivial
  | stmt q need write next ih =>
      exact fun s a => ⟨fun _ => rfl, ih s a⟩
  | commit next ih => exact ih
  | rollback next ih => exact ih

/- A program over a part spares whatever lies outside. -/
theorem Spares.embed
    {E : Embedding S S' σ σ'}
    {f : σ' → δ}
    (hPart : ∀ s t, f (E.put s t) = f t)
    (p : Prog S σ α) :
    (p.embed E).Spares f := by
  induction p with
  | done a => trivial
  | fail e => trivial
  | stmt q need write next ih =>
      intro s a
      exact ⟨fun t => hPart _ t, ih _ _⟩
  | commit next ih => exact ih
  | rollback next ih => exact ih

variable {W : World S} {R : Rules W σ γ} {pid : ℕ}
variable
  {post :
    α → List (Action S) → (σ → σ) → Config W σ γ → Prop}

/-
  A program that spares `f`, where any commit that spares it
  is right.
-/
theorem Spares.rwp
    (hSilent : ∀ q, R.Silent q)
    (hLenient : R.Lenient)
    (hCommits :
      ∀ log w c, R.good c → (∀ t, f (w t) = f t) →
        R.Commits pid log w none c)
    (hPost :
      ∀ a log w c, (∀ t, f (w t) = f t) → post a log w c)
    {p : Prog S σ α}
    (hSpares : p.Spares f)
    {log : List (Action S)}
    {w : σ → σ}
    {c : Config W σ γ}
    (hWrites : ∀ t, f (w t) = f t) :
    p.rwp R pid post log w c := by
  induction p generalizing log w c with
  | done a => exact hPost a log w c hWrites
  | fail e => exact rwp_fail_of_lenient hLenient _
  | stmt q need write next ih =>
      apply rwp_stmt_of_silent (hSilent q)
      intro a c' hRan
      apply ih _ _ (hSpares _ _).2
      intro t
      rw [(hSpares _ _).1, hWrites]
  | commit next ih =>
      intro c' hGood hRely
      exact ⟨hCommits log w c' hGood hWrites,
        ih hSpares (fun _ => rfl)⟩
  | rollback next ih =>
      intro c' hGood hRely
      exact ih hSpares (fun _ => rfl)

/-
  A single transaction that spares `f`.  What each statement
  keeps holds after the last one.
-/
theorem Spares.rwp_single
    {I : List (Action S) → Config W σ γ → Prop}
    (hSilent : ∀ q, R.Silent q)
    (hLenient : R.Lenient)
    (hStep :
      ∀ log act c c', I log c →
        R.Ran pid (held log) act c c' → I (log ++ [act]) c')
    (hPost :
      ∀ a log w c, I log c → (∀ t, f (w t) = f t) →
        post a log w c)
    {p : Prog S σ α}
    (hSingle : p.Single)
    (hSpares : p.Spares f)
    {log : List (Action S)}
    {w : σ → σ}
    {c : Config W σ γ}
    (hInv : I log c)
    (hWrites : ∀ t, f (w t) = f t) :
    p.rwp R pid post log w c := by
  induction p generalizing log w c with
  | done a => exact hPost a log w c hInv hWrites
  | fail e => exact rwp_fail_of_lenient hLenient _
  | stmt q need write next ih =>
      apply rwp_stmt_of_silent (hSilent q)
      intro a c' hRan
      apply ih _ _ (hSingle _ _) (hSpares _ _).2
      · exact hStep log _ c c' hInv hRan
      · intro t
        rw [(hSpares _ _).1, hWrites]
  | commit next ih => exact hSingle.elim
  | rollback next ih => exact hSingle.elim

end Prog

end ReadCommitted
