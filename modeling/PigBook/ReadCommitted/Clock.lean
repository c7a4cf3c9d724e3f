import Mathlib.Order.Defs.PartialOrder
import PigBook.ReadCommitted.Partition

/-
  Samples of a clock that does not run backwards.

  A key that conflicts with itself is held by one transaction
  at a time, so the samples that transactions take under it
  are ordered as their commits are.

  Key definitions include:
    * `Clock`
    * `Clock.TakenUnder`, `Clock.InOrder`
    * `Clock.SampledUnder`, `Clock.Ordered`

  Key theorems include:
    * `Reachable.samples_in_order`
    * `Reachable.samples_ordered`
    * `Reachable.samples_past`
-/

------------------------------------------------------------
-- Clocks
------------------------------------------------------------

namespace ReadCommitted

variable {S : Sig} {T : Type} [Preorder T]

/-
  A clock of the surroundings, and the statements that read
  it.
-/
structure Clock
    (W : World S)
    (T : Type)
    [Preorder T] where
  time : W.Carrier → T
  reads : Action S → T → Prop
  answered :
    ∀ {env env' : W.Carrier} {q : S.Query} {a : S.Answer q},
      W.answers env q a env' → time env ≤ time env'
  current :
    ∀ {env env' : W.Carrier} {q : S.Query} {a : S.Answer q}
      {keys : List S.Key} {t : T},
      W.answers env q a env' → reads ⟨q, a, keys⟩ t →
        t = time env
  advanced :
    ∀ {env env' : W.Carrier},
      W.advance env env' → time env ≤ time env'

namespace Clock

variable {W : World S} (K : Clock W T)

/- The log reads `t` once it holds the key. -/
def SampledUnder
    (k : S.Key)
    (log : List (Action S))
    (t : T) : Prop :=
  ∃ before act after,
    log = before ++ act :: after ∧ K.reads act t ∧
      k ∈ held before

/- The log reads `t` with the statement that gets the key. -/
def TakenUnder
    (k : S.Key)
    (log : List (Action S))
    (t : T) : Prop :=
  ∃ before act after,
    log = before ++ act :: after ∧ K.reads act t ∧
      k ∈ held (before ++ [act])

variable {K} {k : S.Key} {log : List (Action S)} {t : T}

theorem SampledUnder.taken
    (hSampled : K.SampledUnder k log t) :
    K.TakenUnder k log t := by
  rcases hSampled with
    ⟨before, act, after, hLog, hReads, hHeld⟩
  refine ⟨before, act, after, hLog, hReads, ?_⟩
  rw [held_append]
  exact List.mem_append_left _ hHeld

theorem TakenUnder.held
    (hTaken : K.TakenUnder k log t) :
    k ∈ ReadCommitted.held log := by
  rcases hTaken with ⟨before, act, after, rfl, -, hHeld⟩
  rw [← List.singleton_append, ← List.append_assoc,
    held_append]
  exact List.mem_append_left _ hHeld

theorem not_takenUnder_nil :
    ¬ K.TakenUnder k [] t := by
  rintro ⟨before, act, after, hLog, -⟩
  cases before <;> cases hLog

/- A sample is an old one, or the last statement. -/
theorem TakenUnder.cases_concat
    {act : Action S}
    (hTaken : K.TakenUnder k (log ++ [act]) t) :
    K.TakenUnder k log t ∨ K.reads act t := by
  rcases hTaken with
    ⟨before, act', after, hLog, hReads, hHeld⟩
  rcases List.eq_nil_or_concat after with
    rfl | ⟨after', last, rfl⟩
  · have hSplit := List.append_inj' hLog rfl
    cases hSplit.2
    exact Or.inr hReads
  · rw [List.concat_eq_append, ← List.cons_append,
      ← List.append_assoc] at hLog
    rw [(List.append_inj' hLog rfl).1]
    exact Or.inl ⟨before, act', after', rfl, hReads, hHeld⟩

variable {σ α : Type}

/- The first commit is the later one, and samples later. -/
def InOrder
    (K : Clock W T)
    (k : S.Key)
    (c c' : Commit S σ α) : Prop :=
  ∀ t t', K.TakenUnder k c.log t →
    K.TakenUnder k c'.log t' → t' ≤ t

/- The first commit is the later one. -/
def Ordered
    (K : Clock W T)
    (k : S.Key)
    (c c' : Commit S σ α) : Prop :=
  ∀ t t', K.SampledUnder k c.log t →
    K.SampledUnder k c'.log t' → t' ≤ t

end Clock

end ReadCommitted

------------------------------------------------------------
-- The Order of the Samples
------------------------------------------------------------

namespace ReadCommitted

variable {S : Sig} {W : World S} {σ α T : Type} [Preorder T]
variable {programs : Prog S σ α → Prop}

/- What an act does to the history and to the surroundings. -/
theorem Acts.recorded
    {c c' : Config W σ α}
    {pid : ℕ}
    {o o' : Option (Proc S σ α)}
    {keys : List S.Key}
    (hActs : Acts programs c pid o keys c' o') :
    (commits c'.trace = commits c.trace ∨
      ∃ pr x, o = some pr ∧ x.log = pr.log ∧
        commits c'.trace = x :: commits c.trace) ∧
    (c'.env = c.env ∨
      ∃ q a, W.answers c.env q a c'.env) := by
  cases hActs with
  | spawn hProgram => exact ⟨Or.inl rfl, Or.inl rfl⟩
  | run hProg hAnswer =>
      exact ⟨Or.inl rfl, Or.inr ⟨_, _, hAnswer⟩⟩
  | commit hProg =>
      exact ⟨Or.inr ⟨_, _, rfl, rfl, rfl⟩, Or.inl rfl⟩
  | finish hProg =>
      exact ⟨Or.inr ⟨_, _, rfl, rfl, rfl⟩, Or.inl rfl⟩
  | rollback hProg => exact ⟨Or.inl rfl, Or.inl rfl⟩
  | abort hProg => exact ⟨Or.inl rfl, Or.inl rfl⟩
  | crash => exact ⟨Or.inl rfl, Or.inl rfl⟩

namespace Clock

variable {K : Clock W T} {k : S.Key}

theorem time_le
    {c c' : Config W σ α}
    (hEnv :
      c'.env = c.env ∨
        ∃ q a, W.answers c.env q a c'.env) :
    K.time c.env ≤ K.time c'.env := by
  rcases hEnv with hSame | ⟨q, a, hAnswer⟩
  · rw [hSame]
  · exact K.answered hAnswer

/- The committed samples are in order, and in the past. -/
def History
    (K : Clock W T)
    (k : S.Key)
    (c : Config W σ α) : Prop :=
  (commits c.trace).Pairwise (K.InOrder k) ∧
    ∀ x ∈ commits c.trace, ∀ t,
      K.TakenUnder k x.log t → t ≤ K.time c.env

/- A client has sampled after the commits, in the past. -/
def Sampling
    (K : Clock W T)
    (k : S.Key)
    (c : Config W σ α)
    (_pid : ℕ)
    (pr : Proc S σ α) : Prop :=
  ∀ t, K.TakenUnder k pr.log t →
    t ≤ K.time c.env ∧
      ∀ x ∈ commits c.trace, ∀ t',
        K.TakenUnder k x.log t' → t' ≤ t

/- A client that has just begun has taken no sample. -/
theorem Sampling.begin
    {c : Config W σ α}
    {pid : ℕ}
    {p : Prog S σ α} :
    K.Sampling k c pid (Proc.begin p) :=
  fun _ hTaken => absurd hTaken not_takenUnder_nil

theorem History.acts
    {c c' : Config W σ α}
    {pid : ℕ}
    {o o' : Option (Proc S σ α)}
    {keys : List S.Key}
    (hActs : Acts programs c pid o keys c' o')
    (hHistory : K.History k c)
    (hSampling :
      ∀ pr, o = some pr → K.Sampling k c pid pr) :
    K.History k c' := by
  rcases hActs.recorded with ⟨hCommits, hEnv⟩
  have hTime : K.time c.env ≤ K.time c'.env := time_le hEnv
  rcases hCommits with hSame | ⟨pr, x, hSome, hLog, hNew⟩
  · refine ⟨?_, ?_⟩
    · rw [hSame]
      exact hHistory.1
    · rw [hSame]
      intro x hx t hTaken
      exact le_trans (hHistory.2 x hx t hTaken) hTime
  · refine ⟨?_, ?_⟩
    · rw [hNew]
      refine List.pairwise_cons.mpr ⟨?_, hHistory.1⟩
      intro y hy t t' hLater hEarlier
      rw [hLog] at hLater
      exact (hSampling pr hSome t hLater).2 y hy t' hEarlier
    · rw [hNew]
      intro y hy t hTaken
      rcases List.mem_cons.mp hy with rfl | hOld
      · rw [hLog] at hTaken
        exact le_trans (hSampling pr hSome t hTaken).1 hTime
      · exact le_trans (hHistory.2 y hOld t hTaken) hTime

theorem Sampling.acts
    {c c' : Config W σ α}
    {pid : ℕ}
    {o : Option (Proc S σ α)}
    {pr' : Proc S σ α}
    {keys : List S.Key}
    (hActs : Acts programs c pid o keys c' (some pr'))
    (hHistory : K.History k c)
    (hSampling :
      ∀ pr, o = some pr → K.Sampling k c pid pr) :
    K.Sampling k c' pid pr' := by
  cases hActs with
  | spawn hProgram => exact .begin
  | commit hProg => exact .begin
  | rollback hProg => exact .begin
  | @run pr q need write next a env' hProg hAnswer =>
      intro t hTaken
      rcases hTaken.cases_concat with hOld | hReads
      · rcases hSampling pr rfl t hOld with ⟨hPast, hAfter⟩
        exact
          ⟨le_trans hPast (K.answered hAnswer), hAfter⟩
      · have hNow := K.current hAnswer hReads
        refine ⟨?_, ?_⟩
        · rw [hNow]
          exact K.answered hAnswer
        · intro x hx t' hEarlier
          rw [hNow]
          exact hHistory.2 x hx t' hEarlier

/- What others commit they have not sampled under my key. -/
theorem Sampling.others
    (hSelf : S.Conflict k k)
    {c c' : Config W σ α}
    {pid pid' : ℕ}
    {o o' : Option (Proc S σ α)}
    {pr' : Proc S σ α}
    {keys : List S.Key}
    (hActs : Acts programs c pid o keys c' o')
    (hSampling : K.Sampling k c pid' pr')
    (hCompat :
      ∀ pr, o = some pr → Compatible pr.held pr'.held) :
    K.Sampling k c' pid' pr' := by
  intro t hTaken
  rcases hSampling t hTaken with ⟨hPast, hAfter⟩
  rcases hActs.recorded with ⟨hCommits, hEnv⟩
  refine ⟨le_trans hPast (time_le hEnv), ?_⟩
  rcases hCommits with hSame | ⟨pr, x, hSome, hLog, hNew⟩
  · rw [hSame]
    exact hAfter
  · rw [hNew]
    intro y hy t' hTheirs
    rcases List.mem_cons.mp hy with rfl | hOld
    · rw [hLog] at hTheirs
      exact
        absurd hSelf
          (hCompat pr hSome k hTheirs.held k hTaken.held)
    · exact hAfter y hOld t' hTheirs

end Clock

/- What a client samples is in the past ever after. -/
theorem Acts.samples_past
    (K : Clock W T)
    {c c' : Config W σ α}
    {pid : ℕ}
    {o o' : Option (Proc S σ α)}
    {keys : List S.Key}
    (hActs : Acts programs c pid o keys c' o')
    (hPast :
      ∀ pr, o = some pr → ∀ act ∈ pr.log, ∀ t,
        K.reads act t → t ≤ K.time c.env) :
    ∀ pr', o' = some pr' → ∀ act ∈ pr'.log, ∀ t,
      K.reads act t → t ≤ K.time c'.env := by
  intro pr' hSome
  subst hSome
  cases hActs with
  | @run pr q need write next a env' hProg hAnswer =>
      intro act hMem t hReads
      rcases List.mem_append.mp hMem with hOld | hLast
      · exact
          le_trans (hPast pr rfl act hOld t hReads)
            (K.answered hAnswer)
      · rw [List.mem_singleton.mp hLast] at hReads
        rw [K.current hAnswer hReads]
        exact K.answered hAnswer
  | _ =>
      intro act hMem
      cases hMem

/- Committed samples are not ahead of the clock. -/
theorem Reachable.samples_past
    (K : Clock W T)
    {db : σ}
    {env : W.Carrier}
    {s : Sys W σ α}
    (hReach :
      Reachable programs (Sys.initial db env) s) :
    ∀ x ∈ commits s.trace, ∀ act ∈ x.log, ∀ t,
      K.reads act t → t ≤ K.time s.env := by
  have hRules :
      RelyGuarantee W programs
        (fun c =>
          ∀ x ∈ commits c.trace, ∀ act ∈ x.log, ∀ t,
            K.reads act t → t ≤ K.time c.env)
        (fun c _ pr =>
          ∀ act ∈ pr.log, ∀ t,
            K.reads act t → t ≤ K.time c.env) := {
    own := by
      intro c c' pid o o' keys hActs hGood hOwn
      refine ⟨?_, hActs.samples_past K hOwn⟩
      rcases hActs.recorded with ⟨hCommits, hEnv⟩
      have hTime : K.time c.env ≤ K.time c'.env :=
        Clock.time_le hEnv
      rcases hCommits with hSame | ⟨pr, x, hSome, hLog, hNew⟩
      · rw [hSame]
        intro y hy act hMem t hReads
        exact le_trans (hGood y hy act hMem t hReads) hTime
      · rw [hNew]
        intro y hy act hMem t hReads
        apply le_trans _ hTime
        rcases List.mem_cons.mp hy with rfl | hOld
        · rw [hLog] at hMem
          exact hOwn pr hSome act hMem t hReads
        · exact hGood y hOld act hMem t hReads
    rely := by
      intro c c' pid o o' keys hActs hGood hOwn pid' pr' hNe
        hOther hKeys hHeld act hMem t hReads
      exact
        le_trans (hOther act hMem t hReads)
          (Clock.time_le hActs.recorded.2)
    tick := by
      intro c env' hAdvance hGood
      have hTime := K.advanced hAdvance
      constructor
      · intro x hx act hMem t hReads
        exact le_trans (hGood x hx act hMem t hReads) hTime
      · intro pid pr hOther act hMem t hReads
        exact le_trans (hOther act hMem t hReads) hTime
  }
  apply (hReach.rely_guarantee hRules _).1
  intro x hx
  cases hx

/- Samples under one key are ordered as the commits are. -/
theorem Reachable.samples_in_order
    (K : Clock W T)
    {k : S.Key}
    (hSelf : S.Conflict k k)
    {db : σ}
    {env : W.Carrier}
    {s : Sys W σ α}
    (hReach :
      Reachable programs (Sys.initial db env) s) :
    (commits s.trace).Pairwise (K.InOrder k) := by
  have hRules :
      RelyGuarantee W programs (K.History k)
        (K.Sampling k) := {
    own := fun hActs hHistory hSampling =>
      ⟨hHistory.acts hActs hSampling, fun pr' hSome => by
        subst hSome
        exact Clock.Sampling.acts hActs hHistory hSampling⟩
    rely := fun hActs _ _ _ _ _ hOther _ hCompat =>
      hOther.others hSelf hActs hCompat
    tick := by
      intro c env' hAdvance hHistory
      have hTime := K.advanced hAdvance
      refine ⟨⟨hHistory.1, ?_⟩, ?_⟩
      · intro x hx t hTaken
        exact le_trans (hHistory.2 x hx t hTaken) hTime
      · intro pid pr hSampling t hTaken
        rcases hSampling t hTaken with ⟨hPast, hAfter⟩
        exact ⟨le_trans hPast hTime, hAfter⟩
  }
  refine (hReach.rely_guarantee hRules ⟨.nil, ?_⟩).1.1
  intro x hx
  cases hx

theorem Reachable.samples_ordered
    (K : Clock W T)
    {k : S.Key}
    (hSelf : S.Conflict k k)
    {db : σ}
    {env : W.Carrier}
    {s : Sys W σ α}
    (hReach :
      Reachable programs (Sys.initial db env) s) :
    (commits s.trace).Pairwise (K.Ordered k) := by
  apply (Reachable.samples_in_order K hSelf hReach).imp
  intro c c' hInOrder t t' hSampled hSampled'
  exact hInOrder t t' hSampled.taken hSampled'.taken

end ReadCommitted
