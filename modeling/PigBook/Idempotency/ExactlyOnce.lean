import PigBook.Idempotency.Creations
import PigBook.Idempotency.Endpoints

/-
  Each key executes once in its window.

  Key theorems include:
    * `row_stays`
    * `keys_accounted`
    * `created_once`
-/

------------------------------------------------------------
-- Rows in a Run
------------------------------------------------------------

namespace PigBook.Idempotency

open ReadCommitted

variable {S : Sig} {σ : Type} {W : World (desk S)}
variable {K : Timed W} {db : Desk σ}
variable {trace : List (Event (desk S) (Desk σ) DeskReply)}

/- What every commit of a run does, up to the time `now`. -/
structure DeskRun
    (db : Desk σ)
    (now : ℤ)
    (trace : List (Event (desk S) (Desk σ) DeskReply)) :
    Prop where
  valid : DeskValid db
  linked : Audited (Event.Follows db) trace
  audited : Audited (fun _ e => deskEvent e) trace
  past :
    ∀ c ∈ commits trace, ∀ t, Samples c.log t → t ≤ now

theorem DeskRun.of_reachable
    {env : W.Carrier}
    {s : Sys W (Desk σ) DeskReply}
    (K : Timed W)
    (hValid : DeskValid db)
    (hReach : Reachable deskPrograms (Sys.initial db env) s) :
    DeskRun db (K.time s.env) s.trace where
  valid := hValid
  linked := (desk_good K hValid hReach).linked
  audited := (desk_good K hValid hReach).audited
  past := by
    intro c hc t hSamples
    rcases hSamples with ⟨act, hMem, hSampled⟩
    exact hReach.samples_past K.clock c hc act hMem t hSampled

variable {now : ℤ}
variable {newer older : List (Event (desk S) (Desk σ) DeskReply)}

theorem DeskRun.suffix
    (hRun : DeskRun db now (newer ++ older)) :
    DeskRun db now older where
  valid := hRun.valid
  linked := hRun.linked.of_suffix (List.suffix_append _ _)
  audited := hRun.audited.of_suffix (List.suffix_append _ _)
  past := by
    intro c hc
    apply hRun.past c
    unfold commits at hc ⊢
    rw [List.filterMap_append]
    exact List.mem_append_right _ hc

/- The commit in front of a run. -/
theorem DeskRun.commit
    {pid : ℕ}
    {log : List (Action (desk S))}
    {before after : Desk σ}
    {answer : Option DeskReply}
    (hRun :
      DeskRun db now
        (.committed pid log before after answer :: older)) :
    before = latest db older ∧
      deskEvent (.committed pid log before after answer) ∧
      ∀ t, Samples log t → t ≤ now :=
  ⟨hRun.linked.1, hRun.audited.1,
    hRun.past ⟨log, before, after, answer⟩ List.mem_cons_self⟩

theorem DeskRun.step
    {c : Commit (desk S) (Desk σ) DeskReply}
    (hRun : DeskRun db now trace)
    (hMem : c ∈ commits trace) :
    KeysStep c.log c.before c.after := by
  rcases exists_of_mem_commits hMem with
    ⟨newer, pid, older, rfl⟩
  exact hRun.suffix.commit.2.1.1

theorem DeskRun.latest_valid
    (hRun : DeskRun db now trace) :
    DeskValid (latest db trace) := by
  have hAll : Audited (Event.Follows db) (trace ++ []) := by
    rw [List.append_nil]
    exact hRun.linked
  rw [← List.append_nil trace]
  apply latest_append hAll _ hRun.valid
  intro c hc hBefore
  exact (hRun.step hc).valid hBefore

/- A row stays until it has expired. -/
theorem row_stays
    {r : IdempotencyKey}
    (hRun : DeskRun db now (newer ++ older))
    (hRow : r ∈ (latest db older).1)
    (hLive : now < r.expiresAt) :
    r ∈ (latest db (newer ++ older)).1 := by
  apply
    latest_append (P := fun t => r ∈ t.1) hRun.linked _ hRow
  intro c hc hBefore
  have hMem : c ∈ commits (newer ++ older) := by
    unfold commits at hc ⊢
    rw [List.filterMap_append]
    exact List.mem_append_left _ hc
  by_contra hGone
  rcases (hRun.step hMem).gone r hBefore hGone with
    ⟨⟨t, hSamples, hExpired⟩, -⟩
  have hPast := hRun.past c hMem t hSamples
  omega

/- A creation has executed, and its row remembers it. -/
def Remembered
    (r : IdempotencyKey)
    (trace : List (Event (desk S) (Desk σ) DeskReply)) : Prop :=
  ∃ c ∈ commits trace, ∃ stored,
    c.answer =
      some
        (.created r.userId r.key r.requestHash
          (markReplayed false stored)) ∧
    Executed r.userId r.key r.requestHash stored r c.log
      c.before c.after

theorem Remembered.append
    {r : IdempotencyKey}
    (newer : List (Event (desk S) (Desk σ) DeskReply))
    (hRemembered : Remembered r older) :
    Remembered r (newer ++ older) := by
  rcases hRemembered with ⟨c, hc, hExecuted⟩
  refine ⟨c, ?_, hExecuted⟩
  unfold commits at hc ⊢
  rw [List.filterMap_append]
  exact List.mem_append_right _ hc

/- Only an execution adds a row, and it remembers itself. -/
theorem deskEvent_added
    {pid : ℕ}
    {log : List (Action (desk S))}
    {before after : Desk σ}
    {answer : Option DeskReply}
    {r : IdempotencyKey}
    (hEvent :
      deskEvent (.committed pid log before after answer))
    (hRow : r ∈ after.1)
    (hNew : r ∉ before.1) :
    ∃ stored,
      answer =
        some
          (.created r.userId r.key r.requestHash
            (markReplayed false stored)) ∧
      Executed r.userId r.key r.requestHash stored r log before
        after := by
  rcases hEvent with ⟨-, hAnswer⟩
  have hUnchanged : after.1 ≠ before.1 := by
    intro hSame
    rw [hSame] at hRow
    exact hNew hRow
  match answer, hAnswer with
  | none, hSame => exact absurd hSame hUnchanged
  | some .other, hSame => exact absurd hSame hUnchanged
  | some (.purged _), hPurged =>
      exact absurd (hPurged.2 r hRow) hNew
  | some (.created userId key reqHash response), hCreated =>
      rcases hCreated with
        ⟨stored, row, ⟨hExecuted, hResponse⟩ | hReplayed⟩
      · have hOwn : r = row := by
          rw [hExecuted.keys] at hRow
          rcases List.mem_append.mp hRow with hOld | hOwn
          · exact absurd (List.mem_of_mem_filter hOld) hNew
          · exact List.mem_singleton.mp hOwn
        have hSlot := hExecuted.slot
        have hHash := hExecuted.requestHash
        rw [← hOwn] at hSlot hHash hExecuted
        cases hSlot
        cases hHash
        exact ⟨stored, by rw [hResponse], hExecuted⟩
      · have hSame := hReplayed.1.same
        exact absurd (congrArg Prod.fst hSame) hUnchanged

theorem remembered_latest
    (hRun : DeskRun db now trace) :
    ∀ r ∈ (latest db trace).1, r ∈ db.1 ∨ Remembered r trace := by
  induction trace with
  | nil => exact fun r hRow => Or.inl hRow
  | cons e older ih =>
      have hRest : DeskRun db now older :=
        DeskRun.suffix
          (show DeskRun db now ([e] ++ older) from hRun)
      have hOld :
          ∀ r ∈ (latest db older).1,
            r ∈ db.1 ∨ Remembered r (e :: older) := by
        intro r hRow
        rcases ih hRest r hRow with hFirst | hOlder
        · exact Or.inl hFirst
        · exact Or.inr (hOlder.append [e])
      cases e with
      | committed pid log before after answer =>
          rcases hRun.commit with ⟨hBefore, hEvent, -⟩
          intro r hRow
          by_cases hHad : r ∈ before.1
          · rw [hBefore] at hHad
            exact hOld r hHad
          · rcases deskEvent_added hEvent hRow hHad with
              ⟨stored, hAnswer, hExecuted⟩
            exact
              Or.inr
                ⟨⟨log, before, after, answer⟩,
                  List.mem_cons_self, stored, hAnswer,
                  hExecuted⟩
      | _ => exact hOld

end PigBook.Idempotency

------------------------------------------------------------
-- Two Tabs
------------------------------------------------------------

namespace PigBook.Idempotency

open ReadCommitted

instance : DecidableRel keyTable.Conflict :=
  fun k k' => inferInstanceAs (Decidable (k = k'))

/- The clock of the inventory is the one that keys expire by. -/
def deskAnswers
    (env : Surroundings) :
    (q : (desk inventory).Query) →
      (desk inventory).Answer q → Surroundings → Prop
| .inl q, a, env' =>
    env' = env ∧
      ∀ t, sampled (S := inventory) ⟨.inl q, a, []⟩ = some t →
        t = env.clock
| .inr q, a, env' => forwardClock.world.answers env q a env'

def deskWorld : World (desk inventory) where
  Carrier := Surroundings
  answers := deskAnswers
  advance := fun env env' => env.clock ≤ env'.clock

theorem deskAnswers_clock
    {env env' : Surroundings}
    {q : (desk inventory).Query}
    {a : (desk inventory).Answer q}
    (hAnswer : deskAnswers env q a env') :
    env'.clock = env.clock := by
  cases q with
  | inl q => rw [hAnswer.1]
  | inr q =>
      have hInventory : forwardClock.Answers env q a env' :=
        hAnswer
      cases hInventory <;> rfl

theorem deskAnswers_sampled
    {env env' : Surroundings}
    {q : (desk inventory).Query}
    {a : (desk inventory).Answer q}
    {ks : List (desk inventory).Key}
    {t : ℤ}
    (hAnswer : deskAnswers env q a env')
    (hSampled : sampled ⟨q, a, ks⟩ = some t) :
    t = env.clock := by
  cases q with
  | inl q =>
      apply hAnswer.2
      cases q <;> exact hSampled
  | inr q => cases hSampled

def deskTime : Timed deskWorld where
  time := Surroundings.clock
  answered := fun hAnswer =>
    le_of_eq (deskAnswers_clock hAnswer).symm
  current := deskAnswers_sampled
  advanced := id

def deskRespond
    (env : Surroundings) :
    (q : (desk inventory).Query) →
      (desk inventory).Answer q × Surroundings
| .inl .plain => ((), env)
| .inl .clock => (env.clock, env)
| .inl .expired => ((env.clock, []), env)
| .inr q => forwardClock.respond env q

theorem deskAnswers_respond
    (env : Surroundings)
    (q : (desk inventory).Query) :
    deskAnswers env q (deskRespond env q).1
      (deskRespond env q).2 := by
  match q with
  | .inl .plain =>
      refine ⟨rfl, fun t hSampled => ?_⟩
      cases hSampled
  | .inl .clock =>
      refine ⟨rfl, fun t hSampled => ?_⟩
      exact (Option.some.inj hSampled).symm
  | .inl .expired =>
      refine ⟨rfl, fun t hSampled => ?_⟩
      exact (Option.some.inj hSampled).symm
  | .inr q => exact forwardClock.answers_respond env q

def aDayLater (env : Surroundings) : Surroundings :=
  { env with clock := env.clock + keyLifetime }

theorem le_aDayLater
    (env : Surroundings) :
    env.clock ≤ (aDayLater env).clock := by
  unfold aDayLater
  have hDay : 0 ≤ keyLifetime := by decide
  dsimp only
  omega

def clerk : Simulator deskWorld where
  respond := deskRespond
  answers := deskAnswers_respond
  pass := aDayLater
  advance := le_aDayLater

/- No key is used, and nothing is booked. -/
def emptyDesk : Desk Inventory :=
  ([], fun _ => Cell.opening [101] (some meetingRoom))

/- An hour of the meeting room. -/
def tabRequest : DeskRequest inventory Inventory :=
  bookingRequest (.owner 101) 2 "" 7 (.utc (hours 30))
    (.utc (hours 31))

/-
  Two tabs send one request at the same time.  A day later it
  is sent once more.
-/
def tabMoves :
    List (Move (desk inventory) (Desk Inventory) DeskReply) :=
  [[.spawn 0 tabRequest.program],
    List.replicate 8 (.step 0),
    [.spawn 1 tabRequest.program, .step 1, .step 1],
    List.replicate 8 (.step 0),
    List.replicate 8 (.step 1),
    [.pass, .spawn 2 tabRequest.program],
    List.replicate 20 (.step 2)].flatten

def twoTabs : Sys deskWorld (Desk Inventory) DeskReply :=
  (Sys.initial (W := deskWorld) emptyDesk ⟨0, []⟩).exec clerk
    [0, 1, 2] tabMoves

theorem twoTabs_reachable :
    Reachable deskPrograms
      (Sys.initial (W := deskWorld) emptyDesk ⟨0, []⟩)
      twoTabs := by
  refine Sys.exec_reachable (fun _ _ => rfl) ?_
  intro m hm
  cases m with
  | spawn pid p =>
      simp only [tabMoves, List.flatten_cons, List.mem_append,
        List.mem_cons, List.mem_replicate, Move.spawn.injEq,
        reduceCtorEq, and_false, List.flatten_nil,
        List.not_mem_nil, or_false, false_or] at hm
      refine ⟨tabRequest, bookingRequest_allowed 2 "", ?_⟩
      rcases hm with hm | hm | hm
      · exact hm.2
      · exact hm.2
      · exact hm.2
  | step pid => trivial
  | pass => trivial

end PigBook.Idempotency

------------------------------------------------------------
-- Once in a Window
------------------------------------------------------------

namespace PigBook.Idempotency

open ReadCommitted

variable {S : Sig} {σ : Type} {W : World (desk S)}

/-
  Every row is complete and expires a day after its creation;
  no two are for one key of a user.  A row holds the response
  that a creation has answered its request with, and it is not
  lost before it has expired.
-/
theorem keys_accounted
    {db : Desk σ}
    {env : W.Carrier}
    {s : Sys W (Desk σ) DeskReply}
    (K : Timed W)
    (hValid : DeskValid db)
    (hReach : Reachable deskPrograms (Sys.initial db env) s) :
    ∀ t ∈ states db s.trace, DeskValid t ∧
      ∀ r ∈ t.1,
        (r ∈ db.1 ∨ Remembered r s.trace) ∧
          (K.time s.env < r.expiresAt →
            r ∈ (latest db s.trace).1) := by
  have hRun := DeskRun.of_reachable K hValid hReach
  intro t hMem
  rcases exists_of_mem_states hMem with
    ⟨newer, older, hTrace, rfl⟩
  rw [hTrace] at hRun ⊢
  refine ⟨hRun.suffix.latest_valid, ?_⟩
  intro r hRow
  constructor
  · rcases remembered_latest hRun.suffix r hRow with
      hFirst | hOld
    · exact Or.inl hFirst
    · exact Or.inr (hOld.append newer)
  · exact row_stays hRun hRow

theorem emptyDesk_valid : DeskValid emptyDesk where
  keyed := List.Pairwise.nil
  sound := by
    intro r hRow
    cases hRow

/- A day later the second row is there, and it is remembered. -/
theorem keys_accounted_twoTabs :
    ∃ r ∈ (latest emptyDesk twoTabs.trace).1,
      r.createdAt = keyLifetime ∧ Remembered r twoTabs.trace := by
  have hRow :
      ∃ r ∈ (latest emptyDesk twoTabs.trace).1,
        r.createdAt = keyLifetime := by
    decide +kernel
  rcases hRow with ⟨r, hRow, hCreated⟩
  refine ⟨r, hRow, hCreated, ?_⟩
  have hAll :=
    keys_accounted deskTime emptyDesk_valid twoTabs_reachable
      _ (latest_mem_states _ _)
  rcases (hAll.2 r hRow).1 with hFirst | hRemembered
  · cases hFirst
  · exact hRemembered

/- A commit that answers a creation leaves a row for it. -/
theorem deskEvent_created
    {pid : ℕ}
    {log : List (Action (desk S))}
    {before after : Desk σ}
    {userId key : Uuid}
    {reqHash : String}
    {response : StoredResponse}
    (hEvent :
      deskEvent
        (.committed pid log before after
          (some (.created userId key reqHash response)))) :
    ∃ row ∈ after.1, row.slot = (userId, key) ∧
      row.requestHash = reqHash ∧
      ∃ kept, row.response = some kept ∧
        (response = markReplayed true kept ∨
          ∃ stored, kept = persisted stored ∧
            response = markReplayed false stored) := by
  rcases hEvent.2 with
    ⟨stored, row, ⟨hExecuted, hResponse⟩ |
      ⟨hReplayed, hResponse⟩⟩
  · refine
      ⟨row, ?_, hExecuted.slot, hExecuted.requestHash,
        persisted stored, hExecuted.response,
        Or.inr ⟨stored, rfl, hResponse⟩⟩
    rw [hExecuted.keys]
    exact
      List.mem_append_right _ (List.mem_singleton.mpr rfl)
  · refine
      ⟨row, ?_, hReplayed.slot, hReplayed.requestHash,
        stored, hReplayed.response, Or.inl hResponse⟩
    rw [hReplayed.same]
    exact hReplayed.found

/- While a row is alive, its key is only replayed. -/
theorem deskEvent_replayed
    {pid : ℕ}
    {log : List (Action (desk S))}
    {before after : Desk σ}
    {userId key : Uuid}
    {reqHash : String}
    {response : StoredResponse}
    {now : ℤ}
    {row : IdempotencyKey}
    (hEvent :
      deskEvent
        (.committed pid log before after
          (some (.created userId key reqHash response))))
    (hPast : ∀ t, Samples log t → t ≤ now)
    (hKeyed : Keyed IdempotencyKey.slot before.1)
    (hRow : row ∈ before.1)
    (hSlot : row.slot = (userId, key))
    (hLive : now < row.expiresAt) :
    ∃ kept,
      Replayed userId key reqHash kept row log before after ∧
        response = markReplayed true kept := by
  rcases hEvent.2 with
    ⟨stored, own, ⟨hExecuted, hResponse⟩ |
      ⟨hReplayed, hResponse⟩⟩
  · have hExpired := (hExecuted.expired row hRow hSlot).1
    have hSampled := hPast _ hExecuted.samples
    omega
  · have hEq : own = row := by
      apply Keyed.eq_of_key hKeyed hReplayed.found hRow
      rw [hReplayed.slot, hSlot]
    rw [hEq] at hReplayed
    exact ⟨stored, hReplayed, hResponse⟩

/-
  The earlier creation `c'` has left a row, and either that
  row has expired, or the later one `c` has changed nothing
  and repeats the response to the same request.
-/
def Repeats
    (now : ℤ)
    (c c' : Commit (desk S) (Desk σ) DeskReply)
    (userId key : Uuid)
    (reqHash reqHash' : String)
    (response response' : StoredResponse) : Prop :=
  ∃ row ∈ c'.after.1, row.slot = (userId, key) ∧
    (row.expiresAt ≤ now ∨
      c.after = c.before ∧ reqHash = reqHash' ∧
      ∃ kept, response = markReplayed true kept ∧
        (response' = markReplayed true kept ∨
          ∃ stored, kept = persisted stored ∧
            response' = markReplayed false stored))

theorem DeskRun.repeats
    {db : Desk σ}
    {now : ℤ}
    {older : List (Event (desk S) (Desk σ) DeskReply)}
    {pid : ℕ}
    {log : List (Action (desk S))}
    {before after : Desk σ}
    {answer : Option DeskReply}
    {c' : Commit (desk S) (Desk σ) DeskReply}
    {userId key : Uuid}
    {reqHash reqHash' : String}
    {response response' : StoredResponse}
    (hRun :
      DeskRun db now
        (.committed pid log before after answer :: older))
    (hc' : c' ∈ commits older)
    (hAnswer :
      answer = some (.created userId key reqHash response))
    (hAnswer' :
      c'.answer =
        some (.created userId key reqHash' response')) :
    Repeats now ⟨log, before, after, answer⟩ c' userId key
      reqHash reqHash' response response' := by
  rcases hRun.commit with ⟨hBefore, hEvent, hPast⟩
  have hOlder : DeskRun db now older :=
    DeskRun.suffix
      (show DeskRun db now
        ([.committed pid log before after answer] ++ older)
        from hRun)
  rcases exists_of_mem_commits hc' with
    ⟨between, pid', oldest, hTrace⟩
  rw [hTrace] at hOlder hBefore
  have hEvent' := hOlder.suffix.commit.2.1
  rw [hAnswer'] at hEvent'
  rcases deskEvent_created hEvent' with
    ⟨row, hRow, hSlot, hHash, kept, hKept, hResponse'⟩
  refine ⟨row, hRow, hSlot, ?_⟩
  by_cases hLive : row.expiresAt ≤ now
  · exact Or.inl hLive
  · have hStays := row_stays hOlder hRow (not_le.mp hLive)
    have hKeyed := hOlder.latest_valid.keyed
    rw [← hBefore] at hStays hKeyed
    rw [hAnswer] at hEvent
    rcases deskEvent_replayed hEvent hPast hKeyed hStays hSlot
        (not_le.mp hLive) with
      ⟨kept', hReplayed, hResponse⟩
    have hSame : kept' = kept := by
      apply Option.some.inj
      rw [← hReplayed.response, hKept]
    rw [hSame] at hResponse
    apply Or.inr
    refine ⟨hReplayed.same, ?_, kept, hResponse, hResponse'⟩
    rw [← hReplayed.requestHash, hHash]

/-
  Two creations with one key of a user, of which the first
  commit is the later one.  Once the row of the earlier one
  has expired, anything may happen.  Before that the later
  one is of the same request, has changed nothing, and repeats
  the response of the earlier one.
-/
theorem created_once
    {db : Desk σ}
    {env : W.Carrier}
    {s : Sys W (Desk σ) DeskReply}
    (K : Timed W)
    (hValid : DeskValid db)
    (hReach : Reachable deskPrograms (Sys.initial db env) s) :
    (commits s.trace).Pairwise (fun c c' =>
      ∀ userId key reqHash reqHash' response response',
        c.answer =
            some (.created userId key reqHash response) →
        c'.answer =
            some (.created userId key reqHash' response') →
        Repeats (K.time s.env) c c' userId key reqHash reqHash'
          response response') := by
  have hRun := DeskRun.of_reachable K hValid hReach
  generalize s.trace = trace at hRun
  induction trace with
  | nil => exact List.Pairwise.nil
  | cons e older ih =>
      have hRest :=
        ih (DeskRun.suffix
          (show DeskRun db _ ([e] ++ older) from hRun))
      cases e with
      | committed pid log before after answer =>
          refine List.pairwise_cons.mpr ⟨?_, hRest⟩
          intro c' hc' userId key reqHash reqHash' response
            response' hAnswer hAnswer'
          exact hRun.repeats hc' hAnswer hAnswer'
      | _ => exact hRest

/- Three answers, of which one is a repetition: one booking. -/
theorem created_once_twoTabs :
    (commits twoTabs.trace).length = 3 ∧
      ((latest emptyDesk twoTabs.trace).2 7).bookings.length =
        1 ∧
      (commits twoTabs.trace).Pairwise (fun c c' =>
        ∀ userId key reqHash reqHash' response response',
          c.answer =
              some (.created userId key reqHash response) →
          c'.answer =
              some (.created userId key reqHash' response') →
          Repeats (deskTime.time twoTabs.env) c c' userId key
            reqHash reqHash' response response') :=
  ⟨by decide +kernel, by decide +kernel,
    created_once deskTime emptyDesk_valid twoTabs_reachable⟩

end PigBook.Idempotency
