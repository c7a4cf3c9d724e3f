import PigBook.Idempotency.ExactlyOnce
import PigBook.Inventory.Notices

/-
  A replay tells nothing, and neither does what rolls back.

  Key definitions include:
    * `DeskReply.isReplay`

  Key theorems include:
    * `DeskRun.replay`
    * `outbox_exact`
-/

------------------------------------------------------------
-- Replays
------------------------------------------------------------

namespace PigBook.Idempotency

open ReadCommitted

/- The headers of the answer call it a replay. -/
def DeskReply.isReplay : DeskReply → Bool
| .created _ _ _ response =>
    ("Idempotency-Replayed", "true") ∈ response.headers
| _ => false

/- A header that is set has no other value left. -/
theorem eq_of_mem_setHeader
    {name value : String}
    {headers : List (String × String)}
    {h : String × String}
    (hMem : h ∈ setHeader name value headers)
    (hName : h.1 = name) :
    h = (name, value) := by
  unfold setHeader at hMem
  split at hMem
  · rcases List.mem_map.mp hMem with ⟨old, -, hSet⟩
    by_cases hOld : old.1 = name
    · rw [if_pos hOld] at hSet
      exact hSet.symm
    · rw [if_neg hOld] at hSet
      rw [hSet] at hOld
      exact absurd hName hOld
  · rename_i hAny
    rcases List.mem_append.mp hMem with hKept | hNew
    · exfalso
      apply hAny
      exact List.any_eq_true.mpr ⟨h, hKept, decide_eq_true hName⟩
    · exact List.mem_singleton.mp hNew

/- What has executed is not called a replay. -/
theorem isReplay_executed
    (userId key : Uuid)
    (reqHash : String)
    (stored : StoredResponse) :
    DeskReply.isReplay
        (.created userId key reqHash
          (markReplayed false stored)) = false := by
  unfold DeskReply.isReplay
  apply decide_eq_false
  intro hMem
  have hValue := eq_of_mem_setHeader hMem rfl
  simp at hValue

variable {S : Sig} {σ : Type}

/- A creation that is answered by a replay changes nothing. -/
theorem DeskRun.replay
    {db : Desk σ}
    {now : ℤ}
    {trace : List (Event (desk S) (Desk σ) DeskReply)}
    {c : Commit (desk S) (Desk σ) DeskReply}
    {reply : DeskReply}
    (hRun : DeskRun db now trace)
    (hMem : c ∈ commits trace)
    (hAnswer : c.answer = some reply)
    (hReplay : reply.isReplay = true) :
    c.after = c.before := by
  rcases exists_of_mem_commits hMem with
    ⟨newer, pid, older, rfl⟩
  have hEvent := hRun.suffix.commit.2.1
  rw [hAnswer] at hEvent
  cases reply with
  | created userId key reqHash response =>
      rcases hEvent.2 with
        ⟨stored, row, ⟨-, hResponse⟩ | ⟨hReplayed, -⟩⟩
      · rw [hResponse, isReplay_executed] at hReplay
        exact absurd hReplay Bool.false_ne_true
      · exact hReplayed.same
  | purged count => exact absurd hReplay Bool.false_ne_true
  | other => exact absurd hReplay Bool.false_ne_true

end PigBook.Idempotency

------------------------------------------------------------
-- Exactness
------------------------------------------------------------

namespace PigBook

open ReadCommitted Idempotency

/-
  In every run, the keys of the outbox rows of a resource are
  those that the transitions of its bookings have called for,
  one for one and each with the version after its transition,
  whatever requests the commits are ascribed to.  No key is
  there twice, no client fails by violating the unique key of
  the outbox, and the tables are those that the commits have
  left: nothing remains of an operation that rolled back.  A
  creation that replays a stored response changes nothing.
-/
theorem outbox_exact
    {X : Circumstances}
    {resources : Uuid → Option Resource}
    {env : Surroundings}
    {s : Sys X.world (Uuid → Cell) Reply}
    (hRun : AdmittedRun X resources env s) :
    (∃ requests,
      List.Forall₂ Explains (commits s.trace) requests) ∧
    (∀ requests,
      List.Forall₂ Explains (commits s.trace) requests →
        ∀ rid,
          ((s.db rid).outbox.map OutboxEvent.eventKey).Perm
            (toldBy rid (commits s.trace) requests)) ∧
    (∀ rid,
      ((s.db rid).outbox.map OutboxEvent.eventKey).Nodup) ∧
    (∀ pid pr, s.procs pid = some pr →
      pr.prog ≠
        .fail (.integrityError .outboxAggregateKey)) ∧
    Chained (fun rid => Cell.opening X.users (resources rid))
      s.db (commits s.trace) ∧
    (∀ (W : World (desk inventory)),
      Timed W →
        ∀ (db : Desk Inventory) (env : W.Carrier)
          (t : Sys W (Desk Inventory) DeskReply),
          DeskValid db →
          Reachable deskPrograms (Sys.initial db env) t →
            ∀ c ∈ commits t.trace, ∀ reply,
              c.answer = some reply →
              reply.isReplay = true →
                c.after = c.before) := by
  have hExact := hRun.outboxExact
  refine
    ⟨hExact.explained, hExact.told, hExact.once,
      hRun.outboxKey_kept, hExact.chained, ?_⟩
  intro W K db env t hValid hReach c hc reply hAnswer hReplay
  exact
    (DeskRun.of_reachable K hValid hReach).replay hc hAnswer
      hReplay

theorem scenario_admitted
    (n : ℕ) :
    AdmittedRun forwardClock (fun _ => some meetingRoom)
      ⟨0, []⟩ (scenario n) := by
  unfold AdmittedRun scenario
  refine Sys.exec_reachable (fun _ _ => rfl) ?_
  intro m hm
  rcases List.mem_flatMap.mp hm with
    ⟨request, hRequest, hMove⟩
  have hAdmitted :=
    scenarioRequests_admitted request
      (List.mem_of_mem_take hRequest)
  exact
    Move.allowed_of_begun
      ⟨7, _, ⟨request, hAdmitted, rfl⟩, rfl⟩ hMove

/-
  The four events of the scenario are those that its requests
  call for, and the second tab is answered by a replay.
-/
theorem outbox_exact_scenario :
    (∃ requests,
      List.Forall₂ Explains (commits (scenario 4).trace)
        requests ∧
      List.Perm
        [(1, 1, .bookingConfirmed), (1, 2, .bookingCancelled),
          (5, 1, .waitlistOffered), (5, 2, .bookingConfirmed)]
        (toldBy 7 (commits (scenario 4).trace) requests)) ∧
      ∃ c ∈ commits twoTabs.trace, ∃ reply,
        c.answer = some reply ∧ reply.isReplay = true ∧
          c.after = c.before := by
  have hExact := outbox_exact (scenario_admitted 4)
  constructor
  · rcases hExact.1 with ⟨requests, hExplains⟩
    have hTold := hExact.2.1 requests hExplains 7
    have hKeys :
        ((scenario 4).db 7).outbox.map OutboxEvent.eventKey =
          [(1, 1, .bookingConfirmed), (1, 2, .bookingCancelled),
            (5, 1, .waitlistOffered),
            (5, 2, .bookingConfirmed)] := by
      decide +kernel
    rw [hKeys] at hTold
    exact ⟨requests, hExplains, hTold⟩
  · have hReplayed :
        ∃ c ∈ commits twoTabs.trace,
          c.answer.any DeskReply.isReplay = true := by
      decide +kernel
    rcases hReplayed with ⟨c, hc, hAny⟩
    rcases (Option.any_eq_true_iff_get _ _).mp hAny with ⟨hSome, hIs⟩
    have hAnswer : c.answer = some (c.answer.get hSome) :=
      (Option.some_get hSome).symm
    exact
      ⟨c, hc, c.answer.get hSome, hAnswer, hIs,
        hExact.2.2.2.2.2 deskWorld deskTime emptyDesk ⟨0, []⟩
          twoTabs emptyDesk_valid twoTabs_reachable c hc _
          hAnswer hIs⟩

end PigBook
