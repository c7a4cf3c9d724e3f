import PigBook.Idempotency.ExactlyOnce
import PigBook.Users.Authority
import PigBook.Users.Retention

/-
  The endpoints that mutate the inventory, and what becomes
  of them when their principal is disabled.

  Key definitions include:
    * `Request.authority`, `Request.operation`
    * `Request.mutation`

  Key theorems include:
    * `Request.mutation_allowed`
    * `revoked_authority_stops_mutations`
-/

------------------------------------------------------------
-- Endpoints
------------------------------------------------------------

namespace PigBook

open ReadCommitted
open Idempotency (desk Desk Inventory executeCreate onRest)
open Idempotency (DeskM storedReply attemptCreate)

/-
  The policy of the route of a request, and its principal.
  The scheduler has none.
-/
def Request.authority : Request → Option (Policy × Uuid)
| createBooking scope _ _ =>
    some (.authenticated, scope.principalId)
| joinWaitlist scope _ _ =>
    some (.authenticated, scope.principalId)
| cancelBooking scope _ _ _ =>
    some
      (if scope.own then .ownBooking else .admin,
        scope.principalId)
| acceptOffer scope _ _ =>
    some (.ownWaitlist, scope.principalId)
| declineEntry scope _ _ =>
    some (.ownWaitlist, scope.principalId)
| createBlackout scope _ _ => some (.admin, scope.principalId)
| cancelBlackout scope _ _ => some (.admin, scope.principalId)
| updateResource scope _ _ => some (.admin, scope.principalId)
| archiveResource scope _ => some (.admin, scope.principalId)
| expireAndPromote => none

/- A creation under its key. -/
def createOnce
    (userId key : Uuid)
    (reqHash : String)
    (rid : Uuid)
    (p : Tx Reply) : DeskM inventory Inventory Reply := do
  let response ←
    executeCreate userId key reqHash
      ((p.atCell rid).bind storedReply)
  return .stored response

/-
  What the endpoint of a request runs in its transaction,
  where a creation has sent the key and the request hash.
-/
def Request.operation
    (rid key : Uuid)
    (reqHash : String) :
    Request → DeskM inventory Inventory Reply
| createBooking scope startsAt endsAt =>
    createOnce scope.principalId key reqHash rid
      (PigBook.createBooking rid scope startsAt endsAt)
| createBlackout scope startsAt endsAt =>
    createOnce scope.principalId key reqHash rid
      (PigBook.createBlackout rid scope startsAt endsAt)
| request => onRest ((request.program rid).atCell rid)

/- A program over the tables beside the accounts. -/
def besideAccounts
    {T : Sig}
    {τ α : Type}
    (p : Prog T τ α) : RealmM T τ α :=
  p.embed (Embedding.inr accounts T Accounts τ)

/- The endpoint of a request. -/
def Request.mutation
    (rid key : Uuid)
    (reqHash : String)
    (preliminaries : DeskM inventory Inventory Unit)
    (request : Request) :
    Option
      (Mutation (desk inventory) (Desk Inventory) Reply) :=
  request.authority.map (fun authority => {
    policy := authority.1
    principalId := authority.2
    preliminaries := besideAccounts preliminaries
    operation :=
      besideAccounts (request.operation rid key reqHash)
  })

end PigBook

------------------------------------------------------------
-- One Transaction
------------------------------------------------------------

namespace PigBook

open ReadCommitted
open Idempotency (desk Desk Inventory executeCreate onRest)
open Idempotency (DeskM storedReply attemptCreate)

/- Every turn of the loop stays in its transaction. -/
theorem attemptCreate_single
    {S : Sig}
    {σ : Type}
    {operation : Prog S σ StoredResponse}
    (hSingle : operation.Single)
    (userId key : Uuid)
    (reqHash : String)
    (turns : ℕ) :
    (attemptCreate userId key reqHash operation turns).Single := by
  induction turns with
  | zero => trivial
  | succ turns ih =>
      refine Prog.Single.bind ?_ ?_
      · exact fun _ _ _ _ => trivial
      intro acquired
      split
      · refine Prog.Single.bind hSingle.embed ?_
        intro stored
        refine Prog.Single.bind ?_ (fun _ => trivial)
        apply Prog.Single.embed
        intro s a
        dsimp only
        split
        · trivial
        · trivial
      · refine Prog.Single.bind ?_ ?_
        · exact fun _ _ _ _ => trivial
        intro found
        split
        · exact ih
        · split
          · exact
              Prog.Single.bind (fun _ _ => trivial)
                (fun _ => ih)
          · split
            · trivial
            · split
              · trivial
              · trivial

theorem createOnce_single
    {rid : Uuid}
    {p : Tx Reply}
    (hSingle : p.Single)
    (userId key : Uuid)
    (reqHash : String) :
    (createOnce userId key reqHash rid p).Single := by
  refine Prog.Single.bind ?_ (fun _ => trivial)
  apply attemptCreate_single
  exact
    (single_atCell rid hSingle).bind
      Idempotency.storedReply_single

theorem Request.operation_single
    (rid key : Uuid)
    (reqHash : String)
    (request : Request) :
    (request.operation rid key reqHash).Single := by
  have hRest :
      (onRest ((request.program rid).atCell rid) :
        DeskM inventory Inventory Reply).Single :=
    (single_atCell rid (request.single rid)).embed
  cases request with
  | createBooking scope startsAt endsAt =>
      exact createOnce_single createBooking_single _ _ _
  | createBlackout scope startsAt endsAt =>
      exact createOnce_single createBlackout_single _ _ _
  | _ => exact hRest

theorem besideAccounts_spares
    {T : Sig}
    {τ α : Type}
    (p : Prog T τ α) :
    (besideAccounts p).Spares credentials :=
  Prog.Spares.embed (fun _ _ => rfl) p

/- Every endpoint is a mutation as its contract asks for. -/
theorem Request.mutation_allowed
    {lax : Json → Option Bool}
    {rid key : Uuid}
    {reqHash : String}
    {preliminaries : DeskM inventory Inventory Unit}
    {request : Request}
    {m : Mutation (desk inventory) (Desk Inventory) Reply}
    (hMutation :
      request.mutation rid key reqHash preliminaries = some m) :
    (.mutate m :
      RealmRequest lax (desk inventory) (Desk Inventory)
        Reply).Allowed := by
  rcases Option.map_eq_some_iff.mp hMutation with
    ⟨authority, -, rfl⟩
  refine ⟨besideAccounts_spares _, ?_, besideAccounts_spares _⟩
  exact (request.operation_single rid key reqHash).embed

end PigBook

------------------------------------------------------------
-- A Member Who Is Disabled for a While
------------------------------------------------------------

namespace PigBook

open ReadCommitted
open Idempotency (desk Desk Inventory)

/- The simulations of the accounts and of the desk, together. -/
def realmRespond
    (env : Outside × Surroundings) :
    (q : (realm (desk inventory)).Query) →
      (realm (desk inventory)).Answer q ×
        (Outside × Surroundings)
| .inl q =>
    ((Users.respond env.1 q).1,
      ((Users.respond env.1 q).2, env.2))
| .inr q =>
    ((Idempotency.deskRespond env.2 q).1,
      (env.1, (Idempotency.deskRespond env.2 q).2))

/- Whatever is answered may be answered. -/
def realmWorld : World (realm (desk inventory)) where
  Carrier := Outside × Surroundings
  answers := fun _ _ _ _ => True
  advance := fun _ _ => True

def realmSimulator : Simulator realmWorld where
  respond := realmRespond
  answers := fun _ _ => trivial
  pass := id
  advance := fun _ => trivial

/- An administrator, a member, and a free meeting room. -/
def openingRealm : Realm (Desk Inventory) :=
  (accountsOf [adminRow 1, memberRow 101],
    Idempotency.emptyDesk)

abbrev RealmMove :=
  Move (realm (desk inventory)) (Realm (Desk Inventory))
    (RealmReply pydanticBool Reply)

/- The member books an hour of the meeting room. -/
def memberRequest (hour : ℕ) : Request :=
  .createBooking (.owner 101) (.utc (hours hour))
    (.utc (hours (hour + 1)))

def memberBooking
    (key : Uuid)
    (hour : ℕ) :
    Mutation (desk inventory) (Desk Inventory) Reply where
  policy := .authenticated
  principalId := 101
  preliminaries := besideAccounts (.done ())
  operation :=
    besideAccounts ((memberRequest hour).operation 7 key "")

/- The administrator disables or enables the member. -/
def switchMember
    (version : ℕ)
    (enabled : Bool) : PatchRequest pydanticBool where
  principalId := 1
  objectId := 101
  expectedVersion := version
  requestId := none
  body := [("enabled", .bool enabled)]
  data := { role := none, enabled := some enabled }
  admitted := by cases enabled <;> rfl

/- The requests of the five clients. -/
def memberRequests :
    ℕ → RealmRequest pydanticBool (desk inventory)
      (Desk Inventory) Reply
| 0 => .mutate (memberBooking 1 30)
| 1 => .mutate (memberBooking 2 32)
| 2 => .patch (switchMember 1 false)
| 3 => .patch (switchMember 2 true)
| _ => .mutate (memberBooking 3 32)

theorem memberRequests_allowed
    (pid : ℕ) :
    (memberRequests pid).Allowed := by
  have hBooking (key : Uuid) (hour : ℕ) :
      (.mutate (memberBooking key hour) :
        RealmRequest pydanticBool (desk inventory)
          (Desk Inventory) Reply).Allowed :=
    Request.mutation_allowed
      (show
        (memberRequest hour).mutation 7 key "" (.done ()) =
          some (memberBooking key hour) from rfl)
  unfold memberRequests
  split
  · exact hBooking 1 30
  · exact hBooking 2 32
  · trivial
  · trivial
  · exact hBooking 3 32

/-
  The second booking is authorized before the member is
  disabled, and revalidated after it.
-/
def memberMoves : List RealmMove :=
  [[.spawn 0 (memberRequests 0).program],
    List.replicate 20 (.step 0),
    [.spawn 1 (memberRequests 1).program],
    List.replicate 3 (.step 1),
    [.spawn 2 (memberRequests 2).program],
    List.replicate 20 (.step 2),
    List.replicate 20 (.step 1),
    [.spawn 3 (memberRequests 3).program],
    List.replicate 20 (.step 3),
    [.spawn 4 (memberRequests 4).program],
    List.replicate 20 (.step 4)].flatten

def memberRun :
    Sys realmWorld (Realm (Desk Inventory))
      (RealmReply pydanticBool Reply) :=
  (Sys.initial (W := realmWorld) openingRealm
    (⟨0, 0⟩, ⟨0, []⟩)).exec realmSimulator [0, 1, 2, 3, 4]
    memberMoves

theorem memberRun_reachable :
    Reachable realmPrograms
      (Sys.initial (W := realmWorld) openingRealm
        (⟨0, 0⟩, ⟨0, []⟩))
      memberRun := by
  refine Sys.exec_reachable (fun _ _ => rfl) ?_
  intro m hm
  cases m with
  | spawn pid p =>
      have hRequest : ∃ n, p = (memberRequests n).program := by
        simp only [memberMoves, List.flatten_cons,
          List.mem_append, List.mem_cons, List.mem_replicate,
          Move.spawn.injEq, reduceCtorEq, and_false,
          List.flatten_nil, List.not_mem_nil, or_false,
          false_or] at hm
        rcases hm with hm | hm | hm | hm | hm
        · exact ⟨0, hm.2⟩
        · exact ⟨1, hm.2⟩
        · exact ⟨2, hm.2⟩
        · exact ⟨3, hm.2⟩
        · exact ⟨4, hm.2⟩
      rcases hRequest with ⟨n, rfl⟩
      exact ⟨memberRequests n, memberRequests_allowed n, rfl⟩
  | step pid => trivial
  | pass => trivial

/- The last event is the commit of a member's mutation. -/
def mutationEnds
    {T : Sig}
    {τ ρ : Type}
    {lax : Json → Option Bool}
    (userId : Uuid) :
    List (Event (realm T) (Realm τ) (RealmReply lax ρ)) → Bool
| .committed _ _ _ _ (some (.mutated .authenticated id _)) :: _ =>
    id = userId
| _ => false

theorem mutationEnds_split
    {T : Sig}
    {τ ρ : Type}
    {lax : Json → Option Bool}
    {userId : Uuid}
    {trace :
      List (Event (realm T) (Realm τ) (RealmReply lax ρ))}
    (hEnds : mutationEnds userId trace = true) :
    ∃ pid log before after answer,
      trace =
        [] ++
          .committed pid log before after
              (some (.mutated .authenticated userId answer)) ::
            trace.tail := by
  unfold mutationEnds at hEnds
  split at hEnds
  · rw [of_decide_eq_true hEnds]
    exact ⟨_, _, _, _, _, rfl⟩
  · cases hEnds

end PigBook

------------------------------------------------------------
-- Revoked Authority
------------------------------------------------------------

namespace PigBook

open ReadCommitted

variable {T : Sig} {τ ρ : Type} {W : World (realm T)}
variable {lax : Json → Option Bool} {db : Realm τ}
variable {policy : Policy} {userId : Uuid}

/-
  In every run, a mutation that commits leaves the users
  alone, and its principal is enabled with an admitted role
  in the very state it commits to.  If the principal had no
  such authority at some earlier point, then in between
  another enabled administrator has restored it.
-/
theorem revoked_authority_stops_mutations
    {env : W.Carrier}
    {s : Sys W (Realm τ) (RealmReply lax ρ)}
    (hValid : db.1.Valid)
    (hReach : Reachable realmPrograms (Sys.initial db env) s)
    {newer older :
      List (Event (realm T) (Realm τ) (RealmReply lax ρ))}
    {pid : ℕ}
    {log : List (Action (realm T))}
    {before after : Realm τ}
    {answer : ρ}
    (hTrace :
      s.trace =
        newer ++
          .committed pid log before after
            (some (.mutated policy userId answer)) ::
          older) :
    (credentials after = credentials before ∧
      Authorized policy userId before.1) ∧
      ∀ between oldest, older = between ++ oldest →
        ¬ Authorized policy userId (latest db oldest).1 →
          ∃ c ∈ commits between, Restores policy userId c := by
  have hGood := realm_good hValid hReach
  have hLinked : Audited (Event.Follows db) s.trace :=
    hGood.linked
  have hAudited : Audited (fun _ e => realmEvent e) s.trace :=
    hGood.audited
  rw [hTrace] at hLinked hAudited
  have hFollows : before = latest db older :=
    hLinked.split.1
  have hEvent := hAudited.split
  refine ⟨hEvent.1, ?_⟩
  rintro between oldest rfl hNot
  apply authority_restored hLinked.split.2 hEvent.2 hNot
  rw [← hFollows]
  exact hEvent.1.2

/-
  The third booking comes through once the member has been
  enabled again, and the second one never does.
-/
theorem revoked_authority_stops_mutations_member :
    (commits memberRun.trace).length = 4 ∧
      ∃ c ∈ commits (memberRun.trace.tail.take 32),
        Restores .authenticated 101 c := by
  refine ⟨by decide +kernel, ?_⟩
  have hEnds : mutationEnds 101 memberRun.trace = true := by
    decide +kernel
  rcases mutationEnds_split hEnds with
    ⟨pid, log, before, after, answer, hTrace⟩
  have hAuthority :=
    revoked_authority_stops_mutations
      (accountsOf_valid (by decide +kernel))
      memberRun_reachable hTrace
  apply
    hAuthority.2 _ (memberRun.trace.tail.drop 32)
      (List.take_append_drop 32 _).symm
  decide +kernel

end PigBook
