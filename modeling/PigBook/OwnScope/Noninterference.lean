import PigBook.OwnScope.Answers

/-
  The routes of one's own rows tell nothing of other rows.

  Key definitions include:
    * `Database.Reachable`, `Database.Sound`
    * `SameRows`, `Agree`
    * `Database.New`
    * `OthersBooking`, `OthersEntry`, `Route.Foreign`
    * `refusal`

  Key theorems include:
    * `handle_response`
    * `handle_foreign`
    * `own_scope_noninterference`
-/

------------------------------------------------------------
-- Reachable Databases
------------------------------------------------------------

namespace PigBook.OwnScope

open ReadCommitted

/-
  The database comes about by a run in which no identifier is
  drawn twice, with whatever users and counters.
-/
structure Database.Reachable (d : Database) : Prop where
  run :
    ∃ (X : Circumstances)
        (resources : Uuid → Option Resource)
        (env : Surroundings)
        (s : Sys X.world (Uuid → Cell) Reply),
      AdmittedRun X resources env s ∧
        (picks drawnUuid s.trace).Nodup ∧
        s.db = d.inventory
  distinct : d.resourceIds.Nodup
  listed :
    ∀ rid,
      rid ∈ d.resourceIds ↔ (d.inventory rid).resource.isSome

/- What the routes rely on. -/
structure Database.Sound (d : Database) : Prop where
  cells : ∀ rid, (d.inventory rid).Consistent
  recorded : ∀ rid, (d.inventory rid).Recorded
  apart :
    ∀ rid rid' id, (d.inventory rid).Names id →
      (d.inventory rid').Names id → rid = rid'
  distinct : d.resourceIds.Nodup
  listed :
    ∀ rid, (d.inventory rid).resource.isSome →
      rid ∈ d.resourceIds

theorem Database.Reachable.sound
    {d : Database}
    (hReach : d.Reachable) :
    d.Sound := by
  rcases hReach.run with
    ⟨X, resources, env, s, hRun, hOnce, hDb⟩
  constructor
  · rw [← hDb]
    exact
      (hRun.commit_induction (fun _ _ => True) trivial
        (fun _ _ _ _ _ _ _ _ => trivial)).1
  · rw [← hDb]
    exact hRun.recorded.1
  · rw [← hDb]
    intro rid rid' id hName hName'
    exact hRun.names_apart hOnce hName hName'
  · exact hReach.distinct
  · intro rid hSome
    exact (hReach.listed rid).mpr hSome

end PigBook.OwnScope

------------------------------------------------------------
-- Own Rows
------------------------------------------------------------

namespace PigBook.OwnScope

open ReadCommitted

variable {d : Database}

theorem mem_rows
    {β : Type}
    {rids : List Uuid}
    {rows : Uuid → List β}
    {row : Uuid × β} :
    row ∈ rids.flatMap (fun rid =>
        (rows rid).map (fun b => (rid, b))) ↔
      row.1 ∈ rids ∧ row.2 ∈ rows row.1 := by
  rw [List.mem_flatMap]
  constructor
  · rintro ⟨rid, hRid, hRow⟩
    rcases List.mem_map.mp hRow with ⟨b, hb, rfl⟩
    exact ⟨hRid, hb⟩
  · rintro ⟨hRid, hRow⟩
    exact
      ⟨row.1, hRid, List.mem_map.mpr ⟨row.2, hRow, rfl⟩⟩

/- The tables are keyed by id. -/
theorem keyed_rows
    {β : Type}
    {rids : List Uuid}
    {rows : Uuid → List β}
    {key : β → Uuid}
    (hRids : rids.Nodup)
    (hKeyed : ∀ rid, Keyed key (rows rid))
    (hApart :
      ∀ rid rid', ∀ b ∈ rows rid, ∀ b' ∈ rows rid',
        key b = key b' → rid = rid') :
    Keyed (fun row => key row.2)
      (rids.flatMap (fun rid =>
        (rows rid).map (fun b => (rid, b)))) := by
  apply List.pairwise_flatMap.mpr
  constructor
  · intro rid _
    exact List.pairwise_map.mpr (hKeyed rid)
  · apply hRids.imp
    intro rid rid' hNe x hx y hy hEq
    rcases List.mem_map.mp hx with ⟨b, hb, rfl⟩
    rcases List.mem_map.mp hy with ⟨b', hb', rfl⟩
    exact hNe (hApart rid rid' b hb b' hb' hEq)

namespace Database.Sound

variable (hSound : d.Sound)

include hSound

theorem mem_bookings
    {rid : Uuid}
    {b : Booking} :
    (rid, b) ∈ d.bookings ↔
      b ∈ (d.inventory rid).bookings := by
  unfold Database.bookings
  rw [mem_rows]
  constructor
  · exact And.right
  · intro hRow
    exact
      ⟨hSound.listed rid
        ((hSound.cells rid).resource_isSome_of_booking hRow),
        hRow⟩

theorem mem_entries
    {rid : Uuid}
    {e : WaitlistEntry} :
    (rid, e) ∈ d.entries ↔
      e ∈ (d.inventory rid).entries := by
  unfold Database.entries
  rw [mem_rows]
  constructor
  · exact And.right
  · intro hRow
    exact
      ⟨hSound.listed rid
        ((hSound.cells rid).resource_isSome_of_entry hRow),
        hRow⟩

theorem keyed_bookings :
    Keyed (fun row : Uuid × Booking => row.2.id)
      d.bookings := by
  apply keyed_rows hSound.distinct
  · intro rid
    exact (hSound.cells rid).bookings.ids
  · intro rid rid' b hb b' hb' hEq
    apply hSound.apart rid rid' b.id
    · exact Or.inl ⟨b, hb, rfl⟩
    · exact Or.inl ⟨b', hb', hEq.symm⟩

theorem keyed_entries :
    Keyed (fun row : Uuid × WaitlistEntry => row.2.id)
      d.entries := by
  apply keyed_rows hSound.distinct
  · intro rid
    exact (hSound.cells rid).entries.ids
  · intro rid rid' e he e' he' hEq
    apply hSound.apart rid rid' e.id
    · exact Or.inr (Or.inl ⟨e, he, rfl⟩)
    · exact Or.inr (Or.inl ⟨e', he', hEq.symm⟩)

end Database.Sound

end PigBook.OwnScope

------------------------------------------------------------
-- Agreement
------------------------------------------------------------

namespace PigBook.OwnScope

open ReadCommitted

/-
  The databases have the same row of the principal and the
  same bookings and entries of the principal, the latter in
  whatever order.
-/
structure SameRows
    (p : Uuid)
    (d d' : Database) : Prop where
  user :
    d.users.filter (fun u => u.id = p) =
      d'.users.filter (fun u => u.id = p)
  bookings : (d.bookingsOf p).Perm (d'.bookingsOf p)
  entries : (d.entriesOf p).Perm (d'.entriesOf p)

/- They also agree on the counters of the principal. -/
structure Agree
    (W : Profile)
    (p : Uuid)
    (d d' : Database) : Prop extends SameRows p d d' where
  counters :
    ∀ k : RateLimits.BucketKey,
      k.identityHash = W.hashIdentity p.str →
        d.counters k = d'.counters k

/- The identifiers drawn are new to the database. -/
def Database.New
    (d : Database)
    (log : List (Action PigBook.inventory)) : Prop :=
  ∀ rid, ¬ Clash (d.inventory rid).Names log

variable {p : Uuid} {d d' : Database}

/- Selections from own rows agree. -/
theorem SameRows.bookings_filter
    (hSame : SameRows p d d')
    {q q' : Uuid × Booking → Bool}
    (hOwn :
      ∀ row, q' row = true ↔
        row.2.userId = some p ∧ q row = true) :
    (d.bookings.filter q').Perm (d'.bookings.filter q') := by
  have hFilter :
      ∀ rows : List (Uuid × Booking),
        rows.filter q' =
          (rows.filter (fun row => row.2.userId = some p)).filter
            q := by
    intro rows
    rw [List.filter_filter]
    apply List.filter_congr
    intro row _
    rw [Bool.eq_iff_iff, hOwn row]
    simp [and_comm]
  rw [hFilter, hFilter]
  exact hSame.bookings.filter q

theorem SameRows.entries_filter
    (hSame : SameRows p d d')
    {q q' : Uuid × WaitlistEntry → Bool}
    (hOwn :
      ∀ row, q' row = true ↔
        row.2.userId = p ∧ q row = true) :
    (d.entries.filter q').Perm (d'.entries.filter q') := by
  have hFilter :
      ∀ rows : List (Uuid × WaitlistEntry),
        rows.filter q' =
          (rows.filter (fun row => row.2.userId = p)).filter
            q := by
    intro rows
    rw [List.filter_filter]
    apply List.filter_congr
    intro row _
    rw [Bool.eq_iff_iff, hOwn row]
    simp [and_comm]
  rw [hFilter, hFilter]
  exact hSame.entries.filter q

theorem SameRows.mem_booking
    (hSame : SameRows p d d')
    (hSound : d.Sound)
    (hSound' : d'.Sound)
    {rid : Uuid}
    {b : Booking}
    (hOwn : b.userId = some p) :
    b ∈ (d.inventory rid).bookings ↔
      b ∈ (d'.inventory rid).bookings := by
  have hMem := hSame.bookings.mem_iff (a := (rid, b))
  unfold Database.bookingsOf at hMem
  rw [List.mem_filter, List.mem_filter, hSound.mem_bookings,
    hSound'.mem_bookings] at hMem
  simpa [hOwn] using hMem

theorem SameRows.mem_entry
    (hSame : SameRows p d d')
    (hSound : d.Sound)
    (hSound' : d'.Sound)
    {rid : Uuid}
    {e : WaitlistEntry}
    (hOwn : e.userId = p) :
    e ∈ (d.inventory rid).entries ↔
      e ∈ (d'.inventory rid).entries := by
  have hMem := hSame.entries.mem_iff (a := (rid, e))
  unfold Database.entriesOf at hMem
  rw [List.mem_filter, List.mem_filter, hSound.mem_entries,
    hSound'.mem_entries] at hMem
  simpa [hOwn] using hMem

end PigBook.OwnScope

------------------------------------------------------------
-- Reading
------------------------------------------------------------

namespace PigBook.OwnScope

open ReadCommitted

/- The page depends on the rows, not on their order. -/
theorem pageOf_perm
    {τ α β : Type}
    (query : PageQuery τ)
    {createdAt : α → ℤ}
    {id : α → Uuid}
    {schema : α → β}
    {rows rows' : List α}
    (hKeyed : Keyed id rows)
    (hPerm : rows.Perm rows') :
    pageOf query (fun x => newestFirst (createdAt x) (id x))
        schema rows =
      pageOf query (fun x => newestFirst (createdAt x) (id x))
        schema rows' := by
  let before : α → α → Prop := fun x y =>
    newestFirst (createdAt x) (id x) ≤
      newestFirst (createdAt y) (id y)
  have hTotal : Std.Total before :=
    ⟨fun x y => le_total _ _⟩
  have hTrans : IsTrans α before :=
    ⟨fun _ _ _ => le_trans⟩
  have hSorted :
      rows.insertionSort before =
        rows'.insertionSort before := by
    have hPerm' :
        (rows.insertionSort before).Perm
          (rows'.insertionSort before) :=
      (List.perm_insertionSort _ _).trans
        (hPerm.trans (List.perm_insertionSort _ _).symm)
    refine hPerm'.eq_of_pairwise ?_
      (List.pairwise_insertionSort before rows)
      (List.pairwise_insertionSort before rows')
    · intro x y hx hy hLe hGe
      have hSame := le_antisymm hLe hGe
      have hId : id x = id y :=
        congrArg (fun c => (ofLex c).2) hSame
      apply hKeyed.eq_of_key _ _ hId
      · exact (List.perm_insertionSort _ _).mem_iff.mp hx
      · apply hPerm.mem_iff.mpr
        exact (List.perm_insertionSort _ _).mem_iff.mp hy
  unfold pageOf
  rw [hPerm.length_eq]
  exact
    congrArg
      (fun sorted =>
        (⟨((sorted.drop query.offset).take
            query.limit).map schema, rows'.length,
          query.limit, query.offset⟩ : Page β))
      hSorted

variable {p : Uuid} {d d' : Database}

theorem SameRows.listOwnBookings
    (hSame : SameRows p d d')
    (hSound : d.Sound)
    (query : PageQuery BookingStatus) :
    listOwnBookings p query d = listOwnBookings p query d' := by
  apply pageOf_perm
  · exact hSound.keyed_bookings.sublist List.filter_sublist
  · apply hSame.bookings_filter
      (q := fun row =>
        row.2.kind = .reservation ∧
          ∀ status ∈ query.status, row.2.status = status)
    intro row
    simp

theorem SameRows.listOwnWaitlist
    (hSame : SameRows p d d')
    (hSound : d.Sound)
    (query : PageQuery EntryStatus) :
    listOwnWaitlist p query d = listOwnWaitlist p query d' := by
  apply pageOf_perm
  · exact hSound.keyed_entries.sublist List.filter_sublist
  · apply hSame.entries_filter
      (q := fun row =>
        ∀ status ∈ query.status, row.2.status = status)
    intro row
    simp

/- One, none or several rows are the same in any order. -/
theorem oneOrNone_perm
    {α : Type}
    {rows rows' : List α}
    (hPerm : rows.Perm rows') :
    oneOrNone rows = oneOrNone rows' := by
  have hLength := hPerm.length_eq
  match rows, rows' with
  | [], [] => rfl
  | [x], [y] =>
      have hSame := List.singleton_perm_singleton.mp hPerm
      exact congrArg (fun z => oneOrNone [z]) hSame
  | _ :: _ :: _, _ :: _ :: _ => rfl
  | [], _ :: _ => simp at hLength
  | _ :: _, [] => simp at hLength
  | [_], _ :: _ :: _ => simp at hLength
  | _ :: _ :: _, [_] => simp at hLength

theorem resolveOwnScope_perm
    {m : Method}
    {ifMatch : Option String}
    {rawId : Option Uuid}
    {rows rows' : Uuid → List Uuid}
    {message : String}
    (hPerm : ∀ id, (rows id).Perm (rows' id)) :
    resolveOwnScope m ifMatch rawId rows message =
      resolveOwnScope m ifMatch rawId rows' message := by
  have hSame : ∀ id,
      oneOrNone (rows id) = oneOrNone (rows' id) :=
    fun id => oneOrNone_perm (hPerm id)
  unfold resolveOwnScope
  simp only [hSame]

theorem SameRows.resolveBooking
    (hSame : SameRows p d d')
    (m : Method)
    (ifMatch : Option String)
    (rawId : Option Uuid) :
    resolveOwnBookingScope p d m ifMatch rawId =
      resolveOwnBookingScope p d' m ifMatch rawId := by
  apply resolveOwnScope_perm
  intro id
  apply List.Perm.map
  apply hSame.bookings_filter
    (q := fun row =>
      row.2.id = id ∧ row.2.kind = .reservation)
  intro row
  simp only [decide_eq_true_eq]
  constructor
  · rintro ⟨hId, hKind, hUser⟩
    exact ⟨hUser, hId, hKind⟩
  · rintro ⟨hUser, hId, hKind⟩
    exact ⟨hId, hKind, hUser⟩

theorem SameRows.resolveWaitlist
    (hSame : SameRows p d d')
    (m : Method)
    (ifMatch : Option String)
    (rawId : Option Uuid) :
    resolveOwnWaitlistScope p d m ifMatch rawId =
      resolveOwnWaitlistScope p d' m ifMatch rawId := by
  apply resolveOwnScope_perm
  intro id
  apply List.Perm.map
  apply hSame.entries_filter (q := fun row => row.2.id = id)
  intro row
  simp only [decide_eq_true_eq]
  exact and_comm

theorem SameRows.getOwnBooking
    (hSame : SameRows p d d')
    (scope : AuthorizedScope) :
    getOwnBooking p scope d = getOwnBooking p scope d' := by
  unfold OwnScope.getOwnBooking
  rw [oneOrNone_perm]
  apply hSame.bookings_filter
    (q := fun row =>
      row.2.id = scope.objectId ∧ row.2.kind = .reservation)
  intro row
  simp only [decide_eq_true_eq]
  constructor
  · rintro ⟨hId, hKind, hUser⟩
    exact ⟨hUser, hId, hKind⟩
  · rintro ⟨hUser, hId, hKind⟩
    exact ⟨hId, hKind, hUser⟩

theorem SameRows.authenticate
    (hSame : SameRows p d d') :
    authenticate p d.users = authenticate p d'.users := by
  unfold OwnScope.authenticate
  rw [hSame.user]

end PigBook.OwnScope

------------------------------------------------------------
-- Mutations
------------------------------------------------------------

namespace PigBook.OwnScope

open ReadCommitted

variable {clocks : Clocks} {o o' : Outside}
variable {p : Uuid} {d d' : Database}

/- What a resolution has found. -/
theorem resolveOwnScope_ok
    {m : Method}
    {ifMatch : Option String}
    {rawId : Option Uuid}
    {rows : Uuid → List Uuid}
    {message : String}
    {scope : AuthorizedScope}
    (hResolved :
      resolveOwnScope m ifMatch rawId rows message =
        .ok scope) :
    scope.resourceId ∈ rows scope.objectId := by
  unfold resolveOwnScope at hResolved
  split at hResolved
  · cases hResolved
  cases rawId with
  | none => cases hResolved
  | some id =>
      dsimp only at hResolved
      split at hResolved
      · cases hResolved
      · cases hResolved
      · rename_i rid hOne
        cases hResolved
        unfold oneOrNone at hOne
        split at hOne
        · cases hOne
        · rename_i row hRows
          cases hOne
          rw [hRows]
          exact List.mem_singleton.mpr rfl
        · cases hOne

theorem Database.Sound.resolvedBooking
    (hSound : d.Sound)
    {m : Method}
    {ifMatch : Option String}
    {rawId : Option Uuid}
    {scope : AuthorizedScope}
    (hResolved :
      resolveOwnBookingScope p d m ifMatch rawId =
        .ok scope) :
    ∃ b ∈ (d.inventory scope.resourceId).bookings,
      b.id = scope.objectId ∧ b.kind = .reservation ∧
        b.userId = some p := by
  have hMem := resolveOwnScope_ok hResolved
  rcases List.mem_map.mp hMem with ⟨⟨rid, b⟩, hRow, hRid⟩
  rcases List.mem_filter.mp hRow with ⟨hTable, hSelects⟩
  change rid = scope.resourceId at hRid
  subst hRid
  exact
    ⟨b, hSound.mem_bookings.mp hTable,
      of_decide_eq_true hSelects⟩

theorem Database.Sound.resolvedEntry
    (hSound : d.Sound)
    {m : Method}
    {ifMatch : Option String}
    {rawId : Option Uuid}
    {scope : AuthorizedScope}
    (hResolved :
      resolveOwnWaitlistScope p d m ifMatch rawId =
        .ok scope) :
    ∃ e ∈ (d.inventory scope.resourceId).entries,
      e.id = scope.objectId ∧ e.userId = p := by
  have hMem := resolveOwnScope_ok hResolved
  rcases List.mem_map.mp hMem with ⟨⟨rid, e⟩, hRow, hRid⟩
  rcases List.mem_filter.mp hRow with ⟨hTable, hSelects⟩
  change rid = scope.resourceId at hRid
  subst hRid
  exact
    ⟨e, hSound.mem_entries.mp hTable,
      of_decide_eq_true hSelects⟩

/- The one booking that the owner's service selects. -/
theorem selectsBooking_row
    {s : Cell}
    (hCell : s.Consistent)
    {id : Uuid}
    {b : Booking}
    (hRow : b ∈ s.bookings)
    (hId : b.id = id)
    (hKind : b.kind = .reservation)
    (hUser : b.userId = some p) :
    s.bookings.filter ((Scope.owner p).selectsBooking id) =
      (some b).toList := by
  apply hCell.bookings.ids.filter_eq_singleton hRow
  intro x hx
  unfold Scope.selectsBooking
  rw [decide_eq_true_iff]
  constructor
  · rintro ⟨hOther, -⟩
    exact hOther.trans hId.symm
  · intro hSame
    rw [hCell.bookings.ids.eq_of_key hx hRow hSame]
    exact ⟨hId, hKind, fun _ => hUser⟩

theorem selectsEntry_row
    {s : Cell}
    (hCell : s.Consistent)
    {id : Uuid}
    {e : WaitlistEntry}
    (hRow : e ∈ s.entries)
    (hId : e.id = id)
    (hUser : e.userId = p) :
    s.entries.filter ((Scope.owner p).selectsEntry id) =
      (some e).toList := by
  apply hCell.entries.ids.filter_eq_singleton hRow
  intro x hx
  unfold Scope.selectsEntry
  rw [decide_eq_true_iff]
  constructor
  · rintro ⟨hOther, -⟩
    exact hOther.trans hId.symm
  · intro hSame
    rw [hCell.entries.ids.eq_of_key hx hRow hSame]
    exact ⟨hId, hUser⟩

/- The response of a transaction, by what it answers. -/
def transactResponse
    (p : Uuid)
    (scope : AuthorizedScope)
    (answer : ℕ → Except Error Reply)
    (users : List User) : Response :=
  match scope.expectedVersion with
  | none => internalError
  | some version =>
      match authenticate p users with
      | .error response => response
      | .ok () =>
          match answer version with
          | .ok reply => reply.response
          | .error e => e.response

theorem transact_response
    {scope : AuthorizedScope}
    {program : ℕ → Tx Reply}
    (answer : ℕ → ℤ → Except Error Reply)
    {refused : ℕ → Tx Reply → Prop}
    (hAnswers :
      ∀ version,
        (program version).wp
          (fun log _ reply => Answers (answer version) log reply)
          (Refused (d.inventory scope.resourceId).Names
            (answer version))
          [] (d.inventory scope.resourceId))
    (hLawfully :
      ∀ version,
        Lawfully True (d.inventory scope.resourceId).Names
          (refused version) (program version) []
          (d.inventory scope.resourceId))
    (hNew :
      d.New (transact clocks o p scope program d).log) :
    (transact clocks o p scope program d).response =
      transactResponse p scope
        (fun version => answer version (clocks.database 0))
        d.users := by
  unfold transact at hNew ⊢
  unfold transactResponse
  cases hVersion : scope.expectedVersion with
  | none => rfl
  | some version =>
      rw [hVersion] at hNew
      cases hUser : authenticate p d.users with
      | error response => rfl
      | ok u =>
          rw [hUser] at hNew
          dsimp only at hNew ⊢
          have hResult :
              ((program version).runAlone
                  (o.inventoryAt clocks)
                  (d.inventory scope.resourceId)).result =
                answer version (clocks.database 0) := by
            apply runAlone_answer (hAnswers version)
              (hLawfully version)
            have hNo := hNew scope.resourceId
            split at hNo
            · exact hNo
            · exact hNo
          rw [← hResult]
          split
          · rename_i hOk
            rw [hOk]
          · rename_i hError
            rw [hError]

end PigBook.OwnScope

------------------------------------------------------------
-- The Budget
------------------------------------------------------------

namespace PigBook.OwnScope

open ReadCommitted
open RateLimits

variable {W : Profile} {clocks : Clocks} {o o' : Outside}
variable {p : Uuid} {d d' : Database}

/- The bucket of an identity at the moment of a request. -/
def bucketAt
    (scope identityHash : String)
    (limit windowSeconds : ℕ)
    (clocks : Clocks) : RateLimitBucket where
  scope := scope
  identityHash := identityHash
  windowStart :=
    windowStartFor (clocks.application 0) windowSeconds
  limit := limit
  windowSeconds := windowSeconds

/- What a request for one bucket is told, by its count. -/
def limitedBy
    (b : RateLimitBucket)
    (count : ℕ)
    (clocks : Clocks) : Except LimiterError LimiterReply :=
  if count ≤ maxInteger then
    if b.limit < count then
      .ok (.consumed [b]
        (some (retryAfterFor (clocks.application 1)
          b.windowSeconds)))
    else
      .ok (.consumed [b] none)
  else
    .error .integerOutOfRange

theorem single_result
    {scope identityHash : String}
    {limit windowSeconds : ℕ}
    {hPositive : 0 < windowSeconds}
    {hShort : windowSeconds ≤ 3600}
    (c : Counters) :
    ((RateLimited.single scope identityHash limit
        windowSeconds hPositive hShort).program.runAlone
      (o.limiterAt clocks) c).result =
      (let b :=
        bucketAt scope identityHash limit windowSeconds clocks
      limitedBy b (nextCount b.key c) clocks) := by
  let b :=
    bucketAt scope identityHash limit windowSeconds clocks
  let log : List (Action limiter) :=
    [⟨.applicationTime, clocks.application 0, []⟩]
  have hRun :
      (RateLimited.single scope identityHash limit
          windowSeconds hPositive hShort).program.runAlone
        (o.limiterAt clocks) c =
      Prog.alone (o.limiterAt clocks)
        (consumeEach [b] none >>= fun maxRetryAfter =>
          return .consumed [b] maxRetryAfter) log c c := rfl
  rw [hRun]
  unfold limitedBy consumeEach upsertCount
  dsimp only
  by_cases hFits : nextCount b.key c ≤ maxInteger
  · by_cases hMore : b.limit < nextCount b.key c
    · simp only [Prog.bind_eq, Prog.bind, Prog.alone,
        if_pos hFits, if_pos hMore]
      rw [if_pos hFits, if_pos hMore]
      rfl
    · simp only [Prog.bind_eq, Prog.bind, Prog.alone,
        if_pos hFits, if_neg hMore]
      rw [if_pos hFits, if_neg hMore]
      rfl
  · simp only [Prog.bind_eq, Prog.bind, Prog.alone,
      if_neg hFits]
    rw [if_neg hFits]
    rfl

/- The counters of the principal decide about the budget. -/
theorem rateLimit_result
    {c c' : Counters}
    (hCounters :
      ∀ k : BucketKey,
        k.identityHash = W.hashIdentity p.str → c k = c' k)
    (m : Method) :
    ((W.rateLimit p m).program.runAlone (o.limiterAt clocks)
        c).result =
      ((W.rateLimit p m).program.runAlone
        (o'.limiterAt clocks) c').result := by
  unfold Profile.rateLimit checkReadRateLimit
    checkMutationRateLimit consumeUserBucket
  split
  · rw [single_result, single_result]
    unfold nextCount
    dsimp only
    rw [hCounters _ rfl]
  · rw [single_result, single_result]
    unfold nextCount
    dsimp only
    rw [hCounters _ rfl]

/- How a request over its budget is answered. -/
def overBudget
    (result : Except LimiterError LimiterReply) :
    Option Response :=
  match result with
  | .error _ => some internalError
  | .ok (.consumed _ (some retryAfter)) =>
      some (rateLimited retryAfter)
  | .ok _ => none

/- The response to a request that is not served. -/
def turnedAway
    (W : Profile)
    (clocks : Clocks)
    (o : Outside)
    (p : Uuid)
    (m : Method)
    (d : Database) : Option Response :=
  match authenticate p d.users with
  | .error response => some response
  | .ok () =>
      overBudget
        ((W.rateLimit p m).program.runAlone
          (o.limiterAt clocks) d.counters).result

theorem Agree.turnedAway
    (hAgree : Agree W p d d')
    (m : Method) :
    turnedAway W clocks o p m d =
      turnedAway W clocks o' p m d' := by
  unfold OwnScope.turnedAway
  rw [hAgree.authenticate, rateLimit_result hAgree.counters]

/- A request is turned away or served; only counters change. -/
theorem handle_eq
    (W : Profile)
    (clocks : Clocks)
    (o : Outside)
    (p : Uuid)
    (d : Database)
    (request : Request) :
    ∃ c : Counters,
      handle W clocks o p request d =
        match turnedAway W clocks o p request.route.method d with
        | some response =>
            .plain response { d with counters := c }
        | none =>
            serve clocks o p request
              { d with counters := c } := by
  unfold handle turnedAway
  cases authenticate p d.users with
  | error response => exact ⟨d.counters, rfl⟩
  | ok u =>
      apply Exists.intro
      dsimp only
      unfold overBudget
      generalize
        ((W.rateLimit p request.route.method).program.runAlone
          (o.limiterAt clocks) d.counters).result = result
      match result with
      | .error _ => rfl
      | .ok (.consumed _ (some _)) => rfl
      | .ok (.consumed _ none) => rfl
      | .ok (.purged _) => rfl

end PigBook.OwnScope

------------------------------------------------------------
-- The Response
------------------------------------------------------------

namespace PigBook.OwnScope

open ReadCommitted

variable {clocks : Clocks} {o o' : Outside}
variable {p : Uuid} {d d' : Database}

theorem addressed_of_ok
    {resolved : Except Response AuthorizedScope}
    {problems : List Problem}
    {endpoint : AuthorizedScope → Handled}
    {scope : AuthorizedScope}
    (hResolved : resolved = .ok scope)
    (hValid : problems = []) :
    addressed resolved problems d endpoint =
      endpoint scope := by
  unfold addressed validated
  rw [hResolved]
  exact if_pos hValid

/- Endpoints that answer alike are addressed alike. -/
theorem addressed_response
    {resolved : Except Response AuthorizedScope}
    {problems : List Problem}
    {endpoint endpoint' : AuthorizedScope → Handled}
    (hEndpoints :
      ∀ scope, resolved = .ok scope → problems = [] →
        (endpoint scope).response =
          (endpoint' scope).response) :
    (addressed resolved problems d endpoint).response =
      (addressed resolved problems d' endpoint').response := by
  cases hResolved : resolved with
  | error response => rfl
  | ok scope =>
      by_cases hValid : problems = []
      · rw [addressed_of_ok rfl hValid,
          addressed_of_ok rfl hValid]
        exact hEndpoints scope hResolved hValid
      · unfold addressed validated
        dsimp only
        rw [if_neg hValid, if_neg hValid]
        rfl

/- Cancellations of the same own booking. -/
theorem cancel_response
    (hSound : d.Sound)
    (hSound' : d'.Sound)
    (hSame : SameRows p d d')
    {scope : AuthorizedScope}
    {b : Booking}
    (hRow : b ∈ (d.inventory scope.resourceId).bookings)
    (hId : b.id = scope.objectId)
    (hKind : b.kind = .reservation)
    (hUser : b.userId = some p)
    (body : Cancel)
    {program : ℕ → Tx Reply}
    (hProgram :
      program = fun version =>
        PigBook.cancelBooking scope.resourceId (.owner p)
          scope.objectId version body.reason)
    (hNew : d.New (transact clocks o p scope program d).log)
    (hNew' :
      d'.New (transact clocks o' p scope program d').log) :
    (transact clocks o p scope program d).response =
      (transact clocks o' p scope program d').response := by
  have hAny :
      ∀ (d : Database) (o : Outside), d.Sound →
        b ∈ (d.inventory scope.resourceId).bookings →
        d.New (transact clocks o p scope program d).log →
          (transact clocks o p scope program d).response =
            transactResponse p scope
              (fun version =>
                cancelAnswer scope.resourceId version
                  (clocks.database 0) body.reason (some b))
              d.users := by
    intro d o hSound hRow hNew
    subst hProgram
    have hCell := hSound.cells scope.resourceId
    apply transact_response (fun version now =>
      cancelAnswer scope.resourceId version now body.reason
          (some b))
    · intro version
      exact
        cancelBooking_answers hCell version body.reason
          (selectsBooking_row hCell hRow hId hKind hUser)
    · intro version
      exact
        cancelBooking_lawfully hCell
          (hSound.recorded scope.resourceId)
          scope.resourceId _ _ _ body.short
    · exact hNew
  rw [hAny d o hSound hRow hNew,
    hAny d' o' hSound'
      ((hSame.mem_booking hSound hSound' hUser).mp hRow)
      hNew']
  unfold transactResponse
  rw [hSame.authenticate]

/- Withdrawals of the same own entry. -/
theorem decline_response
    (hSound : d.Sound)
    (hSound' : d'.Sound)
    (hSame : SameRows p d d')
    {scope : AuthorizedScope}
    {e : WaitlistEntry}
    (hRow : e ∈ (d.inventory scope.resourceId).entries)
    (hId : e.id = scope.objectId)
    (hUser : e.userId = p)
    {program : ℕ → Tx Reply}
    (hProgram :
      program = fun version =>
        declineEntry scope.resourceId (.owner p)
          scope.objectId version)
    (hNew : d.New (transact clocks o p scope program d).log)
    (hNew' :
      d'.New (transact clocks o' p scope program d').log) :
    (transact clocks o p scope program d).response =
      (transact clocks o' p scope program d').response := by
  have hAny :
      ∀ (d : Database) (o : Outside), d.Sound →
        e ∈ (d.inventory scope.resourceId).entries →
        d.New (transact clocks o p scope program d).log →
          (transact clocks o p scope program d).response =
            transactResponse p scope
              (fun version =>
                declineAnswer scope.resourceId version
                  (clocks.database 0) (some e))
              d.users := by
    intro d o hSound hRow hNew
    subst hProgram
    have hCell := hSound.cells scope.resourceId
    apply transact_response (fun version now =>
      declineAnswer scope.resourceId version now (some e))
    · intro version
      exact
        declineEntry_answers hCell version
          (selectsEntry_row hCell hRow hId hUser)
    · intro version
      exact
        declineEntry_lawfully hCell scope.resourceId _ _ _
    · exact hNew
  rw [hAny d o hSound hRow hNew,
    hAny d' o' hSound'
      ((hSame.mem_entry hSound hSound' hUser).mp hRow)
      hNew']
  unfold transactResponse
  rw [hSame.authenticate]

/- The own booking with the id, where there is one. -/
def Database.held
    (d : Database)
    (p rid id : Uuid) : Option Booking :=
  ((d.inventory rid).bookings.filter (fun b =>
    b.id = id ∧ b.userId = some p)).head?

theorem Database.Sound.held_row
    (hSound : d.Sound)
    {rid : Uuid}
    {b : Booking}
    (hRow : b ∈ (d.inventory rid).bookings)
    (hUser : b.userId = some p) :
    d.held p rid b.id = some b := by
  have hIds := (hSound.cells rid).bookings.ids
  unfold Database.held
  rw [hIds.filter_eq_singleton hRow]
  · rfl
  · intro x hx
    rw [decide_eq_true_iff]
    constructor
    · exact And.left
    · intro hSame
      rw [hIds.eq_of_key hx hRow hSame]
      exact ⟨rfl, hUser⟩

/- Acceptances of the same own entry. -/
theorem accept_response
    (hSound : d.Sound)
    (hSound' : d'.Sound)
    (hSame : SameRows p d d')
    {scope : AuthorizedScope}
    {e : WaitlistEntry}
    (hRow : e ∈ (d.inventory scope.resourceId).entries)
    (hId : e.id = scope.objectId)
    (hUser : e.userId = p)
    {program : ℕ → Tx Reply}
    (hProgram :
      program = fun version =>
        acceptOffer scope.resourceId (.owner p)
          scope.objectId version)
    (hNew : d.New (transact clocks o p scope program d).log)
    (hNew' :
      d'.New (transact clocks o' p scope program d').log) :
    (transact clocks o p scope program d).response =
      (transact clocks o' p scope program d').response := by
  have hAny :
      ∀ (x : Database) (o : Outside), x.Sound →
        e ∈ (x.inventory scope.resourceId).entries →
        (∀ b ∈ (x.inventory scope.resourceId).bookings,
          b.userId = some p →
            d.held p scope.resourceId b.id = some b) →
        x.New (transact clocks o p scope program x).log →
          (transact clocks o p scope program x).response =
            transactResponse p scope
              (fun version =>
                acceptAnswer scope.resourceId version
                  (clocks.database 0)
                  (d.held p scope.resourceId) (some e))
              x.users := by
    intro x o hSound hRow hHeld hNew
    subst hProgram
    have hCell := hSound.cells scope.resourceId
    apply transact_response (fun version now =>
      acceptAnswer scope.resourceId version now
        (d.held p scope.resourceId) (some e))
    · intro version
      exact
        acceptOffer_answers hCell version
          (selectsEntry_row hCell hRow hId hUser) hHeld
    · intro version
      exact
        acceptOffer_lawfully hCell
          (hSound.recorded scope.resourceId)
          scope.resourceId _ _ _
    · exact hNew
  have hHeld' :
      ∀ b ∈ (d'.inventory scope.resourceId).bookings,
        b.userId = some p →
          d.held p scope.resourceId b.id = some b := by
    intro b hRowB hUserB
    exact
      hSound.held_row
        ((hSame.mem_booking hSound hSound' hUserB).mpr hRowB)
        hUserB
  rw [hAny d o hSound hRow
      (fun b hRowB hUserB => hSound.held_row hRowB hUserB)
      hNew,
    hAny d' o' hSound'
      ((hSame.mem_entry hSound hSound' hUser).mp hRow)
      hHeld' hNew']
  unfold transactResponse
  rw [hSame.authenticate]

/- Past the budget, the responses are the same. -/
theorem serve_response
    (hSound : d.Sound)
    (hSound' : d'.Sound)
    (hSame : SameRows p d d')
    (request : Request)
    (hNew : d.New (serve clocks o p request d).log)
    (hNew' : d'.New (serve clocks o' p request d').log) :
    (serve clocks o p request d).response =
      (serve clocks o' p request d').response := by
  rcases request with ⟨route, problems⟩
  cases route with
  | listBookings query =>
      unfold serve validated
      dsimp only
      rw [hSame.listOwnBookings hSound]
      split
      · rfl
      · rfl
  | listWaitlist query =>
      unfold serve validated
      dsimp only
      rw [hSame.listOwnWaitlist hSound]
      split
      · rfl
      · rfl
  | getBooking id =>
      unfold serve
      dsimp only
      rw [← hSame.resolveBooking]
      apply addressed_response
      intro scope _ _
      exact hSame.getOwnBooking scope
  | cancelBooking id ifMatch body =>
      unfold serve at hNew hNew' ⊢
      dsimp only at hNew hNew' ⊢
      rw [← hSame.resolveBooking] at hNew' ⊢
      apply addressed_response
      intro scope hResolved hValid
      rw [addressed_of_ok hResolved hValid] at hNew hNew'
      rcases hSound.resolvedBooking hResolved with
        ⟨b, hRow, hId, hKind, hUser⟩
      exact
        cancel_response hSound hSound' hSame hRow hId hKind
          hUser body rfl hNew hNew'
  | deleteWaitlist id ifMatch =>
      unfold serve at hNew hNew' ⊢
      dsimp only at hNew hNew' ⊢
      rw [← hSame.resolveWaitlist] at hNew' ⊢
      apply addressed_response
      intro scope hResolved hValid
      rw [addressed_of_ok hResolved hValid] at hNew hNew'
      rcases hSound.resolvedEntry hResolved with
        ⟨e, hRow, hId, hUser⟩
      exact
        decline_response hSound hSound' hSame hRow hId hUser
          rfl hNew hNew'
  | acceptWaitlist id ifMatch =>
      unfold serve at hNew hNew' ⊢
      dsimp only at hNew hNew' ⊢
      rw [← hSame.resolveWaitlist] at hNew' ⊢
      apply addressed_response
      intro scope hResolved hValid
      rw [addressed_of_ok hResolved hValid] at hNew hNew'
      rcases hSound.resolvedEntry hResolved with
        ⟨e, hRow, hId, hUser⟩
      exact
        accept_response hSound hSound' hSame hRow hId hUser
          rfl hNew hNew'

/- The budget leaves the rows as they are. -/
theorem Database.Sound.counted
    (hSound : d.Sound)
    (c : RateLimits.Counters) :
    ({ d with counters := c } : Database).Sound := by
  constructor
  · exact hSound.cells
  · exact hSound.recorded
  · exact hSound.apart
  · exact hSound.distinct
  · exact hSound.listed

theorem SameRows.counted
    (hSame : SameRows p d d')
    (c c' : RateLimits.Counters) :
    SameRows p { d with counters := c }
      { d' with counters := c' } := by
  constructor
  · exact hSame.user
  · exact hSame.bookings
  · exact hSame.entries

/- The whole response is the same. -/
theorem handle_response
    (hSound : d.Sound)
    (hSound' : d'.Sound)
    (hAgree : Agree W p d d')
    (request : Request)
    (hNew : d.New (handle W clocks o p request d).log)
    (hNew' : d'.New (handle W clocks o' p request d').log) :
    (handle W clocks o p request d).response =
      (handle W clocks o' p request d').response := by
  rcases handle_eq W clocks o p d request with ⟨c, hHandle⟩
  rcases handle_eq W clocks o' p d' request with
    ⟨c', hHandle'⟩
  rw [hHandle] at hNew ⊢
  rw [hHandle', ← hAgree.turnedAway] at hNew' ⊢
  cases hTurned :
      turnedAway W clocks o p request.route.method d with
  | some response => rfl
  | none =>
      rw [hTurned] at hNew hNew'
      exact
        serve_response (hSound.counted c) (hSound'.counted c')
          (hAgree.toSameRows.counted c c') request hNew hNew'

end PigBook.OwnScope

------------------------------------------------------------
-- The Rows of Others
------------------------------------------------------------

namespace PigBook.OwnScope

open ReadCommitted

/-
  The id is of another user's booking, of a blackout, or of no
  booking at all.
-/
inductive OthersBooking
    (p : Uuid)
    (d : Database)
    (id : Uuid) : Prop
  | foreign
      {row : Uuid × Booking}
      {q : Uuid}
      (hRow : row ∈ d.bookings)
      (hId : row.2.id = id)
      (hUser : row.2.userId = some q)
      (hOther : q ≠ p)
  | blackout
      {row : Uuid × Booking}
      (hRow : row ∈ d.bookings)
      (hId : row.2.id = id)
      (hKind : row.2.kind = .blackout)
  | unknown (hNone : ∀ row ∈ d.bookings, row.2.id ≠ id)

/- The id is of another user's entry, or of no entry. -/
inductive OthersEntry
    (p : Uuid)
    (d : Database)
    (id : Uuid) : Prop
  | foreign
      {row : Uuid × WaitlistEntry}
      (hRow : row ∈ d.entries)
      (hId : row.2.id = id)
      (hOther : row.2.userId ≠ p)
  | unknown (hNone : ∀ row ∈ d.entries, row.2.id ≠ id)

/- The request addresses a row that is not the principal's. -/
def Route.Foreign
    (p : Uuid)
    (d : Database) : Route → Prop
| getBooking (some id) => OthersBooking p d id
| cancelBooking (some id) _ _ => OthersBooking p d id
| deleteWaitlist (some id) _ => OthersEntry p d id
| acceptWaitlist (some id) _ => OthersEntry p d id
| _ => False

def Route.ifMatch : Route → Option String
| cancelBooking _ ifMatch _ => ifMatch
| deleteWaitlist _ ifMatch => ifMatch
| acceptWaitlist _ ifMatch => ifMatch
| _ => none

/- What the routes say of an id that they do not find. -/
def Route.missing : Route → String
| deleteWaitlist _ _ => "Waitlist entry not found"
| acceptWaitlist _ _ => "Waitlist entry not found"
| _ => "Booking not found"

/- The header is read before a row is looked for. -/
def notFoundFor
    (m : Method)
    (ifMatch : Option String)
    (message : String) : Response :=
  match expectedVersion m ifMatch with
  | .error response => response
  | .ok _ => objectNotFound message

/-
  The answer to a request for a row of someone else; it has
  nothing of the id or of the row.
-/
def refusal
    (W : Profile)
    (clocks : Clocks)
    (o : Outside)
    (p : Uuid)
    (m : Method)
    (ifMatch : Option String)
    (message : String)
    (d : Database) : Response :=
  match turnedAway W clocks o p m d with
  | some response => response
  | none => notFoundFor m ifMatch message

variable {W : Profile} {clocks : Clocks} {o : Outside}
variable {p : Uuid} {d : Database}

theorem OthersBooking.not_own
    {id : Uuid}
    (hOthers : OthersBooking p d id)
    (hSound : d.Sound)
    {row : Uuid × Booking}
    (hRow : row ∈ d.bookings)
    (hId : row.2.id = id)
    (hKind : row.2.kind = .reservation) :
    row.2.userId ≠ some p := by
  have hKeyed := hSound.keyed_bookings
  intro hOwn
  cases hOthers with
  | foreign hRow' hId' hUser hOther =>
      rw [hKeyed.eq_of_key hRow' hRow (hId'.trans hId.symm),
        hOwn] at hUser
      exact hOther (Option.some.inj hUser).symm
  | blackout hRow' hId' hKind' =>
      rw [hKeyed.eq_of_key hRow' hRow (hId'.trans hId.symm),
        hKind] at hKind'
      cases hKind'
  | unknown hNone => exact hNone row hRow hId

theorem OthersEntry.not_own
    {id : Uuid}
    (hOthers : OthersEntry p d id)
    (hSound : d.Sound)
    {row : Uuid × WaitlistEntry}
    (hRow : row ∈ d.entries)
    (hId : row.2.id = id) :
    row.2.userId ≠ p := by
  cases hOthers with
  | foreign hRow' hId' hOther =>
      rw [hSound.keyed_entries.eq_of_key hRow' hRow
        (hId'.trans hId.symm)] at hOther
      exact hOther
  | unknown hNone => exact absurd hId (hNone row hRow)

/- A resolution that finds no row of the principal. -/
theorem resolveOwnScope_none
    {m : Method}
    {ifMatch : Option String}
    {id : Uuid}
    {rows : Uuid → List Uuid}
    {message : String}
    (hNone : rows id = []) :
    resolveOwnScope m ifMatch (some id) rows message =
      .error (notFoundFor m ifMatch message) := by
  unfold resolveOwnScope notFoundFor
  cases expectedVersion m ifMatch with
  | error response => rfl
  | ok version =>
      dsimp only
      rw [hNone]
      rfl

theorem OthersBooking.resolve
    {id : Uuid}
    (hOthers : OthersBooking p d id)
    (hSound : d.Sound)
    (m : Method)
    (ifMatch : Option String) :
    resolveOwnBookingScope p d m ifMatch (some id) =
      .error (notFoundFor m ifMatch "Booking not found") := by
  apply resolveOwnScope_none
  rw [List.map_eq_nil_iff, List.filter_eq_nil_iff]
  intro row hRow hSelects
  rcases of_decide_eq_true hSelects with ⟨hId, hKind, hUser⟩
  exact hOthers.not_own hSound hRow hId hKind hUser

theorem OthersEntry.resolve
    {id : Uuid}
    (hOthers : OthersEntry p d id)
    (hSound : d.Sound)
    (m : Method)
    (ifMatch : Option String) :
    resolveOwnWaitlistScope p d m ifMatch (some id) =
      .error
        (notFoundFor m ifMatch "Waitlist entry not found") := by
  apply resolveOwnScope_none
  rw [List.map_eq_nil_iff, List.filter_eq_nil_iff]
  intro row hRow hSelects
  rcases of_decide_eq_true hSelects with ⟨hId, hUser⟩
  exact hOthers.not_own hSound hRow hId hUser

/- Past the budget, a foreign id is refused. -/
theorem serve_foreign
    (hSound : d.Sound)
    (request : Request)
    (hForeign : request.route.Foreign p d) :
    serve clocks o p request d =
      .plain
        (notFoundFor request.route.method
          request.route.ifMatch request.route.missing) d := by
  rcases request with ⟨route, problems⟩
  unfold serve
  match route, hForeign with
  | .getBooking (some id), hOthers =>
      dsimp only
      rw [OthersBooking.resolve hOthers hSound]
      rfl
  | .cancelBooking (some id) ifMatch body, hOthers =>
      dsimp only
      rw [OthersBooking.resolve hOthers hSound]
      rfl
  | .deleteWaitlist (some id) ifMatch, hOthers =>
      dsimp only
      rw [OthersEntry.resolve hOthers hSound]
      rfl
  | .acceptWaitlist (some id) ifMatch, hOthers =>
      dsimp only
      rw [OthersEntry.resolve hOthers hSound]
      rfl

theorem Route.Foreign.counted
    {route : Route}
    (hForeign : route.Foreign p d)
    (c : RateLimits.Counters) :
    route.Foreign p { d with counters := c } := by
  have hBooking :
      ∀ id, OthersBooking p d id →
        OthersBooking p { d with counters := c } id := by
    intro id hOthers
    cases hOthers with
    | foreign hRow hId hUser hOther =>
        exact .foreign hRow hId hUser hOther
    | blackout hRow hId hKind =>
        exact .blackout hRow hId hKind
    | unknown hNone => exact .unknown hNone
  have hEntry :
      ∀ id, OthersEntry p d id →
        OthersEntry p { d with counters := c } id := by
    intro id hOthers
    cases hOthers with
    | foreign hRow hId hOther => exact .foreign hRow hId hOther
    | unknown hNone => exact .unknown hNone
  match route, hForeign with
  | .getBooking (some id), h => exact hBooking id h
  | .cancelBooking (some id) _ _, h => exact hBooking id h
  | .deleteWaitlist (some id) _, h => exact hEntry id h
  | .acceptWaitlist (some id) _, h => exact hEntry id h

/- The request is refused, and no row of a resource changes. -/
theorem handle_foreign
    (W : Profile)
    (clocks : Clocks)
    (o : Outside)
    (hSound : d.Sound)
    (request : Request)
    (hForeign : request.route.Foreign p d) :
    (handle W clocks o p request d).response =
        refusal W clocks o p request.route.method
          request.route.ifMatch request.route.missing d ∧
      (handle W clocks o p request d).database.inventory =
        d.inventory := by
  rcases handle_eq W clocks o p d request with ⟨c, hHandle⟩
  rw [hHandle]
  unfold refusal
  cases turnedAway W clocks o p request.route.method d with
  | some response => exact ⟨rfl, rfl⟩
  | none =>
      dsimp only
      rw [serve_foreign (hSound.counted c) request
        (hForeign.counted c)]
      exact ⟨rfl, rfl⟩

end PigBook.OwnScope

------------------------------------------------------------
-- Noninterference
------------------------------------------------------------

namespace PigBook

open ReadCommitted
open OwnScope

/-
  A request is answered from the principal's own rows.  A row
  of someone else is refused like one that is not there, with
  an answer that depends on the header alone once the request
  is within its budget, and no row of a resource changes.
-/
theorem own_scope_noninterference
    (W : Profile)
    (clocks : Clocks)
    (p : Uuid)
    (request : OwnScope.Request) :
    (∀ (o o' : Outside) (d d' : Database),
      d.Reachable → d'.Reachable → Agree W p d d' →
      d.New (handle W clocks o p request d).log →
      d'.New (handle W clocks o' p request d').log →
        (handle W clocks o p request d).response =
          (handle W clocks o' p request d').response) ∧
      ∀ (o : Outside) (d : Database), d.Reachable →
        request.route.Foreign p d →
          (handle W clocks o p request d).response =
              refusal W clocks o p request.route.method
                request.route.ifMatch request.route.missing
                d ∧
            (handle W clocks o p request d).database.inventory =
              d.inventory ∧
            (turnedAway W clocks o p request.route.method d =
                none →
              (∃ version,
                expectedVersion request.route.method
                  request.route.ifMatch = .ok version) →
                (handle W clocks o p request d).response =
                  objectNotFound request.route.missing) := by
  constructor
  · intro o o' d d' hReach hReach' hAgree hNew hNew'
    exact
      handle_response hReach.sound hReach'.sound hAgree request
        hNew hNew'
  · intro o d hReach hForeign
    rcases
      handle_foreign W clocks o hReach.sound request
        hForeign with
      ⟨hResponse, hInventory⟩
    constructor
    · exact hResponse
    constructor
    · exact hInventory
    · rintro hServed ⟨version, hVersion⟩
      rw [hResponse]
      unfold refusal notFoundFor
      rw [hServed, hVersion]

end PigBook

namespace PigBook

open ReadCommitted
open OwnScope

/- Where there is no resource, there are no rows. -/
theorem AdmittedRun.opening
    {X : Circumstances}
    {resources : Uuid → Option Resource}
    {env : Surroundings}
    {s : Sys X.world (Uuid → Cell) Reply}
    (hRun : AdmittedRun X resources env s)
    {rid : Uuid}
    (hNone : resources rid = none) :
    s.db rid = Cell.opening X.users none := by
  have hInit :
      ∀ rid, resources rid = none →
        Cell.opening X.users (resources rid) =
          Cell.opening X.users none := by
    intro rid hNone
    rw [hNone]
  apply
    (hRun.commit_induction
      (fun db _ =>
        ∀ rid, resources rid = none →
          db rid = Cell.opening X.users none)
      hInit ?_).2 rid hNone
  intro c hist rid' request hCommit _ _ hInv rid hNone
  rcases hCommit.runs with ⟨w, reply, run, hAfter, -⟩
  by_cases hSame : rid = rid'
  · subst hSame
    rw [hAfter]
    have hEmpty := hInv rid hNone
    have hInert : cellLocks.inert (c.before rid) := by
      change c.before rid =
        Cell.opening (c.before rid).users none
      rw [hEmpty]
      rfl
    rw [run.post_of_done
      ((request.disciplined rid).inert hInert)]
    exact hEmpty
  · rw [hCommit.other rid hSame]
    exact hInv rid hNone

/- The resource with the identifier 7, and no other. -/
def oneRoom (rid : Uuid) : Option Resource :=
  if rid = 7 then some meetingRoom else none

/- The first requests of the scenario, in that one room. -/
def roomScenario
    (n : ℕ) : Sys forwardClock.world (Uuid → Cell) Reply :=
  (Sys.initial (W := forwardClock.world)
    (fun rid =>
      Cell.opening forwardClock.users (oneRoom rid))
    ⟨0, []⟩).exec simulator [0]
    ((scenarioRequests.take n).flatMap (fun request =>
      .spawn 0 ((request.program 7).atCell 7) ::
        List.replicate 40 (.step 0)))

/- The owner of the booking in the scenario. -/
def owner : User where
  id := 101
  email := "owner@example.com"
  passwordHash := ""
  displayName := "Owner"
  role := .member
  enabled := true
  version := 1
  createdAt := 0
  updatedAt := 0

def stranger : User :=
  { owner with
    id := 102
    email := "stranger@example.com"
    displayName := "Stranger" }

def roomDatabase (n : ℕ) : Database where
  users := [owner, stranger]
  counters := fun _ => none
  resourceIds := [7]
  inventory := (roomScenario n).db

theorem roomScenario_run
    (n : ℕ) :
    AdmittedRun forwardClock oneRoom ⟨0, []⟩
      (roomScenario n) := by
  unfold AdmittedRun roomScenario
  refine Sys.exec_reachable (fun _ _ => rfl) ?_
  intro m hm
  rcases List.mem_flatMap.mp hm with
    ⟨request, hRequest, hMove⟩
  have hAdmitted :=
    scenarioRequests_admitted request
      (List.mem_of_mem_take hRequest)
  exact
    Move.allowed_of_begun
      ⟨7, _, ⟨request, hAdmitted, rfl⟩, rfl⟩ hMove

theorem roomDatabase_reachable
    {n : ℕ}
    (hOnce : (picks drawnUuid (roomScenario n).trace).Nodup)
    (hRoom : ((roomScenario n).db 7).resource.isSome) :
    (roomDatabase n).Reachable := by
  constructor
  · exact ⟨_, _, _, _, roomScenario_run n, hOnce, rfl⟩
  · exact List.nodup_singleton 7
  · intro rid
    unfold roomDatabase
    dsimp only
    rw [List.mem_singleton]
    by_cases hSame : rid = 7
    · rw [hSame]
      exact iff_of_true rfl hRoom
    · rw [(roomScenario_run n).opening (if_neg hSame)]
      exact iff_of_false hSame Bool.false_ne_true

/- The names of a cell, as a list. -/
def namesOf (s : Cell) : List Uuid :=
  s.bookings.map Booking.id ++
    s.entries.map WaitlistEntry.id ++
    s.outbox.map OutboxEvent.id ++
    s.audit.map AuditRecord.id

theorem mem_namesOf
    {s : Cell}
    {id : Uuid} :
    id ∈ namesOf s ↔ s.Names id := by
  simp [namesOf, Cell.Names]

/- Only the names of the one room matter. -/
theorem roomDatabase_new
    {n : ℕ}
    {log : List (Action inventory)}
    (names ids : List Uuid)
    (hNames : namesOf ((roomScenario n).db 7) = names)
    (hDrawn : drawn (asked log) = ids)
    (hNew : (names ++ ids).Nodup) :
    (roomDatabase n).New log := by
  rw [List.nodup_append] at hNew
  rcases hNew with ⟨-, hOnce, hApart⟩
  intro rid hClash
  rcases hClash with ⟨id, hId, hName⟩ | hTwice
  · rw [hDrawn] at hId
    by_cases hSame : rid = 7
    · rw [hSame] at hName
      have hMem := mem_namesOf.mpr hName
      unfold roomDatabase at hMem
      dsimp only at hMem
      rw [hNames] at hMem
      exact hApart id hMem id hId rfl
    · unfold roomDatabase at hName
      dsimp only at hName
      rw [(roomScenario_run n).opening (if_neg hSame)] at hName
      simp [Cell.Names, Cell.opening] at hName
  · rw [hDrawn] at hTwice
    exact hTwice hOnce

/- The settings and answers of one surroundings. -/
def plainProfile : Profile where
  race := false
  hashIdentity := fun identity => identity

def stoppedClocks : Clocks where
  application := fun _ => 0
  database := fun _ => 0

/- Identifiers are drawn in turn, from `start` on. -/
def drawingFrom (start : ℕ) : Outside where
  limiterAnswers := fun _ q =>
    match q with
    | .applicationTime => (0 : ℕ)
    | .upsert _ => (0 : ℤ)
    | .purge _ => (([], 0) : List RateLimits.BucketKey × ℤ)
  inventoryAnswers := fun log q =>
    match q with
    | .plain => ()
    | .clock => (0 : ℤ)
    | .transactionTime => (0 : ℤ)
    | .uuid => Fin.ofNat (2 ^ 128) (start + log.length)
    | .ownerEnabled _ => some true
    | .rowLocked _ => false

/- The owner cancels the booking of the scenario. -/
def cancelling : OwnScope.Request where
  route :=
    .cancelBooking (some 1) (some "\"1\"") ⟨"", by decide⟩
  problems := []

/- What the owner has is the same once someone waits. -/
theorem roomDatabase_agree :
    Agree plainProfile 101 (roomDatabase 1)
      (roomDatabase 2) := by
  have hBookings :
      ((roomScenario 1).db 7).bookings =
        ((roomScenario 2).db 7).bookings := by
    decide +kernel
  have hNone :
      ((roomDatabase 1).entriesOf 101).isEmpty = true := by
    decide +kernel
  have hNone' :
      ((roomDatabase 2).entriesOf 101).isEmpty = true := by
    decide +kernel
  constructor
  · constructor
    · rfl
    · apply List.Perm.of_eq
      unfold Database.bookingsOf Database.bookings
        roomDatabase
      simp only [List.flatMap_cons, List.flatMap_nil,
        hBookings]
    · rw [List.isEmpty_iff.mp hNone,
        List.isEmpty_iff.mp hNone']
  · intro k _
    rfl

/-
  The responses are the same whether or not someone waits for
  the window, who is offered it in the one case.  To another
  user the booking is not there.
-/
theorem own_scope_noninterference_cancelling :
    ((handle plainProfile stoppedClocks (drawingFrom 1000) 101
        cancelling (roomDatabase 1)).response.status = 200 ∧
      (handle plainProfile stoppedClocks (drawingFrom 1000) 101
          cancelling (roomDatabase 1)).response =
        (handle plainProfile stoppedClocks (drawingFrom 2000)
          101 cancelling (roomDatabase 2)).response) ∧
    (handle plainProfile stoppedClocks (drawingFrom 1000) 102
        cancelling (roomDatabase 1)).response =
      objectNotFound "Booking not found" ∧
    (handle plainProfile stoppedClocks (drawingFrom 1000) 102
        cancelling (roomDatabase 1)).database.inventory =
      (roomDatabase 1).inventory := by
  refine ⟨⟨?_, ?_⟩, ?_⟩
  · decide +kernel
  · apply
      (own_scope_noninterference plainProfile stoppedClocks 101
        cancelling).1
    · apply roomDatabase_reachable
      · decide +kernel
      · decide +kernel
    · apply roomDatabase_reachable
      · decide +kernel
      · decide +kernel
    · exact roomDatabase_agree
    · apply roomDatabase_new [1, 2] [1006]
      · decide +kernel
      · decide +kernel
      · decide +kernel
    · apply roomDatabase_new [1, 3, 2] [2006, 2014, 2018]
      · decide +kernel
      · decide +kernel
      · decide +kernel
  · have hReach : (roomDatabase 1).Reachable := by
      apply roomDatabase_reachable
      · decide +kernel
      · decide +kernel
    have hForeign :
        cancelling.route.Foreign 102 (roomDatabase 1) := by
      have hOwned :
          ∃ row ∈ (roomDatabase 1).bookings,
            row.2.id = 1 ∧ row.2.userId = some 101 := by
        decide +kernel
      rcases hOwned with ⟨row, hRow, hId, hUser⟩
      exact .foreign hRow hId hUser (by decide)
    rcases
      (own_scope_noninterference plainProfile stoppedClocks 102
        cancelling).2 (drawingFrom 1000) (roomDatabase 1) hReach
        hForeign with
      ⟨-, hInventory, hMissing⟩
    refine ⟨hMissing ?_ ⟨some 1, ?_⟩, hInventory⟩
    · decide +kernel
    · decide +kernel

/- There are no resources yet. -/
def emptyDatabase : Database where
  users := [owner]
  counters := fun _ => none
  resourceIds := []
  inventory := fun _ => Cell.opening forwardClock.users none

theorem emptyDatabase_reachable :
    emptyDatabase.Reachable := by
  constructor
  · exact
      ⟨forwardClock, fun _ => none, ⟨0, []⟩,
        Sys.initial
          (fun _ => Cell.opening forwardClock.users none)
          ⟨0, []⟩,
        Relation.ReflTransGen.refl, List.nodup_nil, rfl⟩
  · exact List.nodup_nil
  · intro rid
    exact iff_of_false List.not_mem_nil Bool.false_ne_true

/- A weak entity tag, with the id of no booking. -/
def cancellingWeakly : OwnScope.Request where
  route :=
    .cancelBooking (some 1) (some "W/\"1\"") ⟨"", by decide⟩
  problems := []

/- The header is refused before the booking is missed. -/
theorem cancellingWeakly_response :
    emptyDatabase.Reachable ∧
      cancellingWeakly.route.Foreign 101 emptyDatabase ∧
      turnedAway plainProfile stoppedClocks (drawingFrom 1000)
          101 .post emptyDatabase = none ∧
      (handle plainProfile stoppedClocks (drawingFrom 1000) 101
          cancellingWeakly emptyDatabase).response ≠
        objectNotFound "Booking not found" := by
  constructor
  · exact emptyDatabase_reachable
  constructor
  · exact
      OthersBooking.unknown
        (fun row hRow => absurd hRow List.not_mem_nil)
  constructor
  · decide +kernel
  · decide +kernel

end PigBook
