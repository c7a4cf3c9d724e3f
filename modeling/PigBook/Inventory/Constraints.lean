import PigBook.Inventory.Outcomes
import PigBook.ReadCommitted.Each

/-
  The constraints of the tables, statement by statement.

  Each UPDATE is one that the trigger on bookings lets pass,
  each INSERT goes through, and no statement raises a
  constraint error, as long as the identifiers drawn are new
  and the users that are named are registered.

  Key definitions include:
    * `Cell.Names`
    * `Lawful`, `StatementOk`
    * `Lawfully`, `Orderly`

  Key theorems include:
    * `Lawfully.then`
    * `lawfully_insertBooking`, `lawfully_updateBookings`
    * `promoteWaiters_lawfully`
-/

------------------------------------------------------------
-- Lawful Statements
------------------------------------------------------------

namespace PigBook

open ReadCommitted

/- The identifiers of the rows that are ever inserted. -/
def Cell.Names (s : Cell) (id : Uuid) : Prop :=
  (∃ b ∈ s.bookings, b.id = id) ∨
    (∃ e ∈ s.entries, e.id = id) ∨
    (∃ ev ∈ s.outbox, ev.id = id) ∨
    ∃ a ∈ s.audit, a.id = id

/-
  What a statement may do to the bookings and the waitlist:
  the trigger lets each changed booking pass, and afterwards
  both tables satisfy their CHECK, unique and exclusion
  constraints, and what they refer to exists.
-/
structure Lawful (s s' : Cell) : Prop where
  guarded :
    ∀ b ∈ s.bookings, ∃ b' ∈ s'.bookings,
      b'.id = b.id ∧ (b' = b ∨ b.GuardUpdate b')
  bookings : BookingsOk s'.bookings
  entries : EntriesOk s'.entries
  references : s'.References

/- The booking is inserted between the two cells. -/
def InsertsBooking (s s' : Cell) (id : Uuid) : Prop :=
  (∀ b ∈ s.bookings, b.id ≠ id) ∧
    ∃ b ∈ s'.bookings, b.id = id

def InsertsEntry (s s' : Cell) (id : Uuid) : Prop :=
  (∀ e ∈ s.entries, e.id ≠ id) ∧
    ∃ e ∈ s'.entries, e.id = id

/-
  One statement, from the view `s` to the view `s'`, with the
  rest of its program.  With `known` users, and with `used`
  the identifiers in use before, each INSERT of an entry goes
  through, and each INSERT of a booking does or leaves the
  view as it is and the program `refused`.  What is inserted
  has been drawn.
-/
structure StatementOk
    {α : Type}
    (known : Prop)
    (used : Uuid → Prop)
    (refused : Tx α → Prop)
    (log : List (Action inventory))
    (s : Cell)
    (keys : List Key)
    (s' : Cell)
    (rest : Tx α) : Prop where
  lawful : Lawful s s'
  names :
    ∀ id, s'.Names id → used id ∨ id ∈ drawn (asked log)
  entry :
    known → ¬ Clash used log →
      ∀ id, .unique (.waitlistEntriesPkey id) ∈ keys →
        InsertsEntry s s' id
  booking :
    known → ¬ Clash used log →
      ∀ id, .unique (.bookingsPkey id) ∈ keys →
        InsertsBooking s s' id ∨ (s' = s ∧ refused rest)
  new :
    ∀ id,
      .unique (.bookingsPkey id) ∈ keys ∨
          .unique (.waitlistEntriesPkey id) ∈ keys →
        id ∈ drawn (asked log)

/-
  No constraint of any table but `resources` is violated, and
  the key of the events is not even where identifiers clash.
-/
def NoViolation
    (known : Prop)
    (used : Uuid → Prop)
    (log : List (Action inventory))
    (e : Error) : Prop :=
  ∀ c, e = .integrityError c →
    c ≠ .outboxAggregateKey ∧
      (known → ¬ Clash used log → c = .resourcesCheck)

/- Each statement is lawful, and none violates. -/
abbrev Lawfully
    {α : Type}
    (known : Prop)
    (used : Uuid → Prop)
    (refused : Tx α → Prop)
    (p : Tx α)
    (log : List (Action inventory))
    (s : Cell) : Prop :=
  p.each (StatementOk known used refused)
    (NoViolation known used) log s

/- No INSERT of a booking is refused. -/
def never {α : Type} (_ : Tx α) : Prop :=
  False

/-
  What holds at each statement: the two tables satisfy their
  constraints, and the identifiers in use are accounted for.
-/
structure Orderly
    (used : Uuid → Prop)
    (log : List (Action inventory))
    (s : Cell) : Prop where
  bookings : BookingsOk s.bookings
  entries : EntriesOk s.entries
  references : s.References
  names :
    ∀ id, s.Names id → used id ∨ id ∈ drawn (asked log)

variable {α β : Type} {known : Prop} {used : Uuid → Prop}
variable {refused : Tx α → Prop}
variable {log : List (Action inventory)} {s s' : Cell}

theorem Lawful.refl
    (hOrderly : Orderly used log s) :
    Lawful s s where
  guarded := fun b hRow => ⟨b, hRow, rfl, Or.inl rfl⟩
  bookings := hOrderly.bookings
  entries := hOrderly.entries
  references := hOrderly.references

theorem NoViolation.of_ne
    {e : Error}
    (hError : ∀ c, e ≠ .integrityError c) :
    NoViolation known used log e :=
  fun c hEq => absurd hEq (hError c)

/- A violation that only a clash of identifiers explains. -/
theorem NoViolation.of_clash
    {c : Constraint}
    (hOther : c ≠ .outboxAggregateKey)
    (hClash : Clash used log) :
    NoViolation known used log (.integrityError c) := by
  intro c' hEq
  cases hEq
  exact ⟨hOther, fun _ hNo => absurd hClash hNo⟩

/- A violation that only an unknown user explains. -/
theorem NoViolation.of_stranger
    {c : Constraint}
    (hOther : c ≠ .outboxAggregateKey)
    (hStranger : ¬ known) :
    NoViolation known used log (.integrityError c) := by
  intro c' hEq
  cases hEq
  exact ⟨hOther, fun hKnown => absurd hKnown hStranger⟩

theorem NoViolation.of_window
    {e : Error}
    (hWindow : e.OfWindow) :
    NoViolation known used log e := by
  apply NoViolation.of_ne
  rintro c rfl
  rcases hWindow with ⟨message, hEq⟩ | hEq
  · cases hEq
  · cases hEq

/- A clash stays one. -/
theorem Clash.extend
    (hClash : Clash used log)
    (rest : List (Action inventory)) :
    Clash used (log ++ rest) := by
  rcases hClash with ⟨id, hDrawn, hUsed⟩ | hTwice
  · refine Or.inl ⟨id, ?_, hUsed⟩
    rw [asked_append, drawn_append]
    exact List.mem_append_left _ hDrawn
  · refine Or.inr ?_
    intro hNodup
    rw [asked_append, drawn_append] at hNodup
    exact hTwice (List.nodup_append.mp hNodup).1

namespace Orderly

/- More is known with a longer log. -/
theorem extend
    (hOrderly : Orderly used log s)
    (rest : List (Action inventory)) :
    Orderly used (log ++ rest) s where
  bookings := hOrderly.bookings
  entries := hOrderly.entries
  references := hOrderly.references
  names := by
    intro id hName
    rw [asked_append, drawn_append, List.mem_append]
    exact (hOrderly.names id hName).imp_right Or.inl

/- The identifiers in use after a statement. -/
theorem inUse
    (hOrderly : Orderly used log s)
    (hNames :
      ∀ id, s'.Names id →
        s.Names id ∨ id ∈ drawn (asked log)) :
    ∀ id, s'.Names id → used id ∨ id ∈ drawn (asked log) := by
  intro id hName
  rcases hNames id hName with hOld | hDrawn
  · exact hOrderly.names id hOld
  · exact Or.inr hDrawn

/- What a lawful statement leaves. -/
theorem after
    (hLawful : Lawful s s')
    (hNames :
      ∀ id, s'.Names id →
        used id ∨ id ∈ drawn (asked log))
    (act : Action inventory) :
    Orderly used (log ++ [act]) s' where
  bookings := hLawful.bookings
  entries := hLawful.entries
  references := hLawful.references
  names := by
    intro id hName
    rw [asked_append, drawn_append, List.mem_append]
    exact (hNames id hName).imp_right Or.inl

/- A drawn identifier is new, or the log clashes. -/
theorem fresh
    (hOrderly : Orderly used log s)
    (id : Uuid)
    {rest : List (Action inventory)}
    (hDrawn : id ∈ drawn (asked rest))
    (hNo : ¬ Clash used (log ++ rest)) :
    ¬ s.Names id := by
  intro hName
  apply hNo
  rcases hOrderly.names id hName with hUsed | hBefore
  · refine Or.inl ⟨id, ?_, hUsed⟩
    rw [asked_append, drawn_append]
    exact List.mem_append_right _ hDrawn
  · refine Or.inr ?_
    intro hNodup
    rw [asked_append, drawn_append] at hNodup
    exact
      (List.nodup_append.mp hNodup).2.2 id hBefore id hDrawn
        rfl

theorem accounted
    (hOrderly : Orderly used log s) :
    s.Accounted used log := by
  intro id hUses
  apply hOrderly.names id
  rcases hUses with hBooking | hEvent
  · exact Or.inl hBooking
  · exact Or.inr (Or.inr (Or.inl hEvent))

end Orderly

end PigBook

------------------------------------------------------------
-- Sequencing
------------------------------------------------------------

namespace PigBook

open ReadCommitted

variable {α β : Type} {known : Prop} {used : Uuid → Prop}
variable {refused : Tx α → Prop}
variable {log : List (Action inventory)} {s : Cell}

/- A lawful program leaves its tables in order. -/
theorem Lawfully.orderly
    {p : Tx α}
    {post : List (Action inventory) → Cell → α → Prop}
    (hOrderly : Orderly used log s)
    (hLawfully : Lawfully known used refused p log s)
    (hPost :
      p.wp
        (fun log s a => Orderly used log s → post log s a)
        anyError log s) :
    p.wp post anyError log s := by
  induction p generalizing log s with
  | done a => exact hPost hOrderly
  | fail e => exact hPost
  | stmt q need write next ih =>
      intro a
      rcases hLawfully a with ⟨hOk, hLater⟩
      exact
        ih s a (Orderly.after hOk.lawful hOk.names _) hLater
          (hPost a)
  | commit next ih => exact hPost
  | rollback next ih => exact hPost

/- A program without a refusal in front of another one. -/
theorem Lawfully.then
    {p : Tx β}
    {f : β → Tx α}
    (hOrderly : Orderly used log s)
    (hFirst : Lawfully known used never p log s)
    (hRest :
      p.wp
        (fun log s a =>
          Orderly used log s →
            Lawfully known used refused (f a) log s)
        anyError log s) :
    Lawfully known used refused (p.bind f) log s := by
  apply Prog.each_bind _ (hFirst.orderly hOrderly hRest)
  exact
    Prog.each_mono p
      (fun _ _ _ _ _ hOk =>
        ⟨hOk.lawful, hOk.names, hOk.entry,
          fun hKnown hNo id hKey =>
            (hOk.booking hKnown hNo id hKey).imp_right
              (fun h => False.elim h.2),
          hOk.new⟩)
      hFirst

/- A statement that changes nothing and inserts nothing. -/
theorem StatementOk.read
    (hOrderly : Orderly used log s)
    {keys : List Key}
    (hKeys : ∀ key, .unique key ∉ keys)
    {rest : Tx α} :
    StatementOk known used refused log s keys s rest where
  lawful := .refl hOrderly
  names := hOrderly.names
  entry := fun _ _ _ hKey => absurd hKey (hKeys _)
  booking := fun _ _ _ hKey => absurd hKey (hKeys _)
  new := fun _ hKey =>
    hKey.elim (fun h => absurd h (hKeys _))
      (fun h => absurd h (hKeys _))

theorem lawfully_ask
    (q : Query)
    {f : q.Answer → Tx α}
    (hOrderly : Orderly used log s)
    (hRest :
      ∀ a : q.Answer,
        Orderly used (log ++ [⟨q, a, []⟩]) s →
          Lawfully known used refused (f a)
            (log ++ [⟨q, a, []⟩]) s) :
    Lawfully known used refused
      ((@Prog.ask inventory Cell q).bind f) log s := by
  intro a
  refine ⟨.read hOrderly (fun _ => List.not_mem_nil), ?_⟩
  exact hRest a (hOrderly.extend _)

theorem lawfully_select
    {need : Cell → List Key}
    {rows : Cell → β}
    {f : β → Tx α}
    (hOrderly : Orderly used log s)
    (hKeys : ∀ key, .unique key ∉ need s)
    (hRest :
      Orderly used (log ++ [⟨.plain, (), need s⟩]) s →
        Lawfully known used refused (f (rows s))
          (log ++ [⟨.plain, (), need s⟩]) s) :
    Lawfully known used refused
      ((Prog.select (S := inventory) .plain need rows).bind f)
      log s := by
  intro a
  refine ⟨.read hOrderly hKeys, ?_⟩
  exact hRest (hOrderly.extend _)

/- A SELECT that locks no row. -/
theorem lawfully_selectRows
    {rows : Cell → β}
    {f : β → Tx α}
    (hOrderly : Orderly used log s)
    (hRest :
      Orderly used (log ++ [⟨.plain, (), []⟩]) s →
        Lawfully known used refused (f (rows s))
          (log ++ [⟨.plain, (), []⟩]) s) :
    Lawfully known used refused ((selectRows rows).bind f) log s :=
  lawfully_select hOrderly (fun _ => List.not_mem_nil) hRest

theorem resourceKeys_row
    {rowKey : Key}
    (hRow : ∀ key, rowKey ≠ .unique key)
    (key : UniqueKey) :
    .unique key ∉ s.resourceKeys rowKey := by
  unfold Cell.resourceKeys
  split
  · intro hKey
    exact hRow key (List.mem_singleton.mp hKey).symm
  · exact List.not_mem_nil

theorem lawfully_scalarOneOrNone
    {rows : List β}
    {f : Option β → Tx α}
    (hNone : rows = [] → Lawfully known used refused (f none) log s)
    (hSome :
      ∀ row, rows = [row] →
        Lawfully known used refused (f (some row)) log s) :
    Lawfully known used refused ((scalarOneOrNone rows).bind f)
      log s := by
  match rows with
  | [] => exact hNone rfl
  | [row] => exact hSome row rfl
  | _ :: _ :: _ =>
      exact .of_ne (fun c hEq => by cases hEq)

end PigBook

------------------------------------------------------------
-- Updating
------------------------------------------------------------

namespace PigBook

open ReadCommitted

variable {α : Type} {known : Prop} {used : Uuid → Prop}
variable {refused : Tx α → Prop}
variable {log : List (Action inventory)} {s : Cell}

/- An UPDATE of bookings that the tables allow. -/
theorem lawfully_updateBookings
    {p : Booking → Bool}
    {f : Booking → Booking}
    {k : ℕ → Tx α}
    (hOrderly : Orderly used log s)
    (hId : ∀ b, (f b).id = b.id)
    (hGuard : ∀ b ∈ s.bookings, p b → b.GuardUpdate (f b))
    (hOk : BookingsOk (updateWhere p f s.bookings))
    (hRest :
      ∀ keys : List Key,
        Orderly used (log ++ [⟨.plain, (), keys⟩])
            (s.setBookings p f) →
          Lawfully known used refused
            (k (s.bookings.filter p).length)
            (log ++ [⟨.plain, (), keys⟩])
            (s.setBookings p f)) :
    Lawfully known used refused ((updateBookings p f).bind k)
      log s := by
  have hLawful : Lawful s (s.setBookings p f) := by
    refine ⟨?_, hOk, hOrderly.entries,
      hOrderly.references.setBookings hId ?_⟩
    rotate_left
    · intro b hRow hCase
      rcases hGuard b hRow hCase with ⟨⟨hOwner, -, -, hBy⟩, -⟩
      exact ⟨hOwner, hBy⟩
    intro b hRow
    by_cases hCase : p b = true
    · exact
        ⟨f b,
          mem_updateWhere.mpr (Or.inl ⟨b, hRow, hCase, rfl⟩),
          hId b, Or.inr (hGuard b hRow hCase)⟩
    · exact
        ⟨b,
          mem_updateWhere.mpr
            (Or.inr ⟨hRow, by simpa using hCase⟩),
          rfl, Or.inl rfl⟩
  have hNames :
      ∀ id, (s.setBookings p f).Names id →
        used id ∨ id ∈ drawn (asked log) := by
    apply hOrderly.inUse
    intro id hName
    rcases hName with ⟨b, hRow, rfl⟩ | hOther
    · refine Or.inl (Or.inl ?_)
      rcases mem_updateWhere.mp hRow with
        ⟨b', hRow', -, rfl⟩ | ⟨hOld, -⟩
      · exact ⟨b', hRow', (hId b').symm⟩
      · exact ⟨b, hOld, rfl⟩
    · exact Or.inl (Or.inr hOther)
  have hNone := bookingsUpdateViolation_eq_none hGuard hOk
  rintro ⟨⟩
  simp only [hNone, Prog.bind]
  constructor
  · exact
      ⟨hLawful, hNames, fun _ _ id hKey => by simp at hKey,
        fun _ _ id hKey => by simp at hKey,
        fun id hKey => by simp at hKey⟩
  · exact hRest _ (Orderly.after hLawful hNames _)

/- An UPDATE of entries, likewise. -/
theorem lawfully_updateEntries
    {p : WaitlistEntry → Bool}
    {f : WaitlistEntry → WaitlistEntry}
    {k : ℕ → Tx α}
    (hOrderly : Orderly used log s)
    (hId : ∀ e, (f e).id = e.id)
    (hOk : EntriesOk (updateWhere p f s.entries))
    (hRefer : (s.setEntries p f).References)
    (hRest :
      ∀ keys : List Key,
        Orderly used (log ++ [⟨.plain, (), keys⟩])
            (s.setEntries p f) →
          Lawfully known used refused
            (k (s.entries.filter p).length)
            (log ++ [⟨.plain, (), keys⟩])
            (s.setEntries p f)) :
    Lawfully known used refused ((updateEntries p f).bind k)
      log s := by
  have hLawful : Lawful s (s.setEntries p f) :=
    ⟨fun b hRow => ⟨b, hRow, rfl, Or.inl rfl⟩,
      hOrderly.bookings, hOk, hRefer⟩
  have hNames :
      ∀ id, (s.setEntries p f).Names id →
        used id ∨ id ∈ drawn (asked log) := by
    apply hOrderly.inUse
    intro id hName
    rcases hName with hBooking | ⟨e, hRow, rfl⟩ | hOther
    · exact Or.inl (Or.inl hBooking)
    · refine Or.inl (Or.inr (Or.inl ?_))
      rcases mem_updateWhere.mp hRow with
        ⟨e', hRow', -, rfl⟩ | ⟨hOld, -⟩
      · exact ⟨e', hRow', (hId e').symm⟩
      · exact ⟨e, hOld, rfl⟩
    · exact Or.inl (Or.inr (Or.inr hOther))
  have hNone := entriesUpdateViolation_eq_none hOk hRefer
  rintro ⟨⟩
  simp only [hNone, Prog.bind]
  constructor
  · exact
      ⟨hLawful, hNames, fun _ _ id hKey => by simp at hKey,
        fun _ _ id hKey => by simp at hKey,
        fun id hKey => by simp at hKey⟩
  · exact hRest _ (Orderly.after hLawful hNames _)

/- Other tables change without regard to the two. -/
theorem Lawful.of_same
    {s' : Cell}
    (hOrderly : Orderly used log s)
    (hUsers : s'.users = s.users)
    (hRoom : s'.resource = none → s.resource = none)
    (hBookings : s'.bookings = s.bookings)
    (hEntries : s'.entries = s.entries) :
    Lawful s s' where
  guarded := by
    intro b hRow
    exact ⟨b, by rw [hBookings]; exact hRow, rfl, Or.inl rfl⟩
  bookings := by
    rw [hBookings]
    exact hOrderly.bookings
  entries := by
    rw [hEntries]
    exact hOrderly.entries
  references :=
    hOrderly.references.of_same hUsers hRoom hBookings
      hEntries

/- An UPDATE of the resource touches neither table. -/
theorem lawfully_updateResourceRow
    {rid : Uuid}
    {expectedVersion : ℕ}
    {f : Resource → Resource}
    {k : Option Resource → Tx α}
    (hOrderly : Orderly used log s)
    (hRest :
      ∀ row (act : Action inventory) (s' : Cell),
        Orderly used (log ++ [act]) s' →
          Lawfully known used refused (k row) (log ++ [act]) s') :
    Lawfully known used refused
      ((updateResourceRow rid expectedVersion f).bind k)
      log s := by
  have hKeys :
      ∀ key,
        .unique key ∉ s.resourceKeys (.resourceUpdate rid) :=
    resourceKeys_row (fun key hEq => by cases hEq)
  -- whether the row is found or not, both tables are as before
  have hStatement :
      ∀ (s' : Cell) (rest : Tx α), s'.users = s.users →
        (s'.resource = none → s.resource = none) →
        s'.bookings = s.bookings →
        s'.entries = s.entries → s'.outbox = s.outbox →
        s'.audit = s.audit →
          StatementOk known used refused log s
              (s.resourceKeys (.resourceUpdate rid)) s' rest ∧
            ∀ act, Orderly used (log ++ [act]) s' := by
    intro s' rest hUsers hRoom hBookings hEntries hOutbox
      hAudit
    have hLawful :=
      Lawful.of_same hOrderly hUsers hRoom hBookings hEntries
    have hNames :
        ∀ id, s'.Names id →
          used id ∨ id ∈ drawn (asked log) := by
      apply hOrderly.inUse
      intro id hName
      unfold Cell.Names at hName ⊢
      rw [hBookings, hEntries, hOutbox, hAudit] at hName
      exact Or.inl hName
    exact
      ⟨⟨hLawful, hNames,
          fun _ _ id hKey => absurd hKey (hKeys _),
          fun _ _ id hKey => absurd hKey (hKeys _),
          fun id hKey =>
            hKey.elim (fun h => absurd h (hKeys _))
              (fun h => absurd h (hKeys _))⟩,
        Orderly.after hLawful hNames⟩
  rintro ⟨⟩
  cases hCase : s.resource with
  | none =>
      simp only [hCase, Prog.bind]
      have hBoth := hStatement s (k none) rfl id rfl rfl rfl rfl
      exact ⟨hBoth.1, hRest _ _ _ (hBoth.2 _)⟩
  | some r =>
      simp only [hCase]
      by_cases hVersion : r.version = expectedVersion
      · simp only [hVersion, if_true]
        by_cases hCheck : (f r).Check
        · simp only [hCheck, if_true, Prog.bind]
          have hBoth :=
            hStatement (s.setResource (f r)) (k (some (f r)))
              rfl (fun hNone => by cases hNone) rfl rfl rfl
              rfl
          exact ⟨hBoth.1, hRest _ _ _ (hBoth.2 _)⟩
        · simp only [hCheck, if_false, Prog.bind]
          refine
            ⟨(hStatement (s.setResource (f r)) _ rfl
              (fun hNone => by cases hNone) rfl rfl rfl
              rfl).1, ?_⟩
          intro c hEq
          cases hEq
          exact ⟨by decide, fun _ _ => rfl⟩
      · simp only [hVersion, if_false, Prog.bind]
        have hBoth := hStatement s (k none) rfl id rfl rfl rfl rfl
        exact ⟨hBoth.1, hRest _ _ _ (hBoth.2 _)⟩

end PigBook

------------------------------------------------------------
-- Inserting
------------------------------------------------------------

namespace PigBook

open ReadCommitted

variable {α : Type} {known : Prop} {used : Uuid → Prop}
variable {refused : Tx α → Prop}
variable {log : List (Action inventory)} {s : Cell}

/- A booking that is inserted satisfies the constraints. -/
theorem Lawful.addBooking
    (hOrderly : Orderly used log s)
    {b : Booking}
    (hActive : b.status.active = true)
    (hNone : s.bookingViolation b = none) :
    Lawful s (s.addBooking b) := by
  rcases bookingViolation_eq_none_iff.mp hNone with
    ⟨⟨hCheck, hFresh, hFree⟩, hRoom, hOwned⟩
  refine ⟨?_, ?_, hOrderly.entries,
    hOrderly.references.addBooking hRoom hOwned⟩
  · intro b' hRow
    exact
      ⟨b', List.mem_append_left _ hRow, rfl, Or.inl rfl⟩
  · apply hOrderly.bookings.append hFresh _ hCheck
    intro b' hRow hOccupies
    exact hFree ⟨hActive, b', hRow, hOccupies⟩

/- The INSERT of a booking enters one unique index. -/
theorem insertBookingKeys_unique
    {rid : Uuid}
    {b : Booking}
    {key : UniqueKey}
    (hKey : .unique key ∈ s.insertBookingKeys rid b) :
    key = .bookingsPkey b.id := by
  unfold Cell.insertBookingKeys at hKey
  split at hKey
  · simpa using hKey
  · simpa using hKey

/-
  An INSERT of an active booking that satisfies the CHECK
  constraints, under an identifier that was drawn, for users
  that are registered if they are `known`.
-/
theorem lawfully_insertBooking
    {rid : Uuid}
    {b : Booking}
    {k : Option Constraint → Tx α}
    (hOrderly : Orderly used log s)
    (hActive : b.status.active = true)
    (hCheck : b.Check)
    (hDrawn : b.id ∈ drawn (asked log))
    (hNew : ¬ Clash used log → ¬ s.Names b.id)
    (hRoom : s.resource.isSome)
    (hOwned : known → b.Owned s.users)
    (hConflict :
      s.Occupied b.timeRange →
        refused (k (some .bookingsNoOverlap)) ∧
          ∀ act : Action inventory,
            Orderly used (log ++ [act]) s →
              Lawfully known used refused
                (k (some .bookingsNoOverlap))
                (log ++ [act]) s)
    (hFails :
      ∀ c, c ≠ .bookingsNoOverlap →
        k (some c) =
          (Prog.fail (S := inventory) (.integrityError c)))
    (hRest :
      s.bookingViolation b = none → ∀ act : Action inventory,
        Orderly used (log ++ [act]) (s.addBooking b) →
          Lawfully known used refused (k none) (log ++ [act])
            (s.addBooking b)) :
    Lawfully known used refused ((insertBooking rid b).bind k)
      log s := by
  have hEntryKeys :
      ∀ id, .unique (.waitlistEntriesPkey id) ∉
        s.insertBookingKeys rid b := by
    intro id hKey
    cases insertBookingKeys_unique hKey
  have hBookingKey :
      ∀ id, .unique (.bookingsPkey id) ∈
        s.insertBookingKeys rid b → id = b.id := by
    intro id hKey
    cases insertBookingKeys_unique hKey
    rfl
  have hDrawnKeys :
      ∀ id,
        .unique (.bookingsPkey id) ∈
              s.insertBookingKeys rid b ∨
            .unique (.waitlistEntriesPkey id) ∈
              s.insertBookingKeys rid b →
          id ∈ drawn (asked log) := by
    intro id hKey
    rcases hKey with hKey | hKey
    · rw [hBookingKey id hKey]
      exact hDrawn
    · exact absurd hKey (hEntryKeys id)
  rintro ⟨⟩
  cases hCase : s.bookingViolation b with
  | none =>
      have hLawful := Lawful.addBooking hOrderly hActive hCase
      have hNames :
          ∀ id, (s.addBooking b).Names id →
            used id ∨ id ∈ drawn (asked log) := by
        apply hOrderly.inUse
        intro id hName
        rcases hName with ⟨b', hRow, rfl⟩ | hOther
        · rcases List.mem_append.mp hRow with hOld | hLast
          · exact Or.inl (Or.inl ⟨b', hOld, rfl⟩)
          · rw [List.mem_singleton.mp hLast]
            exact Or.inr hDrawn
        · exact Or.inl (Or.inr hOther)
      simp only [hCase, if_true, Prog.bind]
      constructor
      · refine
          ⟨hLawful, hNames,
            fun _ _ id hKey => absurd hKey (hEntryKeys id),
            ?_, hDrawnKeys⟩
        intro _ _ id hKey
        rw [hBookingKey id hKey]
        exact
          Or.inl
            ⟨(bookingViolation_eq_none_iff.mp hCase).1.2.1, b,
              List.mem_append_right _
                (List.mem_singleton.mpr rfl), rfl⟩
      · exact
          hRest hCase _ (Orderly.after hLawful hNames _)
  | some c =>
      simp only [hCase, reduceCtorEq, if_false, Prog.bind]
      have hLawful := Lawful.refl hOrderly
      -- what excuses a violation that is not the conflict
      have hExcused :
          (known → Clash used log) → c ≠ .bookingsNoOverlap →
          NoViolation known used
            (log ++ [⟨.plain, (), s.insertBookingKeys rid b⟩])
            (.integrityError c) →
          StatementOk known used refused log s
              (s.insertBookingKeys rid b) s (k (some c)) ∧
            Lawfully known used refused (k (some c))
              (log ++
                [⟨.plain, (), s.insertBookingKeys rid b⟩])
              s := by
        intro hClash hOther hNoViolation
        rw [hFails c hOther]
        exact
          ⟨⟨hLawful, hOrderly.names,
            fun hKnown hNo => absurd (hClash hKnown) hNo,
            fun hKnown hNo => absurd (hClash hKnown) hNo,
            hDrawnKeys⟩, hNoViolation⟩
      rcases bookingViolation_eq_some hCheck hRoom hCase with
        ⟨rfl, hUses⟩ | ⟨rfl, hOccupied⟩ | ⟨hUser, hNotOwned⟩
      · -- only a repeated identifier is in use already
        have hClash : Clash used log := by
          by_contra hNo
          exact hNew hNo (Or.inl hUses)
        exact
          hExcused (fun _ => hClash) (by decide)
            (.of_clash (by decide) (hClash.extend _))
      · rcases hConflict hOccupied with ⟨hRefused, hLater⟩
        exact
          ⟨⟨hLawful, hOrderly.names,
            fun _ _ id hKey => absurd hKey (hEntryKeys id),
            fun _ _ _ _ => Or.inr ⟨rfl, hRefused⟩,
            hDrawnKeys⟩, hLater _ (hOrderly.extend _)⟩
      · have hStranger : ¬ known :=
          fun hKnown => hNotOwned (hOwned hKnown)
        rcases hUser with rfl | rfl
        · exact
            hExcused (fun hKnown => absurd hKnown hStranger)
              (by decide) (.of_stranger (by decide) hStranger)
        · exact
            hExcused (fun hKnown => absurd hKnown hStranger)
              (by decide) (.of_stranger (by decide) hStranger)

/- An INSERT of a waiting entry that nothing forbids. -/
theorem lawfully_insertEntry
    {rid : Uuid}
    {e : WaitlistEntry}
    {k : Option Constraint → Tx α}
    (hOrderly : Orderly used log s)
    (hCheck : e.Check)
    (hLink : e.offeredBookingId = none)
    (hApart : ∀ e' ∈ s.entries, e'.Apart e)
    (hDrawn : e.id ∈ drawn (asked log))
    (hNew : ¬ Clash used log → ¬ s.Names e.id)
    (hRoom : s.resource.isSome)
    (hUser : known → e.userId ∈ s.users)
    (hFails :
      ∀ c, c ≠ .waitlistActiveUniqueIdx →
        k (some c) =
          (Prog.fail (S := inventory) (.integrityError c)))
    (hRest :
      s.entryViolation e = none → ∀ act : Action inventory,
        Orderly used (log ++ [act]) (s.addEntry e) →
          Lawfully known used refused (k none) (log ++ [act])
            (s.addEntry e)) :
    Lawfully known used refused ((insertEntry rid e).bind k)
      log s := by
  rintro ⟨⟩
  cases hCase : s.entryViolation e with
  | some c =>
      simp only [hCase, reduceCtorEq, if_false, Prog.bind]
      rcases
        entryViolation_eq_some hCheck hLink hApart hRoom
          hCase with
        ⟨rfl, hUses⟩ | ⟨rfl, hNoUser⟩
      · have hClash : Clash used log := by
          by_contra hNo
          exact hNew hNo (Or.inr (Or.inl hUses))
        rw [hFails _ (by decide)]
        exact
          ⟨⟨.refl hOrderly, hOrderly.names,
            fun _ hNo => absurd hClash hNo,
            fun _ hNo => absurd hClash hNo,
            by simpa using hDrawn⟩,
            .of_clash (by decide) (hClash.extend _)⟩
      · have hStranger : ¬ known :=
          fun hKnown => hNoUser (hUser hKnown)
        rw [hFails _ (by decide)]
        exact
          ⟨⟨.refl hOrderly, hOrderly.names,
            fun hKnown => absurd hKnown hStranger,
            fun hKnown => absurd hKnown hStranger,
            by simpa using hDrawn⟩,
            .of_stranger (by decide) hStranger⟩
  | none =>
      rcases entryViolation_eq_none_iff.mp hCase with
        ⟨⟨-, hFresh, -, -⟩, hMember, -, hHasLink⟩
      have hLawful : Lawful s (s.addEntry e) :=
        ⟨fun b hRow => ⟨b, hRow, rfl, Or.inl rfl⟩,
          hOrderly.bookings,
          hOrderly.entries.append hFresh hApart hLink hCheck,
          hOrderly.references.addEntry hRoom hMember
            hHasLink⟩
      have hNames :
          ∀ id, (s.addEntry e).Names id →
            used id ∨ id ∈ drawn (asked log) := by
        apply hOrderly.inUse
        intro id hName
        rcases hName with hBooking | ⟨e', hRow, rfl⟩ | hOther
        · exact Or.inl (Or.inl hBooking)
        · rcases List.mem_append.mp hRow with hOld | hLast
          · exact Or.inl (Or.inr (Or.inl ⟨e', hOld, rfl⟩))
          · rw [List.mem_singleton.mp hLast]
            exact Or.inr hDrawn
        · exact Or.inl (Or.inr (Or.inr hOther))
      simp only [hCase, if_true, Prog.bind]
      constructor
      · refine
          ⟨hLawful, hNames, ?_, fun _ _ id hKey => by
            simp at hKey, by simpa using hDrawn⟩
        intro _ _ id hKey
        have hId : id = e.id := by simpa using hKey
        rw [hId]
        exact
          ⟨hFresh, e,
            List.mem_append_right _
              (List.mem_singleton.mpr rfl), rfl⟩
      · exact hRest hCase _ (Orderly.after hLawful hNames _)

/- The event of a new version of a booking. -/
theorem lawfully_appendEvent
    {rid : Uuid}
    {eventType : EventType}
    {b : Booking}
    {now : ℤ}
    {k : Uuid → Tx α}
    (hOrderly : Orderly used log s)
    (hNew :
      ∀ ev ∈ s.outbox, ev.aggregateId = b.id →
        ev.aggregateVersion < b.version)
    (hRest :
      ∀ eventId rest,
        Orderly used (log ++ rest)
            (s.addEvent
              (eventOf rid eventType b now eventId)) →
          Lawfully known used refused (k eventId) (log ++ rest)
            (s.addEvent
              (eventOf rid eventType b now eventId))) :
    Lawfully known used refused
      ((appendEvent rid eventType b now).bind k) log s := by
  unfold appendEvent
  simp only [Prog.bind_eq, Prog.bind_assoc]
  refine lawfully_ask .uuid hOrderly ?_
  intro eventId hDrawn
  rintro ⟨⟩
  have hLawful :
      Lawful s
        (s.addEvent (eventOf rid eventType b now eventId)) :=
    .of_same hOrderly rfl id rfl rfl
  have hNames :
      ∀ id,
        (s.addEvent
          (eventOf rid eventType b now eventId)).Names id →
        used id ∨
          id ∈ drawn
            (asked (log ++ [⟨.uuid, eventId, []⟩])) := by
    apply hDrawn.inUse
    intro id hName
    rcases hName with hBooking | hEntry | ⟨ev, hRow, rfl⟩ | hAudit
    · exact Or.inl (Or.inl hBooking)
    · exact Or.inl (Or.inr (Or.inl hEntry))
    · rcases List.mem_append.mp hRow with hOld | hLast
      · exact Or.inl (Or.inr (Or.inr (Or.inl ⟨ev, hOld, rfl⟩)))
      · rw [List.mem_singleton.mp hLast]
        exact Or.inr (by simp [eventOf])
    · exact Or.inl (Or.inr (Or.inr (Or.inr hAudit)))
  have hKeys :
      ∀ key,
        .unique key ∈
            (eventOf rid eventType b now eventId).keys →
          (∀ id, key ≠ .bookingsPkey id) ∧
            ∀ id, key ≠ .waitlistEntriesPkey id := by
    intro key hKey
    simp only [OutboxEvent.keys, List.mem_cons,
      Key.unique.injEq, List.not_mem_nil, or_false] at hKey
    rcases hKey with rfl | rfl
    · exact ⟨by simp, by simp⟩
    · exact ⟨by simp, by simp⟩
  have hStatement :
      ∀ rest : Tx α,
        StatementOk known used refused
          (log ++ [⟨.uuid, eventId, []⟩]) s
          (eventOf rid eventType b now eventId).keys
          (s.addEvent (eventOf rid eventType b now eventId))
          rest :=
    fun rest =>
      ⟨hLawful, hNames,
        fun _ _ id hKey => absurd rfl ((hKeys _ hKey).2 id),
        fun _ _ id hKey => absurd rfl ((hKeys _ hKey).1 id),
        fun id hKey =>
          hKey.elim (fun h => absurd rfl ((hKeys _ h).1 id))
            (fun h => absurd rfl ((hKeys _ h).2 id))⟩
  cases hCase :
      s.eventViolation (eventOf rid eventType b now eventId) with
  | none =>
      simp only [hCase, Prog.bind]
      refine ⟨hStatement _, ?_⟩
      rw [List.append_assoc]
      apply hRest
      rw [← List.append_assoc]
      exact Orderly.after hLawful hNames _
  | some c =>
      simp only [hCase, Prog.bind]
      refine ⟨hStatement _, ?_⟩
      unfold Cell.eventViolation at hCase
      split at hCase
      · -- only a repeated identifier is in use already
        rename_i hUses
        cases hCase
        apply NoViolation.of_clash (by decide)
        by_contra hNo
        rw [List.append_assoc] at hNo
        exact
          hOrderly.fresh eventId (by simp) hNo
            (Or.inr (Or.inr (Or.inl hUses)))
      · split at hCase
        · rename_i hAggregate
          rcases hAggregate with ⟨ev, hRow, hId, hVersion, -⟩
          have hLess := hNew ev hRow hId
          rw [hVersion] at hLess
          exact absurd hLess (lt_irrefl _)
        · cases hCase

theorem lawfully_auditRequestId
    {scope : Scope}
    {k : Uuid → Tx α}
    (hOrderly : Orderly used log s)
    (hRest :
      ∀ requestId rest,
        Orderly used (log ++ rest) s →
          Lawfully known used refused (k requestId) (log ++ rest)
            s) :
    Lawfully known used refused ((auditRequestId scope).bind k)
      log s := by
  unfold auditRequestId
  split
  · have hDone := hRest ‹Uuid› []
    rw [List.append_nil] at hDone
    exact hDone hOrderly
  · refine lawfully_ask .uuid hOrderly ?_
    intro requestId hLater
    exact hRest requestId _ hLater

theorem lawfully_appendAuditLog
    {action targetType : String}
    {targetId actorId : Option Uuid}
    {requestId : Uuid}
    {details : AuditDetails}
    {now : ℤ}
    {k : AuditRecord → Tx α}
    (hOrderly : Orderly used log s)
    (hRest :
      ∀ a rest,
        Orderly used (log ++ rest) (s.addAudit a) →
          Lawfully known used refused (k a) (log ++ rest)
            (s.addAudit a)) :
    Lawfully known used refused
      ((appendAuditLog action targetType targetId actorId
        requestId details now).bind k) log s := by
  unfold appendAuditLog
  simp only [Prog.bind_eq, Prog.bind_assoc]
  refine lawfully_ask .uuid hOrderly ?_
  intro auditId hDrawn
  rintro ⟨⟩
  generalize hEntry :
      ({ id := auditId
         actorId := actorId
         action := action
         targetType := targetType
         targetId := targetId
         requestId := requestId
         details := details
         createdAt := now } : AuditRecord) = a
  have hId : a.id = auditId := by rw [← hEntry]
  have hLawful : Lawful s (s.addAudit a) :=
    .of_same hOrderly rfl id rfl rfl
  have hNames :
      ∀ id, (s.addAudit a).Names id →
        used id ∨
          id ∈ drawn
            (asked (log ++ [⟨.uuid, auditId, []⟩])) := by
    apply hDrawn.inUse
    intro id hName
    rcases hName with hBooking | hEntry | hEvent | ⟨a', hRow, rfl⟩
    · exact Or.inl (Or.inl hBooking)
    · exact Or.inl (Or.inr (Or.inl hEntry))
    · exact Or.inl (Or.inr (Or.inr (Or.inl hEvent)))
    · rcases List.mem_append.mp hRow with hOld | hLast
      · exact Or.inl (Or.inr (Or.inr (Or.inr ⟨a', hOld, rfl⟩)))
      · rw [List.mem_singleton.mp hLast]
        exact Or.inr (by simp [hId])
  have hStatement :
      ∀ rest : Tx α,
        StatementOk known used refused
          (log ++ [⟨.uuid, auditId, []⟩]) s
          [.unique (.auditLogPkey a.id)] (s.addAudit a)
          rest :=
    fun rest =>
      ⟨hLawful, hNames, fun _ _ id hKey => by simp at hKey,
        fun _ _ id hKey => by simp at hKey,
        fun id hKey => by simp at hKey⟩
  by_cases hCase : ∃ a' ∈ s.audit, a'.id = a.id
  · simp only [hCase, if_true, Prog.bind]
    refine ⟨hStatement _, ?_⟩
    apply NoViolation.of_clash (by decide)
    by_contra hNo
    rw [List.append_assoc] at hNo
    rw [hId] at hCase
    exact
      hOrderly.fresh auditId (by simp) hNo
        (Or.inr (Or.inr (Or.inr hCase)))
  · simp only [hCase, if_false, Prog.bind]
    refine ⟨hStatement _, ?_⟩
    rw [List.append_assoc]
    apply hRest
    rw [← List.append_assoc]
    exact Orderly.after hLawful hNames _

end PigBook

------------------------------------------------------------
-- Promotion
------------------------------------------------------------

namespace PigBook

open ReadCommitted

variable {α : Type} {known : Prop} {used : Uuid → Prop}
variable {refused : Tx α → Prop}
variable {log : List (Action inventory)} {s : Cell}

/-
  The offer of a free window goes through: nobody else can
  have taken it, and the identifiers drawn are new.
-/
theorem attemptOffer_lawfully
    {rid : Uuid}
    {e : WaitlistEntry}
    {bookingId : Uuid}
    {offerNow createdAt : ℤ}
    (hCell : s.Valid)
    (hOrderly : Orderly used log s)
    (hRow : e ∈ s.entries)
    (hWaiting : e.status = .waiting)
    (hFree : ¬ s.Occupied e.timeRange)
    (hDrawn : bookingId ∈ drawn (asked log))
    (hNew : ¬ Clash used log → ¬ s.Names bookingId) :
    Lawfully known used never
      (attemptOffer rid e bookingId offerNow createdAt)
      log s := by
  unfold attemptOffer
  simp only [Prog.bind_eq]
  apply lawfully_insertBooking hOrderly rfl
    (e.offeredBooking_check bookingId offerNow createdAt)
    hDrawn hNew
  · exact hCell.resource_isSome_of_entry hRow
  · intro _
    exact
      WaitlistEntry.offeredBooking_owned
        (hCell.members e hRow) bookingId offerNow createdAt
  · intro hOccupied
    exact absurd hOccupied hFree
  · intro c hOther
    cases c
    case bookingsNoOverlap => exact absurd rfl hOther
    all_goals rfl
  intro hNone act hBooked
  have hFresh : ∀ b ∈ s.bookings, b.id ≠ bookingId :=
    (bookingViolation_eq_none_iff.mp hNone).1.2.1
  have hOffered :
      ((s.addBooking
          (e.offeredBooking bookingId offerNow
            createdAt)).setEntries e.current
        (.offer bookingId offerNow)).Valid :=
    hCell.offer hRow hWaiting hFree hFresh
  have hSame :=
    WaitlistEntry.current_waiting hCell.entries.ids hRow
      hWaiting
  have hOk :
      EntriesOk
        (updateWhere
          (fun e' => e.current e' ∧ e'.status = .waiting)
          (.offer bookingId offerNow) s.entries) := by
    rw [updateWhere_congr hSame]
    exact hOffered.entries
  have hRefer :
      ((s.addBooking
          (e.offeredBooking bookingId offerNow
            createdAt)).setEntries
        (fun e' => e.current e' ∧ e'.status = .waiting)
        (.offer bookingId offerNow)).References := by
    unfold Cell.setEntries
    rw [Cell.addBooking_entries, updateWhere_congr hSame]
    exact hOffered.references
  dsimp only
  refine lawfully_updateEntries hBooked ?_ hOk hRefer ?_
  · exact fun _ => rfl
  intro keys hEntry
  have hCount :
      (s.entries.filter
        (fun e' => e.current e' ∧
          e'.status = .waiting)).length = 1 := by
    rw [List.filter_congr hSame,
      hCell.entries.ids.filter_eq_singleton hRow
        (WaitlistEntry.current_iff hCell.entries.ids hRow)]
    rfl
  rw [Cell.addBooking_entries, hCount, if_neg (by simp)]
  apply lawfully_appendEvent hEntry
  · -- no event is about a booking yet to come
    intro ev hEv hId
    rcases hCell.outboxExists ev hEv with ⟨b, hb, hIdB⟩
    exact absurd (hIdB.trans hId) (hFresh b hb)
  · intro eventId rest _
    trivial

theorem promoteEntry_lawfully
    {rid : Uuid}
    {e : WaitlistEntry}
    (hCell : s.Valid)
    (hOrderly : Orderly used log s)
    (hRow : e ∈ s.entries)
    (hWaiting : e.status = .waiting) :
    Lawfully known used never (promoteEntry rid e) log s := by
  have hExpires :
      ∀ log, Orderly used log s → ∀ dbNow,
        Lawfully known used never
          ((updateEntries e.current
            (.transition .expired dbNow)).bind
              (fun _ => Prog.done (none : Option Uuid)))
          log s := by
    intro log hNow dbNow
    have hLeft :
        (s.setEntries e.current
          (.transition .expired dbNow)).Valid :=
      hCell.leaveQueue hRow (Or.inl rfl)
    exact
      lawfully_updateEntries hNow (fun _ => rfl)
        hLeft.entries hLeft.references (fun _ _ => trivial)
  unfold promoteEntry
  simp only [Prog.bind_eq, Prog.pure_eq_done]
  apply lawfully_ask .clock hOrderly
  intro dbNow hClock
  apply lawfully_ask (.ownerEnabled e.userId) hClock
  intro enabled hOwner
  split
  · exact hExpires _ hOwner dbNow
  split
  · exact hExpires _ hOwner dbNow
  apply lawfully_selectRows hOwner
  intro hRead
  by_cases hOccupied : s.Occupied e.timeRange
  · rw [if_pos (decide_eq_true hOccupied)]
    trivial
  rw [if_neg (by simpa using hOccupied)]
  apply lawfully_ask .clock hRead
  intro offerNow hSampled
  apply lawfully_ask .uuid hSampled
  intro bookingId hBooking
  apply lawfully_ask .transactionTime hBooking
  intro createdAt hLater
  apply attemptOffer_lawfully hCell hLater hRow hWaiting
    hOccupied (by simp)
  intro hNo
  rw [List.append_assoc] at hNo
  exact hSampled.fresh bookingId (by simp) hNo

/- Each entry of the page, by induction on the page. -/
theorem promotePage_lawfully
    {rid : Uuid}
    {es rest : List WaitlistEntry}
    {cursor : Option (ℤ ×ₗ Uuid)}
    {promoted : List Uuid}
    (hCell : s.Valid)
    (hOrderly : Orderly used log s)
    (hRest : s.Unvisited cursor (es ++ rest)) :
    Lawfully known used never (promotePage rid es promoted)
      log s := by
  induction es generalizing s log cursor promoted with
  | nil => trivial
  | cons e es ih =>
      have hHead := hRest.mem_iff.mp List.mem_cons_self
      have hWaiting : e.status = .waiting := by
        simpa [WaitlistEntry.isWaiting] using hHead.2.1
      unfold promotePage
      apply Lawfully.then hOrderly
      · exact
          promoteEntry_lawfully hCell hOrderly hHead.1
            hWaiting
      · apply
          promoteEntry_rule hCell hHead.1 hWaiting
            hOrderly.accounted (fun _ _ _ => trivial)
        intro x acts offered _ hVisit _ hNow
        exact
          ih (hVisit.valid hCell) hNow
            (promoteStep_unvisited hCell x hRest)

/- Each page, by induction on the bound of the loop. -/
theorem scanWaiting_lawfully
    {rid : Uuid}
    {pageSize bound : ℕ}
    {rest : List WaitlistEntry}
    {cursor : Option (ℤ ×ₗ Uuid)}
    {promoted : List Uuid}
    (hCell : s.Valid)
    (hOrderly : Orderly used log s)
    (hRest : s.Unvisited cursor rest) :
    Lawfully known used never
      (scanWaiting rid pageSize bound cursor promoted)
      log s := by
  induction bound generalizing s log rest cursor promoted with
  | zero => exact .of_ne (fun c hEq => by cases hEq)
  | succ bound ih =>
      unfold scanWaiting
      rw [Prog.bind_eq]
      apply lawfully_selectRows hOrderly
      intro hRead
      rw [Cell.waitingPage_eq_page, hRest.page_eq]
      cases hLast : (rest.take pageSize).getLast? with
      | none => trivial
      | some last =>
          have hPage :
              s.Unvisited cursor
                (rest.take pageSize ++ rest.drop pageSize) := by
            rw [List.take_append_drop]
            exact hRest
          apply Lawfully.then hRead
          · exact promotePage_lawfully hCell hRead hPage
          · apply
              promotePage_rule hCell hPage hRead.accounted
                (fun _ _ _ => trivial)
            intro xs acts _ _ hVisits _ hRest' hNow
            split
            · trivial
            · unfold cursorAfter at hRest'
              rw [hLast] at hRest'
              exact
                ih
                  (hVisits.induction
                    (fun h hVisit => hVisit.valid h) hCell)
                  hNow hRest'

/-
  The promotion of the queue: each offer goes through, and
  the conflict that its INSERT could meet never arises.
-/
theorem promoteWaiters_lawfully
    {rid : Uuid}
    {pageSize : ℕ}
    (hCell : s.Valid)
    (hOrderly : Orderly used log s) :
    Lawfully known used never (promoteWaiters pageSize rid)
      log s := by
  have hKeyed : Keyed WaitlistEntry.position s.entries := by
    apply hCell.entries.ids.imp
    intro e e' hNe hEq
    exact hNe (congrArg (fun c => (ofLex c).2) hEq)
  unfold promoteWaiters
  rw [Prog.bind_eq]
  apply lawfully_select hOrderly
    (resourceKeys_row (fun key hEq => by cases hEq))
  intro hNow
  exact
    scanWaiting_lawfully hCell hNow (Remaining.start hKeyed)

end PigBook
