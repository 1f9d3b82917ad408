import Akabbo.LedgerReads
import Akabbo.PairedRuns
import Akabbo.ServiceCalls

/-!
# What the public page gives away

Two states of an event behind one public link, and when a visitor cannot tell them apart.
-/
namespace Akabbo.PublicPage
open Access RowTable StatementProgram ProgramParts PairedRuns LedgerState ServiceCalls LedgerReads
open StatementProgram.Program (query run)

section page
variable (db : LedgerDb) (e : ℕ)

/-- The people who have promised anything. -/
def contributors : List PersonRow := (personRows db e).filter fun r => r.committed > 0

def contributorNames : Finset String := ((contributors db e).map PersonRow.displayName).toFinset

/-- Their names by the amount received, largest first, as far as the page lists them. -/
def rankedNames : List String :=
  ((byReceived (contributors db e)).take topContributorsLimit).map PersonRow.displayName

def budgetLines : List (BudgetItem × ℕ) :=
  (db.budgetItems.rows.filter fun b => b.eventId == e).map fun b => (b, coveredOf db e b.id)

def announcementRows : List EventAnnouncement :=
  db.announcements.rows.filter fun a => a.eventId == e

def instructionRows : List PaymentInstruction :=
  db.paymentInstructions.rows.filter fun i => i.eventId == e

end page

/-- The link leads to this event. -/
def LeadsTo (link : PublicLink) (token : Option String) (db : LedgerDb) (event : Event) : Prop :=
  (run (resolve link token) db).1 = .ok event

instance (link : PublicLink) (token : Option String) (db : LedgerDb) (event : Event) :
    Decidable (LeadsTo link token db event) :=
  decidable_of_iff ((run (resolve link token) db).1.toOption = some event) <| by
    unfold LeadsTo
    cases (run (resolve link token) db).1 <;> simp [Except.toOption]

/-- The totals, the budget, the announcements and the payment instructions of an event. -/
structure SameTotals (db db' : LedgerDb) (e : ℕ) : Prop where
  pledged : committedAgg db e = committedAgg db' e
  received : receivedAgg db e = receivedAgg db' e
  budget : budgetLines db e = budgetLines db' e
  announcements : announcementRows db e = announcementRows db' e
  instructions : instructionRows db e = instructionRows db' e

/-- Everything that is stored about events but the events themselves. -/
structure SameRows (db db' : LedgerDb) : Prop where
  persons : db.persons = db'.persons
  pledges : db.pledges = db'.pledges
  fulfillments : db.fulfillments = db'.fulfillments
  budgetItems : db.budgetItems = db'.budgetItems
  allocations : db.allocations = db'.allocations
  announcements : db.announcements = db'.announcements
  instructions : db.paymentInstructions = db'.paymentInstructions

/-- A visitor sees the same in both states. -/
def LooksAlike (link : PublicLink) (token : Option String) (db db' : LedgerDb) : Prop :=
  (run (getPublicEventView link token) db).1 = (run (getPublicEventView link token) db').1

section parts
variable {db db' : LedgerDb} {e : ℕ}

theorem readOnly_buildPledgeBreakdown (personIds : List ℕ) (showOutstanding : Bool) :
    ReadOnly (buildPledgeBreakdown e personIds showOutstanding) := by
  unfold buildPledgeBreakdown
  split_ifs
  · trivial
  · exact effects_query _

theorem readOnly_buildContributors (people : List PersonRow) (vis : ContributorVisibility)
    (showOutstanding : Bool) : ReadOnly (buildContributors e people vis showOutstanding) := by
  cases vis with
  | aggregateOnly => trivial
  | hidden => trivial
  | namesOnly => trivial
  | namesAndAmounts =>
    exact effects_bind (readOnly_buildPledgeBreakdown _ _) fun _ => trivial

theorem readOnly_buildBudget (vis : BudgetVisibility) : ReadOnly (buildBudget e vis) := by
  unfold buildBudget
  split_ifs
  · trivial
  · exact effects_bind (effects_query _) fun _ => trivial

/-- The lines that are shown, of the lines there are. -/
theorem shownLines_eq (vis : BudgetVisibility) :
    ((db.budgetItems.rows.filter fun b =>
      b.eventId == e && (vis != .partiallyPublic || b.isPublic)).insertionSort
        fun a b => a.createdAt ≤ b.createdAt).map
        (fun b => (b.name, b.targetValue, coveredOf db e b.id)) =
      (((budgetLines db e).filter fun x => vis != .partiallyPublic || x.1.isPublic).insertionSort
        fun x y => x.1.createdAt ≤ y.1.createdAt).map fun x => (x.1.name, x.1.targetValue, x.2) := by
  have hrows : (db.budgetItems.rows.filter fun b =>
      b.eventId == e && (vis != .partiallyPublic || b.isPublic)) =
      (db.budgetItems.rows.filter fun b => b.eventId == e).filter fun b =>
        vis != .partiallyPublic || b.isPublic := by
    rw [List.filter_filter]
    simp only [Bool.and_comm]
  rw [hrows, budgetLines, List.filter_map,
    ← List.map_insertionSort fun a b : BudgetItem => a.createdAt ≤ b.createdAt, List.map_map]
  · rfl
  · exact fun a _ b _ => Iff.rfl

theorem alike_buildBudget (vis : BudgetVisibility) (h : budgetLines db e = budgetLines db' e) :
    alike Eq (buildBudget e vis) (buildBudget e vis) db db' := by
  unfold buildBudget
  split_ifs
  · exact alike_pure rfl
  · refine alike_query_bind (alike_pure ?_)
    rw [shownLines_eq, shownLines_eq, h]

theorem alike_announcements (h : announcementRows db e = announcementRows db' e) :
    alike Eq (publishedAnnouncements e) (publishedAnnouncements e) db db' := by
  have hrows (d : LedgerDb) : (d.announcements.rows.filter fun a =>
      a.eventId == e && a.status == .published) =
      (announcementRows d e).filter fun a => a.status == .published := by
    rw [announcementRows, List.filter_filter]
    simp only [Bool.and_comm]
  refine alike_query_bind (alike_pure ?_)
  rw [hrows, hrows, h]

theorem alike_instructions (h : instructionRows db e = instructionRows db' e) :
    alike Eq (publicPaymentInstructions e) (publicPaymentInstructions e) db db' := by
  have hrows (d : LedgerDb) : (d.paymentInstructions.rows.filter fun i =>
      i.eventId == e && i.isPublic) = (instructionRows d e).filter fun i => i.isPublic := by
    rw [instructionRows, List.filter_filter]
    simp only [Bool.and_comm]
  refine alike_query_bind (alike_pure ?_)
  rw [hrows, hrows, h]

theorem sameTotals_of_rows (h : SameRows db db') (e : ℕ) : SameTotals db db' e where
  pledged := by rw [committedAgg, committedAgg, h.pledges]
  received := by rw [receivedAgg, receivedAgg, h.fulfillments]
  budget := by
    unfold budgetLines coveredOf
    rw [h.budgetItems, h.allocations]
  announcements := by rw [announcementRows, announcementRows, h.announcements]
  instructions := by rw [instructionRows, instructionRows, h.instructions]

theorem personRows_of_rows (h : SameRows db db') (e : ℕ) : personRows db e = personRows db' e := by
  unfold personRows committedBy receivedFrom
  rw [h.persons, h.pledges, h.fulfillments]

theorem alike_breakdown (h : SameRows db db') (personIds : List ℕ) (showOutstanding : Bool) :
    alike Eq (buildPledgeBreakdown e personIds showOutstanding)
      (buildPledgeBreakdown e personIds showOutstanding) db db' := by
  unfold buildPledgeBreakdown
  split_ifs
  · exact alike_pure rfl
  · refine alike_query ?_
    rw [h.pledges, h.fulfillments]

end parts

/-- The recent activity goes with the amounts. -/
def activity (event : Event) : LedgerProgram (Option (List PublicActivityEntry)) :=
  match event.contributorVisibility with
  | .namesAndAmounts => some <$> buildRecentActivity event.id
  | _ => pure none

theorem readOnly_activity (event : Event) : ReadOnly (activity event) := by
  have hrecent : ReadOnly (buildRecentActivity event.id) :=
    effects_bind (effects_query _) fun _ => trivial
  unfold activity
  split
  · exact effects_map hrecent some
  · trivial

theorem alike_activity {db db' : LedgerDb} (h : SameRows db db') (event : Event) :
    alike Eq (activity event) (activity event) db db' := by
  have hrecent : ReadOnly (buildRecentActivity event.id) :=
    effects_bind (effects_query _) fun _ => trivial
  unfold activity
  split
  · refine alike_map hrecent hrecent (alike_query_bind (alike_pure ?_))
    rw [h.fulfillments, h.pledges, h.persons]
  · exact alike_pure rfl

/-- Pages of one event, whose targets may differ where they are not shown, look alike when the
people and the activity on them do. -/
theorem alike_page {db db' : LedgerDb} {event : Event} {target : Option ℕ}
    (htarget : event.showTarget = true → target = event.targetAmount)
    (h : SameTotals db db' event.id)
    (hcount : event.contributorVisibility ≠ .hidden →
      (contributors db event.id).length = (contributors db' event.id).length)
    (hpeople : alike Eq
      (buildContributors event.id (personRows db event.id) event.contributorVisibility
        event.showOutstanding)
      (buildContributors event.id (personRows db' event.id) event.contributorVisibility
        event.showOutstanding) db db')
    (hactivity : alike Eq (activity event) (activity event) db db') :
    alike Eq (publicEventView event) (publicEventView { event with targetAmount := target }) db
      db' := by
  refine alike_query_bind <| alike_query_bind <| alike_query_bind <|
    alike_bind (readOnly_buildContributors _ _ _) (readOnly_buildContributors _ _ _) hpeople ?_
  rintro people - rfl
  refine alike_bind (readOnly_activity event) (readOnly_activity event) hactivity ?_
  rintro recent - rfl
  refine alike_bind (readOnly_buildBudget _) (readOnly_buildBudget _)
    (alike_buildBudget _ h.budget) ?_
  rintro budget - rfl
  refine alike_bind (effects_bind (effects_query _) fun _ => trivial)
    (effects_bind (effects_query _) fun _ => trivial) (alike_announcements h.announcements) ?_
  rintro announcements - rfl
  refine alike_bind (effects_bind (effects_query _) fun _ => trivial)
    (effects_bind (effects_query _) fun _ => trivial) (alike_instructions h.instructions) ?_
  rintro instructions - rfl
  refine alike_pure ?_
  have hshown : (if event.contributorVisibility = .hidden then none
      else some (contributors db event.id).length) =
      if event.contributorVisibility = .hidden then none
      else some (contributors db' event.id).length := by
    split_ifs with hvis
    · rfl
    · rw [hcount hvis]
  unfold contributors at hshown
  rw [h.pledged, h.received]
  cases hshow : event.showTarget with
  | false => simp [hshown]
  | true => simp [htarget hshow, hshown]

section settings
variable {link : PublicLink} {token : Option String} {db db' : LedgerDb} {event event' : Event}

theorem readOnly_resolve (link : PublicLink) (token : Option String) :
    ReadOnly (resolve link token) := by
  refine effects_bind ?_ fun _ => effects_bind (effects_orThrow _ _) fun _ =>
    effects_bind (effects_refuse _) fun _ => trivial
  cases link with
  | id i => exact effects_query _
  | slug s =>
    refine effects_bind (effects_query _) fun found => ?_
    cases found with
    | none => exact effects_query _
    | some event => trivial

/-- What a visitor sees of the event that the link leads to. -/
theorem run_view (h : LeadsTo link token db event) :
    (run (getPublicEventView link token) db).1 = (run (publicEventView event) db).1 := by
  unfold getPublicEventView
  rw [run_readOnly_bind (readOnly_resolve link token), h]
  rfl

theorem looksAlike_of_page (h : LeadsTo link token db event) (h' : LeadsTo link token db' event')
    (hpage : alike Eq (publicEventView event) (publicEventView event') db db') :
    LooksAlike link token db db' := by
  unfold LooksAlike
  rw [run_view h, run_view h']
  exact alike_eq.mp hpage

/-- Without the list of people, neither names nor anybody's amounts matter; without the count,
nor does the number of people. -/
theorem looksAlike_unlisted (h : LeadsTo link token db event) (h' : LeadsTo link token db' event)
    (hsame : SameTotals db db' event.id)
    (hvis : event.contributorVisibility = .hidden ∨ event.contributorVisibility = .aggregateOnly ∧
      (contributors db event.id).length = (contributors db' event.id).length) :
    LooksAlike link token db db' := by
  refine looksAlike_of_page h h' (alike_page (fun _ => rfl) hsame ?_ ?_ ?_)
  · intro hne
    rcases hvis with hhidden | ⟨-, hcount⟩
    · exact absurd hhidden hne
    · exact hcount
  · rcases hvis with hvis | ⟨hvis, -⟩ <;> rw [hvis] <;> exact alike_pure rfl
  · unfold activity
    rcases hvis with hvis | ⟨hvis, -⟩ <;> rw [hvis] <;> exact alike_pure rfl

/-- A target that is not shown makes no difference. -/
theorem looksAlike_target {target : Option ℕ} (h : LeadsTo link token db event)
    (h' : LeadsTo link token db' { event with targetAmount := target })
    (hshow : event.showTarget = false) (hsame : SameRows db db') : LooksAlike link token db db' := by
  have hrows := personRows_of_rows hsame event.id
  refine looksAlike_of_page h h' (alike_page (fun hs => absurd (hshow.symm.trans hs) (by simp))
    (sameTotals_of_rows hsame event.id) ?_ ?_ ?_)
  · exact fun _ => by rw [contributors, contributors, hrows]
  · rw [hrows]
    cases event.contributorVisibility with
    | aggregateOnly => exact alike_pure rfl
    | hidden => exact alike_pure rfl
    | namesOnly => exact alike_pure rfl
    | namesAndAmounts =>
      refine alike_bind (readOnly_buildPledgeBreakdown _ _) (readOnly_buildPledgeBreakdown _ _)
        (alike_breakdown hsame _ _) ?_
      rintro pledges - rfl
      exact alike_pure rfl
  · exact alike_activity hsame event

/-- With the names only, the page shows their number and the first of them. -/
theorem view_namesOnly (hvis : event.contributorVisibility = .namesOnly) (db : LedgerDb) :
    ∃ v, (run (publicEventView event) db).1 = .ok v ∧
      v.contributorCount = some (contributors db event.id).length ∧
      v.contributors.map (List.map PublicContributor.displayName) =
        some (rankedNames db event.id) := by
  have hnames (rows : List PersonRow) : (rows.map fun r =>
      ({ displayName := r.displayName } : PublicContributor)).map PublicContributor.displayName =
      rows.map PersonRow.displayName := by
    rw [List.map_map]
    rfl
  unfold publicEventView buildBudget
  rw [hvis]
  by_cases hbudget : event.budgetVisibility = .hidden
  · rw [if_pos hbudget]
    exact ⟨_, rfl, rfl, congrArg some (hnames _)⟩
  · rw [if_neg hbudget]
    exact ⟨_, rfl, rfl, congrArg some (hnames _)⟩

theorem looksAlike_namesOnly (h : LeadsTo link token db event) (h' : LeadsTo link token db' event)
    (hvis : event.contributorVisibility = .namesOnly) (hsame : SameTotals db db' event.id) :
    LooksAlike link token db db' ↔
      (contributors db event.id).length = (contributors db' event.id).length ∧
        rankedNames db event.id = rankedNames db' event.id := by
  constructor
  · intro hlook
    obtain ⟨v, hv, hcount, hnames⟩ := view_namesOnly hvis db
    obtain ⟨v', hv', hcount', hnames'⟩ := view_namesOnly hvis db'
    unfold LooksAlike at hlook
    rw [run_view h, run_view h', hv, hv'] at hlook
    obtain rfl := Except.ok.inj hlook
    exact ⟨Option.some.inj (hcount.symm.trans hcount'), Option.some.inj (hnames.symm.trans hnames')⟩
  · rintro ⟨hcount, hnames⟩
    refine looksAlike_of_page h h' (alike_page (fun _ => rfl) hsame (fun _ => hcount) ?_ ?_)
    · rw [hvis]
      refine alike_pure (congrArg some ?_)
      have hlist := congrArg
        (List.map fun name : String => ({ displayName := name } : PublicContributor)) hnames
      simpa only [rankedNames, contributors, List.map_map, Function.comp_def] using hlist
    · unfold activity
      rw [hvis]
      exact alike_pure rfl

/-- The page of an event in two states that agree on the totals, the budget, the announcements and
the payment instructions. With NAMES_ONLY it shows the number of contributors and who of them
gave most; with AGGREGATE_ONLY no more than the number, with HIDDEN not even that. A target
that is not shown is never shown. -/
theorem page_hides (link : PublicLink) (token : Option String) (db db' : LedgerDb) (event : Event)
    (h : LeadsTo link token db event) :
    (LeadsTo link token db' event → SameTotals db db' event.id →
      (event.contributorVisibility = .namesOnly → (LooksAlike link token db db' ↔
        (contributors db event.id).length = (contributors db' event.id).length ∧
          rankedNames db event.id = rankedNames db' event.id)) ∧
      (event.contributorVisibility = .aggregateOnly →
        (contributors db event.id).length = (contributors db' event.id).length →
          LooksAlike link token db db') ∧
      (event.contributorVisibility = .hidden → LooksAlike link token db db')) ∧
    ∀ target, LeadsTo link token db' { event with targetAmount := target } →
      event.showTarget = false → SameRows db db' → LooksAlike link token db db' := by
  refine ⟨fun h' hsame => ⟨?_, ?_, ?_⟩, ?_⟩
  · exact fun hvis => looksAlike_namesOnly h h' hvis hsame
  · exact fun hvis hcount => looksAlike_unlisted h h' hsame (.inr ⟨hvis, hcount⟩)
  · exact fun hvis => looksAlike_unlisted h h' hsame (.inl hvis)
  · exact fun target h' hshow hsame => looksAlike_target h h' hshow hsame

end settings

/-- Two contributors who promised 100 each, and what they paid. -/
def wedding (john mary : ℕ) : LedgerDb :=
  served ⟨⟨1, true⟩, ⟨7, .owner, .active⟩⟩
    [(.createEvent { name := "Wedding" },
        ⟨⟨0, 0, 0, 0⟩, ⟨0, 7, 0, "wedding", { allowed := true }, none⟩⟩),
      (.updateSettings { contributorVisibility := some .namesOnly }, noDraw),
      (.ledger (.createPerson { allowed := true } { displayName := "John" }), draw 10),
      (.ledger (.createPerson { allowed := true } { displayName := "Mary" }), draw 11),
      (.ledger (.createPledge { personId := 10, committedValue := 100 }), draw 20),
      (.ledger (.createPledge { personId := 11, committedValue := 100 }), draw 21),
      (.ledger (.recordFulfillment { pledgeId := 20, value := john }), draw 30),
      (.ledger (.recordFulfillment { pledgeId := 21, value := mary }), draw 31)]
    { LedgerDb.empty with users := Table.empty.insertNew ⟨1, none⟩ }
where
  noDraw : ServiceDraw := ⟨⟨0, 0, 0, 0⟩, ⟨0, 0, 0, "", { allowed := true }, none⟩⟩
  draw (id : ℕ) : ServiceDraw := { noDraw with ledger := ⟨id, id, id, 1⟩ }

def weddingEvent : Event :=
  { id := 7, ownerUserId := 1, slug := "wedding", name := "Wedding",
    contributorVisibility := .namesOnly, publicRevision := 2, createdAt := 0 }

/-- NAMES_ONLY shows nothing but the set of names. -/
def ShowsOnlyNames : Prop :=
  ∀ (link : PublicLink) (token : Option String) (db db' : LedgerDb) (event : Event),
    LeadsTo link token db event → LeadsTo link token db' event →
    event.contributorVisibility = .namesOnly → SameTotals db db' event.id →
    contributorNames db event.id = contributorNames db' event.id → LooksAlike link token db db'

set_option maxRecDepth 8000 in
theorem names_tell_who_gave_more : ¬ ShowsOnlyNames := by
  intro h
  have hlead : LeadsTo (.slug "wedding") none (wedding 60 40) weddingEvent := by decide
  have hlead' : LeadsTo (.slug "wedding") none (wedding 40 60) weddingEvent := by decide
  have hsame : SameTotals (wedding 60 40) (wedding 40 60) 7 := by
    constructor <;> decide
  have hlook := h (.slug "wedding") none _ _ weddingEvent hlead hlead' rfl hsame (by decide)
  exact absurd ((looksAlike_namesOnly hlead hlead' rfl hsame).mp hlook).2 (by decide)

set_option maxRecDepth 8000 in
theorem page_hides_margin :
    LooksAlike (.slug "wedding") none (wedding 60 40) (wedding 70 30) := by
  have hsame : SameTotals (wedding 60 40) (wedding 70 30) 7 := by
    constructor <;> decide
  have hpage := (page_hides (.slug "wedding") none (wedding 60 40) (wedding 70 30) weddingEvent
    (by decide)).1 (by decide) hsame
  exact (hpage.1 rfl).mpr ⟨by decide, by decide⟩

end Akabbo.PublicPage
