import Akabbo.LedgerReads

/-!
# What a public link opens

A link that is no event's slug falls back on the newest public event whose slug the database says
begins with it, whatever part of the slug that is.
-/
namespace Akabbo.PublicLinks
open RowTable StatementProgram LedgerState LedgerReads
open StatementProgram.Program (query refuse orThrow run)

section sort
variable {α : Type} (key : α → ℕ)

theorem head?_orderedInsert {r : α → α → Prop} [DecidableRel r] (a : α) (l : List α) :
    (l.orderedInsert r a).head? = some (match l.head? with
      | none => a
      | some b => if r a b then a else b) := by
  cases l with
  | nil => rfl
  | cons b l =>
    simp only [List.orderedInsert_cons, List.head?_cons]
    split_ifs <;> rfl

/-- The first row of ORDER BY key DESC: none before it has as much, none after it has more. -/
theorem head?_insertionSort {l : List α} {x : α} :
    (l.insertionSort fun a b => key b ≤ key a).head? = some x ↔
      ∃ pre post, l = pre ++ x :: post ∧ (∀ y ∈ pre, key y < key x) ∧ ∀ y ∈ post, key y ≤ key x := by
  induction l generalizing x with
  | nil => simp
  | cons a l ih =>
    rw [List.insertionSort_cons, head?_orderedInsert, Option.some.injEq]
    cases hhead : (l.insertionSort fun a b => key b ≤ key a).head? with
    | none =>
      have hnil : l = [] := by
        rw [List.head?_eq_none_iff] at hhead
        have hlength := List.length_insertionSort (fun a b => key b ≤ key a) l
        rw [hhead] at hlength
        exact List.length_eq_zero_iff.mp hlength.symm
      subst hnil
      constructor
      · rintro rfl
        exact ⟨[], [], rfl, by simp, by simp⟩
      · rintro ⟨pre, post, he, -, -⟩
        cases pre with
        | nil => exact (List.cons.inj he).1
        | cons _ pre => simp at he
    | some b =>
      obtain ⟨pre, post, rfl, hpre, hpost⟩ := ih.mp hhead
      have hall : ∀ y ∈ pre ++ b :: post, key y ≤ key b := by
        intro y hy
        rcases List.mem_append.mp hy with hy | hy
        · exact (hpre y hy).le
        · rcases List.mem_cons.mp hy with rfl | hy
          · exact le_rfl
          · exact hpost y hy
      dsimp only
      constructor
      · intro hx
        split_ifs at hx with hba
        · subst hx
          exact ⟨[], pre ++ b :: post, rfl, by simp, fun y hy => (hall y hy).trans hba⟩
        · subst hx
          refine ⟨a :: pre, post, rfl, fun y hy => ?_, hpost⟩
          rcases List.mem_cons.mp hy with rfl | hy
          · omega
          · exact hpre y hy
      · rintro ⟨pre', post', he, hpre', hpost'⟩
        cases pre' with
        | nil =>
          obtain ⟨rfl, rfl⟩ := List.cons.inj he
          exact if_pos (hpost' b (by simp))
        | cons a' pre' =>
          obtain ⟨rfl, hl⟩ := List.cons.inj he
          have hsame := ih.mpr ⟨pre', post', hl, fun y hy => hpre' y (by simp [hy]), hpost'⟩
          rw [hhead] at hsame
          obtain rfl := Option.some.inj hsame
          exact if_neg (by have := hpre' a (by simp); omega)

end sort

def isHexDigit (c : Char) : Bool := c.isDigit || decide ('a' ≤ c ∧ c ≤ 'f')

/-- The slug without its final dash and eight hex digits. -/
def baseSlug (slug : String) : Option String :=
  match slug.toList.reverse with
  | h₁ :: h₂ :: h₃ :: h₄ :: h₅ :: h₆ :: h₇ :: h₈ :: '-' :: rest =>
      if [h₁, h₂, h₃, h₄, h₅, h₆, h₇, h₈].all isHexDigit then some (String.ofList rest.reverse)
      else none
  | _ => none

section lookup
variable (startsWith : String → String → Bool)

/-- `findPublicEvent`, where the database decides which slugs start with a text: `startsWith` takes
the slug and the text. -/
def findPublicEventBy (link : PublicLink) : LedgerProgram (Option Event) :=
  match link with
  | .id id => query fun db => db.events.get? id
  | .slug slug => do
      let event ← query fun db => db.events.find? fun e => e.slug == slug
      match event with
      | some event => return some event
      | none => query fun db =>
          ((db.events.rows.filter fun e => startsWith e.slug slug && e.isPublic).insertionSort
            fun a b => b.createdAt ≤ a.createdAt).head?

def resolveBy (link : PublicLink) (token : Option String) : LedgerProgram Event := do
  let found ← findPublicEventBy startsWith link
  let event ← orThrow (found.filter Event.isPublic)
    (.publicEventNotFound "No public event found for this link")
  refuse (if event.publicAccessToken.isSome && token != event.publicAccessToken then
    some (.publicTokenRequired "This event link requires a valid access token") else none)
  return event

def Opens (db : LedgerDb) (link : PublicLink) (token : Option String) (event : Event) : Prop :=
  (run (resolveBy startsWith link token) db).1 = .ok event

end lookup

theorem resolveBy_like (link : PublicLink) (token : Option String) :
    resolveBy LikePatterns.startsWith link token = resolve link token := by
  cases link <;> rfl

/-- The link is the event's id, its slug, or a base slug that no other public event has. -/
inductive Names (db : LedgerDb) (event : Event) : PublicLink → Prop
  | id : Names db event (.id event.id)
  | slug : Names db event (.slug event.slug)
  | base {text : String} (hbase : baseSlug event.slug = some text)
      (hunique : ∀ other ∈ db.events, other.isPublic = true → baseSlug other.slug = some text →
        other.id = event.id) : Names db event (.slug text)

/-- What the link may open: a public event that it names, with the token that the event asks for. -/
structure MayOpen (db : LedgerDb) (link : PublicLink) (token : Option String) (event : Event) :
    Prop where
  isPublic : event.isPublic = true
  token : event.publicAccessToken = none ∨ token = event.publicAccessToken
  names : Names db event link

/-- The public event that was created last among those whose slug starts with the text; of several
created at once, the first row. -/
def Newest (startsWith : String → String → Bool) (db : LedgerDb) (text : String) (event : Event) :
    Prop :=
  ∃ pre post, (db.events.rows.filter fun e => startsWith e.slug text && e.isPublic) =
    pre ++ event :: post ∧ (∀ e ∈ pre, e.createdAt < event.createdAt) ∧
      ∀ e ∈ post, e.createdAt ≤ event.createdAt

/-- The link is an id or some event's slug; or the newest public event that starts with it has it
for its base slug, which no other public event shares. -/
def InFull (startsWith : String → String → Bool) (db : LedgerDb) : PublicLink → Prop
  | .id _ => True
  | .slug text => (∃ event ∈ db.events, event.slug = text) ∨
      ∀ event, Newest startsWith db text event → Names db event (.slug text)

section opens
variable {startsWith : String → String → Bool} {db : LedgerDb} {link : PublicLink}
  {token : Option String} {event : Event} {text : String}

def found (startsWith : String → String → Bool) (db : LedgerDb) : PublicLink → Option Event
  | .id id => db.events.get? id
  | .slug slug =>
      match db.events.find? fun e => e.slug == slug with
      | some event => some event
      | none => ((db.events.rows.filter fun e => startsWith e.slug slug && e.isPublic).insertionSort
          fun a b => b.createdAt ≤ a.createdAt).head?

theorem exec_findPublicEventBy (c v : LedgerDb) :
    Program.exec (findPublicEventBy startsWith link) c v = .ok (found startsWith v link, c, v) := by
  cases link with
  | id i => rfl
  | slug text =>
    simp only [findPublicEventBy, found, Program.exec_query_bind]
    cases v.events.find? fun e => e.slug == text <;> rfl

theorem opens_iff : Opens startsWith db link token event ↔
    found startsWith db link = some event ∧ event.isPublic = true ∧
      (event.publicAccessToken = none ∨ token = event.publicAccessToken) := by
  have htoken : (if event.publicAccessToken.isSome && token != event.publicAccessToken then
      some (Access.Refusal.publicTokenRequired "This event link requires a valid access token")
      else none) = none ↔ event.publicAccessToken = none ∨ token = event.publicAccessToken := by
    cases event.publicAccessToken with
    | none => simp
    | some secret => simp
  have hpublic : (found startsWith db link).filter Event.isPublic = some event ↔
      found startsWith db link = some event ∧ event.isPublic = true := Option.filter_eq_some_iff
  have hexec (c v : LedgerDb) : (resolveBy startsWith link token).exec db db = .ok (event, c, v) ↔
      ((found startsWith db link = some event ∧ event.isPublic = true) ∧
        (event.publicAccessToken = none ∨ token = event.publicAccessToken)) ∧ db = c ∧ db = v := by
    unfold resolveBy
    rw [Program.exec_bind, exec_findPublicEventBy, ← hpublic, ← htoken]
    dsimp only
    rw [Program.exec_orThrow_bind]
    simp only [Program.exec_refuse_bind, Program.exec_pure_eq_ok]
    constructor
    · rintro ⟨r, hr, hopen, rfl, hc, hv⟩
      exact ⟨⟨hr, hopen⟩, hc, hv⟩
    · rintro ⟨⟨hr, hopen⟩, hc, hv⟩
      exact ⟨event, hr, hopen, rfl, hc, hv⟩
  unfold Opens
  rw [Program.run_eq_ok]
  simp only [hexec, and_assoc, exists_and_left, exists_eq', and_true]

/-- The event found is a row. -/
theorem mem_of_found (h : found startsWith db link = some event) : event ∈ db.events := by
  cases link with
  | id i => exact Table.get?_mem h
  | slug text =>
    simp only [found] at h
    split at h
    · next first hfirst =>
      obtain rfl := Option.some.inj h
      exact (Table.mem_of_find? hfirst).1
    · have hmem := (List.mem_insertionSort _).mp (List.mem_of_mem_head? h)
      exact (List.mem_filter.mp hmem).1

/-- Where no event has the text for its slug, the newest match decides. -/
theorem found_slug (hno : ∀ e ∈ db.events, e.slug ≠ text) :
    found startsWith db (.slug text) = some event ↔ Newest startsWith db text event := by
  have hnone : db.events.find? (fun e => e.slug == text) = none := by
    refine Table.find?_eq_none.mpr fun e he => ?_
    simpa using hno e he
  simp only [found, hnone]
  exact head?_insertionSort Event.createdAt

theorem isPublic_of_newest (h : Newest startsWith db text event) :
    event ∈ db.events ∧ event.isPublic = true := by
  obtain ⟨pre, post, he, -, -⟩ := h
  have hmem : event ∈ db.events.rows.filter fun e => startsWith e.slug text && e.isPublic := by
    rw [he]
    simp
  obtain ⟨hrow, hmatch⟩ := List.mem_filter.mp hmem
  exact ⟨hrow, (Bool.and_eq_true_iff.mp hmatch).2⟩

end opens

/-- A link opens only what it names, with whatever token, exactly when it is given in full. -/
theorem opens_named_iff (startsWith : String → String → Bool) (db : LedgerDb) (link : PublicLink) :
    (∀ token event, Opens startsWith db link token event → MayOpen db link token event) ↔
      InFull startsWith db link := by
  cases link with
  | id i =>
    refine iff_of_true (fun token event hopen => ?_) trivial
    obtain ⟨hfound, hpublic, htoken⟩ := opens_iff.mp hopen
    obtain rfl := Table.get?_key (t := db.events) hfound
    exact ⟨hpublic, htoken, .id⟩
  | slug text =>
    by_cases hexact : ∃ event ∈ db.events, event.slug = text
    · refine iff_of_true (fun token event hopen => ?_) (.inl hexact)
      obtain ⟨hfound, hpublic, htoken⟩ := opens_iff.mp hopen
      obtain ⟨other, hother, hslug⟩ := hexact
      cases hfind : db.events.find? fun e => e.slug == text with
      | none => exact absurd (by simpa using hslug) (Table.find?_eq_none.mp hfind other hother)
      | some first =>
        simp only [found, hfind, Option.some.injEq] at hfound
        obtain ⟨-, hfirst⟩ := Table.mem_of_find? hfind
        obtain rfl : first.slug = text := by simpa using hfirst
        subst hfound
        exact ⟨hpublic, htoken, .slug⟩
    · have hno : ∀ e ∈ db.events, e.slug ≠ text := fun e he hslug => hexact ⟨e, he, hslug⟩
      constructor
      · intro h
        refine .inr fun event hnewest => ?_
        have hopen : Opens startsWith db (.slug text) event.publicAccessToken event :=
          opens_iff.mpr ⟨(found_slug hno).mpr hnewest, (isPublic_of_newest hnewest).2, .inr rfl⟩
        exact (h _ event hopen).names
      · rintro (hslug | hnamed) token event hopen
        · exact absurd hslug hexact
        · obtain ⟨hfound, hpublic, htoken⟩ := opens_iff.mp hopen
          exact ⟨hpublic, htoken, hnamed event ((found_slug hno).mp hfound)⟩

def wedding : Event :=
  { id := 7, ownerUserId := 1, slug := "wedding-0123abcd", name := "Wedding", createdAt := 0 }

def published : LedgerDb := { LedgerDb.empty with events := Table.empty.insertNew wedding }

theorem newest_wedding : Newest LikePatterns.startsWith published "w" wedding := by
  have hfits : LikePatterns.startsWith wedding.slug "w" = true :=
    (LikePatterns.startsWith_iff (by simp [LikePatterns.IsPlain])).mpr (by decide)
  refine ⟨[], [], ?_, by simp, by simp⟩
  change [wedding].filter _ = _
  rw [List.filter_cons_of_pos (by rw [hfits]; rfl)]
  rfl

set_option maxRecDepth 4000 in
theorem one_letter_opens :
    ¬ ∀ (startsWith : String → String → Bool) (db : LedgerDb) (link : PublicLink)
      (token : Option String) (event : Event),
      Opens startsWith db link token event → MayOpen db link token event := by
  intro h
  have hopen : Opens LikePatterns.startsWith published (.slug "w") none wedding :=
    opens_iff.mpr ⟨(found_slug (by decide)).mpr newest_wedding, rfl, .inl rfl⟩
  have hnames : ∀ link, Names published wedding link → link = .slug "w" → False := by
    rintro link (_ | _ | ⟨hbase, -⟩) hlink
    · cases hlink
    · exact absurd (PublicLink.slug.inj hlink) (by decide)
    · rw [PublicLink.slug.inj hlink] at hbase
      exact absurd hbase (by decide)
  exact hnames _ (h LikePatterns.startsWith published (.slug "w") none wedding hopen).names rfl

/-- The base slug is a name of the event. -/
example : baseSlug wedding.slug = some "wedding" := by decide

end Akabbo.PublicLinks
