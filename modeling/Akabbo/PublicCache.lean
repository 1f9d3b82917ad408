import Akabbo.PublicLinks
import Akabbo.SharedCache

/-!
# A shared cache in front of the public page

The token may come in the URL or in a header. The responses are public to caches, and the header is
not among those by which a cache keeps them apart.
-/
namespace Akabbo.PublicCache
open Access RowTable StatementProgram LedgerState LedgerReads PublicLinks SharedCache
open StatementProgram.Program (run)

inductive Route
  | event | summary | budget | contributors | announcements | contribute
  deriving DecidableEq, Repr

structure PublicSummary where
  slug : String
  name : String
  description : Option String
  eventDate : Option ℕ
  status : EventStatus
  currency : String
  target : Option String
  totalPledged : String
  totalReceived : String
  totalOutstanding : Option String
  remaining : Option String
  percentCovered : Option Float
  contributorCount : Option ℕ
  revision : ℕ

/-- What the controller returns as JSON. -/
inductive Body
  | event (view : PublicEventView)
  | summary (summary : PublicSummary)
  | budget (budget : Option PublicBudget) (visibility : BudgetVisibility)
  | contributors (contributors : Option (List PublicContributor)) (contributorCount : Option ℕ)
      (visibility : ContributorVisibility)
  | announcements (announcements : List PublicAnnouncement)
  | contribute (paymentInstructions : List PublicPaymentInstruction)

def Route.body (v : PublicEventView) : Route → Body
  | .event => .event v
  | .summary => .summary
      { slug := v.slug
        name := v.name
        description := v.description
        eventDate := v.eventDate
        status := v.status
        currency := v.currency
        target := v.target
        totalPledged := v.totalPledged
        totalReceived := v.totalReceived
        totalOutstanding := v.totalOutstanding
        remaining := v.remaining
        percentCovered := v.percentCovered
        contributorCount := v.contributorCount
        revision := v.revision }
  | .budget => .budget v.budget v.budgetVisibility
  | .contributors => .contributors v.contributors v.contributorCount v.contributorVisibility
  | .announcements => .announcements v.announcements
  | .contribute => .contribute v.paymentInstructions

inductive Method
  | get | head
  deriving DecidableEq, Repr

/-- A request as the controller meets it: the ledger at that time, and whether the rate limit lets it
through. -/
structure Visit where
  db : LedgerDb
  admitted : Bool := true
  method : Method := .get
  slug : String
  route : Route := .event
  t : Option String := none
  accessTokenHeader : Option String := none
  origin : Option String := none

/-- The query goes before the header. -/
def Visit.token (v : Visit) : Option String := v.t <|> v.accessTokenHeader

/-- The body goes with the event whose page it is. -/
structure Response where
  status : ℕ
  etag : Option String := none
  body : Option (ℕ × Body) := none

def httpStatus : Refusal → ℕ
  | .publicEventNotFound _ => 404
  | .publicTokenRequired _ => 403
  | _ => 500

section controller
variable (linkOf : String → PublicLink) (hash : Body → String)

/-- The controller's answer to a visit with this `If-None-Match`. -/
def respond (v : Visit) (ifNoneMatch : Option String) : Response :=
  if !v.admitted then { status := 429 }
  else
    match (run (resolve (linkOf v.slug) v.token) v.db).1,
        (run (getPublicEventView (linkOf v.slug) v.token) v.db).1 with
    | .ok event, .ok view =>
        let body := v.route.body view
        let etag := hash body
        if ifNoneMatch = some etag then { status := 304, etag := some etag }
        else { status := 200, etag := some etag,
               body := if v.method = .get then some (event.id, body) else none }
    | .error e, _ => { status := httpStatus e }
    | _, .error e => { status := httpStatus e }

/-- What keeps responses apart: the method, the URL, and the `Origin` that CORS puts into `Vary`. -/
abbrev Key := Method × String × Route × Option String × Option String

def Visit.key (v : Visit) : Key := (v.method, v.slug, v.route, v.t, v.origin)

/-- A client that has the kept response already is told so. -/
def present (ifNoneMatch : Option String) (res : Response) : Response :=
  if ifNoneMatch.isSome ∧ ifNoneMatch = res.etag then { res with status := 304, body := none }
  else res

/-- Every route declares `public, max-age=30` before its handler runs, so its refusals carry it too;
a refusal by the rate limit does not. -/
def web : Web Visit Response Key String where
  key := Visit.key
  answer := respond linkOf hash
  storable _ res := res.status ∈ [200, 403, 404]
  etag := Response.etag
  present := present

/-- The response contains the body of the event's page. -/
def Shows (e : ℕ) (res : Response) : Prop := ∃ body, res.body = some (e, body)

/-- The request carries the token in one of the two places. -/
def CarriesToken (secret : String) (v : Visit) : Prop :=
  v.t = some secret ∨ v.accessTokenHeader = some secret

/-- The controller shows the event's page to this visit. -/
def Shown (e : ℕ) (v : Visit) : Prop :=
  v.admitted = true ∧ v.method = .get ∧ ∃ event view,
    (run (resolve (linkOf v.slug) v.token) v.db).1 = .ok event ∧ event.id = e ∧
      (run (getPublicEventView (linkOf v.slug) v.token) v.db).1 = .ok view

/-- Nobody without the token follows, under the same method, URL and origin, on somebody whom the
header alone let in. -/
def NoFollower (e : ℕ) (secret : String) (visits : List Visit) : Prop :=
  visits.Pairwise fun a b =>
    ¬ (a.key = b.key ∧ a.t = none ∧ Shown linkOf e a ∧ b.accessTokenHeader ≠ some secret)

end controller

section shows
variable {linkOf : String → PublicLink} {hash : Body → String} {e : ℕ} {secret : String} {v : Visit}

theorem shown_of_shows {ifNoneMatch : Option String}
    (h : Shows e (respond linkOf hash v ifNoneMatch)) : Shown linkOf e v := by
  obtain ⟨body, hbody⟩ := h
  unfold respond at hbody
  cases hadmitted : v.admitted with
  | false => simp [hadmitted] at hbody
  | true =>
    rw [hadmitted] at hbody
    cases hresolve : (run (resolve (linkOf v.slug) v.token) v.db).1 with
    | error error => simp [hresolve] at hbody
    | ok event =>
      cases hview : (run (getPublicEventView (linkOf v.slug) v.token) v.db).1 with
      | error error => simp [hresolve, hview] at hbody
      | ok view =>
        simp only [hresolve, hview, Bool.not_true, Bool.false_eq_true, if_false] at hbody
        split_ifs at hbody with hsame hget
        simp only [Option.some.injEq, Prod.mk.injEq] at hbody
        exact ⟨hadmitted, hget, event, view, hresolve, hbody.1, hview⟩

theorem shows_of_shown (hash : Body → String) (h : Shown linkOf e v) :
    Shows e (respond linkOf hash v none) ∧ (respond linkOf hash v none).status = 200 := by
  obtain ⟨hadmitted, hget, event, view, hresolve, rfl, hview⟩ := h
  have hrespond : respond linkOf hash v none =
      { status := 200, etag := some (hash (v.route.body view)),
        body := some (event.id, v.route.body view) } := by
    simp [respond, hadmitted, hresolve, hview, hget]
  rw [hrespond]
  exact ⟨⟨_, rfl⟩, rfl⟩

/-- The controller shows the page of an event with a token to those only who bring it. -/
theorem token_of_shown (hsecret : ∀ event ∈ v.db.events, event.id = e →
    event.publicAccessToken = some secret) (h : Shown linkOf e v) : v.token = some secret := by
  obtain ⟨-, -, event, -, hresolve, hid, -⟩ := h
  rw [← resolveBy_like] at hresolve
  obtain ⟨hfound, -, htoken⟩ := opens_iff.mp hresolve
  rw [hsecret event (mem_of_found hfound) hid] at htoken
  exact htoken.resolve_left nofun

theorem carriesToken_of_token (h : v.token = some secret) : CarriesToken secret v := by
  unfold Visit.token at h
  cases ht : v.t with
  | none =>
    rw [ht] at h
    exact .inr h
  | some x =>
    rw [ht] at h
    exact .inl (ht.trans h)

end shows

theorem storable_of_shown {linkOf : String → PublicLink} {hash : Body → String} {e : ℕ} (v : Visit)
    (h : Shown linkOf e v) : Shows e ((web linkOf hash).answer v none) ∧
      (web linkOf hash).storable v ((web linkOf hash).answer v none) := by
  obtain ⟨hshows, hstatus⟩ := shows_of_shown hash h
  refine ⟨hshows, ?_⟩
  change (respond linkOf hash v none).status ∈ _
  rw [hstatus]
  simp

theorem shows_of_present {e : ℕ} {ifNoneMatch : Option String} {res : Response}
    (h : Shows e (present ifNoneMatch res)) : Shows e res := by
  unfold present at h
  split_ifs at h
  · obtain ⟨body, hbody⟩ := h
    cases hbody
  · exact h

/-- Whatever a shared cache does and whatever validators clients send, the body of an event with a
token reaches no request without it, exactly when nobody without the token follows on somebody whom
the header alone let in. -/
theorem cached_page_guarded_iff (linkOf : String → PublicLink) (hash : Body → String) (e : ℕ)
    (secret : String) (visits : List Visit)
    (hsecret : ∀ v ∈ visits, ∀ event ∈ v.db.events, event.id = e →
      event.publicAccessToken = some secret) :
    (web linkOf hash).Guards (Shows e) (CarriesToken secret) visits ↔
      NoFollower linkOf e secret visits := by
  have hguards : (web linkOf hash).Guards (Shows e) (CarriesToken secret) visits ↔
      visits.Pairwise fun a b => a.key = b.key → Shown linkOf e a → CarriesToken secret b :=
    guards_iff (fun _ _ => shown_of_shows) storable_of_shown (fun _ _ => shows_of_present)
      (fun _ => rfl)
      fun v hv hshown => carriesToken_of_token (token_of_shown (hsecret v hv) hshown)
  rw [hguards]
  constructor
  · refine List.Pairwise.imp_of_mem fun {a b} ha hb hpair => ?_
    rintro ⟨hkey, hnone, hshown, hheader⟩
    have ht : b.t = none := (congrArg (fun key => key.2.2.2.1) hkey).symm.trans hnone
    rcases hpair hkey hshown with hquery | hsame
    · rw [ht] at hquery
      cases hquery
    · exact hheader hsame
  · refine List.Pairwise.imp_of_mem fun {a b} ha hb hpair hkey hshown => ?_
    have htoken := token_of_shown (hsecret a ha) hshown
    cases ht : a.t with
    | none =>
      refine .inr ?_
      by_contra hheader
      exact hpair ⟨hkey, ht, hshown, hheader⟩
    | some x =>
      have hx : x = secret := by simpa [Visit.token, ht] using htoken
      have hb : b.t = a.t := (congrArg (fun key => key.2.2.2.1) hkey).symm
      exact .inl (by rw [hb, ht, hx])

/-- A page that asks for a token. -/
def secretPage : LedgerDb :=
  { LedgerDb.empty with
    events := Table.empty.insertNew { wedding with publicAccessToken := some "s3cret" } }

/-- The guest sends the token in the header; the stranger sends nothing. -/
def guest : Visit :=
  { db := secretPage, slug := "wedding-0123abcd", accessTokenHeader := some "s3cret" }

def stranger : Visit := { db := secretPage, slug := "wedding-0123abcd" }

theorem secretPage_token : ∀ event ∈ secretPage.events, event.id = 7 →
    event.publicAccessToken = some "s3cret" := by
  intro event hevent _
  have hrows : secretPage.events.rows = [{ wedding with publicAccessToken := some "s3cret" }] := rfl
  rw [Table.mem_def, hrows, List.mem_singleton] at hevent
  rw [hevent]

theorem shown_guest : Shown .slug 7 guest := by
  have hopens : Opens LikePatterns.startsWith secretPage (.slug "wedding-0123abcd") (some "s3cret")
      { wedding with publicAccessToken := some "s3cret" } :=
    opens_iff.mpr ⟨by decide, rfl, .inr rfl⟩
  rw [Opens, resolveBy_like] at hopens
  exact ⟨rfl, rfl, _, _, hopens, rfl, rfl⟩

theorem stranger_is_served :
    ¬ ∀ (linkOf : String → PublicLink) (hash : Body → String) (e : ℕ) (secret : String)
      (visits : List Visit),
      (∀ v ∈ visits, ∀ event ∈ v.db.events, event.id = e →
        event.publicAccessToken = some secret) →
      (web linkOf hash).Guards (Shows e) (CarriesToken secret) visits := by
  intro h
  have hall : ∀ v ∈ [guest, stranger], ∀ event ∈ v.db.events, event.id = 7 →
      event.publicAccessToken = some "s3cret" := by
    intro v hv
    rcases List.mem_cons.mp hv with rfl | hv
    · exact secretPage_token
    · obtain rfl := List.mem_singleton.mp hv
      exact secretPage_token
  have hguards := h .slug (fun _ => "etag") 7 "s3cret" [guest, stranger] hall
  let answer := respond .slug (fun _ => "etag") guest none
  have hplain : Shows 7 answer ∧ (web .slug fun _ => "etag").storable guest answer :=
    storable_of_shown guest shown_guest
  -- the cache keeps the guest's page and serves it to the stranger
  have hkept : (web .slug fun _ => "etag").History [(guest, none, answer)] [(guest.key, answer)] :=
    .next .nil (.keeps (.inl rfl) hplain.2) fun _ he => he
  have hreused : (web .slug fun _ => "etag").Serves [(guest.key, answer)] stranger none answer
      [(guest.key, answer)] := .reuses (List.mem_singleton.mpr rfl)
  have hserved : (web .slug fun _ => "etag").History
      ([(guest, none, answer)] ++ [(stranger, none, answer)]) [(guest.key, answer)] :=
    .next hkept hreused fun _ he => he
  have hcarries := hguards _ _ hserved rfl (stranger, none, answer) (by simp) hplain.1
  rcases hcarries with hquery | hheader
  · cases hquery
  · cases hheader

/-- A guest who sends the token in the URL lets nobody else in. -/
theorem cached_page_guarded_iff_query :
    (web .slug fun _ => "etag").Guards (Shows 7) (CarriesToken "s3cret")
      [{ stranger with t := some "s3cret" }, stranger] := by
  refine (cached_page_guarded_iff .slug (fun _ => "etag") 7 "s3cret" _ ?_).mpr ?_
  · intro v hv
    rcases List.mem_cons.mp hv with rfl | hv
    · exact secretPage_token
    · obtain rfl := List.mem_singleton.mp hv
      exact secretPage_token
  · refine List.pairwise_cons.mpr ⟨fun b _ hfollows => ?_, List.pairwise_singleton _ _⟩
    cases hfollows.2.1

end Akabbo.PublicCache
