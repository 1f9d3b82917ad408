import Akabbo.FixedWindows
import Akabbo.RowTable

/-!
# The rate limit of the public pages

A counter for each address, kept in a map that is swept once it is large. What the guard admits is
read against the windows of the addresses.
-/
namespace Akabbo.PublicRateLimits
open RowTable FixedWindows

structure Entry where
  ip : String
  count : ℕ
  resetAt : ℕ
  deriving DecidableEq, Repr

abbrev Hits := Table String Entry Entry.ip

structure HttpException where
  message : String
  status : ℕ
  deriving DecidableEq, Repr

/-- A request, with what the server knows of the sender, at a time in milliseconds. -/
structure Request where
  ip : Option String
  remoteAddress : Option String
  now : ℕ
  deriving DecidableEq, Repr

def windowMs : ℕ := 60000

/-- Requests of an address in a window. -/
def max : ℕ := 240

def Request.address (r : Request) : String := (r.ip <|> r.remoteAddress).getD "unknown"

/-- A map that is still small is left alone. -/
def sweep (hits : Hits) (now : ℕ) : Hits :=
  if hits.rows.length < 10000 then hits else hits.delete fun entry => decide (entry.resetAt ≤ now)

def setEntry (hits : Hits) (ip : String) (count resetAt : ℕ) : Hits :=
  if hits.has ip then
    hits.update (fun entry => entry.ip == ip) (fun entry => { entry with count, resetAt }) fun _ => rfl
  else hits.insertNew ⟨ip, count, resetAt⟩

def canActivate (hits : Hits) (r : Request) : Except HttpException Bool × Hits :=
  match (hits.get? r.address).filter fun entry => decide (r.now < entry.resetAt) with
  | none => (.ok true, sweep (setEntry hits r.address 1 (r.now + windowMs)) r.now)
  | some entry =>
    let hits := setEntry hits r.address (entry.count + 1) entry.resetAt
    if max < entry.count + 1 then (.error ⟨"Too many requests", 429⟩, hits) else (.ok true, hits)

/-- The counters, and the requests so far with whether they were let through. -/
structure Guard where
  hits : Hits
  log : List (Request × Bool)

def Guard.step (g : Guard) (r : Request) : Guard :=
  let answer := canActivate g.hits r
  ⟨answer.2, g.log ++ [(r, answer.1.toBool)]⟩

def runGuard (requests : List Request) : Guard := requests.foldl Guard.step ⟨.empty, []⟩

/-- The visits of an address. -/
def visitsOf (a : String) (g : Guard) : List Visit :=
  visits windowMs ((g.log.filter fun x => x.1.address == a).map fun x => (x.1.now, x.2))

/-- In each window the first 240 requests are let through and no other, of which at most 480 come
within 60 seconds, and the counter of a window is kept until it ends. -/
structure RateLimited (a : String) (requests : List Request) : Prop where
  window : ∀ s, admittedIn s (visitsOf a (runGuard requests)) ≤ 240
  minute : ∀ lo, admittedWithin lo (lo + 60000) (visitsOf a (runGuard requests)) ≤ 480
  fair : ∀ before v after, visitsOf a (runGuard requests) = before ++ v :: after →
    v.admitted = false → 240 ≤ visitsIn v.start before
  kept : ∀ v, (visitsOf a (runGuard requests)).getLast? = some v →
    (∀ r ∈ requests, r.now < v.start + 60000) →
      (runGuard requests).hits.get? a =
        some ⟨a, visitsIn v.start (visitsOf a (runGuard requests)), v.start + 60000⟩

section map
variable {hits : Hits} {a : String} {now : ℕ}

theorem get?_setEntry (ip : String) (count resetAt : ℕ) : (setEntry hits ip count resetAt).get? a =
    if a = ip then some ⟨ip, count, resetAt⟩ else hits.get? a := by
  unfold setEntry
  split_ifs with hhas ha ha
  · subst ha
    obtain ⟨entry, hentry, hip⟩ := Table.has_iff.mp hhas
    rw [Table.get?_update, Table.get?_eq_some.mpr ⟨hentry, hip⟩]
    simp [hip]
  · rw [Table.get?_update]
    cases hentry : hits.get? a with
    | none => rfl
    | some entry => simp [Table.get?_key hentry, ha]
  · subst ha
    rw [Table.get?_insertNew (by simpa using hhas), if_pos rfl]
  · rw [Table.get?_insertNew (by simpa using hhas), if_neg (Ne.symm ha)]

/-- A sweep takes only what has ended. -/
theorem get?_sweep : (sweep hits now).get? a = hits.get? a ∨
    (∃ entry, hits.get? a = some entry ∧ entry.resetAt ≤ now) ∧ (sweep hits now).get? a = none := by
  unfold sweep
  split_ifs with hsmall
  · exact .inl rfl
  · cases hentry : hits.get? a with
    | none =>
      refine .inl (Table.get?_eq_none.mpr (Table.has_eq_false_iff.mpr fun entry hmem => ?_))
      exact Table.has_eq_false_iff.mp (Table.get?_eq_none.mp hentry) entry (Table.mem_delete.mp hmem).1
    | some entry =>
      obtain ⟨hmem, hip⟩ := Table.get?_eq_some.mp hentry
      by_cases hended : entry.resetAt ≤ now
      · refine .inr ⟨⟨entry, rfl, hended⟩, ?_⟩
        refine Table.get?_eq_none.mpr (Table.has_eq_false_iff.mpr fun other hother hsame => ?_)
        obtain ⟨hother, hlasts⟩ := Table.mem_delete.mp hother
        rw [Table.key_inj hother hmem (hsame.trans hip.symm)] at hlasts
        simp [hended] at hlasts
      · exact .inl (Table.get?_eq_some.mpr ⟨Table.mem_delete.mpr ⟨hmem, by simp [hended]⟩, hip⟩)

end map

/-- The map holds the last window of an address, but perhaps no longer when it has ended. -/
structure Tracks (hits : Hits) (vs : List Visit) (a : String) (now : ℕ) : Prop where
  unseen : vs.getLast? = none → hits.get? a = none
  seen : ∀ v, vs.getLast? = some v →
    hits.get? a = some ⟨a, visitsIn v.start vs, v.start + windowMs⟩ ∨
      (v.start + windowMs ≤ now ∧ hits.get? a = none)

section step
variable {hits : Hits} {vs : List Visit} {a : String} {now : ℕ} {r : Request}

theorem visitsIn_snoc (s : ℕ) (v : Visit) :
    visitsIn s (vs ++ [v]) = visitsIn s vs + if v.start = s then 1 else 0 := by
  unfold visitsIn
  rw [List.countP_append, List.countP_singleton]
  simp

/-- Without a counter that lasts, a window opens. -/
theorem window_of_none (h : Tracks hits vs a now) (hvs : Ordered windowMs vs)
    (hentry : (hits.get? a).filter (fun entry => decide (r.now < entry.resetAt)) = none)
    (hnow : now ≤ r.now) : windowAt windowMs vs.getLast? r.now = r.now ∧ visitsIn r.now vs = 0 := by
  cases hlast : vs.getLast? with
  | none =>
    rw [List.getLast?_eq_none_iff.mp hlast]
    exact ⟨rfl, rfl⟩
  | some v =>
    have hended : v.start + windowMs ≤ r.now := by
      rcases h.seen v hlast with hkept | ⟨hended, -⟩
      · rw [hkept] at hentry
        simpa using hentry
      · omega
    refine ⟨if_neg (by omega), List.countP_eq_zero.mpr fun w hw hstart => ?_⟩
    have hearlier := (hvs.latest v hlast w hw).2
    have hpos : 0 < windowMs := by decide
    have heq : w.start = r.now := eq_of_beq hstart
    omega

/-- A counter that lasts is that of the last window. -/
theorem window_of_some (h : Tracks hits vs a now) {entry : Entry}
    (hentry : (hits.get? a).filter (fun entry => decide (r.now < entry.resetAt)) = some entry) :
    ∃ v, vs.getLast? = some v ∧ windowAt windowMs vs.getLast? r.now = v.start ∧
      entry = ⟨a, visitsIn v.start vs, v.start + windowMs⟩ := by
  obtain ⟨hget, hlasts⟩ := Option.filter_eq_some_iff.mp hentry
  cases hlast : vs.getLast? with
  | none =>
    rw [h.unseen hlast] at hget
    cases hget
  | some v =>
    rcases h.seen v hlast with hkept | ⟨-, hgone⟩
    · obtain rfl := Option.some.inj (hkept.symm.trans hget)
      exact ⟨v, rfl, if_pos (by simpa using hlasts), rfl⟩
    · rw [hgone] at hget
      cases hget

theorem tracks_sweep (h : Tracks hits vs a now) : Tracks (sweep hits now) vs a now := by
  refine ⟨fun hlast => ?_, fun v hlast => ?_⟩
  · rcases @get?_sweep hits a now with hsame | ⟨-, hgone⟩
    · rw [hsame, h.unseen hlast]
    · exact hgone
  · rcases @get?_sweep hits a now with hsame | ⟨⟨entry, hentry, hended⟩, hgone⟩
    · rw [hsame]
      exact h.seen v hlast
    · rcases h.seen v hlast with hkept | hold
      · rw [hkept] at hentry
        rw [← Option.some.inj hentry] at hended
        exact .inr ⟨hended, hgone⟩
      · exact .inr ⟨hold.1, hgone⟩

theorem tracks_mono {later : ℕ} (h : Tracks hits vs a now) (hle : now ≤ later) :
    Tracks hits vs a later :=
  ⟨h.unseen, fun v hlast => (h.seen v hlast).imp_right fun hended => ⟨hended.1.trans hle, hended.2⟩⟩

theorem tracks_snoc {v : Visit}
    (h : hits.get? a = some ⟨a, visitsIn v.start vs + 1, v.start + windowMs⟩) :
    Tracks hits (vs ++ [v]) a now := by
  refine ⟨fun hlast => ?_, fun w hlast => .inl ?_⟩
  · rw [List.getLast?_concat] at hlast
    cases hlast
  · rw [List.getLast?_concat] at hlast
    obtain rfl := Option.some.inj hlast
    rw [h, visitsIn_snoc, if_pos rfl]

/-- The counter of another address is left as it is, unless it has ended. -/
theorem tracks_other (h : Tracks hits vs a now) (hne : a ≠ r.address) (hnow : now ≤ r.now) :
    Tracks (canActivate hits r).2 vs a r.now := by
  have hset (count resetAt : ℕ) : Tracks (setEntry hits r.address count resetAt) vs a r.now := by
    have hget : (setEntry hits r.address count resetAt).get? a = hits.get? a := by
      rw [get?_setEntry, if_neg hne]
    have hlater := tracks_mono h hnow
    exact ⟨fun hlast => hget.trans (hlater.unseen hlast), fun v hlast => by
      rw [hget]
      exact hlater.seen v hlast⟩
  unfold canActivate
  cases (hits.get? r.address).filter fun entry => decide (r.now < entry.resetAt) with
  | none => exact tracks_sweep (hset _ _)
  | some entry =>
    dsimp only
    split_ifs
    · exact hset _ _
    · exact hset _ _

/-- One request: its window is counted on, and decides. -/
theorem tracks_own (h : Tracks hits vs r.address now) (hvs : Ordered windowMs vs)
    (hnow : now ≤ r.now) :
    Tracks (canActivate hits r).2 (record windowMs vs (r.now, (canActivate hits r).1.toBool))
        r.address r.now ∧
      ((canActivate hits r).1.toBool = true ↔
        visitsIn (windowAt windowMs vs.getLast? r.now) vs < max) := by
  unfold canActivate record
  cases hentry : (hits.get? r.address).filter fun entry => decide (r.now < entry.resetAt) with
  | none =>
    obtain ⟨hwindow, hcount⟩ := window_of_none h hvs hentry hnow
    rw [hwindow]
    dsimp only
    refine ⟨tracks_sweep (tracks_snoc ?_), ?_⟩
    · rw [get?_setEntry, if_pos rfl, hcount]
    · rw [hcount]
      exact iff_of_true rfl (by decide)
  | some entry =>
    obtain ⟨v, hlast, hwindow, rfl⟩ := window_of_some h hentry
    rw [hwindow]
    dsimp only
    split_ifs with hmany
    · refine ⟨tracks_snoc ?_, iff_of_false Bool.false_ne_true (by omega)⟩
      rw [get?_setEntry, if_pos rfl]
    · refine ⟨tracks_snoc ?_, iff_of_true rfl (by omega)⟩
      rw [get?_setEntry, if_pos rfl]

end step

section runs
variable {a : String} {requests : List Request}

theorem runGuard_snoc (requests : List Request) (r : Request) :
    runGuard (requests ++ [r]) = (runGuard requests).step r := by
  unfold runGuard
  rw [List.foldl_append, List.foldl_cons, List.foldl_nil]

theorem log_runGuard (requests : List Request) :
    (runGuard requests).log.map Prod.fst = requests := by
  induction requests using List.reverseRecOn with
  | nil => rfl
  | append_singleton requests r ih =>
    rw [runGuard_snoc, Guard.step, List.map_append, ih]
    rfl

theorem visitsOf_step (g : Guard) (r : Request) : visitsOf a (g.step r) =
    if r.address = a then record windowMs (visitsOf a g) (r.now, (canActivate g.hits r).1.toBool)
    else visitsOf a g := by
  unfold visitsOf Guard.step
  rw [List.filter_append]
  split_ifs with ha
  · rw [List.filter_cons_of_pos (by simpa using ha), List.filter_nil, List.map_append]
    exact visits_snoc windowMs _ _
  · rw [List.filter_cons_of_neg (by simpa using ha), List.filter_nil, List.append_nil]

theorem ordered_visitsOf (h : requests.Pairwise fun r s => r.now ≤ s.now) :
    Ordered windowMs (visitsOf a (runGuard requests)) := by
  refine ordered_visits (by decide) (List.pairwise_map.mpr (List.Pairwise.filter _ ?_))
  rw [← log_runGuard requests, List.pairwise_map] at h
  exact h

/-- What the guard knows of an address along a run. -/
theorem tracks_run (h : requests.Pairwise fun r s => r.now ≤ s.now) {now : ℕ}
    (hnow : ∀ r ∈ requests, r.now ≤ now) :
    Tracks (runGuard requests).hits (visitsOf a (runGuard requests)) a now ∧
      Limited max (visitsOf a (runGuard requests)) := by
  induction requests using List.reverseRecOn generalizing now with
  | nil => exact ⟨⟨fun _ => rfl, nofun⟩, fun before v after heq => by simp [visitsOf, runGuard, visits] at heq⟩
  | append_singleton requests r ih =>
    have hsorted := List.pairwise_append.mp h
    obtain ⟨htracks, hlimited⟩ := @ih hsorted.1 r.now fun earlier hearlier =>
      hsorted.2.2 earlier hearlier r (List.mem_singleton_self r)
    have hlast : r.now ≤ now := hnow r (by simp)
    rw [runGuard_snoc, visitsOf_step]
    split_ifs with ha
    · subst ha
      obtain ⟨hnext, hdecides⟩ := tracks_own htracks (ordered_visitsOf hsorted.1) le_rfl
      exact ⟨tracks_mono hnext hlast, limited_snoc hlimited hdecides⟩
    · exact ⟨tracks_mono (tracks_other htracks (Ne.symm ha) le_rfl) hlast, hlimited⟩

/-- The guard admits at most 240 requests of an address in a window and 480 in a minute, refuses none
before, and forgets no window that lasts. -/
theorem rate_limited (requests : List Request)
    (h : requests.Pairwise fun r s => r.now ≤ s.now) (a : String) : RateLimited a requests := by
  have hlimited : Limited max (visitsOf a (runGuard requests)) :=
    (tracks_run h fun r hr => List.le_sum_of_mem (List.mem_map_of_mem hr)).2
  refine ⟨admittedIn_le hlimited,
    admittedWithin_le (ordered_visitsOf h) (admittedIn_le hlimited), ?_, ?_⟩
  · intro before v after heq hrefused
    have hiff := hlimited before v after heq
    rw [hrefused] at hiff
    simpa [max] using hiff
  · intro v hlast hnow
    have hlate : ∀ r ∈ requests, r.now ≤ v.start + 59999 := fun r hr => by
      have := hnow r hr
      omega
    rcases (tracks_run h hlate).1.seen v hlast with hkept | ⟨hended, -⟩
    · exact hkept
    · have hms : windowMs = 60000 := rfl
      omega

end runs

/-- A second request of the minute, from an address that the server knows by its socket. -/
def twoVisits : List Request :=
  [⟨some "10.0.0.1", none, 5⟩, ⟨none, some "10.0.0.1", 60004⟩, ⟨none, none, 60005⟩]

theorem rate_limited_twoVisits : RateLimited "10.0.0.1" twoVisits :=
  rate_limited twoVisits (by decide) "10.0.0.1"

end Akabbo.PublicRateLimits
