import Mathlib.Tactic

/-!
# A shared cache in front of an origin

A cache keeps responses under the key of the request that brought them. It passes a request on, with
the client's validator or one of its own, or answers with what it keeps; what it forgets, and when,
is up to it.
-/
namespace Akabbo.SharedCache

/-- The messages between clients, cache and origin. -/
structure Web (request response key validator : Type) where
  key : request → key
  /-- What the origin returns to the request with this validator. -/
  answer : request → Option validator → response
  storable : request → response → Prop
  etag : response → Option validator
  /-- What a client that sent this validator is given of a response. -/
  present : Option validator → response → response

variable {request response key validator : Type} (web : Web request response key validator)

/-- The validators that a cache may send on: the client's, or that of a response it keeps. -/
def Web.MaySend (kept : List (key × response)) (r : request) (sent v : Option validator) : Prop :=
  v = sent ∨ ∃ old, (web.key r, old) ∈ kept ∧ v = web.etag old

/-- How a cache may serve a request that came with the validator `sent`, and what it may keep then.
A kept response that the origin confirms is served as one that is reused. -/
inductive Web.Serves (kept : List (key × response)) (r : request) (sent : Option validator) :
    response → List (key × response) → Prop
  | passes {v : Option validator} (hv : web.MaySend kept r sent v) :
      Serves kept r sent (web.present sent (web.answer r v)) kept
  | keeps {v : Option validator} (hv : web.MaySend kept r sent v)
      (hstorable : web.storable r (web.answer r v)) :
      Serves kept r sent (web.present sent (web.answer r v)) ((web.key r, web.answer r v) :: kept)
  | reuses {old : response} (hold : (web.key r, old) ∈ kept) :
      Serves kept r sent (web.present sent old) kept

/-- The requests that the cache has served, with their validators and responses, and what it keeps
of them. -/
inductive Web.History :
    List (request × Option validator × response) → List (key × response) → Prop
  | nil : History [] []
  | next {past : List (request × Option validator × response)} {kept kept' : List (key × response)}
      {r : request} {sent : Option validator} {res : response} (h : History past kept)
      (hserves : web.Serves kept r sent res kept') {left : List (key × response)}
      (hleft : ∀ entry ∈ left, entry ∈ kept') : History (past ++ [(r, sent, res)]) left

/-- Whatever the cache does and whatever validators the clients send, a response that shows what is
guarded goes only to those entitled to it. -/
def Web.Guards (shows : response → Prop) (entitled : request → Prop) (requests : List request) :
    Prop :=
  ∀ past kept, web.History past kept → past.map Prod.fst = requests →
    ∀ served ∈ past, shows served.2.2 → entitled served.1

variable {web} {shows : response → Prop} {entitled opens : request → Prop}

/-- A cache that passes everything on and keeps what it has. -/
theorem history_passes {past : List (request × Option validator × response)}
    {kept : List (key × response)} (h : web.History past kept) (requests : List request) :
    ∃ later, web.History (past ++ later) kept ∧ later.map Prod.fst = requests := by
  induction requests generalizing past with
  | nil => exact ⟨[], by simpa using h, rfl⟩
  | cons r rest ih =>
    have hpass : web.History (past ++ [(r, none, web.present none (web.answer r none))]) kept :=
      .next h (.passes (.inl rfl)) fun _ he => he
    obtain ⟨later, hlater, hmap⟩ := ih hpass
    exact ⟨_ :: later, by simpa using hlater, by simp [hmap]⟩

/-- What a cache serves and keeps comes from the origin's answers to earlier requests under the same
key. -/
theorem history_guards (hanswer : ∀ r v, shows (web.answer r v) → opens r)
    (hpresent : ∀ v res, shows (web.present v res) → shows res)
    {past : List (request × Option validator × response)} {kept : List (key × response)}
    (h : web.History past kept) (hentitled : ∀ r ∈ past.map Prod.fst, opens r → entitled r)
    (hpairs : (past.map Prod.fst).Pairwise fun a b => web.key a = web.key b → opens a → entitled b) :
    (∀ served ∈ past, shows served.2.2 → entitled served.1) ∧
      ∀ entry ∈ kept, shows entry.2 →
        ∃ a ∈ past.map Prod.fst, web.key a = entry.1 ∧ opens a := by
  induction h with
  | nil => simp
  | @next past kept kept' r sent res h hserves left hleft ih =>
    rw [List.map_append, List.pairwise_append] at hpairs
    obtain ⟨hbefore, -, hlast⟩ := hpairs
    have hr : opens r → entitled r := hentitled r (by simp)
    rw [List.map_append] at hentitled
    obtain ⟨hpast, hkept⟩ := ih (fun r' hr' => hentitled r' (List.mem_append_left _ hr')) hbefore
    have hnow : (shows res → entitled r) ∧ ∀ entry ∈ kept', shows entry.2 →
        ∃ a ∈ (past ++ [(r, sent, res)]).map Prod.fst, web.key a = entry.1 ∧ opens a := by
      have hcarry : ∀ entry ∈ kept, shows entry.2 →
          ∃ a ∈ (past ++ [(r, sent, res)]).map Prod.fst, web.key a = entry.1 ∧ opens a := by
        intro entry hentry hshows
        obtain ⟨a, ha, hkey, hopens⟩ := hkept entry hentry hshows
        exact ⟨a, by rw [List.map_append]; exact List.mem_append_left _ ha, hkey, hopens⟩
      cases hserves with
      | passes hv => exact ⟨fun hs => hr (hanswer r _ (hpresent _ _ hs)), hcarry⟩
      | keeps hv hstorable =>
        refine ⟨fun hs => hr (hanswer r _ (hpresent _ _ hs)), fun entry hentry hs => ?_⟩
        rcases List.mem_cons.mp hentry with rfl | hentry
        · exact ⟨r, by simp, rfl, hanswer r _ hs⟩
        · exact hcarry entry hentry hs
      | reuses hold =>
        refine ⟨fun hs => ?_, hcarry⟩
        obtain ⟨a, ha, hkey, hopens⟩ := hkept _ hold (hpresent _ _ hs)
        exact hlast a ha r (by simp) hkey hopens
    refine ⟨fun served hserved hs => ?_, fun entry hentry => hnow.2 entry (hleft entry hentry)⟩
    rcases List.mem_append.mp hserved with hserved | hserved
    · exact hpast served hserved hs
    · obtain rfl := List.mem_singleton.mp hserved
      exact hnow.1 hs

/-- Where the origin shows what is guarded to the entitled only, a shared cache does the same exactly
when everyone is entitled who asks, under one key, after somebody to whom the origin shows it. -/
theorem guards_iff (hanswer : ∀ r v, shows (web.answer r v) → opens r)
    (hplain : ∀ r, opens r → shows (web.answer r none) ∧ web.storable r (web.answer r none))
    (hpresent : ∀ v res, shows (web.present v res) → shows res)
    (hnone : ∀ res, web.present none res = res) {requests : List request}
    (hentitled : ∀ r ∈ requests, opens r → entitled r) :
    web.Guards shows entitled requests ↔
      requests.Pairwise fun a b => web.key a = web.key b → opens a → entitled b := by
  constructor
  · intro hguards
    refine List.pairwise_iff_forall_sublist.mpr fun {a b} hab hkey hopens => ?_
    obtain ⟨early, late, rfl, ha, hb⟩ := List.cons_sublist_iff.mp hab
    obtain ⟨pre, mid, rfl⟩ := List.append_of_mem ha
    obtain ⟨mid', post, rfl⟩ := List.append_of_mem (List.singleton_sublist.mp hb)
    -- everything is passed on, but the answer to `a` is kept until `b` comes
    have hempty : web.History [] [] := .nil
    obtain ⟨before, hbefore, hpre⟩ := history_passes hempty pre
    obtain ⟨hshows, hstorable⟩ := hplain a hopens
    have hkeeps : web.History ([] ++ before ++ [(a, none, web.present none (web.answer a none))])
        [(web.key a, web.answer a none)] :=
      hbefore.next (.keeps (.inl rfl) hstorable) (by simp)
    obtain ⟨between, hbetween, hmid⟩ := history_passes hkeeps (mid ++ mid')
    have hkept : (web.key b, web.answer a none) ∈ [(web.key a, web.answer a none)] := by
      rw [hkey]
      exact List.mem_singleton.mpr rfl
    have hreuses : web.History ([] ++ before ++
        [(a, none, web.present none (web.answer a none))] ++ between ++
        [(b, none, web.present none (web.answer a none))]) [(web.key a, web.answer a none)] :=
      hbetween.next (.reuses hkept) fun _ he => he
    obtain ⟨after, hafter, hpost⟩ := history_passes hreuses post
    refine hguards _ _ hafter ?_ (b, none, web.present none (web.answer a none)) ?_ ?_
    · simp [hpre, hmid, hpost]
    · simp
    · rw [hnone]
      exact hshows
  · intro hpairs past kept hhistory hmap
    rw [← hmap] at hpairs hentitled
    exact (history_guards hanswer hpresent hhistory hentitled hpairs).1

end Akabbo.SharedCache
