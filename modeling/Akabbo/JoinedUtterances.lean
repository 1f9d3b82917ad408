import Akabbo.RecordedUtterances

/-!
# Two clauses in one utterance

An utterance made of two that are each recorded is recorded as one of them, where nothing else
keeps it from that.
-/
namespace Akabbo.JoinedUtterances
open RegularExpressions TextPatterns CaptureRouting Amounts Tier1Parser MoneyTokens SpokenClauses
open RecordedUtterances

/-- The utterance comes to one payment or one pledge. -/
def IsRecorded (utterance : String) : Prop :=
  ∃ call, parseTier1 utterance = some call ∧ isRecord call = true

def connectives : List String := [" and ", ", ", "; "]

/-- A command that is itself the name, as no clause follows it. -/
def bareCommand (text : List Char) : Bool := (commandRest text).any fun rest => (splitVerb rest).isNone

/-- The joined sentence asks something, or what follows its verb is in kind; or, where the command
is no longer the name, it may be without an amount. -/
def KeptApart (first second : String) (connective : String) : Prop :=
  asks (normalText (first ++ connective ++ second)) = true ∨
    ∃ clause, clauseOf (normalText (first ++ connective ++ second)) = some clause ∧
      (inKindPattern.test clause.rest = true ∨ bareCommand (normalText first) = true ∧
        ∀ amount, extractAmount clause.rest = some amount → amount = 0)

theorem isRecorded_iff (utterance : String) : IsRecorded utterance ↔
    asks (normalText utterance) = false ∧ ∃ clause amount,
      clauseOf (normalText utterance) = some clause ∧ Recorded clause amount := by
  unfold IsRecorded
  have hspaced := spaced_collapse (trim utterance.toList)
  constructor
  · rintro ⟨call, hcall⟩
    obtain ⟨hasks, clause, amount, hclause, hrecorded, -⟩ := (parseText_record hspaced).mp hcall
    exact ⟨hasks, clause, amount, hclause, hrecorded⟩
  · rintro ⟨hasks, clause, amount, hclause, hrecorded⟩
    obtain ⟨call, hcall, -⟩ := recordCall_isSome (isVerb_clauseOf hclause) (trim clause.name) amount
    exact ⟨call, (parseText_record hspaced).mpr ⟨hasks, clause, amount, hclause, hrecorded, hcall⟩⟩

/-- What may stand between the two. -/
def middles : List (List Char) := [" and ", ", ", " , ", "; ", " ; "].map String.toList

section texts
variable {x y m text : List Char}

/-- White space about a word is one blank on either side. -/
theorem collapse_about {lead word trail : List Char} (hne : word ≠ []) (hword : Inked word)
    (htrail : ∀ a ∈ trail, isSpace a = true) :
    collapse (lead ++ (word ++ (' ' :: trail))) = collapse lead ++ (collapse word ++ [' ']) := by
  have hfirst : ∀ a ∈ (word ++ (' ' :: trail)).head?, isSpace a = false := by
    rw [List.head?_append_of_ne_nil _ hne]
    exact hword.first
  have hspaces : ∀ a ∈ ' ' :: trail, isSpace a = true :=
    List.forall_mem_cons.mpr ⟨by decide, htrail⟩
  rw [collapse_append (.inr hfirst), collapse_append (.inl hword.last),
    collapse_spaces (List.cons_ne_nil _ _) hspaces]

theorem collapse_middle {lead trail : List Char} (hlead : ∀ a ∈ lead, isSpace a = true)
    (htrail : ∀ a ∈ trail, isSpace a = true) {connective : String} (h : connective ∈ connectives) :
    collapse (lead ++ connective.toList ++ trail) ∈ middles := by
  have hblank : collapse lead = [] ∨ collapse lead = [' '] := by
    rcases eq_or_ne lead [] with rfl | hne
    · exact .inl rfl
    · exact .inr (collapse_spaces hne hlead)
  simp only [connectives, List.mem_cons, List.not_mem_nil, or_false] at h
  rcases h with rfl | rfl | rfl
  · have hspaces : ∀ a ∈ lead ++ [' '], isSpace a = true := by
      intro a ha
      rcases List.mem_append.mp ha with ha | ha
      · exact hlead a ha
      · rw [List.mem_singleton.mp ha]
        decide
    have htext : lead ++ " and ".toList ++ trail = (lead ++ [' ']) ++ ("and".toList ++ ' ' :: trail) := by
      simp
    rw [htext, collapse_about (by decide) (inked_of_all (by decide)) htrail,
      collapse_spaces (by simp) hspaces]
    decide
  · have htext : lead ++ ", ".toList ++ trail = lead ++ ([','] ++ ' ' :: trail) := by simp
    rw [htext, collapse_about (by decide) (inked_of_all (by decide)) htrail]
    rcases hblank with h | h <;> rw [h] <;> decide
  · have htext : lead ++ "; ".toList ++ trail = lead ++ ([';'] ++ ' ' :: trail) := by simp
    rw [htext, collapse_about (by decide) (inked_of_all (by decide)) htrail]
    rcases hblank with h | h <;> rw [h] <;> decide

theorem normalText_join {first second connective : String} (h : connective ∈ connectives)
    (hfirst : trim first.toList ≠ []) (hsecond : trim second.toList ≠ []) :
    ∃ m ∈ middles, normalText (first ++ connective ++ second) =
      normalText first ++ (m ++ normalText second) := by
  obtain ⟨lead, trail, hlead, htrail, hsplit⟩ := exists_trim first.toList
  obtain ⟨lead', trail', hlead', htrail', hsplit'⟩ := exists_trim second.toList
  have hink := inked_trim first.toList
  have hink' := inked_trim second.toList
  refine ⟨_, collapse_middle htrail hlead' h, ?_⟩
  unfold normalText
  generalize trim first.toList = core at *
  generalize trim second.toList = core' at *
  have htext : (first ++ connective ++ second).toList =
      lead ++ (core ++ ((trail ++ connective.toList ++ lead') ++ core')) ++ trail' := by
    rw [String.toList_append, String.toList_append, hsplit, hsplit']
    simp
  have hcore : Inked (core ++ ((trail ++ connective.toList ++ lead') ++ core')) := by
    constructor
    · rw [List.head?_append_of_ne_nil _ hfirst]
      exact hink.first
    · rw [List.getLast?_append_of_ne_nil _ (List.append_ne_nil_of_right_ne_nil _ hsecond),
        List.getLast?_append_of_ne_nil _ hsecond]
      exact hink'.last
  rw [htext, trim_append hlead htrail' (List.append_ne_nil_of_left_ne_nil hfirst _) hcore,
    collapse_append (.inl hink.last), collapse_append (.inr hink'.first)]

theorem closes_middle (h : m ∈ middles) (y : List Char) : Closes (m ++ y) := by
  simp only [middles, List.map_cons, List.map_nil, List.mem_cons, List.not_mem_nil, or_false] at h
  rcases h with rfl | rfl | rfl | rfl | rfl
  · exact ⟨[], _, rfl, nofun, fun a ha => by cases ha; decide⟩
  · exact ⟨[','], ' ' :: y, rfl, by simp, fun a ha => by cases ha; decide⟩
  · exact ⟨[], _, rfl, nofun, fun a ha => by cases ha; decide⟩
  · exact ⟨[], _, rfl, nofun, fun a ha => by cases ha; decide⟩
  · exact ⟨[], _, rfl, nofun, fun a ha => by cases ha; decide⟩

end texts

section clauses
variable {text z : List Char} {clause : Clause}

theorem clauseOf_text (h : clauseOf text = some clause) : clause.rest ≠ [] ∧ IsVerb clause.verb ∧
    ∃ p, p ≠ [] ∧ text = p ++ ' ' :: (clause.verb ++ ' ' :: clause.rest) := by
  rcases Option.or_eq_some_iff.mp h with hcommand | ⟨-, hplain⟩
  · obtain ⟨rest, hrest, hclause⟩ := Option.bind_eq_some_iff.mp hcommand
    obtain ⟨word, -, htext⟩ := commandRest_eq_some.mp hrest
    obtain ⟨hverb, hne, -, hsplit⟩ := splitVerb_eq_some hclause
    exact ⟨hne, hverb, word ++ ' ' :: clause.name, by simp, by rw [htext, hsplit]; simp⟩
  · obtain ⟨hverb, hne, hname, hsplit⟩ := splitVerb_eq_some hplain
    exact ⟨hne, hverb, clause.name, hname, hsplit⟩

theorem clauseOf_append (h : clauseOf text = some clause) (hbare : bareCommand text = false)
    (z : List Char) : clauseOf (text ++ z) = some { clause with rest := clause.rest ++ z } := by
  have hblank : ' ' ∈ text := by
    obtain ⟨-, -, p, -, htext⟩ := clauseOf_text h
    rw [htext]
    simp
  unfold clauseOf at h ⊢
  rw [commandRest_append hblank]
  cases hrest : commandRest text with
  | none =>
    rw [hrest] at h
    exact splitVerb_append h z
  | some rest =>
    unfold bareCommand at hbare
    rw [hrest] at h hbare
    cases hsplit : splitVerb rest with
    | none =>
      rw [Option.any_some, hsplit] at hbare
      cases hbare
    | some clause' =>
      rw [Option.bind_some, hsplit] at h
      cases h
      rw [Option.map_some, Option.bind_some, splitVerb_append hsplit z]
      rfl

/-- Behind a bare command stands the verb. -/
theorem bare_text (hspaced : Spaced text) (h : clauseOf text = some clause)
    (hbare : bareCommand text = true) :
    commandRest text = some (clause.verb ++ ' ' :: clause.rest) := by
  unfold bareCommand at hbare
  obtain ⟨rest, hrest, hnone⟩ := (Option.any_eq_true _ _).mp hbare
  rw [Option.isNone_iff_eq_none] at hnone
  unfold clauseOf at h
  rw [hrest, Option.bind_some, hnone, Option.none_or] at h
  obtain ⟨hverb, hne, hname, hsplit⟩ := splitVerb_eq_some h
  obtain ⟨word, hword, htext⟩ := commandRest_eq_some.mp hrest
  have hwordblank : ' ' ∉ word := by
    have hall : ∀ word ∈ commands, ' ' ∉ word := by decide
    exact fun hmem => hall _ hword (List.mem_map_of_mem hmem)
  suffices hsame : rest = clause.verb ++ ' ' :: clause.rest by rw [hrest, hsame]
  rcases List.append_eq_append_iff.mp (htext.symm.trans hsplit) with ⟨q, hq, hafter⟩ | ⟨q, hq, hafter⟩
  · cases q with
    | nil => exact (List.cons.inj hafter).2
    | cons a q =>
      -- a longer name would have been found behind the command too
      obtain ⟨rfl, hbehind⟩ := List.cons.inj hafter
      rcases eq_or_ne q [] with rfl | hqne
      · rw [htext, hbehind] at hspaced
        have hpair := (hspaced.suffix (x := word)).single.rel
        simp at hpair
      · have hsome := splitVerb_isSome hqne hverb hne
        have hlonger : rest = q ++ ' ' :: (clause.verb ++ ' ' :: clause.rest) := hbehind
        rw [← hlonger, hnone] at hsome
        cases hsome
  · cases q with
    | nil => exact (List.cons.inj hafter).2.symm
    | cons a q =>
      obtain ⟨rfl, -⟩ := List.cons.inj hafter
      exact absurd (hq ▸ by simp) hwordblank

theorem amountLike_text (h : looksLikeAmount text = true) : ∃ sp cur sp' a tail,
    (∀ b ∈ sp, isSpace b = true) ∧ cur.map Char.toLower ∈ currencies ∧
      (∀ b ∈ sp', isSpace b = true) ∧ a.isDigit = true ∧ text = sp ++ (cur ++ (sp' ++ a :: tail)) := by
  unfold looksLikeAmount Regex.test Regex.exec at h
  rw [Option.isSome_map] at h
  obtain ⟨d, hd⟩ := Option.isSome_iff_exists.mp h
  change (Regex.seq .start (.seq (.star false space) (.seq currency.optional
    (.seq space.optional (.seq figurePattern _))))).searchFrom [] text = some d at hd
  rw [searchFrom_start] at hd
  obtain ⟨c, hc, hd⟩ := mem_seq.mp (List.mem_of_mem_head? hd)
  obtain ⟨e, he, hd⟩ := mem_seq.mp hd
  obtain ⟨f, hf, hd⟩ := mem_seq.mp hd
  obtain ⟨g, hg, -⟩ := mem_seq.mp hd
  obtain ⟨k, hk, -⟩ := mem_seq.mp hg
  obtain ⟨sp, hsp, hreads⟩ := mem_star_one.mp hc
  obtain ⟨cur, hcur, hreads'⟩ := mem_currency.mp he
  obtain ⟨a, ha, hreads''⟩ := mem_one.mp hk
  have hspace : ∃ sp', (∀ b ∈ sp', isSpace b = true) ∧ Reads sp' e f := by
    rcases mem_optional.mp hf with hone | rfl
    · obtain ⟨b, hb, hread⟩ := mem_one.mp hone
      exact ⟨[b], by simpa using hb, hread⟩
    · exact ⟨[], nofun, reads_nil.mpr rfl⟩
  obtain ⟨sp', hsp', hread⟩ := hspace
  refine ⟨sp, cur, sp', a, k.after, hsp, hcur, hsp', ha, ?_⟩
  have htext : text = sp ++ c.after := hreads.after
  rw [htext, hreads'.after, hread.after, hreads''.after]
  simp

theorem ink_of_isVerb {verb : List Char} (h : IsVerb verb) :
    ∀ a ∈ verb, isSpace a = false ∧ a.isDigit = false := by
  have hall : ∀ word ∈ (paymentVerbs ++ pledgeVerbs).map String.toList,
      ∀ a ∈ word, 97 ≤ a.toNat ∧ a.toNat ≤ 122 := forall_mem_words_of_all (by decide)
  intro a ha
  have hrange := hall _ h _ (List.mem_map_of_mem ha)
  have hletter : isWord a = true ∧ ¬ (48 ≤ a.toNat ∧ a.toNat ≤ 57) := by
    rw [isWord_iff]
    rcases toNat_toLower a with hsame | hupper
    · omega
    · omega
  constructor
  · rw [Bool.eq_false_iff]
    intro hspace
    rw [isWord_of_isSpace hspace] at hletter
    exact Bool.false_ne_true hletter.1
  · rw [Bool.eq_false_iff]
    exact fun hdigit => hletter.2 (toNat_of_isDigit hdigit)

theorem not_amountLike_verb {verb : List Char} (h : IsVerb verb) (q : List Char) :
    looksLikeAmount (verb ++ q) = false := by
  rw [Bool.eq_false_iff]
  intro hlike
  obtain ⟨sp, cur, sp', a, tail, hsp, hcur, hsp', ha, htext⟩ := amountLike_text hlike
  have hlong : ∀ word ∈ (paymentVerbs ++ pledgeVerbs).map String.toList, 4 ≤ word.length := by decide
  have hshort : ∀ word ∈ currencies, word.length ≤ 3 := by decide
  have hlen : 4 ≤ verb.length := by
    have := hlong _ h
    rwa [List.length_map] at this
  obtain ⟨b, verb', rfl⟩ : ∃ b verb', verb = b :: verb' := by
    refine List.exists_cons_of_ne_nil ?_
    rintro rfl
    cases hlen
  have hb := ink_of_isVerb h b List.mem_cons_self
  have hspnil : sp = [] := by
    cases sp with
    | nil => rfl
    | cons b' sp =>
      obtain ⟨rfl, -⟩ := List.cons.inj htext
      rw [hsp b List.mem_cons_self] at hb
      cases hb.1
  subst hspnil
  rw [List.nil_append] at htext
  by_cases hnil : cur = []
  · subst hnil
    rw [List.nil_append] at htext
    cases sp' with
    | nil =>
      obtain ⟨rfl, -⟩ := List.cons.inj htext
      rw [ha] at hb
      cases hb.2
    | cons b' sp' =>
      obtain ⟨rfl, -⟩ := List.cons.inj htext
      rw [hsp' b List.mem_cons_self] at hb
      cases hb.1
  · -- no verb starts with the name of a currency
    have hapart : ∀ word ∈ (paymentVerbs ++ pledgeVerbs).map String.toList,
        ∀ c ∈ currencies, c ≠ [] → word.take c.length ≠ c := by decide
    have hcurlen := hshort _ hcur
    rw [List.length_map] at hcurlen
    have htake : (b :: verb').take cur.length = cur := by
      have hboth := congrArg (List.take cur.length) htext
      rw [List.take_append_of_le_length (by omega), List.take_left] at hboth
      exact hboth
    refine hapart _ h _ hcur (by simpa using hnil) ?_
    rw [List.length_map, ← List.map_take, htake]

/-- A name that starts with a verb is a name. -/
theorem person_of_verb {verb q : List Char} (h : IsVerb verb) : trim (verb ++ q) ≠ [] ∧
    looksLikeAmount (trim (verb ++ q)) = false := by
  have hlong : ∀ word ∈ (paymentVerbs ++ pledgeVerbs).map String.toList, word ≠ [] := by decide
  have hne : verb ≠ [] := fun hnil => hlong _ h (by rw [hnil]; rfl)
  obtain ⟨lead, trail, hlead, htrail, hsplit⟩ := exists_trim (verb ++ q)
  obtain ⟨b, verb', rfl⟩ := List.exists_cons_of_ne_nil hne
  have hink := ink_of_isVerb h
  have hleadnil : lead = [] := by
    cases lead with
    | nil => rfl
    | cons b' lead =>
      obtain ⟨rfl, -⟩ := List.cons.inj hsplit
      have hb := hink b List.mem_cons_self
      rw [hlead b List.mem_cons_self] at hb
      cases hb.1
  rw [hleadnil, List.nil_append] at hsplit
  obtain ⟨q', hq'⟩ : ∃ q', trim (b :: verb' ++ q) = b :: verb' ++ q' := by
    rcases List.append_eq_append_iff.mp hsplit with ⟨q', hq', -⟩ | ⟨w, hw, htail⟩
    · exact ⟨q', hq'⟩
    · cases w with
      | nil => exact ⟨[], by rw [List.append_nil] at hw ⊢; exact hw.symm⟩
      | cons a w =>
        have ha := hink a (by rw [hw]; simp)
        rw [htrail a (by rw [htail]; simp)] at ha
        cases ha.1
  rw [hq']
  exact ⟨List.cons_ne_nil _ _, not_amountLike_verb h q'⟩

/-- What keeps a named clause from being recorded. -/
theorem not_recorded_iff (hname : trim clause.name ≠ [])
    (hperson : looksLikeAmount (trim clause.name) = false) :
    (¬ ∃ amount, Recorded clause amount) ↔ inKindPattern.test clause.rest = true ∨
      ∀ amount, extractAmount clause.rest = some amount → amount = 0 := by
  constructor
  · intro h
    by_cases hkind : inKindPattern.test clause.rest = true
    · exact .inl hkind
    · refine .inr fun amount hamount => ?_
      by_contra hne
      exact h ⟨amount, ⟨Bool.eq_false_iff.mpr hkind, hamount, Nat.pos_of_ne_zero hne, hname, hperson⟩⟩
  · rintro (hkind | hzero) ⟨amount, hrecorded⟩
    · rw [hrecorded.cash] at hkind
      cases hkind
    · have hpositive := hrecorded.positive
      rw [hzero amount hrecorded.extracted] at hpositive
      exact lt_irrefl _ hpositive

theorem extractAmount_closes {amount : ℕ} (h : extractAmount text = some amount) (hz : Closes z) :
    extractAmount (text ++ z) = some amount := by
  rw [extractAmount_eq] at h ⊢
  obtain ⟨t, ht, hamount⟩ := Option.bind_eq_some_iff.mp h
  obtain ⟨t', ht', hclean⟩ := moneyAt_closes ht hz
  rw [ht', Option.bind_some, parse_eq_of_cleaned hclean, hamount]

/-- Where the command is no longer the name, the verb behind it starts one. -/
theorem clauseOf_bare (hspaced : Spaced text) (h : clauseOf text = some clause)
    (hbare : bareCommand text = true) {m second : List Char} {clause' : Clause}
    (hsecond : clauseOf second = some clause') : ∃ joined q, clauseOf (text ++ (m ++ second)) = some joined ∧
      joined.name = clause.verb ++ q := by
  have hrest := bare_text hspaced h hbare
  have hverb := isVerb_clauseOf h
  have hblank : ' ' ∈ text := by
    obtain ⟨-, -, p, -, htext⟩ := clauseOf_text h
    rw [htext]
    simp
  obtain ⟨hne, hverb', p, -, htext⟩ := clauseOf_text hsecond
  have hsome : (splitVerb (clause.verb ++ ' ' :: clause.rest ++ (m ++ second))).isSome = true := by
    have hlong : clause.verb ++ ' ' :: clause.rest ++ (m ++ second) =
        (clause.verb ++ ' ' :: clause.rest ++ m ++ p) ++
          ' ' :: (clause'.verb ++ ' ' :: clause'.rest) := by
      rw [htext]
      simp
    rw [hlong]
    exact splitVerb_isSome (by simp) hverb' hne
  obtain ⟨joined, hjoined⟩ := Option.isSome_iff_exists.mp hsome
  obtain ⟨-, -, hname, hsplit⟩ := splitVerb_eq_some hjoined
  refine ⟨joined, ?_⟩
  have hclause : clauseOf (text ++ (m ++ second)) = some joined := by
    unfold clauseOf
    rw [commandRest_append hblank, hrest, Option.map_some, Option.bind_some, hjoined]
    rfl
  rw [List.append_assoc] at hsplit
  rcases List.append_eq_append_iff.mp hsplit with ⟨q, hq, -⟩ | ⟨q, hq, hafter⟩
  · exact ⟨q, hclause, hq⟩
  · cases q with
    | nil => exact ⟨[], hclause, by rw [List.append_nil] at hq ⊢; exact hq.symm⟩
    | cons a q =>
      obtain ⟨rfl, -⟩ := List.cons.inj hafter
      have hink := ink_of_isVerb hverb ' ' (by rw [hq]; simp)
      exact absurd hink.1 (by decide)

end clauses

theorem trim_ne_nil_of_clause {utterance : String} {clause : Clause}
    (h : clauseOf (normalText utterance) = some clause) : trim utterance.toList ≠ [] := by
  intro hnil
  unfold normalText at h
  rw [hnil] at h
  cases h

/-- Two utterances that are each recorded are not recorded as one exactly where something else keeps
the joined one from it. -/
theorem joined_recorded_iff (first second connective : String) (hc : connective ∈ connectives)
    (hfirst : IsRecorded first) (hsecond : IsRecorded second) :
    ¬ IsRecorded (first ++ connective ++ second) ↔ KeptApart first second connective := by
  obtain ⟨-, clause, amount, hclause, hrecorded⟩ := (isRecorded_iff first).mp hfirst
  obtain ⟨-, clause', amount', hclause', -⟩ := (isRecorded_iff second).mp hsecond
  obtain ⟨m, hm, htext⟩ := normalText_join hc (trim_ne_nil_of_clause hclause)
    (trim_ne_nil_of_clause hclause')
  rw [isRecorded_iff]
  unfold KeptApart
  rw [htext]
  have hcloses := closes_middle hm (normalText second)
  have hspaced : Spaced (normalText first) := spaced_collapse _
  generalize normalText first = text at *
  generalize normalText second = text' at *
  have hkey : ∃ joined, clauseOf (text ++ (m ++ text')) = some joined ∧
      ((¬ ∃ amount, Recorded joined amount) ↔ inKindPattern.test joined.rest = true ∨
        bareCommand text = true ∧ ∀ amount, extractAmount joined.rest = some amount → amount = 0) := by
    by_cases hbare : bareCommand text = true
    · obtain ⟨joined, q, hjoined, hname⟩ := clauseOf_bare hspaced hclause hbare (m := m) hclause'
      obtain ⟨hnamed, hperson⟩ := person_of_verb (q := q) (isVerb_clauseOf hclause)
      rw [← hname] at hnamed hperson
      exact ⟨joined, hjoined, by rw [not_recorded_iff hnamed hperson]; simp [hbare]⟩
    · have hjoined := clauseOf_append hclause (Bool.eq_false_iff.mpr hbare) (m ++ text')
      refine ⟨_, hjoined, ?_⟩
      have hnamed : trim (Clause.name ⟨clause.name, clause.verb, clause.rest ++ (m ++ text')⟩) ≠ [] :=
        hrecorded.named
      rw [not_recorded_iff hnamed hrecorded.person]
      dsimp only
      rw [extractAmount_closes hrecorded.extracted hcloses]
      have hpositive : amount ≠ 0 := hrecorded.positive.ne'
      simp [hbare, hpositive]
  obtain ⟨joined, hjoined, hkept⟩ := hkey
  rw [hjoined]
  simp only [Option.some.injEq, exists_and_left, exists_eq_left']
  rw [← hkept, not_and_or, Bool.not_eq_false]

theorem one_clause_dropped :
    parseTier1 "Peter paid 200k" = some (.recordPayment "Peter" "200000" none none none) ∧
    parseTier1 "Mary paid 100k" = some (.recordPayment "Mary" "100000" none none none) ∧
    parseTier1 "Peter paid 200k and Mary paid 100k" =
      some (.recordPayment "Peter" "200000" none none none) ∧
    parseTier1 "Record paid 5" = some (.recordPayment "Record" "5" none none none) ∧
    parseTier1 "Record paid 5; Mary paid 100k" =
      some (.recordPayment "paid 5; Mary" "100000" none none none) := by
  decide +kernel

/-- The first clause has a quantity of what the second one starts with. -/
theorem joined_recorded_iff_in_kind :
    ¬ IsRecorded ("Peter gave 5" ++ " and " ++ "of Hope gave 5") ↔
      KeptApart "Peter gave 5" "of Hope gave 5" " and " :=
  joined_recorded_iff _ _ _ (by decide)
    ⟨.recordPayment "Peter" "5" none none none, by decide +kernel, rfl⟩
    ⟨.recordPayment "of Hope" "5" none none none, by decide +kernel, rfl⟩

end Akabbo.JoinedUtterances
