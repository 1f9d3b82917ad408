import Akabbo.AskedNames
import Akabbo.ExtractionContracts
import Akabbo.JoinedUtterances
import Akabbo.MatchedAmounts

/-!
# Rows of a scanned list

A row is put into a sentence and read back by the parser. A name may be taken for more than a name
there.
-/
namespace Akabbo.ScannedRows
open RegularExpressions TextPatterns LedgerState PledgeStatus CaptureRouting CaptureStaging Extraction
open ExtractionContracts Binary64 Amounts ExactAmounts Tier1Parser MoneyTokens SpokenClauses
open RecordedUtterances JoinedUtterances MatchedAmounts AskedNames

def wordsOf (text : List Char) : List (List Char) := text.splitOnP isSpace

section words
variable {text word x z : List Char}

/-- The first word stays, and so do all others that are not empty. -/
theorem words_collapse (text : List Char) : ∃ first rest rest', wordsOf text = first :: rest ∧
    wordsOf (collapse text) = first :: rest' ∧ rest.filter (· ≠ []) = rest'.filter (· ≠ []) := by
  unfold wordsOf
  induction text with
  | nil => exact ⟨[], [], [], rfl, rfl, rfl⟩
  | cons a text ih =>
    obtain ⟨first, rest, rest', hwords, hwords', hrest⟩ := ih
    by_cases ha : isSpace a = true
    · rw [collapse_cons_space ha, List.splitOnP_cons_eq_if_modifyHead, if_pos ha, hwords]
      split_ifs with hhead
      · obtain ⟨more, hmore⟩ := List.head?_eq_some_iff.mp hhead
        rw [hmore, List.splitOnP_cons_eq_if_modifyHead, if_pos (by decide)] at hwords'
        obtain ⟨rfl, hmore'⟩ := List.cons.inj hwords'
        refine ⟨[], _, rest', rfl, ?_, ?_⟩
        · rw [hmore, List.splitOnP_cons_eq_if_modifyHead, if_pos (by decide), hmore']
        · rw [List.filter_cons_of_neg (by decide), hrest]
      · refine ⟨[], _, first :: rest', rfl, ?_, ?_⟩
        · rw [List.splitOnP_cons_eq_if_modifyHead, if_pos (by decide), hwords']
        · simp only [List.filter_cons, hrest]
    · have ha' : ¬ isSpace a = true := ha
      rw [Bool.not_eq_true] at ha
      refine ⟨a :: first, rest, rest', ?_, ?_, hrest⟩
      · rw [List.splitOnP_cons_eq_if_modifyHead, if_neg ha', hwords]
        rfl
      · rw [collapse_cons_ink ha, List.splitOnP_cons_eq_if_modifyHead, if_neg ha', hwords']
        rfl

theorem mem_words_of_collapse (hne : word ≠ []) (h : word ∈ wordsOf (collapse text)) :
    word ∈ wordsOf text := by
  obtain ⟨first, rest, rest', hwords, hwords', hrest⟩ := words_collapse text
  rw [hwords'] at h
  rw [hwords]
  rcases List.mem_cons.mp h with rfl | h
  · exact List.mem_cons_self
  · have hmem : word ∈ rest'.filter (· ≠ []) := List.mem_filter.mpr ⟨h, by simpa using hne⟩
    rw [← hrest] at hmem
    exact List.mem_cons_of_mem first (List.mem_of_mem_filter hmem)

theorem mem_words (hword : ∀ a ∈ word, isSpace a = false) (hz : ∀ a ∈ z.head?, a = ' ') :
    word ∈ wordsOf (x ++ ' ' :: (word ++ z)) := by
  unfold wordsOf
  rw [List.splitOnP_append_cons _ _ (by decide)]
  refine List.mem_append_right _ ?_
  cases z with
  | nil =>
    rw [List.append_nil, List.splitOnP_eq_singleton hword]
    exact List.mem_singleton_self word
  | cons a z =>
    rw [hz a rfl, List.splitOnP_append_cons _ _ (by decide), List.splitOnP_eq_singleton hword]
    exact List.mem_append_left _ (List.mem_singleton_self word)

end words

section clauses
variable {name verb what text : List Char} {clause : Clause}

/-- A name in which no verb stands is what the first verb follows. -/
theorem splitVerb_name (hne : name ≠ []) (hverbs : ∀ word ∈ wordsOf name, ¬ IsVerb word)
    (hverb : IsVerb verb) (hwhat : what ≠ []) :
    splitVerb (name ++ ' ' :: (verb ++ ' ' :: what)) = some ⟨name, verb, what⟩ := by
  obtain ⟨a, name, rfl⟩ := List.exists_cons_of_ne_nil hne
  have hfirst : ∀ u v, name = u ++ v → v ≠ [] →
      verbAt (v ++ ' ' :: (verb ++ ' ' :: what)) = none := by
    rintro u v rfl hv
    rw [Option.eq_none_iff_forall_ne_some]
    rintro ⟨verb', rest⟩ hat
    obtain ⟨hverb', -, htext⟩ := verbAt_eq_some.mp hat
    obtain ⟨b, v, rfl⟩ := List.exists_cons_of_ne_nil hv
    obtain ⟨rfl, hsplit⟩ := List.cons.inj htext
    have hsame : v ++ ' ' :: (verb ++ ' ' :: what) = verb' ++ ' ' :: rest := hsplit
    have hink : ∀ a ∈ verb', isSpace a = false := fun a ha => (ink_of_isVerb hverb' a ha).1
    obtain ⟨z, rfl, hz⟩ : ∃ z, v = verb' ++ z ∧ ∀ a ∈ z.head?, a = ' ' := by
      rcases List.append_eq_append_iff.mp hsame with ⟨q, hq, hrest⟩ | ⟨z, hz, hrest⟩
      · cases q with
        | nil => exact ⟨[], by rw [hq]; simp, nofun⟩
        | cons c q =>
          obtain ⟨rfl, -⟩ := List.cons.inj hrest
          exact absurd (hink ' ' (by rw [hq]; simp)) (by decide)
      · refine ⟨z, hz, fun a ha => ?_⟩
        obtain ⟨more, rfl⟩ := List.head?_eq_some_iff.mp ha
        exact (List.cons.inj hrest).1.symm
    refine hverbs verb' ?_ hverb'
    exact mem_words (x := a :: u) hink hz
  exact splitAfter_first hverb hwhat hfirst

theorem commandRest_blank (h : ' ' ∉ name) (tail : List Char) : commandRest (name ++ ' ' :: tail) =
    if name.map Char.toLower ∈ commands then some tail else none := by
  have hnone : ∀ a ∈ name, (a != ' ') = true := by
    intro a ha
    rw [bne_iff_ne]
    rintro rfl
    exact h ha
  obtain ⟨htake, hdrop⟩ := run_ends hnone (y := ' ' :: tail) (by simp)
  unfold commandRest
  rw [htake, hdrop]

theorem commandRest_short (h : commandRest text = some what) : what.length < text.length := by
  obtain ⟨word, -, rfl⟩ := commandRest_eq_some.mp h
  simp only [List.length_append, List.length_cons]
  omega

/-- The name loses a command that starts it, if it goes on after that. -/
theorem clauseOf_row (hink : Inked name) (hne : name ≠ []) (hverb : IsVerb verb)
    (hverbs : ∀ word ∈ wordsOf name, ¬ IsVerb word) (hwhat : what ≠ []) (hblank : ' ' ∉ what) :
    clauseOf (name ++ ' ' :: (verb ++ ' ' :: what)) =
      some ⟨(commandRest name).getD name, verb, what⟩ := by
  have hplain := splitVerb_name hne hverbs hverb hwhat
  unfold clauseOf
  by_cases hone : ' ' ∈ name
  · rw [commandRest_append hone]
    cases hrest : commandRest name with
    | none => exact hplain
    | some rest =>
      obtain ⟨word, -, hname⟩ := commandRest_eq_some.mp hrest
      have hrestne : rest ≠ [] := by
        rintro rfl
        exact absurd (hink.last ' ' (by rw [hname]; simp)) (by decide)
      have hrestverbs : ∀ word ∈ wordsOf rest, ¬ IsVerb word := fun w hw => by
        refine hverbs w ?_
        unfold wordsOf at hw ⊢
        rw [hname, List.splitOnP_append_cons _ _ (by decide)]
        exact List.mem_append_right _ hw
      have hsplit := splitVerb_name hrestne hrestverbs hverb hwhat
      simp only [Option.map_some, Option.bind_some, Option.getD_some, hsplit]
      rfl
  · have hnone : commandRest name = none := by
      unfold commandRest
      rw [List.dropWhile_eq_nil_iff.mpr fun a ha => by
        rw [bne_iff_ne]
        rintro rfl
        exact hone ha]
    have hbare : splitVerb (verb ++ ' ' :: what) = none := by
      rw [Option.eq_none_iff_forall_ne_some]
      intro clause hclause
      obtain ⟨-, -, -, htext⟩ := splitVerb_eq_some hclause
      have hcount := congrArg (List.count ' ') htext
      simp only [List.count_append, List.count_cons_self, hverb.count_blank,
        List.count_eq_zero.mpr hblank] at hcount
      omega
    rw [commandRest_blank hone, hnone]
    split_ifs
    · rw [Option.bind_some, hbare]
      exact hplain
    · exact hplain

end clauses

section sentences
variable {name verb what : List Char}

theorem collapse_ink {word : List Char} (h : ∀ a ∈ word, isSpace a = false) : collapse word = word := by
  induction word with
  | nil => rfl
  | cons a word ih =>
    obtain ⟨ha, hword⟩ := List.forall_mem_cons.mp h
    rw [collapse_cons_ink ha, ih hword]

/-- What the parser reads where a name, a verb and something else are put together. -/
theorem collapse_row (hname : Inked name) (hverb : IsVerb verb) (hwhat : Inked what) :
    collapse (name ++ ' ' :: (verb ++ ' ' :: what)) =
      collapse name ++ ' ' :: (verb ++ ' ' :: collapse what) := by
  have hink : ∀ a ∈ verb, isSpace a = false := fun a ha => (ink_of_isVerb hverb a ha).1
  have hverbne : verb ≠ [] := by
    rintro rfl
    exact absurd hverb (by decide)
  have hblank {text : List Char} (htext : ∀ a ∈ text.head?, isSpace a = false) :
      collapse (' ' :: text) = ' ' :: collapse text := by
    rw [collapse_cons_space (by decide), if_neg]
    rw [head?_collapse htext]
    intro hspace
    exact absurd (htext ' ' hspace) (by decide)
  have hverbfirst : ∀ a ∈ (verb ++ ' ' :: what).head?, isSpace a = false := by
    rw [List.head?_append_of_ne_nil _ hverbne]
    exact fun a ha => hink a (List.mem_of_mem_head? ha)
  have hself := collapse_ink hink
  rw [collapse_append (.inl hname.last), hblank hverbfirst,
    collapse_append (.inl fun a ha => hink a (List.mem_of_getLast? ha)), hblank hwhat.first, hself]

theorem inked_row (hname : Inked name) (hnamed : name ≠ []) (hwhat : Inked what) (hne : what ≠ []) :
    Inked (name ++ ' ' :: (verb ++ ' ' :: what)) := by
  refine ⟨?_, ?_⟩
  · rw [List.head?_append_of_ne_nil _ hnamed]
    exact hname.first
  · have hlast : (name ++ ' ' :: (verb ++ ' ' :: what)).getLast? = what.getLast? := by
      have hsplit : name ++ ' ' :: (verb ++ ' ' :: what) = (name ++ ' ' :: (verb ++ [' '])) ++ what := by
        simp
      rw [hsplit, List.getLast?_append_of_ne_nil _ hne]
    rw [hlast]
    exact hwhat.last

theorem normalText_row {utterance : String} (hname : Inked name) (hnamed : name ≠ [])
    (hverb : IsVerb verb) (hwhat : Inked what) (hne : what ≠ [])
    (htext : utterance.toList = name ++ ' ' :: (verb ++ ' ' :: what)) :
    normalText utterance = collapse name ++ ' ' :: (verb ++ ' ' :: collapse what) := by
  unfold normalText
  rw [htext, trim_inked (by simp) (inked_row hname hnamed hwhat hne),
    collapse_row hname hverb hwhat]

end sentences

section cash
variable {digits : List Char} {v : ℕ}

theorem inked_digits (h : ∀ a ∈ digits, a.isDigit = true) : Inked digits :=
  ⟨fun a ha => isSpace_of_isDigit (h a (List.mem_of_mem_head? ha)),
    fun a ha => isSpace_of_isDigit (h a (List.mem_of_getLast? ha))⟩

theorem extractAmount_digits (hne : digits ≠ []) (h : ∀ a ∈ digits, a.isDigit = true) :
    extractAmount digits = parseAmountToMinorUnits digits := by
  obtain ⟨a, rest, rfl⟩ := List.exists_cons_of_ne_nil hne
  have hdrop : (a :: rest).dropWhile (fun c => !c.isDigit) = a :: rest :=
    List.dropWhile_cons_of_neg (by simp [h a List.mem_cons_self])
  have hfigure : ∀ b ∈ a :: rest, isFigure b = true := fun b hb => by simp [isFigure, h b hb]
  have htake : (a :: rest).takeWhile isFigure = a :: rest := List.takeWhile_eq_self_iff.mpr hfigure
  have hnone : (a :: rest).dropWhile isFigure = [] := List.dropWhile_eq_nil_iff.mpr hfigure
  have hmoney : moneyAt (a :: rest) = some (tokenOf (a :: rest)) := by
    unfold moneyAt
    rw [hdrop]
  have htext : (tokenOf (a :: rest)).text = a :: rest := by
    rw [text_tokenOf, htake, hnone]
    exact List.append_nil _
  rw [extractAmount_eq, hmoney, Option.bind_some, htext]

/-- A number that is written out is read where it is a binary64 number. -/
theorem parse_digits_iff (hne : digits ≠ []) (h : ∀ a ∈ digits, a.isDigit = true)
    (hv : Nat.ofDigitChars 10 digits 0 = v) :
    parseAmountToMinorUnits digits = some v ↔ IsBinary64 v ∧ (v : ℚ) < 2 ^ 1024 := by
  have hclean : cleaned digits = digits := by
    rw [cleaned_of_plain fun a ha => .inl (h a ha), List.filter_eq_self]
    intro a ha
    rw [bne_iff_ne]
    rintro rfl
    exact absurd (h ',' ha) (by decide)
  have hnumeral : numeralOf (cleaned digits) = some ⟨digits, [], []⟩ := by
    rw [hclean, numeralOf_digits hne h]
  have hvalue : (⟨digits, [], []⟩ : Numeral).value = v := by
    simp [Numeral.value, Numeral.number, Numeral.digits, Numeral.multiplier, hv]
  have hexact : exactAmount digits = some v := by
    unfold exactAmount
    rw [hnumeral, Option.bind_some, hvalue]
    exact (wholeNumber_eq_some (Nat.cast_nonneg v)).mpr rfl
  rw [← hexact, parseAmountToMinorUnits_exact_iff, hnumeral]
  simp only [Option.mem_some_iff, forall_eq']
  rw [survives_whole _ rfl, hvalue]

/-- What is in kind goes on after a blank. -/
theorem space_of_inKind {text : List Char} (h : inKindPattern.test text = true) :
    ∃ a ∈ text, isSpace a = true := by
  obtain ⟨x, y, rfl, d, hd⟩ := test_iff.mp h
  change d ∈ (Regex.seq .start (.seq (.star false space) (.seq figurePattern
    (.seq (.star false space) (.seq (.star false nonSpace) (.seq space.plus _)))))).paths _ at hd
  obtain ⟨e, he, hd⟩ := mem_seq.mp hd
  obtain ⟨f, hf, hd⟩ := mem_seq.mp hd
  obtain ⟨g, hg, hd⟩ := mem_seq.mp hd
  obtain ⟨k, hk, hd⟩ := mem_seq.mp hd
  obtain ⟨l, hl, hd⟩ := mem_seq.mp hd
  obtain ⟨m, hm, -⟩ := mem_seq.mp hd
  obtain ⟨w, hw, hspace, hreads⟩ := mem_plus_one.mp hm
  obtain ⟨a, w, rfl⟩ := List.exists_cons_of_ne_nil hw
  have hsuffix : l.after <:+ y := (paths_suffix hl).trans <| (paths_suffix hk).trans <|
    (paths_suffix hg).trans <| (paths_suffix hf).trans (paths_suffix he)
  refine ⟨a, List.mem_append_right x (hsuffix.subset ?_), hspace a List.mem_cons_self⟩
  rw [hreads.after]
  exact List.mem_cons_self

theorem not_inKind_digits (h : ∀ a ∈ digits, a.isDigit = true) : inKindPattern.test digits = false := by
  rw [Bool.eq_false_iff]
  intro htest
  obtain ⟨a, ha, hspace⟩ := space_of_inKind htest
  rw [isSpace_of_isDigit (h a ha)] at hspace
  cases hspace

end cash

/-- The payment or the pledge that the row spells. -/
def asWritten (entry : ExtractedContributionEntry) (amount : ℕ) : ToolCall :=
  if entry.status = .pledged then .recordPledge entry.name (moneyToString amount) none none none none
  else .recordPayment entry.name (moneyToString amount) none none none

/-- A name with single blanks that the parser takes for nothing else, and a positive binary64
amount. -/
structure Readable (name : List Char) (amount : ℕ) : Prop where
  single : Spaced name
  silent : asks name = false
  command : commandRest name = none
  person : looksLikeAmount name = false
  positive : 0 < amount
  exactly : IsBinary64 amount
  finite : (amount : ℚ) < 2 ^ 1024

def rowAmount (amount : String) : ℕ := Nat.ofDigitChars 10 amount.toList 0

section rows
variable {numberText : ℚ → String} {raw : RawRow} {entry : ExtractedContributionEntry}

def cashVerb (entry : ExtractedContributionEntry) : String :=
  if entry.status = .pledged then "pledged" else "paid"

theorem buildUtterance_cash {amount : String} (hcash : entry.type = .cash)
    (hamount : entry.amount = some amount) (hne : amount ≠ "") : ∃ utterance,
    buildUtterance entry = some utterance ∧
      utterance.toList = entry.name.toList ++ ' ' :: ((cashVerb entry).toList ++ ' ' :: amount.toList) := by
  have htruthy : truthy (some amount) = some amount := by simp [truthy, Option.filter, hne]
  unfold buildUtterance cashVerb
  rw [hcash, hamount]
  simp only [htruthy, Option.map_some, Option.some.injEq, exists_eq_left']
  cases entry.status <;> (simp only [String.toList_append, List.append_assoc]; rfl)

theorem recordCall_cash (name : List Char) (amount : ℕ) (hname : String.ofList name = entry.name) :
    recordCall name (cashVerb entry).toList amount = some (asWritten entry amount) := by
  unfold recordCall cashVerb asWritten
  rw [hname]
  by_cases hpledged : entry.status = .pledged
  · rw [if_pos hpledged, if_pos hpledged, if_neg (by decide), if_pos (by decide)]
  · rw [if_neg hpledged, if_neg hpledged, if_pos (by decide)]

theorem recordCall_cash_eq {name : List Char} {paid amount : ℕ}
    (h : recordCall name (cashVerb entry).toList paid = some (asWritten entry amount)) :
    name = entry.name.toList ∧ paid = amount := by
  have hwritten : ∃ entry' : ExtractedContributionEntry, entry'.name = String.ofList name ∧
      entry'.status = entry.status := ⟨{ entry with name := String.ofList name }, rfl, rfl⟩
  obtain ⟨entry', hname, hstatus⟩ := hwritten
  have hsame : asWritten entry' paid = asWritten entry amount := by
    have hverb : cashVerb entry' = cashVerb entry := by
      unfold cashVerb
      rw [hstatus]
    rw [← hverb, recordCall_cash name paid hname.symm] at h
    exact Option.some.inj h
  unfold asWritten at hsame
  rw [hstatus, hname] at hsame
  split_ifs at hsame
  · injection hsame with hname' hamount
    exact ⟨by rw [← hname', String.toList_ofList], moneyToString_inj.mp hamount⟩
  · injection hsame with hname' hamount
    exact ⟨by rw [← hname', String.toList_ofList], moneyToString_inj.mp hamount⟩

theorem length_trim_le (text : List Char) : (trim text).length ≤ text.length := by
  obtain ⟨lead, trail, -, -, hsplit⟩ := exists_trim text
  have hlength := congrArg List.length hsplit
  simp only [List.length_append] at hlength
  omega

theorem isTail_cash {digits : List Char} (h : ∀ a ∈ digits, a.isDigit = true) :
    IsTail ((cashVerb entry).toList ++ ' ' :: digits) := by
  have hdigits : ∀ a ∈ digits, a ∈ "paidleg 0123456789".toList := by
    intro a ha
    have hrange := toNat_of_isDigit (h a ha)
    have hall : ∀ n < 10, Char.ofNat (48 + n) ∈ "paidleg 0123456789".toList := by decide
    have hmem := hall (a.toNat - 48) (by omega)
    rwa [show 48 + (a.toNat - 48) = a.toNat by omega, Char.ofNat_toNat] at hmem
  have hverbs : ∀ verb ∈ ["pledged", "paid"], verb.toList.head? = some 'p' ∧
      ((verb.toList ++ [' ']).all fun a => decide (a ∈ "paidleg 0123456789".toList)) = true := by
    decide
  have hverb := hverbs (cashVerb entry) (by unfold cashVerb; split_ifs <;> decide)
  refine ⟨?_, fun a ha => ?_⟩
  · rw [List.head?_append, hverb.1]
    rfl
  · have hsplit : a ∈ (cashVerb entry).toList ++ [' '] ∨ a ∈ digits := by
      simpa [or_assoc] using ha
    exact hsplit.elim (forall_mem_of_all hverb.2 a) (hdigits a)

theorem isVerb_cash : IsVerb (cashVerb entry).toList := by
  unfold cashVerb
  split_ifs
  · decide
  · decide

/-- A readable row of money comes back from the sentence it is put into, and no other one does. -/
theorem row_staged_as_written_iff (numberText : ℚ → String) (raw : RawRow)
    (entry : ExtractedContributionEntry) (amount : String)
    (hadmitted : entryRow numberText raw = some entry) (hcash : entry.type = .cash)
    (hamount : entry.amount = some amount)
    (hverbs : ∀ word ∈ wordsOf entry.name.toList, ¬ IsVerb word) :
    (buildUtterance entry).bind parseTier1 = some (asWritten entry (rowAmount amount)) ↔
      Readable entry.name.toList (rowAmount amount) := by
  have hpassed := entryRow_admitted hadmitted
  obtain ⟨hnamed, hink⟩ := hpassed.name
  obtain ⟨hne, hdigits⟩ := hpassed.amount amount hamount
  obtain ⟨utterance, hutterance, htext⟩ := buildUtterance_cash hcash hamount fun hempty => hne (by
    rw [hempty]
    rfl)
  rw [hutterance, Option.bind_some]
  have hself : collapse amount.toList = amount.toList :=
    collapse_ink fun a ha => isSpace_of_isDigit (hdigits a ha)
  have hnormal := normalText_row hink hnamed isVerb_cash (inked_digits hdigits) hne htext
  rw [hself] at hnormal
  have hcollapsed := collapse_ne_nil hnamed
  have hclause := clauseOf_row (inked_collapse hink) hcollapsed (@isVerb_cash entry)
    (fun word hword hverb => hverbs word (mem_words_of_collapse (by
      rintro rfl
      exact absurd hverb (by decide)) hword) hverb) hne fun hblank =>
        absurd (hdigits ' ' hblank) (by decide)
  have hspaced := spaced_collapse (trim utterance.toList)
  change Spaced (normalText utterance) at hspaced
  have hasks : asks (normalText utterance) = asks (collapse entry.name.toList) := by
    rw [hnormal] at hspaced ⊢
    exact asks_append hspaced (spaced_collapse _) hcollapsed (inked_collapse hink).first
      (isTail_cash hdigits)
  have hrecord : isRecord (asWritten entry (rowAmount amount)) = true := by
    unfold asWritten
    split_ifs
    · rfl
    · rfl
  have hparsed : parseTier1 utterance = some (asWritten entry (rowAmount amount)) ↔
      asks (collapse entry.name.toList) = false ∧ ∃ clause paid, clauseOf (normalText utterance) =
        some clause ∧ Recorded clause paid ∧ recordCall (trim clause.name) clause.verb paid =
          some (asWritten entry (rowAmount amount)) := by
    rw [← hasks, ← parseText_record hspaced]
    exact (and_iff_left hrecord).symm
  rw [hparsed, hnormal, hclause]
  simp only [Option.some.injEq, exists_and_left, exists_eq_left']
  constructor
  · rintro ⟨hsilent, paid, hrecorded, hcall⟩
    obtain ⟨hname, rfl⟩ := recordCall_cash_eq hcall
    have hcommand : commandRest (collapse entry.name.toList) = none := by
      rw [Option.eq_none_iff_forall_ne_some]
      intro rest hrest
      rw [hrest, Option.getD_some] at hname
      have hshort := commandRest_short hrest
      have hle := length_collapse_le entry.name.toList
      have htrim := length_trim_le rest
      rw [hname] at htrim
      omega
    rw [hcommand, Option.getD_none, trim_inked hcollapsed (inked_collapse hink)] at hname
    rw [hcommand, Option.getD_none, hname] at hrecorded
    rw [hname] at hsilent hcommand
    have hperson := hrecorded.person
    rw [trim_inked hnamed hink] at hperson
    have hextracted := hrecorded.extracted
    rw [extractAmount_digits hne hdigits,
      parse_digits_iff hne hdigits (v := rowAmount amount) rfl] at hextracted
    exact ⟨hname ▸ spaced_collapse _, hsilent, hcommand, hperson, hrecorded.positive, hextracted.1,
      hextracted.2⟩
  · intro hreadable
    rw [collapse_of_spaced hreadable.single, hreadable.command, Option.getD_none]
    have htrim := trim_inked hnamed hink
    have hextracted : extractAmount amount.toList = some (rowAmount amount) := by
      rw [extractAmount_digits hne hdigits, parse_digits_iff hne hdigits (v := rowAmount amount) rfl]
      exact ⟨hreadable.exactly, hreadable.finite⟩
    refine ⟨hreadable.silent, rowAmount amount, ⟨not_inKind_digits hdigits, hextracted,
      hreadable.positive, ?_, ?_⟩, ?_⟩
    · rw [htrim]
      exact hnamed
    · rw [htrim]
      exact hreadable.person
    · rw [htrim]
      exact recordCall_cash _ _ (String.ofList_toList)

end rows

def cashRow (name : String) : RawRow :=
  .object [("name", .text name), ("amount", .text "200,000"), ("status", .text "paid")]

def cashEntry (name : String) : ExtractedContributionEntry :=
  { name, amount := some "200000", status := .paid }

theorem row_staged_as_written_grace :
    (buildUtterance (cashEntry "Grace")).bind parseTier1 =
        some (asWritten (cashEntry "Grace") (rowAmount "200000")) ↔
      Readable "Grace".toList (rowAmount "200000") :=
  row_staged_as_written_iff (fun _ => "") (cashRow "Grace") (cashEntry "Grace") "200000"
    (by decide +kernel) rfl rfl (by decide +kernel)

/-- A company is taken for a question, and a surname for a command. -/
theorem names_misread :
    entryRow (fun _ => "") (cashRow "Total Energies") = some (cashEntry "Total Energies") ∧
    (∀ word ∈ wordsOf "Total Energies".toList, ¬ IsVerb word) ∧
    (buildUtterance (cashEntry "Total Energies")).bind parseTier1 = some .getSummary ∧
    entryRow (fun _ => "") (cashRow "Record Keeper") = some (cashEntry "Record Keeper") ∧
    (∀ word ∈ wordsOf "Record Keeper".toList, ¬ IsVerb word) ∧
    (buildUtterance (cashEntry "Record Keeper")).bind parseTier1 =
      some (.recordPayment "Keeper" "200000" none none none) := by
  decide +kernel

end Akabbo.ScannedRows
