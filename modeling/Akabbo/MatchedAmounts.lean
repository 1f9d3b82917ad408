import Akabbo.ExactAmounts
import Akabbo.RecordedUtterances

/-!
# The amount that an utterance spells

The token that the parser takes for an amount may be only the beginning of one.
-/
namespace Akabbo.MatchedAmounts
open TextPatterns PledgeStatus CaptureRouting Binary64 Amounts ExactAmounts Tier1Parser MoneyTokens
open SpokenClauses RecordedUtterances

/-- No word goes on from `x` into `y`. -/
def endsWord (x y : List Char) : Bool := !(x.getLast?.any isWord && y.head?.any isWord)

/-- A beginning of the text that ends no word in two and is an amount. -/
def Accepted (tail s : List Char) : Prop :=
  ∃ y, tail = s ++ y ∧ endsWord s y = true ∧ (parseAmountToMinorUnits s).isSome = true

def Longest (tail s : List Char) : Prop :=
  Accepted tail s ∧ ∀ s', Accepted tail s' → s'.length ≤ s.length

def isThousands (c : Char) : Bool := lowerChar c == 'k' || lowerChar c == 'm'

/-- Past blanks and commas, the text goes on with a digit, a fraction or a multiplier. -/
def goesOn (after : List Char) : Bool :=
  match after.dropWhile isSeparator with
  | [] => false
  | c :: rest =>
    c.isDigit || (c == '.' && (rest.dropWhile isSeparator).head?.any Char.isDigit) ||
      (isThousands c && endsWord [c] rest)

/-- Nothing goes on after the token, which ends a word, or says no more than its part before the
point. -/
def WholeToken (t : Token) : Prop :=
  goesOn t.after = false ∧ (endsWord t.text t.after = true ∨
    t.suffix = [] ∧ t.fraction ≠ [] ∧
      parseAmountToMinorUnits t.whole = parseAmountToMinorUnits t.text)

structure Scanned (t : Token) : Prop where
  first : t.whole.head?.any Char.isDigit = true
  whole : ∀ a ∈ t.whole, isFigure a = true
  fraction : ∀ a ∈ t.fraction, a.isDigit = true
  suffix : t.suffix = [] ∨ ∃ c, t.suffix = [c] ∧ isMultiplier c = true

theorem splitMultiplier_or (rest : List Char) :
    (splitMultiplier rest).1 = [] ∨ ∃ c, (splitMultiplier rest).1 = [c] ∧ isMultiplier c = true := by
  cases rest with
  | nil => exact .inl rfl
  | cons c rest =>
    simp only [splitMultiplier]
    split_ifs with hmult
    · rw [Bool.and_eq_true] at hmult
      exact .inr ⟨c, rfl, hmult.1⟩
    · exact .inl rfl

theorem scanned_of_moneyAt {text : List Char} {t : Token} (h : moneyAt text = some t) : Scanned t := by
  unfold moneyAt at h
  split at h
  · cases h
  · next a tail hdrop =>
    cases h
    have ha : a.isDigit = true := by
      have hhead := List.head?_dropWhile_not (fun c : Char => !c.isDigit) text
      rw [hdrop] at hhead
      simpa using hhead
    have hfigure : isFigure a = true := by simp [isFigure, ha]
    refine ⟨?_, fun b hb => List.mem_takeWhile_imp hb, (splitFraction_eq _).2, ?_⟩
    · simp [tokenOf, List.takeWhile_cons_of_pos hfigure, ha]
    · exact splitMultiplier_or _

section characters
variable {c : Char}

theorem lowerChar_of_isMultiplier (h : isMultiplier c = true) :
    lowerChar c = c.toLower ∧ (c.toLower = 'k' ∨ c.toLower = 'm') := by
  simp only [isMultiplier, Bool.or_eq_true, beq_iff_eq] at h
  refine ⟨if_neg ?_, h⟩
  intro hkelvin
  have hself : c.toLower = c := by
    rcases toNat_toLower c with hsame | hupper
    · exact Char.toNat_inj.mp hsame
    · omega
  rw [hself] at h
  rcases h with rfl | rfl <;> exact absurd hkelvin (by decide)

theorem not_isSeparator_of_lower (h : lowerChar c = 'k' ∨ lowerChar c = 'm') :
    isSeparator c = false := by
  unfold isSeparator
  rw [Bool.or_eq_false_iff, ← isSpace_lowerChar, beq_eq_false_iff_ne, Ne,
    ← lowerChar_eq_iff (by decide)]
  rcases h with h | h <;> rw [h] <;> decide

theorem isWord_of_isMultiplier (h : isMultiplier c = true) : isWord c = true := by
  have hlower := (lowerChar_of_isMultiplier h).2
  rw [isWord_iff]
  have hrange : 97 ≤ c.toLower.toNat ∧ c.toLower.toNat ≤ 122 := by
    rcases hlower with h | h <;> rw [h] <;> decide
  rcases toNat_toLower c with hsame | hupper
  · omega
  · omega

theorem isWord_of_isSeparator (h : isSeparator c = true) : isWord c = false := by
  rcases Bool.or_eq_true _ _ |>.mp h with hspace | hcomma
  · exact isWord_of_isSpace hspace
  · rw [beq_iff_eq.mp hcomma]
    decide

end characters

def digitsOf (text : List Char) : List Char := text.filter Char.isDigit

theorem cleaned_whole {x : List Char} (h : ∀ a ∈ x, isFigure a = true) : cleaned x = digitsOf x := by
  have hink : x.filter (fun a => !isSeparator a) = digitsOf x := by
    refine List.filter_congr fun a ha => ?_
    have hfigure := h a ha
    simp only [isFigure, Bool.or_eq_true, beq_iff_eq] at hfigure
    rcases hfigure with hdigit | rfl
    · have hspace := isSpace_of_isDigit hdigit
      have hcomma : a ≠ ',' := by
        rintro rfl
        exact absurd hdigit (by decide)
      simp [isSeparator, hspace, hdigit, hcomma]
    · decide
  have hlower : ∀ a ∈ digitsOf x, lowerChar a = id a := fun a ha =>
    lowerChar_of_isDigit (List.mem_filter.mp ha).2
  rw [cleaned_eq, hink]
  exact (List.map_congr_left hlower).trans (List.map_id _)

theorem cleaned_pointed {x : List Char} (h : ∀ a ∈ x, a.isDigit = true) :
    cleaned (pointed x) = pointed x := by
  have hself (a : Char) (ha : a ∈ pointed x) : isSeparator a = false ∧ lowerChar a = id a := by
    unfold pointed at ha
    split_ifs at ha with hx
    · cases ha
    · rcases List.mem_cons.mp ha with rfl | ha
      · exact ⟨by decide, rfl⟩
      · have hspace := isSpace_of_isDigit (h a ha)
        have hcomma : a ≠ ',' := by
          rintro rfl
          exact absurd (h _ ha) (by decide)
        exact ⟨by simp [isSeparator, hspace, hcomma], lowerChar_of_isDigit (h a ha)⟩
  rw [cleaned_eq, List.filter_eq_self.mpr fun a ha => by rw [(hself a ha).1]; rfl]
  exact (List.map_congr_left fun a ha => (hself a ha).2).trans (List.map_id _)

section spelled
variable {t : Token} {s x y : List Char}

theorem cleaned_suffix (h : Scanned t) : cleaned t.suffix = t.suffix.map lowerChar := by
  rcases h.suffix with hnil | ⟨c, hc, hmult⟩
  · rw [hnil]
    rfl
  · obtain ⟨hlower, hkm⟩ := lowerChar_of_isMultiplier hmult
    have hink := not_isSeparator_of_lower (hlower ▸ hkm)
    rw [hc, cleaned_eq]
    simp [hink]

theorem cleaned_text (h : Scanned t) :
    cleaned t.text = digitsOf t.whole ++ (pointed t.fraction ++ t.suffix.map lowerChar) := by
  unfold Token.text
  rw [cleaned_append, cleaned_append, cleaned_whole h.whole, cleaned_pointed h.fraction,
    cleaned_suffix h]

/-- A numeral is read from its digits and what follows them. -/
theorem numeralOf_append {D r : List Char} (hne : D ≠ []) (hD : ∀ a ∈ D, a.isDigit = true)
    (hr : ∀ a ∈ r.head?, a.isDigit = false) : numeralOf (D ++ r) =
      if (splitFraction r).2.map Char.toLower ∈ suffixes then
        some ⟨D, (splitFraction r).1, (splitFraction r).2⟩
      else none := by
  obtain ⟨htake, hdrop⟩ := run_ends hD hr
  have hnone := run_ends (p := fun c => !c.isDigit) (x := []) (y := D ++ r) nofun fun a ha => by
    rw [List.head?_append_of_ne_nil _ hne] at ha
    rw [hD a (List.mem_of_mem_head? ha)]
    rfl
  rw [List.nil_append] at hnone
  unfold numeralOf
  simp only [hnone.1, hnone.2, htake, hdrop]
  have hbody : D ++ r ≠ [] := List.append_ne_nil_of_left_ne_nil hne r
  have hcur : ([] : List Char).map Char.toLower ∈ currencies := by decide
  by_cases hsuffix : (splitFraction r).2.map Char.toLower ∈ suffixes
  · rw [if_pos ⟨hcur, hbody, hsuffix⟩, if_pos hsuffix]
  · rw [if_neg fun h => hsuffix h.2.2, if_neg hsuffix]

theorem digitsOf_ne_nil (h : Scanned t) : digitsOf t.whole ≠ [] := by
  obtain ⟨a, ha, hdigit⟩ := (Option.any_eq_true _ _).mp h.first
  exact List.ne_nil_of_mem (List.mem_filter.mpr ⟨List.mem_of_mem_head? ha, hdigit⟩)

theorem isDigit_of_mem_digitsOf {a : Char} (h : a ∈ digitsOf x) : a.isDigit = true :=
  (List.mem_filter.mp h).2

def numeral (t : Token) : Numeral := ⟨digitsOf t.whole, t.fraction, t.suffix.map lowerChar⟩

theorem suffix_mem_suffixes (h : Scanned t) :
    (t.suffix.map lowerChar).map Char.toLower ∈ suffixes := by
  rcases h.suffix with hnil | ⟨c, hc, hmult⟩
  · rw [hnil]
    decide
  · obtain ⟨hlower, hkm⟩ := lowerChar_of_isMultiplier hmult
    rw [hc]
    simp only [List.map_cons, List.map_nil, hlower]
    rcases hkm with h | h <;> rw [h] <;> decide

theorem numeralOf_text (h : Scanned t) : numeralOf (cleaned t.text) = some (numeral t) := by
  rw [cleaned_text h]
  refine numeralOf_eq_some.mpr ⟨digitsOf_ne_nil h, fun a => isDigit_of_mem_digitsOf, h.fraction,
    suffix_mem_suffixes h, [], by decide, ?_⟩
  change digitsOf t.whole ++ (pointed t.fraction ++ t.suffix.map lowerChar) =
    digitsOf t.whole ++ pointed t.fraction ++ t.suffix.map lowerChar
  rw [List.append_assoc]

theorem splitFraction_pointed {f z : List Char} (hne : f ≠ []) (hf : ∀ a ∈ f, a.isDigit = true)
    (hz : ∀ a ∈ z.head?, a.isDigit = false) : splitFraction (pointed f ++ z) = (f, z) := by
  obtain ⟨htake, hdrop⟩ := run_ends hf hz
  unfold pointed
  rw [if_neg hne, List.cons_append]
  simp only [splitFraction, htake, hdrop]
  rw [if_neg hne]

theorem splitFraction_of_ne {c : Char} {z : List Char} (h : c ≠ '.') :
    splitFraction (c :: z) = ([], c :: z) := by
  unfold splitFraction
  split
  · next heq =>
    cases heq
    exact absurd rfl h
  · rfl

theorem suffix_of_mem {c : Char} {z : List Char}
    (h : (lowerChar c :: z).map Char.toLower ∈ suffixes) : z = [] ∧ isThousands c = true := by
  rw [List.map_cons, toLower_lowerChar] at h
  simp only [suffixes, List.mem_cons, List.cons.injEq, List.map_eq_nil_iff, List.not_mem_nil,
    or_false, reduceCtorEq, false_or] at h
  unfold isThousands
  rcases h with ⟨hc, hz⟩ | ⟨hc, hz⟩
  · exact ⟨hz, by simp [hc]⟩
  · exact ⟨hz, by simp [hc]⟩

/-- What may follow a token in an amount. -/
theorem goes_on_cases (h : Scanned t) {c : Char} {more : List Char} (hdigit : c.isDigit = false)
    (hsome : (numeralOf (digitsOf t.whole ++ (pointed t.fraction ++ (t.suffix.map lowerChar ++
      lowerChar c :: more)))).isSome = true) :
    (more = [] ∧ isThousands c = true) ∨ c = '.' ∧ more.takeWhile Char.isDigit ≠ [] := by
  have hlower : ∀ a ∈ (lowerChar c :: more).head?, a.isDigit = false := by
    intro a ha
    cases ha
    rw [isDigit_lowerChar, hdigit]
  have hmem {r : List Char} (hr : ∀ a ∈ r.head?, a.isDigit = false)
      (hsome : (numeralOf (digitsOf t.whole ++ r)).isSome = true) :
      (splitFraction r).2.map Char.toLower ∈ suffixes := by
    rw [numeralOf_append (digitsOf_ne_nil h) (fun a => isDigit_of_mem_digitsOf) hr] at hsome
    by_contra hnot
    rw [if_neg hnot] at hsome
    cases hsome
  have hpoint {z : List Char} (hf : t.fraction ≠ []) : ∀ a ∈ (pointed t.fraction ++ z).head?,
      a.isDigit = false := by
    intro a ha
    unfold pointed at ha
    rw [if_neg hf] at ha
    cases ha
    decide
  rcases h.suffix with hnil | ⟨k, hk, hmult⟩
  · rw [hnil, List.map_nil, List.nil_append] at hsome
    by_cases hf : t.fraction = []
    · rw [hf, pointed, if_pos rfl, List.nil_append] at hsome
      have hsuffix := hmem hlower hsome
      by_cases hc : c = '.' ∧ more.takeWhile Char.isDigit ≠ []
      · exact .inr hc
      · left
        have hsplit : splitFraction (lowerChar c :: more) = ([], lowerChar c :: more) := by
          by_cases hdot : c = '.'
          · have hnone : more.takeWhile Char.isDigit = [] := not_not.mp fun h => hc ⟨hdot, h⟩
            have hpt : lowerChar c = '.' := (lowerChar_eq_iff (by decide)).mpr hdot
            rw [hpt]
            simp only [splitFraction, if_pos hnone]
          · exact splitFraction_of_ne (mt (lowerChar_eq_iff (by decide)).mp hdot)
        rw [hsplit] at hsuffix
        exact suffix_of_mem hsuffix
    · have hsuffix := hmem (hpoint hf) hsome
      rw [splitFraction_pointed hf h.fraction hlower] at hsuffix
      exact .inl (suffix_of_mem hsuffix)
  · -- nothing follows a multiplier
    obtain ⟨hlow, hkm⟩ := lowerChar_of_isMultiplier hmult
    have hkdigit : (lowerChar k).isDigit = false := by
      rw [hlow]
      rcases hkm with h | h <;> rw [h] <;> decide
    have hkpoint : lowerChar k ≠ '.' := by
      rw [hlow]
      rcases hkm with h | h <;> rw [h] <;> decide
    have hhead : ∀ a ∈ ([k].map lowerChar ++ lowerChar c :: more).head?, a.isDigit = false := by
      intro a ha
      cases ha
      exact hkdigit
    rw [hk] at hsome
    have hsuffix : ([k].map lowerChar ++ lowerChar c :: more).map Char.toLower ∈ suffixes := by
      by_cases hf : t.fraction = []
      · rw [hf, pointed, if_pos rfl, List.nil_append] at hsome
        have hsplit := hmem hhead hsome
        rwa [List.map_cons, List.cons_append, splitFraction_of_ne hkpoint] at hsplit
      · have hsplit := hmem (hpoint hf) hsome
        rwa [splitFraction_pointed hf h.fraction hhead] at hsplit
    exact absurd (suffix_of_mem hsuffix).1 (List.cons_ne_nil _ _)

/-- Where an amount goes on past its token, the text does. -/
theorem cleaned_nil_or_goesOn (h : Scanned t) (hafter : t.after = x ++ y)
    (hword : endsWord (t.text ++ x) y = true)
    (hparse : (parseAmountToMinorUnits (t.text ++ x)).isSome = true) :
    cleaned x = [] ∨ goesOn t.after = true := by
  have hsome : (numeralOf (cleaned (t.text ++ x))).isSome = true := by
    obtain ⟨amount, hamount⟩ := Option.isSome_iff_exists.mp hparse
    obtain ⟨n, hn, -⟩ := parseAmountToMinorUnits_eq_some hamount
    rw [hn]
    rfl
  rw [cleaned_append, cleaned_text h, List.append_assoc, List.append_assoc] at hsome
  have hclean := cleaned_eq x
  cases hink : x.filter fun c => !isSeparator c with
  | nil =>
    rw [hink] at hclean
    exact .inl hclean
  | cons c more =>
    right
    obtain ⟨gap, z, rfl, hgap, hc, hz⟩ := List.filter_eq_cons_iff.mp hink
    have hgap' : ∀ a ∈ gap, isSeparator a = true := fun a ha => by simpa using hgap a ha
    have hdrop : t.after.dropWhile isSeparator = c :: (z ++ y) := by
      rw [hafter, List.append_assoc, List.dropWhile_append_of_pos hgap', List.cons_append,
        List.dropWhile_cons_of_neg (by simpa using hc)]
    have hrest : cleaned z = more.map lowerChar := by rw [cleaned_eq, hz]
    rw [hclean, hink, List.map_cons] at hsome
    unfold goesOn
    rw [hdrop]
    by_cases hdigit : c.isDigit = true
    · simp [hdigit]
    rw [Bool.not_eq_true] at hdigit
    rcases goes_on_cases h hdigit hsome with ⟨hmore, hthousands⟩ | ⟨rfl, hmore⟩
    · have hzsep : ∀ a ∈ z, isSeparator a = true := by
        rw [List.map_eq_nil_iff] at hmore
        rw [hmore, List.filter_eq_nil_iff] at hz
        exact fun a ha => by simpa using hz a ha
      have hends : endsWord [c] (z ++ y) = true := by
        cases z with
        | nil =>
          unfold endsWord at hword ⊢
          simpa [List.getLast?_append] using hword
        | cons b z =>
          have hb := isWord_of_isSeparator (hzsep b List.mem_cons_self)
          simp [endsWord, hb]
      simp [hthousands, hends]
    · have hdigits : ((z ++ y).dropWhile isSeparator).head?.any Char.isDigit = true := by
        cases more with
        | nil => exact absurd rfl hmore
        | cons b more =>
          have hb : b.isDigit = true := by
            rw [← isDigit_lowerChar]
            by_contra hb
            exact hmore (List.takeWhile_cons_of_neg hb)
          obtain ⟨gap', z', rfl, hgap', hbsep, -⟩ := List.filter_eq_cons_iff.mp hz
          rw [List.append_assoc, List.dropWhile_append_of_pos fun a ha => by simpa using hgap' a ha,
            List.cons_append, List.dropWhile_cons_of_neg (by simpa using hbsep)]
          simp [hb]
      simp [hdigits]

/-- What ends a word in two does not reach past the token. -/
theorem accepted_short (h : Scanned t) (hquiet : goesOn t.after = false)
    (hword : endsWord t.text t.after = false) (hs : Accepted (t.text ++ t.after) s) :
    s.length < t.text.length := by
  by_contra hlong
  obtain ⟨y, htail, hends, hparse⟩ := hs
  obtain ⟨x, rfl⟩ : ∃ x, s = t.text ++ x := by
    rcases List.append_eq_append_iff.mp htail with ⟨x, hx, -⟩ | ⟨x, hx, -⟩
    · exact ⟨x, hx⟩
    · refine ⟨[], ?_⟩
      have hlen := congrArg List.length hx
      rw [List.length_append] at hlen
      rw [hx, List.length_eq_zero_iff.mp (by omega : x.length = 0)]
      simp
  rw [List.append_assoc] at htail
  have hafter := List.append_cancel_left htail
  rcases cleaned_nil_or_goesOn h hafter hends hparse with hnil | hgoes
  · cases x with
    | nil =>
      rw [List.append_nil, ← List.nil_append y, ← hafter, hword] at hends
      cases hends
    | cons a x =>
      rw [hafter] at hword
      have ha : isWord a = true := by
        unfold endsWord at hword
        rw [Bool.not_eq_false', Bool.and_eq_true] at hword
        exact hword.2
      have hsep : isSeparator a = false := by
        rw [Bool.eq_false_iff]
        intro hsep
        rw [isWord_of_isSeparator hsep] at ha
        cases ha
      rw [cleaned_eq, List.filter_cons_of_pos (by simp [hsep])] at hnil
      cases hnil
  · rw [hquiet] at hgoes
    cases hgoes

theorem isWord_of_mem (h : Scanned t) : ∀ a ∈ t.fraction ++ t.suffix, isWord a = true := by
  intro a ha
  rcases List.mem_append.mp ha with ha | ha
  · exact isWord_of_isDigit (h.fraction a ha)
  · rcases h.suffix with hnil | ⟨c, hc, hmult⟩
    · rw [hnil] at ha
      cases ha
    · rw [hc, List.mem_singleton] at ha
      rw [ha]
      exact isWord_of_isMultiplier hmult

/-- No amount ends with a point. -/
theorem parse_pointed_none (h : Scanned t) : parseAmountToMinorUnits (t.whole ++ ['.']) = none := by
  have hpoint : cleaned ['.'] = ['.'] := by decide
  have hsign : ∀ a ∈ ['.'].head?, a.isDigit = false :=
    fun a ha => (Option.mem_some.mp ha) ▸ rfl
  have hnone : numeralOf (digitsOf t.whole ++ ['.']) = none := by
    rw [numeralOf_append (digitsOf_ne_nil h) (fun a => isDigit_of_mem_digitsOf) hsign]
    exact if_neg (by decide)
  rw [parseAmountToMinorUnits_eq, cleaned_append, cleaned_whole h.whole, hpoint, hnone]
  rfl

/-- What is shorter than the token and ends no word in two stops before its point. -/
theorem accepted_in_whole (h : Scanned t) (hs : Accepted (t.text ++ t.after) s)
    (hshort : s.length < t.text.length) : ∃ w, t.whole = s ++ w := by
  obtain ⟨y, htail, hends, hparse⟩ := hs
  obtain ⟨z, htext, rfl⟩ : ∃ z, t.text = s ++ z ∧ y = z ++ t.after := by
    rcases List.append_eq_append_iff.mp htail with ⟨z, hz, -⟩ | ⟨z, hz, hy⟩
    · rw [hz, List.length_append] at hshort
      omega
    · exact ⟨z, hz, hy⟩
  have hz : z ≠ [] := by
    rintro rfl
    rw [htext, List.append_nil] at hshort
    exact lt_irrefl _ hshort
  obtain ⟨b, z, rfl⟩ := List.exists_cons_of_ne_nil hz
  have hsplit : t.whole ++ (pointed t.fraction ++ t.suffix) = s ++ b :: z := htext
  rcases List.append_eq_append_iff.mp hsplit with ⟨q, rfl, hq⟩ | ⟨w, hw, -⟩
  · cases q with
    | nil => exact ⟨[], by simp⟩
    | cons p q =>
      exfalso
      by_cases hf : t.fraction = []
      · -- a token without a point has no more than one character after its digits
        rw [hf, pointed, if_pos rfl, List.nil_append] at hq
        have hlen := congrArg List.length hq
        rcases h.suffix with hnil | ⟨c, hc, -⟩
        · rw [hnil] at hlen
          simp at hlen
        · rw [hc] at hlen
          simp at hlen
      · rw [pointed, if_neg hf, List.cons_append, List.cons_append, List.cons.injEq] at hq
        obtain ⟨rfl, hq⟩ := hq
        cases q with
        | nil =>
          rw [parse_pointed_none h] at hparse
          cases hparse
        | cons p q =>
          have hmem : ∀ a ∈ (p :: q) ++ b :: z, isWord a = true := hq ▸ isWord_of_mem h
          obtain ⟨a, ha⟩ : ∃ a, (p :: q).getLast? = some a :=
            ⟨_, List.getLast?_eq_some_getLast (List.cons_ne_nil p q)⟩
          have hlast : (t.whole ++ '.' :: p :: q).getLast? = some a := by
            rw [List.getLast?_append, List.getLast?_cons_cons, ha]
            rfl
          have hworda := hmem a (List.mem_append_left _ (List.mem_of_getLast? ha))
          have hwordb := hmem b (List.mem_append_right _ List.mem_cons_self)
          unfold endsWord at hends
          rw [hlast] at hends
          simp [hworda, hwordb] at hends
  · exact ⟨w, hw⟩

theorem ofDigitChars_append (x y : List Char) : Nat.ofDigitChars 10 (x ++ y) 0 =
    10 ^ y.length * Nat.ofDigitChars 10 x 0 + Nat.ofDigitChars 10 y 0 := by
  rw [Nat.ofDigitChars_append, Nat.ofDigitChars_eq_ofDigitChars_zero]

theorem whole_le_number (t : Token) :
    (Nat.ofDigitChars 10 (digitsOf t.whole) 0 : ℚ) ≤ (numeral t).number := by
  have hpos : (0 : ℚ) < 10 ^ t.fraction.length := by positivity
  change _ ≤ ((Nat.ofDigitChars 10 (digitsOf t.whole ++ t.fraction) 0 : ℕ) : ℚ) /
    10 ^ t.fraction.length
  rw [le_div_iff₀ hpos, ofDigitChars_append]
  push_cast
  have hnonneg : (0 : ℚ) ≤ (Nat.ofDigitChars 10 t.fraction 0 : ℕ) := Nat.cast_nonneg _
  linarith

theorem thousand_le_multiplier (h : Scanned t) (hsuffix : t.suffix ≠ []) :
    1000 ≤ (numeral t).multiplier := by
  rcases h.suffix with hnil | ⟨c, hc, hmult⟩
  · exact absurd hnil hsuffix
  · obtain ⟨hlower, hkm⟩ := lowerChar_of_isMultiplier hmult
    unfold Numeral.multiplier numeral
    dsimp only
    rw [hc, List.map_singleton, hlower]
    rcases hkm with h | h
    · simp [h]
    · simp [h]

/-- A part of the digits or a number without its multiplier is a different amount. -/
theorem whole_of_same_amount (h : Scanned t) {w : List Char} {amount : ℕ} (hw : t.whole = s ++ w)
    (hs : parseAmountToMinorUnits s = some amount)
    (htext : parseAmountToMinorUnits t.text = some amount) (hpos : 0 < amount) :
    digitsOf w = [] ∧ t.suffix = [] := by
  have hfigures : ∀ a ∈ s, isFigure a = true := fun a ha =>
    h.whole a (hw ▸ List.mem_append_left w ha)
  obtain ⟨n, hn, hamount⟩ := parseAmountToMinorUnits_eq_some hs
  obtain ⟨m, hm, hamount'⟩ := parseAmountToMinorUnits_eq_some htext
  rw [numeralOf_text h] at hm
  cases hm
  rw [cleaned_whole hfigures] at hn
  have hne : digitsOf s ≠ [] := by
    intro hnil
    have hnone : numeralOf [] = none := by decide
    rw [hnil, hnone] at hn
    cases hn
  rw [numeralOf_digits hne fun a => isDigit_of_mem_digitsOf] at hn
  cases hn
  -- what is read of the part alone
  have hvalue : (⟨digitsOf s, [], []⟩ : Numeral).number = Nat.ofDigitChars 10 (digitsOf s) 0 := by
    simp [Numeral.number, Numeral.digits]
  have hone : (⟨digitsOf s, [], []⟩ : Numeral).multiplier = 1 := rfl
  have hle : (amount : ℚ) ≤ 2 * Nat.ofDigitChars 10 (digitsOf s) 0 := by
    rw [hamount, hvalue, hone, Nat.cast_one, mul_one,
      rounded_of_isBinary64 (isBinary64_rounded (Nat.cast_nonneg _))]
    exact rounded_natCast_le _
  have hpart : 0 < Nat.ofDigitChars 10 (digitsOf s) 0 := by
    have : (0 : ℚ) < amount := by exact_mod_cast hpos
    have : (0 : ℚ) < Nat.ofDigitChars 10 (digitsOf s) 0 := by linarith
    exact_mod_cast this
  have hwhole := whole_le_number t
  rw [hw, digitsOf, List.filter_append, ofDigitChars_append] at hwhole
  push_cast at hwhole
  have hlow : (0 : ℚ) ≤ (Nat.ofDigitChars 10 (digitsOf w) 0 : ℕ) := Nat.cast_nonneg _
  have hmult : (1 : ℚ) ≤ (numeral t).multiplier := by exact_mod_cast multiplier_pos (numeral t)
  have hnumber := number_nonneg (numeral t)
  by_contra hnot
  have hten : 10 * (Nat.ofDigitChars 10 (digitsOf s) 0 : ℚ) ≤ (numeral t).value := by
    change _ ≤ (numeral t).number * (numeral t).multiplier
    by_cases hdigits : digitsOf w = []
    · have hthousand : (1000 : ℚ) ≤ (numeral t).multiplier := by
        exact_mod_cast thousand_le_multiplier h fun hnil => hnot ⟨hdigits, hnil⟩
      have hsmall : (Nat.ofDigitChars 10 (digitsOf s) 0 : ℚ) ≤ (numeral t).number := by
        unfold digitsOf at hdigits ⊢
        rw [hdigits] at hwhole
        simpa using hwhole
      calc 10 * (Nat.ofDigitChars 10 (digitsOf s) 0 : ℚ) ≤ (numeral t).number * 1000 := by linarith
        _ ≤ (numeral t).number * (numeral t).multiplier :=
          mul_le_mul_of_nonneg_left hthousand hnumber
    · have hten : (10 : ℚ) ≤ 10 ^ (digitsOf w).length := by
        exact_mod_cast Nat.le_self_pow (mt List.length_eq_zero_iff.mp hdigits) 10
      have hshift : 10 * (Nat.ofDigitChars 10 (digitsOf s) 0 : ℚ) ≤
          10 ^ (digitsOf w).length * (Nat.ofDigitChars 10 (digitsOf s) 0 : ℕ) :=
        mul_le_mul_of_nonneg_right hten (Nat.cast_nonneg _)
      calc 10 * (Nat.ofDigitChars 10 (digitsOf s) 0 : ℚ) ≤ (numeral t).number :=
            hshift.trans ((le_add_of_nonneg_right hlow).trans hwhole)
        _ ≤ (numeral t).number * (numeral t).multiplier := le_mul_of_one_le_right hnumber hmult
  have hlt := lt_of_ten_mul_le hpart hten
  rw [← hamount'] at hlt
  linarith

end spelled

section longest
variable {t : Token} {s tail : List Char} {amount : ℕ}

theorem exists_longest (h : Accepted tail s) : ∃ s', Longest tail s' ∧ s.length ≤ s'.length := by
  have hbound {s : List Char} (hs : Accepted tail s) : s.length ≤ tail.length := by
    obtain ⟨y, rfl, -⟩ := hs
    rw [List.length_append]
    exact Nat.le_add_right _ _
  induction hn : tail.length - s.length using Nat.strong_induction_on generalizing s with
  | _ n ih =>
    by_cases hmax : ∀ s', Accepted tail s' → s'.length ≤ s.length
    · exact ⟨s, ⟨h, hmax⟩, Nat.le_refl _⟩
    · push Not at hmax
      obtain ⟨s', hs', hlt⟩ := hmax
      have hle := hbound hs'
      obtain ⟨longest, hlongest, hlen⟩ := ih (tail.length - s'.length) (by omega) hs' rfl
      exact ⟨longest, hlongest, by omega⟩

/-- The token's amount is that of the longest beginning that is one, and nothing goes on after the
token. -/
theorem wholeToken_iff (h : Scanned t) (htext : parseAmountToMinorUnits t.text = some amount)
    (hpos : 0 < amount) : (goesOn t.after = false ∧ ∃ s, Longest (t.text ++ t.after) s ∧
      parseAmountToMinorUnits s = some amount) ↔ WholeToken t := by
  unfold WholeToken
  refine and_congr_right fun hquiet => ?_
  by_cases hword : endsWord t.text t.after = true
  · refine iff_of_true ?_ (.inl hword)
    have haccepted : Accepted (t.text ++ t.after) t.text :=
      ⟨t.after, rfl, hword, by rw [htext]; rfl⟩
    obtain ⟨s, hlongest, hlen⟩ := exists_longest haccepted
    refine ⟨s, hlongest, ?_⟩
    obtain ⟨y, htail, hends, hparse⟩ := hlongest.1
    obtain ⟨x, rfl, hafter⟩ : ∃ x, s = t.text ++ x ∧ t.after = x ++ y := by
      rcases List.append_eq_append_iff.mp htail with ⟨x, hx, hy⟩ | ⟨x, hx, hy⟩
      · exact ⟨x, hx, hy⟩
      · have hnil : x = [] := by
          have hlen' := congrArg List.length hx
          rw [List.length_append] at hlen'
          exact List.length_eq_zero_iff.mp (by omega)
        rw [hnil] at hx hy
        exact ⟨[], by rw [hx]; simp, hy.symm⟩
    rcases cleaned_nil_or_goesOn h hafter hends hparse with hnil | hgoes
    · rw [← htext]
      refine parse_eq_of_cleaned ?_
      rw [cleaned_append, hnil, List.append_nil]
    · rw [hquiet] at hgoes
      cases hgoes
  · rw [Bool.not_eq_true] at hword
    rw [hword]
    simp only [Bool.false_eq_true, false_or]
    have hinside {s : List Char} (hs : Accepted (t.text ++ t.after) s) : ∃ w, t.whole = s ++ w :=
      accepted_in_whole h hs (accepted_short h hquiet hword hs)
    constructor
    · rintro ⟨s, hlongest, hs⟩
      obtain ⟨w, hw⟩ := hinside hlongest.1
      obtain ⟨hdigits, hsuffix⟩ := whole_of_same_amount h hw hs htext hpos
      have hclean : cleaned t.whole = cleaned s := by
        have hfigures : ∀ a ∈ w, isFigure a = true := fun a ha =>
          h.whole a (hw ▸ List.mem_append_right s ha)
        rw [hw, cleaned_append, cleaned_whole hfigures, hdigits, List.append_nil]
      refine ⟨hsuffix, ?_, by rw [parse_eq_of_cleaned hclean, hs, htext]⟩
      -- without a fraction the part would be the token up to some commas
      intro hfraction
      have hwhole : t.text = t.whole := by
        unfold Token.text
        rw [hfraction, hsuffix, pointed, if_pos rfl, List.append_nil, List.append_nil]
      have hne : w ≠ [] := by
        rintro rfl
        have hshort := accepted_short h hquiet hword hlongest.1
        rw [hwhole, hw, List.append_nil] at hshort
        exact lt_irrefl _ hshort
      have hlast : t.text.getLast? = some (w.getLast hne) := by
        rw [hwhole, hw, List.getLast?_append_of_ne_nil _ hne, List.getLast?_eq_some_getLast hne]
      have hcomma : w.getLast hne = ',' := by
        have hmem := List.getLast_mem hne
        have hfigure := h.whole _ (hw ▸ List.mem_append_right s hmem)
        have hdigit := List.filter_eq_nil_iff.mp hdigits _ hmem
        simpa [isFigure, hdigit] using hfigure
      unfold endsWord at hword
      rw [hlast, hcomma] at hword
      exact absurd hword (by simp [show isWord ',' = false by decide])
    · rintro ⟨hsuffix, hfraction, hsame⟩
      have haccepted : Accepted (t.text ++ t.after) t.whole := by
        refine ⟨pointed t.fraction ++ t.suffix ++ t.after, ?_, ?_, by rw [hsame, htext]; rfl⟩
        · unfold Token.text
          simp
        · unfold endsWord pointed
          rw [if_neg hfraction]
          simp [show isWord '.' = false by decide]
      refine ⟨t.whole, ⟨haccepted, ?_⟩, hsame.trans htext⟩
      intro s hs
      obtain ⟨w, hw⟩ := hinside hs
      rw [hw, List.length_append]
      exact Nat.le_add_right _ _

end longest

def amountOf : ToolCall → Option String
  | .recordPayment _ amount .. => some amount
  | .recordPledge _ amount .. => some amount
  | _ => none

/-- A recorded amount is that of the longest beginning, from the matched number on, that is one; and
nothing of the number is left out. -/
def ReadsWhole (utterance : String) : Prop :=
  ∀ call, parseTier1 utterance = some call → isRecord call = true →
    ∃ clause t s, clauseOf (normalText utterance) = some clause ∧ moneyAt clause.rest = some t ∧
      goesOn t.after = false ∧ Longest (t.text ++ t.after) s ∧
      amountOf call = (parseAmountToMinorUnits s).map moneyToString

theorem amountOf_recordCall {name verb : List Char} {amount : ℕ} {call : ToolCall}
    (h : recordCall name verb amount = some call) : amountOf call = some (moneyToString amount) := by
  unfold recordCall at h
  split_ifs at h
  · cases h
    rfl
  · cases h
    rfl

/-- An utterance is read whole where its token is. -/
theorem reads_whole_iff (utterance : String) : ReadsWhole utterance ↔
    ∀ call, parseTier1 utterance = some call → isRecord call = true → ∀ clause t,
      clauseOf (normalText utterance) = some clause → moneyAt clause.rest = some t →
      WholeToken t := by
  refine forall_congr' fun call => forall_congr' fun hcall => forall_congr' fun hrecord => ?_
  obtain ⟨-, clause, amount, hclause, hrecorded, hmade⟩ :=
    (parseText_record (spaced_collapse _)).mp ⟨hcall, hrecord⟩
  have hamount := hrecorded.extracted
  rw [extractAmount_eq] at hamount
  obtain ⟨t, ht, htext⟩ := Option.bind_eq_some_iff.mp hamount
  have hwhole := wholeToken_iff (scanned_of_moneyAt ht) htext hrecorded.positive
  rw [amountOf_recordCall hmade]
  constructor
  · rintro ⟨clause', t', s, hclause', ht', hquiet, hlongest, hs⟩ clause'' t'' hclause'' ht''
    cases hclause'.symm.trans hclause''
    cases ht'.symm.trans ht''
    cases hclause'.symm.trans hclause
    cases ht'.symm.trans ht
    refine hwhole.mp ⟨hquiet, s, hlongest, ?_⟩
    obtain ⟨amount', hparse, hsame⟩ := Option.map_eq_some_iff.mp hs.symm
    rw [hparse, moneyToString_inj.mp hsame]
  · intro h
    obtain ⟨hquiet, s, hlongest, hs⟩ := hwhole.mpr (h clause t hclause ht)
    exact ⟨clause, t, s, hclause, ht, hquiet, hlongest, by rw [hs]; rfl⟩

/-- A multiplier, two digit groups and a unit are left out. -/
theorem numbers_cut_short :
    parseTier1 "Peter paid 2 m" = some (.recordPayment "Peter" "2" none none none) ∧
    parseAmountToMinorUnits "2 m".toList = some 2000000 ∧
    parseTier1 "Peter paid 1 500 000" = some (.recordPayment "Peter" "1" none none none) ∧
    parseAmountToMinorUnits "1 500 000".toList = some 1500000 ∧
    ¬ ReadsWhole "Peter paid 2 m" := by
  have hcall : parseTier1 "Peter paid 2 m" = some (.recordPayment "Peter" "2" none none none) := by
    decide +kernel
  refine ⟨hcall, by decide +kernel, by decide +kernel, by decide +kernel, fun h => ?_⟩
  obtain ⟨clause, t, s, hclause, ht, hquiet, -⟩ := h _ hcall rfl
  have hgoes : ((clauseOf (normalText "Peter paid 2 m")).bind fun clause =>
      (moneyAt clause.rest).map fun t => goesOn t.after) = some true := by decide +kernel
  rw [hclause, Option.bind_some, ht, Option.map_some, hquiet] at hgoes
  cases hgoes

end Akabbo.MatchedAmounts
