import Akabbo.Tier1Parser

/-!
# The money token of a text

The parser takes the first number of a text, with a fraction and a multiplier where they stand
directly against it.
-/
namespace Akabbo.MoneyTokens
open RegularExpressions TextPatterns Amounts Tier1Parser

/-- A token and what follows it. -/
structure Token where
  whole : List Char
  fraction : List Char
  suffix : List Char
  after : List Char
  deriving DecidableEq, Repr

def pointed (fraction : List Char) : List Char := if fraction = [] then [] else '.' :: fraction

def Token.text (t : Token) : List Char := t.whole ++ (pointed t.fraction ++ t.suffix)

/-- A multiplier that no letter follows. -/
def splitMultiplier : List Char → List Char × List Char
  | [] => ([], [])
  | c :: rest =>
    if isMultiplier c && !rest.head?.any Char.isAlpha then ([c], rest) else ([], c :: rest)

def tokenOf (tail : List Char) : Token :=
  let (fraction, rest) := splitFraction (tail.dropWhile isFigure)
  let (suffix, after) := splitMultiplier rest
  ⟨tail.takeWhile isFigure, fraction, suffix, after⟩

/-- The token at the first digit of a text. -/
def moneyAt (text : List Char) : Option Token :=
  match text.dropWhile fun c => !c.isDigit with
  | [] => none
  | c :: tail => some (tokenOf (c :: tail))

theorem splitFraction_text (rest : List Char) :
    pointed (splitFraction rest).1 ++ (splitFraction rest).2 = rest := (splitFraction_eq rest).1.symm

theorem splitMultiplier_text (rest : List Char) :
    (splitMultiplier rest).1 ++ (splitMultiplier rest).2 = rest := by
  unfold splitMultiplier
  split
  · rfl
  · split_ifs
    · rfl
    · rfl

theorem tokenOf_text (tail : List Char) : (tokenOf tail).text ++ (tokenOf tail).after = tail := by
  unfold tokenOf Token.text
  dsimp only
  rw [List.append_assoc, List.append_assoc, splitMultiplier_text, splitFraction_text,
    List.takeWhile_append_dropWhile]

section preferred
variable (c : Cursor Char)

theorem head?_fraction : ((Regex.all [sign '.', digit.plus]).optional.paths c).head? =
    some ⟨(pointed (splitFraction c.after).1).reverse ++ c.before, (splitFraction c.after).2,
      c.groups⟩ := by
  obtain ⟨before, after, groups⟩ := c
  have hnone (h : splitFraction after = ([], after))
      (hpaths : ((Regex.all [sign '.', digit.plus]).paths ⟨before, after, groups⟩).head? = none) :
      ((Regex.all [sign '.', digit.plus]).optional.paths ⟨before, after, groups⟩).head? =
        some ⟨(pointed (splitFraction after).1).reverse ++ before, (splitFraction after).2, groups⟩ := by
    rw [head?_optional, hpaths, h]
    rfl
  cases after with
  | nil => exact hnone rfl rfl
  | cons a rest =>
    by_cases ha : a = '.'
    · subst ha
      have hseq : ((Regex.all [sign '.', digit.plus]).paths ⟨before, '.' :: rest, groups⟩).head? =
          (digit.plus.paths ⟨'.' :: before, rest, groups⟩).head? :=
        congrArg List.head? (List.flatMap_singleton ..)
      by_cases hrest : rest.takeWhile Char.isDigit = []
      · refine hnone ?_ ?_
        · simp only [splitFraction, if_pos hrest]
        · rw [hseq]
          exact (head?_plus_one _).trans (if_pos hrest)
      · have hsplit : splitFraction ('.' :: rest) =
            (rest.takeWhile Char.isDigit, rest.dropWhile Char.isDigit) := by
          simp only [splitFraction, if_neg hrest]
        have hplus : (digit.plus.paths ⟨'.' :: before, rest, groups⟩).head? =
            some ⟨(rest.takeWhile Char.isDigit).reverse ++ '.' :: before,
              rest.dropWhile Char.isDigit, groups⟩ := (head?_plus_one _).trans (if_neg hrest)
        rw [head?_optional, hseq, hplus, hsplit]
        simp [pointed, hrest]
    · refine hnone ?_ ?_
      · unfold splitFraction
        split
        · next heq =>
          cases heq
          exact absurd rfl ha
        · rfl
      · have hsign : (sign '.').paths ⟨before, a :: rest, groups⟩ = [] :=
          if_neg (by simpa using ha)
        change (((sign '.').paths ⟨before, a :: rest, groups⟩).flatMap _).head? = none
        rw [hsign]
        rfl

theorem head?_multiplier :
    ((Regex.all [.one isMultiplier, .notAhead (.one Char.isAlpha)]).optional.paths c).head? =
      some ⟨(splitMultiplier c.after).1.reverse ++ c.before, (splitMultiplier c.after).2,
        c.groups⟩ := by
  obtain ⟨before, after, groups⟩ := c
  rw [head?_optional]
  change (((readOne isMultiplier ⟨before, after, groups⟩).flatMap
    (Regex.notAhead (.one Char.isAlpha)).paths).head?.or _) = _
  cases after with
  | nil => rfl
  | cons a rest =>
    by_cases ha : isMultiplier a = true
    · have hone : readOne isMultiplier ⟨before, a :: rest, groups⟩ = [⟨a :: before, rest, groups⟩] :=
        if_pos ha
      have hahead : (Regex.notAhead (.one Char.isAlpha)).paths ⟨a :: before, rest, groups⟩ =
          if rest.head?.any Char.isAlpha then [] else [⟨a :: before, rest, groups⟩] := by
        change (if (readOne Char.isAlpha ⟨a :: before, rest, groups⟩).isEmpty then _ else _) = _
        cases rest with
        | nil => rfl
        | cons b more =>
          by_cases hb : b.isAlpha = true
          · simp [readOne, hb]
          · simp [readOne, hb]
      rw [hone, List.flatMap_singleton, hahead]
      by_cases hrest : rest.head?.any Char.isAlpha = true
      · simp [splitMultiplier, ha, hrest]
      · simp [splitMultiplier, ha, hrest]
    · have hnone : readOne isMultiplier ⟨before, a :: rest, groups⟩ = [] := if_neg ha
      rw [hnone]
      simp [splitMultiplier, ha]

/-- At a digit the pattern takes the token. -/
theorem head?_tokenPattern {a : Char} {tail : List Char} (ha : a.isDigit = true)
    (hc : c.after = a :: tail) : (tokenPattern.paths c).head? =
      some ⟨(tokenOf c.after).text.reverse ++ c.before, (tokenOf c.after).after, c.groups⟩ := by
  obtain ⟨before, after, groups⟩ := c
  subst hc
  have hfigure : isFigure a = true := by simp [isFigure, ha]
  have hdigit : (digit.paths ⟨before, a :: tail, groups⟩).head? = some ⟨a :: before, tail, groups⟩ :=
    congrArg List.head? (if_pos ha)
  have hrun : ((Regex.star false (.one isFigure)).paths ⟨a :: before, tail, groups⟩).head? =
      some ⟨(tail.takeWhile isFigure).reverse ++ a :: before, tail.dropWhile isFigure, groups⟩ :=
    head?_star_one _
  have hwhole := head?_seq (head?_seq hdigit (head?_seq hrun (head?_fraction _)))
    (head?_multiplier _)
  refine hwhole.trans ?_
  unfold tokenOf Token.text
  simp [List.takeWhile_cons_of_pos hfigure, List.dropWhile_cons_of_pos hfigure]

end preferred

section search
variable {text : List Char} {d : Cursor Char}

theorem starts_of_mem_tokenPattern {c : Cursor Char} (h : d ∈ tokenPattern.paths c) :
    ∃ a tail, a.isDigit = true ∧ c.after = a :: tail := by
  obtain ⟨e, he, -⟩ := mem_seq.mp h
  obtain ⟨f, hf, -⟩ := mem_seq.mp he
  obtain ⟨a, ha, hreads⟩ := mem_one.mp hf
  exact ⟨a, f.after, ha, hreads.after⟩

/-- What may stand before the number holds no digit. -/
theorem money_found {before y : List Char}
    (h : (moneyToken.paths ⟨before, y, fun _ => none⟩).head? = some d) :
    ∃ lead a tail, (∀ b ∈ lead, b.isDigit = false) ∧ a.isDigit = true ∧ y = lead ++ a :: tail ∧
      d.groups = Function.update (fun _ => none) 1 (some (tokenOf (a :: tail)).text) := by
  obtain ⟨e, he, hrest⟩ := head?_seq_eq_some h
  obtain ⟨f, hf, hgroup⟩ := head?_seq_eq_some hrest
  obtain ⟨cur, hcur, hreads⟩ := mem_currency.mp he
  have hspace : ∃ sp, (∀ b ∈ sp, b.isDigit = false) ∧ Reads sp e f := by
    rcases mem_optional.mp hf with hone | rfl
    · obtain ⟨b, hb, hread⟩ := mem_one.mp hone
      refine ⟨[b], ?_, hread⟩
      intro b' hb'
      rw [List.mem_singleton.mp hb', Bool.eq_false_iff]
      intro hdigit
      rw [isSpace_of_isDigit hdigit] at hb
      cases hb
    · exact ⟨[], by simp, reads_nil.mpr rfl⟩
  obtain ⟨sp, hsp, hreads'⟩ := hspace
  have hall := hreads.trans hreads'
  obtain ⟨g, hg, rfl⟩ := Option.map_eq_some_iff.mp (head?_group.symm.trans hgroup)
  obtain ⟨a, tail, ha, hafter⟩ := starts_of_mem_tokenPattern (List.mem_of_mem_head? hg)
  refine ⟨cur ++ sp, a, tail, ?_, ha, hafter ▸ hall.after, ?_⟩
  · intro b hb
    rcases List.mem_append.mp hb with hb | hb
    · exact not_digit_of_currency hcur b hb
    · exact hsp b hb
  · rw [head?_tokenPattern f ha hafter, Option.some.injEq] at hg
    subst hg
    have hread : Reads (tokenOf f.after).text f
        ⟨(tokenOf f.after).text.reverse ++ f.before, (tokenOf f.after).after, f.groups⟩ :=
      ⟨(tokenOf_text _).symm, rfl, rfl⟩
    dsimp only
    rw [hread.between, hall.groups, hafter]

theorem money_at_digit {before tail : List Char} {a : Char} (ha : a.isDigit = true) :
    moneyToken.paths ⟨before, a :: tail, fun _ => none⟩ ≠ [] := by
  have htoken := head?_tokenPattern ⟨before, a :: tail, fun _ => none⟩ ha rfl
  obtain ⟨g, hg⟩ := List.exists_mem_of_ne_nil _ (List.ne_nil_of_mem (List.mem_of_mem_head? htoken))
  exact List.ne_nil_of_mem (mem_seq.mpr ⟨_, mem_optional.mpr (.inr rfl),
    mem_seq.mpr ⟨_, mem_optional.mpr (.inr rfl), List.mem_map_of_mem hg⟩⟩)

theorem moneyAt_append {lead tail : List Char} {a : Char} (hlead : ∀ b ∈ lead, b.isDigit = false)
    (ha : a.isDigit = true) : moneyAt (lead ++ a :: tail) = some (tokenOf (a :: tail)) := by
  have hdrop : (lead ++ a :: tail).dropWhile (fun c => !c.isDigit) = a :: tail := by
    rw [List.dropWhile_append_of_pos fun b hb => by rw [hlead b hb]; rfl,
      List.dropWhile_cons_of_neg (by rw [ha]; decide)]
  unfold moneyAt
  rw [hdrop]

/-- The search stops at the first digit of the text. -/
theorem exec_moneyToken (text : List Char) : moneyToken.exec text =
    (moneyAt text).map fun t => Function.update (fun _ => none) 1 (some t.text) := by
  unfold Regex.exec
  cases hsearch : moneyToken.searchFrom [] text with
  | some d =>
    obtain ⟨x, y, rfl, hhead, hfirst⟩ := searchFrom_first hsearch
    obtain ⟨lead, a, tail, hlead, ha, rfl, hgroups⟩ := money_found hhead
    have hx : ∀ b ∈ x, b.isDigit = false := by
      intro b hb
      obtain ⟨u, v, rfl⟩ := List.append_of_mem hb
      rw [Bool.eq_false_iff]
      intro hdigit
      exact money_at_digit hdigit (hfirst u (b :: v) rfl (List.cons_ne_nil _ _))
    rw [← List.append_assoc, moneyAt_append (fun b hb => (List.mem_append.mp hb).elim (hx b) (hlead b)) ha,
      Option.map_some, Option.map_some, hgroups]
  | none =>
    cases hmoney : text.dropWhile (fun c => !c.isDigit) with
    | nil =>
      unfold moneyAt
      rw [hmoney]
      rfl
    | cons a tail =>
      have ha : a.isDigit = true := by
        have hhead := List.head?_dropWhile_not (fun c : Char => !c.isDigit) text
        rw [hmoney] at hhead
        simpa using hhead
      have hfound : (moneyToken.searchFrom []
          (text.takeWhile (fun c => !c.isDigit) ++ a :: tail)).isSome = true :=
        searchFrom_isSome (money_at_digit ha)
      rw [← hmoney, List.takeWhile_append_dropWhile, hsearch] at hfound
      cases hfound

theorem extractAmount_eq (text : List Char) :
    extractAmount text = (moneyAt text).bind fun t => parseAmountToMinorUnits t.text := by
  unfold extractAmount
  rw [exec_moneyToken]
  cases moneyAt text with
  | none => rfl
  | some t => rfl

end search

/-- Commas, and then nothing that goes on with a number or a word. -/
def Closes (z : List Char) : Prop :=
  ∃ w z', z = w ++ z' ∧ (∀ a ∈ w, a = ',') ∧
    ∀ a ∈ z'.head?, isFigure a = false ∧ a ≠ '.' ∧ a.isAlpha = false

section closing
variable {text r x z : List Char} {p : Char → Bool} {t : Token}

theorem span_append (hz : ∀ a ∈ z.head?, p a = false) (x : List Char) :
    (x ++ z).takeWhile p = x.takeWhile p ∧ (x ++ z).dropWhile p = x.dropWhile p ++ z := by
  induction x with
  | nil =>
    cases z with
    | nil => exact ⟨rfl, rfl⟩
    | cons a z =>
      have ha : ¬ p a = true := by rw [hz a rfl]; exact Bool.false_ne_true
      exact ⟨List.takeWhile_cons_of_neg ha, List.dropWhile_cons_of_neg ha⟩
  | cons a x ih =>
    by_cases ha : p a = true
    · simp [ha, ih.1, ih.2]
    · simp [ha]

theorem Closes.head (h : Closes z) : ∀ a ∈ z.head?, a.isDigit = false ∧ a ≠ '.' ∧
    a.isAlpha = false := by
  obtain ⟨w, z', rfl, hw, hz'⟩ := h
  intro a ha
  cases w with
  | nil =>
    obtain ⟨hfigure, hrest⟩ := hz' a ha
    rw [isFigure, Bool.or_eq_false_iff] at hfigure
    exact ⟨hfigure.1, hrest⟩
  | cons b w =>
    cases ha
    rw [hw a List.mem_cons_self]
    decide

theorem isAlpha_of_isMultiplier {a : Char} (h : isMultiplier a = true) : a.isAlpha = true := by
  have hlower : 97 ≤ a.toLower.toNat ∧ a.toLower.toNat ≤ 122 := by
    rw [isMultiplier, Bool.or_eq_true, beq_iff_eq, beq_iff_eq] at h
    rcases h with h | h
    · rw [h]
      decide
    · rw [h]
      decide
  rw [isAlpha_iff]
  rcases toNat_toLower a with hsame | hupper
  · omega
  · omega

theorem splitFraction_append_of (hdigit : ∀ a ∈ z.head?, a.isDigit = false)
    (hpoint : ∀ a ∈ z.head?, a ≠ '.') (r : List Char) :
    splitFraction (r ++ z) = ((splitFraction r).1, (splitFraction r).2 ++ z) := by
  cases r with
  | nil =>
    cases z with
    | nil => rfl
    | cons a z =>
      unfold splitFraction
      split
      · next heq =>
        cases heq
        exact absurd rfl (hpoint '.' rfl)
      · rfl
  | cons c more =>
    by_cases hc : c = '.'
    · subst hc
      obtain ⟨htake, hdrop⟩ := span_append hdigit more
      simp only [List.cons_append, splitFraction, htake, hdrop]
      split_ifs
      · rfl
      · rfl
    · have hself (y : List Char) : splitFraction (c :: y) = ([], c :: y) := by
        unfold splitFraction
        split
        · next heq =>
          cases heq
          exact absurd rfl hc
        · rfl
      rw [List.cons_append, hself, hself]
      rfl

theorem splitMultiplier_append_of (halpha : ∀ a ∈ z.head?, a.isAlpha = false) (r : List Char) :
    splitMultiplier (r ++ z) = ((splitMultiplier r).1, (splitMultiplier r).2 ++ z) := by
  have hany : z.head?.any Char.isAlpha = false := by
    cases z with
    | nil => rfl
    | cons a z => exact halpha a rfl
  cases r with
  | nil =>
    cases z with
    | nil => rfl
    | cons a z =>
      have ha : ¬ isMultiplier a = true := by
        intro hmult
        have hletter := isAlpha_of_isMultiplier hmult
        rw [halpha a rfl] at hletter
        cases hletter
      simp [splitMultiplier, ha]
  | cons c rest =>
    have hahead : (rest ++ z).head?.any Char.isAlpha = rest.head?.any Char.isAlpha := by
      cases rest with
      | nil => rw [List.nil_append, hany]; rfl
      | cons b rest => rfl
    simp only [List.cons_append, splitMultiplier, hahead]
    split_ifs
    · rfl
    · rfl

theorem text_tokenOf (tail : List Char) : (tokenOf tail).text = tail.takeWhile isFigure ++
    (pointed (splitFraction (tail.dropWhile isFigure)).1 ++
      (splitMultiplier (splitFraction (tail.dropWhile isFigure)).2).1) := rfl

/-- The token stays, but for a comma that it may take. -/
theorem moneyAt_closes (h : moneyAt text = some t) (hz : Closes z) :
    ∃ t', moneyAt (text ++ z) = some t' ∧ cleaned t'.text = cleaned t.text := by
  obtain ⟨a, tail, hdrop, rfl⟩ : ∃ a tail, text.dropWhile (fun c => !c.isDigit) = a :: tail ∧
      t = tokenOf (a :: tail) := by
    unfold moneyAt at h
    split at h
    · cases h
    · next a tail hdrop =>
      cases h
      exact ⟨a, tail, hdrop, rfl⟩
  have hlong : (text ++ z).dropWhile (fun c => !c.isDigit) = a :: (tail ++ z) := by
    have hstop : (a :: (tail ++ z)).dropWhile (fun c => !c.isDigit) = a :: (tail ++ z) := by
      have hhead := List.head?_dropWhile_not (fun c : Char => !c.isDigit) text
      rw [hdrop] at hhead
      exact List.dropWhile_cons_of_neg (by simpa using hhead)
    have htext : text ++ z = text.takeWhile (fun c => !c.isDigit) ++ a :: (tail ++ z) := by
      rw [← List.cons_append, ← hdrop, ← List.append_assoc, List.takeWhile_append_dropWhile]
    rw [htext, List.dropWhile_append_of_pos fun b hb =>
      List.mem_takeWhile_imp (p := fun c : Char => !c.isDigit) hb, hstop]
  refine ⟨tokenOf (a :: (tail ++ z)), ?_, ?_⟩
  · unfold moneyAt
    rw [hlong]
  rw [← List.cons_append]
  generalize a :: tail = x
  have hhead := hz.head
  by_cases hr : x.dropWhile isFigure = []
  · obtain ⟨w, z', rfl, hw, hz'⟩ := hz
    have hx : ∀ b ∈ x, isFigure b = true := List.dropWhile_eq_nil_iff.mp hr
    have hfigures : ∀ b ∈ x ++ w, isFigure b = true := by
      intro b hb
      rcases List.mem_append.mp hb with hb | hb
      · exact hx b hb
      · rw [hw b hb]
        decide
    obtain ⟨htake, hrest⟩ := run_ends hfigures fun b hb => (hz' b hb).1
    have hfraction : splitFraction z' = ([], z') :=
      splitFraction_append_of (fun b hb => (Bool.or_eq_false_iff.mp (hz' b hb).1).1)
        (fun b hb => (hz' b hb).2.1) []
    have hmultiplier : splitMultiplier z' = ([], z') :=
      splitMultiplier_append_of (fun b hb => (hz' b hb).2.2) []
    have hcommas : cleaned w = [] := by
      rw [cleaned_eq, List.filter_eq_nil_iff.mpr fun b hb => by rw [hw b hb]; decide]
      rfl
    have hwhole : x.takeWhile isFigure = x := List.takeWhile_eq_self_iff.mpr hx
    rw [← List.append_assoc, text_tokenOf, text_tokenOf, htake, hrest, hfraction, hmultiplier, hr,
      hwhole]
    change cleaned (x ++ w ++ []) = cleaned (x ++ [])
    rw [List.append_nil, List.append_nil, cleaned_append, hcommas, List.append_nil]
  · obtain ⟨htake, hrest⟩ : (x ++ z).takeWhile isFigure = x.takeWhile isFigure ∧
        (x ++ z).dropWhile isFigure = x.dropWhile isFigure ++ z := by
      obtain ⟨b, r, hbr⟩ := List.exists_cons_of_ne_nil hr
      have hb : ∀ c ∈ (b :: (r ++ z)).head?, isFigure c = false := by
        intro c hc
        cases hc
        have hhead := List.head?_dropWhile_not isFigure x
        rw [hbr] at hhead
        simpa using hhead
      have hends := run_ends (fun c hc => List.mem_takeWhile_imp (p := isFigure) (l := x) hc) hb
      rwa [← List.cons_append, ← hbr, ← List.append_assoc, List.takeWhile_append_dropWhile] at hends
    rw [text_tokenOf, text_tokenOf, htake, hrest,
      splitFraction_append_of (fun b hb => (hhead b hb).1) (fun b hb => (hhead b hb).2.1),
      splitMultiplier_append_of fun b hb => (hhead b hb).2.2]

end closing
end Akabbo.MoneyTokens
