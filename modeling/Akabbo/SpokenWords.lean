import Akabbo.JoinedUtterances

/-!
# The words of an utterance

What the parser reads is the words of an utterance with one blank between any two, and its clause
is found word by word.
-/
namespace Akabbo.SpokenWords
open TextPatterns Tier1Parser SpokenClauses RecordedUtterances JoinedUtterances

def words (text : List Char) : List (List Char) := (text.splitOnP isSpace).filter (· ≠ [])

/-- The words with a blank between any two. -/
def joined : List (List Char) → List Char
  | [] => []
  | [word] => word
  | word :: next :: rest => word ++ ' ' :: joined (next :: rest)

structure IsSpelled (word : List Char) : Prop where
  ne : word ≠ []
  ink : ∀ a ∈ word, isSpace a = false

section words
variable {x y text word : List Char} {ws vs : List (List Char)} {a : Char}

/-- White space stands between words. -/
theorem words_append_space (ha : isSpace a = true) (x y : List Char) :
    words (x ++ a :: y) = words x ++ words y := by
  unfold words
  rw [List.splitOnP_append_cons x y ha, List.filter_append]

theorem words_cons_space (ha : isSpace a = true) : words (a :: x) = words x :=
  words_append_space ha [] x

theorem words_of_ink (h : IsSpelled word) : words word = [word] := by
  unfold words
  rw [List.splitOnP_eq_singleton h.ink]
  simp [h.ne]

theorem words_spaces_append (hx : ∀ a ∈ x, isSpace a = true) : words (x ++ y) = words y := by
  induction x with
  | nil => rfl
  | cons a x ih =>
    obtain ⟨ha, hx⟩ := List.forall_mem_cons.mp hx
    rw [List.cons_append, words_cons_space ha, ih hx]

theorem words_spaces (hx : ∀ a ∈ x, isSpace a = true) : words x = [] := by
  have hnil := words_spaces_append (y := []) hx
  rwa [List.append_nil] at hnil

theorem words_append_spaces (hx : ∀ a ∈ x, isSpace a = true) : words (y ++ x) = words y := by
  cases x with
  | nil => rw [List.append_nil]
  | cons a x =>
    obtain ⟨ha, hx⟩ := List.forall_mem_cons.mp hx
    rw [words_append_space ha, words_spaces hx, List.append_nil]

/-- A word, white space and what goes on. -/
theorem words_append_run (h : IsSpelled word) (hne : x ≠ []) (hx : ∀ a ∈ x, isSpace a = true) :
    words (word ++ (x ++ y)) = word :: words y := by
  obtain ⟨a, x, rfl⟩ := List.exists_cons_of_ne_nil hne
  obtain ⟨ha, hx⟩ := List.forall_mem_cons.mp hx
  rw [List.cons_append, words_append_space ha, words_of_ink h, words_spaces_append hx]
  rfl

/-- A letter before white space is a word, and before another letter begins its word. -/
theorem words_cons_ink (ha : isSpace a = false) : words (a :: x) =
    if x.head?.all isSpace then [a] :: words x else (words x).modifyHead (a :: ·) := by
  have hself : IsSpelled [a] := ⟨List.cons_ne_nil _ _, by simpa using ha⟩
  cases x with
  | nil => exact words_of_ink hself
  | cons b x =>
    by_cases hb : isSpace b = true
    · rw [List.head?_cons, Option.all_some, if_pos hb, words_cons_space hb]
      rw [← List.singleton_append, words_append_space hb, words_of_ink hself]
      rfl
    · rw [List.head?_cons, Option.all_some, if_neg hb]
      unfold words
      obtain ⟨first, rest, hsplit⟩ := List.exists_cons_of_ne_nil (List.splitOnP_ne_nil isSpace x)
      rw [List.splitOnP_cons_eq_if_modifyHead, if_neg (by rw [ha]; exact Bool.false_ne_true),
        List.splitOnP_cons_eq_if_modifyHead, if_neg hb, hsplit]
      simp

theorem isSpelled_of_mem (h : word ∈ words text) : IsSpelled word := by
  induction text generalizing word with
  | nil => cases h
  | cons a text ih =>
    by_cases ha : isSpace a = true
    · rw [words_cons_space ha] at h
      exact ih h
    · rw [Bool.not_eq_true] at ha
      rw [words_cons_ink ha] at h
      split_ifs at h
      · rcases List.mem_cons.mp h with rfl | h
        · exact ⟨List.cons_ne_nil _ _, by simpa using ha⟩
        · exact ih h
      · cases hwords : words text with
        | nil =>
          rw [hwords] at h
          cases h
        | cons first rest =>
          rw [hwords] at h
          have hmem (w : List Char) (hw : w ∈ first :: rest) : IsSpelled w := ih (hwords ▸ hw)
          rcases List.mem_cons.mp h with rfl | h
          · refine ⟨List.cons_ne_nil _ _, List.forall_mem_cons.mpr ⟨ha, ?_⟩⟩
            exact (hmem first List.mem_cons_self).ink
          · exact hmem word (List.mem_cons_of_mem _ h)

theorem words_ne_nil (hmem : a ∈ text) (ha : isSpace a = false) : words text ≠ [] := by
  induction text generalizing a with
  | nil => cases hmem
  | cons b text ih =>
    by_cases hb : isSpace b = true
    · rw [words_cons_space hb]
      refine ih ((List.mem_cons.mp hmem).resolve_left ?_) ha
      rintro rfl
      rw [ha] at hb
      cases hb
    · rw [words_cons_ink (Bool.eq_false_iff.mpr hb)]
      split_ifs with hhead
      · exact List.cons_ne_nil _ _
      · cases text with
        | nil => exact absurd rfl hhead
        | cons c text =>
          have hc : isSpace c = false := by simpa using hhead
          have hrest := ih List.mem_cons_self hc
          obtain ⟨first, rest, hwords⟩ := List.exists_cons_of_ne_nil hrest
          rw [hwords]
          exact List.cons_ne_nil _ _

theorem joined_cons (hne : ws ≠ []) : joined (word :: ws) = word ++ ' ' :: joined ws := by
  obtain ⟨w, ws, rfl⟩ := List.exists_cons_of_ne_nil hne
  rfl

theorem joined_append (hws : ws ≠ []) (hvs : vs ≠ []) :
    joined (ws ++ vs) = joined ws ++ ' ' :: joined vs := by
  induction ws with
  | nil => exact absurd rfl hws
  | cons w ws ih =>
    rcases eq_or_ne ws [] with rfl | hne
    · exact joined_cons hvs
    · rw [List.cons_append, joined_cons (List.append_ne_nil_of_left_ne_nil hne _), ih hne,
        joined_cons hne, List.append_assoc]
      rfl

theorem words_joined (h : ∀ word ∈ ws, IsSpelled word) : words (joined ws) = ws := by
  induction ws with
  | nil => rfl
  | cons w ws ih =>
    obtain ⟨hw, hws⟩ := List.forall_mem_cons.mp h
    rcases eq_or_ne ws [] with rfl | hne
    · exact words_of_ink hw
    · rw [joined_cons hne, words_append_space (by decide), words_of_ink hw, ih hws]
      rfl

/-- What joined words begin with is no white space. -/
theorem head?_joined (h : ∀ word ∈ ws, IsSpelled word) : ∀ a ∈ (joined ws).head?, isSpace a = false := by
  cases ws with
  | nil => nofun
  | cons w ws =>
    have hw := h w List.mem_cons_self
    rcases eq_or_ne ws [] with rfl | hne
    · exact fun a ha => hw.ink a (List.mem_of_mem_head? ha)
    · rw [joined_cons hne, List.head?_append_of_ne_nil _ hw.ne]
      exact fun a ha => hw.ink a (List.mem_of_mem_head? ha)

theorem joined_ne_nil (h : ∀ word ∈ ws, IsSpelled word) (hne : ws ≠ []) : joined ws ≠ [] := by
  intro hnil
  have hwords := words_joined h
  rw [hnil] at hwords
  exact hne hwords.symm

theorem getLast?_joined (h : ∀ word ∈ ws, IsSpelled word) :
    ∀ a ∈ (joined ws).getLast?, isSpace a = false := by
  induction ws with
  | nil => nofun
  | cons w ws ih =>
    obtain ⟨hw, hws⟩ := List.forall_mem_cons.mp h
    rcases eq_or_ne ws [] with rfl | hne
    · exact fun a ha => hw.ink a (List.mem_of_getLast? ha)
    · rw [joined_cons hne, ← List.singleton_append, ← List.append_assoc,
        List.getLast?_append_of_ne_nil _ (joined_ne_nil hws hne)]
      exact ih hws

/-- Collapsing joins the words, after a blank where white space leads. -/
theorem collapse_eq (h : ∀ a ∈ x.getLast?, isSpace a = false) :
    collapse x = if x.head?.any isSpace then ' ' :: joined (words x) else joined (words x) := by
  induction x with
  | nil => rfl
  | cons a x ih =>
    rcases eq_or_ne x [] with rfl | hne
    · have ha : isSpace a = false := h a rfl
      rw [collapse_cons_ink ha, words_of_ink ⟨List.cons_ne_nil _ _, by simpa using ha⟩]
      simp [ha, collapse, joined]
    · have hlast : (a :: x).getLast? = x.getLast? := by
        obtain ⟨b, x, rfl⟩ := List.exists_cons_of_ne_nil hne
        exact List.getLast?_cons_cons
      have hx := ih (hlast ▸ h)
      obtain ⟨b, hb⟩ : ∃ b, x.getLast? = some b := ⟨_, List.getLast?_eq_some_getLast hne⟩
      have hwords : words x ≠ [] := words_ne_nil (List.mem_of_getLast? hb) (h b (by rw [hlast, hb]; rfl))
      have hfirst : ∀ b ∈ (joined (words x)).head?, isSpace b = false :=
        head?_joined fun w => isSpelled_of_mem
      by_cases ha : isSpace a = true
      · rw [collapse_cons_space ha, words_cons_space ha, hx, List.head?_cons, Option.any_some, if_pos ha]
        by_cases hhead : x.head?.any isSpace = true
        · rw [if_pos hhead]
          simp
        · rw [if_neg hhead, if_neg]
          intro hblank
          exact absurd (hfirst ' ' hblank) (by decide)
      · rw [List.head?_cons, Option.any_some, if_neg ha]
        rw [Bool.not_eq_true] at ha
        obtain ⟨c, x, rfl⟩ := List.exists_cons_of_ne_nil hne
        rw [collapse_cons_ink ha, words_cons_ink ha, hx, List.head?_cons, Option.any_some,
          Option.all_some]
        by_cases hc : isSpace c = true
        · rw [if_pos hc, if_pos hc, joined_cons hwords]
          rfl
        · rw [if_neg hc, if_neg hc]
          obtain ⟨first, rest, hsplit⟩ := List.exists_cons_of_ne_nil hwords
          rw [hsplit, List.modifyHead_cons]
          rcases eq_or_ne rest [] with rfl | hrest
          · rfl
          · rw [joined_cons hrest, joined_cons hrest]
            rfl

/-- The text that the parser reads is the words of the utterance. -/
theorem normalText_eq (utterance : String) :
    normalText utterance = joined (words utterance.toList) := by
  obtain ⟨lead, trail, hlead, htrail, hsplit⟩ := exists_trim utterance.toList
  have hink := inked_trim utterance.toList
  have hwords : words utterance.toList = words (trim utterance.toList) := by
    have htext := congrArg words hsplit
    rwa [List.append_assoc, words_spaces_append hlead, words_append_spaces htrail] at htext
  have hfirst : ¬ (trim utterance.toList).head?.any isSpace = true := by
    rw [Option.any_eq_true]
    rintro ⟨a, ha, hspace⟩
    rw [hink.first a ha] at hspace
    cases hspace
  unfold normalText
  rw [hwords, collapse_eq hink.last, if_neg hfirst]

end words

abbrev Words := List (List Char)

/-- The first verb after the first word, where something follows it. -/
structure AtVerb (ws name : Words) (verb : List Char) (what : Words) : Prop where
  words : ws = name ++ verb :: what
  isVerb : IsVerb verb
  named : name ≠ []
  goesOn : what ≠ []
  first : ∀ word ∈ name.tail, ¬ IsVerb word

def IsCommand (word : List Char) : Prop := word.map Char.toLower ∈ commands

/-- Who is spoken of and what is said: the words before and after the first verb, less a command
before them if that leaves a name. -/
inductive Said (ws name what : Words) : Prop
  | commanded {command : List Char} {rest : Words} {verb : List Char} (hws : ws = command :: rest)
      (hcommand : IsCommand command) (h : AtVerb rest name verb what)
  | plain {verb : List Char} (hbare : ∀ command rest name verb what, ws = command :: rest →
      IsCommand command → ¬ AtVerb rest name verb what) (h : AtVerb ws name verb what)

section clauses
variable {ws name what : Words} {verb : List Char} {clause : Clause}

theorem splitVerb_joined (h : AtVerb ws name verb what) (hws : ∀ word ∈ ws, IsSpelled word) :
    splitVerb (joined ws) = some ⟨joined name, verb, joined what⟩ := by
  obtain ⟨hsplit, hverb, hne, hwhat, hfirst⟩ := h
  subst hsplit
  have hnames : ∀ word ∈ name, IsSpelled word := fun w hw => hws w (List.mem_append_left _ hw)
  have hwhats : ∀ word ∈ what, IsSpelled word := fun w hw =>
    hws w (List.mem_append_right _ (List.mem_cons_of_mem _ hw))
  rw [joined_append hne (List.cons_ne_nil _ _), joined_cons hwhat]
  obtain ⟨a, text, htext⟩ := List.exists_cons_of_ne_nil (joined_ne_nil hnames hne)
  have hname := words_joined hnames
  rw [htext] at hname ⊢
  refine splitAfter_first hverb (joined_ne_nil hwhats hwhat) fun u v huv hv => ?_
  rw [Option.eq_none_iff_forall_ne_some]
  rintro ⟨verb', rest⟩ hat
  obtain ⟨hverb', -, hmatch⟩ := verbAt_eq_some.mp hat
  obtain ⟨b, v, rfl⟩ := List.exists_cons_of_ne_nil hv
  obtain ⟨rfl, hsame⟩ := List.cons.inj hmatch
  have hink : ∀ a ∈ verb', isSpace a = false := fun a ha => (ink_of_isVerb hverb' a ha).1
  have hspelled : IsSpelled verb' := ⟨by rintro rfl; exact absurd hverb' (by decide), hink⟩
  -- the verb would be a whole word of the name, and not its first
  obtain ⟨z, rfl, hz⟩ : ∃ z, v = verb' ++ z ∧ ∀ a ∈ z.head?, a = ' ' := by
    rcases List.append_eq_append_iff.mp hsame with ⟨q, hq, hrest⟩ | ⟨z, hz, hrest⟩
    · cases q with
      | nil => exact ⟨[], by rw [hq]; simp, nofun⟩
      | cons c q =>
        obtain ⟨rfl, -⟩ := List.cons.inj hrest
        exact absurd (hink ' ' (by rw [hq]; simp)) (by decide)
    · refine ⟨z, hz, fun a ha => ?_⟩
      obtain ⟨more, rfl⟩ := List.head?_eq_some_iff.mp ha
      exact (List.cons.inj hrest).1.symm
  subst huv
  have hfound : verb' ∈ words (verb' ++ z) := by
    cases z with
    | nil => rw [List.append_nil, words_of_ink hspelled]; exact List.mem_singleton_self _
    | cons c z =>
      rw [hz c rfl, words_append_space (by decide), words_of_ink hspelled]
      exact List.mem_cons_self
  have ha : isSpace a = false := head?_joined hnames a (by rw [htext]; rfl)
  obtain ⟨w, ws, hw⟩ := List.exists_cons_of_ne_nil
    (words_ne_nil (show a ∈ a :: u from List.mem_cons_self) ha)
  rw [← List.cons_append, words_append_space (by decide), hw] at hname
  refine hfirst verb' ?_ hverb'
  rw [← hname]
  exact List.mem_append_right ws hfound

/-- A verb that something follows has a first one before it, or is it. -/
theorem exists_first {l : Words} (hverb : IsVerb verb) (hwhat : what ≠ []) : ∃ name verb' what',
    l ++ verb :: what = name ++ verb' :: what' ∧ IsVerb verb' ∧ what' ≠ [] ∧
      ∀ word ∈ name, ¬ IsVerb word := by
  induction l with
  | nil => exact ⟨[], verb, what, rfl, hverb, hwhat, nofun⟩
  | cons w l ih =>
    by_cases hw : IsVerb w
    · exact ⟨[], w, l ++ verb :: what, rfl, hw, by simp, nofun⟩
    · obtain ⟨name, verb', what', hsplit, hrest⟩ := ih
      refine ⟨w :: name, verb', what', by rw [List.cons_append, hsplit]; rfl, hrest.1, hrest.2.1, ?_⟩
      exact List.forall_mem_cons.mpr ⟨hw, hrest.2.2⟩

theorem exists_atVerb (hname : name ≠ []) (hverb : IsVerb verb) (hwhat : what ≠ []) :
    ∃ name' verb' what', AtVerb (name ++ verb :: what) name' verb' what' := by
  obtain ⟨w, l, rfl⟩ := List.exists_cons_of_ne_nil hname
  obtain ⟨name', verb', what', hsplit, hverb', hwhat', hfirst⟩ :=
    exists_first (l := l) hverb hwhat
  exact ⟨w :: name', verb', what', by rw [List.cons_append, hsplit]; rfl, hverb',
    List.cons_ne_nil _ _, hwhat', hfirst⟩

theorem atVerb_of_splitVerb (hws : ∀ word ∈ ws, IsSpelled word)
    (h : splitVerb (joined ws) = some clause) : ∃ name verb what, AtVerb ws name verb what := by
  obtain ⟨hverb, hrest, hname, htext⟩ := splitVerb_eq_some h
  have hwords := words_joined hws
  have hink := ink_of_isVerb hverb
  have hspelled : IsSpelled clause.verb :=
    ⟨fun hnil => absurd (hnil ▸ hverb) (by decide), fun a ha => (hink a ha).1⟩
  rw [htext, words_append_space (by decide), words_append_space (by decide),
    words_of_ink hspelled] at hwords
  have hnamed : words clause.name ≠ [] := by
    obtain ⟨a, name, hcons⟩ := List.exists_cons_of_ne_nil hname
    refine words_ne_nil (a := a) (by rw [hcons]; exact List.mem_cons_self) ?_
    exact head?_joined hws a (by rw [htext, hcons]; rfl)
  have hsaid : words clause.rest ≠ [] := by
    obtain ⟨a, ha⟩ : ∃ a, clause.rest.getLast? = some a :=
      ⟨_, List.getLast?_eq_some_getLast hrest⟩
    refine words_ne_nil (List.mem_of_getLast? ha) (getLast?_joined hws a ?_)
    have hlast : (joined ws).getLast? = clause.rest.getLast? := by
      have hends : joined ws =
          (clause.name ++ ' ' :: (clause.verb ++ [' '])) ++ clause.rest := by
        rw [htext]
        simp
      rw [hends, List.getLast?_append_of_ne_nil _ hrest]
    rw [hlast]
    exact ha
  obtain ⟨name, verb, what, hat⟩ := exists_atVerb hnamed hverb hsaid
  exact ⟨name, verb, what, hwords ▸ hat⟩

/-- A text that a command leads is its word and the words after it. -/
theorem command_of_commandRest {text : List Char} (hws : ∀ word ∈ ws, IsSpelled word)
    (h : commandRest (joined ws) = some text) : ∃ command rest, ws = command :: rest ∧
      IsCommand command ∧ text = joined rest := by
  obtain ⟨command, hcommand, htext⟩ := commandRest_eq_some.mp h
  have hall : ∀ word ∈ commands, ' ' ∉ word := by decide
  have hblank : ' ' ∉ command := fun hmem => hall _ hcommand (List.mem_map_of_mem hmem)
  cases ws with
  | nil => cases command <;> cases htext
  | cons w rest =>
    have hw := hws w List.mem_cons_self
    have hself : ' ' ∉ w := fun hmem => absurd (hw.ink ' ' hmem) (by decide)
    rcases eq_or_ne rest [] with rfl | hne
    · have hmem : ' ' ∈ joined [w] := by
        rw [htext]
        simp
      exact absurd hmem hself
    · rw [joined_cons hne] at htext
      rcases List.append_eq_append_iff.mp htext with ⟨q, hq, hrest⟩ | ⟨q, hq, hrest⟩
      · cases q with
        | nil =>
          rw [List.append_nil] at hq
          subst hq
          exact ⟨command, rest, rfl, hcommand, (List.cons.inj hrest).2.symm⟩
        | cons c q =>
          obtain ⟨rfl, -⟩ := List.cons.inj hrest
          exact absurd (by rw [hq]; simp) hblank
      · cases q with
        | nil =>
          rw [List.append_nil] at hq
          subst hq
          exact ⟨w, rest, rfl, hcommand, (List.cons.inj hrest).2⟩
        | cons c q =>
          obtain ⟨rfl, -⟩ := List.cons.inj hrest
          exact absurd (by rw [hq]; simp) hself

/-- The clause of joined words is what they say. -/
theorem clauseOf_joined (h : Said ws name what) (hws : ∀ word ∈ ws, IsSpelled word) :
    ∃ verb, clauseOf (joined ws) = some ⟨joined name, verb, joined what⟩ := by
  cases h with
  | @commanded command rest verb hsplit hcommand hat =>
    subst hsplit
    have hne : rest ≠ [] := by
      rw [hat.words]
      simp
    have hrest : commandRest (joined (command :: rest)) = some (joined rest) :=
      commandRest_eq_some.mpr ⟨command, hcommand, joined_cons hne⟩
    refine ⟨verb, ?_⟩
    unfold clauseOf
    rw [hrest, Option.bind_some,
      splitVerb_joined hat fun w hw => hws w (List.mem_cons_of_mem _ hw)]
    rfl
  | @plain verb hbare hat =>
    refine ⟨verb, ?_⟩
    unfold clauseOf
    have hnone : (commandRest (joined ws)).bind splitVerb = none := by
      rw [Option.bind_eq_none_iff]
      intro text htext
      obtain ⟨command, rest, rfl, hcommand, rfl⟩ := command_of_commandRest hws htext
      rw [Option.eq_none_iff_forall_ne_some]
      intro clause hclause
      obtain ⟨name', verb', what', hat'⟩ :=
        atVerb_of_splitVerb (fun w hw => hws w (List.mem_cons_of_mem _ hw)) hclause
      exact hbare command rest name' verb' what' rfl hcommand hat'
    rw [hnone, splitVerb_joined hat hws]
    rfl

theorem Said.atVerb (h : Said ws name what) (hws : ∀ word ∈ ws, IsSpelled word) :
    ∃ rest verb, AtVerb rest name verb what ∧ ∀ word ∈ rest, IsSpelled word := by
  cases h with
  | @commanded command rest verb hsplit hcommand hat =>
    subst hsplit
    exact ⟨rest, verb, hat, fun w hw => hws w (List.mem_cons_of_mem _ hw)⟩
  | @plain verb hbare hat => exact ⟨ws, verb, hat, hws⟩

theorem exists_said (hname : name ≠ []) (hverb : IsVerb verb) (hwhat : what ≠ []) :
    ∃ name' what', Said (name ++ verb :: what) name' what' := by
  by_cases hcommanded : ∃ command rest name' verb' what', name ++ verb :: what = command :: rest ∧
      IsCommand command ∧ AtVerb rest name' verb' what'
  · obtain ⟨command, rest, name', verb', what', hws, hcommand, hat⟩ := hcommanded
    exact ⟨name', what', .commanded hws hcommand hat⟩
  · obtain ⟨name', verb', what', hat⟩ := exists_atVerb hname hverb hwhat
    refine ⟨name', what', .plain (fun command rest n v w hws hcommand hrest => ?_) hat⟩
    exact hcommanded ⟨command, rest, n, v, w, hws, hcommand, hrest⟩

/-- Of somebody whose name is no command and holds no verb, everything after the verb is said. -/
theorem said_of_plain (hname : name ≠ []) (hcommand : ∀ word ∈ name.head?, ¬ IsCommand word)
    (hverbs : ∀ word ∈ name, ¬ IsVerb word) (hverb : IsVerb verb) (hwhat : what ≠ []) :
    Said (name ++ verb :: what) name what := by
  refine .plain (fun command rest _ _ _ hws hword _ => ?_) ⟨rfl, hverb, hname, hwhat, fun w hw =>
    hverbs w (List.mem_of_mem_tail hw)⟩
  obtain ⟨w, l, rfl⟩ := List.exists_cons_of_ne_nil hname
  obtain ⟨rfl, -⟩ := List.cons.inj hws
  exact hcommand w rfl hword

end clauses

end Akabbo.SpokenWords
