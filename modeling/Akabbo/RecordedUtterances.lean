import Akabbo.SpokenClauses

/-!
# Utterances that are recorded

When an utterance comes to a payment or a pledge, and of which name and amount.
-/
namespace Akabbo.RecordedUtterances
open RegularExpressions TextPatterns PledgeStatus CaptureRouting Tier1Parser SpokenClauses

section collapse
variable {x y text : List Char}

theorem collapse_cons_space {a : Char} (ha : isSpace a = true) :
    collapse (a :: x) = if (collapse x).head? = some ' ' then collapse x else ' ' :: collapse x := by
  rw [collapse, if_pos ha]
  split
  · next more hmore =>
    rw [hmore]
    rfl
  · next more hmore =>
    have hhead : (collapse x).head? ≠ some ' ' := by
      intro hblank
      obtain ⟨more, hcons⟩ := List.head?_eq_some_iff.mp hblank
      exact hmore more hcons
    rw [if_neg hhead]

theorem collapse_cons_ink {a : Char} (ha : isSpace a = false) : collapse (a :: x) = a :: collapse x := by
  rw [collapse, if_neg (by rw [ha]; exact Bool.false_ne_true)]

theorem spaced_collapse (text : List Char) : Spaced (collapse text) := by
  induction text with
  | nil => exact ⟨nofun, .nil⟩
  | cons a text ih =>
    by_cases ha : isSpace a = true
    · rw [collapse_cons_space ha]
      split_ifs with hhead
      · exact ih
      · refine ⟨List.forall_mem_cons.mpr ⟨fun _ => rfl, ih.blank⟩, ?_⟩
        refine List.isChain_cons.mpr ⟨fun b hb => .inr ?_, ih.single⟩
        rintro rfl
        exact hhead hb
    · rw [Bool.not_eq_true] at ha
      rw [collapse_cons_ink ha]
      refine ⟨List.forall_mem_cons.mpr ⟨fun hspace => ?_, ih.blank⟩, ?_⟩
      · rw [ha] at hspace
        cases hspace
      · refine List.isChain_cons.mpr ⟨fun b _ => .inl ?_, ih.single⟩
        rintro rfl
        exact absurd ha (by decide)

theorem collapse_ne_nil (hne : x ≠ []) : collapse x ≠ [] := by
  obtain ⟨a, x, rfl⟩ := List.exists_cons_of_ne_nil hne
  by_cases ha : isSpace a = true
  · rw [collapse_cons_space ha]
    split_ifs with hhead
    · intro hnil
      rw [hnil] at hhead
      cases hhead
    · exact List.cons_ne_nil _ _
  · rw [Bool.not_eq_true] at ha
    rw [collapse_cons_ink ha]
    exact List.cons_ne_nil _ _

theorem head?_collapse (h : ∀ a ∈ y.head?, isSpace a = false) : (collapse y).head? = y.head? := by
  cases y with
  | nil => rfl
  | cons a y => rw [collapse_cons_ink (h a rfl)]; rfl

/-- Where a blank does not stand on both sides, the parts collapse on their own. -/
theorem collapse_append (h : (∀ a ∈ x.getLast?, isSpace a = false) ∨ ∀ a ∈ y.head?, isSpace a = false) :
    collapse (x ++ y) = collapse x ++ collapse y := by
  induction x with
  | nil => rfl
  | cons a x ih =>
    rcases eq_or_ne x [] with rfl | hx
    · rw [List.singleton_append]
      by_cases ha : isSpace a = true
      · have hy := h.resolve_left fun hlast => by
          rw [hlast a rfl] at ha
          cases ha
        have hhead : (collapse y).head? ≠ some ' ' := by
          rw [head?_collapse hy]
          intro hblank
          exact absurd (hy ' ' hblank) (by decide)
        rw [collapse_cons_space ha, if_neg hhead, collapse_cons_space ha]
        rfl
      · rw [Bool.not_eq_true] at ha
        rw [collapse_cons_ink ha, collapse_cons_ink ha]
        rfl
    · have hlast : (a :: x).getLast? = x.getLast? := by
        obtain ⟨b, x, rfl⟩ := List.exists_cons_of_ne_nil hx
        exact List.getLast?_cons_cons
      have hrest := ih (hlast ▸ h)
      rw [List.cons_append]
      by_cases ha : isSpace a = true
      · have hhead : (collapse x ++ collapse y).head? = (collapse x).head? :=
          List.head?_append_of_ne_nil _ (collapse_ne_nil hx)
        rw [collapse_cons_space ha, collapse_cons_space ha, hrest, hhead]
        split_ifs
        · rfl
        · rfl
      · rw [Bool.not_eq_true] at ha
        rw [collapse_cons_ink ha, collapse_cons_ink ha, hrest]
        rfl

theorem collapse_spaces (hne : x ≠ []) (hx : ∀ a ∈ x, isSpace a = true) : collapse x = [' '] := by
  induction x with
  | nil => exact absurd rfl hne
  | cons a x ih =>
    obtain ⟨ha, hx⟩ := List.forall_mem_cons.mp hx
    rw [collapse_cons_space ha]
    rcases eq_or_ne x [] with rfl | hxne
    · rfl
    · rw [ih hxne hx]
      rfl

theorem collapse_of_spaced (h : Spaced x) : collapse x = x := by
  induction x with
  | nil => rfl
  | cons a x ih =>
    have hrest : collapse x = x := ih (h.suffix (x := [a]))
    by_cases ha : isSpace a = true
    · have hblank := h.blank a List.mem_cons_self ha
      have hhead : x.head? ≠ some ' ' := by
        intro hhead
        have hpair := (List.isChain_cons.mp h.single).1 ' ' hhead
        simp [hblank] at hpair
      rw [collapse_cons_space ha, hrest, if_neg hhead, hblank]
    · rw [Bool.not_eq_true] at ha
      rw [collapse_cons_ink ha, hrest]

theorem length_collapse_le (x : List Char) : (collapse x).length ≤ x.length := by
  induction x with
  | nil => exact Nat.le_refl 0
  | cons a x ih =>
    by_cases ha : isSpace a = true
    · rw [collapse_cons_space ha]
      split_ifs
      · exact Nat.le_succ_of_le ih
      · exact Nat.succ_le_succ ih
    · rw [Bool.not_eq_true] at ha
      rw [collapse_cons_ink ha]
      exact Nat.succ_le_succ ih

theorem inked_collapse (h : Inked x) : Inked (collapse x) := by
  refine ⟨?_, ?_⟩
  · rw [head?_collapse h.first]
    exact h.first
  · rcases List.eq_nil_or_concat x with rfl | ⟨t, a, rfl⟩
    · exact h.last
    · rw [List.concat_eq_append] at h ⊢
      have ha : isSpace a = false := h.last a (by simp)
      rw [collapse_append (.inr (by simpa using ha)), collapse_cons_ink ha]
      simpa [collapse] using ha

end collapse

/-- The text that the parser reads. -/
def normalText (utterance : String) : List Char := collapse (trim utterance.toList)

/-- The sentence asks for the summary or for a balance. -/
def asks (text : List Char) : Bool :=
  summaryPattern.test text || (owesName text).isSome || outstandingPattern.test text

def isRecord : ToolCall → Bool
  | .recordPayment .. => true
  | .recordPledge .. => true
  | _ => false

/-- What a clause comes to; a clause in kind, without an amount or of no name comes to nothing. -/
structure Recorded (clause : Clause) (amount : ℕ) : Prop where
  cash : inKindPattern.test clause.rest = false
  extracted : extractAmount clause.rest = some amount
  positive : 0 < amount
  named : trim clause.name ≠ []
  person : looksLikeAmount (trim clause.name) = false

section recorded
variable {text : List Char} {clause : Clause} {call : ToolCall}

theorem isRecord_addPerson (h : addPerson text = some call) : isRecord call = false := by
  unfold addPerson at h
  simp only [Option.bind_eq_bind, Option.bind_eq_some_iff, Option.ite_none_right_eq_some,
    Option.some.injEq] at h
  obtain ⟨groups, -, -, rfl⟩ := h
  rfl

theorem recordCall_eq_some {verb name : List Char} {amount : ℕ}
    (h : recordCall name verb amount = some call) : isRecord call = true := by
  unfold recordCall at h
  split_ifs at h with hpaid hpledged
  · cases h
    rfl
  · cases h
    rfl

theorem toLowerCase_of_isVerb {verb : List Char} (h : IsVerb verb) :
    String.ofList (toLowerCase verb) ∈ paymentVerbs ++ pledgeVerbs := by
  have hall : ∀ word ∈ (paymentVerbs ++ pledgeVerbs).map String.toList,
      ∀ a ∈ word, a.toNat ≠ 8490 := forall_mem_words_of_all (by decide)
  have hlower : toLowerCase verb = verb.map Char.toLower := by
    refine List.map_congr_left fun a ha => ?_
    have hne : a.toNat ≠ 8490 := by
      intro hkelvin
      have ha' : a.toLower = a := by
        unfold Char.toLower
        rw [dif_neg]
        rintro ⟨-, hle⟩
        have : a.toNat ≤ 90 := hle
        omega
      exact hall _ h _ (List.mem_map_of_mem ha) (by rw [ha', hkelvin])
    exact if_neg hne
  rw [hlower]
  obtain ⟨word, hword, hverb⟩ := List.mem_map.mp h
  rw [← hverb, String.ofList_toList]
  exact hword

theorem recordCall_isSome {verb : List Char} (h : IsVerb verb) (name : List Char) (amount : ℕ) :
    ∃ call, recordCall name verb amount = some call ∧ isRecord call = true := by
  unfold recordCall
  by_cases hpaid : String.ofList (toLowerCase verb) ∈ paymentVerbs
  · exact ⟨_, if_pos hpaid, rfl⟩
  · have hpledged := (List.mem_append.mp (toLowerCase_of_isVerb h)).resolve_left hpaid
    exact ⟨_, (if_neg hpaid).trans (if_pos hpledged), rfl⟩

theorem isVerb_splitAfter {name : List Char} (h : splitAfter name text = some clause) :
    IsVerb clause.verb := by
  induction text generalizing name with
  | nil => cases h
  | cons a text ih =>
    rw [splitAfter] at h
    split at h
    · next verb rest hat =>
      cases h
      exact (verbAt_eq_some.mp hat).1
    · exact ih h

theorem isVerb_clauseOf (h : clauseOf text = some clause) : IsVerb clause.verb := by
  have hsplit {text : List Char} (h : splitVerb text = some clause) : IsVerb clause.verb := by
    cases text with
    | nil => cases h
    | cons a text => exact isVerb_splitAfter h
  rcases Option.or_eq_some_iff.mp h with hcommand | ⟨-, hplain⟩
  · obtain ⟨rest, -, hrest⟩ := Option.bind_eq_some_iff.mp hcommand
    exact hsplit hrest
  · exact hsplit hplain

theorem recordMatch_eq (h : Spaced text) : recordMatch text = (clauseOf text).bind fun clause =>
    if inKindPattern.test clause.rest then some none
    else (extractAmount clause.rest).bind fun amount =>
      if (trim clause.name).isEmpty || looksLikeAmount (trim clause.name) || amount == 0 then none
      else (recordCall (trim clause.name) clause.verb amount).map some := by
  unfold recordMatch
  rw [exec_verbPattern h]
  cases clauseOf text with
  | none => rfl
  | some clause => rfl

theorem recordMatch_eq_some (h : Spaced text) : recordMatch text = some (some call) ↔
    ∃ clause amount, clauseOf text = some clause ∧ Recorded clause amount ∧
      recordCall (trim clause.name) clause.verb amount = some call := by
  rw [recordMatch_eq h, Option.bind_eq_some_iff]
  refine exists_congr fun clause => ?_
  constructor
  · rintro ⟨hclause, hcall⟩
    split_ifs at hcall with hkind
    · cases hcall
    · obtain ⟨amount, hamount, hread⟩ := Option.bind_eq_some_iff.mp hcall
      split_ifs at hread with hwrong
      simp only [Option.map_eq_some_iff, Option.some.injEq] at hread
      obtain ⟨call', hread, rfl⟩ := hread
      simp only [Bool.or_eq_true, List.isEmpty_iff, beq_iff_eq, not_or, Bool.not_eq_true]
        at hwrong hkind
      exact ⟨amount, hclause,
        ⟨hkind, hamount, Nat.pos_of_ne_zero hwrong.2, hwrong.1.1, hwrong.1.2⟩, hread⟩
  · rintro ⟨amount, hclause, hrecorded, hcall⟩
    refine ⟨hclause, ?_⟩
    have hpositive := hrecorded.positive
    have hright : ¬ ((trim clause.name).isEmpty || looksLikeAmount (trim clause.name) ||
        amount == 0) = true := by
      simp only [Bool.or_eq_true, List.isEmpty_iff, beq_iff_eq, not_or]
      exact ⟨⟨hrecorded.named, by rw [hrecorded.person]; exact Bool.false_ne_true⟩, by omega⟩
    rw [if_neg (by rw [hrecorded.cash]; exact Bool.false_ne_true), hrecorded.extracted,
      Option.bind_some, if_neg hright, hcall]
    rfl

theorem parseText_of_asks (hasks : asks text = true) (h : parseText text = some call) :
    isRecord call = false := by
  unfold parseText at h
  by_cases hempty : text.isEmpty = true
  · rw [if_pos hempty] at h
    cases h
  rw [if_neg hempty] at h
  by_cases hsummary : summaryPattern.test text = true
  · rw [if_pos hsummary] at h
    cases h
    rfl
  rw [if_neg hsummary] at h
  cases howes : owesName text with
  | some name =>
    rw [howes] at h
    cases h
    rfl
  | none =>
    have houtstanding : outstandingPattern.test text = true := by
      unfold asks at hasks
      rw [howes] at hasks
      simpa [hsummary] using hasks
    rw [howes] at h
    dsimp only at h
    rw [if_pos houtstanding] at h
    cases h
    rfl

theorem parseText_of_not_asks (hne : text ≠ []) (hasks : asks text = false) :
    parseText text = match recordMatch text with
      | some call => call
      | none => addPerson text := by
  have hparts : summaryPattern.test text = false ∧ owesName text = none ∧
      outstandingPattern.test text = false := by
    unfold asks at hasks
    simpa [and_assoc] using hasks
  obtain ⟨hsummary, howes, houtstanding⟩ := hparts
  unfold parseText
  rw [if_neg (by simpa using hne), if_neg (by rw [hsummary]; exact Bool.false_ne_true), howes]
  dsimp only
  refine (if_neg (by rw [houtstanding]; exact Bool.false_ne_true)).trans ?_
  cases recordMatch text with
  | none => rfl
  | some call => rfl

/-- An utterance is recorded where it asks nothing and has a clause that can be. -/
theorem parseText_record (h : Spaced text) :
    parseText text = some call ∧ isRecord call = true ↔ asks text = false ∧
      ∃ clause amount, clauseOf text = some clause ∧ Recorded clause amount ∧
        recordCall (trim clause.name) clause.verb amount = some call := by
  rw [← recordMatch_eq_some h]
  constructor
  · rintro ⟨hcall, hrecord⟩
    have hasks : asks text = false := by
      rw [Bool.eq_false_iff]
      intro hasks
      rw [parseText_of_asks hasks hcall] at hrecord
      cases hrecord
    have hne : text ≠ [] := by
      rintro rfl
      cases hcall
    rw [parseText_of_not_asks hne hasks] at hcall
    refine ⟨hasks, ?_⟩
    cases hmatch : recordMatch text with
    | none =>
      rw [hmatch] at hcall
      rw [isRecord_addPerson hcall] at hrecord
      cases hrecord
    | some call' =>
      rw [hmatch] at hcall
      exact congrArg some hcall
  · rintro ⟨hasks, hmatch⟩
    have hne : text ≠ [] := by
      rintro rfl
      rw [recordMatch_eq h] at hmatch
      cases hmatch
    obtain ⟨clause, amount, -, -, hcall⟩ := (recordMatch_eq_some h).mp hmatch
    rw [parseText_of_not_asks hne hasks, hmatch]
    exact ⟨rfl, recordCall_eq_some hcall⟩

end recorded
end Akabbo.RecordedUtterances
