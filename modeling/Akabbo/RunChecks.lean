import Akabbo.FirstClaim

/-!
# Runs whose moves are written out

What a condition asks of such a run is checked move by move: which call is about to move, whether
it has come to a commit or to its end, and there whether what it has read still reads the same.
-/
namespace Akabbo.RunChecks
open StatementProgram ReadCommitted FirstClaim

variable {κ σ ε ρ : Type}

/-- The call that is about to move, while it is open. -/
def mover (sys : System κ σ ε ρ) : Move → Option (Session κ σ ε ρ)
  | .advance t => match sys.slots[t]? with
    | some (.running x) => some x
    | _ => none
  | .cutOff _ => none

/-- It has come to a commit of what it has written. -/
def commits (x : Session κ σ ε ρ) : Bool :=
  match x.rest with
  | .commit _ => x.dirty
  | _ => false

/-- It has come to such a commit, or to its end. -/
def about (x : Session κ σ ε ρ) : Bool :=
  match x.rest with
  | .pure _ => true
  | _ => commits x

def AllCurrent (s : σ) : List (Reading σ) → Prop
  | [] => True
  | r :: rest => r.Current s ∧ AllCurrent s rest

/-- Everything that the mover has read still reads the same. -/
def MoverCurrent (sys : System κ σ ε ρ) (m : Move) : Prop :=
  AllCurrent sys.committed (((mover sys m).map Session.readings).getD [])

/-- So at each of these places of the run. -/
def CurrentAt [DecidableEq κ] (sys : System κ σ ε ρ) (moves : List Move) : List ℕ → Prop
  | [] => True
  | k :: rest => MoverCurrent (sys.run (moves.take k)) (moves.getD k (.cutOff 0)) ∧
      CurrentAt sys moves rest

theorem moverCurrent_of_mem [DecidableEq κ] {sys : System κ σ ε ρ} {moves : List Move}
    {places : List ℕ} (h : CurrentAt sys moves places) {k : ℕ} (hk : k ∈ places) :
    MoverCurrent (sys.run (moves.take k)) (moves.getD k (.cutOff 0)) := by
  induction places with
  | nil => cases hk
  | cons k' rest ih =>
    rcases List.mem_cons.mp hk with rfl | hk
    · exact h.1
    · exact ih h.2 hk

theorem current_of_all {s : σ} {rs : List (Reading σ)} (h : AllCurrent s rs) :
    ∀ r ∈ rs, r.Current s := by
  induction rs with
  | nil => exact fun r hr => absurd hr List.not_mem_nil
  | cons r rest ih =>
    intro r' hr'
    rcases List.mem_cons.mp hr' with rfl | hr'
    · exact h.1
    · exact ih h.2 r' hr'

theorem about_of_applies {x : Session κ σ ε ρ} {r : Option ρ} (h : x.Applies r) : about x = true := by
  unfold about
  cases h with
  | returns hr => rw [hr]
  | commits hr hd => simp [commits, hr, hd]

theorem mover_of_running {sys : System κ σ ε ρ} {t : ℕ} {x : Session κ σ ε ρ}
    (h : sys.slots[t]? = some (.running x)) : mover sys (.advance t) = some x := by
  simp only [mover, h]

theorem mover_of_applied {sys : System κ σ ε ρ} {m : Move} {t : ℕ} {x : Session κ σ ε ρ}
    {r : Option ρ} (h : Applied sys m t x r) : mover sys m = some x := by
  obtain ⟨rfl, hslot, -⟩ := h
  exact mover_of_running hslot

theorem running_of_mover {sys : System κ σ ε ρ} {t : ℕ} {x : Session κ σ ε ρ}
    (h : mover sys (.advance t) = some x) : sys.slots[t]? = some (.running x) := by
  simp only [mover] at h
  split at h
  · next y hy => rw [hy, Option.some.inj h]
  · cases h

theorem applied_iff_commits {sys : System κ σ ε ρ} {t : ℕ} :
    (mover sys (.advance t)).any commits = true ↔ ∃ x, Applied sys (.advance t) t x none := by
  constructor
  · intro h
    obtain ⟨x, hx, hcommits⟩ := (Option.any_eq_true _ _).mp h
    refine ⟨x, rfl, running_of_mover hx, ?_⟩
    unfold commits at hcommits
    split at hcommits
    · next k hk => exact .commits hk hcommits
    · cases hcommits
  · rintro ⟨x, happ⟩
    rw [mover_of_applied happ, Option.any_some]
    cases happ.applies with
    | commits hr hd => simp [commits, hr, hd]

/-- What holds at each place holds wherever the run is split. -/
theorem at_each {P : List Move → Move → Prop} {moves before after : List Move} {m : Move}
    (h : ∀ k < moves.length, P (moves.take k) (moves.getD k (.cutOff 0)))
    (hmoves : moves = before ++ m :: after) : P before m := by
  have hplace := h before.length (by simp [hmoves])
  simpa [hmoves] using hplace

/-- In a run in which the moves of some calls apply something at these places only, every time on
current reads. -/
theorem current_at [DecidableEq κ] {sys : System κ σ ε ρ} {moves : List Move} (who : Move → Bool)
    (places : List ℕ)
    (hothers : ∀ k < moves.length, k ∉ places → who (moves.getD k (.cutOff 0)) = true →
      (mover (sys.run (moves.take k)) (moves.getD k (.cutOff 0))).any about = false)
    (hplaces : CurrentAt sys moves places)
    {before : List Move} {m : Move} {after : List Move} (hmoves : moves = before ++ m :: after)
    (hwho : who m = true) {t : ℕ} {x : Session κ σ ε ρ} {r : Option ρ}
    (happ : Applied (sys.run before) m t x r) : x.Current (sys.run before).committed := by
  have hlen : before.length < moves.length := by simp [hmoves]
  have htake : moves.take before.length = before := by simp [hmoves]
  have hget : moves.getD before.length (.cutOff 0) = m := by simp [hmoves]
  have hmover := mover_of_applied happ
  by_cases hk : before.length ∈ places
  · have hcurrent := moverCurrent_of_mem hplaces hk
    unfold MoverCurrent at hcurrent
    rw [htake, hget, hmover] at hcurrent
    exact current_of_all hcurrent
  · have hnone := hothers _ hlen hk
    rw [htake, hget, hmover, Option.any_some, about_of_applies happ.applies] at hnone
    cases hnone hwho

section claims
variable [DecidableEq κ] {request : Type} {program : request → Program κ σ ε ρ}
  {requests : List request} {s : σ} {moves : List Move}

theorem hasClaimed_at {k t : ℕ} (hk : k < moves.length) (hm : moves.getD k (.cutOff 0) = .advance t)
    (hcommits : (mover ((System.begin s (requests.map program)).run (moves.take k))
      (.advance t)).any commits = true) : HasClaimed program requests s moves t := by
  obtain ⟨x, happ⟩ := applied_iff_commits.mp hcommits
  refine ⟨moves.take k, .advance t, moves.drop (k + 1), x, ?_, happ⟩
  have hget : moves.getD k (.cutOff 0) = moves[k] := by simp [hk]
  rw [← hm, hget, List.getElem_cons_drop, List.take_append_drop]

/-- A run whose commits are all of one call, as `careful_of_one` has it. -/
theorem careful_at {free : σ → Prop} {R : request → σ → σ → Prop}
    (hfirst : ∀ c, FirstCommit (fun _ => Claims free (R c)) (program c) false [] id)
    (htrans : ∀ c u v z, R c u v → R c v z → R c u z) (hfree : free s) (w : ℕ)
    (hone : ∀ k < moves.length, moves.getD k (.cutOff 0) = .advance w ∨
      (mover ((System.begin s (requests.map program)).run (moves.take k))
        (moves.getD k (.cutOff 0))).any commits = false)
    (hcut : .cutOff w ∉ moves) : Careful program free requests s moves := by
  refine careful_of_one hfirst htrans hfree w moves (fun before m after hmoves t x happ => ?_) hcut
  have hat : m = .advance w ∨ (mover ((System.begin s (requests.map program)).run before) m).any
      commits = false :=
    at_each (P := fun before m => m = .advance w ∨
      (mover ((System.begin s (requests.map program)).run before) m).any commits = false) hone hmoves
  obtain rfl := happ.move
  rcases hat with hw | hnone
  · exact Move.advance.inj hw
  · rw [applied_iff_commits.mpr ⟨x, happ⟩] at hnone
    cases hnone

end claims

end Akabbo.RunChecks
