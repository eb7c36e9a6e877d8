import GreatGramma.Library.ShiftReduce
import Mathlib.Logic.Relation

/-!
# What a table does when nothing is checked

`ShiftReduce` runs a table under the progress check, which every table needs if it is to be run
safely.  What the table *means* has nothing to do with the check, nor with the ranks that serve it.
Here is that meaning: a `Step` shifts or reduces, a run `Ends` where no step is possible, and ranks
are never looked at.

## Runs

A run ends in one way at most (`Runs.unique`), with a stack, a rejection, an acceptance or a fault.
It may also go on for ever, as reductions may, and then it has no end; the checked run always has
one.

## The check

A checked run that is not stopped by the check is a run of the table (`parse_runs`), and on a ranked
table the check is silent (`Ranked.parse_unchecked`), so there both say the same
(`Ranked.parse_eq_iff`).  This is how a table that was generated without ranks is compared with the
one that is run: tables that agree on the states and terminals in question have the same runs,
whatever their ranks (`Agrees.runs`).  Terminals that a table skips are not seen by it, so a run may
be taken over the others (`parse_filter`).
-/

namespace ShiftReduce

variable {σ τ ρ : Type*}

/-- A move without its rank. -/
def Move.unranked : Move σ ρ → Move σ ρ
  | .reduce r _ => .reduce r 0
  | m => m

theorem Move.unranked_eq_shift {m : Move σ ρ} {d : σ} : m.unranked = .shift d ↔ m = .shift d := by
  cases m <;> simp [Move.unranked]

theorem Move.unranked_eq_reduce {m : Move σ ρ} {r : ρ} {rank : ℕ} (h : m = .reduce r rank) :
    m.unranked = .reduce r 0 := by
  rw [h]
  rfl

theorem Move.exists_of_unranked_eq_reduce {m : Move σ ρ} {r : ρ} {rank : ℕ}
    (h : m.unranked = .reduce r rank) : ∃ rank', m = .reduce r rank' := by
  cases m with
  | reduce r' rank' =>
    cases h
    exact ⟨rank', rfl⟩
  | reject => cases h
  | accept => cases h
  | shift d => cases h

/-- The verdict was not given by the progress check. -/
def Verdict.Unchecked (v : Verdict σ τ ρ) : Prop := ∀ q t, v ≠ .fault (.noProgress q t)

namespace Table

variable (T : Table σ τ ρ)

/-- One step from a stack and the terminals still to be read. -/
inductive Step : List σ × List τ → List σ × List τ → Prop
  | shift {stack : List σ} {ts : List τ} {q d : σ} {t : τ} (top : stack.getLast? = some q)
      (move : T.move q t = .shift d) : Step (stack, t :: ts) (stack ++ [d], ts)
  | reduce {stack : List σ} {ts : List τ} {q s d : σ} {t : τ} {r : ρ} {rank : ℕ}
      (top : stack.getLast? = some q) (move : T.move q t = .reduce r rank)
      (fits : T.pops r < stack.length)
      (uncovered : stack[stack.length - T.pops r - 1]? = some s) (goto : T.goto s r = some d) :
      Step (stack, t :: ts) (stack.take (stack.length - T.pops r) ++ [d], t :: ts)

/-- Some steps. -/
abbrev Steps : List σ × List τ → List σ × List τ → Prop := Relation.ReflTransGen T.Step

/-- How a run ends where no step is possible. -/
inductive Ends : List σ × List τ → Verdict σ τ ρ → Prop
  | live {stack : List σ} : Ends (stack, []) (.live stack)
  | rejected {stack : List σ} {ts : List τ} {q : σ} {t : τ} (top : stack.getLast? = some q)
      (move : T.move q t = .reject) : Ends (stack, t :: ts) .rejected
  | accepted {stack : List σ} {ts : List τ} {q : σ} {t : τ} (top : stack.getLast? = some q)
      (move : T.move q t = .accept) : Ends (stack, t :: ts) (.accepted ts)
  | emptyStack {ts : List τ} {t : τ} : Ends ([], t :: ts) (.fault .emptyStack)
  | underflow {stack : List σ} {ts : List τ} {q : σ} {t : τ} {r : ρ} {rank : ℕ}
      (top : stack.getLast? = some q) (move : T.move q t = .reduce r rank)
      (deep : stack.length ≤ T.pops r) :
      Ends (stack, t :: ts) (.fault (.underflow r stack.length))
  | missingGoto {stack : List σ} {ts : List τ} {q s : σ} {t : τ} {r : ρ} {rank : ℕ}
      (top : stack.getLast? = some q) (move : T.move q t = .reduce r rank)
      (fits : T.pops r < stack.length)
      (uncovered : stack[stack.length - T.pops r - 1]? = some s) (goto : T.goto s r = none) :
      Ends (stack, t :: ts) (.fault (.missingGoto s r))

/-- A whole run. -/
def Runs (stack : List σ) (ts : List τ) (verdict : Verdict σ τ ρ) : Prop :=
  ∃ c, T.Steps (stack, ts) c ∧ T.Ends c verdict

variable {T}

/-! ## Runs are unique -/

theorem Step.unique {c c₁ c₂ : List σ × List τ} (h₁ : T.Step c c₁) (h₂ : T.Step c c₂) :
    c₁ = c₂ := by
  cases h₁ with
  | shift top move =>
    cases h₂ with
    | shift top' move' =>
      cases top.symm.trans top'
      cases move.symm.trans move'
      rfl
    | reduce top' move' =>
      cases top.symm.trans top'
      cases move.symm.trans move'
  | reduce top move fits uncovered goto =>
    cases h₂ with
    | shift top' move' =>
      cases top.symm.trans top'
      cases move.symm.trans move'
    | reduce top' move' fits' uncovered' goto' =>
      cases top.symm.trans top'
      cases move.symm.trans move'
      cases uncovered.symm.trans uncovered'
      cases goto.symm.trans goto'
      rfl

theorem Ends.not_step {c c' : List σ × List τ} {verdict : Verdict σ τ ρ} (h : T.Ends c verdict)
    (hstep : T.Step c c') : False := by
  cases hstep with
  | shift top move =>
    cases h with
    | emptyStack => cases top
    | rejected top' move' | accepted top' move' | underflow top' move' _
    | missingGoto top' move' _ _ _ =>
      cases top.symm.trans top'
      cases move.symm.trans move'
  | reduce top move fits uncovered goto =>
    cases h with
    | emptyStack => cases top
    | rejected top' move' | accepted top' move' =>
      cases top.symm.trans top'
      cases move.symm.trans move'
    | underflow top' move' deep =>
      cases top.symm.trans top'
      cases move.symm.trans move'
      exact absurd fits (Nat.not_lt.mpr deep)
    | missingGoto top' move' _ uncovered' goto' =>
      cases top.symm.trans top'
      cases move.symm.trans move'
      cases uncovered.symm.trans uncovered'
      cases goto.symm.trans goto'

theorem Ends.unique {c : List σ × List τ} {v v' : Verdict σ τ ρ} (h : T.Ends c v)
    (h' : T.Ends c v') : v = v' := by
  cases h with
  | live => cases h'; rfl
  | emptyStack =>
    cases h' with
    | emptyStack => rfl
    | rejected top _ | accepted top _ | underflow top _ _ | missingGoto top _ _ _ _ => cases top
  | rejected top move =>
    cases h' with
    | rejected => rfl
    | emptyStack => cases top
    | accepted top' move' | underflow top' move' _ | missingGoto top' move' _ _ _ =>
      cases top.symm.trans top'
      cases move.symm.trans move'
  | accepted top move =>
    cases h' with
    | accepted => rfl
    | emptyStack => cases top
    | rejected top' move' | underflow top' move' _ | missingGoto top' move' _ _ _ =>
      cases top.symm.trans top'
      cases move.symm.trans move'
  | underflow top move deep =>
    cases h' with
    | emptyStack => cases top
    | rejected top' move' | accepted top' move' =>
      cases top.symm.trans top'
      cases move.symm.trans move'
    | underflow top' move' deep' =>
      cases top.symm.trans top'
      cases move.symm.trans move'
      rfl
    | missingGoto top' move' fits' _ _ =>
      cases top.symm.trans top'
      cases move.symm.trans move'
      exact absurd fits' (Nat.not_lt.mpr deep)
  | missingGoto top move fits uncovered goto =>
    cases h' with
    | emptyStack => cases top
    | rejected top' move' | accepted top' move' =>
      cases top.symm.trans top'
      cases move.symm.trans move'
    | underflow top' move' deep' =>
      cases top.symm.trans top'
      cases move.symm.trans move'
      exact absurd fits (Nat.not_lt.mpr deep')
    | missingGoto top' move' _ uncovered' _ =>
      cases top.symm.trans top'
      cases move.symm.trans move'
      cases uncovered.symm.trans uncovered'
      rfl

theorem Steps.of_ends {c c' e : List σ × List τ} {v : Verdict σ τ ρ} (h : T.Steps c c')
    (hrun : T.Steps c e) (hends : T.Ends e v) : T.Steps c' e := by
  induction h with
  | refl => exact hrun
  | tail _ hstep ih =>
    rcases ih.cases_head with rfl | ⟨next, hnext, hrest⟩
    · exact absurd hstep hends.not_step
    · exact hstep.unique hnext ▸ hrest

/-- **A run ends in one way.** -/
theorem Runs.unique {stack : List σ} {ts : List τ} {v v' : Verdict σ τ ρ}
    (h : T.Runs stack ts v) (h' : T.Runs stack ts v') : v = v' := by
  obtain ⟨c, hsteps, hends⟩ := h
  obtain ⟨c', hsteps', hends'⟩ := h'
  have hrest := Steps.of_ends hsteps hsteps' hends'
  rcases hrest.cases_head with rfl | ⟨next, hnext, -⟩
  · exact hends.unique hends'
  · exact absurd hnext hends.not_step

theorem Runs.of_step {stack stack' : List σ} {ts ts' : List τ} {v : Verdict σ τ ρ}
    (hstep : T.Step (stack, ts) (stack', ts')) (h : T.Runs stack' ts' v) : T.Runs stack ts v := by
  obtain ⟨c, hsteps, hends⟩ := h
  exact ⟨c, .head hstep hsteps, hends⟩

theorem Runs.of_ends {stack : List σ} {ts : List τ} {v : Verdict σ τ ρ}
    (h : T.Ends (stack, ts) v) : T.Runs stack ts v :=
  ⟨_, .refl, h⟩

/-! ## The checked run -/

/-- What a run comes to when reading its first terminal comes to an outcome. -/
def afterReading (T : Table σ τ ρ) (ts : List τ) : Outcome σ τ ρ → Verdict σ τ ρ
  | .shifted stack => T.parse stack ts
  | .rejected => .rejected
  | .accepted => .accepted ts
  | .fault f => .fault f

/-- A turn that ends the loop is a step or an end of the run. -/
theorem turn_done_runs {t : τ} {ts : List τ} {last : Option Reduction} {stack : List σ}
    {o : Outcome σ τ ρ} (hturn : T.turn t last stack = .done o)
    (hrest : ∀ stack', o = .shifted stack' → T.Runs stack' ts (T.parse stack' ts))
    (hunchecked : (T.afterReading ts o).Unchecked) :
    T.Runs stack (t :: ts) (T.afterReading ts o) := by
  unfold turn at hturn
  split at hturn
  · rename_i hlast
    cases hturn
    obtain rfl := List.getLast?_eq_none_iff.mp hlast
    exact .of_ends .emptyStack
  rename_i q htop
  split at hturn
  · rename_i hmove
    cases hturn
    exact .of_ends (.rejected htop hmove)
  · rename_i hmove
    cases hturn
    exact .of_ends (.accepted htop hmove)
  · rename_i d hmove
    cases hturn
    exact .of_step (.shift htop hmove) (hrest _ rfl)
  · rename_i r rank hmove
    split_ifs at hturn with hprogress hdeep
    · cases hturn
      exact .of_ends (.underflow htop hmove hdeep)
    · split at hturn
      · rename_i hnone
        have hlt := List.getElem?_eq_none_iff.mp hnone
        omega
      · rename_i s huncovered
        split at hturn
        · rename_i hgoto
          cases hturn
          exact .of_ends (.missingGoto htop hmove (Nat.not_le.mp hdeep) huncovered hgoto)
        · cases hturn
    · cases hturn
      exact absurd rfl (hunchecked q t)

theorem turn_again_step {t : τ} {ts : List τ} {last : Option Reduction} {last' : Reduction}
    {stack stack' : List σ} (h : T.turn t last stack = .again last' stack') :
    T.Step (stack, t :: ts) (stack', t :: ts) := by
  obtain ⟨q, r, htop, hmove, -, -, hfits, s, d, huncovered, hgoto, rfl⟩ := T.turn_reduced h
  exact .reduce htop hmove hfits huncovered hgoto

/-- **The loop at one terminal**, and the run behind it. -/
theorem loop_runs {t : τ} {ts : List τ}
    (hrest : ∀ stack', (T.parse stack' ts).Unchecked → T.Runs stack' ts (T.parse stack' ts))
    (last : Option Reduction) (stack : List σ) :
    (T.afterReading ts (T.loop t last stack)).Unchecked →
      T.Runs stack (t :: ts) (T.afterReading ts (T.loop t last stack)) := by
  refine T.loop_induction (t := t) (motive := fun last stack =>
    (T.afterReading ts (T.loop t last stack)).Unchecked →
      T.Runs stack (t :: ts) (T.afterReading ts (T.loop t last stack))) ?_ ?_ last stack
  · intro last stack o hturn hunchecked
    rw [T.loop_eq, hturn] at hunchecked ⊢
    refine turn_done_runs hturn (fun stack' ho => ?_) hunchecked
    subst ho
    exact hrest stack' hunchecked
  · intro last stack last' stack' hturn ih hunchecked
    rw [T.loop_eq, hturn] at hunchecked ⊢
    exact .of_step (turn_again_step hturn) (ih hunchecked)

theorem parse_cons_of_not_skips {stack : List σ} {t : τ} {ts : List τ} (h : T.skips t = false) :
    T.parse stack (t :: ts) = T.afterReading ts (T.read t stack) := by
  rw [T.parse_cons, if_neg (by rw [h]; exact Bool.false_ne_true)]
  cases T.read t stack <;> rfl

/-- **A run that the check does not stop is a run of the table.** -/
theorem parse_runs {ts : List τ} (hskips : ∀ t ∈ ts, T.skips t = false) (stack : List σ)
    (h : (T.parse stack ts).Unchecked) : T.Runs stack ts (T.parse stack ts) := by
  induction ts generalizing stack with
  | nil => exact .of_ends .live
  | cons t ts ih =>
    rw [parse_cons_of_not_skips (hskips t List.mem_cons_self)] at h ⊢
    exact loop_runs
      (fun stack' h' => ih (fun t ht => hskips t (List.mem_cons_of_mem _ ht)) stack' h')
      none stack h

/-- **The check is silent on a ranked table.** -/
theorem Ranked.parse_unchecked {P : σ → Prop} {ts : List τ} (hT : ∀ t ∈ ts, T.Ranked P t)
    (hshift : ∀ q t d, T.move q t = .shift d → P d)
    (hgoto : ∀ s r d, T.goto s r = some d → P d) {stack : List σ} (hP : ∀ q ∈ stack, P q) :
    (T.parse stack ts).Unchecked := by
  induction ts generalizing stack with
  | nil => exact fun q t h => by cases h
  | cons t ts ih =>
    intro q t' h
    have hrest : ∀ t ∈ ts, T.Ranked P t := fun t ht => hT t (List.mem_cons_of_mem _ ht)
    rw [T.parse_cons] at h
    split_ifs at h
    · exact ih hrest hP q t' h
    · split at h
      · rename_i stack' hread
        refine ih hrest (fun q' hq' => ?_) q t' h
        have hone : T.parse stack [t] = .live stack' := by
          rw [T.parse_cons, if_neg ‹_›, hread]
          rfl
        exact T.parse_forall hshift hgoto hP hone q' hq'
      · cases h
      · cases h
      · rename_i f hread
        cases h
        exact (hT t List.mem_cons_self).read_ne_noProgress hgoto hP q hread

/-- **On a ranked table the checked run is the run.** -/
theorem Ranked.parse_eq_iff {P : σ → Prop} {ts : List τ} (hT : ∀ t ∈ ts, T.Ranked P t)
    (hshift : ∀ q t d, T.move q t = .shift d → P d)
    (hgoto : ∀ s r d, T.goto s r = some d → P d) (hskips : ∀ t ∈ ts, T.skips t = false)
    {stack : List σ} (hP : ∀ q ∈ stack, P q) {v : Verdict σ τ ρ} :
    T.parse stack ts = v ↔ T.Runs stack ts v := by
  have hruns := parse_runs hskips stack (Ranked.parse_unchecked hT hshift hgoto hP)
  constructor
  · rintro rfl
    exact hruns
  · exact fun h => hruns.unique h

/-! ## Skipped terminals -/

/-- A verdict without the terminals that a table skips. -/
def dropSkips (T : Table σ τ ρ) : Verdict σ τ ρ → Verdict σ τ ρ
  | .accepted rest => .accepted (rest.filter fun t => !T.skips t)
  | v => v

/-- **A run does not see the terminals that it skips.** -/
theorem parse_filter (stack : List σ) (ts : List τ) :
    T.parse stack (ts.filter fun t => !T.skips t) = T.dropSkips (T.parse stack ts) := by
  induction ts generalizing stack with
  | nil => rfl
  | cons t ts ih =>
    cases hskip : T.skips t with
    | true =>
      rw [List.filter_cons_of_neg (by simp [hskip]), ih, T.parse_cons stack t ts, if_pos hskip]
    | false =>
      rw [List.filter_cons_of_pos (by simp [hskip]), parse_cons_of_not_skips hskip,
        parse_cons_of_not_skips hskip]
      cases T.read t stack with
      | shifted stack' => exact ih stack'
      | rejected => rfl
      | accepted => rfl
      | fault f => rfl

/-! ## Tables that agree -/

/-- Two tables agree on the states of `P` and the terminals of `V`, whatever their ranks. -/
structure Agrees (T T' : Table σ τ ρ) (P : σ → Prop) (V : τ → Prop) : Prop where
  move : ∀ q t, P q → V t → (T.move q t).unranked = (T'.move q t).unranked
  pops : ∀ q t r rank, P q → V t → T.move q t = .reduce r rank → T.pops r = T'.pops r
  goto : ∀ q t r rank s, P q → V t → P s → T.move q t = .reduce r rank →
    T.goto s r = T'.goto s r
  shift_closed : ∀ q t d, P q → V t → T.move q t = .shift d → P d
  goto_closed : ∀ q t r rank s d, P q → V t → P s → T.move q t = .reduce r rank →
    T.goto s r = some d → P d

section
variable {T' : Table σ τ ρ} {P : σ → Prop} {V : τ → Prop}

theorem Agrees.step (h : T.Agrees T' P V) {stack stack' : List σ} {ts ts' : List τ}
    (hP : ∀ q ∈ stack, P q) (hV : ∀ t ∈ ts, V t) (hstep : T.Step (stack, ts) (stack', ts')) :
    T'.Step (stack, ts) (stack', ts') ∧ (∀ q ∈ stack', P q) ∧ ∀ t ∈ ts', V t := by
  cases hstep with
  | @shift _ _ q d t top move =>
    have hq := hP q (List.mem_of_getLast? top)
    have ht := hV t List.mem_cons_self
    refine ⟨.shift top ?_, fun q' hq' => ?_, fun t' ht' => hV t' (List.mem_cons_of_mem _ ht')⟩
    · rw [← Move.unranked_eq_shift, ← h.move q t hq ht, move]
      rfl
    · rcases List.mem_append.mp hq' with hold | hnew
      · exact hP q' hold
      · exact List.mem_singleton.mp hnew ▸ h.shift_closed q t d hq ht move
  | @reduce _ _ q s d t r rank top move fits uncovered goto =>
    have hq := hP q (List.mem_of_getLast? top)
    have ht := hV t List.mem_cons_self
    have hs := hP s (List.mem_of_getElem? uncovered)
    have hpops := h.pops q t r rank hq ht move
    obtain ⟨rank', move'⟩ := Move.exists_of_unranked_eq_reduce
      ((h.move q t hq ht).symm.trans (Move.unranked_eq_reduce move))
    refine ⟨?_, fun q' hq' => ?_, hV⟩
    · rw [hpops] at fits uncovered ⊢
      exact .reduce top move' fits uncovered ((h.goto q t r rank s hq ht hs move).symm.trans goto)
    · rcases List.mem_append.mp hq' with hold | hnew
      · exact hP q' (List.mem_of_mem_take hold)
      · exact List.mem_singleton.mp hnew ▸ h.goto_closed q t r rank s d hq ht hs move goto

theorem Agrees.steps (h : T.Agrees T' P V) {c c' : List σ × List τ} (hP : ∀ q ∈ c.1, P q)
    (hV : ∀ t ∈ c.2, V t) (hsteps : T.Steps c c') :
    T'.Steps c c' ∧ (∀ q ∈ c'.1, P q) ∧ ∀ t ∈ c'.2, V t := by
  induction hsteps with
  | refl => exact ⟨.refl, hP, hV⟩
  | tail _ hstep ih =>
    obtain ⟨hsteps', hP', hV'⟩ := ih
    obtain ⟨hstep', hP'', hV''⟩ := h.step hP' hV' hstep
    exact ⟨hsteps'.tail hstep', hP'', hV''⟩

theorem Agrees.ends (h : T.Agrees T' P V) {c : List σ × List τ} {v : Verdict σ τ ρ}
    (hP : ∀ q ∈ c.1, P q) (hV : ∀ t ∈ c.2, V t) (hends : T.Ends c v) : T'.Ends c v := by
  cases hends with
  | live => exact .live
  | emptyStack => exact .emptyStack
  | @rejected _ _ q t top move =>
    refine .rejected top ?_
    have hmove := h.move q t (hP q (List.mem_of_getLast? top)) (hV t List.mem_cons_self)
    rw [move] at hmove
    cases hmove' : T'.move q t <;> rw [hmove'] at hmove <;> first | rfl | cases hmove
  | @accepted _ _ q t top move =>
    refine .accepted top ?_
    have hmove := h.move q t (hP q (List.mem_of_getLast? top)) (hV t List.mem_cons_self)
    rw [move] at hmove
    cases hmove' : T'.move q t <;> rw [hmove'] at hmove <;> first | rfl | cases hmove
  | @underflow _ _ q t r rank top move deep =>
    have hq := hP q (List.mem_of_getLast? top)
    have ht := hV t List.mem_cons_self
    obtain ⟨rank', move'⟩ := Move.exists_of_unranked_eq_reduce
      ((h.move q t hq ht).symm.trans (Move.unranked_eq_reduce move))
    exact .underflow top move' (h.pops q t r rank hq ht move ▸ deep)
  | @missingGoto _ _ q s t r rank top move fits uncovered goto =>
    have hq := hP q (List.mem_of_getLast? top)
    have ht := hV t List.mem_cons_self
    have hs := hP s (List.mem_of_getElem? uncovered)
    obtain ⟨rank', move'⟩ := Move.exists_of_unranked_eq_reduce
      ((h.move q t hq ht).symm.trans (Move.unranked_eq_reduce move))
    have hpops := h.pops q t r rank hq ht move
    exact .missingGoto top move' (hpops ▸ fits) (hpops ▸ uncovered)
      ((h.goto q t r rank s hq ht hs move).symm.trans goto)

/-- **Runs of tables that agree.** -/
theorem Agrees.runs (h : T.Agrees T' P V) {stack : List σ} {ts : List τ} {v : Verdict σ τ ρ}
    (hP : ∀ q ∈ stack, P q) (hV : ∀ t ∈ ts, V t) (hruns : T.Runs stack ts v) :
    T'.Runs stack ts v := by
  obtain ⟨c, hsteps, hends⟩ := hruns
  obtain ⟨hsteps', hP', hV'⟩ := h.steps hP hV hsteps
  exact ⟨c, hsteps', h.ends hP' hV' hends⟩

end

end Table

end ShiftReduce
