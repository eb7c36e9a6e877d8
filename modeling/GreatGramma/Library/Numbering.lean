import GreatGramma.Library.MaximalMunch

/-!
# Numbered states

A table stands for an automaton when it numbers the states of the automaton that can be reached,
and steps between the numbers as the automaton steps between the states.  Then a word leads through
both alike (`Numbers.walk`), and exactly the states that a word leads to are numbered
(`Numbers.mem_iff`).  The numbering is a list without repetitions, so a number is a place in it.

The relation says nothing of how the states have been found.  A search that numbers them in the
order in which it meets them satisfies it, and any other order would do as well.

## Dead states

A total automaton may have dead states, which it never leaves.  Without them it is a partial
automaton (`live`) that gets stuck just where the total one dies: a word that passes a dead state
ends in one, so it is enough to look at where a word ends (`dead_foldl_iff`, `walk_live`).  An
export that leaves dead states out therefore loses nothing but the difference between two of them.

That dead states are never left is the only thing that is asked of them.  They need not be all the
states from which nothing is accepted, so `dead` may be whatever test the exporter can make.
-/

namespace LabelledDfa

variable {σ α τ : Type*}

/-- **The table `T` numbers the states of `M`.** -/
structure Numbers (T : LabelledDfa ℕ α τ) (M : LabelledDfa σ α τ) (states : List σ) : Prop where
  start : states[T.start]? = some M.start
  nodup : states.Nodup
  reached : ∀ s ∈ states, ∃ w, M.walk M.start w = some s
  step : ∀ i s a, states[i]? = some s →
    (M.step s a = none ∧ T.step i a = none) ∨
      ∃ j s', M.step s a = some s' ∧ T.step i a = some j ∧ states[j]? = some s'

namespace Numbers

variable {T : LabelledDfa ℕ α τ} {M : LabelledDfa σ α τ} {states : List σ}

/-- **A word leads through both alike.** -/
theorem walk (h : T.Numbers M states) {i : ℕ} {s : σ} (hs : states[i]? = some s) (w : List α) :
    (M.walk s w = none ∧ T.walk i w = none) ∨
      ∃ j s', M.walk s w = some s' ∧ T.walk i w = some j ∧ states[j]? = some s' := by
  induction w generalizing i s with
  | nil => exact Or.inr ⟨i, s, rfl, rfl, hs⟩
  | cons a w ih =>
    rw [walk_cons, walk_cons]
    rcases h.step i s a hs with ⟨hM, hT⟩ | ⟨j, s', hM, hT, hs'⟩
    · exact Or.inl ⟨by rw [hM]; rfl, by rw [hT]; rfl⟩
    · rw [hM, hT, Option.bind_some, Option.bind_some]
      exact ih hs'

/-- **The numbered states are the reachable ones.** -/
theorem mem_iff (h : T.Numbers M states) {s : σ} :
    s ∈ states ↔ ∃ w, M.walk M.start w = some s := by
  refine ⟨h.reached s, fun ⟨w, hw⟩ => ?_⟩
  rcases h.walk h.start w with ⟨hnone, -⟩ | ⟨j, s', hs', -, hj⟩
  · rw [hnone] at hw
    cases hw
  · obtain rfl : s' = s := Option.some_inj.mp (hs'.symm.trans hw)
    exact List.mem_of_getElem? hj

end Numbers

/-! ## Dead states -/

variable {step : σ → α → σ} {dead : σ → Bool}

/-- A total automaton without its dead states. -/
def live (start : σ) (step : σ → α → σ) (dead : σ → Bool) (label : σ → Option τ) :
    LabelledDfa σ α τ where
  start := start
  step q a := if dead (step q a) then none else some (step q a)
  label := label

/-- What is dead stays dead. -/
theorem dead_foldl (hdead : ∀ q a, dead q = true → dead (step q a) = true) {q : σ}
    (hq : dead q = true) (w : List α) : dead (w.foldl step q) = true := by
  induction w generalizing q with
  | nil => exact hq
  | cons a w ih => exact ih (hdead q a hq)

/-- A word that passes a dead state ends in one. -/
theorem dead_foldl_iff (hdead : ∀ q a, dead q = true → dead (step q a) = true) {q : σ}
    {w : List α} :
    dead (w.foldl step q) = true ↔ ∃ v, v <+: w ∧ dead (v.foldl step q) = true := by
  refine ⟨fun h => ⟨w, List.prefix_refl w, h⟩, fun ⟨v, ⟨u, hu⟩, hv⟩ => ?_⟩
  rw [← hu, List.foldl_append]
  exact dead_foldl hdead hv u

/-- **A word leads to a live state where the total automaton ends in one.** -/
theorem walk_live (hdead : ∀ q a, dead q = true → dead (step q a) = true) {start : σ}
    {label : σ → Option τ} {q : σ} (hq : dead q = false) (w : List α) :
    (live start step dead label).walk q w =
      if dead (w.foldl step q) then none else some (w.foldl step q) := by
  induction w generalizing q with
  | nil =>
    rw [walk_nil, List.foldl_nil, hq]
    rfl
  | cons a w ih =>
    rw [walk_cons, List.foldl_cons]
    by_cases hstep : dead (step q a) = true
    · rw [if_pos (dead_foldl hdead hstep w)]
      show (if dead (step q a) then none else _ : Option σ).bind _ = none
      rw [if_pos hstep]
      rfl
    · show (if dead (step q a) then none else _ : Option σ).bind _ = _
      rw [if_neg hstep]
      exact ih (Bool.eq_false_iff.mpr hstep)

end LabelledDfa
