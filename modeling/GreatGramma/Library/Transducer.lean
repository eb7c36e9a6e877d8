import Mathlib.Data.List.Basic
import Mathlib.Tactic.Common

/-!
# Transducers that emit late

A partial transducer reads symbols and now and then emits one.  The ones here
emit *late*: what a step emits is the label of the state it leaves, and the end
of the input flushes the label of the last state.  This is how a longest-match
lexer works, which knows that a lexeme is over only from the symbol after it.

## Heads

The price of emitting late is that the emissions lag behind the input.  The
*heads* of a state are the symbols it can emit next, over every continuation of
the input.  Two facts about them carry everything that follows.

* Silent steps only lose heads: whatever the state reached can emit next, the
  state left could already (`Head.of_silent`).
* The next emission is always a head (`head_of_run`, `head_of_flush`).

Heads are defined by runs, and are computed backwards along the steps: a head is
the label of a state, or it is one of a state that a silent step leads to
(`Head.induction`).  Nothing here asks for finitely many states.

## Emitting late

`Late` is what makes a step that emits tell its label: then a run that has
emitted has passed a state with this label, so what it has emitted first was a
head where it began.  A state that has read something is moreover never flushed
in silence, so a state that can be flushed then has a head (`flush_of_run`).
-/

/-- A partial transducer.  `step` reads one symbol and may emit one; `flush` is
what the end of the input emits, when the input may end there. -/
structure Transducer (κ ι τ : Type*) where
  /-- Reads one symbol. -/
  step : κ → ι → Option (κ × Option τ)
  /-- Ends the input. -/
  flush : κ → Option (Option τ)

namespace Transducer

variable {κ ι τ : Type*} (M : Transducer κ ι τ)

/-- Reads a word: the state after it, and what was emitted on the way. -/
def run : κ → List ι → Option (κ × List τ)
  | k, [] => some (k, [])
  | k, i :: w =>
    match M.step k i with
    | none => none
    | some (k', e) => (run k' w).map fun out => (out.1, e.toList ++ out.2)

@[simp] theorem run_nil (k : κ) : M.run k [] = some (k, []) := rfl

theorem run_cons {k k'' : κ} {i : ι} {w : List ι} {out : List τ} :
    M.run k (i :: w) = some (k'', out) ↔
      ∃ k' e em, M.step k i = some (k', e) ∧ M.run k' w = some (k'', em) ∧
        out = e.toList ++ em := by
  constructor
  · intro h
    rw [run] at h
    split at h
    · cases h
    · rename_i k' e hstep
      obtain ⟨⟨k₁, em⟩, hrun, hout⟩ := Option.map_eq_some_iff.mp h
      cases hout
      exact ⟨k', e, em, hstep, hrun, rfl⟩
  · rintro ⟨k', e, em, hstep, hrun, rfl⟩
    simp only [run, hstep, hrun, Option.map_some]

/-- **Runs compose**, and so do their emissions. -/
theorem run_append {k k'' : κ} {v w : List ι} {out : List τ} :
    M.run k (v ++ w) = some (k'', out) ↔
      ∃ k' em em', M.run k v = some (k', em) ∧ M.run k' w = some (k'', em') ∧
        out = em ++ em' := by
  induction v generalizing k out with
  | nil =>
    constructor
    · intro h
      exact ⟨k, [], out, rfl, h, rfl⟩
    · rintro ⟨k', em, em', hv, hw, rfl⟩
      cases hv
      exact hw
  | cons i v ih =>
    rw [List.cons_append, run_cons]
    constructor
    · rintro ⟨k₁, e, em, hstep, hrun, rfl⟩
      obtain ⟨k', em₁, em₂, hv, hw, rfl⟩ := ih.mp hrun
      exact ⟨k', e.toList ++ em₁, em₂, M.run_cons.mpr ⟨k₁, e, em₁, hstep, hv, rfl⟩, hw,
        by rw [List.append_assoc]⟩
    · rintro ⟨k', em, em', hv, hw, rfl⟩
      obtain ⟨k₁, e, em₁, hstep, hrun, rfl⟩ := M.run_cons.mp hv
      exact ⟨k₁, e, em₁ ++ em', hstep, ih.mpr ⟨k', em₁, em', hrun, hw, rfl⟩,
        List.append_assoc _ _ _⟩

/-- What each step keeps holds at the end of a run. -/
theorem run_invariant {P : κ → Prop} (hstep : ∀ k i k' e, P k → M.step k i = some (k', e) → P k')
    {k k' : κ} {w : List ι} {em : List τ} (hP : P k) (h : M.run k w = some (k', em)) : P k' := by
  induction w generalizing k em with
  | nil =>
    cases h
    exact hP
  | cons i w ih =>
    obtain ⟨k₁, e, em₁, hone, hrun, -⟩ := M.run_cons.mp h
    exact ih (hstep k i k₁ e hP hone) hrun

/-- Whatever single steps emit satisfies `Q`, so whatever a run emits does. -/
theorem run_forall {P : κ → Prop} {Q : τ → Prop}
    (hstep : ∀ k i k' e, P k → M.step k i = some (k', e) → P k' ∧ ∀ t ∈ e, Q t)
    {k k' : κ} {w : List ι} {em : List τ} (hP : P k) (h : M.run k w = some (k', em)) :
    ∀ t ∈ em, Q t := by
  induction w generalizing k em with
  | nil =>
    cases h
    intro t ht
    cases ht
  | cons i w ih =>
    obtain ⟨k₁, e, em₁, hone, hrun, rfl⟩ := M.run_cons.mp h
    obtain ⟨hP₁, he⟩ := hstep k i k₁ e hP hone
    intro t ht
    rcases List.mem_append.mp ht with ht | ht
    · exact he t (Option.mem_toList.mp ht)
    · exact ih hP₁ hrun t ht

/-! ## Heads -/

/-- The state can come to emit `t` next: after some silent word it would flush
`t`. -/
def Head (k : κ) (t : τ) : Prop :=
  ∃ w k', M.run k w = some (k', []) ∧ M.flush k' = some (some t)

variable {M} {k k' : κ} {t : τ}

theorem Head.of_flush (h : M.flush k = some (some t)) : M.Head k t :=
  ⟨[], k, rfl, h⟩

/-- **Silent words only lose heads.** -/
theorem Head.of_silent {w : List ι} (h : M.Head k' t) (hrun : M.run k w = some (k', [])) :
    M.Head k t := by
  obtain ⟨v, k'', hv, hflush⟩ := h
  exact ⟨w ++ v, k'', M.run_append.mpr ⟨k', [], [], hrun, hv, rfl⟩, hflush⟩

theorem Head.of_step {i : ι} (h : M.Head k' t) (hstep : M.step k i = some (k', none)) :
    M.Head k t :=
  h.of_silent (M.run_cons.mpr ⟨k', none, [], hstep, M.run_nil k', rfl⟩)

/-- **The heads are the least relation** that holds of labels and is closed under
silent steps, read backwards. -/
theorem Head.induction {P : κ → τ → Prop} (label : ∀ {k t}, M.flush k = some (some t) → P k t)
    (silent : ∀ {k i k' t}, M.step k i = some (k', none) → P k' t → P k t)
    (h : M.Head k t) : P k t := by
  obtain ⟨w, k', hrun, hflush⟩ := h
  induction w generalizing k with
  | nil =>
    cases hrun
    exact label hflush
  | cons i w ih =>
    obtain ⟨k₁, e, em, hstep, hrest, hout⟩ := M.run_cons.mp hrun
    cases e with
    | some t => cases hout
    | none =>
      obtain rfl : em = [] := hout.symm
      exact silent hstep (ih hrest)

/-! ## Emitting late -/

variable (M) in
/-- Emissions are labels of states left behind, and a state that has read
something is never flushed in silence. -/
structure Late : Prop where
  emits_label : ∀ {k i k' t}, M.step k i = some (k', some t) → M.flush k = some (some t)
  flush_of_step : ∀ {k i k' e}, M.step k i = some (k', e) → M.flush k' ≠ some none

namespace Late

variable (hM : M.Late)
include hM

/-- **The first emission of a run is a head.** -/
theorem head_of_run {w : List ι} {em : List τ} (h : M.run k w = some (k', t :: em)) :
    M.Head k t := by
  induction w generalizing k with
  | nil => cases h
  | cons i w ih =>
    obtain ⟨k₁, e, em₁, hstep, hrun, hout⟩ := M.run_cons.mp h
    cases e with
    | none => exact (ih (hout ▸ hrun)).of_step hstep
    | some t' =>
      obtain ⟨rfl, -⟩ := List.cons.inj hout
      exact Head.of_flush (hM.emits_label hstep)

/-- A state reached by a word that is not empty is not flushed in silence. -/
theorem flush_of_run {w : List ι} {em : List τ} (hw : w ≠ [])
    (h : M.run k w = some (k', em)) : M.flush k' ≠ some none := by
  induction w generalizing k em with
  | nil => exact absurd rfl hw
  | cons i w ih =>
    obtain ⟨k₁, e, em₁, hstep, hrun, -⟩ := M.run_cons.mp h
    cases w with
    | nil =>
      cases hrun
      exact hM.flush_of_step hstep
    | cons j w => exact ih (List.cons_ne_nil j w) hrun

end Late
end Transducer
