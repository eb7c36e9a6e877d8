import Mathlib.Data.List.Induction
import Mathlib.Data.List.Perm.Basic
import Mathlib.Logic.Relation
import Mathlib.Tactic.Common

/-!
# Work under a lock that is tried once

Operations work on a shared state in phases.  An operation takes a lock first and gives it back with
its result, and one that finds the lock taken is refused at once.  The phases of the operation that
holds the lock interleave in any way with the operations that are refused.

## Events

Two things can happen: an operation is called, or the one that holds the lock goes through a phase.
What happens in which order is a list of events, and nothing is assumed of it.  That one operation
holds the lock at most is no theorem here but a matter of the type of the state.

## Linearity

Whatever is interleaved, the operations that took the lock did so in the order in which they were
called, and they return what they return one after another.  Those that are refused leave nothing
behind, and every operation returns once or is under way (`run_linear`).  The step lemmas are one
for each event (`Linear.call`, `Linear.step`).  The lock is free again after the phases of one
operation (`exists_released`), so a caller that waits that long is not refused for ever.

What an operation does is given by its phases, and that they amount to one step when nothing comes
between them is a hypothesis (`Implements`), for which there is a rule (`implements_of_invariant`).
-/

namespace TryLock

open Relation

/-- Work in phases: a phase leads to the next, or to a result. -/
structure Work (Op L S R : Type*) where
  start : Op → L
  step : L → S → S × (L ⊕ R)
  refuse : Op → R

/-- An operation is called, or the one that holds the lock goes through a phase. -/
inductive Event (Op : Type*) where
  | call (op : Op)
  | step

/-- The shared state, who holds the lock, and what has returned. -/
structure State (Op L S R : Type*) where
  shared : S
  holder : Option (Op × L)
  served : List (Op × R)
  refused : List (Op × R)

variable {Op L S R : Type*}

/-- No operation was called yet. -/
def State.initial (shared : S) : State Op L S R := ⟨shared, none, [], []⟩

/-- The operation that is under way. -/
def State.underWay (state : State Op L S R) : List Op := (state.holder.map Prod.fst).toList

/-- The operations that took the lock. -/
def State.taken (state : State Op L S R) : List Op :=
  state.served.map Prod.fst ++ state.underWay

/-- The operations that are called. -/
def calls (events : List (Event Op)) : List Op :=
  events.filterMap fun
    | .call op => some op
    | .step => none

/-- Operations one after another, and their results. -/
inductive Sequential (exec : Op → S → S × R) (shared : S) : List (Op × R) → S → Prop
  | nil : Sequential exec shared [] shared
  | snoc {before : S} {results : List (Op × R)} (op : Op)
    (rest : Sequential exec shared results before) :
    Sequential exec shared (results ++ [(op, (exec op before).2)]) (exec op before).1

namespace Work

variable (work : Work Op L S R)

/-- What an event does. -/
def next (state : State Op L S R) : Event Op → State Op L S R
  | .call op =>
    match state.holder with
    | none => { state with holder := some (op, work.start op) }
    | some _ => { state with refused := state.refused ++ [(op, work.refuse op)] }
  | .step =>
    match state.holder with
    | none => state
    | some (op, phase) =>
      match work.step phase state.shared with
      | (shared, .inl phase) => { state with shared, holder := some (op, phase) }
      | (shared, .inr result) =>
        { state with shared, holder := none, served := state.served ++ [(op, result)] }

/-- What events do, one after another. -/
def run (state : State Op L S R) (events : List (Event Op)) : State Op L S R :=
  events.foldl work.next state

/-- A phase that leads to the next. -/
def Moves (before after : L × S) : Prop :=
  work.step before.1 before.2 = (after.2, .inl after.1)

/-- The phases of an operation, undisturbed, are one step. -/
def Implements (exec : Op → S → S × R) : Prop :=
  ∀ op shared phase shared' shared'' result,
    ReflTransGen work.Moves (work.start op, shared) (phase, shared') →
    work.step phase shared' = (shared'', .inr result) → exec op shared = (shared'', result)

variable {work} {exec : Op → S → S × R}

/-- Phases are one step where what holds between them says so. -/
theorem implements_of_invariant (Between : Op → S → L → S → Prop)
    (hstart : ∀ op shared, Between op shared (work.start op) shared)
    (hmove : ∀ op shared phase shared' phase' shared'', Between op shared phase shared' →
      work.step phase shared' = (shared'', .inl phase') → Between op shared phase' shared'')
    (hdone : ∀ op shared phase shared' shared'' result, Between op shared phase shared' →
      work.step phase shared' = (shared'', .inr result) → exec op shared = (shared'', result)) :
    work.Implements exec := by
  intro op shared phase shared' shared'' result hreach hstep
  have hbetween : ∀ reached, ReflTransGen work.Moves (work.start op, shared) reached →
      Between op shared reached.1 reached.2 := by
    intro reached hreached
    induction hreached with
    | refl => exact hstart op shared
    | tail _ hmoves ih => exact hmove op shared _ _ _ _ ih hmoves
  exact hdone op shared phase shared' shared'' result (hbetween _ hreach) hstep

/-! ## Runs -/

/-- What holds of the state after any events. -/
structure Linear (work : Work Op L S R) (exec : Op → S → S × R) (initial : S)
    (events : List (Event Op)) (state : State Op L S R) : Prop where
  sequential : ∃ free, Sequential exec initial state.served free ∧
    (state.holder = none → state.shared = free) ∧
    ∀ op phase, state.holder = some (op, phase) →
      ReflTransGen work.Moves (work.start op, free) (phase, state.shared)
  refused : ∀ answer ∈ state.refused, answer.2 = work.refuse answer.1
  perm : (state.taken ++ state.refused.map Prod.fst).Perm (calls events)
  ordered : state.taken.Sublist (calls events)

theorem calls_append (events events' : List (Event Op)) :
    calls (events ++ events') = calls events ++ calls events' := List.filterMap_append ..

section Next

variable {state : State Op L S R} {op : Op} {phase : L}

theorem next_takes (h : state.holder = none) :
    work.next state (.call op) = { state with holder := some (op, work.start op) } := by
  rw [Work.next]
  simp only [h]

theorem next_refuses (h : state.holder = some (op, phase)) (op' : Op) :
    work.next state (.call op') =
      { state with refused := state.refused ++ [(op', work.refuse op')] } := by
  rw [Work.next]
  simp only [h]

theorem next_idles (h : state.holder = none) : work.next state .step = state := by
  rw [Work.next]
  simp only [h]

theorem next_moves {shared : S} {phase' : L} (h : state.holder = some (op, phase))
    (hstep : work.step phase state.shared = (shared, .inl phase')) :
    work.next state .step = { state with shared := shared, holder := some (op, phase') } := by
  rw [Work.next]
  simp only [h, hstep]

theorem next_returns {shared : S} {result : R} (h : state.holder = some (op, phase))
    (hstep : work.step phase state.shared = (shared, .inr result)) :
    work.next state .step =
      { state with
        shared := shared, holder := none, served := state.served ++ [(op, result)] } := by
  rw [Work.next]
  simp only [h, hstep]

end Next

/-- **A call keeps the order.** -/
theorem Linear.call {initial : S} {events : List (Event Op)} {state : State Op L S R}
    (h : Linear work exec initial events state) (op : Op) :
    Linear work exec initial (events ++ [.call op]) (work.next state (.call op)) := by
  obtain ⟨free, hsequential, hfree, hheld⟩ := h.sequential
  have hcalls : calls (events ++ [.call op]) = calls events ++ [op] := calls_append ..
  cases hholder : state.holder with
  | none =>
    have htaken : State.taken { state with holder := some (op, work.start op) } =
        state.taken ++ [op] := by
      simp only [State.taken, State.underWay, hholder, Option.map_none, Option.map_some,
        Option.toList_none, Option.toList_some, List.append_nil]
    rw [next_takes hholder]
    refine ⟨⟨free, hsequential, (fun hnone => nomatch hnone), fun op' phase hsome => ?_⟩,
      h.refused, ?_, ?_⟩
    · cases hsome
      rw [hfree hholder]
    · rw [htaken, hcalls]
      calc state.taken ++ [op] ++ state.refused.map Prod.fst
        _ = state.taken ++ ([op] ++ state.refused.map Prod.fst) := List.append_assoc ..
        List.Perm _ (state.taken ++ (state.refused.map Prod.fst ++ [op])) :=
          List.perm_append_comm.append_left _
        _ = state.taken ++ state.refused.map Prod.fst ++ [op] := (List.append_assoc ..).symm
        List.Perm _ (calls events ++ [op]) := h.perm.append_right [op]
    · rw [htaken, hcalls]
      exact h.ordered.append (List.Sublist.refl [op])
  | some holder =>
    rw [next_refuses hholder]
    refine ⟨⟨free, hsequential, hfree, hheld⟩, fun answer hanswer => ?_, ?_, ?_⟩
    · rcases List.mem_append.mp hanswer with hold | hnew
      · exact h.refused answer hold
      · rw [List.mem_singleton.mp hnew]
    · rw [hcalls, List.map_append, ← List.append_assoc]
      exact h.perm.append_right [op]
    · rw [hcalls]
      exact h.ordered.trans (List.sublist_append_left ..)

/-- **A phase keeps the order.** -/
theorem Linear.step {initial : S} {events : List (Event Op)} {state : State Op L S R}
    (hexec : work.Implements exec) (h : Linear work exec initial events state) :
    Linear work exec initial (events ++ [.step]) (work.next state .step) := by
  obtain ⟨free, hsequential, hfree, hheld⟩ := h.sequential
  have hcalls : calls (events ++ [.step]) = calls events := by
    rw [calls_append]
    exact List.append_nil _
  cases hholder : state.holder with
  | none =>
    rw [next_idles hholder]
    exact ⟨h.sequential, h.refused, hcalls ▸ h.perm, hcalls ▸ h.ordered⟩
  | some holder =>
    obtain ⟨op, phase⟩ := holder
    have hreach := hheld op phase hholder
    rcases hstep : work.step phase state.shared with ⟨shared, phase' | result⟩
    · have htaken : State.taken { state with shared := shared, holder := some (op, phase') } =
          state.taken := by
        simp only [State.taken, State.underWay, hholder, Option.map_some]
      rw [next_moves hholder hstep]
      refine ⟨⟨free, hsequential, (fun hnone => nomatch hnone), fun op' phase'' hsome => ?_⟩,
        h.refused, ?_, ?_⟩
      · cases hsome
        exact hreach.tail hstep
      · rw [htaken, hcalls]
        exact h.perm
      · rw [htaken, hcalls]
        exact h.ordered
    · have htaken : State.taken (L := L) { state with
          shared := shared, holder := none, served := state.served ++ [(op, result)] } =
            state.taken := by
        simp only [State.taken, State.underWay, hholder, Option.map_some, Option.map_none,
          Option.toList_none, Option.toList_some, List.append_nil, List.map_append,
          List.map_cons, List.map_nil]
      -- the phases are done, so they were one step
      have hsnoc := hsequential.snoc op
      rw [hexec op free phase _ _ _ hreach hstep] at hsnoc
      rw [next_returns hholder hstep]
      refine ⟨⟨shared, hsnoc, (fun _ => rfl), fun op' phase'' hsome => nomatch hsome⟩,
        h.refused, ?_, ?_⟩
      · rw [htaken, hcalls]
        exact h.perm
      · rw [htaken, hcalls]
        exact h.ordered

/-- **Any interleaving is a sequence** of the operations that took the lock, in the order in
which they were called. -/
theorem run_linear (hexec : work.Implements exec) (initial : S) (events : List (Event Op)) :
    Linear work exec initial events (work.run (.initial initial) events) := by
  induction events using List.reverseRecOn with
  | nil =>
    exact ⟨⟨initial, .nil, (fun _ => rfl), fun op phase hsome => nomatch hsome⟩,
      (fun answer hanswer => absurd hanswer List.not_mem_nil), List.Perm.refl _,
      List.Sublist.refl _⟩
  | append_singleton events event ih =>
    rw [run, List.foldl_append]
    cases event with
    | call op => exact ih.call op
    | step => exact ih.step hexec

/-- **The lock is given back** after as many phases as are left. -/
theorem exists_released (remaining : L → ℕ)
    (hremaining : ∀ phase shared shared' phase', work.step phase shared = (shared', .inl phase') →
      remaining phase' < remaining phase) (state : State Op L S R) {op : Op} {phase : L}
    (hholder : state.holder = some (op, phase)) :
    ∃ steps ≤ remaining phase + 1,
      (work.run state (List.replicate steps .step)).holder = none := by
  induction hsize : remaining phase using Nat.strongRecOn generalizing state phase with
  | _ size ih =>
    rcases hstep : work.step phase state.shared with ⟨shared, phase' | result⟩
    · have hless := hremaining phase state.shared shared phase' hstep
      have hnext : (work.next state .step).holder = some (op, phase') := by
        rw [next_moves hholder hstep]
      obtain ⟨steps, hsteps, hreleased⟩ := ih (remaining phase') (hsize ▸ hless)
        (work.next state .step) hnext rfl
      exact ⟨steps + 1, by omega, hreleased⟩
    · refine ⟨1, Nat.le_add_left 1 size, ?_⟩
      rw [List.replicate_one, run, List.foldl_cons, List.foldl_nil, next_returns hholder hstep]

end Work
end TryLock
