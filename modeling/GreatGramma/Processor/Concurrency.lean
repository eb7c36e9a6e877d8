import GreatGramma.Library.TryLock
import GreatGramma.Processor.History

/-!
# Calls from several threads

A processor tries a lock before a call and does not wait for it: while a call is under way, every
other is refused.  `call` is the work of a call in its three phases, under that lock.

## Interleavings

What the threads do is a list of events: a call is made, or the call that has the lock goes through
a phase.  All of them are considered.  The phases are those of `Processor.Call`, and done one after
the other they are the call (`call_implements`); between them the processor is in states that no
call sees, and what is true there is said by `Between`.

A call that is refused is one that was made while another had the lock.  It raises the same error
whatever is going on (`concurrentUse`) and touches nothing, which is all that has to be known of it.

## What follows

The calls that took the lock are served one after another, in the order in which they were made,
and those that were refused leave nothing behind (`concurrent_calls`).  So the calls that succeed
are one session, as in the use from one thread (`concurrent_session`).

The general part, which is about any work under such a lock, is in `Library.TryLock`.  What is
added here is that the work is a call and that a sequence of calls is a run of the processor with
its outcomes (`sequential_run`).
-/

namespace GreatGramma

open Reservation TryLock

/-- What a call raises that finds another under way. -/
def concurrentUse : Raised :=
  .own (.new .sequenceDiscontinuityError "the logits processor cannot be used concurrently")

/-- Where a call is that has the lock. -/
inductive CallPhase (S : Type) where
  | begun (input : InputIds) (scores : Scores S)
  | planned (scores : Scores S) (checked : Checked) (plan : Plan)
  | answered (scores : Scores S) (checked : Checked) (packed : List UInt8)

/-- The phases that are left behind this one. -/
def CallPhase.remaining {S : Type} : CallPhase S → ℕ
  | .begun .. => 2
  | .planned .. => 1
  | .answered .. => 0

namespace LogitsProcessor

variable {S R : Type} (masker : Masker S R)

/-- One phase of a call. -/
def callPhase : CallPhase S → LogitsProcessor × Memory →
    (LogitsProcessor × Memory) × (CallPhase S ⊕ Except Raised R)
  | .begun input scores, (processor, memory) =>
    match processor.prepareCall input scores.shape with
    | .error raised => ((processor, memory), .inr (.error raised))
    | .ok (checked, plan) => ((processor, memory), .inl (.planned scores checked plan))
  | .planned scores checked plan, (processor, memory) =>
    match processor.serve plan checked.position memory with
    | (.error raised, processor, memory) => ((processor, memory), .inr (.error raised))
    | (.ok packed, processor, memory) =>
      ((processor, memory), .inl (.answered scores checked packed))
  | .answered scores checked packed, (processor, memory) =>
    match processor.finish masker scores checked packed with
    | (result, processor) => ((processor, memory), .inr result)

/-- `GreatGrammaLogitsProcessor.__call__`. -/
def call : Work (InputIds × Scores S) (CallPhase S) (LogitsProcessor × Memory)
    (Except Raised R) where
  start := fun (input, scores) => .begun input scores
  step := callPhase masker
  refuse := fun _ => .error concurrentUse

/-- A call without its lock. -/
def callAlone (arguments : InputIds × Scores S) (state : LogitsProcessor × Memory) :
    (LogitsProcessor × Memory) × Except Raised R :=
  match state.1.callLocked masker arguments.1 arguments.2 state.2 with
  | (result, processor, memory) => ((processor, memory), result)

/-- What the calls of a run return or raise. -/
def outcomes (processor : LogitsProcessor) (memory : Memory) :
    List (InputIds × Scores S) → List (Except Raised R)
  | [] => []
  | (input, scores) :: calls =>
    match processor.callLocked masker input scores memory with
    | (result, processor, memory) => result :: outcomes processor memory calls

/-- A call that has returned, if it succeeded. -/
def succeeded (returned : (InputIds × Scores S) × Except Raised R) :
    Option ((InputIds × Scores S) × R) :=
  match returned.2 with
  | .error _ => none
  | .ok result => some (returned.1, result)

variable {masker} {processor : LogitsProcessor} {memory : Memory}

/-! ## The phases of a call -/

/-- What a call has done before a phase. -/
def Between (masker : Masker S R) (arguments : InputIds × Scores S)
    (before : LogitsProcessor × Memory) : CallPhase S → LogitsProcessor × Memory → Prop
  | .begun input scores, now => arguments = (input, scores) ∧ now = before
  | .planned scores checked plan, now =>
    scores = arguments.2 ∧ now = before ∧
      before.1.prepareCall arguments.1 arguments.2.shape = .ok (checked, plan)
  | .answered scores checked packed, now =>
    callAlone masker arguments before =
      match now.1.finish masker scores checked packed with
      | (result, processor) => ((processor, now.2), result)

/-- **The phases of a call are the call.** -/
theorem call_implements : (call masker).Implements (callAlone masker) := by
  refine Work.implements_of_invariant (Between masker) (fun _ _ => ⟨rfl, rfl⟩) ?_ ?_
  · rintro ⟨input, scores⟩ ⟨processor, memory⟩ phase now phase' now' hbetween hstep
    cases phase with
    | begun input' scores' =>
      obtain ⟨harguments, rfl⟩ := hbetween
      cases harguments
      simp only [call, callPhase] at hstep
      cases hprepare : processor.prepareCall input scores.shape with
      | error raised =>
        rw [hprepare] at hstep
        cases hstep
      | ok prepared =>
        obtain ⟨checked, plan⟩ := prepared
        rw [hprepare] at hstep
        cases hstep
        exact ⟨rfl, rfl, hprepare⟩
    | planned scores' checked plan =>
      obtain ⟨rfl, rfl, hprepare⟩ := hbetween
      simp only [call, callPhase] at hstep
      rcases hserve : processor.serve plan checked.position memory with
        ⟨raised | packed, processor', memory'⟩
      · rw [hserve] at hstep
        cases hstep
      · rw [hserve] at hstep
        cases hstep
        simp only [Between, callAlone, callLocked, hprepare, hserve]
    | answered scores' checked packed => cases hstep
  · rintro ⟨input, scores⟩ ⟨processor, memory⟩ phase now now' result hbetween hstep
    cases phase with
    | begun input' scores' =>
      obtain ⟨harguments, rfl⟩ := hbetween
      cases harguments
      simp only [call, callPhase] at hstep
      cases hprepare : processor.prepareCall input scores.shape with
      | error raised =>
        rw [hprepare] at hstep
        cases hstep
        simp only [callAlone, callLocked, hprepare]
      | ok prepared =>
        rw [hprepare] at hstep
        cases hstep
    | planned scores' checked plan =>
      obtain ⟨rfl, rfl, hprepare⟩ := hbetween
      simp only [call, callPhase] at hstep
      rcases hserve : processor.serve plan checked.position memory with
        ⟨raised | packed, processor', memory'⟩
      · rw [hserve] at hstep
        cases hstep
        simp only [callAlone, callLocked, hprepare, hserve]
      · rw [hserve] at hstep
        cases hstep
    | answered scores' checked packed =>
      rw [show callAlone masker _ _ = _ from hbetween]
      cases hstep
      rfl

theorem callPhase_remaining (phase phase' : CallPhase S) (state state' : LogitsProcessor × Memory)
    (h : (call masker).step phase state = (state', .inl phase')) :
    phase'.remaining < phase.remaining := by
  cases phase with
  | begun input scores =>
    simp only [call, callPhase] at h
    split at h
    · cases h
    · cases h
      exact Nat.one_lt_two
  | planned scores checked plan =>
    simp only [call, callPhase] at h
    split at h
    · cases h
    · cases h
      exact Nat.zero_lt_one
  | answered scores checked packed => cases h

/-! ## Sequences of calls -/

theorem run_append (calls calls' : List (InputIds × Scores S)) :
    processor.run masker memory (calls ++ calls') =
      (processor.run masker memory calls).1.run masker (processor.run masker memory calls).2
        calls' := by
  induction calls generalizing processor memory with
  | nil => rfl
  | cons arguments calls ih =>
    rw [List.cons_append, run, run]
    exact ih

theorem outcomes_append (calls calls' : List (InputIds × Scores S)) :
    processor.outcomes masker memory (calls ++ calls') =
      processor.outcomes masker memory calls ++
        (processor.run masker memory calls).1.outcomes masker
          (processor.run masker memory calls).2 calls' := by
  induction calls generalizing processor memory with
  | nil => rfl
  | cons arguments calls ih =>
    rcases hcall : processor.callLocked masker arguments.1 arguments.2 memory with
      ⟨result, processor', memory'⟩
    simp only [List.cons_append, outcomes, run, hcall, ih]

/-- **A sequence of calls** is a run and its outcomes. -/
theorem sequential_run {results : List ((InputIds × Scores S) × Except Raised R)}
    {state : LogitsProcessor × Memory}
    (h : Sequential (callAlone masker) (processor, memory) results state) :
    state = processor.run masker memory (results.map Prod.fst) ∧
      results.map Prod.snd = processor.outcomes masker memory (results.map Prod.fst) := by
  induction h with
  | nil => exact ⟨rfl, rfl⟩
  | snoc arguments _ ih =>
    obtain ⟨hrun, houtcomes⟩ := ih
    constructor
    · rw [List.map_append, run_append, ← hrun]
      rfl
    · rw [List.map_append, List.map_append, outcomes_append, ← houtcomes, ← hrun]
      rfl

/-- The answers of a run are the outcomes that succeed. -/
theorem answers_eq_filterMap (results : List ((InputIds × Scores S) × Except Raised R))
    (h : results.map Prod.snd = processor.outcomes masker memory (results.map Prod.fst)) :
    processor.answers masker memory (results.map Prod.fst) = results.filterMap succeeded := by
  induction results generalizing processor memory with
  | nil => rfl
  | cons returned results ih =>
    obtain ⟨⟨input, scores⟩, result⟩ := returned
    simp only [List.map_cons, outcomes, List.cons.injEq] at h
    obtain ⟨hresult, hrest⟩ := h
    simp only [List.map_cons, answers, List.filterMap_cons, succeeded]
    rcases hcall : processor.callLocked masker input scores memory with
      ⟨raised | result', processor', memory'⟩
    · rw [hcall] at hresult hrest
      subst hresult
      exact ih hrest
    · rw [hcall] at hresult hrest
      subst hresult
      exact congrArg _ (ih hrest)

/-! ## Calls from several threads -/

variable (masker processor memory) in
/-- **Calls that interleave** are calls one after another.  Every call returns once or is under
way; those that took the lock did so in the order in which they were made, return what they
return one after another, and leave the processor as these do; those that did not are refused.
And the lock is given back within the three phases of a call. -/
theorem concurrent_calls (events : List (Event (InputIds × Scores S))) :
    let state := (call masker).run (.initial (processor, memory)) events
    (state.taken ++ state.refused.map Prod.fst).Perm (calls events) ∧
      state.taken.Sublist (calls events) ∧
      (∀ refused ∈ state.refused, refused.2 = .error concurrentUse) ∧
      state.served.map Prod.snd =
        processor.outcomes masker memory (state.served.map Prod.fst) ∧
      (state.holder = none →
        state.shared = processor.run masker memory (state.served.map Prod.fst)) ∧
      ∃ phases ≤ 3, ((call masker).run state (List.replicate phases .step)).holder = none := by
  intro state
  have himplements : (call masker).Implements (callAlone masker) := call_implements
  have hlinear := Work.run_linear himplements (processor, memory) events
  obtain ⟨free, hsequential, hfree, -⟩ := hlinear.sequential
  obtain ⟨hrun, houtcomes⟩ := sequential_run hsequential
  refine ⟨hlinear.perm, hlinear.ordered, hlinear.refused, houtcomes,
    fun hnone => (hfree hnone).trans hrun, ?_⟩
  cases hholder : state.holder with
  | none => exact ⟨0, Nat.zero_le 3, hholder⟩
  | some holder =>
    obtain ⟨phases, hphases, hreleased⟩ := Work.exists_released CallPhase.remaining
      (fun phase before after phase' => callPhase_remaining phase phase' before after) state hholder
    have hremaining : holder.2.remaining ≤ 2 := by
      cases holder.2 with
      | begun input scores => exact le_rfl
      | planned scores checked plan => exact Nat.le_succ 1
      | answered scores checked packed => exact Nat.zero_le 2
    exact ⟨phases, by omega, hreleased⟩

/-- **Threads share one session.**  Whatever calls interleave, those that succeed were given the
prompt and then one column more each time, in the order in which they were made, and they return
what the masker makes of the masks behind their rows. -/
theorem concurrent_session {native : NativeGrammar} {prompt : RawArray} {pad : Option TokenId}
    (hinit : (LogitsProcessor.init native prompt pad false memory).1 = .ok processor)
    (masker : Masker S R) (memory' : Memory) (events : List (Event (InputIds × Scores S))) :
    let state := (call masker).run (.initial (processor, memory')) events
    ∃ prepared session, native.prepared = some prepared ∧ prompt = .ofRows processor.prompt ∧
      (state.served.map Prod.fst).Sublist (calls events) ∧
      List.Forall₂ (Answer prepared.grammar pad prepared.maskBytes processor.prompt
        prepared.tokenCount masker) (state.served.filterMap succeeded) session ∧
      session.IsChain (Extends prepared.grammar pad) ∧
      ∀ first ∈ session.head?, first = List.replicate processor.prompt.length [] := by
  intro state
  have himplements : (call masker).Implements (callAlone masker) := call_implements
  have hlinear := Work.run_linear himplements (processor, memory') events
  obtain ⟨free, hsequential, -⟩ := hlinear.sequential
  obtain ⟨-, houtcomes⟩ := sequential_run hsequential
  have hordered : (state.served.map Prod.fst).Sublist (calls events) :=
    (List.sublist_append_left ..).trans hlinear.ordered
  obtain ⟨width, prepared, hprepared, hprompt, rfl, rfl, hdirect, -, hfresh, -, -, h⟩ :=
    init_consistent hinit
  obtain ⟨session, hanswers, hchain, hfirst⟩ :=
    h.answers_session masker hdirect memory' (state.served.map Prod.fst)
  rw [h.vocab, answers_eq_filterMap _ houtcomes] at hanswers
  refine ⟨_, session, hprepared, hprompt, hordered, hanswers, hchain, fun first hhead => ?_⟩
  cases hfirst first hhead with
  | first => rfl
  | next _ hstarted => exact absurd hfresh hstarted

/-- The prompt, a call that is refused, and a column behind the prompt. -/
def reusableStackEvents : List (Event (InputIds × Scores Unit)) :=
  [.call (.ofRows [[1, 1], [0, 1]], .ofShape 2 2), .step,
    .call (.ofRows [[1, 1, 0], [0, 1, 0]], .ofShape 2 2), .step, .step,
    .call (.ofRows [[1, 1, 0], [0, 1, 0]], .ofShape 2 2), .step, .step, .step]

/-- What has become of these calls. -/
def reusableStackServed : State (InputIds × Scores Unit) (CallPhase Unit)
    (LogitsProcessor × Memory) (Except Raised (List UInt8)) :=
  (call plainMasker).run (.initial (reusableStackProcessor, .granting)) reusableStackEvents

/-- The column is served when it is tried again. -/
theorem concurrent_session_reusableStack :
    (reusableStackServed.served.filterMap succeeded).map Prod.snd = [[1, 1], [3, 3]] ∧
      reusableStackServed.refused.length = 1 ∧
      ∃ session, List.Forall₂ (Answer reusableStackPrepared.grammar (some 0)
        reusableStackPrepared.maskBytes [[1, 1], [0, 1]] reusableStackPrepared.tokenCount
        plainMasker) (reusableStackServed.served.filterMap succeeded) session := by
  refine ⟨?_, ?_, ?_⟩
  · rw [reusableStackServed, reusableStackProcessor, reusableStackBatch_eq]
    decide +kernel
  · rw [reusableStackServed, reusableStackProcessor, reusableStackBatch_eq]
    decide +kernel
  · obtain ⟨prepared, session, hprepared, -, -, hanswers, -⟩ :=
      concurrent_session reusableStackProcessor_init plainMasker .granting reusableStackEvents
    obtain rfl := Option.some.inj hprepared
    exact ⟨session, hanswers⟩

end LogitsProcessor
end GreatGramma
