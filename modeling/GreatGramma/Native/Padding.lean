import GreatGramma.Matcher.Replay
import GreatGramma.Native.Atomic

/-!
# Masks, padding and history

A batch keeps its two buffers from step to step, and a step that fails may leave anything in them.
Nothing of that shows in a later step that succeeds.

## The masks of a step

`Served` fixes the whole mask buffer of a step that succeeds by the rows and the pad token: the
slice of a running row is the mask that the core writes for its state, and the slice of an
accepted row holds the pad token and nothing else.  Some row runs, or the step would not have
succeeded.

## The history of a row

What a row is given by a step is its token, if the row runs and the step commits; a row that has
ended is given nothing, though its column holds a pad (`given`).  A row advances by what it is
given, and stays if it is given nothing (`Invariant.step_row`).  So, after any calls, failed ones
included, each row is described by exactly the tokens given to it (`Invariant.run_replays`), in
the sense of `Matcher.Replay`: neither a token of a step that failed nor a pad is among them.
-/

namespace GreatGramma

open Reservation ShiftReduce Traversal

/-! ## What a row is given -/

/-- The tokens that a call brings. -/
def NativeCall.tokens : NativeCall → Option (List TokenId)
  | .advanceAndMasksInner tokens | .advanceAndMasks tokens => some tokens
  | .initialMasksInner | .initialMasks => none

namespace NativeBatch

/-- What a call gives to a row: its token, if the row runs and the call commits. -/
def given (batch : NativeBatch) (memory : Memory) (row : ℕ) (c : NativeCall) : List TokenId :=
  match c.tokens, batch.matcher.states[row]? with
  | some tokens, some status =>
    if status.phase ≠ .accepted ∧ (batch.advanceInner tokens memory).1 = .ok () then
      tokens[row]?.toList
    else []
  | _, _ => []

/-- What a sequence of calls gives to a row. -/
def history (batch : NativeBatch) (memory : Memory) (row : ℕ) : List NativeCall → List TokenId
  | [] => []
  | c :: calls =>
    batch.given memory row c ++ history (batch.call memory c).1 (batch.call memory c).2 row calls

variable {batch : NativeBatch}

theorem given_step {memory : Memory} {row : ℕ} {status : MatcherStatus}
    (hrow : batch.matcher.states[row]? = some status) (tokens : List TokenId) :
    batch.given memory row (.advanceAndMasksInner tokens) =
      if status.phase ≠ .accepted ∧ (batch.advanceInner tokens memory).1 = .ok () then
        tokens[row]?.toList
      else [] := by
  simp only [given, NativeCall.tokens, hrow]

/-- **What a step does to a row**: it advances by what it is given, or it stays. -/
theorem Invariant.step_row (hb : batch.Invariant) (memory : Memory) (tokens : List TokenId)
    {row : ℕ} {status : MatcherStatus} (hrow : batch.matcher.states[row]? = some status) :
    ∃ status', (batch.advanceAndMasksInner tokens memory).2.1.matcher.states[row]? = some status' ∧
      ((batch.given memory row (.advanceAndMasksInner tokens) = [] ∧ status' = status) ∨
        ∃ token result, batch.given memory row (.advanceAndMasksInner tokens) = [token] ∧
          batch.matcher.prepared.advanceRow status token = .ok (result, status')) := by
  obtain ⟨reply, batch', memory', hstep, -, -, hcases⟩ :=
    hb.advanceAndMasksInner_cases tokens memory
  rw [hstep, given_step hrow]
  rcases hcases with ⟨-, ⟨e, hinner⟩, hstates, -⟩ | ⟨hinner, ⟨committed, hcommitted, hmatcher⟩, -⟩
  · refine ⟨status, by rw [hstates, hrow], Or.inl ⟨?_, rfl⟩⟩
    rw [if_neg]
    rintro ⟨-, hok⟩
    rw [hinner] at hok
    cases hok
  · obtain ⟨status', token, hrow', htoken, hrows⟩ := hcommitted.row hb hrow
    rw [← hmatcher] at hrow'
    refine ⟨status', hrow', ?_⟩
    rcases hrows with ⟨hphase, rfl⟩ | ⟨hphase, result, hadvance⟩
    · exact Or.inl ⟨if_neg fun h => h.1 hphase, rfl⟩
    · refine Or.inr ⟨token, result, ?_, hadvance⟩
      rw [if_pos ⟨hphase, hinner⟩, htoken, Option.toList_some]

/-- **Calls keep rows described.** -/
theorem Invariant.call_replays (hb : batch.Invariant) (memory : Memory) (c : NativeCall) {row : ℕ}
    {status : MatcherStatus} {tokens : List TokenId}
    (hrow : batch.matcher.states[row]? = some status)
    (htokens : batch.matcher.prepared.grammar.Replays tokens status) :
    ∃ status', (batch.call memory c).1.matcher.states[row]? = some status' ∧
      batch.matcher.prepared.grammar.Replays (tokens ++ batch.given memory row c) status' := by
  have hinitial : ∃ status', (batch.initialMasksInner memory).2.1.matcher.states[row]? =
      some status' ∧ batch.matcher.prepared.grammar.Replays (tokens ++ []) status' := by
    obtain ⟨-, -, hstates⟩ := hb.initialMasksInner memory
    rw [hstates, List.append_nil]
    exact ⟨status, hrow, htokens⟩
  have hstep : ∀ given : List TokenId, ∃ status',
      (batch.advanceAndMasksInner given memory).2.1.matcher.states[row]? = some status' ∧
      batch.matcher.prepared.grammar.Replays
        (tokens ++ batch.given memory row (.advanceAndMasksInner given)) status' := by
    intro given
    obtain ⟨status', hrow', ⟨hnone, rfl⟩ | ⟨token, result, hone, hadvance⟩⟩ :=
      hb.step_row memory given hrow
    · rw [hnone, List.append_nil]
      exact ⟨status', hrow', htokens⟩
    · rw [hone]
      exact ⟨status', hrow', hb.matcher.sound.advanceRow_replays
        (hb.matcher.rows _ (List.mem_of_getElem? hrow)) htokens hadvance⟩
  obtain ⟨poisoned, hcall⟩ := batch.call_inner memory c
  rw [hcall]
  cases c with
  | initialMasksInner => exact hinitial
  | initialMasks => exact hinitial
  | advanceAndMasksInner given => exact hstep given
  | advanceAndMasks given => exact hstep given

/-- **Runs keep rows described.** -/
theorem Invariant.run_replays (hb : batch.Invariant) (memory : Memory) (calls : List NativeCall)
    {row : ℕ} {status : MatcherStatus} {tokens : List TokenId}
    (hrow : batch.matcher.states[row]? = some status)
    (htokens : batch.matcher.prepared.grammar.Replays tokens status) :
    ∃ status', (batch.run memory calls).1.matcher.states[row]? = some status' ∧
      batch.matcher.prepared.grammar.Replays (tokens ++ batch.history memory row calls)
        status' := by
  induction calls generalizing batch memory status tokens with
  | nil =>
    rw [history, List.append_nil]
    exact ⟨status, hrow, htokens⟩
  | cons c calls ih =>
    obtain ⟨status₁, hrow₁, htokens₁⟩ := hb.call_replays memory c hrow htokens
    obtain ⟨hb₁, hprepared, -, -⟩ := hb.call memory c
    rw [← hprepared] at htokens₁ ⊢
    obtain ⟨status₂, hrow₂, htokens₂⟩ := ih hb₁ (batch.call memory c).2 hrow₁ htokens₁
    rw [List.append_assoc] at htokens₂
    exact ⟨status₂, hrow₂, htokens₂⟩

theorem Invariant.run (hb : batch.Invariant) (memory : Memory) (calls : List NativeCall) :
    (batch.run memory calls).1.Invariant ∧ batch.SameSession (batch.run memory calls).1 := by
  induction calls generalizing batch memory with
  | nil => exact ⟨hb, .refl batch⟩
  | cons c calls ih =>
    obtain ⟨hb₁, hsession₁⟩ := hb.call memory c
    obtain ⟨hb₂, hsession₂⟩ := ih hb₁ (batch.call memory c).2
    exact ⟨hb₂, hsession₁.trans hsession₂⟩

/-- **A step that succeeds**: it serves every row, gives every running row its token, and
leaves the accepted rows, whose tokens are pads, as they are. -/
theorem Invariant.step_ok (hb : batch.Invariant) {tokens : List TokenId} {memory : Memory}
    (hok : (batch.advanceAndMasksInner tokens memory).1 = .ok ()) :
    (batch.advanceAndMasksInner tokens memory).2.1.Served ∧
      ∀ (row : ℕ) (status : MatcherStatus), batch.matcher.states[row]? = some status →
        ∃ token, tokens[row]? = some token ∧
          (status.phase ≠ .accepted →
            batch.given memory row (.advanceAndMasksInner tokens) = [token]) ∧
          (status.phase = .accepted → batch.padTokenId = some token ∧
            batch.given memory row (.advanceAndMasksInner tokens) = [] ∧
            (batch.advanceAndMasksInner tokens memory).2.1.matcher.states[row]? =
              some status) := by
  obtain ⟨reply, batch', memory', hstep, -, -, hcases⟩ :=
    hb.advanceAndMasksInner_cases tokens memory
  rw [hstep] at hok ⊢
  obtain rfl : reply = .ok () := hok
  rcases hcases with ⟨⟨e, he⟩, -⟩ | ⟨hinner, ⟨committed, hcommitted, hmatcher⟩, hends⟩
  · cases he
  rcases hends with ⟨-, hserved⟩ | ⟨⟨e, he, -⟩, -⟩
  · refine ⟨hserved, fun row status hrow => ?_⟩
    obtain ⟨status', token, hrow', htoken, hrows⟩ := hcommitted.row hb hrow
    rw [given_step hrow]
    refine ⟨token, htoken, fun hphase => ?_, fun hphase => ?_⟩
    · rw [if_pos ⟨hphase, hinner⟩, htoken, Option.toList_some]
    · refine ⟨(hcommitted.passes row status token hrow htoken).2 hphase,
        if_neg fun h => h.1 hphase, ?_⟩
      rcases hrows with ⟨-, rfl⟩ | ⟨hrunning, -⟩
      · exact (congrArg (fun matcher : Matcher => matcher.states[row]?) hmatcher).trans hrow'
      · exact absurd hphase hrunning
  · cases he

/-- **Masks, padding and history of a native batch.**  After any calls on a batch that a
grammar gave out, failed ones included, a step that succeeds serves every row: some row
runs, the slice of a running row is the mask that the core writes for its state, and the
slice of an accepted row holds the pad token alone.  Each row is then described by exactly
the tokens given to it while it was running in calls that committed: the step gives a
running row its token, and an accepted row, which must be padded, nothing. -/
theorem step_serves_masks_and_history {grammar : NativeGrammar} {rows : ℕ}
    {padTokenId : Option TokenId} {memory₀ : Memory}
    (hnew : (grammar.newBatchInner rows padTokenId memory₀).1 = .ok batch) (memory : Memory)
    (calls : List NativeCall) (tokens : List TokenId) (memory' : Memory)
    (hok : ((batch.run memory calls).1.advanceAndMasksInner tokens memory').1 = .ok ()) :
    ((batch.run memory calls).1.advanceAndMasksInner tokens memory').2.1.Served ∧
      (∀ row < rows, ∃ status,
        ((batch.run memory calls).1.advanceAndMasksInner tokens memory').2.1.matcher.states[row]? =
          some status ∧
        batch.matcher.prepared.grammar.Replays
          (batch.history memory row calls ++
            (batch.run memory calls).1.given memory' row (.advanceAndMasksInner tokens)) status) ∧
      ∀ (row : ℕ) (status : MatcherStatus),
        (batch.run memory calls).1.matcher.states[row]? = some status →
        ∃ token, tokens[row]? = some token ∧
          (status.phase ≠ .accepted →
            (batch.run memory calls).1.given memory' row (.advanceAndMasksInner tokens) =
              [token]) ∧
          (status.phase = .accepted → padTokenId = some token ∧
            (batch.run memory calls).1.given memory' row (.advanceAndMasksInner tokens) = [] ∧
            ((batch.run memory calls).1.advanceAndMasksInner tokens
              memory').2.1.matcher.states[row]? = some status) := by
  obtain ⟨prepared, -, hb, hfresh, hpad⟩ := eq_newBatch hnew
  obtain ⟨hrun, hsession⟩ := hb.run memory calls
  obtain ⟨hserved, hrows⟩ := hrun.step_ok hok
  rw [hsession.pad, hpad] at hrows
  refine ⟨hserved, fun row hrow => ?_, hrows⟩
  have hfirst : batch.matcher.states[row]? = some prepared.initialRow := by
    rw [hfresh, Matcher.fresh, List.getElem?_replicate, if_pos hrow]
  have hnil : batch.matcher.prepared.grammar.Replays [] prepared.initialRow := by
    rw [hfresh]
    exact ValidatedGrammar.replays_nil
  obtain ⟨before, hbefore, htokens⟩ := hb.run_replays memory calls hfirst hnil
  rw [List.nil_append] at htokens
  rw [← hsession.prepared] at htokens ⊢
  exact hrun.call_replays memory' (.advanceAndMasksInner tokens) hbefore htokens

/-- The first row has ended, a step fails on its second row, and then the first row is
padded while the second goes on. -/
theorem step_serves_masks_and_history_reusableStack :
    ((reusableStackBatch.run .granting [.advanceAndMasks [0, 0], .advanceAndMasks [1, 0],
        .advanceAndMasks [0, 7]]).1.advanceAndMasksInner [0, 0] .granting).2.1.Served := by
  have hok : ((reusableStackBatch.run .granting [.advanceAndMasks [0, 0], .advanceAndMasks [1, 0],
      .advanceAndMasks [0, 7]]).1.advanceAndMasksInner [0, 0] .granting).1 = .ok () := by
    rw [reusableStackBatch_eq]
    decide +kernel
  exact (step_serves_masks_and_history reusableStackBatch_new .granting
    [.advanceAndMasks [0, 0], .advanceAndMasks [1, 0], .advanceAndMasks [0, 7]] [0, 0] .granting
    hok).1

end NativeBatch
end GreatGramma
