import GreatGramma.Matcher.Masks
import GreatGramma.Native.Steps

/-!
# When a failed step changes nothing

The core call of a step is atomic: it commits every row or none.  The step is not, and there is
one way for it not to be.  Behind the core call the running rows are counted, and when none is
left the step reports that the batch is completed, with its rows already advanced.

## Finishing steps

A step *finishes* a batch if some row runs, every running row is given an EOS token that it
accepts, and every accepted row its pad token (`Finishing`).  This is a condition on the rows
before the step and on its tokens.  Such a step is refused by nothing: if the allocator grants
what it asks for, it commits and then fails (`Finishing.not_refuses`, `Finishing.not_runs`).  So a
step that fails leaves the rows alone on a batch just if it is not a finishing step, and this is
the theorem: for every reachable batch and every tokens, a step is atomic with every allocator if
and only if it does not finish the batch (`step_atomic_iff_not_finishing`).

The other direction has one more case.  A step that commits and leaves no row running need not
have been a finishing one: there may have been no row running before it, and then every token was
a pad and no row changed (`Committed.states_of_not_runs`).

## The run

`step_not_atomic_reusableStack` is such a step, on a batch of two rows one of which has ended:
the second row ends too, the step reports that the batch is completed, and the row is accepted all
the same.
-/

namespace GreatGramma

open Reservation ShiftReduce Traversal

/-! ## Accepting

Rows accept by EOS tokens only, so whether a step can finish is seen from its tokens. -/

namespace PreparedGrammar

variable {prepared : PreparedGrammar} {lexer : LexerState} {stack : List ParserStateId}
  {token : TokenId}

/-- **A row accepts** by an EOS token that the checker accepts, and by no other. -/
theorem advanceRow_accepted_iff (hlexer : lexer.Valid prepared.grammar.lexer)
    (hstack : prepared.grammar.lalr.ValidStack stack) :
    (∃ result status', prepared.advanceRow ⟨.running lexer, stack⟩ token = .ok (result, status') ∧
        status'.phase = .accepted) ↔
      prepared.grammar.token token = some .eos ∧ prepared.grammar.ReadsEos lexer stack token := by
  constructor
  · rintro ⟨result, status', hadvance, hphase⟩
    simp only [advanceRow] at hadvance
    split_ifs at hadvance
    split at hadvance <;> try contradiction
    rename_i hrow
    cases hadvance
    unfold rowAfter at hrow
    cases heffect : prepared.effectOf lexer token with
    | none =>
      rw [heffect] at hrow
      cases hrow
    | some execution =>
      rw [heffect] at hrow
      rcases effectOf_cases heffect with
        ⟨bytes, lexer', emitted', hentry, hrun, rfl⟩ | ⟨label, hentry, hflush, rfl⟩
      · obtain ⟨allowed, hallowed, hafter⟩ := map_eq_ok.mp hrow
        cases allowed <;> cases hafter
        cases hphase
      · obtain ⟨accepted, haccepted, hafter⟩ := map_eq_ok.mp hrow
        cases accepted with
        | false => cases hafter
        | true =>
          have hlabel := ValidatedGrammar.scanner_flush_emittable hflush
          refine ⟨hentry, _, _, ?_, (eosAnswer_eq_true hstack hlabel).mp haccepted⟩
          rw [ValidatedGrammar.executeToken_eq hlexer hentry, ValidatedGrammar.tokenEffect, hflush,
            Option.map_some]
  · rintro ⟨hentry, emitted, eof, hexecute, haccepted⟩
    rw [ValidatedGrammar.executeToken_eq hlexer hentry] at hexecute
    have hrange : token < prepared.grammar.tokenCount :=
      prepared.grammar.token_isSome.mp (by rw [hentry]; rfl)
    have heffect : prepared.effectOf lexer token = some (.finished emitted eof) := by
      rw [effectOf, hentry, Option.bind_some]
      exact Except.ok.inj hexecute
    obtain ⟨rfl, hemitted⟩ := effectOf_finished heffect
    have hanswer := (eosAnswer_eq_true hstack hemitted).mpr haccepted
    refine ⟨.accepted, .empty, ?_, rfl⟩
    rw [advanceRow_running hrange, rowAfter, heffect]
    dsimp only
    rw [hanswer]
    rfl

end PreparedGrammar

/-! ## The steps that finish a batch -/

namespace NativeBatch

variable {batch : NativeBatch} {tokens : List TokenId}

/-- **A step that finishes the batch**: some row runs, every running row is given an EOS
token that it accepts, and every accepted row its pad token. -/
structure Finishing (batch : NativeBatch) (tokens : List TokenId) : Prop where
  live : batch.poisoned = false
  length : tokens.length = batch.matcher.states.length
  runs : batch.Runs
  accepted : ∀ (row : ℕ) (status : MatcherStatus) (token : TokenId),
    batch.matcher.states[row]? = some status → tokens[row]? = some token →
    status.phase = .accepted → batch.padTokenId = some token
  running : ∀ (row : ℕ) (lexer : LexerState) (stack : List ParserStateId) (token : TokenId),
    batch.matcher.states[row]? = some ⟨.running lexer, stack⟩ → tokens[row]? = some token →
    batch.matcher.prepared.grammar.token token = some .eos ∧
      batch.matcher.prepared.grammar.ReadsEos lexer stack token

theorem Finishing.not_refuses (h : batch.Finishing tokens) (hb : batch.Invariant) :
    ¬ batch.Refuses tokens := by
  have hactive := activeFor_length h.length
  -- Every row takes its token and is accepted afterwards.
  have hrows : ∀ row, ∀ hrow : row < batch.matcher.states.length,
      ∀ htoken : row < (batch.activeFor tokens).length,
      ∃ result status', batch.matcher.prepared.advanceActiveRow true row batch.matcher.states[row]
        (batch.activeFor tokens)[row] = .ok (result, status') ∧ status'.phase = .accepted := by
    intro row hrow hslot
    have htoken := List.getElem?_eq_getElem (l := tokens) (h.length.symm ▸ hrow)
    have hstatus := List.getElem?_eq_getElem hrow
    have hentry := getElem?_activeFor hstatus htoken
    rw [List.getElem?_eq_getElem hslot, Option.some.injEq] at hentry
    rw [hentry]
    rcases hphase : batch.matcher.states[row] with ⟨_ | _, stack⟩
    · rename_i lexer
      rw [hphase] at hstatus
      obtain ⟨hlexer, hstack⟩ : lexer.Valid _ ∧ ValidatedLalr.ValidStack _ stack :=
        hb.matcher.rows _ (List.mem_of_getElem? hstatus)
      obtain ⟨result, status', hadvance, haccepted⟩ :=
        (PreparedGrammar.advanceRow_accepted_iff hlexer hstack).mpr
          (h.running row lexer stack _ hstatus htoken)
      refine ⟨some result, status', ?_, haccepted⟩
      exact PreparedGrammar.advanceActiveRow_eq_ok.mpr (Or.inr ⟨_, result, status', rfl, rfl,
        hadvance⟩)
    · exact ⟨none, .empty, rfl, rfl⟩
  rintro (hpoisoned | hlength | ⟨row, status, token, hstatus, htoken, hstuck⟩ | ⟨e, he⟩)
  · rw [h.live] at hpoisoned
    cases hpoisoned
  · exact hlength h.length
  · refine hstuck ⟨?_, h.accepted row status token hstatus htoken⟩
    obtain ⟨_ | _, stack⟩ := status
    · rename_i lexer
      obtain ⟨hentry, -⟩ := h.running row lexer stack token hstatus htoken
      exact batch.matcher.prepared.grammar.token_isSome.mp (by rw [hentry]; rfl)
    · exact hb.pad token (h.accepted row _ token hstatus htoken rfl)
  · rcases (PreparedGrammar.advanceAndMaskRows_eq_error hactive hb.fits
      (Nat.le_of_eq hb.buffer.symm)).mp he with hstuck | ⟨staged, hstaged, hdead⟩
    · obtain ⟨row, hrow, hslot, hfail, -⟩ :=
        (PreparedGrammar.advanceActiveRows_eq_error hactive).mp hstuck
      obtain ⟨result, status', hok, -⟩ := hrows row hrow hslot
      rw [hok] at hfail
      cases hfail
    · obtain ⟨hcount, hall⟩ := (PreparedGrammar.advanceActiveRows_eq_ok hactive).mp hstaged
      obtain ⟨row, hrow, hfail, -⟩ := mapM_eq_error.mp hdead
      rw [List.length_map] at hrow
      have hlt : row < batch.matcher.states.length := hcount ▸ hrow
      obtain ⟨result, status', hok, hphase⟩ := hrows row hlt (hactive.symm ▸ hlt)
      rw [hall row hlt (hactive.symm ▸ hlt) hrow] at hok
      rw [List.getElem_map, Except.ok.inj hok] at hfail
      simp only [PreparedGrammar.successorMask, hphase] at hfail
      cases hfail

/-- A step that commits and leaves no row running was a finishing step, or no row ran
before it. -/
theorem Committed.finishing {committed : NativeBatch} (h : batch.Committed tokens committed)
    (hb : batch.Invariant) (hnone : ¬ committed.Runs) (hruns : batch.Runs) :
    batch.Finishing tokens := by
  rw [not_runs] at hnone
  refine ⟨h.live, h.length, hruns, fun row status token hstatus htoken => ?_,
    fun row lexer stack token hstatus htoken => ?_⟩
  · exact (h.passes row status token hstatus htoken).2
  · obtain ⟨status', token', hstatus', htoken', ⟨hphase, -⟩ | ⟨-, result, hadvance⟩⟩ :=
      h.row hb hstatus
    · cases hphase
    · rw [htoken] at htoken'
      cases htoken'
      obtain ⟨hlexer, hstack⟩ : lexer.Valid _ ∧ ValidatedLalr.ValidStack _ stack :=
        hb.matcher.rows _ (List.mem_of_getElem? hstatus)
      exact (PreparedGrammar.advanceRow_accepted_iff hlexer hstack).mp
        ⟨result, status', hadvance, hnone row status' hstatus'⟩

theorem Finishing.not_runs {committed : NativeBatch} (h : batch.Finishing tokens)
    (hb : batch.Invariant) (hcommitted : batch.Committed tokens committed) :
    ¬ committed.Runs := by
  rintro ⟨row, status', hstatus', hphase'⟩
  have hlength := hcommitted.rows.length
  obtain ⟨hlt, -⟩ := List.getElem?_eq_some_iff.mp hstatus'
  have hstatus := List.getElem?_eq_getElem (l := batch.matcher.states) (hlength ▸ hlt)
  obtain ⟨status₁, token, hsame, htoken, ⟨hphase, rfl⟩ | ⟨hphase, result, hadvance⟩⟩ :=
    hcommitted.row hb hstatus
  · rw [hsame] at hstatus'
    cases hstatus'
    exact hphase' hphase
  · rw [hsame] at hstatus'
    cases hstatus'
    rcases hrow : batch.matcher.states[row] with ⟨_ | _, stack⟩
    · rename_i lexer
      rw [hrow] at hstatus hadvance
      obtain ⟨hlexer, hstack⟩ : lexer.Valid _ ∧ ValidatedLalr.ValidStack _ stack :=
        hb.matcher.rows _ (List.mem_of_getElem? hstatus)
      obtain ⟨result', status₂, hadvance', haccepted⟩ :=
        (PreparedGrammar.advanceRow_accepted_iff hlexer hstack).mpr
          (h.running row lexer stack token hstatus htoken)
      rw [hadvance] at hadvance'
      cases hadvance'
      exact hphase' haccepted
    · rw [hrow] at hphase
      exact hphase rfl

theorem Committed.states_of_not_runs {committed : NativeBatch}
    (h : batch.Committed tokens committed) (hb : batch.Invariant) (hnone : ¬ batch.Runs) :
    committed.matcher.states = batch.matcher.states := by
  rw [NativeBatch.not_runs] at hnone
  refine List.ext_getElem? fun row => ?_
  cases hstatus : batch.matcher.states[row]? with
  | none =>
    rw [List.getElem?_eq_none_iff] at hstatus ⊢
    rw [h.rows.length]
    exact hstatus
  | some status =>
    obtain ⟨status', token, hstatus', -, ⟨-, rfl⟩ | ⟨hphase, -⟩⟩ := h.row hb hstatus
    · exact hstatus'
    · exact absurd (hnone row status hstatus) hphase

/-! ## Atomicity -/

/-- A step that fails changes no row, whatever the allocator does. -/
def Atomic (batch : NativeBatch) (tokens : List TokenId) : Prop :=
  ∀ memory e, (batch.advanceAndMasksInner tokens memory).1 = .error e →
    (batch.advanceAndMasksInner tokens memory).2.1.matcher.states = batch.matcher.states

/-- **A step is atomic unless it finishes the batch.**  On a reachable batch, a step that
fails leaves every row as it was, with every allocator, exactly when it is not one in which
the last running rows accept. -/
theorem step_atomic_iff_not_finishing (h : batch.Reachable) (tokens : List TokenId) :
    batch.Atomic tokens ↔ ¬ batch.Finishing tokens := by
  have hb := h.invariant
  constructor
  · intro hatomic hfinishing
    obtain ⟨reply, batch', memory', hstep, -, -, hcases⟩ :=
      hb.advanceAndMasksInner_cases tokens .granting
    rcases hcases with ⟨-, -, -, hrefuses⟩ | ⟨-, ⟨committed, hcommitted, hmatcher⟩, hends⟩
    · exact hfinishing.not_refuses hb (hrefuses rfl)
    · have hnone := hfinishing.not_runs hb hcommitted
      have hnone' : ¬ batch'.Runs := by
        unfold Runs at hnone ⊢
        rw [hmatcher]
        exact hnone
      rcases hends with ⟨-, hserved⟩ | ⟨⟨e, rfl, -⟩, -⟩
      · exact hnone' hserved.runs
      · have hsame := hatomic .granting e (by rw [hstep])
        rw [hstep] at hsame
        unfold Runs at hnone'
        rw [hsame] at hnone'
        exact hnone' hfinishing.runs
  · intro hnot memory e he
    obtain ⟨reply, batch', memory', hstep, -, -, hcases⟩ :=
      hb.advanceAndMasksInner_cases tokens memory
    rw [hstep] at he ⊢
    rcases hcases with ⟨-, -, hstates, -⟩ | ⟨-, ⟨committed, hcommitted, hmatcher⟩, hends⟩
    · exact hstates
    · rcases hends with ⟨rfl, -⟩ | ⟨-, hnone⟩
      · cases he
      · unfold Runs at hnone
        rw [hmatcher] at hnone
        have hbefore : ¬ batch.Runs := fun hruns => hnot (hcommitted.finishing hb hnone hruns)
        exact (congrArg Matcher.states hmatcher).trans (hcommitted.states_of_not_runs hb hbefore)

theorem Reachable.run (h : batch.Reachable) (memory : Memory) (calls : List NativeCall) :
    (batch.run memory calls).1.Reachable := by
  induction calls generalizing batch memory with
  | nil => exact h
  | cons c calls ih => exact ih (h.call memory c) (batch.call memory c).2

end NativeBatch

/-- The lists of `a`, compiled. -/
def reusableStackNative : NativeGrammar where
  prepared := some reusableStackPrepared
  vocabSize := 2
  compiled := by
    rintro p h
    obtain rfl : reusableStackPrepared = p := Option.some.inj h
    refine ⟨⟨_, _, reusableStack_prepare⟩, ?_⟩
    rw [reusableStackPrepared_eq]
    rfl

/-- It gives out two rows. -/
theorem reusableStackNative_newBatch :
    (reusableStackNative.newBatchInner 2 (some 0) .granting).1 =
      .ok ⟨reusableStackMatcher, some 0, [none, none], [0, 0], false⟩ := by
  have hmul : checkedMul 2 reusableStackPrepared.maskBytes = some 2 := by
    rw [reusableStackPrepared_eq]
    rfl
  exact NativeBatch.newBatchInner_granting rfl two_ne_zero rfl hmul (by decide)

/-- Two rows, padded with the token of `a`. -/
def reusableStackBatch : NativeBatch :=
  (reusableStackNative.newBatchInner 2 (some 0) .granting).1.toOption.get (by
    rw [reusableStackNative_newBatch]
    rfl)

theorem reusableStackBatch_new :
    (reusableStackNative.newBatchInner 2 (some 0) .granting).1 = .ok reusableStackBatch :=
  eq_ok_get _ _

theorem reusableStackBatch_eq : reusableStackBatch =
    ⟨.fresh ⟨reusableStackGrammar, reusableStackSpanner, reusableStackParser, 1⟩ 2, some 0,
      [none, none], [0, 0], false⟩ := by
  have hnew := reusableStackBatch_new.symm.trans reusableStackNative_newBatch
  rw [reusableStackMatcher_eq] at hnew
  exact Except.ok.inj hnew

theorem reusableStackBatch_reachable : reusableStackBatch.Reachable :=
  .fresh reusableStackBatch_new

/-- Both rows have read `a`, and then the first ended. -/
def reusableStackHalf : NativeBatch :=
  (reusableStackBatch.run .granting
    [.advanceAndMasksInner [0, 0], .advanceAndMasksInner [1, 0]]).1

namespace NativeBatch

theorem reusableStackHalf_reachable : reusableStackHalf.Reachable := by
  rw [reusableStackHalf]
  exact reusableStackBatch_reachable.run .granting _

/-- The second row ends too: the step reports that the batch is completed, and the row is
accepted all the same. -/
theorem step_not_atomic_reusableStack :
    reusableStackHalf.Reachable ∧
      (reusableStackHalf.advanceAndMasksInner [0, 1] .granting).1 =
        .error (.new .sequenceCompleted "every generation row has already accepted EOS") ∧
      (reusableStackHalf.advanceAndMasksInner [0, 1] .granting).2.1.matcher.states =
        [.empty, .empty] ∧
      reusableStackHalf.matcher.states ≠ [.empty, .empty] := by
  refine ⟨reusableStackHalf_reachable, ?_⟩
  rw [reusableStackHalf, reusableStackBatch_eq]
  decide +kernel

/-- Two steps on the same rows: one that finishes the batch, and one that does not. -/
theorem step_atomic_iff_not_finishing_reusableStack :
    (reusableStackHalf.Atomic [0, 1] ↔ ¬ reusableStackHalf.Finishing [0, 1]) ∧
      (reusableStackHalf.Atomic [0, 0] ↔ ¬ reusableStackHalf.Finishing [0, 0]) :=
  ⟨step_atomic_iff_not_finishing reusableStackHalf_reachable [0, 1],
    step_atomic_iff_not_finishing reusableStackHalf_reachable [0, 0]⟩

end NativeBatch
end GreatGramma
