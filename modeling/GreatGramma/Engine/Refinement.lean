import GreatGramma.Engine.Commits

/-!
# The matcher refines the list of its rows

Every call on a matcher is answered as `PreparedGrammar.respond` answers it on the committed rows,
or a reservation was refused and the committed rows are what they were.  Nothing else of a matcher
enters: not the staging slots, not the scratch stack.

## The two machines

The matcher of the source keeps, beside its rows, a second set of rows to stage the next ones in,
a stack to replay heads on and a vector to collect masks in.  They are kept from call to call so
that calls need not reserve again, and they hold whatever the last call left there.  The other
machine has a list of rows and nothing else, and a function for each call (`Engine.Rows`).
Theorems about what is accepted, allowed or masked are proved of the second.

## The statement

`Matcher.call_answered` connects them, for one call, from any matcher that keeps the invariant,
with any allocator.  The invariant says that the committed rows are valid and that there are as
many staging slots as rows; what the slots hold is not part of it.  Reachable matchers keep the
invariant (`Engine.Runs`), so the claims about runs are about runs of `respond`.

There is one lemma for each method.  Those of the fused calls share the staging pass, with or
without a vector of results (`Invariant.advanceActiveAndMasksImpl_answered`).
-/

namespace GreatGramma

open Reservation ShiftReduce Traversal

/-! ## The invariant -/

namespace Matcher

/-- **What holds of every reachable matcher.** -/
structure Invariant (matcher : Matcher) : Prop where
  sound : matcher.prepared.Sound
  staging : matcher.staging.length = matcher.states.length
  rows : ∀ status ∈ matcher.states, status.Valid matcher.prepared.grammar

/-- **How a call is answered**: as the rows answer it, or with a refused reservation
that changes no row. -/
structure Answered (matcher : Matcher) (memory : Memory) (c : Call)
    (out : Reply × Matcher × Memory) : Prop where
  prepared : out.2.1.prepared = matcher.prepared
  staging : out.2.1.staging.length = matcher.states.length
  answer : ((out.1, out.2.1.states) = matcher.prepared.respond matcher.states c ∧
      Grants memory out.2.2) ∨
    (Refuses memory out.2.2 ∧
      (∃ requested, out.1.value = .error (.allocationFailure requested)) ∧
      out.2.1.states = matcher.states)

section
variable {matcher : Matcher} {memory memory' : Memory} {c : Call} {reply : Reply}
  {matcher' : Matcher}

theorem answered_of_respond (hprepared : matcher'.prepared = matcher.prepared)
    (hstaging : matcher'.staging.length = matcher.states.length)
    (hanswer : matcher.prepared.respond matcher.states c = (reply, matcher'.states))
    (hmemory : Grants memory memory') :
    matcher.Answered memory c (reply, matcher', memory') :=
  ⟨hprepared, hstaging, Or.inl ⟨hanswer.symm, hmemory⟩⟩

theorem answered_of_refused {e : EngineError} (hprepared : matcher'.prepared = matcher.prepared)
    (hstaging : matcher'.staging.length = matcher.states.length) (hmemory : Refuses memory memory')
    (hrefused : Refused e) (hvalue : reply.value = .error e)
    (hstates : matcher'.states = matcher.states) :
    matcher.Answered memory c (reply, matcher', memory') := by
  obtain ⟨requested, rfl⟩ := hrefused
  exact ⟨hprepared, hstaging, Or.inr ⟨hmemory, ⟨requested, hvalue⟩, hstates⟩⟩

theorem Answered.after {out : Reply × Matcher × Memory}
    (hmemory : Grants memory memory') (h : matcher.Answered memory' c out) :
    matcher.Answered memory c out := by
  refine ⟨h.prepared, h.staging, ?_⟩
  rcases h.answer with ⟨hanswer, hafter⟩ | ⟨hrefused, hanswer⟩
  · exact Or.inl ⟨hanswer, hmemory.trans hafter⟩
  · exact Or.inr ⟨hmemory.refuses hrefused, hanswer⟩

end

theorem clear_eq {output output' : List UInt8} (h : output.length = output'.length) :
    Mask.clear output = Mask.clear output' := by
  rw [Mask.clear, Mask.clear, h]

/-! ## The calls -/

variable {matcher : Matcher}

theorem Invariant.isCompleted_answered (hm : matcher.Invariant) (memory : Memory) (row : ℕ) :
    matcher.Answered memory (.isCompleted row) (matcher.call memory (.isCompleted row)) := by
  refine answered_of_respond rfl hm.staging ?_ (.refl _)
  simp only [PreparedGrammar.respond, isCompleted, state]
  cases matcher.states[row]? <;> rfl

theorem Invariant.allows_answered (hm : matcher.Invariant) (memory : Memory) (row : ℕ)
    (token : TokenId) :
    matcher.Answered memory (.allows row token) (matcher.call memory (.allows row token)) := by
  simp only [call, allows, state]
  cases hrow : matcher.states[row]? with
  | none =>
    refine answered_of_respond rfl hm.staging ?_ (.refl _)
    simp only [PreparedGrammar.respond, hrow]
    rfl
  | some status =>
    have hone := hm.sound.allowsStatus_settles (hm.rows _ (List.mem_of_getElem? hrow)) token memory
    dsimp only
    generalize matcher.prepared.allowsStatus status token memory = out at hone
    cases hone with
    | refused hs he => exact answered_of_refused rfl hm.staging hs he rfl rfl
    | done h hs =>
      refine answered_of_respond rfl hm.staging ?_ hs
      simp only [PreparedGrammar.respond, hrow, h]

theorem Invariant.mask_answered (hm : matcher.Invariant) (memory : Memory) (row : ℕ)
    (output : List UInt8) :
    matcher.Answered memory (.mask row output) (matcher.call memory (.mask row output)) := by
  have hclear : (Mask.clear output).length = output.length := List.length_replicate
  simp only [call, mask, fillSelectedMask]
  cases hrow : matcher.states[row]? with
  | none =>
    refine answered_of_respond rfl hm.staging ?_ (.refl _)
    simp only [PreparedGrammar.respond, hrow, clearOnError, clear_eq hclear]
    rfl
  | some status =>
    have hone := hm.sound.fillMaskWithScratch_settles (hm.rows _ (List.mem_of_getElem? hrow))
      ⟨Mask.clear output, ⟨matcher.scratch, memory⟩⟩
    dsimp only
    rw [hclear] at hone
    generalize matcher.prepared.fillMaskWithScratch status
      ⟨Mask.clear output, ⟨matcher.scratch, memory⟩⟩ = out at hone
    cases hone with
    | refused hs he => exact answered_of_refused rfl hm.staging hs he rfl rfl
    | @done reply written h hs =>
      obtain ⟨hwritten, hreply⟩ := h
      refine answered_of_respond rfl hm.staging ?_ hs
      simp only [PreparedGrammar.respond, hrow]
      cases hmask : matcher.prepared.maskRow output.length status with
      | error e =>
        rw [hmask] at hreply
        simp only [hreply, clearOnError, clear_eq hwritten]
        rfl
      | ok tokens =>
        rw [hmask] at hreply
        obtain ⟨rfl, houtput⟩ := hreply
        simp only [clearOnError, houtput]
        rfl

theorem Invariant.masks_answered (hm : matcher.Invariant) (memory : Memory)
    (output : List UInt8) :
    matcher.Answered memory (.masks output) (matcher.call memory (.masks output)) := by
  have hclear : (Mask.clear output).length = output.length := List.length_replicate
  simp only [call, masks, hclear]
  cases hmul : checkedMul matcher.states.length matcher.prepared.maskBytes with
  | none =>
    refine answered_of_respond rfl hm.staging ?_ (.refl _)
    simp only [PreparedGrammar.respond, hmul]
    rfl
  | some required =>
    obtain ⟨hfit, rfl⟩ := checkedMul_eq_some.mp hmul
    by_cases hlength : output.length < matcher.states.length * matcher.prepared.maskBytes
    · simp only [if_pos hlength]
      refine answered_of_respond rfl hm.staging ?_ (.refl _)
      simp only [PreparedGrammar.respond, hmul, if_pos hlength]
      rfl
    · simp only [if_neg hlength]
      have hall := PreparedGrammar.fillAllMasks_settles hm.sound
        ⟨Mask.clear output, ⟨matcher.scratch, memory⟩⟩ hm.rows hfit (Nat.not_lt.mp hlength) rfl
      generalize fillAllMasks matcher.prepared matcher.states
        ⟨Mask.clear output, ⟨matcher.scratch, memory⟩⟩ = out at hall
      cases hall with
      | refused hs he => exact answered_of_refused rfl hm.staging hs he rfl rfl
      | @done reply written h hs =>
        refine answered_of_respond rfl hm.staging ?_ hs
        simp only [PreparedGrammar.respond, hmul, if_neg hlength]
        cases hmasks : matcher.states.mapM
            (matcher.prepared.maskRow matcher.prepared.maskBytes) with
        | error e =>
          rw [hmasks] at h
          obtain ⟨rfl, hwritten⟩ := h
          simp only [clearOnError, clear_eq hwritten]
          rfl
        | ok masks =>
          rw [hmasks] at h
          obtain ⟨rfl, houtput⟩ := h
          simp only [clearOnError, houtput]
          rfl

theorem Invariant.advance_answered (hm : matcher.Invariant) (memory : Memory) (row : ℕ)
    (token : TokenId) :
    matcher.Answered memory (.advance row token) (matcher.call memory (.advance row token)) := by
  simp only [call, advance]
  cases hrow : matcher.states[row]? with
  | none =>
    refine answered_of_respond rfl hm.staging ?_ (.refl _)
    simp only [PreparedGrammar.respond, hrow]
    rfl
  | some status =>
    obtain ⟨hlt, -⟩ := List.getElem?_eq_some_iff.mp hrow
    have hone := nextStatusAt_settles hm.sound ⟨matcher.staging, memory⟩
      (hm.rows _ (List.mem_of_getElem? hrow)) (hm.staging.symm ▸ hlt : row < _) token
    have hkept := nextStatusAt_length matcher.prepared status row token ⟨matcher.staging, memory⟩
    dsimp only at hkept ⊢
    rw [hm.staging] at hkept
    generalize nextStatusAt matcher.prepared status row token ⟨matcher.staging, memory⟩ = out
      at hone hkept
    cases hone with
    | refused hs he => exact answered_of_refused rfl hkept hs he rfl rfl
    | @done reply written h hs =>
      cases hadvance : matcher.prepared.advanceRow status token with
      | error e =>
        rw [hadvance] at h
        subst h
        refine answered_of_respond rfl hkept ?_ hs
        simp only [PreparedGrammar.respond, hrow, hadvance]
        rfl
      | ok entry =>
        rw [hadvance] at h
        obtain ⟨rfl, hwritten⟩ := h
        have hslot : written.rows[row]? = some entry.2 := by
          rw [hwritten, List.getElem?_set_self (hm.staging.symm ▸ hlt)]
        simp only [swapStatusAt, hrow, hslot]
        refine answered_of_respond rfl ?_ ?_ hs
        · rw [List.length_set]
          exact hkept
        · simp only [PreparedGrammar.respond, hrow, hadvance]
          rfl

theorem Invariant.advanceBatch_answered (hm : matcher.Invariant) (memory : Memory)
    (tokens : List TokenId) :
    matcher.Answered memory (.advanceBatch tokens)
      (matcher.call memory (.advanceBatch tokens)) := by
  simp only [call, advanceBatch]
  by_cases htokens : tokens.length ≠ matcher.states.length
  · simp only [if_pos htokens]
    refine answered_of_respond rfl hm.staging ?_ (.refl _)
    simp only [PreparedGrammar.respond, if_pos htokens]
    rfl
  · simp only [if_neg htokens]
    rcases hreserve : memory.reserve with ⟨answer, memory₁⟩
    cases answer with
    | false => exact answered_of_refused rfl hm.staging (reserve_false hreserve) ⟨_, rfl⟩ rfl rfl
    | true =>
      have hone := stageBatch_settles hm.sound ⟨matcher.staging, memory₁⟩ hm.rows
        (not_not.mp htokens) hm.staging
      have hkept := stageBatch_length matcher.prepared matcher.states tokens
        ([], ⟨matcher.staging, memory₁⟩)
      refine .after (reserve_true hreserve) ?_
      dsimp only at hkept ⊢
      rw [hm.staging] at hkept
      generalize stageBatch matcher.prepared matcher.states tokens
        ([], ⟨matcher.staging, memory₁⟩) = out at hone hkept
      cases hone with
      | refused hs he => exact answered_of_refused rfl hkept hs he rfl rfl
      | @done reply staged h hs =>
        obtain ⟨results, staging⟩ := staged
        cases hadvance : matcher.prepared.advanceRows matcher.states tokens with
        | error e =>
          rw [hadvance] at h
          obtain ⟨rfl, -⟩ := h
          refine answered_of_respond rfl hkept ?_ hs
          simp only [PreparedGrammar.respond, if_neg htokens, hadvance]
          rfl
        | ok successors =>
          rw [hadvance] at h
          obtain ⟨rfl, hresults, hstaged⟩ := h
          have hlength := ((PreparedGrammar.advanceRows_eq_ok (not_not.mp htokens)).mp hadvance).1
          have hrows := hstaged.eq (by rw [List.length_map, hlength])
          refine answered_of_respond rfl rfl ?_ hs
          simp only [PreparedGrammar.respond, if_neg htokens, hadvance]
          dsimp only at hresults hrows
          rw [hresults, hrows]
          rfl

theorem Invariant.advanceActive_answered (hm : matcher.Invariant) (memory : Memory)
    (tokens : List (Option TokenId)) :
    matcher.Answered memory (.advanceActive tokens)
      (matcher.call memory (.advanceActive tokens)) := by
  simp only [call, advanceActive]
  by_cases htokens : tokens.length ≠ matcher.states.length
  · simp only [if_pos htokens]
    refine answered_of_respond rfl hm.staging ?_ (.refl _)
    simp only [PreparedGrammar.respond, if_pos htokens]
    rfl
  · simp only [if_neg htokens]
    rcases hreserve : memory.reserve with ⟨answer, memory₁⟩
    cases answer with
    | false => exact answered_of_refused rfl hm.staging (reserve_false hreserve) ⟨_, rfl⟩ rfl rfl
    | true =>
      have hone := stageActiveWithResults_settles hm.sound ⟨matcher.staging, memory₁⟩ false hm.rows
        (not_not.mp htokens) hm.staging
      have hkept := stageActiveWithResults_length matcher.prepared matcher.states tokens false
        ([], ⟨matcher.staging, memory₁⟩)
      refine .after (reserve_true hreserve) ?_
      dsimp only at hkept ⊢
      rw [hm.staging] at hkept
      generalize stageActiveWithResults matcher.prepared matcher.states tokens false
        ([], ⟨matcher.staging, memory₁⟩) = out at hone hkept
      cases hone with
      | refused hs he => exact answered_of_refused rfl hkept hs he rfl rfl
      | @done reply staged h hs =>
        obtain ⟨results, staging⟩ := staged
        cases hadvance : matcher.prepared.advanceActiveRows false matcher.states tokens with
        | error e =>
          rw [hadvance] at h
          obtain ⟨rfl, -⟩ := h
          refine answered_of_respond rfl hkept ?_ hs
          simp only [PreparedGrammar.respond, if_neg htokens, hadvance]
          rfl
        | ok successors =>
          rw [hadvance] at h
          obtain ⟨rfl, hresults, hstaged⟩ := h
          have hlength :=
            ((PreparedGrammar.advanceActiveRows_eq_ok (not_not.mp htokens)).mp hadvance).1
          have hrows := hstaged.eq (by rw [List.length_map, hlength])
          refine answered_of_respond rfl rfl ?_ hs
          simp only [PreparedGrammar.respond, if_neg htokens, hadvance]
          dsimp only at hresults hrows
          rw [hresults, hrows]
          rfl

/-! ## The fused calls

Rows are staged, masks are computed of the staged rows, and the two sets of rows are swapped.  A
failure in front of the swap leaves the committed rows alone. -/

/-- The staging pass of the fused calls, with or without a vector of results. -/
theorem Invariant.stageRows_settles (hm : matcher.Invariant) {tokens : List (Option TokenId)}
    (htokens : tokens.length = matcher.states.length)
    {results : Option (List (Option AdvanceResult))} (hresults : results.getD [] = [])
    (reportRejectedRow : Bool) (memory : Memory) :
    Settles ((results, ⟨matcher.staging, memory⟩) : Option (List (Option AdvanceResult)) × Staging)
      (Mirrors
        (fun successors staged => staged.1 = (results.map fun _ => successors.map Prod.fst) ∧
          Staged matcher.states.length (successors.map Prod.snd) staged.2.rows)
        (fun _ => True)
        (matcher.prepared.advanceActiveRows reportRejectedRow matcher.states tokens))
      (matcher.stageRows tokens results reportRejectedRow memory) := by
  cases results with
  | none =>
    have hone := stageActiveWithoutResults_settles hm.sound ⟨matcher.staging, memory⟩
      reportRejectedRow hm.rows htokens hm.staging
    simp only [stageRows]
    generalize stageActiveWithoutResults matcher.prepared matcher.states tokens reportRejectedRow
      ⟨matcher.staging, memory⟩ = out at hone
    cases hone with
    | refused hs he => exact .refused hs he
    | @done reply staging h hs =>
      refine .done ?_ hs
      cases hadvance : matcher.prepared.advanceActiveRows reportRejectedRow matcher.states
          tokens with
      | error e =>
        rw [hadvance] at h
        exact h
      | ok successors =>
        rw [hadvance] at h
        exact ⟨h.1, rfl, h.2⟩
  | some results =>
    obtain rfl : results = [] := hresults
    have hone := stageActiveWithResults_settles hm.sound ⟨matcher.staging, memory⟩
      reportRejectedRow hm.rows htokens hm.staging
    simp only [stageRows]
    generalize stageActiveWithResults matcher.prepared matcher.states tokens reportRejectedRow
      ([], ⟨matcher.staging, memory⟩) = out at hone
    cases hone with
    | refused hs he => exact .refused hs he
    | @done reply staging h hs =>
      refine .done ?_ hs
      cases hadvance : matcher.prepared.advanceActiveRows reportRejectedRow matcher.states
          tokens with
      | error e =>
        rw [hadvance] at h
        exact h
      | ok successors =>
        rw [hadvance] at h
        exact ⟨h.1, congrArg some h.2.1, h.2.2⟩

theorem stageRows_length (matcher : Matcher) (tokens : List (Option TokenId))
    (results : Option (List (Option AdvanceResult))) (reportRejectedRow : Bool) (memory : Memory) :
    (matcher.stageRows tokens results reportRejectedRow memory).2.2.rows.length =
      matcher.staging.length := by
  cases results with
  | none =>
    exact stageActiveWithoutResults_length matcher.prepared matcher.states tokens
      reportRejectedRow ⟨matcher.staging, memory⟩
  | some results =>
    exact stageActiveWithResults_length matcher.prepared matcher.states tokens
      reportRejectedRow (results, ⟨matcher.staging, memory⟩)

/-- How the fused calls end, with or without a vector of results. -/
structure FusedAnswered (matcher : Matcher) (memory : Memory) (tokens : List (Option TokenId))
    (output : List UInt8) (results : Option (List (Option AdvanceResult)))
    (reportRejectedRow : Bool)
    (out : Except EngineError Unit × Option (List (Option AdvanceResult)) × List UInt8 × Matcher ×
      Memory) : Prop where
  prepared : out.2.2.2.1.prepared = matcher.prepared
  staging : out.2.2.2.1.staging.length = matcher.states.length
  answer :
    ((match matcher.prepared.advanceAndMaskRows reportRejectedRow matcher.states tokens
        output.length with
      | .error e => out.1 = .error e ∧ out.2.2.1 = Mask.clear output ∧
          out.2.2.2.1.states = matcher.states
      | .ok (staged, masks) => out.1 = .ok () ∧
          out.2.1 = (results.map fun _ => staged.map Prod.fst) ∧
          out.2.2.1 = matcher.prepared.packMasks output.length masks ∧
          out.2.2.2.1.states = staged.map Prod.snd) ∧
      Grants memory out.2.2.2.2) ∨
    (Refuses memory out.2.2.2.2 ∧ (∃ requested, out.1 = .error (.allocationFailure requested)) ∧
      out.2.2.2.1.states = matcher.states)

/-- **Staging, then masks, then the swap.** -/
theorem Invariant.advanceActiveAndMasksImpl_answered (hm : matcher.Invariant) (memory : Memory)
    (tokens : List (Option TokenId)) (output : List UInt8)
    (results : Option (List (Option AdvanceResult))) (hresults : results.getD [] = [])
    (reportRejectedRow : Bool) :
    matcher.FusedAnswered memory tokens output results reportRejectedRow
      (matcher.advanceActiveAndMasksImpl tokens output results reportRejectedRow memory) := by
  have hclear : (Mask.clear output).length = output.length := List.length_replicate
  have hearly : ∀ {e : EngineError}, matcher.prepared.advanceAndMaskRows reportRejectedRow
      matcher.states tokens output.length = .error e →
      matcher.FusedAnswered memory tokens output results reportRejectedRow
        (.error e, results, Mask.clear output, matcher, memory) := fun {e} he =>
    ⟨rfl, hm.staging, Or.inl ⟨by rw [he]; exact ⟨rfl, rfl, rfl⟩, .refl _⟩⟩
  unfold advanceActiveAndMasksImpl
  dsimp only
  by_cases htokens : tokens.length ≠ matcher.states.length
  · rw [if_pos htokens]
    exact hearly (by rw [PreparedGrammar.advanceAndMaskRows, if_pos htokens])
  rw [if_neg htokens]
  cases hmul : checkedMul matcher.states.length matcher.prepared.maskBytes with
  | none => exact hearly (by rw [PreparedGrammar.advanceAndMaskRows, if_neg htokens, hmul])
  | some required =>
    obtain ⟨hfit, rfl⟩ := checkedMul_eq_some.mp hmul
    dsimp only
    rw [hclear]
    by_cases hlength : output.length < matcher.states.length * matcher.prepared.maskBytes
    · rw [if_pos hlength]
      refine hearly ?_
      simp only [PreparedGrammar.advanceAndMaskRows, if_neg htokens, hmul, if_pos hlength]
    rw [if_neg hlength]
    have hone := hm.stageRows_settles (not_not.mp htokens) hresults reportRejectedRow memory
    have hkept := matcher.stageRows_length tokens results reportRejectedRow memory
    rw [hm.staging] at hkept
    generalize matcher.stageRows tokens results reportRejectedRow memory = out at hone hkept
    cases hone with
    | refused hs he =>
      obtain ⟨requested, rfl⟩ := he
      exact ⟨rfl, hkept, Or.inr ⟨hs, ⟨requested, rfl⟩, rfl⟩⟩
    | @done reply staged h hs =>
      obtain ⟨results', staging⟩ := staged
      cases hadvance : matcher.prepared.advanceActiveRows reportRejectedRow matcher.states
          tokens with
      | error e =>
        rw [hadvance] at h
        obtain ⟨rfl, -⟩ := h
        refine ⟨rfl, hkept, Or.inl ⟨?_, hs⟩⟩
        simp only [PreparedGrammar.advanceAndMaskRows, if_neg htokens, hmul, if_neg hlength,
          hadvance, clear_eq hclear, and_self]
      | ok successors =>
        rw [hadvance] at h
        obtain ⟨rfl, hresults', hstaged⟩ := h
        dsimp only at hresults' hstaged hkept
        have hrows := ((PreparedGrammar.advanceActiveRows_eq_ok (not_not.mp htokens)).mp hadvance).1
        have hsuccessors : staging.rows = successors.map Prod.snd :=
          hstaged.eq (by rw [List.length_map, hrows])
        have hvalid : ∀ status ∈ staging.rows, status.Valid matcher.prepared.grammar := by
          rw [hsuccessors]
          exact hm.sound.commits_valid hm.rows
            (.active (c := .advanceActive tokens) rfl (not_not.mp htokens) hadvance)
        have hmasks := PreparedGrammar.fillStagedMasks_settles hm.sound
          ⟨Mask.clear output, ⟨matcher.scratch, staging.memory⟩⟩ hvalid (hkept.symm ▸ hfit)
          (hkept.symm ▸ Nat.not_lt.mp hlength) rfl
        dsimp only
        generalize fillStagedMasks matcher.prepared staging.rows
          ⟨Mask.clear output, ⟨matcher.scratch, staging.memory⟩⟩ = out at hmasks
        cases hmasks with
        | refused hs' he =>
          obtain ⟨requested, rfl⟩ := he
          exact ⟨rfl, hkept, Or.inr ⟨hs.refuses hs', ⟨requested, rfl⟩, rfl⟩⟩
        | @done reply written h hs' =>
          cases hmasked : staging.rows.mapM matcher.prepared.successorMask with
          | error e =>
            rw [hmasked] at h
            obtain ⟨rfl, hwritten⟩ := h
            refine ⟨rfl, hkept, Or.inl ⟨?_, hs.trans hs'⟩⟩
            rw [hsuccessors] at hmasked
            simp only [PreparedGrammar.advanceAndMaskRows, if_neg htokens, hmul, if_neg hlength,
              hadvance, hmasked, clear_eq hwritten, and_self]
          | ok masks =>
            rw [hmasked] at h
            obtain ⟨rfl, hwritten⟩ := h
            refine ⟨rfl, rfl, Or.inl ⟨?_, hs.trans hs'⟩⟩
            rw [hsuccessors] at hmasked
            simp only [PreparedGrammar.advanceAndMaskRows, if_neg htokens, hmul, if_neg hlength,
              hadvance, hmasked]
            exact ⟨trivial, hresults', hwritten, hsuccessors⟩

theorem Invariant.advanceActiveAndMasks_answered (hm : matcher.Invariant) (memory : Memory)
    (tokens : List (Option TokenId)) (output : List UInt8) :
    matcher.Answered memory (.advanceActiveAndMasks tokens output)
      (matcher.call memory (.advanceActiveAndMasks tokens output)) := by
  simp only [call, advanceActiveAndMasks]
  rcases hreserve : memory.reserve with ⟨answer, memory₁⟩
  cases answer with
  | false => exact answered_of_refused rfl hm.staging (reserve_false hreserve) ⟨_, rfl⟩ rfl rfl
  | true =>
    have himpl := hm.advanceActiveAndMasksImpl_answered memory₁ tokens output
      (some []) rfl false
    refine .after (reserve_true hreserve) ?_
    dsimp only
    generalize matcher.advanceActiveAndMasksImpl tokens output (some []) false memory₁ = out
      at himpl
    obtain ⟨reply, results, written, matcher', memory'⟩ := out
    obtain ⟨hprepared, hstaging, ⟨hanswer, hmemory⟩ | ⟨hrefused, ⟨requested, hreply⟩, hstates⟩⟩ :=
      himpl
    · dsimp only at hprepared hstaging hanswer
      cases hfused : matcher.prepared.advanceAndMaskRows false matcher.states tokens
          output.length with
      | error e =>
        rw [hfused] at hanswer
        obtain ⟨rfl, rfl, hstates⟩ := hanswer
        refine answered_of_respond hprepared hstaging ?_ hmemory
        simp only [PreparedGrammar.respond, hfused, hstates]
        rfl
      | ok out =>
        rw [hfused] at hanswer
        obtain ⟨rfl, rfl, rfl, hstates⟩ := hanswer
        refine answered_of_respond hprepared hstaging ?_ hmemory
        simp only [PreparedGrammar.respond, hfused, hstates]
        rfl
    · dsimp only at hprepared hstaging hreply hstates
      subst hreply
      exact answered_of_refused hprepared hstaging hrefused ⟨requested, rfl⟩ rfl hstates

theorem Invariant.advanceActiveAndMasksNoResult_answered (hm : matcher.Invariant)
    (memory : Memory) (tokens : List (Option TokenId)) (output : List UInt8) :
    matcher.Answered memory (.advanceActiveAndMasksNoResult tokens output)
      (matcher.call memory (.advanceActiveAndMasksNoResult tokens output)) := by
  have himpl := hm.advanceActiveAndMasksImpl_answered memory tokens output none rfl true
  simp only [call, advanceActiveAndMasksNoResult]
  generalize matcher.advanceActiveAndMasksImpl tokens output none true memory = out at himpl
  obtain ⟨reply, results, written, matcher', memory'⟩ := out
  obtain ⟨hprepared, hstaging, ⟨hanswer, hmemory⟩ | ⟨hrefused, ⟨requested, hreply⟩, hstates⟩⟩ :=
    himpl
  · dsimp only at hprepared hstaging hanswer
    cases hfused : matcher.prepared.advanceAndMaskRows true matcher.states tokens
        output.length with
    | error e =>
      rw [hfused] at hanswer
      obtain ⟨rfl, rfl, hstates⟩ := hanswer
      refine answered_of_respond hprepared hstaging ?_ hmemory
      simp only [PreparedGrammar.respond, hfused, hstates]
      rfl
    | ok out =>
      rw [hfused] at hanswer
      obtain ⟨rfl, -, rfl, hstates⟩ := hanswer
      refine answered_of_respond hprepared hstaging ?_ hmemory
      simp only [PreparedGrammar.respond, hfused, hstates]
      rfl
  · dsimp only at hprepared hstaging hreply hstates
    subst hreply
    exact answered_of_refused hprepared hstaging hrefused ⟨requested, rfl⟩ rfl hstates

/-! ## Every call -/

/-- **The refinement.**  Whatever the allocator does, a call is answered as the rows
answer it, or a reservation was refused and no row changes. -/
theorem Invariant.call_answered (hm : matcher.Invariant) (memory : Memory) (c : Call) :
    matcher.Answered memory c (matcher.call memory c) := by
  cases c with
  | isCompleted row => exact hm.isCompleted_answered memory row
  | mask row output => exact hm.mask_answered memory row output
  | masks output => exact hm.masks_answered memory output
  | allows row token => exact hm.allows_answered memory row token
  | advance row token => exact hm.advance_answered memory row token
  | advanceBatch tokens => exact hm.advanceBatch_answered memory tokens
  | advanceActive tokens => exact hm.advanceActive_answered memory tokens
  | advanceActiveAndMasks tokens output =>
    exact hm.advanceActiveAndMasks_answered memory tokens output
  | advanceActiveAndMasksNoResult tokens output =>
    exact hm.advanceActiveAndMasksNoResult_answered memory tokens output

/-- **Calls keep the invariant.** -/
theorem Invariant.call (hm : matcher.Invariant) (memory : Memory) (c : Call) :
    (matcher.call memory c).2.1.Invariant := by
  obtain ⟨hprepared, hstaging, hanswer⟩ := hm.call_answered memory c
  generalize matcher.call memory c = out at hprepared hstaging hanswer
  obtain ⟨reply, matcher', memory'⟩ := out
  dsimp only at hprepared hstaging hanswer ⊢
  rcases hanswer with ⟨hrespond, -⟩ | ⟨-, -, hstates⟩
  · have hrows : matcher'.states = (matcher.prepared.respond matcher.states c).2 :=
      congrArg Prod.snd hrespond
    refine ⟨hprepared ▸ hm.sound, ?_, ?_⟩
    · rw [hstaging, hrows, PreparedGrammar.respond_length]
    · rw [hprepared, hrows]
      exact hm.sound.respond_valid hm.rows c
  · refine ⟨hprepared ▸ hm.sound, ?_, ?_⟩
    · rw [hstaging, hstates]
    · rw [hprepared, hstates]
      exact hm.rows

end Matcher
end GreatGramma
