import GreatGramma.Engine.Runs

/-!
# Buffers after an error

A caller that ignores an error must not find a usable mask in its buffer.  Every call that writes
masks works on the whole buffer: whatever a failed call has written of it is cleared, with the
bytes behind the rows, and the rows stay as they were.

## The exit that does not

`advance_active_and_masks` reserves its vector of results before anything clears the buffer, so
when that reservation is refused the buffer is handed back as it came in.  Its variant without
results has no such vector, and clears first.  The theorem of this file says that this exit is the
only one (`failsClosed_iff`): a call fails closed unless its vector of results is refused while
the buffer holds something, and that is a condition on the input and on the first reservation.
`failsClosed_refused_results` is a run into it, with a mask in the buffer.

## How it is proved

Through all exits of a call, with any allocator.  This is not a matter of what a call settles to,
which says nothing of a call that was refused a reservation on the way; so the functions that
write are gone through once more, for one property that they keep however they end: they do not
change the length of the buffer.  What is cleared then is the buffer as long as it came in
(`call_closed`).
-/

namespace GreatGramma

open Reservation Traversal

/-! ## No function changes the length of its buffer

One lemma for each function that writes, from a bit to the masks of all rows. -/

theorem Mask.length_set (output : List UInt8) (token : TokenId) :
    (Mask.set output token).2.length = output.length := by
  simp only [Mask.set]
  split
  · exact List.length_set
  · rfl

theorem PreparedGrammar.fillBucketToken_length (bucket : InverseBucket) (tokenIndex : ℕ)
    (buffers : MaskBuffers) :
    (PreparedGrammar.fillBucketToken bucket tokenIndex buffers).2.output.length =
      buffers.output.length := by
  unfold PreparedGrammar.fillBucketToken
  split
  · rfl
  · rename_i token _
    have hset := Mask.length_set buffers.output token
    split <;> rename_i houtput <;> rw [houtput] at hset <;> exact hset

namespace PreparedGrammar

variable (prepared : PreparedGrammar)

theorem fillBucketMask_length (stack : List ParserStateId) (bucket : InverseBucket)
    (buffers : MaskBuffers) :
    (prepared.fillBucketMask stack bucket buffers).2.output.length = buffers.output.length := by
  unfold fillBucketMask
  split
  · rfl
  · rfl
  · rename_i scratch _
    exact sweep_keeps
      (P := fun (written : MaskBuffers) => written.output.length = buffers.output.length)
      (fun i written h => (fillBucketToken_length bucket i written).trans h) _ rfl

theorem fillOrdinaryMask_length (stack : List ParserStateId) (buckets : List InverseBucket)
    (buffers : MaskBuffers) :
    (prepared.fillOrdinaryMask stack buckets buffers).2.output.length = buffers.output.length := by
  refine sweep_keeps
    (P := fun (written : MaskBuffers) => written.output.length = buffers.output.length)
    (fun i written h => ?_) _ rfl
  unfold fillBucketAt
  split
  · exact h
  · exact (prepared.fillBucketMask_length stack _ written).trans h

theorem fillEosToken_length (lexer : LexerState) (stack : List ParserStateId) (token : TokenId)
    (buffers : MaskBuffers) :
    (prepared.fillEosToken lexer stack token buffers).2.output.length = buffers.output.length := by
  unfold fillEosToken
  split
  · rfl
  · split_ifs
    · rfl
    · split
      · rfl
      · have hset := Mask.length_set buffers.output token
        split <;> rename_i houtput <;> rw [houtput] at hset <;> exact hset
      · rfl
  · rfl

theorem fillEosMask_length (lexer : LexerState) (stack : List ParserStateId)
    (buffers : MaskBuffers) :
    (prepared.fillEosMask lexer stack buffers).2.output.length = buffers.output.length :=
  sweep_keeps (P := fun (written : MaskBuffers) => written.output.length = buffers.output.length)
    (fun token written h => (prepared.fillEosToken_length lexer stack token written).trans h) _ rfl

theorem fillMaskWithScratch_length (status : MatcherStatus) (buffers : MaskBuffers) :
    (prepared.fillMaskWithScratch status buffers).2.output.length = buffers.output.length := by
  unfold fillMaskWithScratch
  split
  · rfl
  · rename_i lexer _
    split_ifs
    · rfl
    · split
      · rfl
      · rename_i buckets _
        have hordinary := prepared.fillOrdinaryMask_length status.parserStack buckets buffers
        split
        · rename_i houtput
          rw [houtput] at hordinary
          exact hordinary
        · rename_i buffers₁ houtput
          rw [houtput] at hordinary
          have heos := (prepared.fillEosMask_length lexer status.parserStack buffers₁).trans
            hordinary
          split
          · rename_i houtput₂
            rw [houtput₂] at heos
            exact heos
          · rename_i houtput₂
            rw [houtput₂] at heos
            split_ifs <;> exact heos

end PreparedGrammar

variable (prepared : PreparedGrammar)

theorem fillRowSlice_length (status : MatcherStatus) (row : ℕ) (buffers : MaskBuffers) :
    (fillRowSlice prepared status row buffers).2.output.length = buffers.output.length := by
  unfold fillRowSlice
  split
  · rfl
  · rename_i start _
    split
    · rfl
    · rename_i stop hstop
      obtain ⟨-, rfl⟩ := checkedAdd_eq_some.mp hstop
      split_ifs with hfit
      · rfl
      · have hslice := prepared.fillMaskWithScratch_length status
          ⟨(buffers.output.take (start + prepared.maskBytes)).drop start, buffers.scratch⟩
        rw [List.length_drop, List.length_take] at hslice
        simp only [List.length_append, hslice, List.length_take, List.length_drop]
        omega

theorem scan_fillMaskRow_length (states : List MatcherStatus) (n : ℕ) (buffers : MaskBuffers) :
    (scan n (fillMaskRow prepared states) buffers).2.output.length = buffers.output.length := by
  refine scan_keeps
    (P := fun (written : MaskBuffers) => written.output.length = buffers.output.length)
    (fun row written h => ?_) n rfl
  unfold fillMaskRow
  split
  · exact h
  · exact (fillRowSlice_length prepared _ row written).trans h

theorem fillAllMasks_length (states : List MatcherStatus) (buffers : MaskBuffers) :
    (fillAllMasks prepared states buffers).2.output.length = buffers.output.length :=
  scan_fillMaskRow_length prepared states states.length buffers

theorem scan_fillStagedMaskRow_length (staging : List MatcherStatus) (n : ℕ)
    (buffers : MaskBuffers) :
    (scan n (fillStagedMaskRow prepared staging) buffers).2.output.length =
      buffers.output.length := by
  refine scan_keeps
    (P := fun (written : MaskBuffers) => written.output.length = buffers.output.length)
    (fun row written h => ?_) n rfl
  unfold fillStagedMaskRow
  split
  · exact h
  · split
    · exact (fillRowSlice_length prepared _ row written).trans h
    · exact h

theorem fillStagedMasks_length (staging : List MatcherStatus) (buffers : MaskBuffers) :
    (fillStagedMasks prepared staging buffers).2.output.length = buffers.output.length :=
  scan_fillStagedMaskRow_length prepared staging staging.length buffers

/-! ## Exits -/

/-- The buffer of a call that writes masks. -/
def Call.buffer : Call → Option (List UInt8)
  | .mask _ output => some output
  | .masks output => some output
  | .advanceActiveAndMasks _ output => some output
  | .advanceActiveAndMasksNoResult _ output => some output
  | _ => none

/-- The vector of results of `advance_active_and_masks` is refused. -/
def Call.ResultsRefused (memory : Memory) : Call → Prop
  | .advanceActiveAndMasks _ _ => memory.reserve.1 = false
  | _ => False

namespace Matcher

variable (matcher : Matcher)

theorem clear_eq_replicate {output : List UInt8} {n : ℕ} (h : output.length = n) :
    Mask.clear output = List.replicate n 0 := by
  rw [Mask.clear, h]

theorem mask_closed (row : ℕ) (output : List UInt8) (memory : Memory) {e : EngineError}
    (h : (matcher.mask row output memory).1 = .error e) :
    (matcher.mask row output memory).2.1 = List.replicate output.length 0 := by
  have hlength : (fillSelectedMask matcher.prepared matcher.states row matcher.states.length
      ⟨Mask.clear output, ⟨matcher.scratch, memory⟩⟩).2.output.length = output.length := by
    have hclear : (Mask.clear output).length = output.length := List.length_replicate
    unfold fillSelectedMask
    split
    · exact hclear
    · exact (matcher.prepared.fillMaskWithScratch_length _ _).trans hclear
  unfold mask at h ⊢
  generalize fillSelectedMask matcher.prepared matcher.states row matcher.states.length
    ⟨Mask.clear output, ⟨matcher.scratch, memory⟩⟩ = out at h hlength ⊢
  obtain ⟨reply, buffers⟩ := out
  obtain rfl : reply = .error e := h
  exact clear_eq_replicate hlength

theorem masks_closed (output : List UInt8) (memory : Memory) {e : EngineError}
    (h : (matcher.masks output memory).1 = .error e) :
    (matcher.masks output memory).2.1 = List.replicate output.length 0 := by
  rcases hmul : checkedMul matcher.states.length matcher.prepared.maskBytes with _ | required
  · simp only [masks, hmul]
    rfl
  · simp only [masks, hmul] at h ⊢
    split_ifs at h ⊢ with hsize
    · rfl
    · have hlength := (fillAllMasks_length matcher.prepared matcher.states
        ⟨Mask.clear output, ⟨matcher.scratch, memory⟩⟩).trans List.length_replicate
      generalize fillAllMasks matcher.prepared matcher.states
        ⟨Mask.clear output, ⟨matcher.scratch, memory⟩⟩ = out at h hlength ⊢
      obtain ⟨reply, buffers⟩ := out
      obtain rfl : reply = .error e := h
      exact clear_eq_replicate hlength

theorem advanceActiveAndMasksImpl_closed (tokens : List (Option TokenId)) (output : List UInt8)
    (results : Option (List (Option AdvanceResult))) (reportRejectedRow : Bool) (memory : Memory)
    {e : EngineError}
    (h : (matcher.advanceActiveAndMasksImpl tokens output results reportRejectedRow memory).1 =
      .error e) :
    (matcher.advanceActiveAndMasksImpl tokens output results reportRejectedRow memory).2.2.1 =
      List.replicate output.length 0 := by
  have hclear : (Mask.clear output).length = output.length := List.length_replicate
  rcases hmul : checkedMul matcher.states.length matcher.prepared.maskBytes with _ | required
  · simp only [advanceActiveAndMasksImpl, hmul]
    split_ifs <;> rfl
  · simp only [advanceActiveAndMasksImpl, hmul] at h ⊢
    split_ifs at h ⊢ with htokens hsize
    · rfl
    · rfl
    · generalize matcher.stageRows tokens results reportRejectedRow memory = out at h ⊢
      obtain ⟨reply, results', staging⟩ := out
      cases reply with
      | error e' => exact clear_eq_replicate hclear
      | ok _ =>
        have hlength := (fillStagedMasks_length matcher.prepared staging.rows
          ⟨Mask.clear output, ⟨matcher.scratch, staging.memory⟩⟩).trans hclear
        dsimp only at h ⊢
        generalize fillStagedMasks matcher.prepared staging.rows
          ⟨Mask.clear output, ⟨matcher.scratch, staging.memory⟩⟩ = out at h hlength ⊢
        obtain ⟨reply, buffers⟩ := out
        cases reply with
        | error e' => exact clear_eq_replicate hlength
        | ok _ => cases h

/-- **Every exit but one clears the buffer.** -/
theorem call_closed (memory : Memory) {c : Call} {output : List UInt8} {e : EngineError}
    (hbuffer : c.buffer = some output) (hresults : ¬ c.ResultsRefused memory)
    (h : (matcher.call memory c).1.value = .error e) :
    (matcher.call memory c).1.written = List.replicate output.length 0 := by
  cases c with
  | mask row output' =>
    cases hbuffer
    obtain ⟨e', he'⟩ : ∃ e', (matcher.mask row output memory).1 = .error e' :=
      ⟨e, map_eq_error.mp h⟩
    exact matcher.mask_closed row output memory he'
  | masks output' =>
    cases hbuffer
    exact matcher.masks_closed output memory (map_eq_error.mp h)
  | advanceActiveAndMasksNoResult tokens output' =>
    cases hbuffer
    exact matcher.advanceActiveAndMasksImpl_closed tokens output none true memory
      (map_eq_error.mp h)
  | advanceActiveAndMasks tokens output' =>
    cases hbuffer
    simp only [call, advanceActiveAndMasks] at h ⊢
    rcases hreserve : memory.reserve with ⟨answer, memory₁⟩
    cases answer with
    | false => exact absurd (congrArg Prod.fst hreserve) hresults
    | true =>
      have hclosed := matcher.advanceActiveAndMasksImpl_closed tokens output (some []) false
        memory₁ (e := e)
      rw [hreserve] at h
      dsimp only at h ⊢
      generalize matcher.advanceActiveAndMasksImpl tokens output (some []) false memory₁ = out
        at h hclosed ⊢
      obtain ⟨reply, results, written, matcher', memory'⟩ := out
      cases reply with
      | error e' =>
        cases h
        exact hclosed rfl
      | ok _ => cases h
  | _ => cases hbuffer

variable {matcher}

/-- **An error changes no row**, whatever the allocator does. -/
theorem Invariant.states_of_error (hm : matcher.Invariant) {memory : Memory} {c : Call}
    {e : EngineError} (h : (matcher.call memory c).1.value = .error e) :
    (matcher.call memory c).2.1.states = matcher.states := by
  rcases (hm.call_answered memory c).answer with ⟨hrespond, -⟩ | ⟨-, -, hstates⟩
  · obtain ⟨hreply, hstates⟩ := Prod.mk.inj hrespond
    rw [hstates]
    rcases matcher.prepared.respond_cases matcher.states c with ⟨hsame, -⟩ | ⟨-, ⟨v, hv⟩, -⟩
    · exact hsame
    · have hvalue := (congrArg Reply.value hreply).trans hv
      rw [h] at hvalue
      cases hvalue
  · exact hstates

/-- The call fails closed: an error leaves zeros in the buffer and the rows as they
were. -/
def FailsClosed (matcher : Matcher) (memory : Memory) (c : Call) (output : List UInt8) : Prop :=
  ∀ e, (matcher.call memory c).1.value = .error e →
    (matcher.call memory c).1.written = List.replicate output.length 0 ∧
      (matcher.call memory c).2.1.states = matcher.states

/-- **When a call that writes masks fails closed**: always, except that
`advance_active_and_masks` hands back a buffer as it came in when its vector of results
is refused. -/
theorem failsClosed_iff (h : matcher.Reachable) (memory : Memory) {c : Call}
    {output : List UInt8} (hbuffer : c.buffer = some output) :
    matcher.FailsClosed memory c output ↔
      ¬ (c.ResultsRefused memory ∧ ∃ byte ∈ output, byte ≠ 0) := by
  have hm := h.invariant
  constructor
  · rintro hclosed ⟨hresults, byte, hbyte, hne⟩
    cases c with
    | advanceActiveAndMasks tokens output' =>
      cases hbuffer
      obtain ⟨memory₁, hreserve⟩ : ∃ memory₁, memory.reserve = (false, memory₁) :=
        ⟨memory.reserve.2, Prod.ext hresults rfl⟩
      have hout : matcher.call memory (.advanceActiveAndMasks tokens output) =
          (⟨.error (.allocationFailure matcher.states.length), output⟩, matcher, memory₁) := by
        simp only [call, advanceActiveAndMasks, hreserve]
        rfl
      obtain ⟨hwritten, -⟩ := hclosed _ (congrArg (fun out => out.1.value) hout)
      rw [hout] at hwritten
      dsimp only at hwritten
      rw [hwritten] at hbyte
      exact hne (List.eq_of_mem_replicate hbyte)
    | _ => exact hresults
  · intro hexcept e he
    refine ⟨?_, hm.states_of_error he⟩
    by_cases hresults : c.ResultsRefused memory
    · have hzero : output = List.replicate output.length 0 := by
        refine List.eq_replicate_iff.mpr ⟨rfl, fun byte hbyte => ?_⟩
        by_contra hne
        exact hexcept ⟨hresults, byte, hbyte, hne⟩
      cases c with
      | advanceActiveAndMasks tokens output' =>
        cases hbuffer
        obtain ⟨memory₁, hreserve⟩ : ∃ memory₁, memory.reserve = (false, memory₁) :=
          ⟨memory.reserve.2, Prod.ext hresults rfl⟩
        simp only [call, advanceActiveAndMasks, hreserve]
        exact hzero
      | _ => exact absurd hresults id
    · exact matcher.call_closed memory hbuffer hresults he

/-- The vector of results is refused, and the caller's buffer held a mask. -/
theorem failsClosed_refused_results :
    ¬ ∀ (matcher : Matcher), matcher.Reachable → ∀ (memory : Memory) (c : Call)
      (output : List UInt8), c.buffer = some output → matcher.FailsClosed memory c output := by
  intro h
  have hclosed := h reusableStackMatcher reusableStackMatcher_reachable [false]
    (.advanceActiveAndMasks [some 0, some 0] [1, 1]) [1, 1] rfl
  obtain ⟨hwritten, -⟩ := hclosed (.allocationFailure 2) rfl
  exact absurd hwritten (by decide)

/-- A buffer of zeros is one of the inputs on which even that exit is closed. -/
theorem failsClosed_iff_reusableStack :
    reusableStackMatcher.FailsClosed [false]
        (.advanceActiveAndMasks [some 0, some 0] [0, 0]) [0, 0] ↔
      ¬ (Call.ResultsRefused [false] (.advanceActiveAndMasks [some 0, some 0] [0, 0]) ∧
        ∃ byte ∈ ([0, 0] : List UInt8), byte ≠ 0) :=
  failsClosed_iff reusableStackMatcher_reachable [false] rfl

end Matcher
end GreatGramma
