import GreatGramma.Engine.Answers
import GreatGramma.Matcher.FailClosed

/-!
# What a call looks up is there

The engine checks everything it takes out of a table or a vector.  A lookup that finds
nothing, and an answer that contradicts an earlier one, make the call give up with
`CorruptPreparedData`.  There are some twenty such places, and this module goes through
them: on a reachable matcher each of them finds what it looks for.

## A row

`Lookups` collects the places that look at one running row, in the order of the source.
The inverse row of its lexer state is there; every bucket of it has its head in the
sequence table and its cell in the classification of the top of the stack; its tokens are
tokens of the grammar.  The token table has an entry for every token, and an EOS entry
names the EOF of the parser table.  Every token has its bit in a mask that is long enough,
and setting it does not change the length.

Two of the fields are not lookups but agreements, and they carry the argument of the
module.  A token is allowed by its buckets, but it is the terminals it emits that are
executed, and these are only the beginning of a head.  That the execution then goes on
(`allowed`) is `Sound.parse_of_tokenAnswer`: a readable head begins with terminals the
parser takes.  And what an EOS token flushes never contains the EOF, so the parser cannot
accept before the EOF comes (`flush`), nor can a concrete run answer `dependent`, which
only a symbolic one does.

## A batch

`Slots` collects the places that index the vectors of a matcher.  There is one staging
slot for every row, and there still is one after any number of rows of a staging pass,
because every step of a pass overwrites a slot and none adds or removes one.  When the
masks of all rows fit in a `usize`, the slice of every row lies within the buffer.
-/

namespace GreatGramma

open Reservation ShiftReduce Traversal

/-! ## Rows -/

namespace PreparedGrammar

variable (prepared : PreparedGrammar)

/-- **What the engine looks up for a running row.** -/
structure Lookups (lexer : LexerState) (stack : List ParserStateId) : Prop where
  /-- The inverse row, and for every bucket of it the head, the cell under the top of the
  stack, and the tokens. -/
  buckets : ∃ buckets, prepared.spanner.inverseBuckets lexer = .ok buckets ∧
    ∀ bucketIndex < buckets.length, ∃ bucket top head cell,
      buckets[bucketIndex]? = some bucket ∧ stack.getLast? = some top ∧
      prepared.spanner.sequence bucket.sequence = some head ∧
      prepared.parser.classification top bucket.sequence = .ok cell ∧
      ∀ tokenIndex < bucket.tokens.length, ∃ token, bucket.tokens[tokenIndex]? = some token ∧
        token < prepared.tokenCount
  /-- The entry of a token, with the EOF of the table if it is an EOS token. -/
  execution : ∀ token < prepared.tokenCount, ∃ execution,
    prepared.spanner.tokenExecution lexer token = .ok execution ∧
    ∀ emitted eof, execution = some (.finished emitted eof) →
      eof = prepared.grammar.lalr.eofTerminal
  /-- Once the buckets allow a token, its execution goes on unless it runs out of memory. -/
  allowed : ∀ token < prepared.tokenCount, ∀ lexer' emitted,
    prepared.spanner.tokenExecution lexer token = .ok (some (.continue lexer' emitted)) →
    ∀ scratch written,
      prepared.ordinaryTokenAllowedWithScratch lexer stack token scratch = (.ok true, written) →
    ∀ destination reply,
      (executeTerminalsConcreteInto prepared.grammar.lalr stack emitted destination).1 = reply →
      reply = .ok .continue ∨ ∃ e, reply = .error e ∧ Refused e
  /-- The flushed terminals are never accepted before the EOF, and no decision about them
  or the EOF is left open. -/
  flush : ∀ token < prepared.tokenCount, ∀ emitted eof,
    prepared.spanner.tokenExecution lexer token = .ok (some (.finished emitted eof)) →
    ∀ destination decision written,
      executeTerminalsConcreteInto prepared.grammar.lalr stack emitted destination =
        (.ok decision, written) →
      decision = .rejected ∨ decision = .continue ∧
        (executeTerminalsConcreteInPlace prepared.grammar.lalr written [eof]).1 ≠ .ok .dependent
  /-- The bit of a token. -/
  bits : ∀ token < prepared.tokenCount, ∀ output : List UInt8,
    prepared.maskBytes ≤ output.length →
    ∃ written, Mask.set output token = (.ok (), written) ∧ written.length = output.length

variable {prepared} {lexer : LexerState} {stack : List ParserStateId}

/-- A concrete run leaves no decision open. -/
theorem runReply_ne_dependent {lalr : ValidatedLalr} {count : ℕ}
    (verdict : Verdict ParserStateId TerminalId ProductionId) :
    lalr.runReply .error count verdict ≠ .ok .dependent := by
  intro h
  cases verdict with
  | accepted rest =>
    simp only [ValidatedLalr.runReply] at h
    split_ifs at h
    cases h
  | fault f => cases f <;> cases h
  | _ => cases h

/-- **What the buckets allow is executed**: the terminals of an allowed token begin a
readable head. -/
theorem Sound.allowed (hsound : prepared.Sound) (hlexer : lexer.Valid prepared.grammar.lexer)
    (hstack : prepared.grammar.lalr.ValidStack stack) {token : TokenId} {lexer' : LexerState}
    {emitted : List TerminalId} (heffect : prepared.effectOf lexer token =
      some (.continue lexer' emitted))
    {scratch written : Workspace}
    (h : prepared.ordinaryTokenAllowedWithScratch lexer stack token scratch = (.ok true, written))
    (destination : Workspace) :
    Settles destination (fun reply _ => reply = .ok .continue)
      (executeTerminalsConcreteInto prepared.grammar.lalr stack emitted destination) := by
  have hanswer : prepared.tokenAnswer lexer stack token = .ok true := by
    have hsettles :=
      hsound.ordinaryTokenAllowedWithScratch_settles hlexer hstack token scratch
    rw [h] at hsettles
    exact (hsettles.of_not_refused fun e he => by cases he).symm
  have hvalid : prepared.grammar.lalr.ValidTerminals emitted := by
    rcases effectOf_cases heffect with ⟨_, _, _, -, hrun, heq⟩ | ⟨_, _, _, heq⟩ <;> cases heq
    exact (ValidatedGrammar.scanner_run_emittable hrun).valid
  have hlive := hsound.parse_of_tokenAnswer hlexer hstack heffect hanswer
  refine (executeTerminalsConcreteInto_settles hstack hvalid destination).mono ?_
  rintro reply written' ⟨rfl, -⟩
  rw [hlive]
  rfl

/-- **What the lexer flushes ends before the EOF.** -/
theorem flush_decision (hstack : prepared.grammar.lalr.ValidStack stack)
    {emitted : List TerminalId} (hemitted : prepared.grammar.lalr.Emittable emitted)
    {destination written : Workspace} {decision : RunDecision}
    (h : executeTerminalsConcreteInto prepared.grammar.lalr stack emitted destination =
      (.ok decision, written)) :
    decision = .rejected ∨ decision = .continue ∧
      (executeTerminalsConcreteInPlace prepared.grammar.lalr written
        [prepared.grammar.lalr.eofTerminal]).1 ≠ .ok .dependent := by
  have hleading := executeTerminalsConcreteInto_settles hstack hemitted.valid destination
  rw [h] at hleading
  obtain ⟨hreply, hwritten⟩ := hleading.of_not_refused fun e he => by cases he
  have heof : prepared.grammar.lalr.ValidTerminals [prepared.grammar.lalr.eofTerminal] :=
    fun t ht => List.mem_singleton.mp ht ▸ prepared.grammar.lalr.eofTerminal_lt
  cases hparse : prepared.grammar.lalr.table.parse stack emitted with
  | rejected =>
    rw [hparse] at hreply
    cases hreply
    exact Or.inl rfl
  | accepted rest => exact absurd hparse (ValidatedLalr.parse_ne_accepted hstack hemitted)
  | fault f =>
    rw [hparse] at hreply
    cases f <;> cases hreply
  | live stack' =>
    rw [hparse] at hreply
    cases hreply
    obtain rfl := hwritten stack' hparse
    refine Or.inr ⟨rfl, fun hdependent => ?_⟩
    have hend := executeTerminalsConcreteInPlace_settles written (hstack.parse hparse) heof
    obtain ⟨hlast, -⟩ := hend.of_not_refused fun e he => by rw [hdependent] at he; cases he
    exact runReply_ne_dependent _ (hlast.symm.trans hdependent)

/-- **Everything that is looked up for a valid row is there.** -/
theorem Sound.lookups (hsound : prepared.Sound) (hlexer : lexer.Valid prepared.grammar.lexer)
    (hstack : prepared.grammar.lalr.ValidStack stack) : prepared.Lookups lexer stack where
  buckets := by
    refine ⟨prepared.inverseRow lexer, hsound.inverseBuckets_eq hlexer, fun i hi => ?_⟩
    have hbucket : (prepared.inverseRow lexer)[i] ∈ prepared.inverseRow lexer :=
      List.getElem_mem hi
    obtain ⟨head, hhead, -⟩ := hsound.bucket_realizes hlexer hbucket
    obtain ⟨top, htop⟩ := Option.isSome_iff_exists.mp
      (List.getLast?_isSome.mpr hstack.1)
    obtain ⟨cell, hcell, -⟩ := hsound.cells (hstack.2 top (List.mem_of_getLast? htop)) hhead
    refine ⟨_, top, head, cell, List.getElem?_eq_getElem hi, htop, hhead, hcell, fun j hj => ?_⟩
    exact ⟨_, List.getElem?_eq_getElem hj,
      (hsound.effectOf_bucket hlexer hbucket (List.getElem_mem hj)).1⟩
  execution := by
    intro token htoken
    refine ⟨_, hsound.tokenExecution_effectOf hlexer htoken, fun emitted eof h => ?_⟩
    exact (effectOf_finished h).1
  allowed := by
    intro token htoken lexer' emitted hexecution scratch written hallowed destination reply hreply
    rw [hsound.tokenExecution_effectOf hlexer htoken, Except.ok.injEq] at hexecution
    have hsettles := hsound.allowed hlexer hstack hexecution hallowed destination
    generalize executeTerminalsConcreteInto prepared.grammar.lalr stack emitted destination = out
      at hsettles hreply
    cases hsettles with
    | refused hs he => exact Or.inr ⟨_, hreply.symm, he⟩
    | done h hs => exact Or.inl (hreply.symm.trans h)
  flush := by
    intro token htoken emitted eof hexecution destination decision written hrun
    rw [hsound.tokenExecution_effectOf hlexer htoken, Except.ok.injEq] at hexecution
    obtain ⟨rfl, hemitted⟩ := effectOf_finished hexecution
    exact flush_decision hstack hemitted hrun
  bits := by
    intro token htoken output hlength
    exact ⟨_, mask_set_eq (hsound.byte_lt htoken hlength), PackedBits.length_insert _ _⟩

end PreparedGrammar

/-! ## Batches -/

namespace Matcher

/-- **What the calls on a batch index.** -/
structure Slots (matcher : Matcher) : Prop where
  /-- The length of all masks, and the slice of every row within it. -/
  slices : ∃ required,
    checkedMul matcher.states.length matcher.prepared.maskBytes = some required ∧
    ∀ row < matcher.states.length, ∃ start stop,
      checkedMul row matcher.prepared.maskBytes = some start ∧
      checkedAdd start matcher.prepared.maskBytes = some stop ∧ stop ≤ required
  /-- The buffer is as long when a row is reached as it was at the first. -/
  buffer : ∀ (rows : List MatcherStatus) (row : ℕ) (buffers : MaskBuffers),
    (scan row (fillMaskRow matcher.prepared rows) buffers).2.output.length =
        buffers.output.length ∧
      (scan row (fillStagedMaskRow matcher.prepared rows) buffers).2.output.length =
        buffers.output.length
  /-- The slot of a row that advances alone, before and after it is written. -/
  advance : ∀ row < matcher.states.length, ∀ status token memory, ∃ slot written,
    matcher.staging[row]? = some slot ∧
      (nextStatusAt matcher.prepared status row token
        ⟨matcher.staging, memory⟩).2.rows[row]? = some written
  /-- The token, the row and the slot when a staging pass reaches a row. -/
  batch : ∀ (tokens : List TokenId) (memory : Memory), tokens.length = matcher.states.length →
    ∀ row < matcher.states.length, ∃ token status slot, tokens[row]? = some token ∧
      matcher.states[row]? = some status ∧
      (scan row (stageBatchRow matcher.prepared matcher.states tokens)
        ([], ⟨matcher.staging, memory⟩)).2.2.rows[row]? = some slot
  /-- The same for the passes in which accepted rows have no token. -/
  active : ∀ (tokens : List (Option TokenId)) (reportRejectedRow : Bool) (memory : Memory),
    tokens.length = matcher.states.length →
    ∀ row < matcher.states.length, ∃ token status slot slot', tokens[row]? = some token ∧
      matcher.states[row]? = some status ∧
      (scan row (stageActiveRowWithResult matcher.prepared matcher.states tokens
        reportRejectedRow) ([], ⟨matcher.staging, memory⟩)).2.2.rows[row]? = some slot ∧
      (scan row (stageActiveRowWithoutResult matcher.prepared matcher.states tokens
        reportRejectedRow) ⟨matcher.staging, memory⟩).2.rows[row]? = some slot'
  /-- A finished pass leaves a successor for every row. -/
  successors : ∀ tokens results reportRejectedRow memory,
    (matcher.stageRows tokens results reportRejectedRow memory).2.2.rows.length =
      matcher.states.length

variable {matcher : Matcher}

/-- A slot of a vector that is as long as the batch. -/
theorem exists_slot {rows : List MatcherStatus} (h : rows.length = matcher.states.length) {row : ℕ}
    (hrow : row < matcher.states.length) : ∃ slot, rows[row]? = some slot :=
  ⟨_, List.getElem?_eq_getElem (h.symm ▸ hrow)⟩

/-- **Every index of a call is in range**, if the masks of all rows fit in a `usize`. -/
theorem Invariant.slots (hm : matcher.Invariant)
    (hfits : matcher.states.length * matcher.prepared.maskBytes ≤ usizeMax) : matcher.Slots where
  slices := by
    refine ⟨_, checkedMul_eq_some.mpr ⟨hfits, rfl⟩, fun row hrow => ?_⟩
    have hstop : row * matcher.prepared.maskBytes + matcher.prepared.maskBytes ≤
        matcher.states.length * matcher.prepared.maskBytes := by
      rw [← Nat.succ_mul]
      exact Nat.mul_le_mul_right _ hrow
    exact ⟨_, _, checkedMul_eq_some.mpr ⟨by omega, rfl⟩,
      checkedAdd_eq_some.mpr ⟨by omega, rfl⟩, hstop⟩
  buffer rows row buffers :=
    ⟨scan_fillMaskRow_length matcher.prepared rows row buffers,
      scan_fillStagedMaskRow_length matcher.prepared rows row buffers⟩
  advance := by
    intro row hrow status token memory
    have hkept := (nextStatusAt_length matcher.prepared status row token
      ⟨matcher.staging, memory⟩).trans hm.staging
    obtain ⟨slot, hslot⟩ := exists_slot hm.staging hrow
    obtain ⟨written, hwritten⟩ := exists_slot hkept hrow
    exact ⟨slot, written, hslot, hwritten⟩
  batch := by
    intro tokens memory htokens row hrow
    have hkept := (scan_stageBatchRow_length matcher.prepared matcher.states tokens row
      ([], ⟨matcher.staging, memory⟩)).trans hm.staging
    obtain ⟨slot, hslot⟩ := exists_slot hkept hrow
    exact ⟨_, _, slot, List.getElem?_eq_getElem (htokens.symm ▸ hrow),
      List.getElem?_eq_getElem hrow, hslot⟩
  active := by
    intro tokens reportRejectedRow memory htokens row hrow
    have hkept := (scan_stageActiveRowWithResult_length matcher.prepared matcher.states tokens
      reportRejectedRow row ([], ⟨matcher.staging, memory⟩)).trans hm.staging
    have hkept' := (scan_stageActiveRowWithoutResult_length matcher.prepared matcher.states tokens
      reportRejectedRow row ⟨matcher.staging, memory⟩).trans hm.staging
    obtain ⟨slot, hslot⟩ := exists_slot hkept hrow
    obtain ⟨slot', hslot'⟩ := exists_slot hkept' hrow
    exact ⟨_, _, slot, slot', List.getElem?_eq_getElem (htokens.symm ▸ hrow),
      List.getElem?_eq_getElem hrow, hslot, hslot'⟩
  successors := by
    intro tokens results reportRejectedRow memory
    unfold stageRows
    cases results with
    | none => exact (stageActiveWithoutResults_length matcher.prepared matcher.states tokens
        reportRejectedRow ⟨matcher.staging, memory⟩).trans hm.staging
    | some results => exact (stageActiveWithResults_length matcher.prepared matcher.states tokens
        reportRejectedRow (results, ⟨matcher.staging, memory⟩)).trans hm.staging

end Matcher
end GreatGramma
