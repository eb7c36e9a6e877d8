import GreatGramma.Compiler.Language
import GreatGramma.Processor.Masking
import GreatGramma.Processor.Trusted

/-!
# Generation loops

A loop calls a processor with the prompt, continues every row with a token whose score was left and
can be sampled, and calls it again with the longer rows (`Loop`).  The scores are whatever a model
makes them, and which of the tokens are taken is left open.

## How a call ends

In such a loop a call returns or fails (`loop_call`), in direct and in trusted mode.  If it
returns, it returns the scores of the tokens that may come next, one of which can be sampled in
every row, some row has not ended, and every reservation was granted (`Returns`).  If it fails
there is a cause in this call, and the exception tells which (`Fails`): a reservation was refused,
the parser tables are incomplete and what the call executes meets the fault, some row has no token
whose score can be sampled, or every row has ended.  It never fails because of the rows that it was
given.

Each cause but the second denies what a call that returns ensures, and the second is not met with a
compiled grammar (`compiled_never_corrupt`).  How a native call ends is the matter of
`Native.Failures`, and what the masker adds that of `Processor.Masking`.

## What is generated

What is generated so is the language of the grammar.  What stands in front of the first EOS token
of a row is of the language, pads follow it, and no token of an input of the language is ever
masked (`loop_language`).  The last part is about inputs and not about loops: whatever can be read
to the end could come token by token (`Sound.grows_of_readsEnd`).
-/

namespace GreatGramma

open Reservation ShiftReduce Traversal

/-! ## What may be generated -/

namespace ValidatedGrammar

variable {grammar : ValidatedGrammar} {pad : Option TokenId} {generated : List TokenId}
  {token : TokenId}

/-- Each token could come next. -/
def Grows (grammar : ValidatedGrammar) (pad : Option TokenId) (generated : List TokenId) : Prop :=
  ∀ before token rest, generated = before ++ token :: rest → grammar.Continues pad before token

theorem grows_nil : grammar.Grows pad [] := by
  intro before token rest h
  cases before <;> cases h

theorem Grows.snoc (h : grammar.Grows pad generated)
    (hnext : grammar.Continues pad generated token) :
    grammar.Grows pad (generated ++ [token]) := by
  intro before token' rest hsplit
  cases rest using List.reverseRecOn with
  | nil =>
    obtain ⟨rfl, hlast⟩ := List.append_inj' hsplit rfl
    obtain rfl := List.head_eq_of_cons_eq hlast
    exact hnext
  | append_singleton rest last _ =>
    have hsplit' : generated ++ [token] = (before ++ token' :: rest) ++ [last] := by
      rw [hsplit, List.append_assoc, List.cons_append]
    obtain ⟨hbefore, -⟩ := List.append_inj' hsplit' rfl
    exact h before token' rest hbefore

/-- **The EOS token that may come next** ends the row. -/
theorem Admits.readsEnd (h : grammar.Admits generated token)
    (heos : grammar.token token = some .eos) : grammar.ReadsEnd (generated ++ [token]) := by
  obtain ⟨lexer, stack, ⟨emitted, hreads, hexecute⟩, hread⟩ := h
  have hlexer : lexer.Valid grammar.lexer := by
    obtain ⟨bytes, -, hrun⟩ := hreads
    have hstart : LexerState.start.Valid grammar.lexer := trivial
    exact scanner_run_valid hstart hrun
  have hparse := (executeTerminals_continue_iff validStack_start hreads.emittable.valid).mp hexecute
  have hstack : grammar.lalr.ValidStack stack := by
    exact validStack_start.parse hparse
  rcases hread with ⟨lexer', emitted', hstep, -⟩ | ⟨flushed, eof, hstep, haccepted⟩
  · obtain ⟨bytes, hbytes, -⟩ := (executeToken_continue_iff hlexer).mp hstep
    rw [heos] at hbytes
    cases hbytes
  · rw [executeToken_eq hlexer heos, tokenEffect] at hstep
    obtain ⟨label, hflush, hout⟩ := Option.map_eq_some_iff.mp (Except.ok.inj hstep)
    cases hout
    have hlabel := scanner_flush_emittable hflush
    refine ⟨generated, token, lexer, emitted, label, _, rfl, heos, hreads,
      PreparedGrammar.lexerStep_eos_of_flush hflush, ?_⟩
    have hend := (executeTerminals_accepted_iff hstack hlabel.snoc_eof).mp haccepted
    refine (executeTerminals_accepted_iff validStack_start
      (hreads.emittable.append hlabel).snoc_eof).mpr ?_
    rw [List.append_assoc, Table.parse_append, hparse]
    exact hend

/-- **Behind the first EOS token**: the row has ended with it, and pads follow. -/
theorem Grows.eos (h : grammar.Grows pad generated) {before rest : List TokenId}
    {bytes : List UInt8} (hsplit : generated = before ++ token :: rest)
    (hspelling : grammar.spelling before = some bytes) (heos : grammar.token token = some .eos) :
    grammar.ReadsEnd (before ++ [token]) ∧ ∀ later ∈ rest, pad = some later := by
  constructor
  · rcases h before token rest hsplit with hadmits | ⟨hended, -⟩
    · exact hadmits.readsEnd heos
    · exact absurd hended (not_ended_of_spelling hspelling)
  · intro later hlater
    obtain ⟨front, back, rfl⟩ := List.append_of_mem hlater
    rcases h (before ++ token :: front) later back
      (by rw [hsplit, List.append_assoc, List.cons_append]) with
      ⟨_, _, ⟨_, hreads, -⟩, -⟩ | ⟨-, hpad⟩
    · obtain ⟨_, hspelled, -⟩ := hreads
      obtain ⟨bytes', hbytes⟩ := ordinary_of_spelling hspelled
        (List.mem_append_right before List.mem_cons_self)
      rw [heos] at hbytes
      cases hbytes
    · exact hpad

theorem Continues.lt (hpad : ∀ p, pad = some p → p < grammar.tokenCount)
    (h : grammar.Continues pad generated token) : token < grammar.tokenCount := by
  rcases h with ⟨lexer, stack, -, hread⟩ | ⟨-, rfl⟩
  · obtain ⟨execution, hexecute⟩ : ∃ execution,
        executeToken grammar lexer token = .ok (some execution) := by
      rcases hread with ⟨_, _, hexecute, -⟩ | ⟨_, _, hexecute, -⟩
      · exact ⟨_, hexecute⟩
      · exact ⟨_, hexecute⟩
    rw [← grammar.token_isSome]
    cases htoken : grammar.token token with
    | some entry => rfl
    | none =>
      simp only [executeToken, htoken] at hexecute
      split at hexecute <;> cases hexecute
  · exact hpad token rfl

end ValidatedGrammar

namespace PreparedGrammar

variable {prepared : PreparedGrammar}

theorem Sound.grows_of_respondAll (hsound : prepared.Sound) {pad : Option TokenId}
    {status : MatcherStatus} {generated tokens : List TokenId}
    (hstatus : status.Valid prepared.grammar)
    (hfollows : prepared.grammar.Follows pad generated status)
    (hgrows : prepared.grammar.Grows pad generated)
    (h : ∀ reply ∈ (prepared.respondAll [status] (tokens.map (.advance 0))).1,
      ∃ value, reply.value = .ok value) : prepared.grammar.Grows pad (generated ++ tokens) := by
  induction tokens generalizing status generated with
  | nil => rwa [List.append_nil]
  | cons token tokens ih =>
    rw [List.map_cons, respondAll, respond] at h
    dsimp only [List.getElem?_cons_zero] at h
    cases hadvance : prepared.advanceRow status token with
    | error e =>
      rw [hadvance] at h
      obtain ⟨value, hvalue⟩ := h _ List.mem_cons_self
      cases hvalue
    | ok out =>
      obtain ⟨result, status'⟩ := out
      rw [hadvance] at h
      obtain ⟨hnext, hfollows'⟩ := hsound.advanceRow_follows hstatus hfollows hadvance
      have hrest := ih (hsound.advanceRow_valid hstatus hadvance) hfollows' (hgrows.snoc hnext)
        fun reply hreply => h reply (List.mem_cons_of_mem _ hreply)
      rwa [List.append_assoc] at hrest

/-- **Nothing that can be read to the end is ever refused.** -/
theorem Sound.grows_of_readsEnd (hsound : prepared.Sound)
    (htable : prepared.grammar.TableAssumption) {pad : Option TokenId} {tokens : List TokenId}
    (h : prepared.grammar.ReadsEnd tokens) : prepared.grammar.Grows pad tokens := by
  obtain ⟨before, eos, lexer, emitted, flushed, eof, rfl, heos, ⟨bytes, hspelling, hrun⟩, hstep,
    haccepted⟩ := h
  have hstart : LexerState.start.Valid prepared.grammar.lexer := trivial
  have hflush : prepared.grammar.scanner.flush lexer = some flushed := by
    simp only [ValidatedGrammar.scanner, hstep]
  have hsame := hstep.symm.trans (lexerStep_eos_of_flush hflush)
  obtain ⟨-, rfl⟩ := LexerStep.finished.inj (Except.ok.inj hsame)
  obtain ⟨words, hwords, rfl, hne⟩ := ValidatedGrammar.spells_of_spelling hspelling
  have haccepts : ∃ emitted, foldLexerSteps prepared.grammar .start words.flatten = .ok emitted ∧
      (executeTerminals prepared.grammar [prepared.grammar.lalr.startState]
        (emitted ++ [prepared.grammar.lalr.eofTerminal]) .granting).1 = .ok (some .accepted) :=
    ⟨_, (ValidatedGrammar.foldLexerSteps_eq_ok hstart).mpr
      ⟨lexer, emitted, flushed, hrun, hflush, rfl⟩, haccepted⟩
  have hfirst : [prepared.initialRow][0]? =
      some ⟨.running .start, [prepared.grammar.lalr.startState]⟩ := rfl
  have hreplies := (hsound.respondAll_accepted_iff htable hstart ValidatedGrammar.reached_start
    hfirst hwords heos).mpr
      ((LookAhead.exists_feeds_finishes_iff (ValidatedGrammar.scanner_late prepared.grammar)
        hne).mpr (ValidatedGrammar.accepts_iff.mpr haccepts))
  suffices hgrows : prepared.grammar.Grows pad ([] ++ (before ++ [eos])) by
    rwa [List.nil_append] at hgrows
  refine hsound.grows_of_respondAll Matcher.initialRow_valid ValidatedGrammar.follows_nil
    ValidatedGrammar.grows_nil fun reply hreply => ?_
  rw [List.map_append, List.map_cons, List.map_nil] at hreply
  have hvalue := List.mem_map_of_mem (f := Reply.value) hreply
  rw [hreplies, List.mem_append] at hvalue
  rcases hvalue with hvalue | hvalue
  · obtain ⟨_, -, hvalue⟩ := List.mem_map.mp hvalue
    exact ⟨_, hvalue.symm⟩
  · exact ⟨_, List.mem_singleton.mp hvalue⟩

end PreparedGrammar

/-! ## Calls of a loop

A call of a loop passes all checks, so what it does is the native call and the masker. -/

namespace LogitsProcessor

variable {processor : LogitsProcessor} {width columns : ℕ} {histories next : List (List TokenId)}

theorem getLast_addColumn {rows : List (List ℤ)} {column : List TokenId}
    (hlength : column.length = rows.length) :
    (addColumn rows column).map (fun row => row.getLast?.getD 0) = column.map Nat.cast := by
  induction rows generalizing column with
  | nil => rw [List.length_eq_zero_iff.mp hlength]; rfl
  | cons row rows ih =>
    cases column with
    | nil => cases hlength
    | cons token column =>
      have hrest := ih (Nat.succ.inj hlength)
      rw [List.map_cons, ← hrest]
      refine congrArg (· :: _) ?_
      show (row ++ [(token : ℤ)]).getLast?.getD 0 = (token : ℤ)
      rw [List.getLast?_concat, Option.getD_some]

theorem Adds.rectangular (h : processor.Adds histories next)
    (hconsistent : processor.Consistent width columns histories) :
    ∃ columns', next.length = processor.prompt.length ∧
      (∀ generated ∈ next, generated.length = columns') ∧
      Rectangular (extendRows processor.prompt next) (width + columns') ∧
      (processor.previousWidth ≠ none → columns' = columns + 1) := by
  cases h with
  | first hfresh =>
    exact ⟨columns, hconsistent.count, hconsistent.lengths,
      hconsistent.prompt.extendRows hconsistent.count hconsistent.lengths,
      fun h => absurd hfresh h⟩
  | next _ hstarted hextends =>
    obtain ⟨column, hlength, -, rfl⟩ := hextends
    have hcount := (length_appendColumn hlength).trans hconsistent.count
    have hlengths : ∀ generated ∈ appendColumn histories column, generated.length = columns + 1 :=
      appendColumn_columns hconsistent.lengths
    exact ⟨columns + 1, hcount, hlengths, hconsistent.prompt.extendRows hcount hlengths,
      fun _ => rfl⟩

/-- **A loop passes the checks.** -/
theorem Consistent.prepareCall_next (h : processor.Consistent width columns histories)
    (hadds : processor.Adds histories next) (hlive : processor.poisoned = false)
    {scoreVocab : ℕ} (hvocab : processor.vocabSize ≤ scoreVocab)
    (hscores : ∀ w, processor.scoreVocabSize = some w → w = (scoreVocab : ℤ)) :
    ∃ columns' parsed plan,
      processor.prepareCall (.ofRows (extendRows processor.prompt next))
          (.sequence [.int processor.prompt.length, .int scoreVocab]) =
        .ok (⟨parsed, processor.prompt.length, (width + columns' : ℕ), scoreVocab⟩, plan) ∧
      next.length = processor.prompt.length ∧
      (∀ generated ∈ next, generated.length = columns') ∧
      (processor.trustedFixedAppend = false →
        parsed = some (extendRows processor.prompt next)) ∧
      ((plan = .initialMasks ∧ processor.previousWidth = none ∧ next = histories) ∨
        ∃ column, plan = .advance column ∧ processor.previousWidth ≠ none ∧
          column.length = histories.length ∧ next = appendColumn histories column ∧
          ∀ (row : ℕ) generated token, histories[row]? = some generated →
            column[row]? = some token → processor.batch.matcher.prepared.grammar.Continues
              processor.batch.padTokenId generated token) := by
  obtain ⟨columns', hcount, hlengths, hrect, hone⟩ := hadds.rectangular h
  have hrows := length_extendRows hcount
  -- the rows are read, unless the caller is trusted
  obtain ⟨parsed, hread, hparsed⟩ : ∃ parsed,
      processor.readRows (.ofRows (extendRows processor.prompt next)) =
        .ok (parsed, ((extendRows processor.prompt next).length : ℤ),
          ((width + columns' : ℕ) : ℤ)) ∧
      (¬ (processor.trustedFixedAppend ∧ processor.previousWidth ≠ none) →
        parsed = some (extendRows processor.prompt next)) := by
    by_cases hfull : processor.trustedFixedAppend ∧ processor.previousWidth ≠ none
    · exact ⟨_, readRows_ofRows_trusted hrect hfull.1 hfull.2, fun h => absurd hfull h⟩
    · exact ⟨_, readRows_ofRows hrect hfull, fun _ => rfl⟩
  have hchecked : processor.checkArguments (.ofRows (extendRows processor.prompt next))
      (.sequence [.int processor.prompt.length, .int scoreVocab]) =
        .ok ⟨parsed, processor.prompt.length, (width + columns' : ℕ), scoreVocab⟩ := by
    have hshape : scoreShape (.sequence [.int processor.prompt.length, .int scoreVocab]) =
        .ok ((processor.prompt.length : ℤ), (scoreVocab : ℤ)) := rfl
    have hwide : ¬ ((processor.prompt.length : ℤ) ≠ processor.prompt.length ∨
        (scoreVocab : ℤ) < processor.vocabSize) := by omega
    have hkept : ¬ (processor.scoreVocabSize ≠ none ∧
        processor.scoreVocabSize ≠ some (scoreVocab : ℤ)) := by
      rintro ⟨hsome, hne⟩
      obtain ⟨w, hw⟩ := Option.ne_none_iff_exists'.mp hsome
      exact hne (by rw [hw, hscores w hw])
    rw [checkArguments, hlive, if_neg Bool.false_ne_true, hread, hshape, hrows]
    dsimp only
    rw [if_neg (not_not.mpr rfl), if_neg hwide, if_neg hkept]
  obtain ⟨plan, hplan, hcases⟩ : ∃ plan,
      processor.planCall (.ofRows (extendRows processor.prompt next))
        ⟨parsed, processor.prompt.length, (width + columns' : ℕ), scoreVocab⟩ = .ok plan ∧
      ((plan = .initialMasks ∧ processor.previousWidth = none ∧ next = histories) ∨
        ∃ column, plan = .advance column ∧ processor.previousWidth ≠ none ∧
          column.length = histories.length ∧ next = appendColumn histories column ∧
          ∀ (row : ℕ) generated token, histories[row]? = some generated →
            column[row]? = some token → processor.batch.matcher.prepared.grammar.Continues
              processor.batch.padTokenId generated token) := by
    cases hadds with
    | first hfresh =>
      have hnil : ∀ generated ∈ histories, generated = [] := fun generated hmem =>
        List.length_eq_zero_iff.mp ((h.lengths generated hmem).trans (h.fresh hfresh))
      have hsame : ¬ parsed ≠ some processor.prompt := by
        rw [hparsed fun hfull => hfull.2 hfresh, extendRows_nil h.count hnil]
        exact not_not.mpr rfl
      refine ⟨.initialMasks, ?_, Or.inl ⟨rfl, hfresh, rfl⟩⟩
      rw [planCall, hfresh]
      exact if_neg hsame
    | next _ hstarted hextends =>
      obtain ⟨column, hlength, hcontinues, rfl⟩ := hextends
      have hbound : ∀ token ∈ column, token < processor.vocabSize := by
        intro token htoken
        obtain ⟨row, hrow⟩ := List.mem_iff_getElem?.mp htoken
        have hlt := hlength ▸ (List.getElem?_eq_some_iff.mp hrow).1
        rw [h.vocab]
        exact (hcontinues row _ token (List.getElem?_eq_getElem hlt) hrow).lt
          h.tracks.invariant.pad
      have hlength' : column.length = (extendRows processor.prompt histories).length := by
        rw [hlength, length_extendRows h.count, h.count]
      refine ⟨.advance column, ?_, Or.inr ⟨column, rfl, hstarted, hlength, rfl, hcontinues⟩⟩
      obtain ⟨previousWidth, hwidth⟩ := Option.ne_none_iff_exists'.mp hstarted
      obtain ⟨rfl, hprevious⟩ := h.started previousWidth hwidth
      rw [planCall, hwidth]
      dsimp only
      cases htrusted : processor.trustedFixedAppend with
      | true =>
        have hposition : ¬ ((width + columns' : ℕ) : ℤ) ≠ ((width + columns : ℕ) : ℤ) + 1 := by
          have := hone hstarted
          omega
        have hlast : lastTokens (InputIds.ofRows (extendRows processor.prompt
            (appendColumn histories column))).lastColumn processor.prompt.length =
              .ok (column.map Nat.cast) := by
          rw [lastTokens_eq_ok, InputIds.ofRows, extendRows_appendColumn, List.length_map,
            ← getLast_addColumn hlength', List.map_map, hlength, h.count]
          exact ⟨rfl, rfl⟩
        have htokens : processor.checkTokens (width + columns' : ℕ) 0 (column.map Nat.cast) =
            .ok column := checkTokens_eq_ok.mpr ⟨rfl, hbound⟩
        rw [if_pos rfl, if_neg hposition, hlast]
        dsimp only
        rw [htokens]
        rfl
      | false =>
        have htokens : processor.extendedTokens (width + columns' : ℕ) 0
            (extendRows processor.prompt histories)
            (extendRows processor.prompt (appendColumn histories column)) = .ok column :=
          extendedTokens_eq_ok.mpr ⟨hlength', extendRows_appendColumn _ _ _, hbound⟩
        rw [if_neg Bool.false_ne_true, hprevious htrusted,
          hparsed fun hfull => by rw [htrusted] at hfull; cases hfull.1]
        dsimp only
        rw [htokens]
        rfl
  have hdirect : processor.trustedFixedAppend = false →
      parsed = some (extendRows processor.prompt next) := by
    intro hdirect
    refine hparsed fun hfull => ?_
    rw [hdirect] at hfull
    cases hfull.1
  refine ⟨columns', parsed, plan, ?_, hcount, hlengths, hdirect, hcases⟩
  rw [prepareCall, hchecked]
  dsimp only
  rw [hplan]
  rfl

/-- **The second phase is the native call**: what it answers, and the allocator behind it. -/
theorem serve_reply (plan : Plan) (position : ℤ) (memory : Memory) :
    (processor.serve plan position memory).2.2 = (processor.nativeCall plan memory).2.2 ∧
      (processor.serve plan position memory).1 =
        (processor.nativeCall plan memory).1.mapError fun failure =>
          .own (fromNative failure.intoPyerr (some position)) := by
  rw [serve]
  rcases processor.nativeCall plan memory with ⟨reply, batch, memory'⟩
  cases reply with
  | error failure => exact ⟨rfl, rfl⟩
  | ok packed => exact ⟨rfl, rfl⟩

/-- The call on the matcher that a plan comes to. -/
def coreCall (processor : LogitsProcessor) : Plan → Call
  | .initialMasks => .masks processor.batch.maskBuffer
  | .advance tokens =>
    .advanceActiveAndMasksNoResult (processor.batch.activeFor tokens) processor.batch.maskBuffer

variable {F : Type} {floats : Floats F} {prepared : PreparedGrammar} {pad : Option TokenId}
  {scoreWidth : ℕ} {rows : List (List ℤ)}

/-- **A processor in a loop**, and the rows that it is called with next: they add a column of
tokens that may come next to those of its session. -/
structure Looping (prepared : PreparedGrammar) (pad : Option TokenId) (scoreWidth : ℕ)
    (processor : LogitsProcessor) (width columns : ℕ) (histories next : List (List TokenId)) :
    Prop where
  consistent : processor.Consistent width columns histories
  adds : processor.Adds histories next
  grows : ∀ generated ∈ next, prepared.grammar.Grows pad generated
  scores : ∀ w, processor.scoreVocabSize = some w → w = (scoreWidth : ℤ)
  poisoned : processor.poisoned = false
  batchPoisoned : processor.batch.poisoned = false
  live : processor.previousWidth ≠ none → processor.batch.matcher.Live
  prepared : processor.batch.matcher.prepared = prepared
  pad : processor.batch.padTokenId = pad

/-- **What a call in a loop returns**: the scores of the tokens that may come next, one of which
can be sampled in every row, and some row has not ended.  Every reservation was granted. -/
structure Returns (floats : Floats F) (prepared : PreparedGrammar) (pad : Option TokenId)
    (histories : List (List TokenId)) (scores : List (List F)) (memory memory' : Memory)
    (masked : List (List F)) : Prop where
  leaves : Leaves floats prepared.grammar pad prepared.tokenCount histories scores masked
  sampleable : ∀ row < histories.length,
    Sampleable floats prepared.grammar pad prepared.tokenCount histories scores row
  runs : ∃ generated ∈ histories, ¬ prepared.grammar.Ended pad generated
  granted : Grants memory memory'

/-- **Why a call in a loop fails**: a reservation was refused, the tables are incomplete and the
call on the matcher met the fault, some row has no token that may come next and whose score can be
sampled, or every row has ended. -/
inductive Fails (floats : Floats F) (prepared : PreparedGrammar) (pad : Option TokenId)
    (processor : LogitsProcessor) (rows : List (List ℤ)) (histories : List (List TokenId))
    (tensor : Tensor F) (memory memory' : Memory) (error : GreatGrammaError) : Prop
  | refused (htype : error.type = .internalError) (hrefused : Refuses memory memory') :
      Fails floats prepared pad processor rows histories tensor memory memory' error
  | broken {checked : Checked} {plan : Plan} {status : MatcherStatus} {terminals : List TerminalId}
      (htype : error.type = .internalError)
      (hplan : processor.prepareCall (.ofRows rows) (Scores.ofTensor tensor).shape =
        .ok (checked, plan))
      (hexecutes : prepared.Executes processor.batch.matcher.states (processor.coreCall plan)
        status terminals)
      (hbreaks : prepared.Breaks status.parserStack terminals) :
      Fails floats prepared pad processor rows histories tensor memory memory' error
  | unsampleable {row : ℕ} (htype : error.type = .noValidTokenError)
      (hrow : row < histories.length)
      (hnone : ¬ Sampleable floats prepared.grammar pad prepared.tokenCount histories tensor.rows
        row) :
      Fails floats prepared pad processor rows histories tensor memory memory' error
  | ended (htype : error.type = .sequenceCompletedError)
      (hended : ∀ generated ∈ histories, prepared.grammar.Ended pad generated) :
      Fails floats prepared pad processor rows histories tensor memory memory' error

theorem Fails.of_native {failure : NativeFailure} {position : Option ℤ}
    {histories : List (List TokenId)} {tensor : Tensor F} {memory memory' : Memory}
    {checked : Checked} {plan : Plan}
    (hplan : processor.prepareCall (.ofRows rows) (Scores.ofTensor tensor).shape =
      .ok (checked, plan))
    (h : processor.batch.Fails (processor.coreCall plan) histories memory memory' failure) :
    Fails floats processor.batch.matcher.prepared processor.batch.padTokenId processor rows
      histories tensor memory memory' (fromNative failure.intoPyerr position) := by
  have htype : (fromNative failure.intoPyerr position).type = failure.code.errorType := by
    rw [fromNative_intoPyerr]
  cases h with
  | refused hcode hrefused => exact .refused (by rw [htype, hcode]; rfl) hrefused
  | broken hcode hexecutes hbreaks =>
    exact .broken (by rw [htype, hcode]; rfl) hplan hexecutes hbreaks
  | stuck hcode hmem hstuck =>
    obtain ⟨row, hgenerated⟩ := List.mem_iff_getElem?.mp hmem
    refine .unsampleable (by rw [htype, hcode]; rfl) (List.getElem?_eq_some_iff.mp hgenerated).1 ?_
    rintro ⟨generated, _, token, _, hgenerated', -, -, -, -, hcontinues⟩
    obtain rfl := Option.some.inj (hgenerated.symm.trans hgenerated')
    exact hstuck.2 token hcontinues
  | ended hcode hended => exact .ended (by rw [htype, hcode]; rfl) hended

/-- **The native call in a loop** ends for a reason. -/
theorem Looping.nativeCall_ends
    (h : Looping prepared pad scoreWidth processor width columns histories next) {plan : Plan}
    (hplan : (plan = .initialMasks ∧ processor.previousWidth = none ∧ next = histories) ∨
      ∃ column, plan = .advance column ∧ processor.previousWidth ≠ none ∧
        column.length = histories.length ∧ next = appendColumn histories column ∧
        ∀ (row : ℕ) generated token, histories[row]? = some generated →
          column[row]? = some token → processor.batch.matcher.prepared.grammar.Continues
            processor.batch.padTokenId generated token) (memory : Memory) :
    processor.batch.Ends (processor.coreCall plan) next memory
      (processor.nativeCall plan memory).2.2 (processor.nativeCall plan memory).1 := by
  have htracks := h.consistent.tracks
  rcases hplan with ⟨rfl, hfresh, rfl⟩ | ⟨column, rfl, hstarted, hlength, rfl, hcontinues⟩
  · have hnil : ∀ generated ∈ next, generated = [] := fun generated hmem =>
      List.length_eq_zero_iff.mp ((h.consistent.lengths generated hmem).trans
        (h.consistent.fresh hfresh))
    have hne : next ≠ [] := List.ne_nil_of_length_pos
      (h.consistent.count ▸ List.length_pos_iff.mpr h.consistent.prompt.nonempty)
    exact htracks.initialMasks_ends h.batchPoisoned hne hnil memory
  · exact htracks.advanceAndMasks_ends (h.live hstarted) hlength hcontinues h.batchPoisoned memory

/-- **A call in a loop**: it returns, and the loop can go on, or it fails for a reason. -/
theorem Looping.call
    (h : Looping prepared pad scoreWidth processor width columns histories next)
    (hscoreWidth : prepared.tokenCount ≤ scoreWidth) (torchError : String) {tensor : Tensor F}
    (hshape : tensor.shape = [processor.prompt.length, scoreWidth])
    (hfloating : tensor.isFloatingPoint = true) (memory : Memory) :
    ∃ reply processor' memory',
      processor.callLocked (torchMaskScores floats torchError)
          (.ofRows (extendRows processor.prompt next)) (.ofTensor tensor) memory =
        (reply, processor', memory') ∧
      processor.SameUse processor' ∧
      ((∃ masked columns', reply = .ok masked ∧
          Returns floats prepared pad next tensor.rows memory memory' masked ∧
          processor'.Consistent width columns' next ∧
          processor'.scoreVocabSize = some (scoreWidth : ℤ) ∧ processor'.poisoned = false ∧
          processor'.batch.poisoned = false ∧ processor'.previousWidth ≠ none ∧
          processor'.batch.matcher.Live) ∨
        ∃ error, reply = .error (.own error) ∧
          Fails floats prepared pad processor (extendRows processor.prompt next) next tensor memory
            memory' error) := by
  have hvocab : processor.vocabSize = prepared.tokenCount := by
    rw [h.consistent.vocab, Matcher.tokenCount, h.prepared]
  obtain ⟨columns', parsed, plan, hprepare, hcount, hlengths, hparsed, hplan⟩ :=
    h.consistent.prepareCall_next h.adds h.poisoned (hvocab.trans_le hscoreWidth) h.scores
  have hshapes : (Scores.ofTensor tensor).shape =
      .sequence [.int processor.prompt.length, .int scoreWidth] := by
    rw [Scores.ofTensor, hshape]
    rfl
  obtain ⟨reply, batch, poisoned, memory', hserve, hsession, hcases⟩ :=
    h.consistent.serve_cases (hplan.imp_right (by
      rintro ⟨column, hcolumn, hstarted, hlength, hnext, -⟩
      exact ⟨column, hcolumn, hstarted, hlength, hnext⟩)) (width + columns' : ℕ) memory
  have hends := h.nativeCall_ends hplan memory
  obtain ⟨hmemory, hreply⟩ := processor.serve_reply plan (width + columns' : ℕ) memory
  rw [hserve] at hmemory hreply
  obtain rfl : memory' = (processor.nativeCall plan memory).2.2 := hmemory
  rw [callLocked, hshapes, hprepare]
  dsimp only
  rw [hserve]
  rcases hcases with ⟨packed, rfl, rfl, htracks, hlive, hmasks, -, hserves⟩ | ⟨raised, rfl, -⟩
  · dsimp only
    rw [mapError_eq_ok.mp hreply.symm] at hends
    cases hends with
    | ok hgrants hruns =>
    rw [h.prepared, h.pad] at hruns
    have hrows : 1 ≤ processor.prompt.length := List.length_pos_iff.mpr h.consistent.prompt.nonempty
    have hsound := h.consistent.tracks.invariant.matcher.sound
    have hbytes : processor.batch.matcher.maskBytes = (prepared.tokenCount + 7) / 8 := by
      rw [← h.prepared]
      exact hsound.maskBytes
    rw [Serves, h.prepared, h.pad, hbytes] at hserves
    rw [← hcount] at hshape
    have hpos : 1 ≤ prepared.tokenCount := by
      obtain ⟨bytes, hmem⟩ := prepared.grammar.hasOrdinary
      exact List.length_pos_of_mem hmem
    have hwidth : tensor.rows.length = next.length := tensor.length_rows _ _ hshape
    have hmasker := @torchMaskScores_cases _ floats _ _ _ _ _ _ _ torchError hserves hshape
      hfloating (List.length_pos_iff.mp (hcount ▸ hrows)) hpos hscoreWidth
    rw [hcount] at hmasker
    obtain ⟨masked, hleaves, hmask⟩ := hmasker
    rcases hmask with ⟨hok, husable⟩ | ⟨row, left, herror, hleft, hnone, -⟩
    · rw [← hvocab] at hok
      obtain ⟨processor', hfinish, hsame, hbatch, hpoison, hwidth', hprevious, hkept⟩ :=
        @finish_ok { processor with batch } _ _ (torchMaskScores floats torchError)
          (.ofTensor tensor) ⟨parsed, processor.prompt.length, (width + columns' : ℕ), scoreWidth⟩
          packed _ masked rfl hparsed hok
      have huse : processor.SameUse { processor with batch } := ⟨rfl, rfl, rfl, hsession⟩
      have hconsistent := h.consistent.commit htracks hsession hcount hlengths rfl hsame hbatch
        hwidth' hprevious
      have hsampleable : ∀ row < next.length,
          Sampleable floats prepared.grammar pad prepared.tokenCount next tensor.rows row := by
        intro row hrow
        have hleft := List.getElem?_eq_getElem (l := masked)
          ((hleaves.length.trans hwidth).symm ▸ hrow)
        exact (hleaves.usable_iff hwidth hleft).mp (husable _ (List.mem_of_getElem? hleft))
      rw [hfinish]
      refine ⟨_, processor', _, rfl, huse.trans hsame,
        Or.inl ⟨masked, columns', rfl, ⟨hleaves, hsampleable, hruns, hgrants⟩, hconsistent, hkept,
          hpoison.trans h.poisoned, hbatch ▸ hlive, ?_, hbatch ▸ hmasks⟩⟩
      rw [hwidth']
      exact Option.some_ne_none _
    · have hrow : row < next.length :=
        hwidth ▸ hleaves.length ▸ (List.getElem?_eq_some_iff.mp hleft).1
      rw [← hvocab] at herror
      have hfinish := @finish_error { processor with batch } _ _
        (torchMaskScores floats torchError) (.ofTensor tensor)
        ⟨parsed, processor.prompt.length, (width + columns' : ℕ), scoreWidth⟩ packed _ rfl herror
      rw [hfinish]
      refine ⟨_, _, _, rfl, ⟨rfl, rfl, rfl, hsession⟩,
        Or.inr ⟨_, rfl, .unsampleable rfl hrow fun hsampleable => ?_⟩⟩
      obtain ⟨score, hmem, husable⟩ := (hleaves.usable_iff hwidth hleft).mpr hsampleable
      rw [hnone score hmem] at husable
      cases husable
  · obtain ⟨failure, hcall, rfl⟩ := mapError_eq_error.mp hreply.symm
    rw [hcall] at hends
    cases hends with
    | error hfails =>
    refine ⟨_, _, _, rfl, ⟨rfl, rfl, rfl, hsession⟩, Or.inr ⟨_, rfl, ?_⟩⟩
    rw [← h.prepared, ← h.pad]
    exact .of_native (hshapes ▸ hprepare) hfails

/-! ## Loops -/

/-- **Generation loops**: the processors and rows that they reach.  A loop starts with a new
processor and its prompt.  It goes on behind a call that succeeds, on scores of one width, with a
token for every row whose score was left and can be sampled. -/
inductive Loop (native : NativeGrammar) (prompt : RawArray) (pad : Option TokenId) (trusted : Bool)
    (floats : Floats F) (torchError : String) (scoreWidth : ℕ) :
    LogitsProcessor → List (List ℤ) → Prop
  | start {processor : LogitsProcessor} {memory : Memory}
      (hinit : (LogitsProcessor.init native prompt pad trusted memory).1 = .ok processor) :
      Loop native prompt pad trusted floats torchError scoreWidth processor processor.prompt
  | next {processor processor' : LogitsProcessor} {rows : List (List ℤ)} {tensor : Tensor F}
      {memory memory' : Memory} {masked : List (List F)} {column : List TokenId}
      (h : Loop native prompt pad trusted floats torchError scoreWidth processor rows)
      (hshape : tensor.shape = [rows.length, scoreWidth])
      (hfloating : tensor.isFloatingPoint = true)
      (hcall : processor.callLocked (torchMaskScores floats torchError) (.ofRows rows)
        (.ofTensor tensor) memory = (.ok masked, processor', memory'))
      (hlength : column.length = rows.length)
      (hsampled : ∀ (row : ℕ) token, column[row]? = some token → ∃ left score,
        masked[row]? = some left ∧ left[token]? = some score ∧ floats.usable score = true) :
      Loop native prompt pad trusted floats torchError scoreWidth processor' (addColumn rows column)

variable {native : NativeGrammar} {prompt : RawArray} {trusted : Bool} {torchError : String}

/-- **The invariant of loops.** -/
theorem Loop.looping
    (h : Loop native prompt pad trusted floats torchError scoreWidth processor rows)
    (hprepared : native.prepared = some prepared) (hscoreWidth : prepared.tokenCount ≤ scoreWidth) :
    ∃ width columns histories next,
      Looping prepared pad scoreWidth processor width columns histories next ∧
      rows = extendRows processor.prompt next ∧ prompt = .ofRows processor.prompt ∧
      next.length = processor.prompt.length := by
  induction h with
  | @start processor memory hinit =>
    obtain ⟨width, prepared', hprepared', hprompt, hsame, hpad, -, hlive, hfresh, hunscored,
      hlive', h⟩ := init_consistent hinit
    obtain rfl := Option.some.inj (hprepared'.symm.trans hprepared)
    have hnil : ∀ generated ∈ List.replicate processor.prompt.length ([] : List TokenId),
        generated = [] := fun generated hmem => List.eq_of_mem_replicate hmem
    refine ⟨width, 0, _, _, ⟨h, .first hfresh, fun generated hmem => ?_, fun w hw => ?_, hlive,
      hlive', fun hstarted => absurd hfresh hstarted, hsame, hpad⟩, ?_, hprompt, h.count⟩
    · rw [hnil generated hmem]
      exact ValidatedGrammar.grows_nil
    · rw [hunscored] at hw
      cases hw
    · exact (extendRows_nil h.count hnil).symm
  | @next processor processor' rows tensor memory memory' masked column _ hshape hfloating hcall
      hlength hsampled ih =>
    obtain ⟨width, columns, histories, next, h, rfl, hprompt, hcount⟩ := ih
    have hrows := length_extendRows hcount
    rw [hrows] at hshape hlength
    obtain ⟨reply, _, _, hcall', hsame, hcases⟩ :=
      @Looping.call _ _ _ _ _ _ floats _ _ _ h hscoreWidth torchError _ hshape hfloating memory
    obtain ⟨rfl, hpair⟩ := Prod.mk.inj (hcall'.symm.trans hcall)
    obtain ⟨rfl, rfl⟩ := Prod.mk.inj hpair
    rcases hcases with ⟨masked', columns', hreply, hreturns, hconsistent, hscores, hlive, hlive',
      hstarted, hmasks⟩ | ⟨error, hraised, -⟩
    · obtain rfl := Except.ok.inj hreply
      have hwidth : tensor.rows.length = next.length := by
        rw [hcount]
        exact tensor.length_rows _ _ hshape
      have hcontinues : ∀ (row : ℕ) generated token, next[row]? = some generated →
          column[row]? = some token → prepared.grammar.Continues pad generated token := by
        intro row generated token hgenerated htoken
        obtain ⟨left, score, hleft, hscore, husable⟩ := hsampled row token htoken
        obtain ⟨generated', _, hgenerated', -, -, -, hnext⟩ :=
          hreturns.leaves.usable hwidth hleft hscore husable
        obtain rfl := Option.some.inj (hgenerated'.symm.trans hgenerated)
        exact hnext
      have hsession := hsame.session
      have hlength' : column.length = next.length := hlength.trans hcount.symm
      refine ⟨width, columns', next, appendColumn next column, ⟨hconsistent, .next _ hstarted
        ⟨column, hlength', ?_, rfl⟩, fun generated hmem => ?_, fun w hw => ?_, hlive, hlive',
        fun _ => hmasks, hsession.prepared.trans h.prepared, hsession.pad.trans h.pad⟩, ?_, ?_, ?_⟩
      · rw [hsession.prepared, hsession.pad, h.prepared, h.pad]
        exact hcontinues
      · obtain ⟨row, hrow⟩ := List.mem_iff_getElem?.mp hmem
        obtain ⟨before, token, hbefore, htoken, rfl⟩ := getElem?_appendColumn.mp hrow
        exact (h.grows before (List.mem_of_getElem? hbefore)).snoc
          (hcontinues row before token hbefore htoken)
      · rw [hscores] at hw
        exact (Option.some.inj hw).symm
      · rw [hsame.prompt, extendRows_appendColumn]
      · rw [hsame.prompt]
        exact hprompt
      · rw [hsame.prompt, length_appendColumn hlength', hcount]
    · cases hraised

/-- **A call in a loop** returns the scores of the tokens that may come next, in every row one that
can be sampled, or it fails for one of four reasons, each of which has its exception and its cause
in this call.  It never complains about the rows, whatever was sampled before, and in either
mode. -/
theorem loop_call (hprepared : native.prepared = some prepared)
    (hscoreWidth : prepared.tokenCount ≤ scoreWidth)
    (hloop : Loop native prompt pad trusted floats torchError scoreWidth processor rows)
    {tensor : Tensor F} (hshape : tensor.shape = [rows.length, scoreWidth])
    (hfloating : tensor.isFloatingPoint = true) {memory memory' : Memory}
    {reply : Except Raised (List (List F))} {processor' : LogitsProcessor}
    (hcall : processor.callLocked (torchMaskScores floats torchError) (.ofRows rows)
      (.ofTensor tensor) memory = (reply, processor', memory')) :
    ∃ histories, prompt = .ofRows processor.prompt ∧
      rows = extendRows processor.prompt histories ∧
      ((∃ masked, reply = .ok masked ∧
          Returns floats prepared pad histories tensor.rows memory memory' masked) ∨
        ∃ error, reply = .error (.own error) ∧
          Fails floats prepared pad processor rows histories tensor memory memory' error) := by
  obtain ⟨width, columns, histories, next, h, rfl, hprompt, hcount⟩ :=
    hloop.looping hprepared hscoreWidth
  rw [length_extendRows hcount] at hshape
  obtain ⟨reply, _, _, hcall', -, hcases⟩ :=
    @Looping.call _ _ _ _ _ _ floats _ _ _ h hscoreWidth torchError _ hshape hfloating memory
  obtain ⟨rfl, hpair⟩ := Prod.mk.inj (hcall'.symm.trans hcall)
  obtain ⟨-, rfl⟩ := Prod.mk.inj hpair
  refine ⟨next, hprompt, rfl, ?_⟩
  rcases hcases with ⟨masked, _, rfl, hreturns, -⟩ | ⟨error, rfl, hfails⟩
  · exact Or.inl ⟨masked, rfl, hreturns⟩
  · exact Or.inr ⟨error, rfl, hfails⟩

/-- Both rows go on with `a`, and then both may go on or end. -/
theorem loop_call_reusableStack :
    ∃ processor,
      Loop reusableStackNative (.ofRows [[1, 1], [0, 1]]) (some 0) false wholeFloats "" 2 processor
        [[1, 1, 0], [0, 1, 0]] ∧
      ∃ histories masked memory',
        (processor.callLocked (torchMaskScores wholeFloats "") (.ofRows [[1, 1, 0], [0, 1, 0]])
            (.ofTensor (wholeTensor [some 5, some 7] [none, some 7] rfl rfl)) .granting).1 =
          .ok masked ∧
        Returns wholeFloats reusableStackPrepared (some 0) histories
          [[some 5, some 7], [none, some 7]] .granting memory' masked := by
  have hfirst : (reusableStackProcessor.callLocked (torchMaskScores wholeFloats "")
      (.ofRows [[1, 1], [0, 1]]) (.ofTensor (wholeTensor [some 5, some 7] [some 3, some 7] rfl rfl))
        .granting).1 = .ok [[some 5, none], [some 3, none]] := by
    rw [reusableStackProcessor, reusableStackBatch_eq]
    decide +kernel
  have hsecond : ((reusableStackProcessor.callLocked (torchMaskScores wholeFloats "")
      (.ofRows [[1, 1], [0, 1]]) (.ofTensor (wholeTensor [some 5, some 7] [some 3, some 7] rfl rfl))
        .granting).2.1.callLocked (torchMaskScores wholeFloats "") (.ofRows [[1, 1, 0], [0, 1, 0]])
          (.ofTensor (wholeTensor [some 5, some 7] [none, some 7] rfl rfl)) .granting).1 =
            .ok [[some 5, some 7], [none, some 7]] := by
    rw [reusableStackProcessor, reusableStackBatch_eq]
    decide +kernel
  have hsampled : ∀ (row : ℕ) token, ([0, 0] : List TokenId)[row]? = some token →
      ∃ left score, [[some 5, none], [some 3, none]][row]? = some left ∧
        left[token]? = some score ∧ wholeFloats.usable score = true := by
    intro row token htoken
    rcases row with _ | _ | row
    · obtain rfl := Option.some.inj htoken
      exact ⟨_, some 5, rfl, rfl, rfl⟩
    · obtain rfl := Option.some.inj htoken
      exact ⟨_, some 3, rfl, rfl, rfl⟩
    · cases htoken
  have hstart : Loop reusableStackNative (.ofRows [[1, 1], [0, 1]]) (some 0) false wholeFloats "" 2
      reusableStackProcessor [[1, 1], [0, 1]] := .start reusableStackProcessor_init
  have hcount : reusableStackPrepared.tokenCount ≤ 2 := by
    rw [reusableStackPrepared_eq]
    decide
  generalize hcall : reusableStackProcessor.callLocked (torchMaskScores wholeFloats "")
    (.ofRows [[1, 1], [0, 1]]) (.ofTensor (wholeTensor [some 5, some 7] [some 3, some 7] rfl rfl))
      .granting = out at hfirst hsecond
  obtain ⟨reply, processor, memory⟩ := out
  obtain rfl : reply = .ok [[some 5, none], [some 3, none]] := hfirst
  have hloop := hstart.next rfl rfl hcall rfl hsampled
  obtain ⟨histories, -, -, hcases⟩ := @loop_call _ _ _ _ _ _ _ _ _ _ _ rfl hcount hloop
    (wholeTensor [some 5, some 7] [none, some 7] rfl rfl) rfl rfl .granting _ _ _ rfl
  refine ⟨processor, hloop, histories, ?_⟩
  rcases hcases with ⟨masked, hmasked, hreturns⟩ | ⟨error, herror, -⟩
  · exact ⟨masked, _, hmasked, hreturns⟩
  · cases herror.symm.trans hsecond

section Language

variable {σ ρ StateID : Type} [DecidableEq StateID] {generators : Generators σ ρ StateID}
  {source : SourceGrammar} {tokenizer : TokenizerManifest} {limits : CompileLimits}
  {Matches : String → List UInt8 → Prop} {Lexeme : σ → ℕ → List UInt8 → Prop} {granted : Bool}

/-- **Loops generate the language.**  With a compiled grammar, what a loop puts in front of the
first EOS token of a row is an input of the language, and pads follow; and no loop ever masks a
token with which a row goes on to an input of the language. -/
theorem loop_language (hgenerators : generators.Documented Matches Lexeme)
    (hcompile : compile generators source tokenizer limits granted = .ok prepared)
    (hprepared : native.prepared = some prepared)
    (hscoreWidth : prepared.tokenCount ≤ scoreWidth) :
    ∃ parsed,
      parseSource generators.yaccNew source limits.maxTerminalSpecs = .ok parsed ∧
      parsed.Resolved source ∧
      ∀ processor rows,
        Loop native prompt pad trusted floats torchError scoreWidth processor rows →
        ∃ histories, rows = extendRows processor.prompt histories ∧
          (∀ generated ∈ histories, ∀ before eos rest bytes, generated = before ++ eos :: rest →
            tokenizer.spelling before = some bytes → tokenizer.tokens[eos]? = some .eos →
              parsed.Derives Matches bytes ∧ ∀ later ∈ rest, pad = some later) ∧
          ∀ (tensor : Tensor F) memory masked, tensor.shape = [rows.length, scoreWidth] →
            tensor.isFloatingPoint = true →
            (processor.callLocked (torchMaskScores floats torchError) (.ofRows rows)
              (.ofTensor tensor) memory).1 = .ok masked →
            ∀ (row : ℕ) generated token rest tokens eos bytes,
              histories[row]? = some generated → generated ++ token :: rest = tokens ++ [eos] →
              tokenizer.spelling tokens = some bytes → tokenizer.tokens[eos]? = some .eos →
              parsed.Derives Matches bytes →
              ∀ scores score, tensor.rows[row]? = some scores → scores[token]? = some score →
                ∃ left, masked[row]? = some left ∧ left[token]? = some score := by
  obtain ⟨c, ⟨M⟩, hresolved, hprepare⟩ := compiled_from hgenerators hcompile
  obtain ⟨hgrammar, hsound⟩ := prepare_sound hprepare
  refine ⟨c.parsed, c.parse, hresolved, fun processor rows hloop => ?_⟩
  obtain ⟨width, columns, histories, next, h, rfl, -, hcount⟩ := hloop.looping hprepared hscoreWidth
  refine ⟨next, rfl, ?_, ?_⟩
  · intro generated hmem before eos rest bytes hsplit hspelling heos
    have hspelling' : prepared.grammar.spelling before = some bytes := by
      rw [hgrammar, c.spelling_eq]
      exact hspelling
    have heos' : prepared.grammar.token eos = some .eos := by
      rw [hgrammar]
      exact c.token_eos_iff.mpr heos
    obtain ⟨hends, hpads⟩ := (h.grows generated hmem).eos hsplit hspelling' heos'
    rw [hgrammar, c.readsEnd_iff hgenerators.formed hgenerators.lexers M] at hends
    obtain ⟨before', eos', bytes', hsame, -, hspelled, hderives⟩ := hends
    obtain ⟨rfl, -⟩ := List.append_inj' hsame rfl
    obtain rfl := Option.some.inj (hspelled.symm.trans hspelling)
    exact ⟨hderives, hpads⟩
  · intro tensor memory masked hshape hfloating hok row generated token rest tokens eos bytes
      hgenerated hsplit hspelling heos hderives scores score hscores hscore
    rw [length_extendRows hcount] at hshape
    obtain ⟨reply, _, _, hcall, -, hcases⟩ :=
      @Looping.call _ _ _ _ _ _ floats _ _ _ h hscoreWidth torchError _ hshape hfloating memory
    rw [hcall] at hok
    rcases hcases with ⟨masked', _, rfl, hreturns, -⟩ | ⟨error, rfl, -⟩
    · obtain rfl := Except.ok.inj hok
      have hends : prepared.grammar.ReadsEnd (tokens ++ [eos]) := by
        rw [hgrammar, c.readsEnd_iff hgenerators.formed hgenerators.lexers M]
        exact ⟨tokens, eos, bytes, rfl, heos, hspelling, hderives⟩
      have htable : prepared.grammar.TableAssumption := by
        rw [hgrammar]
        exact Compilation.tableAssumption M
      have hnext : prepared.grammar.Continues pad generated token :=
        hsound.grows_of_readsEnd htable hends generated token rest hsplit.symm
      have hpads := h.consistent.tracks.invariant.pad
      rw [Matcher.tokenCount, h.prepared, h.pad] at hpads
      obtain ⟨left, hleft, -, hcells⟩ := hreturns.leaves.row row scores generated hscores hgenerated
      exact ⟨left, hleft, (hcells token score hscore).1 ⟨hnext.lt hpads, hnext⟩⟩
    · cases hok

end Language

/-- The compiled grammar of one letter. -/
def letterNative : NativeGrammar where
  prepared := some letterPrepared
  vocabSize := letterPrepared.tokenCount
  compiled := by
    rintro p h
    obtain rfl := Option.some.inj h
    obtain ⟨_, validated, -, -, hprepare⟩ := compile_ok letter_compiled
    exact ⟨⟨validated, _, hprepare⟩, rfl⟩

/-- Loops of the grammar of one letter end behind the letter. -/
theorem loop_language_letter :
    ∃ parsed,
      parseSource letterCrates.yaccNew letterSource CompileLimits.default.maxTerminalSpecs =
        .ok parsed ∧
      ∀ processor rows, Loop letterNative (.ofRows [[0]]) none true wholeFloats ""
          letterPrepared.tokenCount processor rows →
        ∃ histories, rows = extendRows processor.prompt histories ∧
          ∀ generated ∈ histories, ∀ before rest bytes, generated = before ++ 1 :: rest →
            (⟨[.bytes [97], .eos]⟩ : TokenizerManifest).spelling before = some bytes →
              parsed.Derives LetterMatches bytes := by
  obtain ⟨parsed, hparse, -, hloops⟩ :=
    @loop_language _ wholeFloats _ none _ letterNative (.ofRows [[0]]) true "" _ _ _ _ _ _ _ _ _ _ _
      letterCrates_documented letter_compiled rfl le_rfl
  refine ⟨parsed, hparse, fun processor rows hloop => ?_⟩
  obtain ⟨histories, hrows, hends, -⟩ := hloops processor rows hloop
  exact ⟨histories, hrows, fun generated hmem before rest bytes hsplit hspelling =>
    (hends generated hmem before 1 rest bytes hsplit hspelling rfl).1⟩

end LogitsProcessor
end GreatGramma
