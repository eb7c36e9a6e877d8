import GreatGramma.Engine.Answers
import GreatGramma.Engine.Runs

/-!
# Rows and the tokens committed to them

A row is a function of the tokens that were committed to it.  Which tokens these are is ghost
state: nothing in the matcher remembers them, and a call commits the token it has for a row
exactly when it succeeds.

## What tokens describe

`ValidatedGrammar.Replays` says it: a running row has read their bytes with the lexer and the
terminals these emit with the parser, from the start of both; an accepted row has read the end as
well.  The lexer and the parser here are `execute_token` and the reference interpreter, so the
description does not depend on any prepared table.

## Runs

Advancing a row adds its token to the description (`Sound.advanceRow_replays`).  A call advances
the rows it has tokens for if it succeeds, and leaves all rows alone if it does not
(`Invariant.call_row`), so calls keep rows described, whatever they answer and whatever the
allocator refuses; and by induction runs do (`Invariant.run_replays`).  What can be said of a row
in any run follows from the description (`replay_invariant`): the lexer state of a running row,
its stack, which is never empty and stands on the start state, and that a row is accepted just if
its tokens end with an EOS token at which the parser accepts, and never changes again.
-/

namespace GreatGramma

open Reservation ShiftReduce Traversal

/-! ## What tokens describe -/

namespace ValidatedGrammar

variable (grammar : ValidatedGrammar)

/-- The bytes that ordinary tokens spell. -/
def spelling : List TokenId → Option (List UInt8)
  | [] => some []
  | token :: tokens =>
    match grammar.token token with
    | some (.bytes bytes) => (spelling tokens).map fun rest => bytes ++ rest
    | _ => none

/-- The lexer and the parser, started at their starts, have read ordinary tokens. -/
def Reads (tokens : List TokenId) (lexer : LexerState) (emitted : List TerminalId) : Prop :=
  ∃ bytes, grammar.spelling tokens = some bytes ∧
    grammar.scanner.run .start bytes = some (lexer, emitted)

/-- The end of the sequence, after ordinary tokens. -/
def ReadsEnd (tokens : List TokenId) : Prop :=
  ∃ before token lexer emitted flushed eof, tokens = before ++ [token] ∧
    grammar.token token = some .eos ∧ grammar.Reads before lexer emitted ∧
    lexerStep grammar lexer .eos = .ok (.finished flushed eof) ∧
    (executeTerminals grammar [grammar.lalr.startState] (emitted ++ flushed.toList ++ [eof])
      .granting).1 = .ok (some .accepted)

/-- **The row that tokens describe.** -/
def Replays (tokens : List TokenId) (status : MatcherStatus) : Prop :=
  match status.phase with
  | .running lexer => ∃ emitted, grammar.Reads tokens lexer emitted ∧
      (executeTerminals grammar [grammar.lalr.startState] emitted .granting).1 =
        .ok (some (.continue status.parserStack))
  | .accepted => grammar.ReadsEnd tokens

variable {grammar}

theorem spelling_append {xs ys : List TokenId} {bytes bytes' : List UInt8}
    (hxs : grammar.spelling xs = some bytes) (hys : grammar.spelling ys = some bytes') :
    grammar.spelling (xs ++ ys) = some (bytes ++ bytes') := by
  induction xs generalizing bytes with
  | nil =>
    cases hxs
    exact hys
  | cons token xs ih =>
    rw [spelling] at hxs
    rw [List.cons_append, spelling]
    split at hxs
    · obtain ⟨rest, hrest, rfl⟩ := Option.map_eq_some_iff.mp hxs
      rw [ih hrest, Option.map_some, List.append_assoc]
    · cases hxs

theorem ordinary_of_spelling {tokens : List TokenId} {bytes : List UInt8}
    (h : grammar.spelling tokens = some bytes) {token : TokenId} (htoken : token ∈ tokens) :
    ∃ bytes, grammar.token token = some (.bytes bytes) := by
  induction tokens generalizing bytes with
  | nil => cases htoken
  | cons first tokens ih =>
    rw [spelling] at h
    split at h
    · rename_i hfirst
      obtain ⟨rest, hrest, -⟩ := Option.map_eq_some_iff.mp h
      rcases List.mem_cons.mp htoken with rfl | hlater
      · exact ⟨_, hfirst⟩
      · exact ih hrest hlater
    · cases h

theorem validStack_start : grammar.lalr.ValidStack [grammar.lalr.startState] := by
  refine ⟨List.cons_ne_nil _ _, fun q hq => ?_⟩
  rw [List.mem_singleton.mp hq]
  exact grammar.lalr.startState_lt

theorem executeTerminals_continue_iff {stack stack' : List ParserStateId}
    {terminals : List TerminalId} (hstack : grammar.lalr.ValidStack stack)
    (hterminals : grammar.lalr.ValidTerminals terminals) :
    (executeTerminals grammar stack terminals .granting).1 = .ok (some (.continue stack')) ↔
      grammar.lalr.table.parse stack terminals = .live stack' := by
  rw [executeTerminals_eq hstack hterminals]
  cases grammar.lalr.table.parse stack terminals with
  | live stack₁ =>
    constructor <;> intro h <;> cases h <;> rfl
  | accepted rest =>
    unfold ValidatedLalr.execution
    dsimp only
    constructor
    · intro h
      split_ifs at h
      cases h
    · intro h
      cases h
  | rejected => exact ⟨fun h => (by cases h), fun h => (by cases h)⟩
  | fault f => exact ⟨fun h => (by cases h), fun h => (by cases h)⟩

/-- It accepts where the table has read everything. -/
theorem executeTerminals_accepted_iff {stack : List ParserStateId}
    {terminals : List TerminalId} (hstack : grammar.lalr.ValidStack stack)
    (hterminals : grammar.lalr.ValidTerminals terminals) :
    (executeTerminals grammar stack terminals .granting).1 = .ok (some .accepted) ↔
      grammar.lalr.table.parse stack terminals = .accepted [] := by
  rw [executeTerminals_eq hstack hterminals]
  cases grammar.lalr.table.parse stack terminals with
  | live stack₁ => exact ⟨fun h => (by cases h), fun h => (by cases h)⟩
  | accepted rest =>
    unfold ValidatedLalr.execution
    dsimp only
    constructor
    · intro h
      split_ifs at h with hrest
      rw [hrest]
    · intro h
      cases h
      rfl
  | rejected => exact ⟨fun h => (by cases h), fun h => (by cases h)⟩
  | fault f => exact ⟨fun h => (by cases h), fun h => (by cases h)⟩

theorem Reads.emittable {tokens : List TokenId} {lexer : LexerState} {emitted : List TerminalId}
    (h : grammar.Reads tokens lexer emitted) : grammar.lalr.Emittable emitted := by
  obtain ⟨bytes, -, hrun⟩ := h
  exact scanner_run_emittable hrun

theorem Reads.snoc {tokens : List TokenId} {token : TokenId} {lexer lexer' : LexerState}
    {emitted emitted' : List TerminalId} {bytes : List UInt8}
    (h : grammar.Reads tokens lexer emitted) (htoken : grammar.token token = some (.bytes bytes))
    (hrun : grammar.scanner.run lexer bytes = some (lexer', emitted')) :
    grammar.Reads (tokens ++ [token]) lexer' (emitted ++ emitted') := by
  obtain ⟨read, hread, hrun₁⟩ := h
  refine ⟨read ++ bytes, spelling_append hread ?_, ?_⟩
  · simp only [spelling, htoken, Option.map_some, List.append_nil]
  · exact grammar.scanner.run_append.mpr ⟨lexer, emitted, emitted', hrun₁, hrun, rfl⟩

theorem replays_nil : grammar.Replays [] ⟨.running .start, [grammar.lalr.startState]⟩ := by
  refine ⟨[], ⟨[], rfl, rfl⟩, ?_⟩
  exact (executeTerminals_continue_iff validStack_start fun _ h => (by cases h)).mpr rfl

end ValidatedGrammar

/-! ## Advancing -/

namespace PreparedGrammar

variable {prepared : PreparedGrammar}

theorem lexerStep_eos_of_flush {grammar : ValidatedGrammar} {lexer : LexerState}
    {label : Option TerminalId} (h : grammar.scanner.flush lexer = some label) :
    lexerStep grammar lexer .eos = .ok (.finished label grammar.lalr.eofTerminal) := by
  cases lexer with
  | start =>
    cases h
    rfl
  | dfa source =>
    obtain ⟨t, rfl, hterminal⟩ := ValidatedGrammar.scanner_flush_dfa.mp h
    simp only [lexerStep, eosStep, hterminal]

/-- **A row that advances is described by one token more.** -/
theorem Sound.advanceRow_replays (hsound : prepared.Sound) {status status' : MatcherStatus}
    {token : TokenId} {result : AdvanceResult} {tokens : List TokenId}
    (hstatus : status.Valid prepared.grammar) (htokens : prepared.grammar.Replays tokens status)
    (h : prepared.advanceRow status token = .ok (result, status')) :
    prepared.grammar.Replays (tokens ++ [token]) status' := by
  obtain ⟨phase, stack⟩ := status
  cases phase with
  | accepted => cases h
  | running lexer =>
    obtain ⟨hlexer, hstack⟩ := hstatus
    obtain ⟨emitted, hreads, hexecute⟩ := htokens
    have hparse := (ValidatedGrammar.executeTerminals_continue_iff ValidatedGrammar.validStack_start
      hreads.emittable.valid).mp hexecute
    simp only [advanceRow] at h
    split_ifs at h with htoken
    split at h <;> try contradiction
    rename_i hrow
    cases h
    unfold rowAfter at hrow
    cases heffect : prepared.effectOf lexer token with
    | none =>
      rw [heffect] at hrow
      cases hrow
    | some execution =>
      rw [heffect] at hrow
      rcases effectOf_cases heffect with
        ⟨bytes, lexer', emitted', hentry, hrun, rfl⟩ | ⟨label, hentry, hflush, rfl⟩
      · obtain ⟨allowed, hallowed, hafter⟩ := map_eq_ok.mp hrow
        cases allowed with
        | false => cases hafter
        | true =>
          cases hafter
          have hlive := hsound.parse_of_tokenAnswer hlexer hstack heffect hallowed
          have hreads' := hreads.snoc hentry hrun
          refine ⟨emitted ++ emitted', hreads', ?_⟩
          refine (ValidatedGrammar.executeTerminals_continue_iff ValidatedGrammar.validStack_start
            hreads'.emittable.valid).mpr ?_
          rw [Table.parse_append, hparse]
          exact hlive
      · obtain ⟨accepted, haccepted, hafter⟩ := map_eq_ok.mp hrow
        cases accepted with
        | false => cases hafter
        | true =>
          cases hafter
          refine ⟨tokens, token, lexer, emitted, label, _, rfl, hentry, hreads,
            lexerStep_eos_of_flush hflush, ?_⟩
          have hlabel := ValidatedGrammar.scanner_flush_emittable hflush
          have hend := (ValidatedGrammar.executeTerminals_accepted_iff hstack
            hlabel.snoc_eof).mp ((eosAnswer_eq_true hstack hlabel).mp haccepted)
          refine (ValidatedGrammar.executeTerminals_accepted_iff ValidatedGrammar.validStack_start
            (hreads.emittable.append hlabel).snoc_eof).mpr ?_
          rw [List.append_assoc, Table.parse_append, hparse]
          exact hend

end PreparedGrammar

/-! ## Calls

`Call.committed` reads the ghost state off a call and its reply. -/

/-- The tokens that a call commits to a row: the one it has for the row, if it
succeeds. -/
def Call.committed (c : Call) (reply : Reply) (row : ℕ) : List TokenId :=
  match reply.value with
  | .ok _ => (c.tokenFor row).toList
  | .error _ => []

namespace Matcher

/-- The tokens that a run commits to a row. -/
def committed (matcher : Matcher) (memory : Memory) (row : ℕ) : List Call → List TokenId
  | [] => []
  | c :: calls =>
    match matcher.call memory c with
    | (reply, matcher, memory) =>
      c.committed reply row ++ committed matcher memory row calls

variable {matcher : Matcher}

theorem tokenFor_of_isQuery {c : Call} (h : c.IsQuery) (row : ℕ) : c.tokenFor row = none := by
  cases c <;> first | rfl | cases h

/-- **What a call does to a row**: it advances by the token committed to it, or it stays
and none is. -/
theorem Invariant.call_row (hm : matcher.Invariant) (memory : Memory) (c : Call) {row : ℕ}
    {status : MatcherStatus} (hrow : matcher.states[row]? = some status) :
    ∃ status', (matcher.call memory c).2.1.states[row]? = some status' ∧
      ((c.committed (matcher.call memory c).1 row = [] ∧ status' = status) ∨
        ∃ token result, c.committed (matcher.call memory c).1 row = [token] ∧
          matcher.prepared.advanceRow status token = .ok (result, status')) := by
  rcases (hm.call_answered memory c).answer with ⟨hrespond, -⟩ | ⟨-, ⟨requested, herror⟩, hstates⟩
  · have hreply : (matcher.call memory c).1 = (matcher.prepared.respond matcher.states c).1 :=
      congrArg Prod.fst hrespond
    have hstates : (matcher.call memory c).2.1.states =
        (matcher.prepared.respond matcher.states c).2 := congrArg Prod.snd hrespond
    rw [hreply, hstates]
    rcases matcher.prepared.respond_cases matcher.states c with
      ⟨hsame, hquery | ⟨e, he⟩⟩ | ⟨-, ⟨v, hv⟩, hcommits⟩
    · refine ⟨status, by rw [hsame, hrow], Or.inl ⟨?_, rfl⟩⟩
      unfold Call.committed
      split
      · rw [tokenFor_of_isQuery hquery]
        rfl
      · rfl
    · refine ⟨status, by rw [hsame, hrow], Or.inl ⟨?_, rfl⟩⟩
      simp only [Call.committed, he]
    · obtain ⟨status', hstatus', hstep⟩ := hcommits.row hm.rows hrow
      refine ⟨status', hstatus', ?_⟩
      simp only [Call.committed, hv]
      cases htoken : c.tokenFor row with
      | none =>
        rw [htoken] at hstep
        exact Or.inl ⟨rfl, hstep⟩
      | some token =>
        rw [htoken] at hstep
        obtain ⟨result, hadvance⟩ := hstep
        exact Or.inr ⟨token, result, rfl, hadvance⟩
  · refine ⟨status, by rw [hstates, hrow], Or.inl ⟨?_, rfl⟩⟩
    simp only [Call.committed, herror]

/-- **Calls keep rows described.** -/
theorem Invariant.call_replays (hm : matcher.Invariant) (memory : Memory) (c : Call) {row : ℕ}
    {status : MatcherStatus} {tokens : List TokenId} (hrow : matcher.states[row]? = some status)
    (htokens : matcher.prepared.grammar.Replays tokens status) :
    ∃ status', (matcher.call memory c).2.1.states[row]? = some status' ∧
      matcher.prepared.grammar.Replays (tokens ++ c.committed (matcher.call memory c).1 row)
        status' := by
  obtain ⟨status', hrow', ⟨hnone, rfl⟩ | ⟨token, result, hone, hadvance⟩⟩ :=
    hm.call_row memory c hrow
  · rw [hnone, List.append_nil]
    exact ⟨status', hrow', htokens⟩
  · rw [hone]
    exact ⟨status', hrow', hm.sound.advanceRow_replays (hm.rows _ (List.mem_of_getElem? hrow))
      htokens hadvance⟩

/-- **Runs keep rows described.** -/
theorem Invariant.run_replays (hm : matcher.Invariant) (memory : Memory) (calls : List Call)
    {row : ℕ} {status : MatcherStatus} {tokens : List TokenId}
    (hrow : matcher.states[row]? = some status)
    (htokens : matcher.prepared.grammar.Replays tokens status) :
    ∃ status', (matcher.run memory calls).2.1.states[row]? = some status' ∧
      matcher.prepared.grammar.Replays (tokens ++ matcher.committed memory row calls) status' := by
  induction calls generalizing matcher memory status tokens with
  | nil =>
    rw [committed, List.append_nil]
    exact ⟨status, hrow, htokens⟩
  | cons c calls ih =>
    obtain ⟨status₁, hrow₁, htokens₁⟩ := hm.call_replays memory c hrow htokens
    have hprepared := (hm.call_answered memory c).prepared
    rw [← hprepared] at htokens₁ ⊢
    obtain ⟨status₂, hrow₂, htokens₂⟩ := ih (hm.call memory c) (matcher.call memory c).2.2 hrow₁
      htokens₁
    rw [List.append_assoc] at htokens₂
    exact ⟨status₂, hrow₂, htokens₂⟩

/-- **An accepted row never changes again.** -/
theorem Invariant.run_accepted (hm : matcher.Invariant) (memory : Memory) (calls : List Call)
    {row : ℕ} {status : MatcherStatus} (hrow : matcher.states[row]? = some status)
    (haccepted : status.phase = .accepted) :
    (matcher.run memory calls).2.1.states[row]? = some status := by
  induction calls generalizing matcher memory with
  | nil => exact hrow
  | cons c calls ih =>
    obtain ⟨status', hrow', ⟨-, rfl⟩ | ⟨token, result, -, hadvance⟩⟩ := hm.call_row memory c hrow
    · exact ih (hm.call memory c) (matcher.call memory c).2.2 hrow'
    · simp only [PreparedGrammar.advanceRow, haccepted] at hadvance
      cases hadvance

theorem Invariant.run_length (hm : matcher.Invariant) (memory : Memory) (calls : List Call) :
    (matcher.run memory calls).2.1.states.length = matcher.states.length := by
  induction calls generalizing matcher memory with
  | nil => rfl
  | cons c calls ih =>
    have hcall : (matcher.call memory c).2.1.states.length = matcher.states.length := by
      rcases (hm.call_answered memory c).answer with ⟨hrespond, -⟩ | ⟨-, -, hstates⟩
      · exact (congrArg (fun out => out.2.length) hrespond).trans
          (matcher.prepared.respond_length matcher.states c)
      · rw [hstates]
    exact (ih (hm.call memory c) (matcher.call memory c).2.2).trans hcall

/-- **The replay invariant.**  After any calls on a matcher built from a prepared
grammar, every row is described by the tokens committed to it.  A running row has the
lexer state that the bytes of its tokens lead to, and the stack that the terminals
emitted on the way lead to: not empty, of parser states, on the start state.  A row is
accepted exactly when its tokens end with an EOS token at which the parser accepts; and
then it never changes again. -/
theorem replay_invariant {grammar : ValidatedGrammar} {limits : PreparationLimits}
    {prepared : PreparedGrammar} {rows : ℕ} {memory₀ memory₁ : Memory}
    (hprepare : prepare grammar limits = .ok prepared)
    (hmatcher : prepared.intoMatcher rows memory₀ = (.ok matcher, memory₁)) (memory : Memory)
    (calls : List Call) :
    (matcher.run memory calls).2.1.states.length = rows ∧
    ∀ row status, (matcher.run memory calls).2.1.states[row]? = some status →
      (∀ lexer, status.phase = .running lexer →
        ∃ emitted, grammar.Reads (matcher.committed memory row calls) lexer emitted ∧
          (executeTerminals grammar [grammar.lalr.startState] emitted .granting).1 =
            .ok (some (.continue status.parserStack)) ∧
          status.parserStack ≠ [] ∧ (∀ q ∈ status.parserStack, q < grammar.lalr.stateCount) ∧
          status.parserStack.head? = some grammar.lalr.startState) ∧
      (status.phase = .accepted ↔ grammar.ReadsEnd (matcher.committed memory row calls)) ∧
      (status.phase = .accepted → ∀ memory' calls',
        ((matcher.run memory calls).2.1.run memory' calls').2.1.states[row]? = some status) := by
  obtain ⟨hgrammar, hsound⟩ := prepare_sound hprepare
  obtain ⟨-, rfl⟩ := eq_fresh hmatcher
  have hm := fresh_invariant hsound rows
  have hlength : (fresh prepared rows).states.length = rows := List.length_replicate
  refine ⟨(hm.run_length memory calls).trans hlength, fun row status hrow => ?_⟩
  have hlt : row < rows := by
    rw [← hlength, ← hm.run_length memory calls]
    exact (List.getElem?_eq_some_iff.mp hrow).1
  have hfirst : (fresh prepared rows).states[row]? = some prepared.initialRow := by
    rw [fresh, List.getElem?_replicate_of_lt hlt]
  obtain ⟨status', hrow', hreplays⟩ :=
    hm.run_replays memory calls hfirst ValidatedGrammar.replays_nil
  obtain rfl := Option.some_inj.mp (hrow.symm.trans hrow')
  rw [List.nil_append, show (fresh prepared rows).prepared.grammar = grammar from hgrammar]
    at hreplays
  obtain ⟨phase, stack⟩ := status
  refine ⟨?_, ?_, fun haccepted memory' calls' =>
    (hm.run memory calls).run_accepted memory' calls' hrow haccepted⟩
  · rintro lexer rfl
    obtain ⟨emitted, hreads, hexecute⟩ := hreplays
    have hparse := (ValidatedGrammar.executeTerminals_continue_iff ValidatedGrammar.validStack_start
      hreads.emittable.valid).mp hexecute
    have hvalid := ValidatedGrammar.validStack_start.parse hparse
    exact ⟨emitted, hreads, hexecute, hvalid.1, hvalid.2,
      grammar.lalr.table.parse_head? (List.cons_ne_nil _ _) hparse⟩
  · cases phase with
    | accepted => exact ⟨fun _ => hreplays, fun _ => rfl⟩
    | running lexer =>
      refine ⟨fun h => (by cases h), ?_⟩
      rintro ⟨before, token, -, -, -, -, htokens, hend, -⟩
      obtain ⟨emitted, ⟨bytes, hspelling, -⟩, -⟩ := hreplays
      rw [htokens] at hspelling
      obtain ⟨bytes', hbytes⟩ := ValidatedGrammar.ordinary_of_spelling hspelling
        (List.mem_append_right before (List.mem_singleton_self token))
      rw [hbytes] at hend
      cases hend

/-- A row of the lists of `a` that reads `a` and the end, around a token the other row
refuses. -/
theorem replay_invariant_reusableStack :
    reusableStackMatcher.committed .granting 0 [.advance 0 0, .advance 1 1, .advance 0 1] = [0, 1] ∧
      reusableStackGrammar.ReadsEnd (reusableStackMatcher.committed .granting 0
        [.advance 0 0, .advance 1 1, .advance 0 1]) := by
  have hcommitted : reusableStackMatcher.committed .granting 0
      [.advance 0 0, .advance 1 1, .advance 0 1] = [0, 1] := by
    rw [reusableStackMatcher_eq]
    decide +kernel
  have hrow : (reusableStackMatcher.run .granting
      [.advance 0 0, .advance 1 1, .advance 0 1]).2.1.states[0]? = some .empty := by
    rw [reusableStackMatcher_eq]
    decide +kernel
  have hmatcher : reusableStackPrepared.intoMatcher 2 .granting =
      (.ok reusableStackMatcher, .granting) := intoMatcher_granting two_ne_zero
  have h := replay_invariant reusableStack_prepare hmatcher .granting
    [.advance 0 0, .advance 1 1, .advance 0 1]
  exact ⟨hcommitted, ((h.2 0 .empty hrow).2.1).mp rfl⟩

end Matcher
end GreatGramma
