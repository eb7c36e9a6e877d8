import GreatGramma.Lexer.Scanner

/-!
# A validated grammar is closed

The loops of the lexer and of the parser look everything up through checked operations, and every
one of them has an error exit.  Over a grammar that passed validation none of these exits is taken.

* From a source of the tables every token has an effect, and leaves the lexer at a source of the
  tables; no composition is an error (`executeToken_closed`).
* A run of the parser stays on states of the table, never pops the bottom of its stack, and accepts
  at the end of the input only (`executeTerminals_closed`).
* What such a run can report is a fault of the table itself, a goto that is missing or a reduction
  that pops too much or makes no progress, and never that an identifier is out of range
  (`faultError_not_outOfRange`).

Whether faults occur is not decided by validation, which looks at cells one by one; it is a matter
of the tables as a whole, and for those of the compiler it is settled in `Compiler.Language`.
-/

namespace GreatGramma

open ShiftReduce

/-- The errors that only an input or a table out of range can cause. -/
def ParserError.OutOfRange : ParserError → Prop
  | .invariantViolation => True
  | .invalidState _ => True
  | .invalidTerminal _ => True
  | _ => False

section
variable {grammar : ValidatedGrammar}

theorem executeToken_closed {source : LexerState} {token : TokenId}
    (hsource : source.Valid grammar.lexer) (htoken : token < grammar.tokenCount) :
    ∃ execution, executeToken grammar source token = .ok execution ∧
      (∀ state emitted, execution = some (.continue state emitted) →
        state.Valid grammar.lexer ∧ grammar.lalr.Emittable emitted) ∧
      ∀ emitted eof, execution = some (.finished emitted eof) →
        eof = grammar.lalr.eofTerminal ∧ grammar.lalr.Emittable emitted := by
  obtain ⟨entry, hentry⟩ := Option.isSome_iff_exists.mp (grammar.token_isSome.mpr htoken)
  refine ⟨_, ValidatedGrammar.executeToken_eq hsource hentry, ?_, ?_⟩
  · intro state emitted heffect
    cases entry with
    | bytes bytes =>
      obtain ⟨⟨state', em⟩, hrun, hout⟩ := Option.map_eq_some_iff.mp heffect
      cases hout
      exact ⟨ValidatedGrammar.scanner_run_valid hsource hrun,
        ValidatedGrammar.scanner_run_emittable hrun⟩
    | eos =>
      obtain ⟨label, -, hout⟩ := Option.map_eq_some_iff.mp heffect
      cases hout
  · intro emitted eof heffect
    cases entry with
    | bytes bytes =>
      obtain ⟨⟨state', em⟩, -, hout⟩ := Option.map_eq_some_iff.mp heffect
      cases hout
    | eos =>
      obtain ⟨label, hflush, hout⟩ := Option.map_eq_some_iff.mp heffect
      cases hout
      exact ⟨rfl, ValidatedGrammar.scanner_flush_emittable hflush⟩

theorem faultError_not_outOfRange {lalr : ValidatedLalr}
    {f : Fault ParserStateId TerminalId ProductionId} (hf : f ≠ .emptyStack) :
    ¬ (lalr.faultError f).OutOfRange := by
  cases f with
  | emptyStack => exact absurd rfl hf
  | underflow p length => exact id
  | missingGoto s p => exact id
  | noProgress q t => exact id

theorem executeTerminals_closed {stack : List ParserStateId} {terminals : List TerminalId}
    (hstack : grammar.lalr.ValidStack stack) (hterminals : grammar.lalr.ValidTerminals terminals) :
    (∀ e, (executeTerminals grammar stack terminals .granting).1 = .error e → ¬ e.OutOfRange) ∧
      ((executeTerminals grammar stack terminals .granting).1 = .ok (some .accepted) →
        terminals.getLast? = some grammar.lalr.eofTerminal) ∧
      ∀ stack', (executeTerminals grammar stack terminals .granting).1 =
          .ok (some (.continue stack')) →
        grammar.lalr.ValidStack stack' ∧ stack'.head? = stack.head? := by
  rw [executeTerminals_eq hstack hterminals]
  cases hparse : grammar.lalr.table.parse stack terminals with
  | live top =>
    refine ⟨fun e h => (by cases h), fun h => (by cases h), fun stack' h => ?_⟩
    cases h
    exact ⟨hstack.parse hparse, grammar.lalr.table.parse_head? hstack.1 hparse⟩
  | rejected =>
    exact ⟨fun e h => (by cases h), fun h => (by cases h), fun stack' h => (by cases h)⟩
  | fault f =>
    refine ⟨fun e h => ?_, fun h => (by cases h), fun stack' h => (by cases h)⟩
    cases h
    refine faultError_not_outOfRange ?_
    rintro rfl
    exact grammar.lalr.table.parse_ne_emptyStack hstack.1 hparse
  | accepted rest =>
    obtain ⟨before, hbefore⟩ := ValidatedLalr.parse_accepted hstack hterminals hparse
    simp only [ValidatedLalr.execution]
    split_ifs with hrest
    · refine ⟨fun e h => (by cases h), fun _ => ?_, fun stack' h => (by cases h)⟩
      rw [hbefore, hrest]
      exact List.getLast?_concat
    · refine ⟨fun e h => ?_, fun h => (by cases h), fun stack' h => (by cases h)⟩
      cases h
      exact id

/-- **A validated grammar makes lexer and parser execution closed and total.** -/
theorem ValidatedGrammar.execution_closed (grammar : ValidatedGrammar) :
    (∀ (source : LexerState) (token : TokenId), source.Valid grammar.lexer →
      token < grammar.tokenCount →
      ∃ execution, executeToken grammar source token = .ok execution ∧
        (∀ state emitted, execution = some (.continue state emitted) →
          state.Valid grammar.lexer ∧
            ∀ t ∈ emitted, t < grammar.lalr.terminalCount ∧ t ≠ grammar.lalr.eofTerminal) ∧
        ∀ emitted eof, execution = some (.finished emitted eof) →
          ∀ t ∈ emitted, t < grammar.lalr.terminalCount ∧ t ≠ grammar.lalr.eofTerminal) ∧
    ∀ (stack : List ParserStateId) (terminals : List TerminalId), stack ≠ [] →
      (∀ state ∈ stack, state < grammar.lalr.stateCount) →
      (∀ t ∈ terminals, t < grammar.lalr.terminalCount) →
      (∀ e, (executeTerminals grammar stack terminals .granting).1 = .error e →
        ¬ e.OutOfRange) ∧
      ((executeTerminals grammar stack terminals .granting).1 = .ok (some .accepted) →
        terminals.getLast? = some grammar.lalr.eofTerminal) ∧
      ∀ stack', (executeTerminals grammar stack terminals .granting).1 =
          .ok (some (.continue stack')) →
        stack' ≠ [] ∧ (∀ state ∈ stack', state < grammar.lalr.stateCount) ∧
          stack'.head? = stack.head? := by
  constructor
  · intro source token hsource htoken
    obtain ⟨execution, hexecution, hcontinue, hfinished⟩ := executeToken_closed hsource htoken
    exact ⟨execution, hexecution, hcontinue, fun emitted eof h => (hfinished emitted eof h).2⟩
  · intro stack terminals hne hstates hterminals
    obtain ⟨herror, haccept, hcontinue⟩ := executeTerminals_closed ⟨hne, hstates⟩ hterminals
    refine ⟨herror, haccept, fun stack' h => ?_⟩
    obtain ⟨hstack', hbottom⟩ := hcontinue stack' h
    exact ⟨hstack'.1, hstack'.2, hbottom⟩

end
end GreatGramma
