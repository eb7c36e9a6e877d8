import GreatGramma.Core.Normalized

/-!
# The normalized lexer

`lexer.rs`: one byte or end-of-sequence event against the lexer DFA.

## One byte

The lexer emits the terminal of the state it leaves when a byte has no transition there, and reads
that byte again from the DFA start, so a lexeme is always ended by the first byte that does not fit
it.  If the state has no terminal, or the byte does not begin a lexeme, the byte is refused.  So a
step emits one terminal at most, and it is always the label of the state that the step leaves.

## Logical start

Logical start is distinct from the DFA start state: a run that returns to the DFA start after
consuming bytes is an unfinished residual.  At the end of the sequence nothing is flushed at logical
start, and everywhere else the label of the state is, if it has one.

The second half of the file says what a step can do, from a state that the tables know: the errors
about invalid states do not occur there, and three cases are left for a byte and three for the end
(`lexerStep_byte_cases`, `lexerStep_eos_cases`).  All later modules go through these.
-/

namespace GreatGramma

/-- Runtime state of the normalized lexer. -/
inductive LexerState where
  | start
  | dfa (state : DfaStateId)
  deriving DecidableEq

/-- One semantic input event for the normalized lexer. -/
inductive LexerInput where
  | byte (byte : UInt8)
  | eos

/-- One successful normalized lexer transition. -/
inductive LexerStep where
  | continue (state : LexerState) (emitted : Option TerminalId)
  | finished (terminal : Option TerminalId) (eof : TerminalId)
  deriving DecidableEq

/-- A fail-closed normalized lexer transition error. -/
inductive LexerError where
  | invalidState (state : DfaStateId)
  | cannotBeginLexeme (byte : UInt8)
  | byteAfterUnfinishedResidual (state : DfaStateId) (byte : UInt8)
  | eosAfterUnfinishedResidual (state : DfaStateId)
  deriving DecidableEq

/-- `begin_lexeme`: reads a byte from the DFA start. -/
def beginLexeme (lexerTable : ValidatedLexer) (byte : UInt8) (emitted : Option TerminalId) :
    Except LexerError LexerStep :=
  match lexerTable.transition lexerTable.startState byte with
  | none => .error (.invalidState lexerTable.startState)
  | some none => .error (.cannotBeginLexeme byte)
  | some (some destination) => .ok (.continue (.dfa destination) emitted)

/-- `finish_or_reject_residual`: the byte does not fit the lexeme. -/
def finishOrRejectResidual (lexerTable : ValidatedLexer) (state : DfaStateId) (byte : UInt8) :
    Except LexerError LexerStep :=
  match lexerTable.terminal state with
  | none => .error (.invalidState state)
  | some none => .error (.byteAfterUnfinishedResidual state byte)
  | some (some terminal) => beginLexeme lexerTable byte (some terminal)

/-- `byte_step`. -/
def byteStep (lexerTable : ValidatedLexer) (state : LexerState) (byte : UInt8) :
    Except LexerError LexerStep :=
  match state with
  | .start => beginLexeme lexerTable byte none
  | .dfa source =>
    match lexerTable.transition source byte with
    | none => .error (.invalidState source)
    | some (some destination) => .ok (.continue (.dfa destination) none)
    | some none => finishOrRejectResidual lexerTable source byte

/-- `eos_step`. -/
def eosStep (grammar : ValidatedGrammar) (state : LexerState) : Except LexerError LexerStep :=
  let eof := grammar.lalr.eofTerminal
  match state with
  | .start => .ok (.finished none eof)
  | .dfa source =>
    match grammar.lexer.terminal source with
    | none => .error (.invalidState source)
    | some none => .error (.eosAfterUnfinishedResidual source)
    | some (some terminal) => .ok (.finished (some terminal) eof)

/-- Executes one byte or EOS event against validated normalized tables. -/
def lexerStep (grammar : ValidatedGrammar) (state : LexerState) (input : LexerInput) :
    Except LexerError LexerStep :=
  match input with
  | .byte byte => byteStep grammar.lexer state byte
  | .eos => eosStep grammar state

/-! ## What a step can do -/

/-- A state the lexer tables know. -/
def LexerState.Valid (lexer : ValidatedLexer) : LexerState → Prop
  | .start => True
  | .dfa state => state < lexer.stateCount

instance (lexer : ValidatedLexer) (state : LexerState) : Decidable (state.Valid lexer) := by
  cases state <;> unfold LexerState.Valid <;> infer_instance

theorem beginLexeme_cases (lexer : ValidatedLexer) (byte : UInt8) (emitted : Option TerminalId) :
    beginLexeme lexer byte emitted = .error (.cannotBeginLexeme byte) ∨
      ∃ d, d < lexer.stateCount ∧
        lexer.transition lexer.startState byte = some (some d) ∧
        beginLexeme lexer byte emitted = .ok (.continue (.dfa d) emitted) := by
  obtain ⟨destination, htransition, hlt⟩ := lexer.transition_eq lexer.startState_lt byte
  unfold beginLexeme
  rw [htransition]
  cases destination with
  | none => exact Or.inl rfl
  | some d => exact Or.inr ⟨d, hlt d rfl, rfl, rfl⟩

/-- **Every byte step from a state of the tables**: it moves along a transition
in silence, or it emits the label of the state it leaves and begins a lexeme, or
it is refused at the boundary.  It never finds the state invalid. -/
theorem lexerStep_byte_cases (grammar : ValidatedGrammar) {state : LexerState}
    (hvalid : state.Valid grammar.lexer) (byte : UInt8) :
    (∃ d, d < grammar.lexer.stateCount ∧
        lexerStep grammar state (.byte byte) = .ok (.continue (.dfa d) none)) ∨
      (∃ d source t, d < grammar.lexer.stateCount ∧ state = .dfa source ∧
        grammar.lexer.terminal source = some (some t) ∧
        lexerStep grammar state (.byte byte) = .ok (.continue (.dfa d) (some t))) ∨
      lexerStep grammar state (.byte byte) = .error (.cannotBeginLexeme byte) ∨
      ∃ source, lexerStep grammar state (.byte byte) =
        .error (.byteAfterUnfinishedResidual source byte) := by
  cases state with
  | start =>
    rcases beginLexeme_cases grammar.lexer byte none with h | ⟨d, hd, -, h⟩
    · exact Or.inr (Or.inr (Or.inl h))
    · exact Or.inl ⟨d, hd, h⟩
  | dfa source =>
    obtain ⟨destination, htransition, hlt⟩ := grammar.lexer.transition_eq hvalid byte
    cases destination with
    | some d =>
      refine Or.inl ⟨d, hlt d rfl, ?_⟩
      simp only [lexerStep, byteStep, htransition]
    | none =>
      obtain ⟨label, hlabel, -⟩ := grammar.lexer.terminal_eq hvalid
      cases label with
      | none =>
        refine Or.inr (Or.inr (Or.inr ⟨source, ?_⟩))
        simp only [lexerStep, byteStep, htransition, finishOrRejectResidual, hlabel]
      | some t =>
        have hstep : lexerStep grammar (.dfa source) (.byte byte) =
            beginLexeme grammar.lexer byte (some t) := by
          simp only [lexerStep, byteStep, htransition, finishOrRejectResidual, hlabel]
        rw [hstep]
        rcases beginLexeme_cases grammar.lexer byte (some t) with h | ⟨d, hd, -, h⟩
        · exact Or.inr (Or.inr (Or.inl h))
        · exact Or.inr (Or.inl ⟨d, source, t, hd, rfl, hlabel, h⟩)

/-- **Every EOS step from a state of the tables**: it flushes the label of the
state, or finds the residual unfinished. -/
theorem lexerStep_eos_cases (grammar : ValidatedGrammar) {state : LexerState}
    (hvalid : state.Valid grammar.lexer) :
    (state = .start ∧ lexerStep grammar state .eos =
        .ok (.finished none grammar.lalr.eofTerminal)) ∨
      (∃ source t, state = .dfa source ∧ grammar.lexer.terminal source = some (some t) ∧
        lexerStep grammar state .eos = .ok (.finished (some t) grammar.lalr.eofTerminal)) ∨
      ∃ source, state = .dfa source ∧ grammar.lexer.terminal source = some none ∧
        lexerStep grammar state .eos = .error (.eosAfterUnfinishedResidual source) := by
  cases state with
  | start => exact Or.inl ⟨rfl, rfl⟩
  | dfa source =>
    obtain ⟨label, hlabel, -⟩ := grammar.lexer.terminal_eq hvalid
    cases label with
    | none =>
      refine Or.inr (Or.inr ⟨source, rfl, hlabel, ?_⟩)
      simp only [lexerStep, eosStep, hlabel]
    | some t =>
      refine Or.inr (Or.inl ⟨source, t, rfl, hlabel, ?_⟩)
      simp only [lexerStep, eosStep, hlabel]

end GreatGramma
