import GreatGramma.Core.TokenStep
import GreatGramma.Library.Transducer
import GreatGramma.Parser.Heads

/-!
# The lexer as a transducer

Folding `lexer_step` over bytes is running a transducer, `ValidatedGrammar.scanner`: a step reads
one byte and may emit a terminal, the flush is the EOS step.

## Late emission

The scanner emits late: what a step emits is the label of the state that it leaves, which was
decided before the byte was read, and a state that has read something is never flushed in silence
(`scanner_late`).  This is the condition under which the general facts about heads hold
(`Library.Transducer`): the first terminal that is emitted behind a state is one that could also be
flushed after silent bytes.

## Tokens

The rest of the file reads the token compositions of `token_step.rs` as runs of the scanner, and
collects what a run keeps: its states stay inside the tables, and everything it emits is a terminal
other than EOF.  From a state of the tables `execute_token` never fails; whether it leads on
depends on the scanner alone (`executeToken_eq`, `executeToken_continue_iff`).  From here on no
module speaks of `lexer_step`, but for those that compare it with something else.
-/

namespace GreatGramma

namespace ValidatedGrammar

variable (grammar : ValidatedGrammar)

/-- `lexer_step` as a transducer. -/
def scanner : Transducer LexerState UInt8 TerminalId where
  step state byte :=
    match lexerStep grammar state (.byte byte) with
    | .ok (.continue destination emitted) => some (destination, emitted)
    | _ => none
  flush state :=
    match lexerStep grammar state .eos with
    | .ok (.finished terminal _) => some terminal
    | _ => none

variable {grammar} {state state' : LexerState} {byte : UInt8} {emitted : Option TerminalId}

theorem scanner_step_eq :
    grammar.scanner.step state byte = some (state', emitted) ↔
      lexerStep grammar state (.byte byte) = .ok (.continue state' emitted) := by
  constructor
  · intro h
    simp only [scanner] at h
    split at h <;> cases h
    assumption
  · intro h
    simp only [scanner, h]

/-- **What a byte step can do**: every destination is a DFA state, and what is
emitted is the label of the state left. -/
theorem scanner_step_cases (h : grammar.scanner.step state byte = some (state', emitted)) :
    (∃ d, d < grammar.lexer.stateCount ∧ state' = .dfa d) ∧
      ∀ t, emitted = some t → ∃ source, state = .dfa source ∧
        grammar.lexer.terminal source = some (some t) := by
  have hbegin : ∀ emitted₀, beginLexeme grammar.lexer byte emitted₀ =
      .ok (.continue state' emitted) →
      (∃ d, d < grammar.lexer.stateCount ∧ state' = .dfa d) ∧ emitted = emitted₀ := by
    intro emitted₀ hstep
    rcases beginLexeme_cases grammar.lexer byte emitted₀ with herr | ⟨d, hd, -, hok⟩
    · rw [herr] at hstep
      cases hstep
    · rw [hok] at hstep
      cases hstep
      exact ⟨⟨d, hd, rfl⟩, rfl⟩
  rw [scanner_step_eq] at h
  cases state with
  | start =>
    obtain ⟨hd, rfl⟩ := hbegin none h
    exact ⟨hd, fun t ht => by cases ht⟩
  | dfa source =>
    simp only [lexerStep, byteStep] at h
    split at h
    · cases h
    · rename_i destination htransition
      cases h
      have hsource : source < grammar.lexer.stateCount := by
        by_contra hge
        simp [ValidatedLexer.transition, ValidatedLexer.stateIndex, Nat.not_lt.mp hge]
          at htransition
      obtain ⟨destination', heq, hlt⟩ := grammar.lexer.transition_eq hsource byte
      rw [htransition] at heq
      cases heq
      exact ⟨⟨destination, hlt destination rfl, rfl⟩, fun t ht => by cases ht⟩
    · unfold finishOrRejectResidual at h
      split at h
      · cases h
      · cases h
      · rename_i terminal hterminal
        obtain ⟨hd, rfl⟩ := hbegin (some terminal) h
        refine ⟨hd, fun t ht => ?_⟩
        cases ht
        exact ⟨source, rfl, hterminal⟩

theorem scanner_flush_dfa {source : DfaStateId} {label : Option TerminalId} :
    grammar.scanner.flush (.dfa source) = some label ↔
      ∃ t, label = some t ∧ grammar.lexer.terminal source = some (some t) := by
  simp only [scanner, lexerStep, eosStep]
  cases hlabel : grammar.lexer.terminal source with
  | none => simp
  | some label' =>
    cases label' with
    | none => simp
    | some t => simp [eq_comm]

/-- The scanner is flushed in silence only at logical start. -/
theorem scanner_flush_none (h : grammar.scanner.flush state = some none) : state = .start := by
  cases state with
  | start => rfl
  | dfa source =>
    obtain ⟨t, ht, -⟩ := scanner_flush_dfa.mp h
    cases ht

variable (grammar) in
/-- **The lexer emits late.** -/
theorem scanner_late : grammar.scanner.Late where
  emits_label := by
    intro state byte state' t h
    obtain ⟨-, hlabel⟩ := scanner_step_cases h
    obtain ⟨source, rfl, hterminal⟩ := hlabel t rfl
    exact scanner_flush_dfa.mpr ⟨t, rfl, hterminal⟩
  flush_of_step := by
    intro state byte state' emitted h hflush
    obtain ⟨⟨d, -, rfl⟩, -⟩ := scanner_step_cases h
    cases scanner_flush_none hflush

/-! ## What a run keeps -/

theorem scanner_step_emittable (h : grammar.scanner.step state byte = some (state', emitted)) :
    ∀ t ∈ emitted, t < grammar.lalr.terminalCount ∧ t ≠ grammar.lalr.eofTerminal := by
  intro t ht
  obtain ⟨-, hlabel⟩ := scanner_step_cases h
  obtain ⟨source, -, hterminal⟩ := hlabel t ht
  exact grammar.terminal_label hterminal

theorem scanner_flush_emittable {label : Option TerminalId}
    (h : grammar.scanner.flush state = some label) : grammar.lalr.Emittable label.toList := by
  intro t ht
  cases state with
  | start =>
    obtain rfl : none = label := Option.some.inj h
    cases ht
  | dfa source =>
    obtain ⟨t', rfl, hterminal⟩ := scanner_flush_dfa.mp h
    rw [Option.toList_some, List.mem_singleton] at ht
    exact ht ▸ grammar.terminal_label hterminal

theorem scanner_run_valid {bytes : List UInt8} {em : List TerminalId}
    (hvalid : state.Valid grammar.lexer) (h : grammar.scanner.run state bytes = some (state', em)) :
    state'.Valid grammar.lexer := by
  refine grammar.scanner.run_invariant (P := (·.Valid grammar.lexer)) ?_ hvalid h
  intro k i k' e _ hstep
  obtain ⟨⟨d, hd, rfl⟩, -⟩ := scanner_step_cases hstep
  exact hd

theorem scanner_run_emittable {bytes : List UInt8} {em : List TerminalId}
    (h : grammar.scanner.run state bytes = some (state', em)) : grammar.lalr.Emittable em :=
  grammar.scanner.run_forall (P := fun _ => True)
    (fun _ _ _ _ _ hstep => ⟨trivial, scanner_step_emittable hstep⟩) trivial h

theorem scanner_head_emittable {t : TerminalId} (h : grammar.scanner.Head state t) :
    grammar.lalr.Emittable [t] := by
  obtain ⟨_, _, -, hflush⟩ := h
  exact scanner_flush_emittable hflush

/-! ## Tokens -/

theorem executeByte_eq (hvalid : state.Valid grammar.lexer) (em : List TerminalId) :
    executeByte grammar state byte em =
      match grammar.scanner.step state byte with
      | some (destination, emitted) => (.ok (some destination), em ++ emitted.toList)
      | none => (.ok none, em) := by
  rcases lexerStep_byte_cases grammar hvalid byte with
    ⟨d, -, h⟩ | ⟨d, source, t, -, -, -, h⟩ | h | ⟨source, h⟩
  all_goals simp only [executeByte, scanner, h, mapLexerRejection]

/-- **Composing bytes with the lexer is running the scanner.** -/
theorem executeBytes_eq {bytes : List UInt8} (hvalid : state.Valid grammar.lexer) :
    executeBytes grammar state bytes =
      .ok ((grammar.scanner.run state bytes).map fun out => .continue out.1 out.2) := by
  have hfrom : ∀ (state : LexerState) (em : List TerminalId), state.Valid grammar.lexer →
      executeBytesFrom grammar state em bytes =
        .ok ((grammar.scanner.run state bytes).map fun out => .continue out.1 (em ++ out.2)) := by
    induction bytes with
    | nil =>
      intro state em _
      simp only [executeBytesFrom, Transducer.run_nil, Option.map_some, List.append_nil]
    | cons byte bytes ih =>
      intro state em hvalid
      rw [executeBytesFrom, executeByte_eq hvalid, Transducer.run]
      cases hstep : grammar.scanner.step state byte with
      | none => rfl
      | some out =>
        obtain ⟨destination, emitted⟩ := out
        obtain ⟨⟨d, hd, rfl⟩, -⟩ := scanner_step_cases hstep
        simp only
        rw [ih (.dfa d) _ hd]
        cases grammar.scanner.run (.dfa d) bytes with
        | none => rfl
        | some out => simp only [Option.map_some, List.append_assoc]
  unfold executeBytes
  simpa only [List.nil_append] using hfrom state [] hvalid

theorem executeEos_eq (hvalid : state.Valid grammar.lexer) :
    executeEos grammar state =
      .ok ((grammar.scanner.flush state).map fun label =>
        .finished label.toList grammar.lalr.eofTerminal) := by
  rcases lexerStep_eos_cases grammar hvalid with ⟨-, h⟩ | ⟨source, t, -, -, h⟩ | ⟨source, -, -, h⟩
  all_goals simp only [executeEos, scanner, h, mapLexerRejection, Option.map_some, Option.map_none]

/-- What one token does to a lexer state: `none` when the lexer refuses it. -/
def tokenEffect (grammar : ValidatedGrammar) (state : LexerState) :
    TokenEntry → Option TokenExecution
  | .bytes bytes => (grammar.scanner.run state bytes).map fun out => .continue out.1 out.2
  | .eos => (grammar.scanner.flush state).map fun label =>
      .finished label.toList grammar.lalr.eofTerminal

theorem executeEntry_eq (hvalid : state.Valid grammar.lexer) (entry : TokenEntry) :
    executeEntry grammar state entry = .ok (grammar.tokenEffect state entry) := by
  cases entry with
  | bytes bytes => exact executeBytes_eq hvalid
  | eos => exact executeEos_eq hvalid

/-- **`execute_token` never fails on a state and a token of the tables.** -/
theorem executeToken_eq {token : TokenId} {entry : TokenEntry}
    (hvalid : state.Valid grammar.lexer) (htoken : grammar.token token = some entry) :
    executeToken grammar state token = .ok (grammar.tokenEffect state entry) := by
  have hsource : checkSource grammar state = .ok () := by
    cases state with
    | start => rfl
    | dfa source =>
      have hsome : (grammar.lexer.terminal source).isSome :=
        grammar.lexer.terminal_isSome.mpr hvalid
      simp only [checkSource, hsome, if_true]
  simp only [executeToken, hsource, htoken]
  exact executeEntry_eq hvalid entry

/-- **A token leads on** when it is ordinary and the scanner reads its bytes. -/
theorem executeToken_continue_iff {token : TokenId} {em : List TerminalId}
    (hvalid : state.Valid grammar.lexer) :
    executeToken grammar state token = .ok (some (.continue state' em)) ↔
      ∃ bytes, grammar.token token = some (.bytes bytes) ∧
        grammar.scanner.run state bytes = some (state', em) := by
  constructor
  · intro h
    cases hentry : grammar.token token with
    | none =>
      unfold executeToken at h
      split at h
      · cases h
      · rw [hentry] at h
        cases h
    | some entry =>
      rw [executeToken_eq hvalid hentry] at h
      cases entry with
      | bytes bytes =>
        obtain ⟨⟨state₁, em₁⟩, hrun, hout⟩ := Option.map_eq_some_iff.mp (Except.ok.inj h)
        cases hout
        exact ⟨bytes, rfl, hrun⟩
      | eos =>
        obtain ⟨label, -, hout⟩ := Option.map_eq_some_iff.mp (Except.ok.inj h)
        cases hout
  · rintro ⟨bytes, hentry, hrun⟩
    rw [executeToken_eq hvalid hentry, tokenEffect, hrun, Option.map_some]

end ValidatedGrammar
end GreatGramma
