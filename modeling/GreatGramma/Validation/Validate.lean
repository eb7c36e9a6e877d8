import GreatGramma.Engine.Heads
import GreatGramma.Validation.WellFormed

/-!
# The validation boundary

`validate` turns the tables of a caller into a `ValidatedGrammar`.  The fields of the validated
structures are what the checks have established, so they are filled from `WellFormed`; the tables
themselves are moved over as they are.

## The contract

`validate_accepts_wellFormed` is the whole contract, and it has two parts.  The well-formed grammars
are accepted, if the reservation is granted, and nothing else is.  And the lookups of what comes out
read the cells of what went in (`ValidatedGrammar.Mirrors`): an identifier out of its range has no
cell, the others have the one of the caller's table, whatever the layout of the table is.  One table
is computed and not moved, the one that tells whether a terminal is ignored; its lookup is compared
with the caller's list.

The tables of the lists of `a` are written out as a caller would hand them over, and validation
makes of them the grammar that the other examples use.
-/

namespace GreatGramma

open Traversal Validate

/-! ## Moving the tables -/

section
variable {grammar : UnvalidatedGrammar} {limits : ValidationLimits}

/-- `ValidatedLexer::from_unvalidated`. -/
def ValidatedLexer.fromUnvalidated (grammar : UnvalidatedGrammar)
    (h : grammar.WellFormed limits) : ValidatedLexer where
  stateCount := grammar.lexer.stateCount
  classCount := grammar.lexer.classCount
  byteClasses := grammar.lexer.byteClasses
  transitions := grammar.lexer.transitions
  startState := grammar.lexer.startState
  terminals := grammar.lexer.terminals
  stateCount_lt := grammar.lexer.stateCount_lt
  cells_lt := h.counted.lexerCells
  byteClasses_length := h.shaped.byteClasses
  byteClasses_lt := h.inRange.byteClasses
  transitions_length := h.shaped.transitions
  transitions_lt := h.inRange.transitions
  startState_lt := h.inRange.lexerStart
  terminals_length := h.shaped.terminals
  startState_unlabelled := by
    have hlt : grammar.lexer.startState < grammar.lexer.terminals.length := by
      rw [h.shaped.terminals]
      exact h.inRange.lexerStart
    have hcell := List.getElem?_eq_getElem hlt
    cases hlabel : grammar.lexer.terminals[grammar.lexer.startState] with
    | none => rw [hcell, hlabel]
    | some t => exact absurd (hcell.trans (congrArg some hlabel)) (h.separated.start t)

/-- `ValidatedLalr::from_unvalidated`, with the table that the checks have built. -/
def ValidatedLalr.fromUnvalidated (grammar : UnvalidatedGrammar) (h : grammar.WellFormed limits)
    (ignoredTerminals : List UInt8)
    (htable : ignoredTable grammar.lalr.ignoredTerminals grammar.lalr.dimensions.terminalCount =
      ignoredTerminals) : ValidatedLalr where
  dimensions := grammar.lalr.dimensions
  startState := grammar.lalr.startState
  eofTerminal := grammar.lalr.eofTerminal
  actions := grammar.lalr.actions
  gotos := grammar.lalr.gotos
  productions := grammar.lalr.productions
  ignoredTerminals := ignoredTerminals
  stateCount_lt := grammar.lalr.stateCount_lt
  terminalCount_lt := grammar.lalr.terminalCount_lt
  actionCells_lt := h.counted.actionCells
  gotoCells_lt := h.counted.gotoCells
  actions_length := h.shaped.actions
  gotos_length := h.shaped.gotos
  ignoredTerminals_length := by rw [← htable, length_ignoredTable]
  startState_lt := h.inRange.parserStart
  eofTerminal_lt := h.inRange.eof
  eofTerminal_kept := by
    rw [← htable, getElem?_ignoredTable h.inRange.eof, if_neg h.separated.ignored]
  shift_lt := h.inRange.shifts
  reduce_lt := h.inRange.reductions
  accept_eof := h.separated.accept
  gotos_lt := h.inRange.gotos
  lhs_lt := h.inRange.lhs

/-- `ValidatedGrammar::from_parts`. -/
def ValidatedGrammar.fromParts (grammar : UnvalidatedGrammar) (h : grammar.WellFormed limits)
    (ignoredTerminals : List UInt8)
    (htable : ignoredTable grammar.lalr.ignoredTerminals grammar.lalr.dimensions.terminalCount =
      ignoredTerminals) : ValidatedGrammar where
  tokens := grammar.tokens
  lexer := .fromUnvalidated grammar h
  lalr := .fromUnvalidated grammar h ignoredTerminals htable
  tokens_length_lt := h.counted.tokens
  hasOrdinary := h.tokens.ordinary
  hasEos := h.tokens.eos
  bytes_ne_nil := h.tokens.nonempty
  terminals_lt := h.inRange.labels
  terminals_ne_eof := h.separated.labels

end

/-- `validate`, with the allocator's answer to its one reservation. -/
def validate (grammar : UnvalidatedGrammar) (limits : ValidationLimits) (granted : Bool) :
    Except ValidationError ValidatedGrammar :=
  match h : checkGrammar grammar limits granted with
  | .error error => .error error
  | .ok ignoredTerminals =>
    have hchecked := checkGrammar_eq_ok.mp h
    .ok (.fromParts grammar hchecked.1 ignoredTerminals hchecked.2.2)

theorem validate_eq_ok {grammar : UnvalidatedGrammar} {limits : ValidationLimits} {granted : Bool}
    {validated : ValidatedGrammar} :
    validate grammar limits granted = .ok validated ↔
      granted = true ∧ ∃ h : grammar.WellFormed limits,
        ValidatedGrammar.fromParts grammar h _ rfl = validated := by
  rw [validate]
  split
  · rename_i error herror
    constructor
    · intro h
      cases h
    · rintro ⟨hgranted, hformed, -⟩
      have hok := checkGrammar_eq_ok.mpr ⟨hformed, hgranted, rfl⟩
      rw [herror] at hok
      cases hok
  · rename_i table hok
    obtain ⟨hformed, hgranted, rfl⟩ := checkGrammar_eq_ok.mp hok
    rw [Except.ok.injEq]
    exact ⟨fun h => ⟨hgranted, hformed, h⟩, fun ⟨_, _, h⟩ => h⟩

/-! ## Lookups

A lookup of the source checks its identifiers, computes an index and reads a vector.  For each it is
said what it reads of the caller's table. -/

/-- **The lookups read the input.**  An identifier out of its range has no cell; the
others have the one of the caller's table. -/
structure ValidatedGrammar.Mirrors (validated : ValidatedGrammar) (grammar : UnvalidatedGrammar) :
    Prop where
  token : ∀ t, validated.token t = grammar.tokens[t]?
  byteClass : ∀ byte, grammar.lexer.byteClasses[byte.toNat]? = some (validated.lexer.byteClass byte)
  transition : ∀ state byte, validated.lexer.transition state byte =
    if state < grammar.lexer.stateCount then
      grammar.lexer.transitions[
        state * grammar.lexer.classCount + validated.lexer.byteClass byte]?
    else none
  terminal : ∀ state, validated.lexer.terminal state = grammar.lexer.terminals[state]?
  action : ∀ state terminal, validated.lalr.action state terminal =
    if state < grammar.lalr.dimensions.stateCount ∧
        terminal < grammar.lalr.dimensions.terminalCount then
      grammar.lalr.actions[state * grammar.lalr.dimensions.terminalCount + terminal]?
    else none
  goto : ∀ state nonterminal, validated.lalr.goto state nonterminal =
    if state < grammar.lalr.dimensions.stateCount ∧
        nonterminal < grammar.lalr.dimensions.nonterminalCount then
      grammar.lalr.gotos[state * grammar.lalr.dimensions.nonterminalCount + nonterminal]?
    else none
  production : ∀ p, validated.lalr.production p = grammar.lalr.productions[p]?
  isIgnored : ∀ terminal, validated.lalr.isIgnored terminal =
    if terminal < grammar.lalr.dimensions.terminalCount then
      some (decide (terminal ∈ grammar.lalr.ignoredTerminals))
    else none
  ignored : ∀ terminal, validated.lalr.isIgnored terminal = some true ↔
    terminal ∈ grammar.lalr.ignoredTerminals

theorem ValidatedLexer.transition_eq_getElem? (lexer : ValidatedLexer) (state : DfaStateId)
    (byte : UInt8) :
    lexer.transition state byte =
      if state < lexer.stateCount then
        lexer.transitions[state * lexer.classCount + lexer.byteClass byte]?
      else none := by
  by_cases h : state < lexer.stateCount
  · obtain ⟨hmul, hadd, -⟩ := checked_cell h (lexer.byteClass_lt byte) lexer.cells_lt
    simp only [transition, stateIndex, if_neg (Nat.not_le.mpr h), hmul, hadd, if_pos h,
      Option.bind_eq_bind, Option.bind_some]
  · rw [if_neg h, transition, stateIndex, if_pos (Nat.not_lt.mp h)]
    rfl

theorem ValidatedLexer.terminal_eq_getElem? (lexer : ValidatedLexer) (state : DfaStateId) :
    lexer.terminal state = lexer.terminals[state]? := by
  by_cases h : state < lexer.stateCount
  · rw [terminal, stateIndex, if_neg (Nat.not_le.mpr h)]
    rfl
  · rw [terminal, stateIndex, if_pos (Nat.not_lt.mp h), List.getElem?_eq_none]
    · rfl
    · rw [lexer.terminals_length]
      exact Nat.not_lt.mp h

theorem checkedIndex_of_le {id count : ℕ} (h : count ≤ id) : checkedIndex id count = none :=
  if_pos h

namespace ValidatedLalr

variable (lalr : ValidatedLalr)

theorem action_eq_getElem? (state : ParserStateId) (terminal : TerminalId) :
    lalr.action state terminal =
      if state < lalr.stateCount ∧ terminal < lalr.terminalCount then
        lalr.actions[state * lalr.terminalCount + terminal]?
      else none := by
  by_cases hs : state < lalr.stateCount
  · by_cases ht : terminal < lalr.terminalCount
    · rw [lalr.action_cell hs ht, if_pos ⟨hs, ht⟩]
    · rw [if_neg (fun h => ht h.2), action, checkedIndex_of_lt hs,
        checkedIndex_of_le (Nat.not_lt.mp ht)]
      rfl
  · rw [if_neg (fun h => hs h.1), action, checkedIndex_of_le (Nat.not_lt.mp hs)]
    rfl

theorem goto_eq_getElem? (state : ParserStateId) (nonterminal : NonterminalId) :
    lalr.goto state nonterminal =
      if state < lalr.stateCount ∧ nonterminal < lalr.nonterminalCount then
        lalr.gotos[state * lalr.nonterminalCount + nonterminal]?
      else none := by
  by_cases hs : state < lalr.stateCount
  · by_cases hn : nonterminal < lalr.nonterminalCount
    · obtain ⟨hmul, hadd, -⟩ := checked_cell hs hn lalr.gotoCells_lt
      simp only [goto, checkedIndex_of_lt hs, checkedIndex_of_lt hn, hmul, hadd,
        if_pos (And.intro hs hn), Option.bind_eq_bind, Option.bind_some]
    · rw [if_neg (fun h => hn h.2), goto, checkedIndex_of_lt hs,
        checkedIndex_of_le (Nat.not_lt.mp hn)]
      rfl
  · rw [if_neg (fun h => hs h.1), goto, checkedIndex_of_le (Nat.not_lt.mp hs)]
    rfl

end ValidatedLalr

section
variable {grammar : UnvalidatedGrammar} {limits : ValidationLimits}
  (h : grammar.WellFormed limits)

theorem isIgnored_fromUnvalidated (terminal : TerminalId) :
    (ValidatedLalr.fromUnvalidated grammar h _ rfl).isIgnored terminal =
      if terminal < grammar.lalr.dimensions.terminalCount then
        some (decide (terminal ∈ grammar.lalr.ignoredTerminals))
      else none := by
  by_cases ht : terminal < grammar.lalr.dimensions.terminalCount
  · have hcell : (ignoredTable grammar.lalr.ignoredTerminals
        grammar.lalr.dimensions.terminalCount)[terminal]? =
        some (if terminal ∈ grammar.lalr.ignoredTerminals then 1 else 0) :=
      getElem?_ignoredTable ht
    simp only [ValidatedLalr.isIgnored, ValidatedLalr.fromUnvalidated, checkedIndex_of_lt ht,
      Option.bind_eq_bind, Option.bind_some, hcell, if_pos ht]
    by_cases hmem : terminal ∈ grammar.lalr.ignoredTerminals
    · simp [hmem]
    · simp [hmem]
  · rw [if_neg ht, ValidatedLalr.isIgnored]
    simp only [ValidatedLalr.fromUnvalidated, checkedIndex_of_le (Nat.not_lt.mp ht)]
    rfl

theorem mirrors_fromParts : (ValidatedGrammar.fromParts grammar h _ rfl).Mirrors grammar where
  token := fun _ => rfl
  byteClass := fun _ => List.getElem?_eq_getElem _
  transition := ValidatedLexer.transition_eq_getElem? _
  terminal := ValidatedLexer.terminal_eq_getElem? _
  action := ValidatedLalr.action_eq_getElem? _
  goto := ValidatedLalr.goto_eq_getElem? _
  production := fun _ => rfl
  isIgnored := isIgnored_fromUnvalidated h
  ignored := by
    intro terminal
    have hignored := isIgnored_fromUnvalidated h terminal
    constructor
    · intro htrue
      rw [show (ValidatedGrammar.fromParts grammar h _ rfl).lalr =
        ValidatedLalr.fromUnvalidated grammar h _ rfl from rfl, hignored] at htrue
      split at htrue
      · simpa using htrue
      · cases htrue
    · intro hmem
      refine hignored.trans ?_
      rw [if_pos (h.inRange.ignored terminal hmem), decide_eq_true hmem]

end

/-- **Validation accepts exactly the well-formed grammars, and changes nothing.** -/
theorem validate_accepts_wellFormed (grammar : UnvalidatedGrammar) (limits : ValidationLimits) :
    ((∃ validated, validate grammar limits true = .ok validated) ↔ grammar.WellFormed limits) ∧
      ∀ validated, validate grammar limits true = .ok validated → validated.Mirrors grammar := by
  refine ⟨⟨fun ⟨validated, h⟩ => ?_, fun h => ?_⟩, fun validated h => ?_⟩
  · obtain ⟨-, hformed, -⟩ := validate_eq_ok.mp h
    exact hformed
  · exact ⟨_, validate_eq_ok.mpr ⟨rfl, h, rfl⟩⟩
  · obtain ⟨-, hformed, rfl⟩ := validate_eq_ok.mp h
    exact mirrors_fromParts hformed

/-- The tables of the lists of `a`, as a caller hands them over. -/
def reusableStackUnvalidated : UnvalidatedGrammar where
  tokens := reusableStackGrammar.tokens
  lexer :=
    { stateCount := reusableStackLexer.stateCount
      classCount := reusableStackLexer.classCount
      byteClasses := reusableStackLexer.byteClasses
      transitions := reusableStackLexer.transitions
      startState := reusableStackLexer.startState
      terminals := reusableStackLexer.terminals
      stateCount_lt := reusableStackLexer.stateCount_lt
      classCount_lt := by decide }
  lalr :=
    { dimensions := reusableStackLalr.dimensions
      startState := reusableStackLalr.startState
      eofTerminal := reusableStackLalr.eofTerminal
      actions := reusableStackLalr.actions
      gotos := reusableStackLalr.gotos
      productions := reusableStackLalr.productions
      ignoredTerminals := []
      stateCount_lt := reusableStackLalr.stateCount_lt
      terminalCount_lt := reusableStackLalr.terminalCount_lt
      nonterminalCount_lt := by decide }

theorem validate_accepts_wellFormed_reusableStack :
    ∃ validated, validate reusableStackUnvalidated .default true = .ok validated ∧
      validated.Mirrors reusableStackUnvalidated := by
  obtain ⟨haccepts, hmirrors⟩ := validate_accepts_wellFormed reusableStackUnvalidated .default
  have hchecked : checkGrammar reusableStackUnvalidated .default true = .ok [0, 0] := by
    decide +kernel
  obtain ⟨validated, hvalidated⟩ := haccepts.mpr (checkGrammar_eq_ok.mp hchecked).1
  exact ⟨validated, hvalidated, hmirrors validated hvalidated⟩

end GreatGramma
