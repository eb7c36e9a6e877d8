import Mathlib.Algebra.Group.Nat.Defs
import Mathlib.Data.List.Basic
import Mathlib.Tactic.Common

/-!
# Normalized grammars

The validated side of `normalized.rs`: the token table, the lexer DFA and the
LALR table that the engine runs on, with their checked lookups.

In the source these values have private fields, and the only way to build one is
`validate`.  Here the facts that validation establishes are fields of the
structures, so a `ValidatedGrammar` is a grammar that passed.  Facts about one
table are fields of that table; the facts that relate two tables are fields of
the grammar.

## Identifiers and machine words

Identifiers are unsigned 32-bit numbers in the source and natural numbers here;
a bound that the code relies on is a field.  `usize` is the 64-bit word, and the
checked operations on it are kept wherever the code checks.

## Lookups

Tables are flat vectors, and a cell is found by multiplying and adding, with a
check at each step.  A lookup therefore answers `none` in two cases that have
nothing to do with each other: the state or the terminal is not one of the
table, or the index overflows.  The number of cells is a field that fits a word,
so the second does not happen (`checked_cell`), and each lookup has one lemma
that says what it reads for arguments of the table.  These lemmas are what later
proofs use, and the arithmetic is done here once.
-/

namespace GreatGramma

/-! ## Machine words -/

/-- The largest `usize`. -/
def usizeMax : ℕ := 2 ^ 64 - 1

/-- `usize::checked_add`. -/
def checkedAdd (a b : ℕ) : Option ℕ := if a + b ≤ usizeMax then some (a + b) else none

/-- `usize::checked_mul`. -/
def checkedMul (a b : ℕ) : Option ℕ := if a * b ≤ usizeMax then some (a * b) else none

/-- `u32::try_from`. -/
def u32TryFrom (n : ℕ) : Option ℕ := if n < 2 ^ 32 then some n else none

theorem checkedAdd_eq_some {a b c : ℕ} :
    checkedAdd a b = some c ↔ a + b ≤ usizeMax ∧ a + b = c := by
  unfold checkedAdd
  split_ifs with h <;> simp [h]

theorem checkedMul_eq_some {a b c : ℕ} :
    checkedMul a b = some c ↔ a * b ≤ usizeMax ∧ a * b = c := by
  unfold checkedMul
  split_ifs with h <;> simp [h]

theorem usizeMax_eq : usizeMax = 18446744073709551615 := rfl

theorem cell_lt {row column rows width : ℕ} (hrow : row < rows) (hcolumn : column < width) :
    row * width + column < rows * width :=
  calc row * width + column < row * width + width := by omega
    _ = (row + 1) * width := by rw [Nat.succ_mul]
    _ ≤ rows * width := Nat.mul_le_mul_right _ hrow

/-- **A cell of a table whose size fits `u32`.**  Its index is computed without
overflow and lies inside the table. -/
theorem checked_cell {row column rows width : ℕ} (hrow : row < rows) (hcolumn : column < width)
    (hfit : rows * width < 2 ^ 32) :
    checkedMul row width = some (row * width) ∧
      checkedAdd (row * width) column = some (row * width + column) ∧
      row * width + column < rows * width := by
  have hcell := cell_lt hrow hcolumn
  refine ⟨checkedMul_eq_some.mpr ⟨?_, rfl⟩, checkedAdd_eq_some.mpr ⟨?_, rfl⟩, hcell⟩
  · rw [usizeMax_eq]
    omega
  · rw [usizeMax_eq]
    omega

theorem u32TryFrom_eq_some {n m : ℕ} : u32TryFrom n = some m ↔ n < 2 ^ 32 ∧ n = m := by
  unfold u32TryFrom
  by_cases h : n < 2 ^ 32
  · rw [if_pos h, Option.some.injEq]
    exact ⟨fun heq => ⟨h, heq⟩, And.right⟩
  · rw [if_neg h]
    exact ⟨fun heq => (by cases heq), fun heq => absurd heq.1 h⟩

/-! ## Identifiers -/

/-- Identifies an entry in the normalized token table. -/
abbrev TokenId := ℕ

/-- Identifies a state in the normalized lexer DFA. -/
abbrev DfaStateId := ℕ

/-- Identifies a terminal in the normalized LALR table. -/
abbrev TerminalId := ℕ

/-- Identifies a state in the normalized LALR table. -/
abbrev ParserStateId := ℕ

/-- Identifies a nonterminal in the normalized LALR table. -/
abbrev NonterminalId := ℕ

/-- Identifies a production in the normalized LALR table. -/
abbrev ProductionId := ℕ

/-- Identifies an interned realizable terminal sequence head. -/
abbrev SequenceId := ℕ

/-! ## Entries -/

/-- One model-token entry in the normalized vocabulary. -/
inductive TokenEntry where
  | bytes (bytes : List UInt8)
  | eos
  deriving DecidableEq

/-- Dimensions of a normalized LALR table. -/
structure LalrDimensions where
  stateCount : ℕ
  terminalCount : ℕ
  nonterminalCount : ℕ
  deriving DecidableEq

/-- One normalized LALR action cell. -/
inductive Action where
  | error
  | shift (destination : ParserStateId)
  | reduce (production : ProductionId) (rank : UInt32)
  | accept
  deriving DecidableEq

/-- One normalized LALR production. -/
structure Production where
  lhs : NonterminalId
  popLen : ℕ
  deriving DecidableEq

/-! ## The lexer table -/

/-- Checked lexer data with read-only lookup operations. -/
structure ValidatedLexer where
  stateCount : ℕ
  classCount : ℕ
  byteClasses : List ℕ
  transitions : List (Option DfaStateId)
  startState : DfaStateId
  terminals : List (Option TerminalId)
  stateCount_lt : stateCount < 2 ^ 32
  cells_lt : stateCount * classCount < 2 ^ 32
  byteClasses_length : byteClasses.length = 256
  byteClasses_lt : ∀ c ∈ byteClasses, c < classCount
  transitions_length : transitions.length = stateCount * classCount
  transitions_lt : ∀ d, some d ∈ transitions → d < stateCount
  startState_lt : startState < stateCount
  terminals_length : terminals.length = stateCount
  startState_unlabelled : terminals[startState]? = some none

namespace ValidatedLexer

variable (lexer : ValidatedLexer)

/-- The class of a byte. -/
def byteClass (byte : UInt8) : ℕ :=
  lexer.byteClasses.get ⟨byte.toNat, by rw [lexer.byteClasses_length]; exact byte.toNat_lt⟩

/-- The row of a checked state. -/
def stateIndex (state : DfaStateId) : Option ℕ :=
  if state ≥ lexer.stateCount then none else some state

/-- `none` for an invalid source state, `some none` for a checked state whose
byte transition is absent. -/
def transition (state : DfaStateId) (byte : UInt8) : Option (Option DfaStateId) := do
  let stateIndex ← lexer.stateIndex state
  let rowStart ← checkedMul stateIndex lexer.classCount
  let cell ← checkedAdd rowStart (lexer.byteClass byte)
  lexer.transitions[cell]?

/-- `none` for an invalid source state, and the state's optional terminal
otherwise. -/
def terminal (state : DfaStateId) : Option (Option TerminalId) := do
  let stateIndex ← lexer.stateIndex state
  lexer.terminals[stateIndex]?

theorem byteClass_lt (byte : UInt8) : lexer.byteClass byte < lexer.classCount :=
  lexer.byteClasses_lt _ (List.get_mem _ _)

theorem transition_eq {state : DfaStateId} (h : state < lexer.stateCount) (byte : UInt8) :
    ∃ destination, lexer.transition state byte = some destination ∧
      ∀ d, destination = some d → d < lexer.stateCount := by
  obtain ⟨hmul, hadd, hcell⟩ := checked_cell h (lexer.byteClass_lt byte) lexer.cells_lt
  have hlt : state * lexer.classCount + lexer.byteClass byte < lexer.transitions.length := by
    rw [lexer.transitions_length]
    exact hcell
  refine ⟨lexer.transitions[state * lexer.classCount + lexer.byteClass byte], ?_, ?_⟩
  · simp only [transition, stateIndex, if_neg (Nat.not_le.mpr h), hmul, hadd,
      Option.bind_eq_bind, Option.bind_some]
    exact List.getElem?_eq_getElem hlt
  · intro d hd
    exact lexer.transitions_lt d (hd ▸ List.getElem_mem hlt)

theorem terminal_eq {state : DfaStateId} (h : state < lexer.stateCount) :
    ∃ label, lexer.terminal state = some label ∧ some label = lexer.terminals[state]? := by
  have hlt : state < lexer.terminals.length := by
    rw [lexer.terminals_length]
    exact h
  refine ⟨lexer.terminals[state], ?_, (List.getElem?_eq_getElem hlt).symm⟩
  simp only [terminal, stateIndex, if_neg (Nat.not_le.mpr h), Option.bind_eq_bind,
    Option.bind_some]
  exact List.getElem?_eq_getElem hlt

theorem terminal_isSome {state : DfaStateId} :
    (lexer.terminal state).isSome ↔ state < lexer.stateCount := by
  constructor
  · intro h
    by_contra hge
    simp [terminal, stateIndex, Nat.not_lt.mp hge] at h
  · intro h
    obtain ⟨label, hlabel, -⟩ := lexer.terminal_eq h
    rw [hlabel]
    rfl

end ValidatedLexer

/-! ## The parser table -/

/-- `checked_index`: an identifier below its count, as an index. -/
def checkedIndex (id count : ℕ) : Option ℕ := if id ≥ count then none else some id

theorem checkedIndex_of_lt {id count : ℕ} (h : id < count) : checkedIndex id count = some id :=
  if_neg (Nat.not_le.mpr h)

/-- Checked LALR data with read-only lookup operations. -/
structure ValidatedLalr where
  dimensions : LalrDimensions
  startState : ParserStateId
  eofTerminal : TerminalId
  actions : List Action
  gotos : List (Option ParserStateId)
  productions : List Production
  ignoredTerminals : List UInt8
  stateCount_lt : dimensions.stateCount < 2 ^ 32
  terminalCount_lt : dimensions.terminalCount < 2 ^ 32
  actionCells_lt : dimensions.stateCount * dimensions.terminalCount < 2 ^ 32
  gotoCells_lt : dimensions.stateCount * dimensions.nonterminalCount < 2 ^ 32
  actions_length : actions.length = dimensions.stateCount * dimensions.terminalCount
  gotos_length : gotos.length = dimensions.stateCount * dimensions.nonterminalCount
  ignoredTerminals_length : ignoredTerminals.length = dimensions.terminalCount
  startState_lt : startState < dimensions.stateCount
  eofTerminal_lt : eofTerminal < dimensions.terminalCount
  eofTerminal_kept : ignoredTerminals[eofTerminal]? = some 0
  shift_lt : ∀ d, Action.shift d ∈ actions → d < dimensions.stateCount
  reduce_lt : ∀ p rank, Action.reduce p rank ∈ actions → p < productions.length
  accept_eof : ∀ cell, actions[cell]? = some .accept →
    cell % dimensions.terminalCount = eofTerminal
  gotos_lt : ∀ d, some d ∈ gotos → d < dimensions.stateCount
  lhs_lt : ∀ p ∈ productions, p.lhs < dimensions.nonterminalCount

namespace ValidatedLalr

variable (lalr : ValidatedLalr)

/-- The number of parser states. -/
abbrev stateCount : ℕ := lalr.dimensions.stateCount

/-- The number of terminals. -/
abbrev terminalCount : ℕ := lalr.dimensions.terminalCount

/-- The number of nonterminals. -/
abbrev nonterminalCount : ℕ := lalr.dimensions.nonterminalCount

/-- `none` for an invalid terminal, and whether a checked terminal is a parser
no-op otherwise. -/
def isIgnored (terminal : TerminalId) : Option Bool := do
  let index ← checkedIndex terminal lalr.terminalCount
  let ignored ← lalr.ignoredTerminals[index]?
  return ignored != 0

/-- The action of a checked cell. -/
def action (state : ParserStateId) (terminal : TerminalId) : Option Action := do
  let stateIndex ← checkedIndex state lalr.stateCount
  let terminalIndex ← checkedIndex terminal lalr.terminalCount
  let rowStart ← checkedMul stateIndex lalr.terminalCount
  let cell ← checkedAdd rowStart terminalIndex
  lalr.actions[cell]?

/-- `none` for an invalid row or column, and `some none` for an absent goto in a
checked cell. -/
def goto (state : ParserStateId) (nonterminal : NonterminalId) :
    Option (Option ParserStateId) := do
  let stateIndex ← checkedIndex state lalr.stateCount
  let nonterminalIndex ← checkedIndex nonterminal lalr.nonterminalCount
  let rowStart ← checkedMul stateIndex lalr.nonterminalCount
  let cell ← checkedAdd rowStart nonterminalIndex
  lalr.gotos[cell]?

/-- The production of a checked identifier. -/
def production (production : ProductionId) : Option Production := lalr.productions[production]?

theorem isIgnored_eq {terminal : TerminalId} (h : terminal < lalr.terminalCount) :
    ∃ ignored, lalr.isIgnored terminal = some ignored := by
  have hlt : terminal < lalr.ignoredTerminals.length := by
    rw [lalr.ignoredTerminals_length]
    exact h
  refine ⟨lalr.ignoredTerminals[terminal] != 0, ?_⟩
  simp only [isIgnored, checkedIndex_of_lt h, Option.bind_eq_bind, Option.bind_some,
    List.getElem?_eq_getElem hlt]
  rfl

/-- The EOF terminal is one the parser sees. -/
theorem isIgnored_eofTerminal : lalr.isIgnored lalr.eofTerminal = some false := by
  simp only [isIgnored, checkedIndex_of_lt lalr.eofTerminal_lt, Option.bind_eq_bind,
    Option.bind_some, lalr.eofTerminal_kept]
  rfl

theorem action_cell {state : ParserStateId} {terminal : TerminalId}
    (hs : state < lalr.stateCount) (ht : terminal < lalr.terminalCount) :
    lalr.action state terminal = lalr.actions[state * lalr.terminalCount + terminal]? := by
  obtain ⟨hmul, hadd, -⟩ := checked_cell hs ht lalr.actionCells_lt
  simp only [action, checkedIndex_of_lt hs, checkedIndex_of_lt ht, hmul, hadd,
    Option.bind_eq_bind, Option.bind_some]

/-- **A checked cell holds an action, and its references are in range.** -/
theorem action_eq {state : ParserStateId} {terminal : TerminalId}
    (hs : state < lalr.stateCount) (ht : terminal < lalr.terminalCount) :
    ∃ a, lalr.action state terminal = some a ∧
      (∀ d, a = .shift d → d < lalr.stateCount) ∧
      (∀ p rank, a = .reduce p rank → p < lalr.productions.length) ∧
      (a = .accept → terminal = lalr.eofTerminal) := by
  have hlt : state * lalr.terminalCount + terminal < lalr.actions.length := by
    rw [lalr.actions_length]
    exact (checked_cell hs ht lalr.actionCells_lt).2.2
  have hcell := List.getElem?_eq_getElem hlt
  refine ⟨lalr.actions[state * lalr.terminalCount + terminal], ?_, ?_, ?_, ?_⟩
  · rw [lalr.action_cell hs ht, hcell]
  · intro d hd
    exact lalr.shift_lt d (hd ▸ List.getElem_mem hlt)
  · intro p rank hp
    exact lalr.reduce_lt p rank (hp ▸ List.getElem_mem hlt)
  · intro ha
    have hmod := lalr.accept_eof _ (hcell.trans (congrArg some ha))
    rwa [Nat.mul_comm, Nat.mul_add_mod, Nat.mod_eq_of_lt ht] at hmod

theorem goto_eq {state : ParserStateId} {nonterminal : NonterminalId}
    (hs : state < lalr.stateCount) (hn : nonterminal < lalr.nonterminalCount) :
    ∃ destination, lalr.goto state nonterminal = some destination ∧
      ∀ d, destination = some d → d < lalr.stateCount := by
  obtain ⟨hmul, hadd, hcell⟩ := checked_cell hs hn lalr.gotoCells_lt
  have hlt : state * lalr.nonterminalCount + nonterminal < lalr.gotos.length := by
    rw [lalr.gotos_length]
    exact hcell
  refine ⟨lalr.gotos[state * lalr.nonterminalCount + nonterminal], ?_, ?_⟩
  · simp only [goto, checkedIndex_of_lt hs, checkedIndex_of_lt hn, hmul, hadd,
      Option.bind_eq_bind, Option.bind_some]
    exact List.getElem?_eq_getElem hlt
  · intro d hd
    exact lalr.gotos_lt d (hd ▸ List.getElem_mem hlt)

theorem production_eq {p : ProductionId} (hp : p < lalr.productions.length) :
    ∃ production, lalr.production p = some production ∧
      production.lhs < lalr.nonterminalCount := by
  refine ⟨lalr.productions[p], List.getElem?_eq_getElem hp, ?_⟩
  exact lalr.lhs_lt _ (List.getElem_mem hp)

end ValidatedLalr

/-! ## The grammar -/

/-- Owned normalized grammar whose dimensions and references have been checked. -/
structure ValidatedGrammar where
  tokens : List TokenEntry
  lexer : ValidatedLexer
  lalr : ValidatedLalr
  tokens_length_lt : tokens.length < 2 ^ 32
  hasOrdinary : ∃ bytes, TokenEntry.bytes bytes ∈ tokens
  hasEos : TokenEntry.eos ∈ tokens
  bytes_ne_nil : TokenEntry.bytes [] ∉ tokens
  terminals_lt : ∀ t, some t ∈ lexer.terminals → t < lalr.terminalCount
  terminals_ne_eof : some lalr.eofTerminal ∉ lexer.terminals

namespace ValidatedGrammar

variable (grammar : ValidatedGrammar)

/-- The number of token entries. -/
def tokenCount : ℕ := grammar.tokens.length

/-- The entry of a token. -/
def token (token : TokenId) : Option TokenEntry := grammar.tokens[token]?

theorem token_isSome {token : TokenId} :
    (grammar.token token).isSome ↔ token < grammar.tokenCount := by
  simp [ValidatedGrammar.token, tokenCount]

/-- A label is a terminal of the parser other than EOF. -/
theorem terminal_label {state : DfaStateId} {t : TerminalId}
    (h : grammar.lexer.terminal state = some (some t)) :
    t < grammar.lalr.terminalCount ∧ t ≠ grammar.lalr.eofTerminal := by
  have hlt : state < grammar.lexer.stateCount := by
    rw [← grammar.lexer.terminal_isSome, h]
    rfl
  obtain ⟨label, hlabel, hcell⟩ := grammar.lexer.terminal_eq hlt
  rw [h] at hlabel
  cases hlabel
  have hmem : some t ∈ grammar.lexer.terminals := List.mem_of_getElem? hcell.symm
  refine ⟨grammar.terminals_lt t hmem, ?_⟩
  rintro rfl
  exact grammar.terminals_ne_eof hmem

end ValidatedGrammar
end GreatGramma
