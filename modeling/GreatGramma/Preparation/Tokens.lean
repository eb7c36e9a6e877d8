import GreatGramma.Lexer.Scanner
import GreatGramma.Library.Traversal

/-!
# The prepared token table

Preparation composes every token with every lexer source.  Sources are numbered: logical start is
`0`, and DFA state `s` is `s + 1`.  The table that comes out holds the effect of every token on
every source, so that looking a token up at run time is running the scanner over its bytes.

## Numbers and states

The numbering is a bijection between the numbers below the count of sources and the valid lexer
states (`LexerState.ofIndex_index`, `LexerState.index_ofIndex`).  The source code goes both ways:
preparation counts through the numbers, and the runtime has a state and asks for its number.  All
arithmetic on numbers is done in this module, with the overflow checks that the source makes of
it, none of which can fail on a validated lexer.

## The table

A row is built cell by cell and the table row by row, and each loop is characterized by what it
has filled in so far.  The result says what every cell holds (`prepareTokenTable_exact`): for an
ordinary token the state that its bytes lead to with what they emit, or that they lead nowhere;
for an EOS token that it is one.
-/

namespace GreatGramma

open Traversal

/-! ## Numbering the sources -/

/-- The number of a source. -/
def LexerState.index : LexerState → ℕ
  | .start => 0
  | .dfa state => state + 1

/-- The source with a number. -/
def LexerState.ofIndex : ℕ → LexerState
  | 0 => .start
  | state + 1 => .dfa state

@[simp] theorem LexerState.ofIndex_index (state : LexerState) : ofIndex state.index = state := by
  cases state <;> rfl

@[simp] theorem LexerState.index_ofIndex (i : ℕ) : (ofIndex i).index = i := by
  cases i <;> rfl

section
variable {grammar : ValidatedGrammar}

/-- How many sources there are. -/
def ValidatedGrammar.sources (grammar : ValidatedGrammar) : ℕ := grammar.lexer.stateCount + 1

theorem LexerState.index_lt {state : LexerState} :
    state.index < grammar.sources ↔ state.Valid grammar.lexer := by
  cases state with
  | start => exact ⟨fun _ => trivial, fun _ => Nat.succ_pos _⟩
  | dfa state => exact Nat.succ_lt_succ_iff

theorem LexerState.ofIndex_valid {i : ℕ} (h : i < grammar.sources) :
    (ofIndex i).Valid grammar.lexer := by
  rw [← index_lt, index_ofIndex]
  exact h

theorem sourceCount_eq (grammar : ValidatedGrammar) :
    sourceCount grammar = .ok grammar.sources := by
  have hlt := grammar.lexer.stateCount_lt
  have hadd : checkedAdd grammar.lexer.stateCount 1 = some (grammar.lexer.stateCount + 1) := by
    rw [checkedAdd_eq_some, usizeMax_eq]
    exact ⟨by omega, rfl⟩
  simp only [sourceCount, hadd, ValidatedGrammar.sources]

theorem sourceAt_eq {i : ℕ} (h : i < grammar.sources) : sourceAt i = some (.ofIndex i) := by
  have hlt := grammar.lexer.stateCount_lt
  unfold ValidatedGrammar.sources at h
  cases i with
  | zero => rfl
  | succ state =>
    have hfit : u32TryFrom state = some state := u32TryFrom_eq_some.mpr ⟨by omega, rfl⟩
    simp only [sourceAt, Nat.add_eq_zero_iff, Nat.one_ne_zero, and_false, if_false,
      Nat.add_sub_cancel, hfit, Option.map_some, LexerState.ofIndex]

theorem sourceIndexForCount_eq {state : LexerState} (h : state.Valid grammar.lexer) :
    sourceIndexForCount grammar.sources state = some state.index := by
  have hlt := grammar.lexer.stateCount_lt
  cases state with
  | start => simp [sourceIndexForCount, ValidatedGrammar.sources, LexerState.index]
  | dfa state =>
    have hvalid : state < grammar.lexer.stateCount := h
    have hadd : checkedAdd state 1 = some (state + 1) := by
      rw [checkedAdd_eq_some, usizeMax_eq]
      exact ⟨Nat.le_trans (Nat.succ_le_of_lt hvalid) (by omega), rfl⟩
    simp [sourceIndexForCount, hadd, ValidatedGrammar.sources, LexerState.index, hvalid]

theorem sourceIndex_eq {state : LexerState} (h : state.Valid grammar.lexer) :
    sourceIndex grammar state = some state.index := by
  simp only [sourceIndex, sourceCount_eq, sourceIndexForCount_eq h]

/-! ## The table -/

/-- The table holds the effect of every token on every source. -/
structure PreparedTokenTable.Exact (grammar : ValidatedGrammar) (table : PreparedTokenTable) :
    Prop where
  sources : table.sourceCount = grammar.sources
  cell : ∀ {state : LexerState} {token : TokenId} {entry : TokenEntry},
    state.Valid grammar.lexer → grammar.token token = some entry →
      table.cell state.index token = some (grammar.tokenEffect state entry)

/-- What a cell of the row of a source holds. -/
def TokenCell (grammar : ValidatedGrammar) (state : LexerState) (token : TokenId)
    (execution : Option TokenExecution) : Prop :=
  ∀ entry, grammar.token token = some entry → execution = grammar.tokenEffect state entry

theorem appendTokenCell_ok {state : LexerState} {token : TokenId} {limits : PreparationLimits}
    {work work' : WorkBudget} {items items' : ℕ} {row row' : List (Option TokenExecution)}
    (hvalid : state.Valid grammar.lexer)
    (h : appendTokenCell grammar state token limits work items row = .ok (work', items', row')) :
    ∃ execution, row' = row ++ [execution] ∧ TokenCell grammar state token execution := by
  unfold appendTokenCell at h
  split at h <;> try contradiction
  rename_i token' htoken
  obtain ⟨-, rfl⟩ := u32TryFrom_eq_some.mp htoken
  split at h <;> try contradiction
  rename_i entry hentry
  have hcell : ∃ execution, row' = row ++ [execution] ∧
      execution = grammar.tokenEffect state entry := by
    cases entry <;> simp only [bind_eq_ok] at h
    all_goals
      obtain ⟨_, -, _, -, execution, hexecution, _, -, h⟩ := h
      rw [mapError_eq_ok, ValidatedGrammar.executeEntry_eq hvalid] at hexecution
      cases hexecution
      cases h
      exact ⟨_, rfl, rfl⟩
  obtain ⟨execution, hrow, heffect⟩ := hcell
  refine ⟨execution, hrow, fun entry' hentry' => ?_⟩
  rw [hentry] at hentry'
  cases hentry'
  exact heffect

theorem buildTokenTableRow_ok {source tokens : ℕ} {limits : PreparationLimits}
    {work work' : WorkBudget} {items items' : ℕ} {row : List (Option TokenExecution)}
    (hsource : source < grammar.sources)
    (h : buildTokenTableRow grammar source tokens limits work items = .ok (work', items', row)) :
    Filled (TokenCell grammar (.ofIndex source)) tokens row := by
  unfold buildTokenTableRow at h
  rw [sourceAt_eq hsource] at h
  refine foldlM_range_ok
    (I := fun i (s : WorkBudget × ℕ × List (Option TokenExecution)) =>
      Filled (TokenCell grammar (.ofIndex source)) i s.2.2) h Filled.nil ?_
  rintro i ⟨w, n, r⟩ ⟨w', n', r'⟩ - hrow hstep
  obtain ⟨execution, rfl, hcell⟩ := appendTokenCell_ok (LexerState.ofIndex_valid hsource) hstep
  exact hrow.push hcell

/-- **The token table is exact.** -/
theorem prepareTokenTable_exact {limits : PreparationLimits} {work work' : WorkBudget}
    {table : PreparedTokenTable} (h : prepareTokenTable grammar limits work = .ok (work', table)) :
    table.Exact grammar := by
  simp only [prepareTokenTable, sourceCount_eq, bind_eq_ok] at h
  obtain ⟨_, hsources, _, -, _, -, ⟨_, _, rows⟩, hrows, h⟩ := h
  cases hsources
  cases h
  have hfilled : Filled (fun source row =>
      Filled (TokenCell grammar (.ofIndex source)) grammar.tokenCount row)
      grammar.sources rows := by
    refine foldlM_range_ok
      (I := fun i (s : WorkBudget × ℕ × List (List (Option TokenExecution))) =>
        Filled (fun source row =>
          Filled (TokenCell grammar (.ofIndex source)) grammar.tokenCount row) i s.2.2)
      hrows Filled.nil ?_
    rintro i ⟨w, n, r⟩ ⟨w', n', r'⟩ hi hI hstep
    simp only [bind_eq_ok] at hstep
    obtain ⟨⟨_, _, row⟩, hrow, hstep⟩ := hstep
    cases hstep
    exact hI.push (buildTokenTableRow_ok hi hrow)
  refine ⟨hfilled.1, fun {state token entry} hvalid htoken => ?_⟩
  obtain ⟨row, hrow, hcells⟩ := hfilled.get (LexerState.index_lt.mpr hvalid)
  have hlt : token < grammar.tokenCount := by
    rw [← grammar.token_isSome, htoken]
    rfl
  obtain ⟨execution, hexecution, hcell⟩ := hcells.get hlt
  rw [LexerState.ofIndex_index] at hcell
  simp only [PreparedTokenTable.cell, hrow, hexecution, Option.bind_eq_bind, Option.bind_some,
    hcell entry htoken]

end
end GreatGramma
