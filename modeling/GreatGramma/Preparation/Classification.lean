import GreatGramma.Core.Engine
import GreatGramma.Preparation.Buckets

/-!
# Prepared grammars

What `prepare` hands to the runtime, in one structure: the spanner is exact, every cell of the
classification table is the symbolic run it stands for, and a mask has one bit for every token.

## What a cell says

The runtime knows the stack of a row, and preparation does not.  A cell is made for a parser state
and a head, and it speaks for every stack with that state on top: two of its values are the
answers of a run that never looks below the top, and `dependent` says that the run would.  So a
cell is the outcome of one symbolic run, from the stack that consists of its state (`CellExact`),
and nothing about any other stack has to be stored.

## What is used of it

Later modules do not look at how the tables were made.  All that they use is
`PreparedGrammar.Sound`, which `prepare` establishes (`prepare_sound`): from it follows what the
runtime's lookups find, and that the runtime's decision about a head, whether it is read off a
cell or replayed, is the answer of the reference interpreter.
-/

namespace GreatGramma

open Reservation ShiftReduce Traversal

section
variable {grammar : ValidatedGrammar}

/-! ## Classification cells -/

/-- The cell of a state and a head is the symbolic run of the head from the state. -/
def CellExact (lalr : ValidatedLalr) (q : ParserStateId) (head : List TerminalId)
    (cell : SequenceClassification) : Prop :=
  ∃ decision, lalr.runReply .dependent head.length (lalr.table.parse [q] head) = .ok decision ∧
    cell = classifyDecision decision

theorem classifySequenceHeadWithBudget_ok {q : ParserStateId} {head : List TerminalId}
    {work work' : WorkBudget} {cell : SequenceClassification}
    (hq : q < grammar.lalr.stateCount) (hhead : grammar.lalr.Emittable head)
    (h : classifySequenceHeadWithBudget grammar q head work = .ok (cell, work')) :
    CellExact grammar.lalr q head cell := by
  have hbase : grammar.lalr.ValidStack [q] :=
    ⟨List.cons_ne_nil q [], fun s hs => List.mem_singleton.mp hs ▸ hq⟩
  unfold classifySequenceHeadWithBudget at h
  split_ifs at h
  split at h
  · cases h
  · rename_i decision inspected hrun
    simp only [bind_eq_ok] at h
    obtain ⟨_, -, h⟩ := h
    cases h
    exact ⟨decision, symbolicCheckedWithLimit_complete hbase hhead.valid hrun, rfl⟩
  · split at h <;> cases h

/-! ## The prepared value -/

/-- **What preparation establishes.** -/
structure PreparedGrammar.Sound (prepared : PreparedGrammar) : Prop where
  spanner : prepared.spanner.Exact prepared.grammar
  cells : ∀ {q : ParserStateId} {sequence : SequenceId} {head : List TerminalId},
    q < prepared.grammar.lalr.stateCount → prepared.spanner.sequence sequence = some head →
      ∃ cell, prepared.parser.classification q sequence = .ok cell ∧
        CellExact prepared.grammar.lalr q head cell
  maskBytes : prepared.maskBytes = (prepared.grammar.tokenCount + 7) / 8

theorem prepareParserRow_ok {spanner : PreparedSpanner} {q count : ℕ} {work work' : WorkBudget}
    {row : List SequenceClassification} (hspanner : spanner.Exact grammar)
    (hq : q < grammar.lalr.stateCount)
    (h : prepareParserRow grammar spanner q count work = .ok (row, work')) :
    Filled (fun sequence cell => ∀ head, spanner.sequence sequence = some head →
      CellExact grammar.lalr q head cell) count row := by
  refine foldlM_range_ok
    (I := fun i (s : List SequenceClassification × WorkBudget) => Filled (fun sequence cell =>
      ∀ head, spanner.sequence sequence = some head → CellExact grammar.lalr q head cell) i s.1)
    h Filled.nil ?_
  rintro i ⟨row, w⟩ ⟨row', w'⟩ - hrow hstep
  dsimp only at hstep
  split at hstep <;> try contradiction
  rename_i sequence hsequence
  obtain ⟨-, rfl⟩ := u32TryFrom_eq_some.mp hsequence
  split at hstep <;> try contradiction
  rename_i head hhead
  simp only [bind_eq_ok] at hstep
  obtain ⟨⟨cell, _⟩, hcell, hstep⟩ := hstep
  cases hstep
  refine hrow.push fun head' hhead' => ?_
  rw [hhead] at hhead'
  cases hhead'
  obtain ⟨direct, c, -, hemittable⟩ := hspanner.heads head (List.mem_of_getElem? hhead)
  exact classifySequenceHeadWithBudget_ok hq hemittable hcell

theorem prepareParserWithBudget_ok {spanner : PreparedSpanner} {limits : PreparationLimits}
    {work work' : WorkBudget} {parser : PreparedParser} (hspanner : spanner.Exact grammar)
    (h : prepareParserWithBudget grammar spanner limits work = .ok (parser, work')) :
    ∀ {q sequence : ℕ} {head : List TerminalId}, q < grammar.lalr.stateCount →
      spanner.sequence sequence = some head →
      ∃ cell, parser.classification q sequence = .ok cell ∧
        CellExact grammar.lalr q head cell := by
  simp only [prepareParserWithBudget, bind_eq_ok] at h
  obtain ⟨_, -, _, -, ⟨rows, _⟩, hrows, h⟩ := h
  cases h
  have hfilled := foldlM_range_ok
    (I := fun i (s : List (List SequenceClassification) × WorkBudget) => Filled (fun q row =>
      Filled (fun sequence cell => ∀ head, spanner.sequence sequence = some head →
        CellExact grammar.lalr q head cell) spanner.sequenceCount row) i s.1)
    hrows Filled.nil ?_
  · intro q sequence head hq hhead
    obtain ⟨row, hrow, hcells⟩ := hfilled.get hq
    have hlt : sequence < spanner.sequenceCount := (List.getElem?_eq_some_iff.mp hhead).1
    obtain ⟨cell, hcell, hexact⟩ := hcells.get hlt
    exact ⟨cell, by simp only [PreparedParser.classification, hrow, hcell], hexact head hhead⟩
  · rintro i ⟨rows, w⟩ ⟨rows', w'⟩ hi hI hstep
    dsimp only at hstep
    split at hstep <;> try contradiction
    rename_i q hq
    obtain ⟨-, rfl⟩ := u32TryFrom_eq_some.mp hq
    simp only [bind_eq_ok] at hstep
    obtain ⟨⟨row, _⟩, hrow, hstep⟩ := hstep
    cases hstep
    exact hI.push (prepareParserRow_ok hspanner hi hrow)

/-- **`prepare` builds sound values.** -/
theorem prepare_sound {limits : PreparationLimits} {prepared : PreparedGrammar}
    (h : prepare grammar limits = .ok prepared) :
    prepared.grammar = grammar ∧ prepared.Sound := by
  simp only [prepare, bind_eq_ok] at h
  obtain ⟨⟨spanner, _⟩, hspanner, ⟨parser, _⟩, hparser, h⟩ := h
  split at h <;> try contradiction
  rename_i rounded hrounded
  cases h
  obtain ⟨-, rfl⟩ := checkedAdd_eq_some.mp hrounded
  have hexact := prepareSpannerWithBudget_exact hspanner
  exact ⟨rfl, hexact, prepareParserWithBudget_ok hexact hparser, rfl⟩

end
end GreatGramma
