import GreatGramma.Core.TokenStep
import GreatGramma.Library.Traversal

/-!
# Singleton terminals and interned heads

`sequence.rs`.  The singleton terminals of a lexer state are the terminals it can emit next, after
any number of silent bytes.

## Facts

They are computed as facts `(source, terminal)`.  A scan of all sources and bytes finds the base
facts and the silent predecessors of every state, and a worklist carries the facts backwards along
the predecessors.  A fact is marked in `seen` when it is queued, so it is queued once; what the
worklist still has to do is bounded by the unmarked cells, and the loop ends.  The measure is the
number of facts that are queued or not yet marked, which adding a fact leaves as it is
(`addFact_size`), less the cursor.

## Heads

Heads are interned in one vector, which is searched from its front; the number of a head is its
place.  A head that is not found is put at the end and charged for.

The vectors of the source are lists, and lookups in them are checked as in the source.  Work is
charged to the budget of preparation where the source charges it.
-/

namespace GreatGramma

open Traversal

/-- One thing known: from `source` the lexer can come to emit `terminal` in
silence. -/
structure Fact where
  source : ℕ
  terminal : TerminalId
  deriving DecidableEq

/-- The marked facts, and the worklist of facts in the order they were marked. -/
structure Facts where
  seen : List UInt8
  facts : List Fact

/-- Exact singleton terminals and plain, deterministically interned heads. -/
structure SequenceTable where
  singletons : List (List TerminalId)
  sequences : List (List TerminalId)
  sequenceItems : ℕ

/-! ## Facts -/

/-- `fact_index`. -/
def factIndex (source terminal terminalCount : ℕ) : Except PreparationError ℕ :=
  match (checkedMul source terminalCount).bind fun start => checkedAdd start terminal with
  | none => .error .invariantViolation
  | some index => .ok index

/-- `mark_fact_seen`. -/
def markFactSeen (seen : List UInt8) (index : ℕ) : Except PreparationError (List UInt8) :=
  match seen[index]? with
  | none => .error .invariantViolation
  | some _ => .ok (seen.set index 1)

/-- `add_fact`. -/
def addFact (known : Facts) (source : ℕ) (terminal : TerminalId) (terminalCount : ℕ) :
    Except PreparationError Facts :=
  if terminal ≥ terminalCount then .error .invariantViolation
  else do
    let index ← factIndex source terminal terminalCount
    match known.seen[index]? with
    | none => throw .invariantViolation
    | some present =>
      if present = 0 then
        let seen ← markFactSeen known.seen index
        return ⟨seen, known.facts ++ [⟨source, terminal⟩]⟩
      else return known

/-! ## The scan -/

/-- What the scan has found so far. -/
structure Scan where
  known : Facts
  predecessors : List (List ℕ)
  work : WorkBudget

/-- `append_predecessor`. -/
def appendPredecessor (predecessors : List (List ℕ)) (destination source : ℕ) :
    Except PreparationError (List (List ℕ)) :=
  match predecessors[destination]? with
  | none => .error .invariantViolation
  | some row => .ok (predecessors.set destination (row ++ [source]))

/-- `scan_byte`. -/
def scanByte (grammar : ValidatedGrammar) (lexerSource : LexerState) (byte source : ℕ)
    (terminalCount : ℕ) (scan : Scan) (destinations : List ℕ) :
    Except PreparationError (Scan × List ℕ) :=
  if byte ≥ 256 then .error .invariantViolation
  else
    match lexerStep grammar lexerSource (.byte (UInt8.ofNat byte)) with
    | .ok (.continue _ (some terminal)) => do
      let known ← addFact scan.known source terminal terminalCount
      return ({ scan with known }, destinations)
    | .ok (.continue destination none) => do
      let some destination := sourceIndex grammar destination | throw .invariantViolation
      let work ← scan.work.charge destinations.length
      if destinations.contains destination then return ({ scan with work }, destinations)
      else
        let predecessors ← appendPredecessor scan.predecessors destination source
        return ({ scan with predecessors, work }, destinations ++ [destination])
    | .ok (.finished _ _) => .ok (scan, destinations)
    | .error (.invalidState _) => .error .invariantViolation
    | .error (.cannotBeginLexeme _) => .ok (scan, destinations)
    | .error (.byteAfterUnfinishedResidual _ _) => .ok (scan, destinations)
    | .error (.eosAfterUnfinishedResidual _) => .ok (scan, destinations)

/-- The label of a DFA source is a base fact. -/
def scanLabel (grammar : ValidatedGrammar) (lexerSource : LexerState) (source terminalCount : ℕ)
    (known : Facts) : Except PreparationError Facts :=
  match lexerSource with
  | .start => .ok known
  | .dfa state =>
    match grammar.lexer.terminal state with
    | some (some terminal) => addFact known source terminal terminalCount
    | _ => .ok known

/-- `scan_source`. -/
def scanSource (grammar : ValidatedGrammar) (source terminalCount : ℕ) (scan : Scan) :
    Except PreparationError Scan := do
  let some lexerSource := sourceAt source | throw .invariantViolation
  let known ← scanLabel grammar lexerSource source terminalCount scan.known
  let (scan, _) ← (List.range 256).foldlM
    (fun (scan, destinations) byte =>
      scanByte grammar lexerSource byte source terminalCount scan destinations)
    ({ scan with known }, [])
  return scan

/-- `scan_sources`. -/
def scanSources (grammar : ValidatedGrammar) (sourceCount terminalCount : ℕ) (scan : Scan) :
    Except PreparationError Scan :=
  (List.range sourceCount).foldlM
    (fun scan source => scanSource grammar source terminalCount scan) scan

/-! ## The worklist -/

/-- `propagate_predecessor`. -/
def propagatePredecessor (row : List ℕ) (predecessorIndex : ℕ) (known : Facts)
    (terminal : TerminalId) (terminalCount : ℕ) : Except PreparationError Facts :=
  match row[predecessorIndex]? with
  | none => .error .invariantViolation
  | some predecessor => addFact known predecessor terminal terminalCount

/-- `propagate_fact`. -/
def propagateFact (predecessors : List (List ℕ)) (known : Facts) (fact : Fact)
    (terminalCount : ℕ) (work : WorkBudget) : Except PreparationError (Facts × WorkBudget) := do
  let some row := predecessors[fact.source]? | throw .invariantViolation
  let work ← work.charge row.length
  let known ← (List.range row.length).foldlM
    (fun known predecessorIndex =>
      propagatePredecessor row predecessorIndex known fact.terminal terminalCount) known
  return (known, work)

/-- The facts not yet marked, and those queued. -/
def Facts.size (known : Facts) : ℕ := known.seen.count 0 + known.facts.length

/-- **What adding a fact can do**: the fact was marked and nothing changes, or its cell
was empty, and it is marked and queued. -/
theorem addFact_cases {known known' : Facts} {source terminalCount : ℕ} {terminal : TerminalId}
    (h : addFact known source terminal terminalCount = .ok known') :
    terminal < terminalCount ∧ ∃ index present,
      factIndex source terminal terminalCount = .ok index ∧ known.seen[index]? = some present ∧
      ((present ≠ 0 ∧ known' = known) ∨
        (present = 0 ∧
          known' = ⟨known.seen.set index 1, known.facts ++ [⟨source, terminal⟩]⟩)) := by
  unfold addFact at h
  split_ifs at h with hterminal
  obtain ⟨index, hindex, h⟩ := bind_eq_ok.mp h
  refine ⟨Nat.not_le.mp hterminal, index, ?_⟩
  split at h
  · cases h
  · rename_i present hpresent
    refine ⟨present, hindex, hpresent, ?_⟩
    split_ifs at h with hzero
    · simp only [markFactSeen, hpresent] at h
      cases h
      exact Or.inr ⟨hzero, rfl⟩
    · cases h
      exact Or.inl ⟨hzero, rfl⟩

/-- **Marking a fact and queueing it cancel out.** -/
theorem addFact_size {known known' : Facts} {source terminalCount : ℕ} {terminal : TerminalId}
    (h : addFact known source terminal terminalCount = .ok known') : known'.size = known.size := by
  obtain ⟨-, index, present, -, hpresent, ⟨-, rfl⟩ | ⟨rfl, rfl⟩⟩ := addFact_cases h
  · rfl
  · obtain ⟨hlt, hget⟩ := List.getElem?_eq_some_iff.mp hpresent
    have hpos : 0 < known.seen.count 0 :=
      List.count_pos_iff.mpr (hget ▸ List.getElem_mem hlt)
    have hone : ((1 : UInt8) == 0) = false := rfl
    simp only [Facts.size, List.length_append, List.length_singleton, List.count_set hlt, hget,
      beq_self_eq_true, if_true, hone, Bool.false_eq_true, if_false]
    omega

theorem propagateFact_size {predecessors : List (List ℕ)} {known known' : Facts} {fact : Fact}
    {terminalCount : ℕ} {work work' : WorkBudget}
    (h : propagateFact predecessors known fact terminalCount work = .ok (known', work')) :
    known'.size = known.size := by
  unfold propagateFact at h
  split at h
  · simp only [bind_eq_ok] at h
    obtain ⟨_, -, last, hfold, h⟩ := h
    cases h
    refine foldlM_ok (I := fun _ s => s.size = known.size) hfold rfl ?_
    intro _ index _ s s' _ hs hstep
    unfold propagatePredecessor at hstep
    split at hstep
    · cases hstep
    · rw [addFact_size hstep, hs]
  · cases h

/-- `propagate_facts`, from a cursor on.  The loop ends because a fact queued is
a cell marked. -/
def propagateFactsFrom (predecessors : List (List ℕ)) (terminalCount : ℕ) (known : Facts)
    (work : WorkBudget) (cursor : ℕ) : Except PreparationError (Facts × WorkBudget) :=
  if hcursor : cursor < known.facts.length then
    match hstep : propagateFact predecessors known known.facts[cursor] terminalCount work with
    | .error error => .error error
    | .ok (known, work) => propagateFactsFrom predecessors terminalCount known work (cursor + 1)
  else .ok (known, work)
termination_by known.size - cursor
decreasing_by
  rw [propagateFact_size hstep]
  unfold Facts.size
  omega

/-- `propagate_facts`. -/
def propagateFacts (predecessors : List (List ℕ)) (terminalCount : ℕ) (known : Facts)
    (work : WorkBudget) : Except PreparationError (Facts × WorkBudget) :=
  propagateFactsFrom predecessors terminalCount known work 0

/-! ## Collecting -/

/-- `collect_singleton`. -/
def collectSingleton (seen : List UInt8) (source terminal terminalCount : ℕ)
    (row : List TerminalId) : Except PreparationError (List TerminalId) := do
  let index ← factIndex source terminal terminalCount
  let some present := seen[index]? | throw .invariantViolation
  if present ≠ 0 then
    let some terminal := u32TryFrom terminal | throw .invariantViolation
    return row ++ [terminal]
  else return row

/-- `collect_singletons`. -/
def collectSingletons (seen : List UInt8) (source terminalCount : ℕ) :
    Except PreparationError (List TerminalId) :=
  (List.range terminalCount).foldlM
    (fun row terminal => collectSingleton seen source terminal terminalCount row) []

/-- `collect_singleton_row`. -/
def collectSingletonRow (seen : List UInt8) (source terminalCount : ℕ) (work : WorkBudget) :
    Except PreparationError (WorkBudget × List TerminalId) := do
  let work ← work.charge terminalCount
  let row ← collectSingletons seen source terminalCount
  return (work, row)

/-- `collect_all_singletons`. -/
def collectAllSingletons (seen : List UInt8) (sourceCount terminalCount : ℕ) (work : WorkBudget) :
    Except PreparationError (WorkBudget × List (List TerminalId)) :=
  (List.range sourceCount).foldlM
    (fun (work, singletons) source => do
      let (work, row) ← collectSingletonRow seen source terminalCount work
      return (work, singletons ++ [row]))
    (work, [])

/-- `SequenceTable::build_singletons`. -/
def buildSingletons (grammar : ValidatedGrammar) (limits : PreparationLimits)
    (work : WorkBudget) : Except PreparationError (WorkBudget × SequenceTable) := do
  let sources ← sourceCount grammar
  let terminals := grammar.lalr.terminalCount
  let factCells ← checkItems (checkedMul sources terminals) limits
  let byteSteps ← checkItems (checkedMul sources 256) limits
  let work ← work.charge byteSteps
  let scan ← scanSources grammar sources terminals
    ⟨⟨List.replicate factCells 0, []⟩, List.replicate sources [], work⟩
  let (known, work) ← propagateFacts scan.predecessors terminals scan.known scan.work
  let (work, singletons) ← collectAllSingletons known.seen sources terminals work
  return (work, ⟨singletons, [], 0⟩)

/-! ## Interning -/

namespace SequenceTable

/-- `SequenceTable::singleton`. -/
def singleton (table : SequenceTable) (source : ℕ) : Option (List TerminalId) :=
  table.singletons[source]?

/-- `SequenceTable::singleton_terminal`. -/
def singletonTerminal (table : SequenceTable) (source index : ℕ) : Option TerminalId := do
  let values ← table.singletons[source]?
  values[index]?

/-- `SequenceTable::singleton_count`. -/
def singletonCount (table : SequenceTable) (source : ℕ) : Option ℕ := do
  let values ← table.singletons[source]?
  return values.length

/-- `SequenceTable::sequence_count`. -/
def sequenceCount (table : SequenceTable) : ℕ := table.sequences.length

/-- `SequenceTable::sequence`. -/
def sequence (table : SequenceTable) (sequence : SequenceId) : Option (List TerminalId) :=
  table.sequences[sequence]?

end SequenceTable

/-- `sequence_id`. -/
def sequenceId (index : ℕ) : Except PreparationError SequenceId :=
  match u32TryFrom index with
  | none => .error .invariantViolation
  | some sequence => .ok sequence

/-- `find_sequence`, from an index on. -/
def findSequenceFrom (head : List TerminalId) (headLen : ℕ) :
    ℕ → List (List TerminalId) → WorkBudget → Except PreparationError (WorkBudget × Option ℕ)
  | _, [], work => .ok (work, none)
  | index, sequence :: sequences, work => do
    let work ← work.charge headLen
    if sequence = head then return (work, some index)
    else findSequenceFrom head headLen (index + 1) sequences work

/-- `SequenceTable::intern_head`. -/
def SequenceTable.internHead (table : SequenceTable) (direct : List TerminalId)
    (continuation : TerminalId) (limits : PreparationLimits) (work : WorkBudget) :
    Except PreparationError (SequenceTable × WorkBudget × SequenceId) := do
  let headLen ← checkItems (checkedAdd direct.length 1) limits
  let work ← work.charge direct.length
  let head := direct ++ [continuation]
  let (work, found) ← findSequenceFrom head headLen 0 table.sequences work
  match found with
  | some index =>
    let sequence ← sequenceId index
    return (table, work, sequence)
  | none =>
    let _ ← checkItems (checkedAdd table.sequences.length 1) limits
    let sequence ← sequenceId table.sequences.length
    let sequenceItems ← checkItems (checkedAdd table.sequenceItems headLen) limits
    return ({ table with sequences := table.sequences ++ [head], sequenceItems }, work, sequence)

end GreatGramma
