import GreatGramma.Core.Normalized
import GreatGramma.Library.Reservation
import GreatGramma.Library.ShiftReduce

/-!
# The LALR executor

`lalr.rs`: terminals run against the normalized action and goto tables.

## Three callers

One interpreter serves three callers: the public reference `executeTerminals`, the runtime which
writes into stacks it owns, and preparation, which runs from a symbolic one-state base with a work
limit and answers `dependent` when the base would be popped.  They differ in the stack they are
given, in what popping the base means (`UnderflowMode`), and in whether work is counted.

## Stacks

Stacks are written bottom first, as the source's vectors are.  A mutable stack travels with the
allocator in a `Workspace` and survives an error, since the caller keeps the vector it lent.  A push
reserves, and so does the copy that a run starts with; each of these reservations may be refused.

## The loop over the reductions

Reading one terminal is a loop without a counter: it reduces until the terminal is shifted,
accepted or rejected.  Two consecutive reductions are compared, and a reduction that makes no
progress over the one before it ends the run.  This is what the loop is defined by here: a turn
that goes on spends budget, whatever the table says (`runTerminalTurn_budget`), so the function is
total on every table.  That the loop as the source writes it comes to the same reply is shown in
`Parser.Termination`.
-/

namespace GreatGramma

open Reservation

/-! ## Results and errors -/

/-- The result of executing a complete terminal slice against the LALR table. -/
inductive ParserExecution where
  | continue (stack : List ParserStateId)
  | accepted
  deriving DecidableEq

/-- A fail-closed error for parser execution and parser-table invariants. -/
inductive ParserError where
  | emptyStack
  | emptySequenceHead
  | invalidState (state : ParserStateId)
  | invalidTerminal (terminal : TerminalId)
  | invalidSequence (sequence : SequenceId)
  | stackUnderflow (production : ProductionId) (popLen : ℕ) (stackLen : ℕ)
  | missingGoto (state : ParserStateId) (nonterminal : NonterminalId) (production : ProductionId)
  | acceptBeforeEnd (terminalIndex : ℕ)
  | invalidReductionProgress (state : ParserStateId) (terminal : TerminalId)
  | allocationFailure (requested : ℕ)
  | invariantViolation
  deriving DecidableEq

/-- The one parser error that reports a refused reservation. -/
instance : HasRefusal ParserError := ⟨fun e => ∃ requested, e = .allocationFailure requested⟩

/-- Allocation-free result for parser execution into caller-owned storage. -/
inductive RunDecision where
  | rejected
  | continue
  | accepted
  | dependent
  deriving DecidableEq

/-- Internal bounded-execution result used during preparation. -/
inductive RunStatus where
  | complete (decision : RunDecision) (work : ℕ)
  | workLimitExceeded (required : ℕ)
  deriving DecidableEq

/-- What popping the base of the stack means. -/
inductive UnderflowMode where
  | error
  | dependent
  deriving DecidableEq

/-- The reduction before the current one at the same look-ahead. -/
structure PreviousReduction where
  rank : UInt32
  popLen : ℕ

/-! ## Work -/

/-- Work done by one run, counted only under a limit. -/
structure RunWork where
  used : ℕ
  maximum : Option ℕ

/-- `RunWork::charge`. -/
def RunWork.charge (work : RunWork) (amount : ℕ) : Except ParserError Bool × RunWork :=
  match work.maximum with
  | none => (.ok true, work)
  | some maximum =>
    match checkedAdd work.used amount with
    | none => (.error .invariantViolation, work)
    | some used => (.ok (used ≤ maximum), { work with used })

/-- `RunWork::complete`. -/
def RunWork.complete (work : RunWork) (decision : RunDecision) : RunStatus :=
  .complete decision work.used

/-- `RunWork::exceeded`. -/
def RunWork.exceeded (work : RunWork) : RunStatus := .workLimitExceeded work.used

/-! ## Workspaces -/

/-- A parser stack the program owns, and the allocator behind it. -/
structure Workspace where
  stack : List ParserStateId
  memory : Memory

instance : HasMemory Workspace := ⟨Workspace.memory⟩

/-- A workspace in the middle of a run. -/
structure RunState extends Workspace where
  work : RunWork

instance : HasMemory RunState := ⟨fun run => run.memory⟩

/-- Charges the run's work. -/
def RunState.charge (run : RunState) (amount : ℕ) : Except ParserError Bool × RunState :=
  match run.work.charge amount with
  | (reply, work) => (reply, { run with work })

/-- Charging touches neither the stack, nor the allocator, nor the limit. -/
theorem RunState.charge_keeps {run run' : RunState} {amount : ℕ}
    {reply : Except ParserError Bool} (h : run.charge amount = (reply, run')) :
    run'.stack = run.stack ∧ run'.memory = run.memory ∧
      run'.work.maximum = run.work.maximum := by
  obtain ⟨⟨stack, memory⟩, used, maximum⟩ := run
  unfold RunState.charge RunWork.charge at h
  split at h
  rename_i hwork
  obtain ⟨-, rfl⟩ := Prod.mk.inj h
  refine ⟨rfl, rfl, ?_⟩
  split at hwork
  · obtain ⟨-, rfl⟩ := Prod.mk.inj hwork
    rfl
  · split at hwork <;> obtain ⟨-, rfl⟩ := Prod.mk.inj hwork <;> rfl

/-- `copy_stack_into`: the destination is cleared before it is reserved, so a
refused reservation leaves it empty. -/
def copyStackInto (source : List ParserStateId) (destination : Workspace) :
    Except ParserError Unit × Workspace :=
  match destination.memory.reserve with
  | (false, memory) => (.error (.allocationFailure source.length), ⟨[], memory⟩)
  | (true, memory) => (.ok (), ⟨source, memory⟩)

/-- `parser_push`. -/
def parserPush (run : RunState) (state : ParserStateId) : Except ParserError Unit × RunState :=
  match run.memory.reserve with
  | (false, memory) => (.error (.allocationFailure (run.stack.length + 1)), { run with memory })
  | (true, memory) => (.ok (), { run with stack := run.stack ++ [state], memory })

/-- `stack_top`. -/
def stackTop (stack : List ParserStateId) : Except ParserError ParserStateId :=
  match stack.getLast? with
  | none => .error .invariantViolation
  | some state => .ok state

/-! ## Reductions -/

/-- `check_reduction_progress`. -/
def checkReductionProgress (previous : Option PreviousReduction) (nextRank : UInt32)
    (state : ParserStateId) (terminal : TerminalId) : Except ParserError Unit :=
  match previous with
  | none => .ok ()
  | some previous =>
    if nextRank < previous.rank ∨ (nextRank = previous.rank ∧ previous.popLen ≥ 2) then .ok ()
    else .error (.invalidReductionProgress state terminal)

/-- The result of one reduction. -/
inductive ReductionResult where
  | applied (popLen : ℕ)
  | dependent
  | workLimitExceeded

/-- `apply_reduction`. -/
def applyReduction (parserTable : ValidatedLalr) (run : RunState) (productionId : ProductionId)
    (underflowMode : UnderflowMode) : Except ParserError ReductionResult × RunState :=
  match run.charge 1 with
  | (.error error, run) => (.error error, run)
  | (.ok false, run) => (.ok .workLimitExceeded, run)
  | (.ok true, run) =>
    match parserTable.production productionId with
    | none => (.error .invariantViolation, run)
    | some production =>
      if production.popLen ≥ run.stack.length then
        match underflowMode with
        | .error =>
          (.error (.stackUnderflow productionId production.popLen run.stack.length), run)
        | .dependent => (.ok .dependent, run)
      else
        let reducedLen := run.stack.length - production.popLen
        match run.stack[reducedLen - 1]? with
        | none => (.error .invariantViolation, run)
        | some source =>
          match run.charge 1 with
          | (.error error, run) => (.error error, run)
          | (.ok false, run) => (.ok .workLimitExceeded, run)
          | (.ok true, run) =>
            match parserTable.goto source production.lhs with
            | none => (.error .invariantViolation, run)
            | some none => (.error (.missingGoto source production.lhs productionId), run)
            | some (some destination) =>
              match run.charge 1 with
              | (.error error, run) => (.error error, run)
              | (.ok false, run) => (.ok .workLimitExceeded, run)
              | (.ok true, run) =>
                match parserPush { run with stack := run.stack.take reducedLen } destination with
                | (.error error, run) => (.error error, run)
                | (.ok (), run) => (.ok (.applied production.popLen), run)

/-- **What an applied reduction did to the stack.** -/
theorem applyReduction_applied {parserTable : ValidatedLalr} {run run' : RunState}
    {productionId : ProductionId} {underflowMode : UnderflowMode} {popLen : ℕ}
    (h : applyReduction parserTable run productionId underflowMode =
      (.ok (.applied popLen), run')) :
    popLen < run.stack.length ∧ ∃ destination,
      run'.stack = run.stack.take (run.stack.length - popLen) ++ [destination] := by
  unfold applyReduction at h
  split at h <;> try cases h
  rename_i run₁ h₁
  split at h <;> try cases h
  split_ifs at h with hpop
  · split at h <;> cases h
  dsimp only at h
  split at h <;> try cases h
  split at h <;> try cases h
  rename_i run₂ h₂
  split at h <;> try cases h
  split at h <;> try cases h
  rename_i destination _ _ run₃ h₃
  split at h <;> cases h
  rename_i hpush
  have hstack₁ : run₁.stack = run.stack := (RunState.charge_keeps h₁).1
  have hstack₃ : run₃.stack = run.stack := by
    rw [(RunState.charge_keeps h₃).1, (RunState.charge_keeps h₂).1, hstack₁]
  rw [hstack₁] at hpop hpush
  refine ⟨by omega, destination, ?_⟩
  unfold parserPush at hpush
  split at hpush <;> cases hpush
  rw [hstack₃]

/-! ## Reading one terminal -/

/-- How reading one terminal ends. -/
inductive TerminalRun where
  | shifted
  | complete (decision : RunDecision)
  | workLimitExceeded

/-- One turn of the loop of `run_terminal`: it returns, or it goes round again
after a reduction. -/
inductive LoopTurn where
  | return (result : TerminalRun)
  | again (previous : PreviousReduction)

/-- The body of the loop of `run_terminal`. -/
def runTerminalTurn (parserTable : ValidatedLalr) (terminal : TerminalId)
    (terminalIndex terminalCount : ℕ) (underflowMode : UnderflowMode)
    (previousReduction : Option PreviousReduction) (run : RunState) :
    Except ParserError LoopTurn × RunState :=
  match stackTop run.stack with
  | .error error => (.error error, run)
  | .ok state =>
    match run.charge 1 with
    | (.error error, run) => (.error error, run)
    | (.ok false, run) => (.ok (.return .workLimitExceeded), run)
    | (.ok true, run) =>
      match parserTable.action state terminal with
      | none => (.error .invariantViolation, run)
      | some .error => (.ok (.return (.complete .rejected)), run)
      | some (.shift destination) =>
        match run.charge 1 with
        | (.error error, run) => (.error error, run)
        | (.ok false, run) => (.ok (.return .workLimitExceeded), run)
        | (.ok true, run) =>
          match parserPush run destination with
          | (.error error, run) => (.error error, run)
          | (.ok (), run) => (.ok (.return .shifted), run)
      | some (.reduce production rank) =>
        match checkReductionProgress previousReduction rank state terminal with
        | .error error => (.error error, run)
        | .ok () =>
          match applyReduction parserTable run production underflowMode with
          | (.error error, run) => (.error error, run)
          | (.ok (.applied popLen), run) => (.ok (.again ⟨rank, popLen⟩), run)
          | (.ok .dependent, run) => (.ok (.return (.complete .dependent)), run)
          | (.ok .workLimitExceeded, run) => (.ok (.return .workLimitExceeded), run)
      | some .accept =>
        if terminalIndex + 1 ≠ terminalCount then (.error (.acceptBeforeEnd terminalIndex), run)
        else (.ok (.return (.complete .accepted)), run)

/-- The reduction as a table's progress check remembers it. -/
def PreviousReduction.toReduction (previous : PreviousReduction) : ShiftReduce.Reduction :=
  ⟨previous.rank.toNat, previous.popLen⟩

/-- The progress check is the one of the general theory. -/
theorem checkReductionProgress_eq (previous : Option PreviousReduction) (rank : UInt32)
    (state : ParserStateId) (terminal : TerminalId) :
    checkReductionProgress previous rank state terminal =
      if ShiftReduce.Progress (previous.map PreviousReduction.toReduction) rank.toNat then .ok ()
      else .error (.invalidReductionProgress state terminal) := by
  cases previous with
  | none => rfl
  | some previous =>
    have hiff : (rank < previous.rank ∨ rank = previous.rank ∧ previous.popLen ≥ 2) ↔
        ShiftReduce.Progress (some previous.toReduction) rank.toNat := by
      simp only [ShiftReduce.Progress, PreviousReduction.toReduction, UInt32.lt_iff_toNat_lt,
        UInt32.toNat_inj, ge_iff_le]
    simp only [checkReductionProgress, Option.map_some, hiff]

/-- **A turn that goes on spends budget**, whatever the table says. -/
theorem runTerminalTurn_budget {parserTable : ValidatedLalr} {terminal : TerminalId}
    {terminalIndex terminalCount : ℕ} {underflowMode : UnderflowMode}
    {last previous : PreviousReduction} {run run' : RunState}
    (h : runTerminalTurn parserTable terminal terminalIndex terminalCount underflowMode
      (some last) run = (.ok (.again previous), run')) :
    ShiftReduce.progressBudget previous.toReduction run'.stack.length <
      ShiftReduce.progressBudget last.toReduction run.stack.length := by
  unfold runTerminalTurn at h
  split at h <;> try cases h
  split at h <;> try cases h
  rename_i run₁ hcharge
  have hstack : run₁.stack = run.stack := (RunState.charge_keeps hcharge).1
  split at h <;> try cases h
  · split at h <;> try cases h
    split at h <;> cases h
  · split at h <;> try cases h
    rename_i hcheck
    split at h <;> cases h
    rename_i popLen happlied
    obtain ⟨hpop, destination, hrun⟩ := applyReduction_applied happlied
    have hlength : run'.stack.length = run.stack.length - popLen + 1 := by
      rw [hrun, hstack]
      simp
    rw [checkReductionProgress_eq] at hcheck
    split_ifs at hcheck with hprogress
    rw [hlength]
    exact ShiftReduce.progressBudget_lt hprogress (hstack ▸ hpop)
  · split_ifs at h <;> cases h

/-- The loop of `run_terminal`, once there has been a reduction. -/
def runTerminalAfter (parserTable : ValidatedLalr) (terminal : TerminalId)
    (terminalIndex terminalCount : ℕ) (underflowMode : UnderflowMode)
    (last : PreviousReduction) (run : RunState) : Except ParserError TerminalRun × RunState :=
  match _h : runTerminalTurn parserTable terminal terminalIndex terminalCount underflowMode
      (some last) run with
  | (.error error, run) => (.error error, run)
  | (.ok (.return result), run) => (.ok result, run)
  | (.ok (.again previous), run) =>
    runTerminalAfter parserTable terminal terminalIndex terminalCount underflowMode previous run
termination_by ShiftReduce.progressBudget last.toReduction run.stack.length
decreasing_by exact runTerminalTurn_budget _h

/-- `run_terminal`: the loop starts without a previous reduction. -/
def runTerminal (parserTable : ValidatedLalr) (run : RunState) (terminal : TerminalId)
    (terminalIndex terminalCount : ℕ) (underflowMode : UnderflowMode) :
    Except ParserError TerminalRun × RunState :=
  match runTerminalTurn parserTable terminal terminalIndex terminalCount underflowMode none run with
  | (.error error, run) => (.error error, run)
  | (.ok (.return result), run) => (.ok result, run)
  | (.ok (.again previous), run) =>
    runTerminalAfter parserTable terminal terminalIndex terminalCount underflowMode previous run

/-! ## Runs over a slice of terminals -/

/-- The body of the loop of `run_initialized`: it returns a status, or it goes on
with the next terminal. -/
def runInitializedTurn (parserTable : ValidatedLalr) (terminal : TerminalId)
    (terminalIndex terminalCount : ℕ) (underflowMode : UnderflowMode) (run : RunState) :
    Except ParserError (Option RunStatus) × RunState :=
  match run.charge 1 with
  | (.error error, run) => (.error error, run)
  | (.ok false, run) => (.ok (some run.work.exceeded), run)
  | (.ok true, run) =>
    match parserTable.isIgnored terminal with
    | none => (.error .invariantViolation, run)
    | some true => (.ok none, run)
    | some false =>
      match runTerminal parserTable run terminal terminalIndex terminalCount underflowMode with
      | (.error error, run) => (.error error, run)
      | (.ok .shifted, run) => (.ok none, run)
      | (.ok (.complete decision), run) => (.ok (some (run.work.complete decision)), run)
      | (.ok .workLimitExceeded, run) => (.ok (some run.work.exceeded), run)

/-- The loop of `run_initialized`, from a terminal index on. -/
def runInitializedFrom (parserTable : ValidatedLalr) (terminalCount : ℕ)
    (underflowMode : UnderflowMode) :
    ℕ → List TerminalId → RunState → Except ParserError RunStatus × RunState
  | _, [], run => (.ok (run.work.complete .continue), run)
  | terminalIndex, terminal :: terminals, run =>
    match runInitializedTurn parserTable terminal terminalIndex terminalCount underflowMode run with
    | (.error error, run) => (.error error, run)
    | (.ok (some status), run) => (.ok status, run)
    | (.ok none, run) =>
      runInitializedFrom parserTable terminalCount underflowMode (terminalIndex + 1) terminals run

/-- `run_initialized`. -/
def runInitialized (parserTable : ValidatedLalr) (stack : Workspace) (terminals : List TerminalId)
    (underflowMode : UnderflowMode) (work : RunWork) : Except ParserError RunStatus × Workspace :=
  match runInitializedFrom parserTable terminals.length underflowMode 0 terminals
      { stack with work } with
  | (reply, run) => (reply, run.toWorkspace)

/-- `run_validated_into`. -/
def runValidatedInto (parserTable : ValidatedLalr) (initialStack : List ParserStateId)
    (terminals : List TerminalId) (underflowMode : UnderflowMode) (maximumWork : Option ℕ)
    (stack : Workspace) : Except ParserError RunStatus × Workspace :=
  match RunWork.charge ⟨0, maximumWork⟩ initialStack.length with
  | (.error error, _) => (.error error, stack)
  | (.ok false, work) => (.ok work.exceeded, stack)
  | (.ok true, work) =>
    match copyStackInto initialStack stack with
    | (.error error, stack) => (.error error, stack)
    | (.ok (), stack) => runInitialized parserTable stack terminals underflowMode work

/-- `run_validated_in_place`. -/
def runValidatedInPlace (parserTable : ValidatedLalr) (stack : Workspace)
    (terminals : List TerminalId) (underflowMode : UnderflowMode) (maximumWork : Option ℕ) :
    Except ParserError RunStatus × Workspace :=
  match RunWork.charge ⟨0, maximumWork⟩ stack.stack.length with
  | (.error error, _) => (.error error, stack)
  | (.ok false, work) => (.ok work.exceeded, stack)
  | (.ok true, work) => runInitialized parserTable stack terminals underflowMode work

/-- `unbounded_decision`. -/
def unboundedDecision (status : RunStatus) : Except ParserError RunDecision :=
  match status with
  | .complete decision _ => .ok decision
  | .workLimitExceeded _ => .error .invariantViolation

/-- Executes concrete parser actions into reusable caller-owned stack storage.
The destination is overwritten even when parsing rejects or reports an error. -/
def executeTerminalsConcreteInto (parserTable : ValidatedLalr) (stack : List ParserStateId)
    (terminals : List TerminalId) (destination : Workspace) :
    Except ParserError RunDecision × Workspace :=
  match runValidatedInto parserTable stack terminals .error none destination with
  | (.error error, destination) => (.error error, destination)
  | (.ok status, destination) => (unboundedDecision status, destination)

/-- Continues concrete parser execution directly in caller-owned stack storage. -/
def executeTerminalsConcreteInPlace (parserTable : ValidatedLalr) (stack : Workspace)
    (terminals : List TerminalId) : Except ParserError RunDecision × Workspace :=
  match runValidatedInPlace parserTable stack terminals .error none with
  | (.error error, stack) => (.error error, stack)
  | (.ok status, stack) => (unboundedDecision status, stack)

/-- `validate_inputs`: the first offending state, else the first offending
terminal. -/
def validateInputs (parserTable : ValidatedLalr) (stack : List ParserStateId)
    (terminals : List TerminalId) : Except ParserError Unit :=
  if stack.isEmpty then .error .emptyStack
  else
    match stack.find? (fun state => state ≥ parserTable.stateCount) with
    | some state => .error (.invalidState state)
    | none =>
      match terminals.find? (fun terminal => terminal ≥ parserTable.terminalCount) with
      | some terminal => .error (.invalidTerminal terminal)
      | none => .ok ()

/-- Executes terminals using the normalized LALR table.  `ok none` is exactly an
`Action.error` rejection. -/
def executeTerminals (grammar : ValidatedGrammar) (stack : List ParserStateId)
    (terminals : List TerminalId) (memory : Memory) :
    Except ParserError (Option ParserExecution) × Memory :=
  match validateInputs grammar.lalr stack terminals with
  | .error error => (.error error, memory)
  | .ok () =>
    match executeTerminalsConcreteInto grammar.lalr stack terminals ⟨[], memory⟩ with
    | (.error error, destination) => (.error error, destination.memory)
    | (.ok .rejected, destination) => (.ok none, destination.memory)
    | (.ok .continue, destination) =>
      (.ok (some (.continue destination.stack)), destination.memory)
    | (.ok .accepted, destination) => (.ok (some .accepted), destination.memory)
    | (.ok .dependent, destination) => (.error .invariantViolation, destination.memory)

/-- Runs from a symbolic stack base for exact sequence-head preprocessing:
popping the supplied base answers `dependent`. -/
def executeTerminalsSymbolic (parserTable : ValidatedLalr) (stack : List ParserStateId)
    (terminals : List TerminalId) (memory : Memory) : Except ParserError RunDecision × Memory :=
  match validateInputs parserTable stack terminals with
  | .error error => (.error error, memory)
  | .ok () =>
    match runValidatedInto parserTable stack terminals .dependent none ⟨[], memory⟩ with
    | (.error error, destination) => (.error error, destination.memory)
    | (.ok status, destination) => (unboundedDecision status, destination.memory)

/-- `execute_terminals_symbolic_checked_with_limit`. -/
def executeTerminalsSymbolicCheckedWithLimit (parserTable : ValidatedLalr)
    (stack : List ParserStateId) (terminals : List TerminalId) (maximumWork : ℕ)
    (memory : Memory) : Except ParserError RunStatus × Memory :=
  match runValidatedInto parserTable stack terminals .dependent (some maximumWork)
      ⟨[], memory⟩ with
  | (reply, destination) => (reply, destination.memory)

end GreatGramma
