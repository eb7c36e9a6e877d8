import GreatGramma.Core.Lalr

/-!
# The reduction loop ends

The loop of `run_terminal` has no counter.  What ends it is the progress check, and this file says
how, for a table about which nothing is known: its ranks, gotos and pop lengths may be wrong, and
its reductions may form cycles.

## The measure

Between two consecutive reductions the pair of the rank performed and of the stack length before
it decreases lexicographically (`consecutive_reductions_lex`).  The progress check compares a
reduction with the one before it and lets it through only if its rank is smaller, or if it is the
same and the stack has become shorter.  So no run of turns is infinite (`goesRound_wellFounded`),
and the loop as the source writes it, which stops only when a turn returns, gives the reply of
`runTerminal` after finitely many turns (`runTerminalWithin_eq`).

## All loops of the executor

The loop over a slice is a loop over finitely many such loops; every other loop of the executor
and of the engine counts through a vector.  `reduction_loop_ends` is therefore about every entry
point of the parser, on every table and from every stack: a function of the model that is total by
its definition would not say as much, so the loops are also given as runs that are cut off after a
number of turns, and shown to come to the same reply for every number that is large enough.
-/

namespace GreatGramma

section
variable (parserTable : ValidatedLalr) (terminal : TerminalId) (terminalIndex terminalCount : ℕ)
  (underflowMode : UnderflowMode)

/-! ## The loop, turn by turn -/

/-- The loop of `run_terminal`, given up after so many turns. -/
def runTerminalWithin : ℕ → Option PreviousReduction → RunState →
    Option (Except ParserError TerminalRun × RunState)
  | 0, _, _ => none
  | turns + 1, previousReduction, run =>
    match runTerminalTurn parserTable terminal terminalIndex terminalCount underflowMode
        previousReduction run with
    | (.error error, run) => some (.error error, run)
    | (.ok (.return result), run) => some (.ok result, run)
    | (.ok (.again previous), run) => runTerminalWithin turns (some previous) run

/-- A turn from the earlier loop state goes round again in the later one. -/
def GoesRound (later earlier : Option PreviousReduction × RunState) : Prop :=
  ∃ previous, later.1 = some previous ∧
    runTerminalTurn parserTable terminal terminalIndex terminalCount underflowMode earlier.1
      earlier.2 = (.ok (.again previous), later.2)

end

section
variable {parserTable : ValidatedLalr} {terminal : TerminalId} {terminalIndex terminalCount : ℕ}
  {underflowMode : UnderflowMode}

/-- **A turn that goes on performed a reduction** which the progress check let
through, and which left the stack shorter by what it popped and longer by one. -/
theorem runTerminalTurn_again {last : Option PreviousReduction} {previous : PreviousReduction}
    {run run' : RunState}
    (h : runTerminalTurn parserTable terminal terminalIndex terminalCount underflowMode last run =
      (.ok (.again previous), run')) :
    ShiftReduce.Progress (last.map PreviousReduction.toReduction) previous.rank.toNat ∧
      previous.popLen < run.stack.length ∧
      run'.stack.length = run.stack.length - previous.popLen + 1 := by
  unfold runTerminalTurn at h
  split at h <;> try cases h
  split at h <;> try cases h
  rename_i run₁ hcharge
  have hstack : run₁.stack = run.stack := (RunState.charge_keeps hcharge).1
  split at h <;> try cases h
  · split at h <;> try cases h
    split at h <;> cases h
  · split at h <;> try cases h
    rename_i hcheck
    split at h <;> cases h
    rename_i popLen happlied
    obtain ⟨hpop, destination, hrun⟩ := applyReduction_applied happlied
    rw [checkReductionProgress_eq] at hcheck
    split_ifs at hcheck with hprogress
    refine ⟨hprogress, hstack ▸ hpop, ?_⟩
    rw [hrun, hstack]
    simp
  · split_ifs at h <;> cases h

/-- **The measure of the loop.**  Of two consecutive reductions the second has the
smaller rank, or the same rank on a shorter stack. -/
theorem consecutive_reductions_lex {last : Option PreviousReduction}
    {first second : PreviousReduction} {run run₁ run₂ : RunState}
    (h₁ : runTerminalTurn parserTable terminal terminalIndex terminalCount underflowMode last run =
      (.ok (.again first), run₁))
    (h₂ : runTerminalTurn parserTable terminal terminalIndex terminalCount underflowMode
      (some first) run₁ = (.ok (.again second), run₂)) :
    Prod.Lex (· < ·) (· < ·) (second.rank, run₁.stack.length) (first.rank, run.stack.length) := by
  obtain ⟨-, hpop, hlength⟩ := runTerminalTurn_again h₁
  obtain ⟨hprogress, -, -⟩ := runTerminalTurn_again h₂
  rcases hprogress with hrank | ⟨hrank, htwo⟩
  · exact Prod.Lex.left _ _ (UInt32.lt_iff_toNat_lt.mpr hrank)
  · have hsame : second.rank = first.rank := UInt32.toNat_inj.mp hrank
    have hshrinks : 2 ≤ first.popLen := htwo
    rw [hsame]
    exact Prod.Lex.right _ (by omega)

/-- **No run of turns is infinite.** -/
theorem goesRound_wellFounded :
    WellFounded (GoesRound parserTable terminal terminalIndex terminalCount underflowMode) := by
  -- after the first reduction every turn spends budget
  have hsome : ∀ (budget : ℕ) (last : PreviousReduction) (run : RunState),
      ShiftReduce.progressBudget last.toReduction run.stack.length = budget →
      Acc (GoesRound parserTable terminal terminalIndex terminalCount underflowMode)
        (some last, run) := by
    intro budget
    induction budget using Nat.strong_induction_on with
    | _ budget ih =>
      rintro last run rfl
      refine ⟨_, fun later ⟨previous, hlater, hturn⟩ => ?_⟩
      obtain ⟨later, run'⟩ := later
      obtain rfl : later = some previous := hlater
      exact ih _ (runTerminalTurn_budget hturn) previous run' rfl
  refine ⟨fun start => ⟨_, fun later ⟨previous, hlater, _⟩ => ?_⟩⟩
  obtain ⟨later, run'⟩ := later
  obtain rfl : later = some previous := hlater
  exact hsome _ previous run' rfl

/-! ## The loop returns -/

variable (parserTable terminal terminalIndex terminalCount underflowMode) in
/-- The loop from any point on. -/
def runTerminalFrom (previousReduction : Option PreviousReduction) (run : RunState) :
    Except ParserError TerminalRun × RunState :=
  match previousReduction with
  | none => runTerminal parserTable run terminal terminalIndex terminalCount underflowMode
  | some last =>
    runTerminalAfter parserTable terminal terminalIndex terminalCount underflowMode last run

/-- **The loop equation of the source.** -/
theorem runTerminalFrom_eq (previousReduction : Option PreviousReduction) (run : RunState) :
    runTerminalFrom parserTable terminal terminalIndex terminalCount underflowMode
        previousReduction run =
      match runTerminalTurn parserTable terminal terminalIndex terminalCount underflowMode
          previousReduction run with
      | (.error error, run) => (.error error, run)
      | (.ok (.return result), run) => (.ok result, run)
      | (.ok (.again previous), run) =>
        runTerminalFrom parserTable terminal terminalIndex terminalCount underflowMode
          (some previous) run := by
  cases previousReduction with
  | none => rfl
  | some last =>
    simp only [runTerminalFrom]
    rw [runTerminalAfter]
    split <;> simp only [*]

/-- **Finitely many turns give the reply**, and more turns change nothing. -/
theorem runTerminalWithin_eq (previousReduction : Option PreviousReduction) (run : RunState) :
    ∃ turns, ∀ more, runTerminalWithin parserTable terminal terminalIndex terminalCount
        underflowMode (turns + more) previousReduction run =
      some (runTerminalFrom parserTable terminal terminalIndex terminalCount underflowMode
        previousReduction run) := by
  have hwf : WellFounded
      (GoesRound parserTable terminal terminalIndex terminalCount underflowMode) :=
    goesRound_wellFounded
  suffices ∀ start : Option PreviousReduction × RunState, ∃ turns, ∀ more,
      runTerminalWithin parserTable terminal terminalIndex terminalCount underflowMode
          (turns + more) start.1 start.2 =
        some (runTerminalFrom parserTable terminal terminalIndex terminalCount underflowMode
          start.1 start.2) from this (previousReduction, run)
  intro start
  induction start using hwf.induction with
  | _ start ih =>
    rcases hturn : runTerminalTurn parserTable terminal terminalIndex terminalCount underflowMode
      start.1 start.2 with ⟨error | turn, run'⟩
    · refine ⟨1, fun more => ?_⟩
      rw [Nat.add_comm, runTerminalWithin, runTerminalFrom_eq]
      simp only [hturn]
    · cases turn with
      | «return» result =>
        refine ⟨1, fun more => ?_⟩
        rw [Nat.add_comm, runTerminalWithin, runTerminalFrom_eq]
        simp only [hturn]
      | again previous =>
        obtain ⟨turns, hturns⟩ := ih (some previous, run') ⟨previous, rfl, hturn⟩
        refine ⟨turns + 1, fun more => ?_⟩
        rw [Nat.add_right_comm, runTerminalWithin, runTerminalFrom_eq]
        simp only [hturn]
        exact hturns more
end

/-! ## Slices -/

/-- The loop of `run_initialized`, in which no terminal gets more than so many
turns. -/
def runInitializedFromWithin (parserTable : ValidatedLalr) (terminalCount : ℕ)
    (underflowMode : UnderflowMode) (turns : ℕ) :
    ℕ → List TerminalId → RunState → Option (Except ParserError RunStatus × RunState)
  | _, [], run => some (.ok (run.work.complete .continue), run)
  | terminalIndex, terminal :: terminals, run =>
    match run.charge 1 with
    | (.error error, run) => some (.error error, run)
    | (.ok false, run) => some (.ok run.work.exceeded, run)
    | (.ok true, run) =>
      match parserTable.isIgnored terminal with
      | none => some (.error .invariantViolation, run)
      | some true =>
        runInitializedFromWithin parserTable terminalCount underflowMode turns (terminalIndex + 1)
          terminals run
      | some false =>
        match runTerminalWithin parserTable terminal terminalIndex terminalCount underflowMode
            turns none run with
        | none => none
        | some (.error error, run) => some (.error error, run)
        | some (.ok .shifted, run) =>
          runInitializedFromWithin parserTable terminalCount underflowMode turns
            (terminalIndex + 1) terminals run
        | some (.ok (.complete decision), run) => some (.ok (run.work.complete decision), run)
        | some (.ok .workLimitExceeded, run) => some (.ok run.work.exceeded, run)

/-- `run_initialized` with the loop cut off. -/
def runInitializedWithin (parserTable : ValidatedLalr) (stack : Workspace)
    (terminals : List TerminalId) (underflowMode : UnderflowMode) (work : RunWork) (turns : ℕ) :
    Option (Except ParserError RunStatus × Workspace) :=
  match runInitializedFromWithin parserTable terminals.length underflowMode turns 0 terminals
      { stack with work } with
  | none => none
  | some (reply, run) => some (reply, run.toWorkspace)

theorem runInitializedFromWithin_eq (parserTable : ValidatedLalr) (terminalCount : ℕ)
    (underflowMode : UnderflowMode) (terminalIndex : ℕ) (terminals : List TerminalId)
    (run : RunState) :
    ∃ turns, ∀ more, runInitializedFromWithin parserTable terminalCount underflowMode
        (turns + more) terminalIndex terminals run =
      some (runInitializedFrom parserTable terminalCount underflowMode terminalIndex terminals
        run) := by
  induction terminals generalizing terminalIndex run with
  | nil => exact ⟨0, fun _ => rfl⟩
  | cons terminal terminals ih =>
    rcases hcharge : run.charge 1 with ⟨error | going, run₁⟩
    · exact ⟨0, fun _ => by
        simp only [runInitializedFromWithin, runInitializedFrom, runInitializedTurn, hcharge]⟩
    cases going with
    | false =>
      exact ⟨0, fun _ => by
        simp only [runInitializedFromWithin, runInitializedFrom, runInitializedTurn, hcharge]⟩
    | true =>
      cases hignored : parserTable.isIgnored terminal with
      | none =>
        exact ⟨0, fun _ => by
          simp only [runInitializedFromWithin, runInitializedFrom, runInitializedTurn, hcharge,
            hignored]⟩
      | some ignored =>
        cases ignored with
        | true =>
          obtain ⟨turns, hturns⟩ := ih (terminalIndex + 1) run₁
          refine ⟨turns, fun more => ?_⟩
          simp only [runInitializedFromWithin, runInitializedFrom, runInitializedTurn, hcharge,
            hignored]
          exact hturns more
        | false =>
          obtain ⟨here, hhere⟩ := @runTerminalWithin_eq parserTable terminal terminalIndex
            terminalCount underflowMode none run₁
          simp only [runTerminalFrom] at hhere
          rcases hrun : runTerminal parserTable run₁ terminal terminalIndex terminalCount
            underflowMode with ⟨error | result, run₂⟩
          all_goals rw [hrun] at hhere
          · refine ⟨here, fun more => ?_⟩
            simp only [runInitializedFromWithin, runInitializedFrom, runInitializedTurn, hcharge,
              hignored, hhere more, hrun]
          · cases result with
            | shifted =>
              -- enough turns for this terminal and for every later one
              obtain ⟨later, hlater⟩ := ih (terminalIndex + 1) run₂
              refine ⟨here + later, fun more => ?_⟩
              have hfirst := hhere (later + more)
              have hrest := hlater (here + more)
              rw [← Nat.add_assoc] at hfirst hrest
              rw [Nat.add_comm later here] at hrest
              simp only [runInitializedFromWithin, runInitializedFrom, runInitializedTurn, hcharge,
                hignored, hfirst, hrun]
              exact hrest
            | complete decision =>
              refine ⟨here, fun more => ?_⟩
              simp only [runInitializedFromWithin, runInitializedFrom, runInitializedTurn, hcharge,
                hignored, hhere more, hrun]
            | workLimitExceeded =>
              refine ⟨here, fun more => ?_⟩
              simp only [runInitializedFromWithin, runInitializedFrom, runInitializedTurn, hcharge,
                hignored, hhere more, hrun]

theorem runInitializedWithin_eq (parserTable : ValidatedLalr) (stack : Workspace)
    (terminals : List TerminalId) (underflowMode : UnderflowMode) (work : RunWork) :
    ∃ turns, ∀ more, runInitializedWithin parserTable stack terminals underflowMode work
        (turns + more) =
      some (runInitialized parserTable stack terminals underflowMode work) := by
  obtain ⟨turns, hturns⟩ := runInitializedFromWithin_eq parserTable terminals.length underflowMode
    0 terminals { stack with work }
  refine ⟨turns, fun more => ?_⟩
  simp only [runInitializedWithin, hturns more, runInitialized]

/-- **The reduction loop ends on every table.**  Consecutive reductions decrease the
pair of rank and stack length, so turns cannot follow each other for ever: from
every point the loop returns after finitely many turns, and so does a run over any
slice of terminals, which is how every entry point of the parser reaches the loop. -/
theorem reduction_loop_ends (parserTable : ValidatedLalr) (underflowMode : UnderflowMode) :
    (∀ (terminal : TerminalId) (terminalIndex terminalCount : ℕ),
      (∀ last first second run run₁ run₂,
        runTerminalTurn parserTable terminal terminalIndex terminalCount underflowMode last run =
          (.ok (.again first), run₁) →
        runTerminalTurn parserTable terminal terminalIndex terminalCount underflowMode
          (some first) run₁ = (.ok (.again second), run₂) →
        Prod.Lex (· < ·) (· < ·) (second.rank, run₁.stack.length)
          (first.rank, run.stack.length)) ∧
      WellFounded (GoesRound parserTable terminal terminalIndex terminalCount underflowMode) ∧
      ∀ run, ∃ turns, ∀ more, runTerminalWithin parserTable terminal terminalIndex terminalCount
          underflowMode (turns + more) none run =
        some (runTerminal parserTable run terminal terminalIndex terminalCount underflowMode)) ∧
    ∀ (stack : Workspace) (terminals : List TerminalId) (work : RunWork),
      ∃ turns, ∀ more, runInitializedWithin parserTable stack terminals underflowMode work
          (turns + more) =
        some (runInitialized parserTable stack terminals underflowMode work) := by
  refine ⟨fun terminal terminalIndex terminalCount => ⟨?_, goesRound_wellFounded, fun run => ?_⟩,
    fun stack terminals work =>
      runInitializedWithin_eq parserTable stack terminals underflowMode work⟩
  · intro last first second run run₁ run₂ h₁ h₂
    exact consecutive_reductions_lex h₁ h₂
  · exact runTerminalWithin_eq none run

end GreatGramma
