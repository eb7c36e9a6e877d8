import GreatGramma.Parser.Automaton

/-!
# Runs of the executor compose

The engine never runs a sentence in one go.  It commits the terminals of one token after
the other, and flushes EOS in a run of its own, so each of its answers rests on a law
about the executor: a run may be cut in two.

## What a cut could disturb

The executor keeps three things that a cut could disturb.  A terminal is read with its
index and with the length of the whole slice, and both enter the decision at an accept
cell; but a validated table accepts at EOF only, so before the cut they are not looked at,
and behind it the index is moved by the length of what was read before (`offsetReply`).
The reduction progress is remembered within a terminal and not between terminals.  And
the copy of the stack that a run starts with is the one reservation that a second run
makes in addition.

## How the law is proved

The index is dealt with first.  One turn for a terminal looks at it only to accept, so a
run of a slice at another place of a longer slice is the same run with its errors moved
(`runInitializedFrom_offset`).  Then a run is cut at a terminal: the first part either
continues, and the second goes on from the stack that it left, or it ends, and so does the
whole (`runInitializedFrom_append`).  A terminal that is not EOF leaves no third outcome
(`runTerminal_ne_continue`).  The counter of inspected actions would spoil this, but the
engine runs without a limit, and then nothing is counted (`runInitializedFrom_work`).

Ignored terminals change nothing on the way, so a run is the run of the kept terminals
(`runInitializedFrom_kept`).  The law is about the executor itself: buffers, errors and
the answers of the allocator are the same in one run as in two.
-/

namespace GreatGramma

open Reservation ShiftReduce

/-! ## Charging -/

/-- Without a limit nothing is charged. -/
theorem RunState.charge_unlimited {run : RunState} (h : run.work.maximum = none) (amount : ℕ) :
    run.charge amount = (.ok true, run) := by
  obtain ⟨workspace, used, maximum⟩ := run
  obtain rfl : maximum = none := h
  rfl

/-- A charge fails when the count overflows. -/
theorem RunState.charge_error {run run' : RunState} {amount : ℕ} {error : ParserError}
    (h : run.charge amount = (.error error, run')) : error = .invariantViolation := by
  unfold RunState.charge RunWork.charge at h
  cases hmaximum : run.work.maximum with
  | none =>
    simp only [hmaximum] at h
    cases h
  | some maximum =>
    simp only [hmaximum] at h
    cases hsum : checkedAdd run.work.used amount with
    | none =>
      simp only [hsum] at h
      cases h
      rfl
    | some used =>
      simp only [hsum] at h
      cases h

/-! ## Offsets -/

/-- The error of a run that begins `offset` terminals into the slice. -/
def ParserError.offsetBy (offset : ℕ) : ParserError → ParserError
  | .acceptBeforeEnd terminalIndex => .acceptBeforeEnd (offset + terminalIndex)
  | error => error

/-- The reply of such a run.  What it leaves is the same. -/
def offsetReply {α σ : Type} (offset : ℕ) (out : Except ParserError α × σ) :
    Except ParserError α × σ :=
  (out.1.mapError (ParserError.offsetBy offset), out.2)

@[simp] theorem offsetReply_ok {α σ : Type} (offset : ℕ) (a : α) (s : σ) :
    offsetReply offset (.ok a, s) = (.ok a, s) := rfl

@[simp] theorem offsetReply_error {α σ : Type} (offset : ℕ) (error : ParserError) (s : σ) :
    offsetReply offset ((.error error, s) : Except ParserError α × σ) =
      (.error (error.offsetBy offset), s) := rfl

theorem ParserError.offsetBy_zero (error : ParserError) : error.offsetBy 0 = error := by
  cases error <;> simp [offsetBy]

theorem offsetReply_zero {α σ : Type} (out : Except ParserError α × σ) :
    offsetReply 0 out = out := by
  obtain ⟨reply, s⟩ := out
  cases reply with
  | ok a => rfl
  | error error => rw [offsetReply_error, ParserError.offsetBy_zero]

theorem offsetReply_offsetReply {α σ : Type} (offset later : ℕ) (out : Except ParserError α × σ) :
    offsetReply offset (offsetReply later out) = offsetReply (offset + later) out := by
  obtain ⟨reply, s⟩ := out
  cases reply with
  | ok a => rfl
  | error error =>
    simp only [offsetReply_error]
    cases error <;> simp [ParserError.offsetBy, Nat.add_assoc]

/-- A charge names no terminal index in its error. -/
theorem RunState.charge_offset {run run' : RunState} {amount : ℕ} {error : ParserError}
    (h : run.charge amount = (.error error, run')) (offset : ℕ) :
    error.offsetBy offset = error := by
  rw [charge_error h]
  rfl

/-- Nor does a reduction. -/
theorem applyReduction_offset {parserTable : ValidatedLalr} {mode : UnderflowMode}
    {run run' : RunState} {p : ProductionId} {error : ParserError}
    (h : applyReduction parserTable run p mode = (.error error, run')) (offset : ℕ) :
    error.offsetBy offset = error := by
  unfold applyReduction at h
  split at h
  · rename_i hcharge
    cases h
    exact RunState.charge_offset hcharge offset
  · cases h
  split at h
  · cases h
    rfl
  split_ifs at h
  · cases mode with
    | error =>
      cases h
      rfl
    | dependent => cases h
  dsimp only at h
  split at h
  · cases h
    rfl
  split at h
  · rename_i hcharge
    cases h
    exact RunState.charge_offset hcharge offset
  · cases h
  split at h
  · cases h
    rfl
  · cases h
    rfl
  split at h
  · rename_i hcharge
    cases h
    exact RunState.charge_offset hcharge offset
  · cases h
  unfold parserPush at h
  split at h
  · rename_i hpush
    split at hpush
    · cases hpush
      cases h
      rfl
    · cases hpush
  · cases h

section
variable {lalr : ValidatedLalr} {mode : UnderflowMode}

/-- An accept cell stands in the column of EOF, whatever is looked up. -/
theorem ValidatedLalr.eq_eofTerminal_of_accept {q : ParserStateId} {t : TerminalId}
    (h : lalr.action q t = some .accept) : t = lalr.eofTerminal := by
  have hq : q < lalr.stateCount := by
    by_contra hq
    simp [action, checkedIndex, Nat.not_lt.mp hq] at h
  have ht : t < lalr.terminalCount := by
    by_contra ht
    simp [action, checkedIndex, Nat.not_lt.mp ht] at h
  obtain ⟨a, ha, -, -, haccept⟩ := lalr.action_eq hq ht
  rw [ha] at h
  exact haccept (Option.some_inj.mp h)

/-! ## The index of a terminal -/

/-- **A turn looks at the index only to accept.**  For EOF the index and the count have to
be moved together, and for another terminal they do not matter. -/
theorem runTerminalTurn_offset {t : TerminalId} {offset i j n m : ℕ}
    (h : t = lalr.eofTerminal → i = offset + j ∧ n = offset + m)
    (previous : Option PreviousReduction) (run : RunState) :
    runTerminalTurn lalr t i n mode previous run =
      offsetReply offset (runTerminalTurn lalr t j m mode previous run) := by
  unfold runTerminalTurn stackTop
  cases run.stack.getLast? with
  | none => rfl
  | some state =>
    dsimp only
    rcases hfirst : run.charge 1 with ⟨error | going, run₁⟩
    · rw [offsetReply_error, RunState.charge_offset hfirst]
    cases going with
    | false => rfl
    | true =>
      dsimp only
      cases haction : lalr.action state t with
      | none => rfl
      | some action =>
        cases action with
        | error => rfl
        | shift destination =>
          dsimp only
          rcases hsecond : run₁.charge 1 with ⟨error | going, run₂⟩
          · rw [offsetReply_error, RunState.charge_offset hsecond]
          cases going with
          | false => rfl
          | true =>
            dsimp only [parserPush]
            rcases run₂.memory.reserve with ⟨granted, memory⟩
            cases granted <;> rfl
        | reduce p rank =>
          dsimp only
          rw [checkReductionProgress_eq]
          split_ifs
          · dsimp only
            rcases happlied : applyReduction lalr run₁ p mode with ⟨error | result, run₂⟩
            · rw [offsetReply_error, applyReduction_offset happlied]
            · cases result <;> rfl
          · rfl
        | accept =>
          obtain ⟨rfl, rfl⟩ := h (ValidatedLalr.eq_eofTerminal_of_accept haction)
          have hend : offset + j + 1 ≠ offset + m ↔ j + 1 ≠ m := by omega
          simp only [hend]
          split_ifs <;> rfl

/-- The turns after the first reduction. -/
theorem runTerminalAfter_offset {t : TerminalId} {offset i j n m : ℕ}
    (h : t = lalr.eofTerminal → i = offset + j ∧ n = offset + m) (last : PreviousReduction)
    (run : RunState) :
    runTerminalAfter lalr t i n mode last run =
      offsetReply offset (runTerminalAfter lalr t j m mode last run) := by
  induction last, run using runTerminalAfter.induct lalr t j m mode with
  | case1 last run error run' hturn =>
    rw [runTerminalAfter_eq, runTerminalAfter_eq, runTerminalTurn_offset h, hturn]
    rfl
  | case2 last run result run' hturn =>
    rw [runTerminalAfter_eq, runTerminalAfter_eq, runTerminalTurn_offset h, hturn]
    rfl
  | case3 last run previous run' hturn ih =>
    rw [runTerminalAfter_eq, runTerminalAfter_eq, runTerminalTurn_offset h, hturn]
    exact ih

/-- The whole loop. -/
theorem runTerminal_offset {t : TerminalId} {offset i j n m : ℕ}
    (h : t = lalr.eofTerminal → i = offset + j ∧ n = offset + m) (run : RunState) :
    runTerminal lalr run t i n mode = offsetReply offset (runTerminal lalr run t j m mode) := by
  unfold runTerminal
  rw [runTerminalTurn_offset h]
  rcases runTerminalTurn lalr t j m mode none run with ⟨error | turn, run'⟩
  · rfl
  cases turn with
  | «return» result => rfl
  | again previous => exact runTerminalAfter_offset h previous run'

theorem runInitializedTurn_offset {t : TerminalId} {offset i j n m : ℕ}
    (h : t = lalr.eofTerminal → i = offset + j ∧ n = offset + m) (run : RunState) :
    runInitializedTurn lalr t i n mode run =
      offsetReply offset (runInitializedTurn lalr t j m mode run) := by
  unfold runInitializedTurn
  rcases hcharge : run.charge 1 with ⟨error | going, run₁⟩
  · rw [RunState.charge_error hcharge]
    rfl
  cases going with
  | false => rfl
  | true =>
    dsimp only
    cases lalr.isIgnored t with
    | none => rfl
    | some ignored =>
      cases ignored with
      | true => rfl
      | false =>
        dsimp only
        rw [runTerminal_offset h]
        rcases runTerminal lalr run₁ t j m mode with ⟨error | result, run₂⟩
        · rfl
        · cases result <;> rfl

/-- **Before EOF the index does not matter, and behind it is moved.**  The same terminals
are read at other places of two slices. -/
theorem runInitializedFrom_offset {ts : List TerminalId} {offset i j n m : ℕ}
    (h : lalr.eofTerminal ∈ ts → i = offset + j ∧ n = offset + m) (run : RunState) :
    runInitializedFrom lalr n mode i ts run =
      offsetReply offset (runInitializedFrom lalr m mode j ts run) := by
  induction ts generalizing i j run with
  | nil => rfl
  | cons t ts ih =>
    have hhead : t = lalr.eofTerminal → i = offset + j ∧ n = offset + m := fun ht =>
      h (ht ▸ List.mem_cons_self)
    have htail : lalr.eofTerminal ∈ ts → i + 1 = offset + (j + 1) ∧ n = offset + m := by
      intro hmem
      obtain ⟨hi, hn⟩ := h (List.mem_cons_of_mem t hmem)
      exact ⟨by omega, hn⟩
    rw [runInitializedFrom, runInitializedFrom, runInitializedTurn_offset hhead]
    rcases runInitializedTurn lalr t j m mode run with ⟨error | status, run'⟩
    · rfl
    cases status with
    | none => exact ih htail run'
    | some status => rfl

/-- Terminals other than EOF are read alike wherever they stand. -/
theorem runInitializedFrom_index {ts : List TerminalId} (h : lalr.eofTerminal ∉ ts)
    (i j n m : ℕ) (run : RunState) :
    runInitializedFrom lalr n mode i ts run = runInitializedFrom lalr m mode j ts run := by
  have hany : lalr.eofTerminal ∈ ts → i = 0 + j ∧ n = 0 + m := fun hmem => absurd hmem h
  rw [runInitializedFrom_offset hany, offsetReply_zero]

/-! ## Cutting a run -/

/-- A terminal that ends the run does not let it go on. -/
theorem runTerminalTurn_ne_continue {t : TerminalId} {i n : ℕ}
    {previous : Option PreviousReduction} {run run' : RunState} :
    runTerminalTurn lalr t i n mode previous run ≠
      (.ok (.return (.complete .continue)), run') := by
  intro h
  unfold runTerminalTurn at h
  split at h
  · cases h
  split at h
  · cases h
  · cases h
  split at h
  · cases h
  · cases h
  · split at h
    · cases h
    · cases h
    split at h <;> cases h
  · split at h
    · cases h
    split at h <;> cases h
  · split_ifs at h <;> cases h

theorem runTerminalAfter_ne_continue {t : TerminalId} {i n : ℕ} (last : PreviousReduction)
    (run run' : RunState) :
    runTerminalAfter lalr t i n mode last run ≠ (.ok (.complete .continue), run') := by
  induction last, run using runTerminalAfter.induct lalr t i n mode with
  | case1 last run error next hturn =>
    rw [runTerminalAfter_eq, hturn]
    exact fun h => by cases h
  | case2 last run result next hturn =>
    rw [runTerminalAfter_eq, hturn]
    rintro h
    cases h
    exact runTerminalTurn_ne_continue hturn
  | case3 last run previous next hturn ih =>
    rw [runTerminalAfter_eq, hturn]
    exact ih

theorem runTerminal_ne_continue {t : TerminalId} {i n : ℕ} (run run' : RunState) :
    runTerminal lalr run t i n mode ≠ (.ok (.complete .continue), run') := by
  unfold runTerminal
  rcases hturn : runTerminalTurn lalr t i n mode none run with ⟨error | turn, next⟩
  · exact fun h => by cases h
  cases turn with
  | «return» result =>
    intro h
    cases h
    exact runTerminalTurn_ne_continue hturn
  | again previous => exact runTerminalAfter_ne_continue previous next run'

/-- A turn of the outer loop goes on by going on, and never by ending the run. -/
theorem runInitializedTurn_ne_continue {t : TerminalId} {i n used : ℕ} (run run' : RunState) :
    runInitializedTurn lalr t i n mode run ≠ (.ok (some (.complete .continue used)), run') := by
  unfold runInitializedTurn
  rcases run.charge 1 with ⟨error | going, run₁⟩
  · exact fun h => by cases h
  cases going with
  | false => exact fun h => by cases h
  | true =>
    dsimp only
    cases lalr.isIgnored t with
    | none => exact fun h => by cases h
    | some ignored =>
      cases ignored with
      | true => exact fun h => by cases h
      | false =>
        dsimp only
        rcases hrun : runTerminal lalr run₁ t i n mode with ⟨error | result, run₂⟩
        · exact fun h => by cases h
        · cases result with
          | shifted => exact fun h => by cases h
          | complete decision =>
            intro h
            cases h
            exact runTerminal_ne_continue _ _ hrun
          | workLimitExceeded => exact fun h => by cases h

/-- **A run may be cut in two.** -/
theorem runInitializedFrom_append (xs ys : List TerminalId) (i n : ℕ) (run : RunState) :
    runInitializedFrom lalr n mode i (xs ++ ys) run =
      match runInitializedFrom lalr n mode i xs run with
      | (.ok (.complete .continue _), run') =>
        runInitializedFrom lalr n mode (i + xs.length) ys run'
      | out => out := by
  induction xs generalizing i run with
  | nil => rfl
  | cons t xs ih =>
    rw [List.cons_append, runInitializedFrom, runInitializedFrom, List.length_cons,
      Nat.add_comm xs.length, ← Nat.add_assoc]
    rcases hturn : runInitializedTurn lalr t i n mode run with ⟨error | status, run'⟩
    · rfl
    cases status with
    | none => exact ih (i + 1) run'
    | some status =>
      cases status with
      | complete decision used =>
        cases decision with
        | «continue» => exact absurd hturn (runInitializedTurn_ne_continue run run')
        | rejected => rfl
        | accepted => rfl
        | dependent => rfl
      | workLimitExceeded required => rfl

/-! ## Runs without a limit -/

/-- A push leaves the work as it is. -/
theorem parserPush_work {run run' : RunState} {d : ParserStateId}
    {reply : Except ParserError Unit} (h : parserPush run d = (reply, run')) :
    run'.work = run.work := by
  unfold parserPush at h
  split at h <;> (cases h; rfl)

/-- So does a reduction, when there is no limit. -/
theorem applyReduction_work {run run' : RunState} {p : ProductionId}
    {reply : Except ParserError ReductionResult} (hmax : run.work.maximum = none)
    (h : applyReduction lalr run p mode = (reply, run')) : run'.work = run.work := by
  unfold applyReduction at h
  simp only [RunState.charge_unlimited hmax] at h
  split at h
  · cases h
    rfl
  split_ifs at h
  · cases mode <;> (cases h; rfl)
  split at h
  · cases h
    rfl
  split at h
  · cases h
    rfl
  · cases h
    rfl
  split at h
  all_goals
    rename_i hpush
    cases h
    have hkeep := parserPush_work hpush
    exact hkeep

theorem runTerminalTurn_work {t : TerminalId} {i n : ℕ} {previous : Option PreviousReduction}
    {run run' : RunState} {reply : Except ParserError LoopTurn} (hmax : run.work.maximum = none)
    (h : runTerminalTurn lalr t i n mode previous run = (reply, run')) :
    run'.work = run.work := by
  unfold runTerminalTurn at h
  simp only [RunState.charge_unlimited hmax] at h
  split at h
  · cases h
    rfl
  split at h
  · cases h
    rfl
  · cases h
    rfl
  · split at h
    all_goals
      rename_i hpush
      cases h
      exact parserPush_work hpush
  · split at h
    · cases h
      rfl
    split at h
    all_goals
      rename_i happlied
      cases h
      exact applyReduction_work hmax happlied
  · split_ifs at h <;> (cases h; rfl)

theorem runTerminalAfter_work {t : TerminalId} {i n : ℕ} {last : PreviousReduction}
    {run run' : RunState} {reply : Except ParserError TerminalRun}
    (hmax : run.work.maximum = none)
    (h : runTerminalAfter lalr t i n mode last run = (reply, run')) : run'.work = run.work := by
  induction last, run using runTerminalAfter.induct lalr t i n mode with
  | case1 last run error next hturn =>
    rw [runTerminalAfter_eq, hturn] at h
    cases h
    exact runTerminalTurn_work hmax hturn
  | case2 last run result next hturn =>
    rw [runTerminalAfter_eq, hturn] at h
    cases h
    exact runTerminalTurn_work hmax hturn
  | case3 last run previous next hturn ih =>
    rw [runTerminalAfter_eq, hturn] at h
    have hkeep := runTerminalTurn_work hmax hturn
    exact (ih (hkeep ▸ hmax) h).trans hkeep

theorem runTerminal_work {t : TerminalId} {i n : ℕ} {run run' : RunState}
    {reply : Except ParserError TerminalRun} (hmax : run.work.maximum = none)
    (h : runTerminal lalr run t i n mode = (reply, run')) : run'.work = run.work := by
  unfold runTerminal at h
  rcases hturn : runTerminalTurn lalr t i n mode none run with ⟨error | turn, next⟩
  all_goals
    rw [hturn] at h
    have hkeep := runTerminalTurn_work hmax hturn
  · cases h
    exact hkeep
  cases turn with
  | «return» result =>
    cases h
    exact hkeep
  | again previous => exact (runTerminalAfter_work (hkeep ▸ hmax) h).trans hkeep

theorem runInitializedTurn_work {t : TerminalId} {i n : ℕ} {run run' : RunState}
    {reply : Except ParserError (Option RunStatus)} (hmax : run.work.maximum = none)
    (h : runInitializedTurn lalr t i n mode run = (reply, run')) : run'.work = run.work := by
  unfold runInitializedTurn at h
  simp only [RunState.charge_unlimited hmax] at h
  split at h
  · cases h
    rfl
  · cases h
    rfl
  split at h
  all_goals
    rename_i hrun
    cases h
    exact runTerminal_work hmax hrun

/-- **A run without a limit counts nothing.** -/
theorem runInitializedFrom_work {ts : List TerminalId} {i n : ℕ} {run run' : RunState}
    {reply : Except ParserError RunStatus} (hmax : run.work.maximum = none)
    (h : runInitializedFrom lalr n mode i ts run = (reply, run')) : run'.work = run.work := by
  induction ts generalizing i run with
  | nil =>
    cases h
    rfl
  | cons t ts ih =>
    rw [runInitializedFrom] at h
    rcases hturn : runInitializedTurn lalr t i n mode run with ⟨error | status, next⟩
    all_goals
      rw [hturn] at h
      have hkeep := runInitializedTurn_work hmax hturn
    · cases h
      exact hkeep
    cases status with
    | none => exact (ih (hkeep ▸ hmax) h).trans hkeep
    | some status =>
      cases h
      exact hkeep

/-- The terminals that the parser sees. -/
def ValidatedLalr.kept (lalr : ValidatedLalr) (terminals : List TerminalId) : List TerminalId :=
  terminals.filter fun terminal => lalr.isIgnored terminal ≠ some true

/-- **Ignored terminals change nothing.** -/
theorem runInitializedFrom_kept {ts : List TerminalId} (heof : lalr.eofTerminal ∉ ts) (i n : ℕ)
    {run : RunState} (hmax : run.work.maximum = none) :
    runInitializedFrom lalr n mode i (lalr.kept ts) run =
      runInitializedFrom lalr n mode i ts run := by
  induction ts generalizing i run with
  | nil => rfl
  | cons t ts ih =>
    have hrest : lalr.eofTerminal ∉ ts := fun hmem => heof (List.mem_cons_of_mem t hmem)
    unfold ValidatedLalr.kept at ih ⊢
    by_cases hignored : lalr.isIgnored t = some true
    · -- the terminal only takes up an index
      have hturn : runInitializedTurn lalr t i n mode run = (.ok none, run) := by
        simp only [runInitializedTurn, RunState.charge_unlimited hmax, hignored]
      rw [List.filter_cons_of_neg (by simpa using hignored), ih hrest i hmax, runInitializedFrom,
        hturn]
      exact runInitializedFrom_index hrest i (i + 1) n n run
    · rw [List.filter_cons_of_pos (by simpa using hignored), runInitializedFrom,
        runInitializedFrom]
      rcases hturn : runInitializedTurn lalr t i n mode run with ⟨error | status, next⟩
      · rfl
      cases status with
      | none => exact ih hrest (i + 1) (runInitializedTurn_work hmax hturn ▸ hmax)
      | some status => rfl

/-! ## The executors -/

/-- Two runs in one workspace, the second where the first has stopped. -/
theorem runInitialized_append {xs : List TerminalId} (heof : lalr.eofTerminal ∉ xs)
    (ys : List TerminalId) (stack : Workspace) :
    runInitialized lalr stack (xs ++ ys) mode ⟨0, none⟩ =
      match runInitialized lalr stack xs mode ⟨0, none⟩ with
      | (.ok (.complete .continue _), stack') =>
        offsetReply xs.length (runInitialized lalr stack' ys mode ⟨0, none⟩)
      | out => out := by
  unfold runInitialized
  rw [runInitializedFrom_append, runInitializedFrom_index heof 0 0 _ xs.length]
  rcases hrun : runInitializedFrom lalr xs.length mode 0 xs { stack with work := ⟨0, none⟩ } with
    ⟨reply, run⟩
  obtain ⟨stack', work⟩ := run
  obtain rfl : work = ⟨0, none⟩ := runInitializedFrom_work rfl hrun
  cases reply with
  | error error => rfl
  | ok status =>
    cases status with
    | workLimitExceeded required => rfl
    | complete decision used =>
      cases decision with
      | rejected => rfl
      | accepted => rfl
      | dependent => rfl
      | «continue» =>
        have hplace : lalr.eofTerminal ∈ ys →
            0 + xs.length = xs.length + 0 ∧ (xs ++ ys).length = xs.length + ys.length :=
          fun _ => ⟨Nat.add_comm 0 _, List.length_append⟩
        dsimp only
        rw [runInitializedFrom_offset hplace]
        rfl

/-- **Running in place composes**, whatever the allocator answers. -/
theorem executeTerminalsConcreteInPlace_append {xs : List TerminalId}
    (heof : lalr.eofTerminal ∉ xs) (ys : List TerminalId) (stack : Workspace) :
    executeTerminalsConcreteInPlace lalr stack (xs ++ ys) =
      match executeTerminalsConcreteInPlace lalr stack xs with
      | (.ok .continue, stack') =>
        offsetReply xs.length (executeTerminalsConcreteInPlace lalr stack' ys)
      | out => out := by
  unfold executeTerminalsConcreteInPlace runValidatedInPlace
  simp only [RunWork.charge]
  rw [runInitialized_append heof]
  rcases runInitialized lalr stack xs .error ⟨0, none⟩ with ⟨error | status, stack'⟩
  · rfl
  cases status with
  | workLimitExceeded required => rfl
  | complete decision used =>
    cases decision with
    | rejected => rfl
    | accepted => rfl
    | dependent => rfl
    | «continue» =>
      simp only [unboundedDecision]
      rcases runInitialized lalr stack' ys .error ⟨0, none⟩ with ⟨error | status, stack''⟩
      · rfl
      · cases status <;> rfl

/-- Before EOF no error names an index. -/
theorem executeTerminalsConcreteInPlace_offset {ts : List TerminalId}
    (heof : lalr.eofTerminal ∉ ts) (offset : ℕ) (stack : Workspace) :
    offsetReply offset (executeTerminalsConcreteInPlace lalr stack ts) =
      executeTerminalsConcreteInPlace lalr stack ts := by
  have hany : lalr.eofTerminal ∈ ts → 0 = offset + 0 ∧ ts.length = offset + ts.length :=
    fun hmem => absurd hmem heof
  have hrun : runInitializedFrom lalr ts.length .error 0 ts { stack with work := ⟨0, none⟩ } = _ :=
    runInitializedFrom_offset hany _
  unfold executeTerminalsConcreteInPlace runValidatedInPlace runInitialized
  simp only [RunWork.charge]
  generalize runInitializedFrom lalr ts.length .error 0 ts { stack with work := ⟨0, none⟩ } = out
    at hrun
  obtain ⟨error | status, run⟩ := out
  · have herror : error = error.offsetBy offset := Except.error.inj (Prod.mk.inj hrun).1
    dsimp only
    rw [offsetReply_error, ← herror]
  · cases status <;> rfl

theorem executeTerminalsConcreteInPlace_kept {ts : List TerminalId}
    (heof : lalr.eofTerminal ∉ ts) (stack : Workspace) :
    executeTerminalsConcreteInPlace lalr stack (lalr.kept ts) =
      executeTerminalsConcreteInPlace lalr stack ts := by
  have hkept : lalr.eofTerminal ∉ lalr.kept ts := fun hmem => heof (List.mem_of_mem_filter hmem)
  unfold executeTerminalsConcreteInPlace runValidatedInPlace runInitialized
  simp only [RunWork.charge]
  rw [runInitializedFrom_index hkept 0 0 _ ts.length, runInitializedFrom_kept heof 0 _ rfl]

/-- Ignored terminals change nothing of a run that goes on after them, but the index. -/
theorem executeTerminalsConcreteInPlace_kept_append {xs : List TerminalId}
    (heof : lalr.eofTerminal ∉ xs) (ys : List TerminalId) (stack : Workspace) :
    executeTerminalsConcreteInPlace lalr stack (xs ++ ys) =
      offsetReply (xs.length - (lalr.kept xs).length)
        (executeTerminalsConcreteInPlace lalr stack (lalr.kept xs ++ ys)) := by
  have hkept : lalr.eofTerminal ∉ lalr.kept xs := fun hmem => heof (List.mem_of_mem_filter hmem)
  have hplaced := executeTerminalsConcreteInPlace_offset heof
    (xs.length - (lalr.kept xs).length) stack
  rw [executeTerminalsConcreteInPlace_append heof, executeTerminalsConcreteInPlace_append hkept,
    executeTerminalsConcreteInPlace_kept heof]
  generalize executeTerminalsConcreteInPlace lalr stack xs = out at hplaced
  obtain ⟨error | decision, stack'⟩ := out
  · exact hplaced.symm
  cases decision with
  | rejected => rfl
  | accepted => rfl
  | dependent => rfl
  | «continue» =>
    have hle : (lalr.kept xs).length ≤ xs.length := List.length_filter_le _ xs
    dsimp only
    rw [offsetReply_offsetReply, Nat.sub_add_cancel hle]

/-- **The copying executor is the one in place, on the copy.**  What the destination held
before is gone. -/
theorem executeTerminalsConcreteInto_eq_inPlace (stack old : List ParserStateId)
    (ts : List TerminalId) {copied memory : Memory} (h : copied.reserve = (true, memory)) :
    executeTerminalsConcreteInto lalr stack ts ⟨old, copied⟩ =
      executeTerminalsConcreteInPlace lalr ⟨stack, memory⟩ ts := by
  unfold executeTerminalsConcreteInto executeTerminalsConcreteInPlace runValidatedInto
    runValidatedInPlace
  simp only [RunWork.charge, copyStackInto, h]

/-- A copy that is refused. -/
theorem executeTerminalsConcreteInto_refused (stack old : List ParserStateId)
    (ts : List TerminalId) {copied memory : Memory} (h : copied.reserve = (false, memory)) :
    executeTerminalsConcreteInto lalr stack ts ⟨old, copied⟩ =
      (.error (.allocationFailure stack.length), ⟨[], memory⟩) := by
  unfold executeTerminalsConcreteInto runValidatedInto
  simp only [RunWork.charge, copyStackInto, h]

end

end GreatGramma
