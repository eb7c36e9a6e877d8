import GreatGramma.Core.Lalr
import GreatGramma.Library.Traversal

/-!
# What the LALR executor computes

The validated LALR table is a shift-reduce table, `ValidatedLalr.table`, and its `parse` says what
a run does to a stack: no buffers, no reservations, no work limit.  This file shows that the
executor of `lalr.rs` computes it.

## The layers

The refinement goes up the layers of the source.  One turn of the loop of `run_terminal` is one
turn of the table (`runTerminalTurn_settles`), so the loop is the table's loop, and a run over a
slice is `parse`.  On the way nothing is left of the checks that cannot fail on a valid stack: the
lookups all succeed, and the cells of a validated table name states and productions that exist.

## Three kinds of runs

The executor is called in three ways, and they share everything but what they do at the ends:
concrete runs into a buffer, whatever it held before (`executeTerminalsConcreteInto_settles`),
concrete runs in place, and symbolic runs, with and without a work limit.  A symbolic run starts
from one state and is told apart by what it replies when the base of its stack is popped.  A work
limit may stop a run at any turn, so the post-conditions have a disjunct for that: either the run
stopped because of the limit, or what is said of runs without one holds (`Bounded`).

## Faults

A table may tell a run to do what it cannot: to pop more than there is, to go where no goto leads,
or to reduce without progress.  These are verdicts of the table like any other, and each is
reported by its own error (`faultError`).  Nothing here assumes that they do not occur.
-/

namespace GreatGramma

open Reservation ShiftReduce Traversal

/-! ## The table -/

/-- An action cell as a move of the table. -/
def Action.toMove : Action → Move ParserStateId ProductionId
  | .error => .reject
  | .shift destination => .shift destination
  | .reduce production rank => .reduce production rank.toNat
  | .accept => .accept

namespace ValidatedLalr

variable (lalr : ValidatedLalr)

/-- The LALR table as a shift-reduce table. -/
def table : Table ParserStateId TerminalId ProductionId where
  move q t := ((lalr.action q t).map Action.toMove).getD .reject
  pops p := ((lalr.production p).map Production.popLen).getD 0
  goto s p := (lalr.production p).bind fun production => (lalr.goto s production.lhs).join
  skips t := lalr.isIgnored t = some true

/-- A stack that the executor accepts: not empty, of parser states. -/
def ValidStack (stack : List ParserStateId) : Prop :=
  stack ≠ [] ∧ ∀ state ∈ stack, state < lalr.stateCount

instance (stack : List ParserStateId) : Decidable (lalr.ValidStack stack) := by
  unfold ValidStack
  infer_instance

/-- Terminals of the table. -/
def ValidTerminals (terminals : List TerminalId) : Prop :=
  ∀ terminal ∈ terminals, terminal < lalr.terminalCount

variable {lalr}

theorem move_eq {q t : ℕ} {a : Action} (h : lalr.action q t = some a) :
    lalr.table.move q t = a.toMove := by
  simp only [table, h, Option.map_some, Option.getD_some]

theorem shift_mem {q t d : ℕ} (h : lalr.table.move q t = .shift d) :
    lalr.action q t = some (.shift d) := by
  cases ha : lalr.action q t with
  | none =>
    simp only [table, ha, Option.map_none, Option.getD_none] at h
    cases h
  | some a =>
    rw [move_eq ha] at h
    cases a <;> cases h
    rfl

theorem action_mem {q t : ℕ} {a : Action} (h : lalr.action q t = some a) : a ∈ lalr.actions := by
  simp only [action, Option.bind_eq_bind, Option.bind_eq_some_iff] at h
  obtain ⟨_, -, _, -, _, -, _, -, hget⟩ := h
  exact List.mem_of_getElem? hget

theorem move_shift_lt {q t d : ℕ} (h : lalr.table.move q t = .shift d) : d < lalr.stateCount :=
  lalr.shift_lt d (action_mem (shift_mem h))

theorem table_goto_lt {s p d : ℕ} (h : lalr.table.goto s p = some d) : d < lalr.stateCount := by
  simp only [table, Option.bind_eq_some_iff] at h
  obtain ⟨production, -, hgoto⟩ := h
  have hcell : lalr.goto s production.lhs = some (some d) := Option.join_eq_some_iff.mp hgoto
  simp only [goto, Option.bind_eq_bind, Option.bind_eq_some_iff] at hcell
  obtain ⟨_, -, _, -, _, -, _, -, hget⟩ := hcell
  exact lalr.gotos_lt d (List.mem_of_getElem? hget)

theorem move_accept {q t : ℕ} (hq : q < lalr.stateCount) (ht : t < lalr.terminalCount)
    (h : lalr.table.move q t = .accept) : t = lalr.eofTerminal := by
  obtain ⟨a, ha, -, -, haccept⟩ := lalr.action_eq hq ht
  rw [move_eq ha] at h
  cases a <;> cases h
  exact haccept rfl

/-- **Runs keep stacks valid.** -/
theorem ValidStack.parse {stack stack' : List ParserStateId} {ts : List TerminalId}
    (hstack : lalr.ValidStack stack) (h : lalr.table.parse stack ts = .live stack') :
    lalr.ValidStack stack' :=
  ⟨lalr.table.parse_ne_nil hstack.1 h,
    lalr.table.parse_forall (P := (· < lalr.stateCount)) (fun _ _ _ => move_shift_lt)
      (fun _ _ _ => table_goto_lt) hstack.2 h⟩

theorem ValidStack.again {t : TerminalId} {last : Option Reduction} {last' : Reduction}
    {stack stack' : List ParserStateId} (hstack : lalr.ValidStack stack)
    (h : lalr.table.turn t last stack = .again last' stack') : lalr.ValidStack stack' := by
  obtain ⟨-, -, s, d, r, -, hd, rfl⟩ := lalr.table.turn_again h
  refine ⟨by simp, fun q hq => ?_⟩
  rcases List.mem_append.mp hq with hq | hq
  · exact hstack.2 q (List.mem_of_mem_take hq)
  · rw [List.mem_singleton.mp hq]
    exact table_goto_lt hd

/-! ## Replies -/

variable (lalr)

/-- The nonterminal that a production reduces to. -/
def lhsOf (p : ProductionId) : NonterminalId := ((lalr.production p).map Production.lhs).getD 0

/-- The error that reports a fault of the table. -/
def faultError : Fault ParserStateId TerminalId ProductionId → ParserError
  | .emptyStack => .invariantViolation
  | .underflow p length => .stackUnderflow p (lalr.table.pops p) length
  | .missingGoto s p => .missingGoto s (lalr.lhsOf p) p
  | .noProgress q t => .invalidReductionProgress q t

/-- The decision on a fault: popping the base may be what the caller asks about,
everything else is an error. -/
def faultDecision (mode : UnderflowMode) (fault : Fault ParserStateId TerminalId ProductionId) :
    Except ParserError RunDecision :=
  match mode, fault with
  | .dependent, .underflow _ _ => .ok .dependent
  | _, fault => .error (lalr.faultError fault)

/-- What `run_terminal` replies to an outcome. -/
def terminalReply (mode : UnderflowMode) (terminalIndex terminalCount : ℕ) :
    Outcome ParserStateId TerminalId ProductionId → Except ParserError TerminalRun
  | .shifted _ => .ok .shifted
  | .rejected => .ok (.complete .rejected)
  | .accepted =>
    if terminalIndex + 1 ≠ terminalCount then .error (.acceptBeforeEnd terminalIndex)
    else .ok (.complete .accepted)
  | .fault fault => (lalr.faultDecision mode fault).map .complete

/-- What a run over `terminalCount` terminals decides on a verdict. -/
def runReply (mode : UnderflowMode) (terminalCount : ℕ) :
    Verdict ParserStateId TerminalId ProductionId → Except ParserError RunDecision
  | .live _ => .ok .continue
  | .rejected => .ok .rejected
  | .accepted rest =>
    if rest = [] then .ok .accepted else .error (.acceptBeforeEnd (terminalCount - rest.length - 1))
  | .fault fault => lalr.faultDecision mode fault

end ValidatedLalr

/-! ## Work

What is charged touches neither the stack nor the allocator, so it is separated from the rest
first. -/

/-- The post-condition of a run that may have a work limit: either it stopped
because of the limit, and `exceeded` recognizes the reply, or `post` holds.  The
limit itself never changes. -/
def Bounded {α : Type} (run : RunState) (exceeded : α → Prop)
    (post : Except ParserError α → RunState → Prop) :
    Except ParserError α → RunState → Prop :=
  fun reply run' => run'.work.maximum = run.work.maximum ∧
    ((run.work.maximum ≠ none ∧
      (reply = .error .invariantViolation ∨ ∃ a, reply = .ok a ∧ exceeded a)) ∨ post reply run')

theorem RunWork.charge_cases (work : RunWork) (amount : ℕ) :
    ∃ work', work'.maximum = work.maximum ∧
      (work.charge amount = (.ok true, work') ∨
        (work.maximum ≠ none ∧ (work.charge amount = (.ok false, work') ∨
          work.charge amount = (.error .invariantViolation, work')))) := by
  obtain ⟨used, maximum⟩ := work
  cases maximum with
  | none => exact ⟨⟨used, none⟩, rfl, Or.inl rfl⟩
  | some maximum =>
    unfold RunWork.charge
    dsimp only
    cases checkedAdd used amount with
    | none => exact ⟨⟨used, some maximum⟩, rfl, Or.inr ⟨Option.some_ne_none _, Or.inr rfl⟩⟩
    | some used' =>
      refine ⟨⟨used', some maximum⟩, rfl, ?_⟩
      by_cases hle : used' ≤ maximum
      · exact Or.inl (by simp [hle])
      · exact Or.inr ⟨Option.some_ne_none _, Or.inl (by simp [hle])⟩

theorem RunState.charge_cases (run : RunState) (amount : ℕ) :
    ∃ run', run'.toWorkspace = run.toWorkspace ∧ run'.work.maximum = run.work.maximum ∧
      (run.charge amount = (.ok true, run') ∨
        (run.work.maximum ≠ none ∧ (run.charge amount = (.ok false, run') ∨
          run.charge amount = (.error .invariantViolation, run')))) := by
  obtain ⟨work', hmaximum, h | ⟨hlimit, h | h⟩⟩ := run.work.charge_cases amount
  · exact ⟨{ run with work := work' }, rfl, hmaximum, Or.inl (by rw [charge, h])⟩
  · exact ⟨{ run with work := work' }, rfl, hmaximum, Or.inr ⟨hlimit, Or.inl (by rw [charge, h])⟩⟩
  · exact ⟨{ run with work := work' }, rfl, hmaximum, Or.inr ⟨hlimit, Or.inr (by rw [charge, h])⟩⟩

theorem bounded_congr {α : Type} {run run' : RunState} {exceeded : α → Prop}
    {post : Except ParserError α → RunState → Prop}
    (h : run'.work.maximum = run.work.maximum) :
    Bounded run' exceeded post = Bounded run exceeded post := by
  unfold Bounded
  rw [h]

/-- **Charge, then go on.** -/
theorem charge_settles {α : Type} {run : RunState} {amount : ℕ} {exceeded : α → Prop}
    {post : Except ParserError α → RunState → Prop} {stop : RunState → α}
    {next : RunState → Except ParserError α × RunState} (hstop : ∀ run, exceeded (stop run))
    (hnext : ∀ run', run'.toWorkspace = run.toWorkspace →
      run'.work.maximum = run.work.maximum →
      Settles run' (Bounded run' exceeded post) (next run')) :
    Settles run (Bounded run exceeded post)
      (match run.charge amount with
        | (.error error, run) => (.error error, run)
        | (.ok false, run) => (.ok (stop run), run)
        | (.ok true, run) => next run) := by
  obtain ⟨run', hkeep, hmaximum, h | ⟨hlimit, h | h⟩⟩ := run.charge_cases amount
  · rw [h]
    have hgo := hnext run' hkeep hmaximum
    rw [bounded_congr hmaximum] at hgo
    exact .after (.of_eq (congrArg Workspace.memory hkeep).symm) hgo
  · rw [h]
    exact .done ⟨hmaximum, Or.inl ⟨hlimit, Or.inr ⟨_, rfl, hstop run'⟩⟩⟩
      (.of_eq (congrArg Workspace.memory hkeep).symm)
  · rw [h]
    exact .done ⟨hmaximum, Or.inl ⟨hlimit, Or.inl rfl⟩⟩
      (.of_eq (congrArg Workspace.memory hkeep).symm)

/-- **Push, then go on.** -/
theorem parserPush_settles {α : Type} {start run : RunState} {d : ParserStateId}
    {post : Except ParserError α → RunState → Prop}
    {next : RunState → Except ParserError α × RunState} (hmemory : run.memory = start.memory)
    (hnext : ∀ memory, Settles { run with stack := run.stack ++ [d], memory } post
      (next { run with stack := run.stack ++ [d], memory })) :
    Settles start post
      (match parserPush run d with
        | (.error error, run) => (.error error, run)
        | (.ok (), run) => next run) := by
  unfold parserPush
  rw [hmemory]
  cases hstart : start.memory with
  | nil => exact .after (.of_eq hstart) (hnext [])
  | cons answer rest =>
    cases answer with
    | true =>
      have hgrants : Grants start.memory rest := hstart ▸ .head rest
      exact .after hgrants (hnext rest)
    | false =>
      have hrefuses : Refuses start.memory rest := hstart ▸ .head rest
      exact .refused hrefuses ⟨_, rfl⟩

/-! ## One turn -/

section
variable {lalr : ValidatedLalr} (mode : UnderflowMode)

/-- **One reduction.**  It pops inside the stack and pushes the goto of the state
it uncovers, or it says which of the two the table does not allow. -/
theorem applyReduction_settles (run : RunState) {p : ProductionId}
    (hstack : lalr.ValidStack run.stack) (hp : p < lalr.productions.length) :
    Settles run
      (Bounded run (· = .workLimitExceeded) fun reply run' =>
        if run.stack.length ≤ lalr.table.pops p then
          reply = match mode with
            | .error => .error (.stackUnderflow p (lalr.table.pops p) run.stack.length)
            | .dependent => .ok .dependent
        else ∃ s, run.stack[run.stack.length - lalr.table.pops p - 1]? = some s ∧
          match lalr.table.goto s p with
          | none => reply = .error (.missingGoto s (lalr.lhsOf p) p)
          | some d => reply = .ok (.applied (lalr.table.pops p)) ∧
              run'.stack = run.stack.take (run.stack.length - lalr.table.pops p) ++ [d])
      (applyReduction lalr run p mode) := by
  obtain ⟨production, hproduction, hlhs⟩ := lalr.production_eq hp
  have hpops : lalr.table.pops p = production.popLen := by
    simp only [ValidatedLalr.table, hproduction, Option.map_some, Option.getD_some]
  have hlhsOf : lalr.lhsOf p = production.lhs := by
    simp only [ValidatedLalr.lhsOf, hproduction, Option.map_some, Option.getD_some]
  rw [hpops, hlhsOf]
  unfold applyReduction
  refine charge_settles (fun _ => rfl) ?_
  intro run₁ hkeep₁ hmax₁
  have hstack₁ : run₁.stack = run.stack := congrArg Workspace.stack hkeep₁
  simp only [hproduction, hstack₁]
  by_cases hunder : run.stack.length ≤ production.popLen
  · simp only [ge_iff_le, hunder, if_true]
    cases mode <;> exact .here ⟨rfl, Or.inr rfl⟩
  · have hcut : run.stack.length - production.popLen - 1 < run.stack.length := by omega
    have hsource := List.getElem?_eq_getElem hcut
    simp only [ge_iff_le, hunder, if_false, hsource]
    refine charge_settles (fun _ => rfl) ?_
    intro run₂ hkeep₂ hmax₂
    have hvalid := hstack.2 _ (List.getElem_mem hcut)
    obtain ⟨destination, hgoto, -⟩ := lalr.goto_eq hvalid hlhs
    have htable : lalr.table.goto run.stack[run.stack.length - production.popLen - 1] p =
        destination := by
      simp only [ValidatedLalr.table, hproduction, Option.bind_some, hgoto, Option.join_some]
    simp only [hgoto]
    cases destination with
    | none => exact .here ⟨rfl, Or.inr ⟨_, rfl, by rw [htable]⟩⟩
    | some d =>
      simp only
      refine charge_settles (fun _ => rfl) ?_
      intro run₃ hkeep₃ hmax₃
      have hstack₃ : run₃.stack = run.stack := by
        rw [congrArg Workspace.stack hkeep₃, congrArg Workspace.stack hkeep₂, hstack₁]
      refine parserPush_settles rfl ?_
      intro memory
      refine .here ⟨rfl, Or.inr ⟨_, rfl, ?_⟩⟩
      rw [htable]
      exact ⟨rfl, by rw [← hstack₃]⟩

/-- **One turn of the loop of `run_terminal`** is one turn of the table. -/
theorem runTerminalTurn_settles {run : RunState} {terminal : TerminalId}
    (terminalIndex terminalCount : ℕ) (previous : Option PreviousReduction)
    (hstack : lalr.ValidStack run.stack) (hterminal : terminal < lalr.terminalCount) :
    Settles run
      (Bounded run (· = .return .workLimitExceeded) fun reply run' =>
        match lalr.table.turn terminal (previous.map PreviousReduction.toReduction) run.stack with
        | .done outcome =>
          reply = (lalr.terminalReply mode terminalIndex terminalCount outcome).map .return ∧
            ∀ stack', outcome = .shifted stack' → run'.stack = stack'
        | .again last stack' =>
          ∃ previous', reply = .ok (.again previous') ∧ previous'.toReduction = last ∧
            run'.stack = stack')
      (runTerminalTurn lalr terminal terminalIndex terminalCount mode previous run) := by
  obtain ⟨state, hstate⟩ : ∃ state, run.stack.getLast? = some state :=
    ⟨_, List.getLast?_eq_some_getLast hstack.1⟩
  have hvalid := hstack.2 state (List.mem_of_getLast? hstate)
  obtain ⟨action, haction, -, hreduce, -⟩ := lalr.action_eq hvalid hterminal
  unfold runTerminalTurn stackTop Table.turn
  simp only [hstate]
  refine charge_settles (fun _ => rfl) ?_
  intro run₁ hkeep₁ hmax₁
  have hstack₁ : run₁.stack = run.stack := congrArg Workspace.stack hkeep₁
  simp only [haction, ValidatedLalr.move_eq haction]
  cases action with
  | error => exact .here ⟨rfl, Or.inr ⟨rfl, fun _ h => by cases h⟩⟩
  | accept =>
    simp only [ValidatedLalr.terminalReply]
    split_ifs
    · exact .here ⟨rfl, Or.inr ⟨rfl, fun _ h => by cases h⟩⟩
    · exact .here ⟨rfl, Or.inr ⟨rfl, fun _ h => by cases h⟩⟩
  | shift d =>
    simp only
    refine charge_settles (fun _ => rfl) ?_
    intro run₂ hkeep₂ hmax₂
    refine parserPush_settles rfl ?_
    intro memory
    refine .here ⟨rfl, Or.inr ⟨rfl, fun stack' h => ?_⟩⟩
    cases h
    rw [← hstack₁, ← congrArg Workspace.stack hkeep₂]
  | reduce p rank =>
    simp only [checkReductionProgress_eq, Action.toMove]
    by_cases hprogress : Progress (previous.map PreviousReduction.toReduction) rank.toNat
    · simp only [hprogress, if_true]
      have hone := applyReduction_settles mode run₁ (hstack₁.symm ▸ hstack)
        (hreduce p rank rfl)
      rw [hstack₁] at hone
      generalize applyReduction lalr run₁ p mode = out at hone
      cases hone with
      | refused hs he => exact .refused hs he
      | done h hs =>
        obtain ⟨hmax, ⟨hlimit, rfl | ⟨_, rfl, rfl⟩⟩ | h⟩ := h
        · exact .done ⟨hmax, Or.inl ⟨hlimit, Or.inl rfl⟩⟩ hs
        · exact .done ⟨hmax, Or.inl ⟨hlimit, Or.inr ⟨_, rfl, rfl⟩⟩⟩ hs
        split_ifs at h with hunder
        · subst h
          rw [if_pos hunder]
          cases mode <;> exact .done ⟨hmax, Or.inr ⟨rfl, fun _ h => by cases h⟩⟩ hs
        · obtain ⟨s, hs', h⟩ := h
          rw [if_neg hunder, hs']
          split at h
          · rename_i hgoto
            subst h
            simp only [hgoto]
            exact .done ⟨hmax, Or.inr ⟨by cases mode <;> rfl, fun _ h => by cases h⟩⟩ hs
          · rename_i d hgoto
            obtain ⟨rfl, hrun⟩ := h
            simp only [hgoto]
            exact .done ⟨hmax, Or.inr ⟨_, rfl, rfl, hrun⟩⟩ hs
    · simp only [hprogress, if_false]
      exact .here ⟨rfl, Or.inr ⟨by cases mode <;> rfl, fun _ h => by cases h⟩⟩
/-! ## Whole runs -/

/-- What reading a terminal leaves behind: the reply that the outcome calls for,
and the stack when it is shifted. -/
def TerminalPost (lalr : ValidatedLalr) (mode : UnderflowMode) (terminalIndex terminalCount : ℕ)
    (outcome : Outcome ParserStateId TerminalId ProductionId)
    (reply : Except ParserError TerminalRun) (run : RunState) : Prop :=
  reply = lalr.terminalReply mode terminalIndex terminalCount outcome ∧
    ∀ stack', outcome = .shifted stack' → run.stack = stack'

theorem runTerminalTurn_then {run : RunState} {terminal : TerminalId}
    {terminalIndex terminalCount : ℕ} (previous : Option PreviousReduction)
    {rest : PreviousReduction → RunState → Except ParserError TerminalRun × RunState}
    (hstack : lalr.ValidStack run.stack) (hterminal : terminal < lalr.terminalCount)
    (hrest : ∀ previous' run', lalr.table.turn terminal
        (previous.map PreviousReduction.toReduction) run.stack =
          .again previous'.toReduction run'.stack →
      Settles run'
        (Bounded run' (· = .workLimitExceeded) (TerminalPost lalr mode terminalIndex terminalCount
          (lalr.table.loop terminal (some previous'.toReduction) run'.stack)))
        (rest previous' run')) :
    Settles run
      (Bounded run (· = .workLimitExceeded) (TerminalPost lalr mode terminalIndex terminalCount
        (lalr.table.loop terminal (previous.map PreviousReduction.toReduction) run.stack)))
      (match runTerminalTurn lalr terminal terminalIndex terminalCount mode previous run with
        | (.error error, run) => (.error error, run)
        | (.ok (.return result), run) => (.ok result, run)
        | (.ok (.again previous), run) => rest previous run) := by
  have hone := runTerminalTurn_settles mode terminalIndex terminalCount previous hstack hterminal
  generalize runTerminalTurn lalr terminal terminalIndex terminalCount mode previous run = out
    at hone
  rw [Table.loop_eq]
  cases hone with
  | refused hs he => exact .refused hs he
  | @done reply run' h hs =>
    obtain ⟨hmax, ⟨hlimit, rfl | ⟨_, rfl, rfl⟩⟩ | h⟩ := h
    · exact .done ⟨hmax, Or.inl ⟨hlimit, Or.inl rfl⟩⟩ hs
    · exact .done ⟨hmax, Or.inl ⟨hlimit, Or.inr ⟨_, rfl, rfl⟩⟩⟩ hs
    cases hturn : lalr.table.turn terminal (previous.map PreviousReduction.toReduction)
      run.stack with
    | done outcome =>
      simp only [hturn] at h
      obtain ⟨hreply, hshift⟩ := h
      cases hterm : lalr.terminalReply mode terminalIndex terminalCount outcome with
      | error e =>
        rw [hterm] at hreply
        cases hreply
        exact .done ⟨hmax, Or.inr ⟨hterm.symm, hshift⟩⟩ hs
      | ok result =>
        rw [hterm] at hreply
        cases hreply
        exact .done ⟨hmax, Or.inr ⟨hterm.symm, hshift⟩⟩ hs
    | again last stack' =>
      simp only [hturn] at h
      obtain ⟨previous', rfl, rfl, rfl⟩ := h
      have hgo := hrest previous' run' hturn
      rw [bounded_congr hmax] at hgo
      exact .after hs hgo

theorem runTerminalAfter_eq (terminal : TerminalId) (terminalIndex terminalCount : ℕ)
    (last : PreviousReduction) (run : RunState) :
    runTerminalAfter lalr terminal terminalIndex terminalCount mode last run =
      match runTerminalTurn lalr terminal terminalIndex terminalCount mode (some last) run with
      | (.error error, run) => (.error error, run)
      | (.ok (.return result), run) => (.ok result, run)
      | (.ok (.again previous), run) =>
        runTerminalAfter lalr terminal terminalIndex terminalCount mode previous run := by
  rw [runTerminalAfter]
  split <;> simp only [*]

/-- **The loop of `run_terminal`** is the loop of the table. -/
theorem runTerminalAfter_settles {terminal : TerminalId} {terminalIndex terminalCount : ℕ}
    (hterminal : terminal < lalr.terminalCount) (last : PreviousReduction)
    (run : RunState) (hstack : lalr.ValidStack run.stack) :
    Settles run
      (Bounded run (· = .workLimitExceeded) (TerminalPost lalr mode terminalIndex terminalCount
        (lalr.table.loop terminal (some last.toReduction) run.stack)))
      (runTerminalAfter lalr terminal terminalIndex terminalCount mode last run) := by
  induction hbudget : progressBudget last.toReduction run.stack.length
    using Nat.strong_induction_on generalizing last run with
  | _ budget ih =>
    rw [runTerminalAfter_eq]
    refine runTerminalTurn_then mode (some last) hstack hterminal ?_
    intro previous' run' hagain
    exact ih _ (hbudget ▸ lalr.table.turn_again_budget hagain) previous' run'
      (hstack.again hagain) rfl

/-- **Reading one terminal.** -/
theorem runTerminal_settles {terminal : TerminalId} (terminalIndex terminalCount : ℕ)
    (hterminal : terminal < lalr.terminalCount) {run : RunState}
    (hstack : lalr.ValidStack run.stack) :
    Settles run
      (Bounded run (· = .workLimitExceeded) (TerminalPost lalr mode terminalIndex terminalCount
        (lalr.table.read terminal run.stack)))
      (runTerminal lalr run terminal terminalIndex terminalCount mode) := by
  unfold runTerminal
  refine runTerminalTurn_then mode none hstack hterminal ?_
  intro previous' run' hagain
  exact runTerminalAfter_settles mode hterminal previous' run' (hstack.again hagain)

/-- The reply of a run whose work limit ran out. -/
def RunStatus.Exceeded (status : RunStatus) : Prop :=
  ∃ required, status = .workLimitExceeded required

/-- The status that reading a terminal ends a run with, if it ends it. -/
def TerminalRun.status (used : ℕ) : TerminalRun → Option RunStatus
  | .complete decision => some (.complete decision used)
  | _ => none

variable (lalr) in
theorem terminalReply_ne (terminalIndex terminalCount : ℕ)
    (outcome : Outcome ParserStateId TerminalId ProductionId) :
    lalr.terminalReply mode terminalIndex terminalCount outcome ≠ .ok .workLimitExceeded := by
  cases outcome with
  | fault f =>
    intro h
    obtain ⟨_, -, h⟩ := map_eq_ok.mp h
    cases h
  | accepted =>
    unfold ValidatedLalr.terminalReply
    split_ifs <;> exact fun h => by cases h
  | shifted stack => exact fun h => by cases h
  | rejected => exact fun h => by cases h

/-- **The body of the loop of `run_initialized`**: a skipped terminal, or a
terminal that is read. -/
theorem runInitializedTurn_settles {terminal : TerminalId} (terminalIndex terminalCount : ℕ)
    (hterminal : terminal < lalr.terminalCount) {run : RunState}
    (hstack : lalr.ValidStack run.stack) :
    Settles run
      (Bounded run (fun status => ∃ s, status = some s ∧ s.Exceeded) fun reply run' =>
        if lalr.table.skips terminal then reply = .ok none ∧ run'.stack = run.stack
        else
          (∃ used, reply = (lalr.terminalReply mode terminalIndex terminalCount
            (lalr.table.read terminal run.stack)).map (TerminalRun.status used)) ∧
          ∀ stack', lalr.table.read terminal run.stack = .shifted stack' → run'.stack = stack')
      (runInitializedTurn lalr terminal terminalIndex terminalCount mode run) := by
  unfold runInitializedTurn
  refine charge_settles (fun _ => ⟨_, rfl, _, rfl⟩) ?_
  intro run₁ hkeep₁ hmax₁
  have hstack₁ : run₁.stack = run.stack := congrArg Workspace.stack hkeep₁
  obtain ⟨ignored, hignored⟩ := lalr.isIgnored_eq hterminal
  cases ignored with
  | true =>
    have hskip : lalr.table.skips terminal = true := by
      simp only [ValidatedLalr.table, hignored, decide_true]
    simp only [hignored, hskip, if_true]
    exact .here ⟨rfl, Or.inr ⟨rfl, hstack₁⟩⟩
  | false =>
    have hskip : lalr.table.skips terminal = false := by
      simp only [ValidatedLalr.table, hignored, Option.some.injEq, reduceCtorEq, decide_false]
    simp only [hignored, hskip, Bool.false_eq_true, if_false]
    have hone := runTerminal_settles mode terminalIndex terminalCount hterminal
      (hstack₁.symm ▸ hstack)
    rw [hstack₁] at hone
    generalize runTerminal lalr run₁ terminal terminalIndex terminalCount mode = out at hone
    cases hone with
    | refused hs he => exact .refused hs he
    | @done reply run' h hs =>
      obtain ⟨hmax, ⟨hlimit, rfl | ⟨_, rfl, rfl⟩⟩ | ⟨hreply, hshift⟩⟩ := h
      · exact .done ⟨hmax, Or.inl ⟨hlimit, Or.inl rfl⟩⟩ hs
      · exact .done ⟨hmax, Or.inl ⟨hlimit, Or.inr ⟨_, rfl, _, rfl, _, rfl⟩⟩⟩ hs
      · have hne := terminalReply_ne lalr mode terminalIndex terminalCount
          (lalr.table.read terminal run.stack)
        rw [← hreply] at hne ⊢
        rcases reply with e | result
        · exact .done ⟨hmax, Or.inr ⟨⟨0, rfl⟩, hshift⟩⟩ hs
        · cases result with
          | shifted => exact .done ⟨hmax, Or.inr ⟨⟨0, rfl⟩, hshift⟩⟩ hs
          | complete decision => exact .done ⟨hmax, Or.inr ⟨⟨_, rfl⟩, hshift⟩⟩ hs
          | workLimitExceeded => exact absurd rfl hne

/-- What a run over the rest of a slice leaves behind: its decision, and the
stack when it goes on. -/
def RunPost (lalr : ValidatedLalr) (mode : UnderflowMode) (terminalCount : ℕ)
    (verdict : Verdict ParserStateId TerminalId ProductionId)
    (reply : Except ParserError RunStatus) (workspace : Workspace) : Prop :=
  (∃ used, reply = (lalr.runReply mode terminalCount verdict).map (.complete · used)) ∧
    ∀ stack', verdict = .live stack' → workspace.stack = stack'

/-- What the loop over a slice replies to an accepting terminal, when `terminals` follow it. -/
theorem terminalReply_accepted_status (used : ℕ) {terminalIndex terminalCount : ℕ}
    {terminals : List TerminalId}
    (hindex : terminalIndex + (terminals.length + 1) = terminalCount) :
    (lalr.terminalReply mode terminalIndex terminalCount .accepted).map (TerminalRun.status used) =
      (lalr.runReply mode terminalCount (.accepted terminals)).map
        (fun decision => some (.complete decision used)) := by
  have hend : terminalIndex + 1 = terminalCount ↔ terminals = [] := by
    rw [← List.length_eq_zero_iff]
    omega
  simp only [ValidatedLalr.terminalReply, ValidatedLalr.runReply]
  by_cases hlast : terminals = []
  · rw [if_neg (not_not_intro (hend.mpr hlast)), if_pos hlast]
    rfl
  · have hhere : terminalCount - terminals.length - 1 = terminalIndex := by omega
    rw [if_pos (mt hend.mp hlast), if_neg hlast, hhere]
    rfl

theorem terminalReply_rejected_status (used terminalIndex terminalCount : ℕ) :
    (lalr.terminalReply mode terminalIndex terminalCount .rejected).map (TerminalRun.status used) =
      (lalr.runReply mode terminalCount .rejected).map
        (fun decision => some (.complete decision used)) := rfl

theorem terminalReply_fault_status (used terminalIndex terminalCount : ℕ)
    (f : Fault ParserStateId TerminalId ProductionId) :
    (lalr.terminalReply mode terminalIndex terminalCount (.fault f)).map (TerminalRun.status used) =
      (lalr.runReply mode terminalCount (.fault f)).map
        (fun decision => some (.complete decision used)) := by
  simp only [ValidatedLalr.terminalReply, ValidatedLalr.runReply]
  cases lalr.faultDecision mode f <;> rfl

/-- A terminal on which the run ends: its reply is the reply of the run. -/
theorem runInitializedFrom_ends {terminalCount terminalIndex used : ℕ}
    {terminals : List TerminalId} {run run' : RunState}
    {reply : Except ParserError (Option RunStatus)}
    {verdict : Verdict ParserStateId TerminalId ProductionId}
    (hs : Grants run.memory run'.memory) (hmax : run'.work.maximum = run.work.maximum)
    (hreply : reply = (lalr.runReply mode terminalCount verdict).map
      (fun decision => some (.complete decision used)))
    (hdead : ∀ stack', verdict ≠ .live stack') :
    Settles run
      (Bounded run RunStatus.Exceeded fun reply run' =>
        RunPost lalr mode terminalCount verdict reply run'.toWorkspace)
      (match (reply, run') with
        | (.error error, run) => (.error error, run)
        | (.ok (some status), run) => (.ok status, run)
        | (.ok none, run) =>
          runInitializedFrom lalr terminalCount mode (terminalIndex + 1) terminals run) := by
  subst hreply
  cases hdecision : lalr.runReply mode terminalCount verdict with
  | error e =>
    refine .done ⟨hmax, Or.inr ⟨⟨used, ?_⟩, fun stack' h => absurd h (hdead stack')⟩⟩ hs
    rw [hdecision]
    rfl
  | ok decision =>
    refine .done ⟨hmax, Or.inr ⟨⟨used, ?_⟩, fun stack' h => absurd h (hdead stack')⟩⟩ hs
    rw [hdecision]
    rfl

/-- **The loop of `run_initialized`** is a run of the table. -/
theorem runInitializedFrom_settles {terminalCount : ℕ} {terminals : List TerminalId}
    (hterminals : lalr.ValidTerminals terminals) {terminalIndex : ℕ}
    (hindex : terminalIndex + terminals.length = terminalCount) (run : RunState)
    (hstack : lalr.ValidStack run.stack) :
    Settles run
      (Bounded run RunStatus.Exceeded fun reply run' =>
        RunPost lalr mode terminalCount (lalr.table.parse run.stack terminals) reply
          run'.toWorkspace)
      (runInitializedFrom lalr terminalCount mode terminalIndex terminals run) := by
  induction terminals generalizing terminalIndex run with
  | nil =>
    refine .here ⟨rfl, Or.inr ⟨⟨_, rfl⟩, fun _ h => ?_⟩⟩
    cases h
    rfl
  | cons terminal terminals ih =>
    have hterminal := hterminals terminal List.mem_cons_self
    have hrest : lalr.ValidTerminals terminals :=
      fun t ht => hterminals t (List.mem_cons_of_mem _ ht)
    rw [List.length_cons] at hindex
    have hone := runInitializedTurn_settles mode terminalIndex terminalCount hterminal hstack
    rw [runInitializedFrom, Table.parse_cons]
    generalize runInitializedTurn lalr terminal terminalIndex terminalCount mode run = out at hone
    -- the rest of the slice, from the stack the terminal leaves
    have hgo : ∀ run', run'.work.maximum = run.work.maximum → lalr.ValidStack run'.stack →
        Settles run' (Bounded run RunStatus.Exceeded fun reply run'' =>
          RunPost lalr mode terminalCount (lalr.table.parse run'.stack terminals) reply
            run''.toWorkspace)
          (runInitializedFrom lalr terminalCount mode (terminalIndex + 1) terminals run') := by
      intro run' hmax hstack'
      rw [← bounded_congr hmax]
      exact ih hrest (by omega) run' hstack'
    cases hone with
    | refused hs he => exact .refused hs he
    | @done reply run' h hs =>
      obtain ⟨hmax, ⟨hlimit, rfl | ⟨_, rfl, _, rfl, hexceeded⟩⟩ | h⟩ := h
      · exact .done ⟨hmax, Or.inl ⟨hlimit, Or.inl rfl⟩⟩ hs
      · exact .done ⟨hmax, Or.inl ⟨hlimit, Or.inr ⟨_, rfl, hexceeded⟩⟩⟩ hs
      by_cases hskip : lalr.table.skips terminal = true
      · rw [if_pos hskip] at h ⊢
        obtain ⟨rfl, hsame⟩ := h
        rw [← hsame]
        exact .after hs (hgo run' hmax (hsame.symm ▸ hstack))
      · rw [if_neg hskip] at h ⊢
        obtain ⟨⟨used, hreply⟩, hshift⟩ := h
        cases hread : lalr.table.read terminal run.stack with
        | shifted stack' =>
          rw [hread] at hreply
          obtain rfl := hshift stack' hread
          cases hreply
          have hstack' : lalr.ValidStack run'.stack := by
            refine hstack.parse (?_ : lalr.table.parse run.stack [terminal] = _)
            rw [Table.parse_cons, if_neg hskip, hread]
            rfl
          exact .after hs (hgo run' hmax hstack')
        | rejected =>
          rw [hread, terminalReply_rejected_status] at hreply
          exact runInitializedFrom_ends mode hs hmax hreply (fun _ h => by cases h)
        | accepted =>
          rw [hread, terminalReply_accepted_status mode used hindex] at hreply
          exact runInitializedFrom_ends mode hs hmax hreply (fun _ h => by cases h)
        | fault f =>
          rw [hread, terminalReply_fault_status] at hreply
          exact runInitializedFrom_ends mode hs hmax hreply (fun _ h => by cases h)

/-- The post-condition of a whole run that may have a work limit. -/
def BoundedRun (lalr : ValidatedLalr) (mode : UnderflowMode) (maximumWork : Option ℕ)
    (stack : List ParserStateId) (terminals : List TerminalId)
    (reply : Except ParserError RunStatus) (workspace : Workspace) : Prop :=
  (maximumWork ≠ none ∧ (reply = .error .invariantViolation ∨
    ∃ status, reply = .ok status ∧ status.Exceeded)) ∨
  RunPost lalr mode terminals.length (lalr.table.parse stack terminals) reply workspace

/-- **A run in a stack that is already in place.** -/
theorem runInitialized_settles (stack : Workspace) {terminals : List TerminalId}
    (hstack : lalr.ValidStack stack.stack) (hterminals : lalr.ValidTerminals terminals)
    (work : RunWork) :
    Settles stack (BoundedRun lalr mode work.maximum stack.stack terminals)
      (runInitialized lalr stack terminals mode work) := by
  have hrun := runInitializedFrom_settles mode hterminals (Nat.zero_add _)
    { stack with work } hstack
  unfold runInitialized
  generalize runInitializedFrom lalr terminals.length mode 0 terminals { stack with work } = out
    at hrun
  cases hrun with
  | refused hs he => exact .refused hs he
  | done h hs => exact .done h.2 hs

/-- **A run in a buffer**, whatever the buffer held before. -/
theorem runValidatedInto_settles {stack : List ParserStateId} {terminals : List TerminalId}
    (hstack : lalr.ValidStack stack) (hterminals : lalr.ValidTerminals terminals)
    (maximumWork : Option ℕ) (destination : Workspace) :
    Settles destination (BoundedRun lalr mode maximumWork stack terminals)
      (runValidatedInto lalr stack terminals mode maximumWork destination) := by
  obtain ⟨old, memory⟩ := destination
  unfold runValidatedInto copyStackInto
  obtain ⟨work, rfl, h | ⟨hlimit, h | h⟩⟩ := RunWork.charge_cases ⟨0, maximumWork⟩ stack.length
  · rw [h]
    cases memory with
    | nil =>
      exact .after (t := ⟨stack, []⟩) (.refl [])
        (runInitialized_settles mode ⟨stack, []⟩ hstack hterminals _)
    | cons answer rest =>
      cases answer with
      | true =>
        exact .after (.head rest) (runInitialized_settles mode ⟨stack, rest⟩ hstack hterminals _)
      | false => exact .refused (.head rest) ⟨_, rfl⟩
  · rw [h]
    exact .here (Or.inl ⟨hlimit, Or.inr ⟨_, rfl, _, rfl⟩⟩)
  · rw [h]
    exact .here (Or.inl ⟨hlimit, Or.inl rfl⟩)

/-! ## Replies of the executor

The entry points, each as what it replies to the verdict of the table. -/

/-- What a concrete run leaves behind. -/
def ConcretePost (lalr : ValidatedLalr) (stack : List ParserStateId) (terminals : List TerminalId)
    (reply : Except ParserError RunDecision) (destination : Workspace) : Prop :=
  reply = lalr.runReply .error terminals.length (lalr.table.parse stack terminals) ∧
    ∀ stack', lalr.table.parse stack terminals = .live stack' → destination.stack = stack'

theorem unbounded_settles {workspace : Workspace} {stack : List ParserStateId}
    {terminals : List TerminalId} (out : Except ParserError RunStatus × Workspace) :
    Settles workspace (BoundedRun lalr mode none stack terminals) out →
    Settles workspace
      (fun reply destination =>
        reply = lalr.runReply mode terminals.length (lalr.table.parse stack terminals) ∧
        ∀ stack', lalr.table.parse stack terminals = .live stack' → destination.stack = stack')
      (match out with
        | (.error error, destination) => (.error error, destination)
        | (.ok status, destination) => (unboundedDecision status, destination)) := by
  intro h
  cases h with
  | refused hs he => exact .refused hs he
  | done h hs =>
    obtain ⟨hlimit, -⟩ | ⟨⟨used, rfl⟩, hlive⟩ := h
    · exact absurd rfl hlimit
    · cases lalr.runReply mode terminals.length (lalr.table.parse stack terminals) with
      | error e => exact .done ⟨rfl, hlive⟩ hs
      | ok decision => exact .done ⟨rfl, hlive⟩ hs

/-- **A concrete run into a buffer**, whatever the buffer held before. -/
theorem executeTerminalsConcreteInto_settles {stack : List ParserStateId}
    {terminals : List TerminalId} (hstack : lalr.ValidStack stack)
    (hterminals : lalr.ValidTerminals terminals) (destination : Workspace) :
    Settles destination (ConcretePost lalr stack terminals)
      (executeTerminalsConcreteInto lalr stack terminals destination) :=
  unbounded_settles .error _ (runValidatedInto_settles .error hstack hterminals none destination)

/-- **A concrete run in place.** -/
theorem executeTerminalsConcreteInPlace_settles (stack : Workspace)
    {terminals : List TerminalId} (hstack : lalr.ValidStack stack.stack)
    (hterminals : lalr.ValidTerminals terminals) :
    Settles stack (ConcretePost lalr stack.stack terminals)
      (executeTerminalsConcreteInPlace lalr stack terminals) :=
  unbounded_settles .error _ (runInitialized_settles .error stack hstack hterminals ⟨0, none⟩)

theorem validateInputs_ok {stack : List ParserStateId} {terminals : List TerminalId}
    (hstack : lalr.ValidStack stack) (hterminals : lalr.ValidTerminals terminals) :
    validateInputs lalr stack terminals = .ok () := by
  have hstates : stack.find? (fun state => state ≥ lalr.stateCount) = none := by
    rw [List.find?_eq_none]
    intro state hmem
    have hlt := hstack.2 state hmem
    simpa using hlt
  have hids : terminals.find? (fun terminal => terminal ≥ lalr.terminalCount) = none := by
    rw [List.find?_eq_none]
    intro terminal hmem
    have hlt := hterminals terminal hmem
    simpa using hlt
  have hempty : stack.isEmpty = false := List.isEmpty_eq_false_iff.mpr hstack.1
  simp only [validateInputs, hempty, hstates, hids, Bool.false_eq_true, if_false]

/-- The reply of `execute_terminals` to a verdict. -/
def ValidatedLalr.execution (lalr : ValidatedLalr) (terminalCount : ℕ)
    (verdict : Verdict ParserStateId TerminalId ProductionId) :
    Except ParserError (Option ParserExecution) :=
  match verdict with
  | .live stack => .ok (some (.continue stack))
  | .rejected => .ok none
  | .accepted rest =>
    if rest = [] then .ok (some .accepted)
    else .error (.acceptBeforeEnd (terminalCount - rest.length - 1))
  | .fault f => .error (lalr.faultError f)

/-- **`execute_terminals` is a run of the table.** -/
theorem executeTerminals_eq {grammar : ValidatedGrammar} {stack : List ParserStateId}
    {terminals : List TerminalId} (hstack : grammar.lalr.ValidStack stack)
    (hterminals : grammar.lalr.ValidTerminals terminals) :
    (executeTerminals grammar stack terminals .granting).1 =
      grammar.lalr.execution terminals.length (grammar.lalr.table.parse stack terminals) := by
  have hrun := executeTerminalsConcreteInto_settles hstack hterminals ⟨[], .granting⟩
  unfold executeTerminals
  simp only [validateInputs_ok hstack hterminals]
  generalize executeTerminalsConcreteInto grammar.lalr stack terminals ⟨[], .granting⟩ = out
    at hrun
  cases hrun with
  | refused hs he => exact absurd rfl hs.ne_granting
  | done h hs =>
    obtain ⟨rfl, hlive⟩ := h
    cases hparse : grammar.lalr.table.parse stack terminals with
    | live stack' =>
      rw [← hlive stack' hparse]
      rfl
    | rejected => rfl
    | accepted rest =>
      simp only [ValidatedLalr.runReply, ValidatedLalr.execution]
      by_cases hrest : rest = []
      · simp only [hrest, if_true]
      · simp only [hrest, if_false]
    | fault f => rfl

theorem symbolicCheckedWithLimit_complete {stack : List ParserStateId}
    {terminals : List TerminalId} {maximumWork used : ℕ} {decision : RunDecision}
    (hstack : lalr.ValidStack stack) (hterminals : lalr.ValidTerminals terminals)
    (h : (executeTerminalsSymbolicCheckedWithLimit lalr stack terminals maximumWork .granting).1 =
      .ok (.complete decision used)) :
    lalr.runReply .dependent terminals.length (lalr.table.parse stack terminals) =
      .ok decision := by
  have hrun := runValidatedInto_settles .dependent hstack hterminals (some maximumWork)
    ⟨[], .granting⟩
  unfold executeTerminalsSymbolicCheckedWithLimit at h
  obtain ⟨⟨-, hlimit | ⟨_, hlimit, _, rfl⟩⟩ | ⟨⟨used', hreply⟩, -⟩, -⟩ := hrun.of_granting rfl
  · exact absurd (h.symm.trans hlimit) (fun h => by cases h)
  · exact absurd (h.symm.trans hlimit) (fun h => by cases h)
  · obtain ⟨decision', hdecision, heq⟩ := map_eq_ok.mp (hreply.symm.trans h)
    cases heq
    exact hdecision

/-- **A symbolic run.** -/
theorem executeTerminalsSymbolic_eq {stack : List ParserStateId} {terminals : List TerminalId}
    (hstack : lalr.ValidStack stack) (hterminals : lalr.ValidTerminals terminals) :
    (executeTerminalsSymbolic lalr stack terminals .granting).1 =
      lalr.runReply .dependent terminals.length (lalr.table.parse stack terminals) := by
  have hrun := unbounded_settles .dependent _
    (runValidatedInto_settles .dependent hstack hterminals none ⟨[], .granting⟩)
  unfold executeTerminalsSymbolic
  simp only [validateInputs_ok hstack hterminals]
  generalize runValidatedInto lalr stack terminals .dependent none ⟨[], .granting⟩ = out at hrun
  obtain ⟨⟨hreply, -⟩, -⟩ := hrun.of_granting rfl
  obtain ⟨reply, destination⟩ := out
  cases reply <;> exact hreply
end
end GreatGramma
