import GreatGramma.Core.Preprocess
import GreatGramma.Parser.Automaton

/-!
# The work of a symbolic run

A run under a maximum counts its work and stops when the count passes the maximum.  The maximum
decides nothing else: at every maximum that covers the work the run goes the same way, and at a
smaller one it stops, with a count that is over the maximum and no more than that work.  So the
remaining budget may be handed to a run, and the count it returns charged to the budget.

## How it is proved

The statement is about a run at *all* maxima at once, so it is not an invariant of one run.
`Counted` says it of a part of a run, with the count at its start for a parameter: at every
maximum that covers this count, the part ends with the same count and the same reply, or it stops
on the way with a count between the maximum and that one.  Parts compose (`call`, `charge`), and
there is one lemma for each function of the executor, in the order in which they call one another:
the turn of the loop over the reductions, the loop, one terminal, the slice.  None of them unfolds
the function that it calls.

What the callers use is the structure at the end: a symbolic run has a work, and it is answered
by it at every maximum (`executeTerminalsSymbolicCheckedWithLimit_work`).
-/

namespace GreatGramma

open Reservation ShiftReduce

/-- A part of a run, at every maximum from `start` on, where `start` is counted already:
its work is the count it ends with, unless it stops before. -/
def Counted {α : Type} (exceeded : ℕ → α) (start : ℕ)
    (f : ℕ → Except ParserError α × RunState) : Prop :=
  ∃ used reply workspace, start ≤ used ∧ (∀ required, reply ≠ .ok (exceeded required)) ∧
    ∀ maximum, start ≤ maximum →
      (used ≤ maximum → f maximum = (reply, ⟨workspace, ⟨used, some maximum⟩⟩)) ∧
      (maximum < used → ∃ required workspace', maximum < required ∧ required ≤ used ∧
        f maximum = (.ok (exceeded required), ⟨workspace', ⟨required, some maximum⟩⟩))

namespace Counted

variable {α β : Type} {exceeded : ℕ → α} {exceeded' : ℕ → β} {start : ℕ}
  {f : ℕ → Except ParserError α × RunState} {g : ℕ → Except ParserError β × RunState}

theorem done (reply : Except ParserError α) (workspace : Workspace)
    (hreply : ∀ required, reply ≠ .ok (exceeded required))
    (h : ∀ maximum, start ≤ maximum → f maximum = (reply, ⟨workspace, ⟨start, some maximum⟩⟩)) :
    Counted exceeded start f := by
  refine ⟨start, reply, workspace, le_rfl, hreply, fun maximum hle => ⟨fun _ => h maximum hle, ?_⟩⟩
  exact fun hlt => absurd hle (Nat.not_le.mpr hlt)

theorem failed (e : ParserError) (workspace : Workspace)
    (h : ∀ maximum, start ≤ maximum → f maximum = (.error e, ⟨workspace, ⟨start, some maximum⟩⟩)) :
    Counted exceeded start f :=
  done (.error e) workspace (fun _ hreply => by cases hreply) h

theorem congr {f' : ℕ → Except ParserError α × RunState} (h : Counted exceeded start f)
    (hf : ∀ maximum, start ≤ maximum → f' maximum = f maximum) : Counted exceeded start f' := by
  obtain ⟨used, reply, workspace, hused, hreply, hrun⟩ := h
  refine ⟨used, reply, workspace, hused, hreply, fun maximum hle => ?_⟩
  rw [hf maximum hle]
  exact hrun maximum hle

/-- **A part of the run that comes first.** -/
theorem call (hg : Counted exceeded' start g)
    (hshort : ∀ maximum required workspace, start ≤ maximum →
      g maximum = (.ok (exceeded' required), ⟨workspace, ⟨required, some maximum⟩⟩) →
        f maximum = (.ok (exceeded required), ⟨workspace, ⟨required, some maximum⟩⟩))
    (hnext : ∀ reply workspace used, start ≤ used → (∀ required, reply ≠ .ok (exceeded' required)) →
      (∀ maximum, used ≤ maximum → g maximum = (reply, ⟨workspace, ⟨used, some maximum⟩⟩)) →
        Counted exceeded used f) : Counted exceeded start f := by
  obtain ⟨used, reply, workspace, hused, hreply, hrun⟩ := hg
  obtain ⟨used', reply', workspace', hused', hreply', hrun'⟩ :=
    hnext reply workspace used hused hreply
      fun maximum hle => (hrun maximum (hused.trans hle)).1 hle
  refine ⟨used', reply', workspace', hused.trans hused', hreply', fun maximum hstart => ?_⟩
  by_cases hfirst : used ≤ maximum
  · exact hrun' maximum hfirst
  · refine ⟨fun hle => absurd (hused'.trans hle) hfirst, fun _ => ?_⟩
    obtain ⟨required, stopped, hlt, hle, hg⟩ := (hrun maximum hstart).2 (Nat.not_le.mp hfirst)
    exact ⟨required, stopped, hlt, hle.trans hused', hshort maximum required stopped hstart hg⟩

/-- **A charge that comes first.**  `f` reports a failure of the charge, and that it
passes the maximum; otherwise the run goes on from the new count. -/
theorem charge (workspace : Workspace) (amount : ℕ)
    (hfail : ∀ maximum e, start ≤ maximum →
      RunState.charge ⟨workspace, ⟨start, some maximum⟩⟩ amount =
        (.error e, ⟨workspace, ⟨start, some maximum⟩⟩) →
      f maximum = (.error e, ⟨workspace, ⟨start, some maximum⟩⟩))
    (hshort : ∀ maximum, start ≤ maximum →
      RunState.charge ⟨workspace, ⟨start, some maximum⟩⟩ amount =
        (.ok false, ⟨workspace, ⟨start + amount, some maximum⟩⟩) →
      f maximum =
        (.ok (exceeded (start + amount)), ⟨workspace, ⟨start + amount, some maximum⟩⟩))
    (hnext : (∀ maximum, start + amount ≤ maximum →
      RunState.charge ⟨workspace, ⟨start, some maximum⟩⟩ amount =
        (.ok true, ⟨workspace, ⟨start + amount, some maximum⟩⟩)) →
      Counted exceeded (start + amount) f) : Counted exceeded start f := by
  by_cases hfits : start + amount ≤ usizeMax
  · have hcharge : ∀ maximum, RunState.charge ⟨workspace, ⟨start, some maximum⟩⟩ amount =
        (.ok (decide (start + amount ≤ maximum)),
          ⟨workspace, ⟨start + amount, some maximum⟩⟩) := by
      intro maximum
      simp only [RunState.charge, RunWork.charge, checkedAdd, if_pos hfits]
    obtain ⟨used, reply, stopped, hused, hreply, hrun⟩ := hnext fun maximum hle => by
      rw [hcharge, decide_eq_true hle]
    refine ⟨used, reply, stopped, (Nat.le_add_right start amount).trans hused, hreply,
      fun maximum hstart => ?_⟩
    by_cases hle : start + amount ≤ maximum
    · exact hrun maximum hle
    · refine ⟨fun hcovers => absurd (hused.trans hcovers) hle, fun _ => ?_⟩
      refine ⟨start + amount, workspace, Nat.not_le.mp hle, hused, hshort maximum hstart ?_⟩
      rw [hcharge, decide_eq_false hle]
  · refine failed .invariantViolation workspace fun maximum hle => hfail maximum _ hle ?_
    simp only [RunState.charge, RunWork.charge, checkedAdd, if_neg hfits]

end Counted

section
variable (parserTable : ValidatedLalr)

theorem counted_parserPush {α : Type} {exceeded : ℕ → α} {start : ℕ}
    {f : ℕ → Except ParserError α × RunState} (workspace : Workspace) (state : ParserStateId)
    (next : α) (hnext : ∀ required, next ≠ exceeded required)
    (hfail : ∀ maximum e run, start ≤ maximum →
      parserPush ⟨workspace, ⟨start, some maximum⟩⟩ state = (.error e, run) →
        f maximum = (.error e, run))
    (hok : ∀ maximum run, start ≤ maximum →
      parserPush ⟨workspace, ⟨start, some maximum⟩⟩ state = (.ok (), run) →
        f maximum = (.ok next, run)) : Counted exceeded start f := by
  rcases hreserve : workspace.memory.reserve with ⟨granted, memory⟩
  cases granted with
  | false =>
    refine .failed (.allocationFailure (workspace.stack.length + 1)) ⟨workspace.stack, memory⟩
      fun maximum hle => hfail maximum _ _ hle ?_
    simp only [parserPush, hreserve]
  | true =>
    refine .done (.ok next) ⟨workspace.stack ++ [state], memory⟩ ?_
      fun maximum hle => hok maximum _ hle ?_
    · exact fun required h => hnext required (Except.ok.inj h)
    · simp only [parserPush, hreserve]

theorem counted_applyReduction (workspace : Workspace) (start : ℕ) (p : ProductionId)
    (mode : UnderflowMode) :
    Counted (fun _ => .workLimitExceeded) start fun maximum =>
      applyReduction parserTable ⟨workspace, ⟨start, some maximum⟩⟩ p mode := by
  refine .charge workspace 1 (fun maximum e _ h => by simp only [applyReduction, h])
    (fun maximum _ h => by simp only [applyReduction, h]) fun hfirst => ?_
  rcases hproduction : parserTable.production p with _ | production
  · refine .failed .invariantViolation workspace fun maximum hle => ?_
    simp only [applyReduction, hfirst maximum hle, hproduction]
  by_cases hpop : production.popLen ≥ workspace.stack.length
  · cases mode with
    | error =>
      refine .failed (.stackUnderflow p production.popLen workspace.stack.length) workspace
        fun maximum hle => ?_
      simp only [applyReduction, hfirst maximum hle, hproduction, if_pos hpop]
    | dependent =>
      refine .done (.ok .dependent) workspace (fun _ h => by cases h) fun maximum hle => ?_
      simp only [applyReduction, hfirst maximum hle, hproduction, if_pos hpop]
  rcases hsource : workspace.stack[workspace.stack.length - production.popLen - 1]? with _ | source
  · refine .failed .invariantViolation workspace fun maximum hle => ?_
    simp only [applyReduction, hfirst maximum hle, hproduction, if_neg hpop, hsource]
  refine .charge workspace 1
    (fun maximum e hle h => by
      simp only [applyReduction, hfirst maximum hle, hproduction, if_neg hpop, hsource, h])
    (fun maximum hle h => by
      simp only [applyReduction, hfirst maximum hle, hproduction, if_neg hpop, hsource, h])
    fun hsecond => ?_
  -- what is covered now was covered before
  have hfirst : ∀ maximum, start + 1 + 1 ≤ maximum → _ :=
    fun maximum hle => hfirst maximum (Nat.le_of_succ_le hle)
  rcases hgoto : parserTable.goto source production.lhs with _ | _ | destination
  · refine .failed .invariantViolation workspace fun maximum hle => ?_
    simp only [applyReduction, hfirst maximum hle, hproduction, if_neg hpop, hsource,
      hsecond maximum hle, hgoto]
  · refine .failed (.missingGoto source production.lhs p) workspace fun maximum hle => ?_
    simp only [applyReduction, hfirst maximum hle, hproduction, if_neg hpop, hsource,
      hsecond maximum hle, hgoto]
  refine .charge workspace 1
    (fun maximum e hle h => by
      simp only [applyReduction, hfirst maximum hle, hproduction, if_neg hpop, hsource,
        hsecond maximum hle, hgoto, h])
    (fun maximum hle h => by
      simp only [applyReduction, hfirst maximum hle, hproduction, if_neg hpop, hsource,
        hsecond maximum hle, hgoto, h])
    fun hthird => ?_
  have hfirst : ∀ maximum, start + 1 + 1 + 1 ≤ maximum → _ :=
    fun maximum hle => hfirst maximum (Nat.le_of_succ_le hle)
  have hsecond : ∀ maximum, start + 1 + 1 + 1 ≤ maximum → _ :=
    fun maximum hle => hsecond maximum (Nat.le_of_succ_le hle)
  refine counted_parserPush
    ⟨workspace.stack.take (workspace.stack.length - production.popLen), workspace.memory⟩
    destination (.applied production.popLen) (fun _ h => by cases h)
    (fun maximum e run hle h => ?_) (fun maximum run hle h => ?_)
  · simp only [applyReduction, hfirst maximum hle, hproduction, if_neg hpop, hsource,
      hsecond maximum hle, hgoto, hthird maximum hle, h]
  · simp only [applyReduction, hfirst maximum hle, hproduction, if_neg hpop, hsource,
      hsecond maximum hle, hgoto, hthird maximum hle, h]

theorem counted_runTerminalTurn (workspace : Workspace) (start : ℕ) (terminal : TerminalId)
    (index count : ℕ) (mode : UnderflowMode) (previous : Option PreviousReduction) :
    Counted (fun _ => .return .workLimitExceeded) start fun maximum =>
      runTerminalTurn parserTable terminal index count mode previous
        ⟨workspace, ⟨start, some maximum⟩⟩ := by
  rcases htop : stackTop workspace.stack with e | state
  · exact .failed e workspace fun maximum _ => by simp only [runTerminalTurn, htop]
  refine .charge workspace 1 (fun maximum e _ h => by simp only [runTerminalTurn, htop, h])
    (fun maximum _ h => by simp only [runTerminalTurn, htop, h]) fun hfirst => ?_
  rcases haction : parserTable.action state terminal with _ | action
  · refine .failed .invariantViolation workspace fun maximum hle => ?_
    simp only [runTerminalTurn, htop, hfirst maximum hle, haction]
  cases action with
  | error =>
    refine .done (.ok (.return (.complete .rejected))) workspace (fun _ h => by cases h)
      fun maximum hle => ?_
    simp only [runTerminalTurn, htop, hfirst maximum hle, haction]
  | shift destination =>
    refine .charge workspace 1
      (fun maximum e hle h => by simp only [runTerminalTurn, htop, hfirst maximum hle, haction, h])
      (fun maximum hle h => by simp only [runTerminalTurn, htop, hfirst maximum hle, haction, h])
      fun hsecond => ?_
    have hfirst : ∀ maximum, start + 1 + 1 ≤ maximum → _ :=
      fun maximum hle => hfirst maximum (Nat.le_of_succ_le hle)
    refine counted_parserPush workspace destination (.return .shifted) (fun _ h => by cases h)
      (fun maximum e run hle h => ?_) (fun maximum run hle h => ?_)
    · simp only [runTerminalTurn, htop, hfirst maximum hle, haction, hsecond maximum hle, h]
    · simp only [runTerminalTurn, htop, hfirst maximum hle, haction, hsecond maximum hle, h]
  | accept =>
    by_cases hlast : index + 1 ≠ count
    · refine .failed (.acceptBeforeEnd index) workspace fun maximum hle => ?_
      simp only [runTerminalTurn, htop, hfirst maximum hle, haction, if_pos hlast]
    · refine .done (.ok (.return (.complete .accepted))) workspace (fun _ h => by cases h)
        fun maximum hle => ?_
      simp only [runTerminalTurn, htop, hfirst maximum hle, haction, if_neg hlast]
  | reduce p rank =>
    rcases hprogress : checkReductionProgress previous rank state terminal with e | _
    · refine .failed e workspace fun maximum hle => ?_
      simp only [runTerminalTurn, htop, hfirst maximum hle, haction, hprogress]
    refine .call (counted_applyReduction parserTable workspace (start + 1) p mode)
      (fun maximum required workspace' hle h => by
        simp only [runTerminalTurn, htop, hfirst maximum hle, haction, hprogress, h])
      fun reply workspace' used hused hreply hrun => ?_
    have hfirst : ∀ maximum, used ≤ maximum → _ :=
      fun maximum hle => hfirst maximum (hused.trans hle)
    rcases reply with e | popLen | _ | _
    · refine .failed e workspace' fun maximum hle => ?_
      simp only [runTerminalTurn, htop, hfirst maximum hle, haction, hprogress, hrun maximum hle]
    · refine .done (.ok (.again ⟨rank, popLen⟩)) workspace' (fun _ h => by cases h)
        fun maximum hle => ?_
      simp only [runTerminalTurn, htop, hfirst maximum hle, haction, hprogress, hrun maximum hle]
    · refine .done (.ok (.return (.complete .dependent))) workspace' (fun _ h => by cases h)
        fun maximum hle => ?_
      simp only [runTerminalTurn, htop, hfirst maximum hle, haction, hprogress, hrun maximum hle]
    · exact absurd rfl (hreply 0)

/-- **The loop over the reductions**, by what it still may do. -/
theorem counted_runTerminalAfter (workspace : Workspace) (start : ℕ) (terminal : TerminalId)
    (index count : ℕ) (mode : UnderflowMode) (last : PreviousReduction) :
    Counted (fun _ => .workLimitExceeded) start fun maximum =>
      runTerminalAfter parserTable terminal index count mode last
        ⟨workspace, ⟨start, some maximum⟩⟩ := by
  generalize hbudget : progressBudget last.toReduction workspace.stack.length = budget
  induction budget using Nat.strong_induction_on generalizing workspace start last with
  | _ budget ih =>
    subst hbudget
    refine .call (counted_runTerminalTurn parserTable workspace start terminal index count mode
      (some last)) (fun maximum required workspace' hle h => by rw [runTerminalAfter_eq, h])
      fun reply workspace' used hused hreply hrun => ?_
    rcases reply with e | result | previous
    · refine .failed e workspace' fun maximum hle => ?_
      rw [runTerminalAfter_eq, hrun maximum hle]
    · refine .done (.ok result) workspace' (fun required h => hreply required ?_)
        fun maximum hle => ?_
      · rw [Except.ok.inj h]
      · rw [runTerminalAfter_eq, hrun maximum hle]
    · have hless := runTerminalTurn_budget (hrun used le_rfl)
      refine (ih _ hless workspace' used previous rfl).congr fun maximum hle => ?_
      rw [runTerminalAfter_eq, hrun maximum hle]

theorem counted_runTerminal (workspace : Workspace) (start : ℕ) (terminal : TerminalId)
    (index count : ℕ) (mode : UnderflowMode) :
    Counted (fun _ => .workLimitExceeded) start fun maximum =>
      runTerminal parserTable ⟨workspace, ⟨start, some maximum⟩⟩ terminal index count mode := by
  refine .call (counted_runTerminalTurn parserTable workspace start terminal index count mode none)
    (fun maximum required workspace' hle h => by rw [runTerminal, h])
    fun reply workspace' used hused hreply hrun => ?_
  rcases reply with e | result | previous
  · refine .failed e workspace' fun maximum hle => ?_
    rw [runTerminal, hrun maximum hle]
  · refine .done (.ok result) workspace' (fun required h => hreply required ?_)
      fun maximum hle => ?_
    · rw [Except.ok.inj h]
    · rw [runTerminal, hrun maximum hle]
  · refine (counted_runTerminalAfter parserTable workspace' used terminal index count mode
      previous).congr fun maximum hle => ?_
    rw [runTerminal, hrun maximum hle]

theorem counted_runInitializedTurn (workspace : Workspace) (start : ℕ) (terminal : TerminalId)
    (index count : ℕ) (mode : UnderflowMode) :
    Counted (fun required => some (.workLimitExceeded required)) start fun maximum =>
      runInitializedTurn parserTable terminal index count mode
        ⟨workspace, ⟨start, some maximum⟩⟩ := by
  refine .charge workspace 1 (fun maximum e _ h => by simp only [runInitializedTurn, h])
    (fun maximum _ h => by simp only [runInitializedTurn, h, RunWork.exceeded]) fun hfirst => ?_
  rcases hignored : parserTable.isIgnored terminal with _ | _ | _
  · refine .failed .invariantViolation workspace fun maximum hle => ?_
    simp only [runInitializedTurn, hfirst maximum hle, hignored]
  · refine .call (counted_runTerminal parserTable workspace (start + 1) terminal index count mode)
      (fun maximum required workspace' hle h => by
        simp only [runInitializedTurn, hfirst maximum hle, hignored, h, RunWork.exceeded])
      fun reply workspace' used hused hreply hrun => ?_
    have hfirst : ∀ maximum, used ≤ maximum → _ :=
      fun maximum hle => hfirst maximum (hused.trans hle)
    rcases reply with e | _ | decision | _
    · refine .failed e workspace' fun maximum hle => ?_
      simp only [runInitializedTurn, hfirst maximum hle, hignored, hrun maximum hle]
    · refine .done (.ok none) workspace' (fun _ h => by cases h) fun maximum hle => ?_
      simp only [runInitializedTurn, hfirst maximum hle, hignored, hrun maximum hle]
    · refine .done (.ok (some (.complete decision used))) workspace' (fun _ h => by cases h)
        fun maximum hle => ?_
      simp only [runInitializedTurn, hfirst maximum hle, hignored, hrun maximum hle,
        RunWork.complete]
    · exact absurd rfl (hreply 0)
  · refine .done (.ok none) workspace (fun _ h => by cases h) fun maximum hle => ?_
    simp only [runInitializedTurn, hfirst maximum hle, hignored]

theorem counted_runInitializedFrom (count : ℕ) (mode : UnderflowMode) (index : ℕ)
    (terminals : List TerminalId) (workspace : Workspace) (start : ℕ) :
    Counted (fun required => .workLimitExceeded required) start fun maximum =>
      runInitializedFrom parserTable count mode index terminals
        ⟨workspace, ⟨start, some maximum⟩⟩ := by
  induction terminals generalizing index workspace start with
  | nil =>
    exact .done (.ok (.complete .continue start)) workspace (fun _ h => by cases h) fun _ _ => rfl
  | cons terminal terminals ih =>
    refine .call (counted_runInitializedTurn parserTable workspace start terminal index count mode)
      (fun maximum required workspace' hle h => by rw [runInitializedFrom, h])
      fun reply workspace' used hused hreply hrun => ?_
    rcases reply with e | _ | status
    · refine .failed e workspace' fun maximum hle => ?_
      rw [runInitializedFrom, hrun maximum hle]
    · refine (ih (index + 1) workspace' used).congr fun maximum hle => ?_
      rw [runInitializedFrom, hrun maximum hle]
    · refine .done (.ok status) workspace' (fun required h => hreply required ?_)
        fun maximum hle => ?_
      · rw [Except.ok.inj h]
      · rw [runInitializedFrom, hrun maximum hle]

/-- A run that is complete reports its own count. -/
theorem runInitializedFrom_complete {count index work : ℕ} {mode : UnderflowMode}
    {terminals : List TerminalId} {run run' : RunState} {decision : RunDecision}
    (h : runInitializedFrom parserTable count mode index terminals run =
      (.ok (.complete decision work), run')) : work = run'.work.used := by
  induction terminals generalizing index run with
  | nil =>
    obtain ⟨hreply, rfl⟩ := Prod.mk.inj h
    obtain ⟨-, rfl⟩ := RunStatus.complete.inj (Except.ok.inj hreply)
    rfl
  | cons terminal terminals ih =>
    rw [runInitializedFrom] at h
    split at h
    · cases h
    · rename_i status run₁ hturn
      obtain ⟨hreply, rfl⟩ := Prod.mk.inj h
      obtain rfl := Except.ok.inj hreply
      unfold runInitializedTurn at hturn
      split at hturn <;> try cases hturn
      split at hturn <;> try cases hturn
      split at hturn <;> cases hturn
      rfl
    · exact ih h

/-- What a symbolic run answers at every maximum: it has a work, and a maximum that
misses it is answered with a count between the two. -/
structure SymbolicWork (execute : ℕ → Except ParserError RunStatus) (used : ℕ)
    (reply : Except ParserError RunStatus) : Prop where
  covered : ∀ maximum, used ≤ maximum → execute maximum = reply
  stopped : ∀ maximum, maximum < used → ∃ required, maximum < required ∧ required ≤ used ∧
    execute maximum = .ok (.workLimitExceeded required)
  counted : ∀ decision work, reply = .ok (.complete decision work) → work = used
  complete : ∀ required, reply ≠ .ok (.workLimitExceeded required)

/-- **A symbolic run** has a work of its own. -/
theorem executeTerminalsSymbolicCheckedWithLimit_work (stack : List ParserStateId)
    (terminals : List TerminalId) (memory : Memory) :
    ∃ used reply, SymbolicWork (fun maximum =>
      (executeTerminalsSymbolicCheckedWithLimit parserTable stack terminals maximum memory).1)
      used reply := by
  by_cases hfits : stack.length ≤ usizeMax
  · have hcharge : ∀ maximum, RunWork.charge ⟨0, some maximum⟩ stack.length =
        (.ok (decide (stack.length ≤ maximum)), ⟨stack.length, some maximum⟩) := by
      intro maximum
      simp only [RunWork.charge, checkedAdd, Nat.zero_add, if_pos hfits]
    have hstopped : ∀ maximum, ¬stack.length ≤ maximum →
        (executeTerminalsSymbolicCheckedWithLimit parserTable stack terminals maximum memory).1 =
          .ok (.workLimitExceeded stack.length) := by
      intro maximum hle
      simp only [executeTerminalsSymbolicCheckedWithLimit, runValidatedInto, hcharge,
        decide_eq_false hle, RunWork.exceeded]
    rcases hcopy : copyStackInto stack ⟨[], memory⟩ with ⟨e | _, destination⟩
    · refine ⟨stack.length, .error e, ⟨fun maximum hle => ?_, fun maximum hlt => ?_,
        fun _ _ h => (by cases h), fun _ h => (by cases h)⟩⟩
      · simp only [executeTerminalsSymbolicCheckedWithLimit, runValidatedInto, hcharge,
          decide_eq_true hle, hcopy]
      · exact ⟨stack.length, hlt, le_rfl, hstopped maximum (Nat.not_le.mpr hlt)⟩
    · obtain ⟨used, reply, workspace, hused, hreply, hrun⟩ := counted_runInitializedFrom
        parserTable terminals.length .dependent 0 terminals destination stack.length
      have hexecute : ∀ maximum, stack.length ≤ maximum →
          (executeTerminalsSymbolicCheckedWithLimit parserTable stack terminals maximum memory).1 =
            (runInitializedFrom parserTable terminals.length .dependent 0 terminals
              ⟨destination, ⟨stack.length, some maximum⟩⟩).1 := by
        intro maximum hle
        simp only [executeTerminalsSymbolicCheckedWithLimit, runValidatedInto, hcharge,
          decide_eq_true hle, hcopy, runInitialized]
      refine ⟨used, reply, ⟨fun maximum hle => ?_, fun maximum hlt => ?_, fun decision work h => ?_,
        hreply⟩⟩
      · have hcovers := hused.trans hle
        exact (hexecute maximum hcovers).trans (congrArg Prod.fst ((hrun maximum hcovers).1 hle))
      · by_cases hle : stack.length ≤ maximum
        · obtain ⟨required, stopped, hpast, hwithin, hreply⟩ := (hrun maximum hle).2 hlt
          refine ⟨required, hpast, hwithin, ?_⟩
          exact (hexecute maximum hle).trans (congrArg Prod.fst hreply)
        · exact ⟨stack.length, Nat.not_le.mp hle, hused, hstopped maximum hle⟩
      · subst h
        exact runInitializedFrom_complete parserTable ((hrun used hused).1 le_rfl)
  · refine ⟨0, .error .invariantViolation, ⟨fun maximum _ => ?_, fun maximum hlt => ?_,
      fun _ _ h => (by cases h), fun _ h => (by cases h)⟩⟩
    · simp only [executeTerminalsSymbolicCheckedWithLimit, runValidatedInto, RunWork.charge,
        checkedAdd, Nat.zero_add, if_neg hfits]
    · exact absurd hlt (Nat.not_lt_zero maximum)

end

end GreatGramma
