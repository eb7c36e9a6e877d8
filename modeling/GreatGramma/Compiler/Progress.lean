import GreatGramma.Compiler.Cells
import GreatGramma.Engine.Heads

/-!
# Compiled ranks and the progress check

The compiler ranks reduce cells on a graph; the runtime compares two consecutive reductions on a
stack.  The two agree: whatever a reduction uncovers, the cell met next is one that the graph leads
to, and an edge of the graph asks of the ranks what the runtime's check asks of the reductions.

## Why the graph is large enough

A reduction pops some states, uncovers one, and pushes the goto of it.  The next reduction of the
same terminal is by the cell of the state that was pushed.  The stack may be any stack of states,
so the state that is uncovered may be any; the graph has an edge for each that has a goto
(`Compiler.Cells`).  If nothing is popped, the state uncovered is the one on top, and the graph
knows this too.

## What is concluded

A table whose reductions are ranked so is one that the progress check never stops
(`Lowered.ranked`, and the library's theory of ranked tables).  The theorem speaks of the executor,
in both modes, with or without a work limit, and whatever the allocator does
(`compiled_ranks_progress`): a limit or the allocator may stop a run, and the check does not.
-/

namespace GreatGramma

open ShiftReduce Traversal

/-- A parser table put together as `lower_lalr` does: the ranks are stored in the reduce
cells, and the rest is as it was when the ranks were computed. -/
structure Lowered (tables : RankTables) (ranks : List (Option UInt32)) (lalr : ValidatedLalr) :
    Prop where
  actions : storeRanks tables.actions ranks = .ok lalr.actions
  gotos : lalr.gotos = tables.gotos
  productions : lalr.productions = tables.productions
  stateCount : lalr.stateCount = tables.stateCount
  terminalCount : lalr.terminalCount = tables.terminalCount
  nonterminalCount : lalr.nonterminalCount = tables.nonterminalCount

section
variable {tables : RankTables} {ranks : List (Option UInt32)} {lalr : ValidatedLalr}

theorem ValidatedLalr.reduce_mem {q t rank : ℕ} {p : ProductionId}
    (h : lalr.table.move q t = .reduce p rank) :
    ∃ stored, lalr.action q t = some (.reduce p stored) ∧ stored.toNat = rank := by
  cases ha : lalr.action q t with
  | none =>
    simp only [table, ha, Option.map_none, Option.getD_none] at h
    cases h
  | some a =>
    rw [move_eq ha] at h
    cases a <;> cases h
    exact ⟨_, rfl, rfl⟩

theorem ValidatedLalr.goto_mem {s d : ℕ} {p : ProductionId} (hs : s < lalr.stateCount)
    (h : lalr.table.goto s p = some d) :
    ∃ production, lalr.productions[p]? = some production ∧ lalr.table.pops p = production.popLen ∧
      lalr.gotos[s * lalr.nonterminalCount + production.lhs]? = some (some d) := by
  simp only [table, Option.bind_eq_some_iff] at h
  obtain ⟨production, hproduction, hgoto⟩ := h
  have hcell : lalr.goto s production.lhs = some (some d) := Option.join_eq_some_iff.mp hgoto
  refine ⟨production, hproduction, ?_, ?_⟩
  · simp only [table, hproduction, Option.map_some, Option.getD_some]
  · have hlhs := lalr.lhs_lt production (List.mem_of_getElem? hproduction)
    obtain ⟨hmul, hadd, -⟩ := checked_cell hs hlhs lalr.gotoCells_lt
    simp only [goto, checkedIndex_of_lt hs, checkedIndex_of_lt hlhs, hmul, hadd,
      Option.bind_eq_bind, Option.bind_some] at hcell
    exact hcell

/-- **A lowered table is ranked**, at every terminal and over all its states. -/
theorem Lowered.ranked {work work' maximumWork : ℕ} (h : Lowered tables ranks lalr)
    (hranks : reductionRanks tables work maximumWork = .ok (work', ranks)) {t : TerminalId}
    (ht : t < lalr.terminalCount) : lalr.table.Ranked (· < lalr.stateCount) t := by
  obtain ⟨hlength, hcells⟩ := reductionRanks_ok hranks
  intro q p rank hq hmove s d hs hsame hgoto p' rank' hmove'
  obtain ⟨own, haction, rfl⟩ := ValidatedLalr.reduce_mem hmove
  obtain ⟨next, hnext, rfl⟩ := ValidatedLalr.reduce_mem hmove'
  obtain ⟨production, hproduction, hpops, hcell⟩ := ValidatedLalr.goto_mem hs hgoto
  have hd := ValidatedLalr.table_goto_lt hgoto
  rw [lalr.action_cell hq ht] at haction
  rw [lalr.action_cell hd ht] at hnext
  obtain ⟨hown, old, hold⟩ := storeRanks_ok h.actions hlength haction
  obtain ⟨hnextRank, old', hold'⟩ := storeRanks_ok h.actions hlength hnext
  -- the cell of the reduction, read back as state and terminal
  have hpositive : 0 < lalr.terminalCount := Nat.zero_lt_of_lt ht
  have hdiv : (q * lalr.terminalCount + t) / lalr.terminalCount = q := by
    rw [Nat.mul_comm, Nat.mul_add_div hpositive, Nat.div_eq_of_lt ht, Nat.add_zero]
  have hmod : (q * lalr.terminalCount + t) % lalr.terminalCount = t := by
    rw [Nat.mul_comm, Nat.mul_add_mod, Nat.mod_eq_of_lt ht]
  rw [hpops] at hsame ⊢
  obtain ⟨own', next', hown', hnext', hle⟩ := hcells (q * lalr.terminalCount + t) p old production
    s d p' old' hold (h.productions ▸ hproduction) (h.stateCount ▸ hs)
    (fun hzero => by rw [← h.terminalCount, hdiv, hsame hzero])
    (by rw [← h.gotos, ← h.nonterminalCount, hcell])
    (by rw [← h.terminalCount, hmod, hold'])
  rw [← h.terminalCount, hmod, hnextRank] at hnext'
  obtain rfl := Option.some_inj.mp (Option.some_inj.mp hnext')
  rw [hown] at hown'
  obtain rfl := Option.some_inj.mp (Option.some_inj.mp hown')
  by_cases htwo : 2 ≤ production.popLen
  · have hless : next.toNat < own.toNat ∨ next.toNat = own.toNat := by omega
    rcases hless with hless | heq
    · exact Or.inl hless
    · exact Or.inr ⟨heq, htwo⟩
  · refine Or.inl ?_
    have hstrict : decide (production.popLen < 2) = true := decide_eq_true (by omega)
    rw [hstrict] at hle
    exact hle

theorem terminalReply_ne_progress {t : TerminalId}
    (hT : lalr.table.Ranked (· < lalr.stateCount) t) {stack : List ParserStateId}
    (hstack : lalr.ValidStack stack) (mode : UnderflowMode) (terminalIndex terminalCount : ℕ)
    (state : ParserStateId) (terminal : TerminalId) :
    lalr.terminalReply mode terminalIndex terminalCount (lalr.table.read t stack) ≠
      .error (.invalidReductionProgress state terminal) := by
  intro h
  cases hread : lalr.table.read t stack with
  | shifted stack' =>
    rw [hread] at h
    cases h
  | rejected =>
    rw [hread] at h
    cases h
  | accepted =>
    rw [hread] at h
    unfold ValidatedLalr.terminalReply at h
    split_ifs at h
    cases h
  | fault f =>
    rw [hread] at h
    have hfault := map_eq_error.mp h
    cases f with
    | noProgress q t' =>
      exact hT.read_ne_noProgress (fun _ _ _ => ValidatedLalr.table_goto_lt) hstack.2 q hread
    | emptyStack => cases mode <;> cases hfault
    | underflow r n => cases mode <;> cases hfault
    | missingGoto s r => cases mode <;> cases hfault

/-- **One terminal.** -/
theorem Lowered.runTerminal_ne {work work' maximumWork : ℕ} (h : Lowered tables ranks lalr)
    (hranks : reductionRanks tables work maximumWork = .ok (work', ranks)) {run : RunState}
    (hstack : lalr.ValidStack run.stack) (mode : UnderflowMode) (terminal : TerminalId)
    (terminalIndex terminalCount : ℕ) (state : ParserStateId) (t : TerminalId) :
    (runTerminal lalr run terminal terminalIndex terminalCount mode).1 ≠
      .error (.invalidReductionProgress state t) := by
  by_cases hterminal : terminal < lalr.terminalCount
  · have hone := runTerminal_settles mode terminalIndex terminalCount hterminal hstack
    generalize runTerminal lalr run terminal terminalIndex terminalCount mode = out at hone
    cases hone with
    | refused hs he =>
      obtain ⟨requested, rfl⟩ := he
      exact fun hout => by cases hout
    | done hpost hs =>
      obtain ⟨-, ⟨-, rfl | ⟨_, rfl, -⟩⟩ | ⟨rfl, -⟩⟩ := hpost
      · exact fun hout => by cases hout
      · exact fun hout => by cases hout
      · exact terminalReply_ne_progress (h.ranked hranks hterminal) hstack mode _ _ state t
  · -- the action lookup fails before any reduction
    intro hout
    obtain ⟨top, htop⟩ : ∃ top, run.stack.getLast? = some top :=
      ⟨_, List.getLast?_eq_some_getLast hstack.1⟩
    obtain ⟨run', -, -, hgo | ⟨-, hstop | hbroken⟩⟩ := run.charge_cases 1
    all_goals simp only [runTerminal, runTerminalTurn, stackTop, *] at hout
    · have hnone : lalr.action top terminal = none := by
        simp only [ValidatedLalr.action, checkedIndex, if_pos (Nat.not_lt.mp hterminal),
          Option.bind_eq_bind, Option.bind_none, Option.bind_fun_none]
      rw [hnone] at hout
      cases hout
    · cases hout
    · cases hout

/-- **A slice.** -/
theorem Lowered.runInitializedFrom_ne {work work' maximumWork : ℕ} (h : Lowered tables ranks lalr)
    (hranks : reductionRanks tables work maximumWork = .ok (work', ranks)) (mode : UnderflowMode)
    (terminals : List TerminalId) (terminalIndex terminalCount : ℕ) (run : RunState)
    (hstack : lalr.ValidStack run.stack) (state : ParserStateId) (t : TerminalId) :
    (runInitializedFrom lalr terminalCount mode terminalIndex terminals run).1 ≠
      .error (.invalidReductionProgress state t) := by
  induction terminals generalizing terminalIndex run with
  | nil => exact fun hout => by cases hout
  | cons terminal terminals ih =>
    rw [runInitializedFrom]
    by_cases hterminal : terminal < lalr.terminalCount
    · have hone := runInitializedTurn_settles mode terminalIndex terminalCount hterminal hstack
      generalize runInitializedTurn lalr terminal terminalIndex terminalCount mode run = out at hone
      cases hone with
      | refused hs he =>
        obtain ⟨requested, rfl⟩ := he
        exact fun hout => by cases hout
      | @done reply run' hpost hs =>
        obtain ⟨-, ⟨-, rfl | ⟨_, rfl, _, rfl, -⟩⟩ | hpost⟩ := hpost
        · exact fun hout => by cases hout
        · exact fun hout => by cases hout
        by_cases hskip : lalr.table.skips terminal = true
        · rw [if_pos hskip] at hpost
          obtain ⟨rfl, hsame⟩ := hpost
          exact ih (terminalIndex + 1) run' (hsame.symm ▸ hstack)
        · rw [if_neg hskip] at hpost
          obtain ⟨⟨used, rfl⟩, hshift⟩ := hpost
          have hreply := terminalReply_ne_progress (h.ranked hranks hterminal) hstack mode
            terminalIndex terminalCount state t
          cases hterm : lalr.terminalReply mode terminalIndex terminalCount
            (lalr.table.read terminal run.stack) with
          | error e =>
            rw [hterm] at hreply
            exact fun hout => hreply (by cases hout; rfl)
          | ok result =>
            cases hread : lalr.table.read terminal run.stack with
            | shifted stack' =>
              rw [hread] at hterm
              cases hterm
              obtain rfl := hshift stack' hread
              refine ih (terminalIndex + 1) run' (hstack.parse (?_ : lalr.table.parse run.stack
                [terminal] = _))
              rw [Table.parse_cons, if_neg hskip, hread]
              rfl
            | rejected =>
              rw [hread] at hterm
              cases hterm
              exact fun hout => by cases hout
            | accepted =>
              rw [hread] at hterm
              unfold ValidatedLalr.terminalReply at hterm
              split_ifs at hterm
              cases hterm
              exact fun hout => by cases hout
            | fault f =>
              rw [hread] at hterm
              obtain ⟨decision, -, rfl⟩ := map_eq_ok.mp hterm
              exact fun hout => by cases hout
    · have hnone : lalr.isIgnored terminal = none := by
        simp only [ValidatedLalr.isIgnored, checkedIndex, if_pos (Nat.not_lt.mp hterminal),
          Option.bind_eq_bind, Option.bind_none]
      obtain ⟨run', -, -, hgo | ⟨-, hstop | hbroken⟩⟩ := run.charge_cases 1
      all_goals simp only [runInitializedTurn, *]
      all_goals exact fun hout => by cases hout

/-- **Compiled ranks satisfy the runtime's progress check.**  On a table that was ranked
by the compiler, no run from a stack of parser states, reachable or not, is stopped by
the check: not on one terminal and not on a slice, in neither mode, with or without a
work limit, and whatever the allocator does. -/
theorem compiled_ranks_progress {work work' maximumWork : ℕ}
    (hranks : reductionRanks tables work maximumWork = .ok (work', ranks))
    (hlowered : Lowered tables ranks lalr) (mode : UnderflowMode) (state : ParserStateId)
    (t : TerminalId) :
    (∀ (run : RunState) (terminal : TerminalId) (terminalIndex terminalCount : ℕ),
      lalr.ValidStack run.stack →
      (runTerminal lalr run terminal terminalIndex terminalCount mode).1 ≠
        .error (.invalidReductionProgress state t)) ∧
    ∀ (stack : Workspace) (terminals : List TerminalId) (limit : RunWork),
      lalr.ValidStack stack.stack →
      (runInitialized lalr stack terminals mode limit).1 ≠
        .error (.invalidReductionProgress state t) := by
  refine ⟨fun run terminal terminalIndex terminalCount hstack =>
    hlowered.runTerminal_ne hranks hstack mode terminal terminalIndex terminalCount state t, ?_⟩
  intro stack terminals limit hstack
  exact hlowered.runInitializedFrom_ne hranks mode terminals 0 terminals.length
    { stack with work := limit } hstack state t

end

/-- The tables of the lists of `a`, as the ranks are computed from them. -/
def reusableStackTables : RankTables :=
  ⟨reusableStackLalr.actions, reusableStackLalr.gotos, reusableStackLalr.productions, 4, 2, 1⟩

theorem compiled_ranks_progress_reusableStack :
    (runTerminal reusableStackLalr { stack := [0, 1], memory := .granting, work := ⟨0, none⟩ } 1
        0 1 .error).1 ≠ .error (.invalidReductionProgress 1 1) ∧
      (runInitialized reusableStackLalr ⟨[3, 2, 3], .granting⟩ [0, 0, 1] .dependent ⟨0, none⟩).1 ≠
        .error (.invalidReductionProgress 3 0) := by
  have hranks : reductionRanks reusableStackTables 0 1000 =
      .ok (100, [none, none, some 0, some 0, none, none, some 0, some 0]) := by decide +kernel
  have hlowered : Lowered reusableStackTables
      [none, none, some 0, some 0, none, none, some 0, some 0] reusableStackLalr :=
    ⟨by decide +kernel, rfl, rfl, rfl, rfl, rfl⟩
  exact ⟨(compiled_ranks_progress hranks hlowered .error 1 1).1
      { stack := [0, 1], memory := .granting, work := ⟨0, none⟩ } 1 0 1 (by decide),
    (compiled_ranks_progress hranks hlowered .dependent 3 0).2 ⟨[3, 2, 3], .granting⟩ [0, 0, 1]
      ⟨0, none⟩ (by decide)⟩

end GreatGramma
