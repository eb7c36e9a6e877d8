import GreatGramma.Compiler.Normalize
import GreatGramma.Library.TableRuns

/-!
# The compiled parser runs as the generated tables do

`lower_lalr` copies the tables of `lrtable` cell by cell, and gives every reduction a rank.  The
generator's tables have a meaning of their own, `StateTable.machine`, without ranks and without a
check: a machine whose moves are the actions listed for a state, and whose gotos are the edges of
the graph.

## The copy

The copy is followed loop by loop.  Before state `i` the rows of the states below `i` are those of
the generator, and all others are empty (`LoweredTables.Copied`).  The row of actions is written
from the list of a state's actions, and the row of gotos from its edges.  That the list names every
terminal at most once, and the edges every symbol, is what is relied on of `lrtable`
(`StateTable.Listed`); without it a later entry would overwrite an earlier one.

The ranks come last, and a rank does not change the move (`storeRanks_moves`).  So the copy is exact
(`lowerLalr_copies`): the generator found no conflicts, and every cell is its own.  What follows for
runs is said in `Compiler.Pipeline`.
-/

namespace GreatGramma

open ShiftReduce Traversal

/-! ## The generated tables -/

/-- An action of the generator as a move. -/
def LrAction.toMove : LrAction → Move ℕ ℕ
  | .shift destination => .shift destination
  | .reduce production => .reduce production 0
  | .accept => .accept
  | .error => .reject

/-- The state that a rule leads to. -/
def StateGraph.goto (graph : StateGraph) (state rule : ℕ) : Option ℕ :=
  (graph.edges state).findSome? fun edge =>
    match edge with
    | (.rule r, destination) => if r = rule then some destination else none
    | (.token _, _) => none

/-- **What the generated tables mean**: the actions listed for a state, and rejection elsewhere. -/
def StateTable.machine (table : StateTable) (graph : StateGraph) (grammar : YaccGrammar) :
    Table ℕ ℕ ℕ where
  move q t := if t ∈ table.stateActions q then (table.action q t).toMove else .reject
  pops := grammar.prodLen
  goto s p := graph.goto s (grammar.prodToRule p)
  skips _ := false

/-- **What is relied on of `lrtable`**: the actions that it lists are those of tokens of the
grammar, and the edges of a state are a map from symbols of the grammar. -/
structure StateTable.Listed (table : StateTable) (graph : StateGraph) (grammar : YaccGrammar) :
    Prop where
  actions_lt : ∀ state < graph.allStatesLen, ∀ terminal ∈ table.stateActions state,
    terminal < grammar.tokensLen
  edges_lt : ∀ state < graph.allStatesLen, ∀ rule destination,
    (GrammarSymbol.rule rule, destination) ∈ graph.edges state → rule < grammar.rulesLen
  edges_unique : ∀ state < graph.allStatesLen, ∀ rule d d',
    (GrammarSymbol.rule rule, d) ∈ graph.edges state →
      (GrammarSymbol.rule rule, d') ∈ graph.edges state → d = d'

section
variable {graph : StateGraph} {table : StateTable} {grammar : YaccGrammar}

theorem StateTable.Listed.goto_eq_some (h : table.Listed graph grammar) {state rule d : ℕ}
    (hstate : state < graph.allStatesLen) :
    graph.goto state rule = some d ↔ (GrammarSymbol.rule rule, d) ∈ graph.edges state := by
  have hfound : ∀ d', graph.goto state rule = some d' →
      (GrammarSymbol.rule rule, d') ∈ graph.edges state := by
    intro d' hgoto
    obtain ⟨⟨symbol, destination⟩, hmem, hedge⟩ := List.exists_of_findSome?_eq_some hgoto
    cases symbol with
    | token _ => cases hedge
    | rule r =>
      dsimp only at hedge
      split_ifs at hedge with hr
      cases hedge
      exact hr ▸ hmem
  refine ⟨hfound d, fun hmem => ?_⟩
  cases hgoto : graph.goto state rule with
  | some d' => rw [h.edges_unique state hstate rule d d' hmem (hfound d' hgoto)]
  | none =>
    have hnone := List.findSome?_eq_none_iff.mp hgoto _ hmem
    dsimp only at hnone
    rw [if_pos rfl] at hnone
    cases hnone

/-! ## The copy -/

/-- What is written into the cell of a state and a terminal. -/
def StateTable.cell (table : StateTable) (state terminal : ℕ) : Action :=
  if terminal ∈ table.stateActions state then lowerAction (table.action state terminal)
  else .error

/-- The tables when the rows of the states below `i` are copied. -/
structure LoweredTables.Copied (graph : StateGraph) (table : StateTable) (grammar : YaccGrammar)
    (i : ℕ) (lowered : LoweredTables) : Prop where
  actions : ∀ s < graph.allStatesLen, ∀ t < grammar.tokensLen,
    lowered.actions[s * grammar.tokensLen + t]? =
      some (if s < i then table.cell s t else .error)
  gotos : ∀ s < graph.allStatesLen, ∀ r < grammar.rulesLen, ∃ cell,
    lowered.gotos[s * grammar.rulesLen + r]? = some cell ∧
      ∀ d, cell = some d ↔ s < i ∧ (GrammarSymbol.rule r, d) ∈ graph.edges s

theorem setAt_getElem? {α : Type} {values values' : List α} {i : ℕ} {value : α}
    (h : setAt values i value = .ok values') (j : ℕ) :
    values'[j]? = if i = j then some value else values[j]? := by
  obtain ⟨hlt, rfl⟩ := ite_ok_eq_ok.mp h
  rw [List.getElem?_set]
  split_ifs <;> rfl

theorem copyActions_ok (h : table.Listed graph grammar) {i : ℕ} (hi : i < graph.allStatesLen)
    {actions actions' : List Action}
    (hactions : ∀ s < graph.allStatesLen, ∀ t < grammar.tokensLen,
      actions[s * grammar.tokensLen + t]? = some (if s < i then table.cell s t else .error))
    (hrun : (table.stateActions i).foldlM (fun actions terminal =>
      setAt actions (i * grammar.tokensLen + terminal) (lowerAction (table.action i terminal)))
        actions = .ok actions') :
    ∀ s < graph.allStatesLen, ∀ t < grammar.tokensLen,
      actions'[s * grammar.tokensLen + t]? =
        some (if s < i + 1 then table.cell s t else .error) := by
  have hrow := foldlM_ok (I := fun done (actions : List Action) =>
    ∀ s < graph.allStatesLen, ∀ t < grammar.tokensLen,
      actions[s * grammar.tokensLen + t]? = some (if s < i then table.cell s t
        else if s = i ∧ t ∈ done then lowerAction (table.action i t) else .error)) hrun ?_ ?_
  · intro s hs t ht
    rw [hrow s hs t ht]
    rcases Nat.lt_trichotomy s i with hlt | rfl | hgt
    · rw [if_pos hlt, if_pos (Nat.lt_succ_of_lt hlt)]
    · rw [if_neg (Nat.lt_irrefl s), if_pos (Nat.lt_succ_self s), StateTable.cell]
      simp only [true_and]
    · rw [if_neg (by omega), if_neg (by omega), if_neg (by omega)]
  · intro s hs t ht
    rw [hactions s hs t ht]
    simp only [List.not_mem_nil, and_false, if_false]
  · intro done terminal after actions actions' hsplit hdone hset s hs t ht
    have hterminal : terminal < grammar.tokensLen := by
      refine h.actions_lt i hi terminal ?_
      rw [hsplit]
      exact List.mem_append_right done List.mem_cons_self
    rw [setAt_getElem? hset, hdone s hs t ht]
    split_ifs with hcell hlt hwritten hlt hmem hwritten hwritten
    · obtain ⟨rfl, rfl⟩ := cell_injective hterminal ht hcell
      exact absurd hlt (Nat.lt_irrefl _)
    · obtain ⟨rfl, rfl⟩ := cell_injective hterminal ht hcell
      rfl
    · obtain ⟨rfl, rfl⟩ := cell_injective hterminal ht hcell
      exact absurd ⟨rfl, List.mem_append_right done (List.mem_singleton_self _)⟩ hwritten
    · rfl
    · rfl
    · exact absurd ⟨hmem.1, List.mem_append_left _ hmem.2⟩ hwritten
    · rcases List.mem_append.mp hwritten.2 with hin | hin
      · exact absurd ⟨hwritten.1, hin⟩ hmem
      · rw [List.mem_singleton.mp hin, hwritten.1] at hcell
        exact absurd rfl hcell
    · rfl

theorem copyGotos_ok (h : table.Listed graph grammar) {i : ℕ} (hi : i < graph.allStatesLen)
    {gotos gotos' : List (Option ParserStateId)}
    (hgotos : ∀ s < graph.allStatesLen, ∀ r < grammar.rulesLen, ∃ cell,
      gotos[s * grammar.rulesLen + r]? = some cell ∧
        ∀ d, cell = some d ↔ s < i ∧ (GrammarSymbol.rule r, d) ∈ graph.edges s)
    (hrun : (graph.edges i).foldlM (lowerEdge i grammar.rulesLen) gotos = .ok gotos') :
    ∀ s < graph.allStatesLen, ∀ r < grammar.rulesLen, ∃ cell,
      gotos'[s * grammar.rulesLen + r]? = some cell ∧
        ∀ d, cell = some d ↔ s < i + 1 ∧ (GrammarSymbol.rule r, d) ∈ graph.edges s := by
  have hrow := foldlM_ok (I := fun done (gotos : List (Option ParserStateId)) =>
    ∀ s < graph.allStatesLen, ∀ r < grammar.rulesLen, ∃ cell,
      gotos[s * grammar.rulesLen + r]? = some cell ∧
        ∀ d, cell = some d ↔ (s < i ∧ (GrammarSymbol.rule r, d) ∈ graph.edges s) ∨
          (s = i ∧ (GrammarSymbol.rule r, d) ∈ done)) hrun ?_ ?_
  · intro s hs r hr
    obtain ⟨cell, hcell, hiff⟩ := hrow s hs r hr
    refine ⟨cell, hcell, fun d => (hiff d).trans ?_⟩
    constructor
    · rintro (⟨hlt, hmem⟩ | ⟨rfl, hmem⟩)
      · exact ⟨Nat.lt_succ_of_lt hlt, hmem⟩
      · exact ⟨Nat.lt_succ_self s, hmem⟩
    · rintro ⟨hlt, hmem⟩
      rcases Nat.lt_succ_iff_lt_or_eq.mp hlt with hlt | rfl
      · exact Or.inl ⟨hlt, hmem⟩
      · exact Or.inr ⟨rfl, hmem⟩
  · intro s hs r hr
    obtain ⟨cell, hcell, hiff⟩ := hgotos s hs r hr
    refine ⟨cell, hcell, fun d => (hiff d).trans ?_⟩
    simp only [List.not_mem_nil, and_false, or_false]
  · rintro done ⟨symbol, destination⟩ after gotos gotos' hsplit hdone hset s hs r hr
    obtain ⟨cell, hcell, hiff⟩ := hdone s hs r hr
    cases symbol with
    | token token =>
      obtain rfl := Except.ok.inj hset
      refine ⟨cell, hcell, fun d => (hiff d).trans ?_⟩
      simp only [List.mem_append, List.mem_singleton, Prod.mk.injEq, reduceCtorEq, false_and,
        or_false]
    | rule rule =>
      have hmem : (GrammarSymbol.rule rule, destination) ∈ graph.edges i := by
        rw [hsplit]
        exact List.mem_append_right done List.mem_cons_self
      have hrule := h.edges_lt i hi rule destination hmem
      have hget := setAt_getElem? hset (s * grammar.rulesLen + r)
      by_cases hsame : i * grammar.rulesLen + rule = s * grammar.rulesLen + r
      · obtain ⟨rfl, rfl⟩ := cell_injective hrule hr hsame
        rw [if_pos rfl] at hget
        refine ⟨some destination, hget, fun d => ?_⟩
        constructor
        · intro hd
          obtain rfl := Option.some.inj hd
          exact Or.inr ⟨rfl, List.mem_append_right done (List.mem_singleton_self _)⟩
        · rintro (⟨hlt, -⟩ | ⟨-, hin⟩)
          · exact absurd hlt (Nat.lt_irrefl _)
          · have hedge : (GrammarSymbol.rule rule, d) ∈ graph.edges i := by
              rw [hsplit]
              rcases List.mem_append.mp hin with hin | hin
              · exact List.mem_append_left _ hin
              · rw [List.mem_singleton.mp hin]
                exact List.mem_append_right done List.mem_cons_self
            rw [h.edges_unique i hi rule destination d hmem hedge]
      · rw [if_neg hsame] at hget
        refine ⟨cell, hget.trans hcell, fun d => (hiff d).trans ?_⟩
        have hother : s = i → r ≠ rule := fun hs hr => hsame (by rw [hs, hr])
        simp only [List.mem_append, List.mem_singleton, Prod.mk.injEq, GrammarSymbol.rule.injEq]
        constructor
        · rintro (hold | ⟨hs, hin⟩)
          · exact Or.inl hold
          · exact Or.inr ⟨hs, Or.inl hin⟩
        · rintro (hold | ⟨hs, hin | ⟨hr, -⟩⟩)
          · exact Or.inl hold
          · exact Or.inr ⟨hs, hin⟩
          · exact absurd hr (hother hs)

/-- **One state more is copied.** -/
theorem LoweredTables.Copied.step (h : table.Listed graph grammar) {i maximumWork : ℕ}
    (hi : i < graph.allStatesLen) {lowered lowered' : LoweredTables}
    (hcopied : lowered.Copied graph table grammar i)
    (hrun : lowerState graph table grammar.tokensLen grammar.rulesLen maximumWork lowered i =
      .ok lowered') : lowered'.Copied graph table grammar (i + 1) := by
  rw [lowerState] at hrun
  obtain ⟨_, -, hrun⟩ := bind_eq_ok.mp hrun
  obtain ⟨actions, hactions, hrun⟩ := bind_eq_ok.mp hrun
  obtain ⟨_, -, hrun⟩ := bind_eq_ok.mp hrun
  obtain ⟨gotos, hgotos, hrun⟩ := bind_eq_ok.mp hrun
  obtain rfl := Except.ok.inj hrun
  exact ⟨copyActions_ok h hi hcopied.actions hactions, copyGotos_ok h hi hcopied.gotos hgotos⟩

theorem LoweredTables.Copied.zero (work : ℕ) :
    LoweredTables.Copied graph table grammar 0
      ⟨work, List.replicate (graph.allStatesLen * grammar.tokensLen) .error,
        List.replicate (graph.allStatesLen * grammar.rulesLen) none⟩ where
  actions s hs t ht := by
    rw [List.getElem?_replicate, if_pos (cell_lt hs ht), if_neg (Nat.not_lt_zero s)]
  gotos s hs r hr := by
    refine ⟨none, by rw [List.getElem?_replicate, if_pos (cell_lt hs hr)], fun d => ?_⟩
    constructor
    · intro hd
      cases hd
    · exact fun hd => absurd hd.1 (Nat.not_lt_zero s)

/-- A stored rank does not change the move. -/
theorem storeRanks_moves {actions ranked : List Action} {ranks : List (Option UInt32)}
    (h : storeRanks actions ranks = .ok ranked) :
    Filled (fun cell stored => ∃ action, actions[cell]? = some action ∧
      stored.toMove.unranked = action.toMove.unranked) actions.length ranked := by
  refine storeRanks_filled (fun cell production rank rank' hold => ?_) h
    ⟨rfl, fun cell action haction => ⟨action, haction, rfl⟩⟩
  obtain ⟨action, haction, hmove⟩ := hold
  exact ⟨action, haction, hmove⟩

/-- **What `lower_lalr` returns, cell by cell.** -/
structure LalrTable.CopyOf (lalr : LalrTable) (graph : StateGraph) (table : StateTable)
    (parsed : ParsedGrammar) : Prop where
  actions : ∀ s < graph.allStatesLen, ∀ t < parsed.yacc.tokensLen, ∃ action,
    lalr.actions[s * parsed.yacc.tokensLen + t]? = some action ∧
      action.toMove.unranked = (table.cell s t).toMove.unranked
  gotos : ∀ s < graph.allStatesLen, ∀ r < parsed.yacc.rulesLen, ∃ cell,
    lalr.gotos[s * parsed.yacc.rulesLen + r]? = some cell ∧
      ∀ d, cell = some d ↔ (GrammarSymbol.rule r, d) ∈ graph.edges s

/-- **The copy is exact.**  The generator found no conflicts, and the cells are its. -/
theorem lowerLalr_copies {fromYacc : TableGenerator} {parsed : ParsedGrammar}
    {limits : ValidationLimits} {lalr : LalrTable}
    (hlisted : ∀ graph table, fromYacc parsed.yacc = .ok (graph, table) →
      table.Listed graph parsed.yacc)
    (h : lowerLalr fromYacc parsed limits = .ok lalr) :
    ∃ graph table, fromYacc parsed.yacc = .ok (graph, table) ∧ table.conflicts = none ∧
      lalr.CopyOf graph table parsed := by
  rw [lowerLalr] at h
  obtain ⟨_, -, h⟩ := bind_eq_ok.mp h
  obtain ⟨⟨graph, table⟩, hyacc, h⟩ := bind_eq_ok.mp h
  obtain ⟨_, hconflicts, h⟩ := bind_eq_ok.mp h
  obtain ⟨_, -, h⟩ := bind_eq_ok.mp h
  obtain ⟨_, -, h⟩ := bind_eq_ok.mp h
  obtain ⟨actionCells, hactionCells, h⟩ := bind_eq_ok.mp h
  obtain ⟨gotoCells, hgotoCells, h⟩ := bind_eq_ok.mp h
  obtain ⟨lowered, hloop, h⟩ := bind_eq_ok.mp h
  obtain ⟨⟨work, ranks⟩, -, h⟩ := bind_eq_ok.mp h
  obtain ⟨actions, hstore, h⟩ := bind_eq_ok.mp h
  obtain rfl := Except.ok.inj h
  have hyacc' := mapError_eq_ok.mp hyacc
  have hlist := hlisted graph table hyacc'
  have hcopied : lowered.Copied graph table parsed.yacc graph.allStatesLen := by
    refine foldlM_range_ok (I := fun i (lowered : LoweredTables) =>
      lowered.Copied graph table parsed.yacc i) hloop ?_
      fun i s s' hi hs hstep => hs.step hlist hi hstep
    rw [← cellCount_eq_ok hactionCells, ← cellCount_eq_ok hgotoCells]
    exact .zero 0
  refine ⟨graph, table, hyacc', ?_, ?_, ?_⟩
  · cases hcase : table.conflicts with
    | none => rfl
    | some conflicts =>
      rw [rejectConflicts, hcase] at hconflicts
      cases hconflicts
  · intro s hs t ht
    have hcell := hcopied.actions s hs t ht
    rw [if_pos hs] at hcell
    have hmoves := storeRanks_moves hstore
    obtain ⟨action, haction, old, hold, hmove⟩ :=
      hmoves.get (List.getElem?_eq_some_iff.mp hcell).1
    refine ⟨action, haction, ?_⟩
    rw [hmove, Option.some.inj (hold.symm.trans hcell)]
  · intro s hs r hr
    obtain ⟨cell, hcell, hiff⟩ := hcopied.gotos s hs r hr
    refine ⟨cell, hcell, fun d => (hiff d).trans ?_⟩
    simp only [hs, true_and]

end

end GreatGramma
