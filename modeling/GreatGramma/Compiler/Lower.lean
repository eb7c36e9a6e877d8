import GreatGramma.Compiler.Cells
import GreatGramma.Compiler.Grammar

/-!
# Lowering the LALR tables

`lower_lalr`.  `lrtable` generates a state graph and a state table for a Yacc grammar, and the
compiler copies them into its own tables, row by row: the actions of a state over the terminals of
the grammar, and its gotos over the rules.  The reduce cells then get their ranks.

## The generator

`lrtable` is not part of this repository; its generator is a parameter, and a graph and a table are
what the compiler reads of them.  Reservations succeed.  What is relied on is that its tables fit
the grammar that they were generated for: states and productions that are named exist, and `Accept`
stands at EOF only (`StateTable.WellFormed`).

## The copy

Actions are read by the list of those that the generator gives for a state, and gotos by the edges
of its graph; edges of tokens are passed over, as the shifts are among the actions.  What the loops
write is what they read (`lowerLalr_ok`): the cells of a table that is well formed are in range,
and `Accept` stands in the column of EOF.  The dimensions are checked against the limits, and their
products for overflow, before the tables are copied.

A table with conflicts is refused, however the grammar would resolve them, and so is one with more
states than the limit.
-/

namespace GreatGramma

open Traversal

/-! ## Generated tables -/

/-- `lrtable`'s `Action<u32>`. -/
inductive LrAction where
  | shift (destination : ℕ)
  | reduce (production : ℕ)
  | accept
  | error

/-- What the compiler reads of `lrtable`'s `StateGraph<u32>`. -/
structure StateGraph where
  allStatesLen : ℕ
  edges : ℕ → List (GrammarSymbol × ℕ)
  allStatesLen_lt : allStatesLen < 2 ^ 32

/-- What the compiler reads of `lrtable`'s `StateTable<u32>`. -/
structure StateTable where
  startState : ℕ
  stateActions : ℕ → List ℕ
  action : ℕ → ℕ → LrAction
  /-- `conflicts()`, by their `sr_len()` and `rr_len()` -/
  conflicts : Option (ℕ × ℕ)

/-- `StateTableErrorKind`, and the message of the errors that are shown. -/
inductive StateTableError where
  | acceptReduceConflict
  | other (message : String)

/-- The generator of the tables: `from_yacc` with `Minimiser::Pager`. -/
abbrev TableGenerator := YaccGrammar → Except StateTableError (StateGraph × StateTable)

/-! ## Limits -/

/-- `charge_dense`. -/
def chargeDense (work amount maximum : ℕ) : Except CompileFailure ℕ :=
  if maximum = 2 ^ 64 - 1 then .ok (min (work + amount) (2 ^ 64 - 1))
  else if amount > maximum - work then
    .error (.error (.compilerWorkLimit (maximum + 1) maximum))
  else .ok (work + amount)

/-- `check_cell_limit` of `lr.rs`. -/
def checkParserCellLimit (states terminals nonterminals : ℕ) (limits : ValidationLimits) :
    Except CompileFailure Unit :=
  let required := min (states * min (terminals + nonterminals) (2 ^ 64 - 1)) (2 ^ 64 - 1)
  if required > limits.maxParserCells.toNat then
    .error (.error (.tooManyParserCells required limits.maxParserCells.toNat))
  else .ok ()

/-- `check_grammar_dimensions`. -/
def checkGrammarDimensions (grammar : YaccGrammar) (limits : ValidationLimits) :
    Except CompileFailure Unit :=
  if grammar.tokensLen > limits.maxTerminals.toNat ∨
      grammar.rulesLen > limits.maxNonterminals.toNat ∨
      grammar.prodsLen > limits.maxProductions.toNat then
    .error (.error (.grammarTooLarge grammar.tokensLen grammar.rulesLen grammar.prodsLen))
  else checkParserCellLimit 1 grammar.tokensLen grammar.rulesLen limits

/-- The cells of a table, with the product checked. -/
def cellCount (states width : ℕ) : Except CompileFailure ℕ :=
  match checkedMul states width with
  | none => .error (.error (.allocationFailure usizeMax))
  | some cells => .ok cells

/-! ## Copying the tables -/

/-- How an error of the generator is reported. -/
def tableFailure : StateTableError → CompileFailure
  | .acceptReduceConflict => .error (.grammarConflict 1 0)
  | .other message => .error (.grammarTable message)

/-- Conflicts are refused. -/
def rejectConflicts (table : StateTable) : Except CompileFailure Unit :=
  match table.conflicts with
  | some (shiftReduce, reduceReduce) =>
    .error (.error (.grammarConflict shiftReduce reduceReduce))
  | none => .ok ()

/-- Too many states are refused. -/
def checkParserStates (states : ℕ) (limits : ValidationLimits) : Except CompileFailure Unit :=
  if states > limits.maxParserStates.toNat then
    .error (.error (.tooManyParserStates states limits.maxParserStates.toNat))
  else .ok ()

/-- Writing into a vector. -/
def setAt {α : Type} (values : List α) (i : ℕ) (value : α) : Except CompileFailure (List α) :=
  if i < values.length then .ok (values.set i value) else .error .panic

/-- An action of the generated table; the rank of a reduction comes later. -/
def lowerAction : LrAction → Action
  | .shift destination => .shift destination
  | .reduce production => .reduce production 0
  | .accept => .accept
  | .error => .error

/-- One edge of a state: the edges of rules are the gotos. -/
def lowerEdge (state nonterminalCount : ℕ) (gotos : List (Option ParserStateId))
    (edge : GrammarSymbol × ℕ) : Except CompileFailure (List (Option ParserStateId)) :=
  match edge with
  | (.token _, _) => .ok gotos
  | (.rule rule, destination) => setAt gotos (state * nonterminalCount + rule) (some destination)

/-- The tables while they are copied. -/
structure LoweredTables where
  work : ℕ
  actions : List Action
  gotos : List (Option ParserStateId)

/-- One state of the loop of `lower_lalr`. -/
def lowerState (graph : StateGraph) (table : StateTable)
    (terminalCount nonterminalCount maximumWork : ℕ) (lowered : LoweredTables) (state : ℕ) :
    Except CompileFailure LoweredTables := do
  let work ← chargeDense lowered.work terminalCount maximumWork
  let actions ← (table.stateActions state).foldlM
    (fun actions terminal => setAt actions (state * terminalCount + terminal)
      (lowerAction (table.action state terminal)))
    lowered.actions
  let work ← chargeDense work nonterminalCount maximumWork
  let gotos ← (graph.edges state).foldlM (lowerEdge state nonterminalCount) lowered.gotos
  return { work, actions, gotos }

/-- The productions of a grammar, by their left-hand sides and lengths. -/
def YaccGrammar.productions (grammar : YaccGrammar) : List Production :=
  grammar.iterPidxs.map fun production =>
    ⟨grammar.prodToRule production, grammar.prodLen production⟩

/-- What the ranks are computed from. -/
def LoweredTables.rankTables (lowered : LoweredTables) (graph : StateGraph)
    (grammar : YaccGrammar) : RankTables where
  actions := lowered.actions
  gotos := lowered.gotos
  productions := grammar.productions
  stateCount := graph.allStatesLen
  terminalCount := grammar.tokensLen
  nonterminalCount := grammar.rulesLen

/-- `lower_lalr`. -/
def lowerLalr (fromYacc : TableGenerator) (parsed : ParsedGrammar) (limits : ValidationLimits) :
    Except CompileFailure LalrTable := do
  let grammar := parsed.yacc
  let maximumWork := limits.maxWork.toNat
  checkGrammarDimensions grammar limits
  let (graph, table) ← (fromYacc grammar).mapError tableFailure
  rejectConflicts table
  let stateCount := graph.allStatesLen
  let terminalCount := grammar.tokensLen
  let nonterminalCount := grammar.rulesLen
  checkParserStates stateCount limits
  checkParserCellLimit stateCount terminalCount nonterminalCount limits
  let actionCells ← cellCount stateCount terminalCount
  let gotoCells ← cellCount stateCount nonterminalCount
  let lowered ← (List.range stateCount).foldlM
    (lowerState graph table terminalCount nonterminalCount maximumWork)
    ⟨0, List.replicate actionCells .error, List.replicate gotoCells none⟩
  let (_, ranks) ← reductionRanks (lowered.rankTables graph grammar) lowered.work maximumWork
  let actions ← storeRanks lowered.actions ranks
  return {
    dimensions := ⟨stateCount, terminalCount, nonterminalCount⟩
    startState := table.startState
    eofTerminal := grammar.eofTokenIdx
    actions
    gotos := lowered.gotos
    productions := grammar.productions
    ignoredTerminals := parsed.ignored
    stateCount_lt := graph.allStatesLen_lt
    terminalCount_lt := grammar.tokensLen_lt
    nonterminalCount_lt := grammar.rulesLen_lt }

/-! ## What the cells hold

Cells that are allowed, whatever has been written so far; what exactly they hold is the matter of
`Compiler.Tables`. -/

/-- **What is relied on of `lrtable`**: the states and productions of a table are those of its
graph and its grammar, and it accepts at EOF only. -/
structure StateTable.WellFormed (table : StateTable) (graph : StateGraph) (grammar : YaccGrammar) :
    Prop where
  start_lt : table.startState < graph.allStatesLen
  shift_lt : ∀ state < graph.allStatesLen, ∀ terminal ∈ table.stateActions state,
    ∀ destination, table.action state terminal = .shift destination →
      destination < graph.allStatesLen
  reduce_lt : ∀ state < graph.allStatesLen, ∀ terminal ∈ table.stateActions state,
    ∀ production, table.action state terminal = .reduce production → production < grammar.prodsLen
  accept_eof : ∀ state < graph.allStatesLen, ∀ terminal ∈ table.stateActions state,
    table.action state terminal = .accept → terminal = grammar.eofTokenIdx
  edges_lt : ∀ state < graph.allStatesLen, ∀ rule destination,
    (GrammarSymbol.rule rule, destination) ∈ graph.edges state → destination < graph.allStatesLen

/-- What may stand in a cell of the action table. -/
def CellAllowed (graph : StateGraph) (grammar : YaccGrammar) (cell : ℕ) : Action → Prop
  | .error => True
  | .shift destination => destination < graph.allStatesLen
  | .reduce production _ => production < grammar.prodsLen
  | .accept => cell % grammar.tokensLen = grammar.eofTokenIdx

theorem setAt_filled {α : Type} {P : ℕ → α → Prop} {n i : ℕ} {values values' : List α} {value : α}
    (h : Filled P n values) (hvalue : P i value) (hset : setAt values i value = .ok values') :
    Filled P n values' := by
  obtain ⟨-, rfl⟩ := ite_ok_eq_ok.mp hset
  refine ⟨by rw [List.length_set, h.1], fun j x hx => ?_⟩
  rw [List.getElem?_set] at hx
  split_ifs at hx with hsame hlt
  · subst hsame
    obtain rfl := Option.some_inj.mp hx
    exact hvalue
  · exact h.2 j x hx

theorem replicate_filled {α : Type} {P : ℕ → α → Prop} {n : ℕ} {value : α} (h : ∀ i, P i value) :
    Filled P n (List.replicate n value) := by
  refine ⟨List.length_replicate, fun i x hx => ?_⟩
  rw [List.eq_of_mem_replicate (List.mem_of_getElem? hx)]
  exact h i

theorem cellCount_eq_ok {states width cells : ℕ} (h : cellCount states width = .ok cells) :
    states * width = cells := by
  rw [cellCount] at h
  cases hmul : checkedMul states width with
  | none =>
    rw [hmul] at h
    cases h
  | some product =>
    rw [hmul] at h
    rw [← Except.ok.inj h]
    exact (checkedMul_eq_some.mp hmul).2

section
variable {graph : StateGraph} {table : StateTable} {grammar : YaccGrammar}

theorem StateTable.WellFormed.cellAllowed (h : table.WellFormed graph grammar)
    (heof : grammar.eofTokenIdx < grammar.tokensLen) {state terminal : ℕ}
    (hstate : state < graph.allStatesLen) (hterminal : terminal ∈ table.stateActions state) :
    CellAllowed graph grammar (state * grammar.tokensLen + terminal)
      (lowerAction (table.action state terminal)) := by
  cases haction : table.action state terminal with
  | error => trivial
  | shift destination => exact h.shift_lt state hstate terminal hterminal destination haction
  | reduce production => exact h.reduce_lt state hstate terminal hterminal production haction
  | accept =>
    -- the remainder of the cell by the width is the column
    rw [h.accept_eof state hstate terminal hterminal haction]
    show (state * grammar.tokensLen + grammar.eofTokenIdx) % grammar.tokensLen = _
    rw [Nat.mul_comm, Nat.mul_add_mod, Nat.mod_eq_of_lt heof]

/-- The tables while they are copied are allowed. -/
def LoweredTables.Allowed (graph : StateGraph) (grammar : YaccGrammar) (lowered : LoweredTables) :
    Prop :=
  Filled (CellAllowed graph grammar) (graph.allStatesLen * grammar.tokensLen) lowered.actions ∧
    Filled (fun _ cell => ∀ destination, cell = some destination →
      destination < graph.allStatesLen) (graph.allStatesLen * grammar.rulesLen) lowered.gotos

/-- **One state keeps the tables allowed.** -/
theorem lowerState_allowed (h : table.WellFormed graph grammar)
    (heof : grammar.eofTokenIdx < grammar.tokensLen) {state maximumWork : ℕ}
    (hstate : state < graph.allStatesLen) {lowered lowered' : LoweredTables}
    (hallowed : lowered.Allowed graph grammar)
    (hrun : lowerState graph table grammar.tokensLen grammar.rulesLen maximumWork lowered state =
      .ok lowered') : lowered'.Allowed graph grammar := by
  obtain ⟨hactions, hgotos⟩ := hallowed
  rw [lowerState] at hrun
  obtain ⟨_, -, hrun⟩ := bind_eq_ok.mp hrun
  obtain ⟨actions, hloop, hrun⟩ := bind_eq_ok.mp hrun
  obtain ⟨_, -, hrun⟩ := bind_eq_ok.mp hrun
  obtain ⟨gotos, hedges, hrun⟩ := bind_eq_ok.mp hrun
  obtain rfl := Except.ok.inj hrun
  constructor
  · refine foldlM_ok (I := fun _ (actions : List Action) =>
      Filled (CellAllowed graph grammar) (graph.allStatesLen * grammar.tokensLen) actions)
      hloop hactions ?_
    intro done terminal after s s' hsplit hfilled hset
    have hterminal : terminal ∈ table.stateActions state := by
      rw [hsplit]
      exact List.mem_append_right done List.mem_cons_self
    exact setAt_filled hfilled (h.cellAllowed heof hstate hterminal) hset
  · refine foldlM_ok (I := fun _ (gotos : List (Option ParserStateId)) =>
      Filled (fun _ cell => ∀ destination, cell = some destination →
        destination < graph.allStatesLen) (graph.allStatesLen * grammar.rulesLen) gotos)
      hedges hgotos ?_
    rintro done ⟨symbol, destination⟩ after s s' hsplit hfilled hset
    cases symbol with
    | token _ =>
      obtain rfl := Except.ok.inj hset
      exact hfilled
    | rule rule =>
      have hedge : (GrammarSymbol.rule rule, destination) ∈ graph.edges state := by
        rw [hsplit]
        exact List.mem_append_right done List.mem_cons_self
      refine setAt_filled hfilled (fun d hd => ?_) hset
      rw [← Option.some_inj.mp hd]
      exact h.edges_lt state hstate rule destination hedge

theorem storeRank_cases {action stored : Action} {rank : Option UInt32}
    (h : storeRank action rank = .ok stored) :
    action = stored ∨ ∃ production old new,
      action = .reduce production old ∧ stored = .reduce production new := by
  unfold storeRank at h
  split at h
  · rename_i production old
    cases rank with
    | none => cases h
    | some new =>
      obtain rfl := Except.ok.inj h
      exact Or.inr ⟨production, old, new, rfl, rfl⟩
  · exact Or.inl (Except.ok.inj h)

theorem storeRanks_filled {P : ℕ → Action → Prop} {n : ℕ}
    (hrank : ∀ cell production rank rank', P cell (.reduce production rank) →
      P cell (.reduce production rank'))
    {actions ranked : List Action} {ranks : List (Option UInt32)}
    (h : storeRanks actions ranks = .ok ranked) (hfilled : Filled P n actions) :
    Filled P n ranked := by
  induction actions generalizing ranks ranked P n with
  | nil =>
    obtain rfl := Except.ok.inj h
    exact hfilled
  | cons action actions ih =>
    cases ranks with
    | nil =>
      obtain rfl := Except.ok.inj h
      exact hfilled
    | cons rank ranks =>
      simp only [storeRanks, bind_eq_ok] at h
      obtain ⟨stored, hstored, rest, hrest, h⟩ := h
      obtain rfl := Except.ok.inj h
      -- the rest of the table, with the cells counted from one on
      have htail := ih (P := fun cell => P (cell + 1)) (n := actions.length)
        (fun cell => hrank (cell + 1)) hrest
        ⟨rfl, fun cell x hx => hfilled.2 (cell + 1) x hx⟩
      refine ⟨?_, fun cell x hx => ?_⟩
      · rw [← hfilled.1, List.length_cons, List.length_cons, htail.1]
      · cases cell with
        | succ cell => exact htail.2 cell x hx
        | zero =>
          obtain rfl := Option.some_inj.mp hx
          rcases storeRank_cases hstored with rfl | ⟨production, old, new, rfl, rfl⟩
          · exact hfilled.2 0 _ rfl
          · exact hrank 0 production old new (hfilled.2 0 _ rfl)

/-- A lowered table over the states of a graph and the tokens and rules of a grammar, with the
ranks of its reduce cells. -/
structure LalrTable.LoweredFrom (lalr : LalrTable) (graph : StateGraph) (table : StateTable)
    (parsed : ParsedGrammar) : Prop where
  dimensions : lalr.dimensions =
    ⟨graph.allStatesLen, parsed.yacc.tokensLen, parsed.yacc.rulesLen⟩
  startState : lalr.startState = table.startState
  eofTerminal : lalr.eofTerminal = parsed.yacc.eofTokenIdx
  actions : Filled (CellAllowed graph parsed.yacc) (graph.allStatesLen * parsed.yacc.tokensLen)
    lalr.actions
  gotos : Filled (fun _ cell => ∀ destination, cell = some destination →
    destination < graph.allStatesLen) (graph.allStatesLen * parsed.yacc.rulesLen) lalr.gotos
  productions : lalr.productions = parsed.yacc.productions
  ignored : lalr.ignoredTerminals = parsed.ignored
  ranked : ∃ (lowered : LoweredTables) (ranks : List (Option UInt32)) (work maximumWork : ℕ),
    reductionRanks (lowered.rankTables graph parsed.yacc) lowered.work maximumWork =
      .ok (work, ranks) ∧
    storeRanks lowered.actions ranks = .ok lalr.actions ∧ lowered.gotos = lalr.gotos

/-- **What `lower_lalr` returns.** -/
theorem lowerLalr_ok {fromYacc : TableGenerator} {parsed : ParsedGrammar}
    {limits : ValidationLimits} {lalr : LalrTable}
    (hgenerated : ∀ graph table, fromYacc parsed.yacc = .ok (graph, table) →
      table.WellFormed graph parsed.yacc)
    (heof : parsed.yacc.eofTokenIdx < parsed.yacc.tokensLen)
    (h : lowerLalr fromYacc parsed limits = .ok lalr) :
    ∃ graph table, fromYacc parsed.yacc = .ok (graph, table) ∧
      lalr.LoweredFrom graph table parsed := by
  rw [lowerLalr] at h
  obtain ⟨_, -, h⟩ := bind_eq_ok.mp h
  obtain ⟨⟨graph, table⟩, hyacc, h⟩ := bind_eq_ok.mp h
  obtain ⟨_, -, h⟩ := bind_eq_ok.mp h
  obtain ⟨_, -, h⟩ := bind_eq_ok.mp h
  obtain ⟨_, -, h⟩ := bind_eq_ok.mp h
  obtain ⟨actionCells, hactionCells, h⟩ := bind_eq_ok.mp h
  obtain ⟨gotoCells, hgotoCells, h⟩ := bind_eq_ok.mp h
  obtain ⟨lowered, hloop, h⟩ := bind_eq_ok.mp h
  obtain ⟨⟨work, ranks⟩, hranks, h⟩ := bind_eq_ok.mp h
  obtain ⟨actions, hstore, h⟩ := bind_eq_ok.mp h
  obtain rfl := Except.ok.inj h
  have hyacc' := mapError_eq_ok.mp hyacc
  have hformed := hgenerated graph table hyacc'
  have hallowed : lowered.Allowed graph parsed.yacc := by
    refine foldlM_ok (I := fun _ (lowered : LoweredTables) => lowered.Allowed graph parsed.yacc)
      hloop ?_ ?_
    · rw [← cellCount_eq_ok hactionCells, ← cellCount_eq_ok hgotoCells]
      exact ⟨replicate_filled fun _ => trivial, replicate_filled fun _ _ h => by cases h⟩
    · intro done state after s s' hsplit hs hstep
      have hstate : state ∈ List.range graph.allStatesLen := by
        rw [hsplit]
        exact List.mem_append_right done List.mem_cons_self
      exact lowerState_allowed hformed heof (List.mem_range.mp hstate) hs hstep
  refine ⟨graph, table, hyacc', rfl, rfl, rfl, ?_, hallowed.2, rfl, rfl,
    lowered, ranks, work, _, hranks, hstore, rfl⟩
  exact storeRanks_filled (fun _ _ _ _ h => h) hstore hallowed.1

end

end GreatGramma
