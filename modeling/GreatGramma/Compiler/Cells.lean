import GreatGramma.Compiler.Condense

/-!
# The graph of the reduce cells

`reduction_ranks` gives every reduce cell a number and draws an edge to each cell that may follow
it at the same look-ahead.  So the ranks it stores compare, for any two cells that may follow each
other, as an edge asks for, and this is what the progress check of the parser needs.

## Which cells follow

A reduction uncovers a state and goes on from there by a goto.  Which state it uncovers depends on
the stack, and nothing is known of it: edges are drawn from a cell for every state of the table
that has a goto for the production, when the production pops something, and for the state of the
cell itself when it pops nothing.  An edge is strict when the stack does not become shorter, so
that the rank has to decrease where the length does not.

## Numbers

Only reduce cells are numbered, in the order of the table, and the numbering is an injection
(`numberCells_ok`): it has a number for every reduce cell, and numbers are not shared.  The ranks
that come back are put in place of the numbers, cell by cell (`storeRanks_ok`).
-/

namespace GreatGramma

open Traversal

section
variable {tables : RankTables} {maximumWork : ℕ}

/-- The numbering once the first `i` cells are passed: the reduce cells among them have
numbers, and a number is the place of its cell in the list. -/
structure ReduceCells.UpTo (actions : List Action) (i : ℕ) (numbered : ReduceCells) : Prop where
  length : numbered.nodeForCell.length = actions.length
  number : ∀ cell node : ℕ, numbered.nodeForCell[cell]? = some (some node) ↔
    numbered.cells[node]? = some cell
  passed : ∀ cell ∈ numbered.cells, cell < i
  reduce : ∀ cell < i, ∀ production rank, actions[cell]? = some (.reduce production rank) →
    ∃ node : ℕ, numbered.cells[node]? = some cell

theorem ReduceCells.UpTo.start {actions : List Action} :
    UpTo actions 0 ⟨List.replicate actions.length none, []⟩ where
  length := List.length_replicate
  number cell node := by
    refine iff_of_false (fun hnode => ?_) (fun hnode => ?_)
    · cases List.eq_of_mem_replicate (List.mem_of_getElem? hnode)
    · cases hnode
  passed cell hcell := absurd hcell List.not_mem_nil
  reduce cell hcell := absurd hcell (Nat.not_lt_zero cell)

theorem ReduceCells.UpTo.push {actions : List Action} {i : ℕ} {numbered : ReduceCells}
    (h : numbered.UpTo actions i) (hi : i < actions.length) :
    UpTo actions (i + 1)
      ⟨numbered.nodeForCell.set i (some numbered.cells.length), numbered.cells ++ [i]⟩ where
  length := by rw [List.length_set, h.length]
  number cell node := by
    have hnew : ∀ node : ℕ, numbered.cells[node]? ≠ some i := fun node hnode =>
      Nat.lt_irrefl i (h.passed i (List.mem_of_getElem? hnode))
    have hlt : i < numbered.nodeForCell.length := h.length ▸ hi
    rw [getElem?_concat_eq_some]
    by_cases hcell : i = cell
    · subst hcell
      rw [List.getElem?_set_self hlt, Option.some_inj, Option.some_inj,
        or_iff_right (hnew node), and_iff_left rfl]
      exact eq_comm
    · rw [List.getElem?_set_ne hcell, h.number, or_iff_left fun hlast => hcell hlast.2]
  passed cell hcell := by
    rcases List.mem_append.mp hcell with hold | hlast
    · exact Nat.lt_succ_of_lt (h.passed cell hold)
    · rw [List.mem_singleton.mp hlast]
      exact Nat.lt_succ_self i
  reduce := by
    refine Nat.forall_lt_succ_right.mpr ⟨fun cell hcell production rank haction => ?_, ?_⟩
    · obtain ⟨node, hnode⟩ := h.reduce cell hcell production rank haction
      exact ⟨node, getElem?_concat_eq_some.mpr (Or.inl hnode)⟩
    · intro _ _ _
      exact ⟨_, List.getElem?_concat_length⟩

theorem ReduceCells.UpTo.skip {actions : List Action} {i : ℕ} {numbered : ReduceCells}
    (h : numbered.UpTo actions i)
    (hskip : ∀ production rank, actions[i]? ≠ some (.reduce production rank)) :
    numbered.UpTo actions (i + 1) where
  length := h.length
  number := h.number
  passed cell hcell := Nat.lt_succ_of_lt (h.passed cell hcell)
  reduce := Nat.forall_lt_succ_right.mpr ⟨h.reduce, fun production rank haction =>
    absurd haction (hskip production rank)⟩

/-- **The numbering of the reduce cells.**  It has a number for every reduce cell, and
numbers are not shared. -/
theorem numberCells_ok {actions : List Action} {work work' : ℕ} {numbered : ReduceCells}
    (h : numberCells actions work maximumWork = .ok (work', numbered)) :
    (∀ cell node : ℕ, numbered.nodeForCell[cell]? = some (some node) ↔
      numbered.cells[node]? = some cell) ∧
    ∀ (cell : ℕ) production rank, actions[cell]? = some (.reduce production rank) →
      ∃ node : ℕ, numbered.cells[node]? = some cell := by
  have hloop := foldlM_range_ok (I := fun i (s : ℕ × ReduceCells) => s.2.UpTo actions i)
    h ReduceCells.UpTo.start ?_
  · refine ⟨hloop.number, fun cell production rank hcell => ?_⟩
    exact hloop.reduce cell (List.getElem?_eq_some_iff.mp hcell).1 production rank hcell
  · rintro cell ⟨w, s⟩ ⟨w', s'⟩ hcell hs hbody
    simp only [bind_eq_ok, indexAt_eq_ok] at hbody
    obtain ⟨_, -, action, haction, hbody⟩ := hbody
    cases action with
    | reduce production rank =>
      cases hbody
      exact hs.push hcell
    | error | shift _ | accept =>
      cases hbody
      refine hs.skip fun production rank hreduce => ?_
      rw [haction] at hreduce
      cases hreduce

/-- The edges of one cell: all of one strictness. -/
def Uniform (strict : Bool) (edges : List ProgressEdge) : Prop :=
  ∀ edge ∈ edges, edge.strict = strict

/-- What `add_progress_edge` does. -/
theorem addProgressEdge_ok {edges edges' : List ProgressEdge} {gotos : List (Option ParserStateId)}
    {source lhs terminal terminalCount nonterminalCount work work' : ℕ}
    {nodeForCell : List (Option ℕ)} {strict : Bool}
    (h : addProgressEdge edges gotos source lhs terminal terminalCount nonterminalCount nodeForCell
      strict work maximumWork = .ok (work', edges')) (hedges : Uniform strict edges) :
    Uniform strict edges' ∧ (∀ d, Reaches edges d strict → Reaches edges' d strict) ∧
      ∀ d node, gotos[source * nonterminalCount + lhs]? = some (some d) →
        nodeForCell[d * terminalCount + terminal]? = some (some node) →
        Reaches edges' node strict := by
  simp only [addProgressEdge, bind_eq_ok, indexAt_eq_ok] at h
  obtain ⟨_, -, destination, hgoto, h⟩ := h
  rw [hgoto]
  cases destination with
  | none =>
    cases h
    exact ⟨hedges, fun _ hreaches => hreaches, fun d node hd => by cases hd⟩
  | some destination =>
    simp only [bind_eq_ok, indexAt_eq_ok] at h
    obtain ⟨next, hnext, h⟩ := h
    cases next with
    | none =>
      cases h
      refine ⟨hedges, fun _ hreaches => hreaches, fun d node hd hnode => ?_⟩
      cases hd
      rw [hnext] at hnode
      cases hnode
    | some next =>
      simp only [bind_eq_ok] at h
      obtain ⟨_, -, h⟩ := h
      split_ifs at h with hknown
      · cases h
        refine ⟨hedges, fun _ hreaches => hreaches, fun d node hd hnode => ?_⟩
        cases hd
        rw [hnext] at hnode
        cases hnode
        obtain ⟨edge, hedge, hsame⟩ := List.any_eq_true.mp hknown
        exact ⟨edge, hedge, beq_iff_eq.mp hsame, fun hs => by rw [hedges edge hedge, hs]⟩
      · cases h
        refine ⟨fun edge hedge => ?_, ?_, fun d node hd hnode => ?_⟩
        · rcases List.mem_append.mp hedge with hold | hnew
          · exact hedges edge hold
          · rw [List.mem_singleton.mp hnew]
        · rintro d ⟨edge, hedge, hd, himp⟩
          exact ⟨edge, List.mem_append_left _ hedge, hd, himp⟩
        · cases hd
          rw [hnext] at hnode
          cases hnode
          exact ⟨_, List.mem_append_right edges (List.mem_singleton_self _), rfl, id⟩

/-- **The edges of a reduce cell** lead to every reduce cell that may follow it: of the
same terminal, in the state that the reduction goes to from a state it may uncover. -/
theorem cellEdges_ok {nodeForCell : List (Option ℕ)} {cell work work' : ℕ}
    {edges : List ProgressEdge}
    (h : cellEdges tables nodeForCell cell work maximumWork = .ok (work', edges))
    {productionId : ProductionId} {rank : UInt32} {production : Production}
    (hcell : tables.actions[cell]? = some (.reduce productionId rank))
    (hproduction : tables.productions[productionId]? = some production) {source d node : ℕ}
    (hsource : source < tables.stateCount)
    (hsame : production.popLen = 0 → source = cell / tables.terminalCount)
    (hgoto : tables.gotos[source * tables.nonterminalCount + production.lhs]? = some (some d))
    (hnode : nodeForCell[d * tables.terminalCount + cell % tables.terminalCount]? =
      some (some node)) :
    Reaches edges node (production.popLen < 2) := by
  simp only [cellEdges, bind_eq_ok, indexAt_eq_ok] at h
  obtain ⟨_, -, action, haction, h⟩ := h
  obtain rfl := Option.some_inj.mp (hcell.symm.trans haction)
  simp only [bind_eq_ok, indexAt_eq_ok] at h
  obtain ⟨production', hproduction', h⟩ := h
  obtain rfl := Option.some_inj.mp (hproduction.symm.trans hproduction')
  have hnil : Uniform (production.popLen < 2) [] := fun edge hedge => absurd hedge List.not_mem_nil
  split_ifs at h with hzero
  · obtain ⟨-, -, hreaches⟩ := addProgressEdge_ok h hnil
    exact hreaches d node (hsame hzero ▸ hgoto) hnode
  · have hloop := foldlM_ok (I := fun done (s : ℕ × List ProgressEdge) =>
      Uniform (production.popLen < 2) s.2 ∧ ∀ source ∈ done, ∀ d node,
        tables.gotos[source * tables.nonterminalCount + production.lhs]? = some (some d) →
        nodeForCell[d * tables.terminalCount + cell % tables.terminalCount]? = some (some node) →
        Reaches s.2 node (production.popLen < 2))
      h ⟨hnil, fun source hsource => absurd hsource List.not_mem_nil⟩ ?_
    · exact hloop.2 source (List.mem_range.mpr hsource) d node hgoto hnode
    · rintro done source' _ ⟨w, s⟩ ⟨w', s'⟩ - ⟨huniform, hdone⟩ hbody
      simp only [bind_eq_ok] at hbody
      obtain ⟨_, -, hbody⟩ := hbody
      obtain ⟨huniform', hkeep, hnew⟩ := addProgressEdge_ok hbody huniform
      refine ⟨huniform', fun other hother d node hgoto hnode => ?_⟩
      rcases List.mem_append.mp hother with hearlier | hlast
      · exact hkeep node (hdone other hearlier d node hgoto hnode)
      · rw [List.mem_singleton.mp hlast] at hgoto
        exact hnew d node hgoto hnode

/-- **The ranks of two cells that may follow each other.** -/
theorem reductionRanks_ok {work work' : ℕ} {ranks : List (Option UInt32)}
    (h : reductionRanks tables work maximumWork = .ok (work', ranks)) :
    ranks.length = tables.actions.length ∧
    ∀ cell productionId rank production source d nextProduction nextRank,
      tables.actions[cell]? = some (.reduce productionId rank) →
      tables.productions[productionId]? = some production →
      source < tables.stateCount →
      (production.popLen = 0 → source = cell / tables.terminalCount) →
      tables.gotos[source * tables.nonterminalCount + production.lhs]? = some (some d) →
      tables.actions[d * tables.terminalCount + cell % tables.terminalCount]? =
        some (.reduce nextProduction nextRank) →
      ∃ own next, ranks[cell]? = some (some own) ∧
        ranks[d * tables.terminalCount + cell % tables.terminalCount]? = some (some next) ∧
        next.toNat + (decide (production.popLen < 2)).toNat ≤ own.toNat := by
  simp only [reductionRanks, bind_eq_ok] at h
  obtain ⟨⟨_, numbered⟩, hnumber, ⟨_, edges⟩, hedges, ⟨_, byNode⟩, hranks, h⟩ := h
  obtain ⟨hiff, hall⟩ := numberCells_ok hnumber
  have hpush := foldlM_push (R := fun (cell : ℕ) (outgoing : List ProgressEdge) =>
    ∃ w w', cellEdges tables numbered.nodeForCell cell w maximumWork = .ok (w', outgoing))
    hedges rfl ?_
  · -- the ranks, cell by cell
    have hstored := foldlM_ok (I := fun done (s : ℕ × List (Option UInt32)) =>
      s.2.length = tables.actions.length ∧ ∀ node ∈ done, ∀ cell rank,
        numbered.cells[node]? = some cell → byNode[node]? = some rank →
        cell < tables.actions.length → s.2[cell]? = some (some rank)) h
      ⟨List.length_replicate, fun node hnode => absurd hnode List.not_mem_nil⟩ ?_
    · refine ⟨hstored.1, ?_⟩
      intro cell productionId rank production source d nextProduction nextRank hcell hproduction
        hsource hsame hgoto hnext
      obtain ⟨node, hnode⟩ := hall cell productionId rank hcell
      obtain ⟨nextNode, hnextNode⟩ := hall _ nextProduction nextRank hnext
      obtain ⟨hlt, -⟩ := List.getElem?_eq_some_iff.mp hnode
      obtain ⟨hltNext, -⟩ := List.getElem?_eq_some_iff.mp hnextNode
      obtain ⟨outgoing, houtgoing, cell', hcell', w, w', hcellEdges⟩ := Filled.get hpush hlt
      obtain rfl := Option.some_inj.mp (hnode.symm.trans hcell')
      obtain ⟨edge, hedge, rfl, himp⟩ := cellEdges_ok hcellEdges hcell hproduction hsource hsame
        hgoto ((hiff _ nextNode).mpr hnextNode)
      obtain ⟨own, next, hown, hnextRank, hle⟩ :=
        progressRanks_ok hranks ⟨outgoing, houtgoing, hedge⟩
      refine ⟨own, next, ?_, ?_, le_trans (Nat.add_le_add_left ?_ _) hle⟩
      · exact hstored.2 node (List.mem_range.mpr hlt) cell own hnode hown
          (List.getElem?_eq_some_iff.mp hcell).1
      · exact hstored.2 edge.destination (List.mem_range.mpr hltNext) _ next hnextNode hnextRank
          (List.getElem?_eq_some_iff.mp hnext).1
      · exact Bool.toNat_le_toNat fun hs => himp hs
    · rintro done node _ ⟨w, s⟩ ⟨w', s'⟩ - ⟨hlength, hdone⟩ hbody
      simp only [bind_eq_ok, indexAt_eq_ok] at hbody
      obtain ⟨_, -, cell, hcell, rank, hrank, hbody⟩ := hbody
      cases hbody
      refine ⟨by rw [List.length_set, hlength],
        fun node' hnode' cell' rank' hcell' hrank' hlt => ?_⟩
      by_cases hsame : cell = cell'
      · -- a cell has one number
        subst hsame
        have hnode : some node = some node' :=
          Option.some_inj.mp
            (((hiff cell node).mpr hcell).symm.trans ((hiff cell node').mpr hcell'))
        obtain rfl := Option.some_inj.mp hnode
        obtain rfl := Option.some_inj.mp (hrank.symm.trans hrank')
        exact List.getElem?_set_self (hlength ▸ hlt)
      · rcases List.mem_append.mp hnode' with hearlier | hlast
        · rw [List.getElem?_set_ne hsame]
          exact hdone node' hearlier cell' rank' hcell' hrank' hlt
        · rw [List.mem_singleton.mp hlast, hcell] at hcell'
          exact absurd (Option.some_inj.mp hcell') hsame
  · rintro ⟨w, s⟩ cell ⟨w', s'⟩ hbody
    simp only [bind_eq_ok] at hbody
    obtain ⟨⟨v, outgoing⟩, hcellEdges, hbody⟩ := hbody
    cases hbody
    exact ⟨outgoing, rfl, w, v, hcellEdges⟩

/-- **What a ranked cell was made of.** -/
theorem storeRanks_ok {actions ranked : List Action} {ranks : List (Option UInt32)}
    (h : storeRanks actions ranks = .ok ranked) (hlength : ranks.length = actions.length)
    {cell : ℕ} {production : ProductionId} {rank : UInt32}
    (hcell : ranked[cell]? = some (.reduce production rank)) :
    ranks[cell]? = some (some rank) ∧ ∃ old, actions[cell]? = some (.reduce production old) := by
  induction actions generalizing ranks ranked cell with
  | nil =>
    cases h
    cases hcell
  | cons action actions ih =>
    cases ranks with
    | nil => cases hlength
    | cons first ranks =>
      simp only [storeRanks, bind_eq_ok] at h
      obtain ⟨stored, hstored, rest, hrest, h⟩ := h
      cases h
      cases cell with
      | succ cell => exact ih hrest (Nat.succ.inj hlength) hcell
      | zero =>
        obtain rfl := Option.some_inj.mp hcell
        unfold storeRank at hstored
        cases action with
        | reduce production' old =>
          cases first with
          | none => cases hstored
          | some first =>
            cases hstored
            exact ⟨rfl, old, rfl⟩
        | error => cases hstored
        | shift d => cases hstored
        | accept => cases hstored

end

end GreatGramma
