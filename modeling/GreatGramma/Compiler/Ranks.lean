import Mathlib.Algebra.GroupWithZero.Nat
import Mathlib.Algebra.Order.BigOperators.Group.List
import Mathlib.Algebra.Order.Group.Nat
import GreatGramma.Compiler.Errors
import GreatGramma.Library.Traversal

/-!
# Reduction ranks

The part of `lr.rs` that the compiler adds to an LALR table: a rank for every reduce cell.

## The algorithm

The reduce cells of one terminal form a graph, with an edge from a cell to every cell whose
reduction may follow it; an edge is strict when the first of the two does not shrink the stack.
The graph is condensed into its components, a strict edge inside a component is refused, and the
components are ranked along their order.  The components are found by two depth-first searches with
stacks of their own, and the order is that in which nodes are released once their incoming edges
are counted off.

## The model

The source's vectors are lists, and indexing outside of one is the failure `panic`, as the source
would panic there.  The mark of a node without a component, `usize::MAX`, is `none`.  Reservations
succeed.  Work is charged where the source charges it, saturating at the largest `u64`.

The two searches and the release of nodes in `dag_ranks` are loops without a counter; each comes
with the measure that ends it.  For the searches it counts the nodes not found yet and what the
stack has still to do (`finishingTurn_left`, `componentTurn_measure`), and for the release the
nodes with incoming edges (`releaseEdge_measure`).
-/

namespace GreatGramma

open Traversal

/-! ## Failures and work -/

/-- Indexing a vector. -/
def indexAt {α : Type} (values : List α) (i : ℕ) : Except CompileFailure α :=
  match values[i]? with
  | none => .error .panic
  | some value => .ok value

/-- `charge`: the work done so far, saturating at the largest `u64`. -/
def charge (work amount maximum : ℕ) : Except CompileFailure ℕ :=
  let work := min (work + amount) (2 ^ 64 - 1)
  if work > maximum then .error (.error (.compilerWorkLimit work maximum)) else .ok work

theorem indexAt_eq_ok {α : Type} {values : List α} {i : ℕ} {value : α} :
    indexAt values i = .ok value ↔ values[i]? = some value := by
  unfold indexAt
  cases values[i]? <;> simp

/-! ## The finishing order -/

/-- An edge of a progress graph. -/
structure ProgressEdge where
  destination : ℕ
  strict : Bool
  deriving DecidableEq

/-- A depth-first search under way.  The stack holds nodes with the number of the edge to
look at next, the top of the stack first. -/
structure FinishingSearch where
  visited : List Bool
  order : List ℕ
  stack : List (ℕ × ℕ)
  work : ℕ

/-- One turn of the inner loop of `finishing_order`, at the top of the stack. -/
def finishingTurn (edges : List (List ProgressEdge)) (maximumWork : ℕ) (search : FinishingSearch)
    (node next : ℕ) (rest : List (ℕ × ℕ)) : Except CompileFailure FinishingSearch := do
  let work ← charge search.work 1 maximumWork
  let outgoing ← indexAt edges node
  match outgoing[next]? with
  | some edge =>
    let seen ← indexAt search.visited edge.destination
    if seen then return { search with work, stack := (node, next + 1) :: rest }
    else
      return { search with
        work
        visited := search.visited.set edge.destination true
        stack := (edge.destination, 0) :: (node, next + 1) :: rest }
  | none => return { search with work, order := search.order ++ [node], stack := rest }

/-- The edges that the frames of a stack have still to look at. -/
def pendingEdges (edges : List (List ProgressEdge)) (stack : List (ℕ × ℕ)) : ℕ :=
  (stack.map fun (node, next) => ((edges[node]?).getD []).length - next).sum

/-- What is left of a search: every node not visited yet stands for a frame with at most
all the edges. -/
def FinishingSearch.left (edges : List (List ProgressEdge)) (search : FinishingSearch) : ℕ :=
  search.visited.count false * ((edges.map List.length).sum + 1) +
    (pendingEdges edges search.stack + search.stack.length)

/-- **A turn of the search makes progress**: a node more is visited, or a frame has less
to do. -/
theorem finishingTurn_left {edges : List (List ProgressEdge)} {maximumWork : ℕ}
    {search search' : FinishingSearch} {node next : ℕ} {rest : List (ℕ × ℕ)}
    (hstack : search.stack = (node, next) :: rest)
    (h : finishingTurn edges maximumWork search node next rest = .ok search') :
    search'.left edges < search.left edges := by
  simp only [finishingTurn, bind_eq_ok, indexAt_eq_ok] at h
  obtain ⟨work, -, outgoing, houtgoing, h⟩ := h
  have hpending : pendingEdges edges ((node, next) :: rest) =
      (outgoing.length - next) + pendingEdges edges rest := by
    simp only [pendingEdges, List.map_cons, List.sum_cons, houtgoing, Option.getD_some]
  have hpending' : pendingEdges edges ((node, next + 1) :: rest) =
      (outgoing.length - (next + 1)) + pendingEdges edges rest := by
    simp only [pendingEdges, List.map_cons, List.sum_cons, houtgoing, Option.getD_some]
  simp only [FinishingSearch.left, hstack, hpending]
  cases hedge : outgoing[next]? with
  | some edge =>
    simp only [hedge, bind_eq_ok, indexAt_eq_ok] at h
    obtain ⟨seen, hseen, h⟩ := h
    obtain ⟨hnext, -⟩ := List.getElem?_eq_some_iff.mp hedge
    split_ifs at h with hvisited
    · cases h
      simp only [hpending', List.length_cons]
      omega
    · cases h
      obtain ⟨hlt, hget⟩ := List.getElem?_eq_some_iff.mp hseen
      have hfalse : seen = false := Bool.eq_false_iff.mpr hvisited
      have hpos : 0 < search.visited.count false :=
        List.count_pos_iff.mpr (hfalse ▸ hget ▸ List.getElem_mem hlt)
      have hcount : (search.visited.set edge.destination true).count false + 1 =
          search.visited.count false := by
        have hset : ((true : Bool) == false) = false := rfl
        simp only [List.count_set hlt, hget, hfalse, hset, beq_self_eq_true, if_true,
          Bool.false_eq_true, if_false]
        omega
      -- the frame pushed has at most all the edges to look at
      have hframe : ((edges[edge.destination]?).getD []).length ≤
          (edges.map List.length).sum := by
        cases hget' : edges[edge.destination]? with
        | none => exact Nat.zero_le _
        | some found =>
          exact List.le_sum_of_mem (List.mem_map_of_mem (List.mem_of_getElem? hget'))
      have hpush : pendingEdges edges ((edge.destination, 0) :: (node, next + 1) :: rest) =
          ((edges[edge.destination]?).getD []).length +
            ((outgoing.length - (next + 1)) + pendingEdges edges rest) := by
        rw [← hpending']
        rfl
      rw [← hcount, Nat.add_mul]
      simp only [hpush, List.length_cons]
      omega
  | none =>
    simp only [hedge] at h
    cases h
    simp only [List.length_cons]
    omega

/-- The inner loop of `finishing_order`. -/
def finishFrom (edges : List (List ProgressEdge)) (maximumWork : ℕ) (search : FinishingSearch) :
    Except CompileFailure FinishingSearch :=
  match _hstack : search.stack with
  | [] => .ok search
  | (node, next) :: rest =>
    match _hturn : finishingTurn edges maximumWork search node next rest with
    | .error failure => .error failure
    | .ok search => finishFrom edges maximumWork search
termination_by search.left edges
decreasing_by exact finishingTurn_left _hstack _hturn

/-- The search from one node of `finishing_order`. -/
def finishStart (edges : List (List ProgressEdge)) (maximumWork : ℕ) (search : FinishingSearch)
    (start : ℕ) : Except CompileFailure FinishingSearch := do
  let work ← charge search.work 1 maximumWork
  let seen ← indexAt search.visited start
  if seen then return { search with work }
  else
    finishFrom edges maximumWork
      { search with work, visited := search.visited.set start true, stack := [(start, 0)] }

/-- `finishing_order`. -/
def finishingOrder (edges : List (List ProgressEdge)) (work maximumWork : ℕ) :
    Except CompileFailure (ℕ × List ℕ) := do
  let search ← (List.range edges.length).foldlM (finishStart edges maximumWork)
    ⟨List.replicate edges.length false, [], [], work⟩
  return (search.work, search.order)

/-! ## Components -/

/-- `reverse`: the sources of the edges into every node. -/
def reverseEdges (edges : List (List ProgressEdge)) (work maximumWork : ℕ) :
    Except CompileFailure (ℕ × List (List ℕ)) :=
  (List.range edges.length).foldlM
    (fun (work, reverse) source => do
      let outgoing ← indexAt edges source
      outgoing.foldlM
        (fun (work, reverse) edge => do
          let work ← charge work 1 maximumWork
          let sources ← indexAt reverse edge.destination
          return (work, reverse.set edge.destination (sources ++ [source])))
        (work, reverse))
    (work, List.replicate edges.length [])

/-- A search on the reversed graph under way, the top of the stack first.  `none` stands
for the `usize::MAX` that marks a node without a component. -/
structure ComponentSearch where
  components : List (Option ℕ)
  stack : List ℕ
  work : ℕ

/-- One predecessor of the node taken off the stack. -/
def reachPredecessor (component maximumWork : ℕ) (search : ComponentSearch) (predecessor : ℕ) :
    Except CompileFailure ComponentSearch := do
  let work ← charge search.work 1 maximumWork
  match ← indexAt search.components predecessor with
  | none =>
    return ⟨search.components.set predecessor (some component), predecessor :: search.stack, work⟩
  | some _ => return { search with work }

/-- One turn of the inner loop of `strongly_connected_components`. -/
def componentTurn (reverse : List (List ℕ)) (component maximumWork : ℕ) (search : ComponentSearch)
    (node : ℕ) (rest : List ℕ) : Except CompileFailure ComponentSearch := do
  let work ← charge search.work 1 maximumWork
  let predecessors ← indexAt reverse node
  predecessors.foldlM (reachPredecessor component maximumWork) { search with work, stack := rest }

/-- **A turn of the search makes progress**: what it adds to the stack it takes from the
unassigned nodes. -/
theorem componentTurn_measure {reverse : List (List ℕ)} {component maximumWork : ℕ}
    {search search' : ComponentSearch} {node : ℕ} {rest : List ℕ}
    (hstack : search.stack = node :: rest)
    (h : componentTurn reverse component maximumWork search node rest = .ok search') :
    search'.components.count none + search'.stack.length <
      search.components.count none + search.stack.length := by
  simp only [componentTurn, bind_eq_ok] at h
  obtain ⟨work, -, predecessors, -, h⟩ := h
  have hsame : search'.components.count none + search'.stack.length =
      search.components.count none + rest.length := by
    refine foldlM_ok (I := fun _ (s : ComponentSearch) =>
      s.components.count none + s.stack.length =
        search.components.count none + rest.length) h rfl ?_
    intro _ predecessor _ s s' _ hs hstep
    simp only [reachPredecessor, bind_eq_ok, indexAt_eq_ok] at hstep
    obtain ⟨_, -, current, hcurrent, hstep⟩ := hstep
    cases current with
    | some c =>
      cases hstep
      exact hs
    | none =>
      cases hstep
      obtain ⟨hlt, hget⟩ := List.getElem?_eq_some_iff.mp hcurrent
      have hpos : 0 < s.components.count none :=
        List.count_pos_iff.mpr (hget ▸ List.getElem_mem hlt)
      rw [List.count_set hlt, hget, List.length_cons]
      simp only [beq_self_eq_true, if_true, Option.some_beq_none, Bool.false_eq_true, if_false]
      omega
  rw [hsame, hstack, List.length_cons]
  omega

/-- The inner loop of `strongly_connected_components`. -/
def componentFrom (reverse : List (List ℕ)) (component maximumWork : ℕ)
    (search : ComponentSearch) : Except CompileFailure ComponentSearch :=
  match _hstack : search.stack with
  | [] => .ok search
  | node :: rest =>
    match _hturn : componentTurn reverse component maximumWork search node rest with
    | .error failure => .error failure
    | .ok search => componentFrom reverse component maximumWork search
termination_by search.components.count none + search.stack.length
decreasing_by exact componentTurn_measure _hstack _hturn

/-- One start of the outer loop of `strongly_connected_components`. -/
def componentStart (reverse : List (List ℕ)) (maximumWork : ℕ)
    (state : ℕ × List (Option ℕ) × ℕ) (start : ℕ) :
    Except CompileFailure (ℕ × List (Option ℕ) × ℕ) := do
  let (work, components, component) := state
  let work ← charge work 1 maximumWork
  match ← indexAt components start with
  | some _ => return (work, components, component)
  | none =>
    let search ← componentFrom reverse component maximumWork
      ⟨components.set start (some component), [start], work⟩
    return (search.work, search.components, component + 1)

/-- `strongly_connected_components`. -/
def stronglyConnectedComponents (edges : List (List ProgressEdge)) (work maximumWork : ℕ) :
    Except CompileFailure (ℕ × List ℕ) := do
  let (work, order) ← finishingOrder edges work maximumWork
  let (work, reverse) ← reverseEdges edges work maximumWork
  let (work, components, _) ← order.reverse.foldlM (componentStart reverse maximumWork)
    (work, List.replicate edges.length none, 0)
  return (work, components.map fun component => component.getD usizeMax)

/-! ## Ranks of an acyclic graph -/

/-- The indegree of every node. -/
def countIndegrees (edges : List (List ProgressEdge)) (work maximumWork : ℕ) :
    Except CompileFailure (ℕ × List ℕ) :=
  edges.foldlM
    (fun (work, indegree) destinations =>
      destinations.foldlM
        (fun (work, indegree) edge => do
          let work ← charge work 1 maximumWork
          let degree ← indexAt indegree edge.destination
          return (work, indegree.set edge.destination (degree + 1)))
        (work, indegree))
    (work, List.replicate edges.length 0)

/-- The nodes without incoming edges. -/
def initialQueue (indegree : List ℕ) (work maximumWork : ℕ) :
    Except CompileFailure (ℕ × List ℕ) :=
  (List.range indegree.length).foldlM
    (fun (work, queue) node => do
      let work ← charge work 1 maximumWork
      let degree ← indexAt indegree node
      if degree = 0 then return (work, queue ++ [node]) else return (work, queue))
    (work, [])

/-- Nodes being released in the order of their dependencies. -/
structure Release where
  indegree : List ℕ
  queue : List ℕ
  order : List ℕ
  work : ℕ

/-- One edge of the node being released. -/
def releaseEdge (maximumWork : ℕ) (release : Release) (edge : ProgressEdge) :
    Except CompileFailure Release := do
  let work ← charge release.work 1 maximumWork
  let degree ← indexAt release.indegree edge.destination
  if degree = 0 then throw .panic
  else
    let indegree := release.indegree.set edge.destination (degree - 1)
    if degree - 1 = 0 then
      return { release with work, indegree, queue := release.queue ++ [edge.destination] }
    else return { release with work, indegree }

/-- One turn of the loop over the queue. -/
def releaseTurn (edges : List (List ProgressEdge)) (maximumWork : ℕ) (release : Release)
    (node : ℕ) : Except CompileFailure Release := do
  let work ← charge release.work 1 maximumWork
  let outgoing ← indexAt edges node
  outgoing.foldlM (releaseEdge maximumWork) { release with work, order := release.order ++ [node] }

/-- **A node more in the queue is a node less with incoming edges.** -/
theorem releaseEdge_measure {maximumWork : ℕ} {release release' : Release} {edge : ProgressEdge}
    (h : releaseEdge maximumWork release edge = .ok release') :
    release'.indegree.countP (0 < ·) + release'.queue.length =
      release.indegree.countP (0 < ·) + release.queue.length := by
  simp only [releaseEdge, bind_eq_ok, indexAt_eq_ok] at h
  obtain ⟨work, -, degree, hdegree, h⟩ := h
  obtain ⟨hlt, hget⟩ := List.getElem?_eq_some_iff.mp hdegree
  split_ifs at h with hzero hlast
  all_goals
    have hpositive : decide (0 < degree) = true := decide_eq_true (Nat.pos_of_ne_zero hzero)
    have hpos : 0 < release.indegree.countP (0 < ·) :=
      List.countP_pos_iff.mpr ⟨degree, hget ▸ List.getElem_mem hlt, hpositive⟩
  · cases h
    have hnone : decide (0 < degree - 1) = false := by rw [hlast]; rfl
    simp only [List.countP_set hlt, hget, hpositive, hnone, if_true, Bool.false_eq_true, if_false,
      List.length_append, List.length_singleton]
    omega
  · cases h
    have hsome : decide (0 < degree - 1) = true := decide_eq_true (Nat.pos_of_ne_zero hlast)
    simp only [List.countP_set hlt, hget, hpositive, hsome, if_true]
    omega

theorem releaseTurn_measure {edges : List (List ProgressEdge)} {maximumWork : ℕ}
    {release release' : Release} {node : ℕ}
    (h : releaseTurn edges maximumWork release node = .ok release') :
    release'.indegree.countP (0 < ·) + release'.queue.length =
      release.indegree.countP (0 < ·) + release.queue.length := by
  simp only [releaseTurn, bind_eq_ok] at h
  obtain ⟨work, -, outgoing, -, h⟩ := h
  refine foldlM_ok (I := fun _ (s : Release) =>
    s.indegree.countP (0 < ·) + s.queue.length =
      release.indegree.countP (0 < ·) + release.queue.length) h rfl ?_
  intro _ edge _ s s' _ hs hstep
  exact (releaseEdge_measure hstep).trans hs

/-- The loop over the queue, from a cursor on. -/
def releaseFrom (edges : List (List ProgressEdge)) (maximumWork : ℕ) (release : Release)
    (cursor : ℕ) : Except CompileFailure Release :=
  if hcursor : cursor < release.queue.length then
    match _hturn : releaseTurn edges maximumWork release release.queue[cursor] with
    | .error failure => .error failure
    | .ok release => releaseFrom edges maximumWork release (cursor + 1)
  else .ok release
termination_by release.indegree.countP (0 < ·) + release.queue.length - cursor
decreasing_by
  rw [releaseTurn_measure _hturn]
  omega

/-- One edge of the node being ranked. -/
def rankEdge (maximumWork node : ℕ) (state : ℕ × List UInt32) (edge : ProgressEdge) :
    Except CompileFailure (ℕ × List UInt32) := do
  let (work, ranks) := state
  let work ← charge work 1 maximumWork
  let increment : UInt32 := if edge.strict then 1 else 0
  let own ← indexAt ranks node
  let next ← indexAt ranks edge.destination
  -- `checked_add`
  if next.toNat + increment.toNat < 2 ^ 32 then
    return (work, ranks.set node (max own (next + increment)))
  else throw (.error .noReductionProgressWitness)

/-- One node of the loop that ranks. -/
def rankNode (edges : List (List ProgressEdge)) (maximumWork : ℕ) (state : ℕ × List UInt32)
    (node : ℕ) : Except CompileFailure (ℕ × List UInt32) := do
  let (work, ranks) := state
  let work ← charge work 1 maximumWork
  let outgoing ← indexAt edges node
  outgoing.foldlM (rankEdge maximumWork node) (work, ranks)

/-- `dag_ranks`. -/
def dagRanks (edges : List (List ProgressEdge)) (work maximumWork : ℕ) :
    Except CompileFailure (ℕ × List UInt32) := do
  let (work, indegree) ← countIndegrees edges work maximumWork
  let (work, queue) ← initialQueue indegree work maximumWork
  let release ← releaseFrom edges maximumWork ⟨indegree, queue, [], work⟩ 0
  if release.order.length ≠ edges.length then throw (.error .noReductionProgressWitness)
  else
    release.order.reverse.foldlM (rankNode edges maximumWork)
      (release.work, List.replicate edges.length 0)

/-! ## Ranks of a progress graph -/

/-- Refuses a strict edge inside a component. -/
def checkStrictEdges (edges : List (List ProgressEdge)) (components : List ℕ)
    (work maximumWork : ℕ) : Except CompileFailure ℕ :=
  (List.range edges.length).foldlM
    (fun work source => do
      let outgoing ← indexAt edges source
      outgoing.foldlM
        (fun work edge => do
          let work ← charge work 1 maximumWork
          if edge.strict then
            let own ← indexAt components source
            let other ← indexAt components edge.destination
            if own = other then throw (.error .noReductionProgressWitness) else return work
          else return work)
        work)
    work

/-- An edge between components: it is added, or joined to the one already there. -/
def joinEdge (destination : ℕ) (strict : Bool) : List ProgressEdge → List ProgressEdge
  | [] => [⟨destination, strict⟩]
  | known :: rest =>
    if known.destination = destination then { known with strict := known.strict || strict } :: rest
    else known :: joinEdge destination strict rest

/-- One edge of the loop that condenses the graph. -/
def condenseEdge (components : List ℕ) (maximumWork sourceComponent : ℕ)
    (state : ℕ × List (List ProgressEdge)) (edge : ProgressEdge) :
    Except CompileFailure (ℕ × List (List ProgressEdge)) := do
  let (work, componentEdges) := state
  let work ← charge work 1 maximumWork
  let destinationComponent ← indexAt components edge.destination
  if sourceComponent = destinationComponent then return (work, componentEdges)
  else
    let knownEdges ← indexAt componentEdges sourceComponent
    let work ← charge work knownEdges.length maximumWork
    return (work, componentEdges.set sourceComponent
      (joinEdge destinationComponent edge.strict knownEdges))

/-- The edges between components. -/
def condense (edges : List (List ProgressEdge)) (components : List ℕ) (componentCount : ℕ)
    (work maximumWork : ℕ) : Except CompileFailure (ℕ × List (List ProgressEdge)) :=
  (List.range edges.length).foldlM
    (fun (work, componentEdges) source => do
      let outgoing ← indexAt edges source
      let sourceComponent ← indexAt components source
      outgoing.foldlM (condenseEdge components maximumWork sourceComponent) (work, componentEdges))
    (work, List.replicate componentCount [])

/-- The number of components: one more than the largest number. -/
def componentCount (components : List ℕ) : ℕ :=
  match components.max? with
  | none => 0
  | some maximum => maximum + 1

/-- `progress_ranks`. -/
def progressRanks (edges : List (List ProgressEdge)) (work maximumWork : ℕ) :
    Except CompileFailure (ℕ × List UInt32) := do
  let (work, components) ← stronglyConnectedComponents edges work maximumWork
  let work ← checkStrictEdges edges components work maximumWork
  let work ← charge work components.length maximumWork
  let (work, componentEdges) ←
    condense edges components (componentCount components) work maximumWork
  let (work, componentRanks) ← dagRanks componentEdges work maximumWork
  components.foldlM
    (fun (work, ranks) component => do
      let work ← charge work 1 maximumWork
      match componentRanks[component]? with
      | none => throw (.error .noReductionProgressWitness)
      | some rank => return (work, ranks ++ [rank]))
    (work, [])

/-! ## Ranks of the reduce cells -/

/-- The reduce cells and their numbers. -/
structure ReduceCells where
  nodeForCell : List (Option ℕ)
  cells : List ℕ

/-- Numbers the reduce cells in the order of the table. -/
def numberCells (actions : List Action) (work maximumWork : ℕ) :
    Except CompileFailure (ℕ × ReduceCells) :=
  (List.range actions.length).foldlM
    (fun (work, numbered) cell => do
      let work ← charge work 1 maximumWork
      match ← indexAt actions cell with
      | .reduce _ _ =>
        return (work, ⟨numbered.nodeForCell.set cell (some numbered.cells.length),
          numbered.cells ++ [cell]⟩)
      | _ => return (work, numbered))
    (work, ⟨List.replicate actions.length none, []⟩)

/-- `add_progress_edge`. -/
def addProgressEdge (edges : List ProgressEdge) (gotos : List (Option ParserStateId))
    (source lhs terminal terminalCount nonterminalCount : ℕ) (nodeForCell : List (Option ℕ))
    (strict : Bool) (work maximumWork : ℕ) : Except CompileFailure (ℕ × List ProgressEdge) := do
  let work ← charge work 2 maximumWork
  match ← indexAt gotos (source * nonterminalCount + lhs) with
  | none => return (work, edges)
  | some destination =>
    match ← indexAt nodeForCell (destination * terminalCount + terminal) with
    | none => return (work, edges)
    | some nextNode =>
      let work ← charge work edges.length maximumWork
      if edges.any fun edge => edge.destination == nextNode then return (work, edges)
      else return (work, edges ++ [⟨nextNode, strict⟩])

/-- The shape of the tables that `reduction_ranks` reads. -/
structure RankTables where
  actions : List Action
  gotos : List (Option ParserStateId)
  productions : List Production
  stateCount : ℕ
  terminalCount : ℕ
  nonterminalCount : ℕ

/-- The outgoing edges of one reduce cell. -/
def cellEdges (tables : RankTables) (nodeForCell : List (Option ℕ)) (cell : ℕ)
    (work maximumWork : ℕ) : Except CompileFailure (ℕ × List ProgressEdge) := do
  let work ← charge work 1 maximumWork
  match ← indexAt tables.actions cell with
  | .reduce productionId _ =>
    let state := cell / tables.terminalCount
    let terminal := cell % tables.terminalCount
    let production ← indexAt tables.productions productionId
    let strict : Bool := production.popLen < 2
    if production.popLen = 0 then
      addProgressEdge [] tables.gotos state production.lhs terminal tables.terminalCount
        tables.nonterminalCount nodeForCell strict work maximumWork
    else
      (List.range tables.stateCount).foldlM
        (fun (work, edges) source => do
          let work ← charge work 1 maximumWork
          addProgressEdge edges tables.gotos source production.lhs terminal tables.terminalCount
            tables.nonterminalCount nodeForCell strict work maximumWork)
        (work, [])
  | _ => return (work, [])

/-- `reduction_ranks`: the rank of every reduce cell.  The productions are those of the
Yacc grammar, by their left-hand sides and lengths. -/
def reductionRanks (tables : RankTables) (work maximumWork : ℕ) :
    Except CompileFailure (ℕ × List (Option UInt32)) := do
  let (work, numbered) ← numberCells tables.actions work maximumWork
  let (work, edges) ← numbered.cells.foldlM
    (fun (work, edges) cell => do
      let (work, outgoing) ← cellEdges tables numbered.nodeForCell cell work maximumWork
      return (work, edges ++ [outgoing]))
    (work, [])
  let (work, ranks) ← progressRanks edges work maximumWork
  (List.range numbered.cells.length).foldlM
    (fun (work, byCell) node => do
      let work ← charge work 1 maximumWork
      let cell ← indexAt numbered.cells node
      let rank ← indexAt ranks node
      return (work, byCell.set cell (some rank)))
    (work, List.replicate tables.actions.length none)

/-- The rank of one cell, as `lower_lalr` stores it. -/
def storeRank (action : Action) (rank : Option UInt32) : Except CompileFailure Action :=
  match action with
  | .reduce production _ =>
    match rank with
    | none => .error (.error .noReductionProgressWitness)
    | some rank => .ok (.reduce production rank)
  | action => .ok action

/-- The end of `lower_lalr`: every reduce cell gets its rank. -/
def storeRanks : List Action → List (Option UInt32) → Except CompileFailure (List Action)
  | action :: actions, rank :: ranks => do
    let action ← storeRank action rank
    let actions ← storeRanks actions ranks
    return action :: actions
  | actions, _ => .ok actions

end GreatGramma
