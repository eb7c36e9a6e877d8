import GreatGramma.Compiler.Budget
import GreatGramma.Compiler.Dag
import GreatGramma.Library.FinishingOrder

/-!
# The component search

`strongly_connected_components` searches the graph twice.  The first search is the one of
`Library.FinishingOrder`: a turn of its inner loop enters a node, finishes one, or moves on to the
next edge.  The second goes against the edges, from the nodes in the reverse of that order, and
gives every node that it finds the number of its start.

## The first search

It keeps a stack of frames, each a node with the number of the edge to follow next.  The invariant
says that the frames are a path, that the nodes that have been visited are those on the stack and
those finished, and that the edges a frame has moved past lead to visited nodes
(`FinishingSearch.Sound`).  What it records is the order of a depth-first search as the library
defines it, and the library has what follows from that: of two classes of mutual reachability, the
one that leads to the other is finished last.

## The second search

It finds, from a node that has no component, all nodes that lead to it and have none.  Taken in
the reverse of the finishing order, these are the nodes that reach the start and are reached by
it: everything else that leads to the start has a component already (`ComponentsSound`).  So the
numbers that are given out are those of whole classes, all of them are used, and no edge leads to
a smaller one (`IsComponents`).

## Work

The searches are followed at the largest maximum, where nothing is refused for its work; that every
smaller maximum which covers the need comes out the same is `Budgeted`.
-/

namespace GreatGramma

open FinishingOrder Relation Traversal

section
variable {edges : List (List ProgressEdge)}

/-- Every edge leads to a node of the graph. -/
def InRange (edges : List (List ProgressEdge)) : Prop :=
  ∀ u edge, HasEdge edges u edge → edge.destination < edges.length

theorem InRange.of_forall
    (h : ∀ outgoing ∈ edges, ∀ edge ∈ outgoing, edge.destination < edges.length) :
    InRange edges := by
  rintro u edge ⟨outgoing, houtgoing, hedge⟩
  exact h outgoing (List.mem_of_getElem? houtgoing) edge hedge

theorem LeadsTo.lt {u v : ℕ} (h : LeadsTo edges u v) : u < edges.length := by
  obtain ⟨edge, hedge, -⟩ := h
  exact hedge.lt

theorem InRange.lt (hrange : InRange edges) {u v : ℕ} (h : LeadsTo edges u v) :
    v < edges.length := by
  obtain ⟨edge, hedge, rfl⟩ := h
  exact hrange u edge hedge

/-! ## The first search -/

/-- **The invariant of the first search.** -/
structure FinishingSearch.Sound (edges : List (List ProgressEdge)) (search : FinishingSearch) :
    Prop where
  depthFirst : DepthFirst (LeadsTo edges) search.order (search.stack.map Prod.fst)
  length : search.visited.length = edges.length
  visited : ∀ v : ℕ, search.visited[v]? = some true ↔
    v ∈ search.order ∨ v ∈ search.stack.map Prod.fst
  /-- The edges that a frame has moved past lead to visited nodes. -/
  passed : ∀ node next, (node, next) ∈ search.stack → ∃ outgoing, edges[node]? = some outgoing ∧
    ∀ edge ∈ outgoing.take next, search.visited[edge.destination]? = some true

/-- A frame that moves past an edge to a visited node. -/
theorem FinishingSearch.Sound.move {search : FinishingSearch} {node next : ℕ}
    {rest : List (ℕ × ℕ)} {outgoing : List ProgressEdge} {edge : ProgressEdge}
    (hs : search.Sound edges) (work : ℕ) (above : List (ℕ × ℕ))
    (hstack : search.stack = above ++ (node, next) :: rest)
    (houtgoing : edges[node]? = some outgoing) (hedge : outgoing[next]? = some edge)
    (hseen : search.visited[edge.destination]? = some true) :
    FinishingSearch.Sound edges
      { search with work, stack := above ++ (node, next + 1) :: rest } := by
  have hnodes : (above ++ (node, next + 1) :: rest).map Prod.fst = search.stack.map Prod.fst := by
    rw [hstack, List.map_append, List.map_append]
    rfl
  refine ⟨?_, hs.length, fun v => ?_, fun node' next' hmem => ?_⟩
  · rw [hnodes]
    exact hs.depthFirst
  · rw [hnodes]
    exact hs.visited v
  · have hmem' : (node', next') ∈ search.stack ∨ node' = node ∧ next' = next + 1 := by
      rcases List.mem_append.mp hmem with habove | hbelow
      · exact Or.inl (hstack ▸ List.mem_append_left _ habove)
      · rcases List.mem_cons.mp hbelow with heq | hrest
        · exact Or.inr (Prod.mk.inj heq)
        · exact Or.inl (hstack ▸ List.mem_append_right _ (List.mem_cons_of_mem _ hrest))
    rcases hmem' with hold | ⟨rfl, rfl⟩
    · exact hs.passed node' next' hold
    · obtain ⟨_, houtgoing', hpassed⟩ :=
        hs.passed node' next (hstack ▸ List.mem_append_right _ List.mem_cons_self)
      obtain rfl := Option.some_inj.mp (houtgoing'.symm.trans houtgoing)
      refine ⟨_, houtgoing, fun edge' hedge' => ?_⟩
      rw [List.take_add_one, hedge, List.mem_append] at hedge'
      rcases hedge' with hold | hnew
      · exact hpassed edge' hold
      · rw [List.mem_singleton.mp hnew]
        exact hseen

theorem FinishingSearch.Sound.enter {search : FinishingSearch} {v : ℕ} (work : ℕ)
    (hs : search.Sound edges) (hv : search.visited[v]? = some false)
    (hparent : ∀ parent ∈ (search.stack.map Prod.fst).head?, LeadsTo edges parent v) :
    FinishingSearch.Sound edges { search with
      work, visited := search.visited.set v true, stack := (v, 0) :: search.stack } where
  depthFirst := by
    have hnew : ¬(v ∈ search.order ∨ v ∈ search.stack.map Prod.fst) := by
      rw [← hs.visited v, hv]
      exact fun h => Bool.false_ne_true (Option.some_inj.mp h)
    rw [not_or] at hnew
    exact hs.depthFirst.enter hparent hnew.1 hnew.2
  length := by
    rw [List.length_set]
    exact hs.length
  visited w := by
    show (search.visited.set v true)[w]? = some true ↔
      w ∈ search.order ∨ w ∈ v :: search.stack.map Prod.fst
    by_cases heq : v = w
    · subst heq
      obtain ⟨hlt, -⟩ := List.getElem?_eq_some_iff.mp hv
      rw [List.getElem?_set_self hlt]
      exact ⟨fun _ => Or.inr List.mem_cons_self, fun _ => rfl⟩
    · rw [List.getElem?_set_ne heq, hs.visited w, List.mem_cons]
      have hne : ¬w = v := fun h => heq h.symm
      rw [or_iff_right hne]
  passed node next hmem := by
    have hkept : ∀ w : ℕ, search.visited[w]? = some true →
        (search.visited.set v true)[w]? = some true := by
      intro w hw
      have hne : v ≠ w := fun h => by
        rw [← h, hv] at hw
        exact Bool.false_ne_true (Option.some_inj.mp hw)
      rw [List.getElem?_set_ne hne]
      exact hw
    rcases List.mem_cons.mp hmem with heq | hmem
    · obtain ⟨rfl, rfl⟩ := Prod.mk.inj heq
      obtain ⟨hlt, -⟩ := List.getElem?_eq_some_iff.mp hv
      rw [hs.length] at hlt
      refine ⟨_, List.getElem?_eq_getElem hlt, fun edge hedge => ?_⟩
      rw [List.take_zero] at hedge
      exact absurd hedge List.not_mem_nil
    · obtain ⟨outgoing, houtgoing, hpassed⟩ := hs.passed node next hmem
      exact ⟨outgoing, houtgoing, fun edge hedge => hkept _ (hpassed edge hedge)⟩

theorem FinishingSearch.Sound.finish {search : FinishingSearch} {node next : ℕ}
    {rest : List (ℕ × ℕ)} {outgoing : List ProgressEdge} (work : ℕ) (hs : search.Sound edges)
    (hstack : search.stack = (node, next) :: rest) (houtgoing : edges[node]? = some outgoing)
    (hnext : outgoing.length ≤ next) :
    FinishingSearch.Sound edges
      { search with work, order := search.order ++ [node], stack := rest } where
  depthFirst := by
    have h := hs.depthFirst
    rw [hstack] at h
    refine h.finish fun v hv => ?_
    obtain ⟨_, houtgoing', hpassed⟩ := hs.passed node next (hstack ▸ List.mem_cons_self)
    obtain rfl := Option.some_inj.mp (houtgoing'.symm.trans houtgoing)
    obtain ⟨edge, ⟨_, houtgoing'', hedge⟩, rfl⟩ := hv
    obtain rfl := Option.some_inj.mp (houtgoing''.symm.trans houtgoing)
    rw [List.take_of_length_le hnext] at hpassed
    have hseen := (hs.visited edge.destination).mp (hpassed edge hedge)
    rw [hstack] at hseen
    exact hseen
  length := hs.length
  visited v := by
    have h := hs.visited v
    rw [hstack] at h
    refine h.trans ?_
    show v ∈ search.order ∨ v ∈ node :: rest.map Prod.fst ↔
      v ∈ search.order ++ [node] ∨ v ∈ rest.map Prod.fst
    rw [List.mem_append, List.mem_cons, List.mem_singleton, or_assoc]
  passed node' next' hmem := hs.passed node' next' (hstack ▸ List.mem_cons_of_mem _ hmem)

/-- **A turn of the first search** goes through, and keeps the invariant. -/
theorem finishingTurn_total (hrange : InRange edges) {search : FinishingSearch} {node next : ℕ}
    {rest : List (ℕ × ℕ)} (hs : search.Sound edges) (hstack : search.stack = (node, next) :: rest) :
    ∃ search', finishingTurn edges unlimitedWork search node next rest = .ok search' ∧
      search'.Sound edges ∧
      ∀ v : ℕ, search.visited[v]? = some true → search'.visited[v]? = some true := by
  obtain ⟨outgoing, houtgoing, -⟩ := hs.passed node next (hstack ▸ List.mem_cons_self)
  simp only [finishingTurn, charge_unlimited, indexAt_eq_ok.mpr houtgoing, ok_bind]
  cases hedge : outgoing[next]? with
  | none =>
    exact ⟨_, rfl, hs.finish _ hstack houtgoing (List.getElem?_eq_none_iff.mp hedge), fun _ h => h⟩
  | some edge =>
    have hleads : LeadsTo edges node edge.destination :=
      ⟨edge, ⟨outgoing, houtgoing, List.mem_of_getElem? hedge⟩, rfl⟩
    have hlt : edge.destination < search.visited.length := by
      rw [hs.length]
      exact hrange.lt hleads
    have hget := List.getElem?_eq_getElem hlt
    simp only [indexAt_eq_ok.mpr hget, ok_bind]
    by_cases hseen : search.visited[edge.destination] = true
    · rw [if_pos hseen]
      rw [hseen] at hget
      exact ⟨_, rfl, hs.move _ [] hstack houtgoing hedge hget, fun _ h => h⟩
    · rw [if_neg hseen]
      rw [Bool.eq_false_iff.mpr hseen] at hget
      have hparent : ∀ parent ∈ (search.stack.map Prod.fst).head?,
          LeadsTo edges parent edge.destination := by
        intro parent hparent
        rw [hstack] at hparent
        obtain rfl : node = parent := Option.some_inj.mp hparent
        exact hleads
      have hentered := hs.enter search.work hget hparent
      have hnew : (search.visited.set edge.destination true)[edge.destination]? = some true :=
        List.getElem?_set_self hlt
      refine ⟨_, rfl, hentered.move _ [(edge.destination, 0)] ?_ houtgoing hedge hnew,
        fun v hv => ?_⟩
      · rw [hstack]
        rfl
      · by_cases heq : edge.destination = v
        · rw [← heq]
          exact hnew
        · show (search.visited.set edge.destination true)[v]? = some true
          rw [List.getElem?_set_ne heq]
          exact hv

theorem finishFrom_nil {maximumWork : ℕ} {search : FinishingSearch} (hstack : search.stack = []) :
    finishFrom edges maximumWork search = .ok search := by
  rw [finishFrom.eq_def]
  split
  · rfl
  · rename_i hcons
    rw [hstack] at hcons
    cases hcons

theorem finishFrom_cons {maximumWork : ℕ} {search : FinishingSearch} {node next : ℕ}
    {rest : List (ℕ × ℕ)} (hstack : search.stack = (node, next) :: rest) :
    finishFrom edges maximumWork search =
      finishingTurn edges maximumWork search node next rest >>= finishFrom edges maximumWork := by
  rw [finishFrom.eq_def]
  split
  · rename_i hnil
    rw [hstack] at hnil
    cases hnil
  · rename_i hcons
    rw [hstack] at hcons
    obtain ⟨hframe, rfl⟩ := List.cons.inj hcons
    obtain ⟨rfl, rfl⟩ := Prod.mk.inj hframe
    split
    · rename_i hturn
      rw [hturn]
      rfl
    · rename_i hturn
      rw [hturn, ok_bind]

/-- **The first search from a node** empties its stack. -/
theorem finishFrom_total (hrange : InRange edges) {search : FinishingSearch}
    (hs : search.Sound edges) :
    ∃ search', finishFrom edges unlimitedWork search = .ok search' ∧ search'.Sound edges ∧
      search'.stack = [] ∧
      ∀ v : ℕ, search.visited[v]? = some true → search'.visited[v]? = some true := by
  -- along the measure that ends the loop
  generalize hleft : search.left edges = left
  induction left using Nat.strong_induction_on generalizing search with
  | _ left ih =>
    subst hleft
    rcases hstack : search.stack with _ | ⟨⟨node, next⟩, rest⟩
    · exact ⟨search, finishFrom_nil hstack, hs, hstack, fun _ h => h⟩
    · obtain ⟨search', hturn, hs', hvisited⟩ := finishingTurn_total hrange hs hstack
      obtain ⟨last, hlast, hsound, hempty, hvisited'⟩ :=
        ih _ (finishingTurn_left hstack hturn) hs' rfl
      refine ⟨last, ?_, hsound, hempty, fun v hv => hvisited' v (hvisited v hv)⟩
      rw [finishFrom_cons hstack, hturn, ok_bind, hlast]

theorem finishStart_total (hrange : InRange edges) {search : FinishingSearch} {start : ℕ}
    (hs : search.Sound edges) (hempty : search.stack = []) (hstart : start < edges.length) :
    ∃ search', finishStart edges unlimitedWork search start = .ok search' ∧ search'.Sound edges ∧
      search'.stack = [] ∧ search'.visited[start]? = some true ∧
      ∀ v : ℕ, search.visited[v]? = some true → search'.visited[v]? = some true := by
  have hlt : start < search.visited.length := by
    rw [hs.length]
    exact hstart
  have hget := List.getElem?_eq_getElem hlt
  simp only [finishStart, charge_unlimited, indexAt_eq_ok.mpr hget, ok_bind]
  by_cases hseen : search.visited[start] = true
  · rw [if_pos hseen]
    rw [hseen] at hget
    exact ⟨_, rfl, ⟨hs.depthFirst, hs.length, hs.visited, hs.passed⟩, hempty, hget, fun _ h => h⟩
  · rw [if_neg hseen]
    rw [Bool.eq_false_iff.mpr hseen] at hget
    have hentered := hs.enter (min (search.work + 1) unlimitedWork) hget fun parent hparent => by
      rw [hempty] at hparent
      cases hparent
    rw [hempty] at hentered
    obtain ⟨last, hlast, hsound, hempty', hvisited⟩ := finishFrom_total hrange hentered
    refine ⟨last, hlast, hsound, hempty', hvisited start (List.getElem?_set_self hlt),
      fun v hv => hvisited v ?_⟩
    show (search.visited.set start true)[v]? = some true
    have hne : start ≠ v := fun h => by
      rw [← h, hget] at hv
      exact Bool.false_ne_true (Option.some_inj.mp hv)
    rw [List.getElem?_set_ne hne]
    exact hv

/-- **The finishing order**: every node once, as a depth-first search finishes them. -/
theorem finishingOrder_total (hrange : InRange edges) (work : ℕ) :
    ∃ work' order, finishingOrder edges work unlimitedWork = .ok (work', order) ∧
      DepthFirst (LeadsTo edges) order [] ∧ ∀ v, v ∈ order ↔ v < edges.length := by
  have hloop : ∃ search, (List.range edges.length).foldlM (finishStart edges unlimitedWork)
      ⟨List.replicate edges.length false, [], [], work⟩ = .ok search ∧
      search.Sound edges ∧ search.stack = [] ∧
      ∀ v ∈ List.range edges.length, search.visited[v]? = some true := by
    refine foldlM_total (I := fun started (search : FinishingSearch) => search.Sound edges ∧
      search.stack = [] ∧ ∀ v ∈ started, search.visited[v]? = some true) ?_ ?_
    · refine ⟨⟨DepthFirst.nil, List.length_replicate, fun v => ?_, ?_⟩, rfl, ?_⟩
      · rw [List.getElem?_replicate]
        refine ⟨fun h => ?_, fun h => by rcases h with h | h <;> exact absurd h List.not_mem_nil⟩
        split_ifs at h with hlt
        exact absurd (Option.some_inj.mp h) Bool.false_ne_true
      · exact fun _ _ h => absurd h List.not_mem_nil
      · exact fun _ h => absurd h List.not_mem_nil
    · rintro started start rest search hsplit ⟨hs, hempty, hall⟩
      have hstart : start < edges.length := by
        rw [← List.mem_range, hsplit]
        exact List.mem_append_right started List.mem_cons_self
      obtain ⟨search', hok, hs', hempty', hnew, hkept⟩ := finishStart_total hrange hs hempty hstart
      refine ⟨search', hok, hs', hempty', fun v hv => ?_⟩
      rcases List.mem_append.mp hv with hv | hv
      · exact hkept v (hall v hv)
      · rw [List.mem_singleton.mp hv]
        exact hnew
  obtain ⟨search, hsearch, hs, hempty, hall⟩ := hloop
  refine ⟨search.work, search.order, ?_, ?_, fun v => ?_⟩
  · rw [finishingOrder, hsearch]
    rfl
  · have h := hs.depthFirst
    rwa [hempty] at h
  · have hv := hs.visited v
    rw [hempty, List.map_nil, or_iff_left List.not_mem_nil] at hv
    rw [← hv]
    refine ⟨fun hvisited => ?_, fun hlt => hall v (List.mem_range.mpr hlt)⟩
    have hlength := hs.length
    exact hlength ▸ (List.getElem?_eq_some_iff.mp hvisited).1

/-! ## The reversed graph

The lists of predecessors are built by one pass over all edges. -/

/-- The reversed graph lists the sources of the edges into every node. -/
def Reversed (edges : List (List ProgressEdge)) (reverse : List (List ℕ)) : Prop :=
  reverse.length = edges.length ∧
    ∀ v sources, reverse[v]? = some sources → ∀ u, u ∈ sources ↔ LeadsTo edges u v

theorem mem_set_sources {reverse : List (List ℕ)} {known sources : List ℕ} {d source u v : ℕ}
    (hknown : reverse[d]? = some known)
    (hv : (reverse.set d (known ++ [source]))[v]? = some sources) :
    ∃ before, reverse[v]? = some before ∧ (u ∈ sources ↔ u ∈ before ∨ (v = d ∧ u = source)) := by
  by_cases heq : d = v
  · subst heq
    obtain ⟨hlt, -⟩ := List.getElem?_eq_some_iff.mp hknown
    rw [List.getElem?_set_self hlt] at hv
    obtain rfl := Option.some_inj.mp hv
    refine ⟨known, hknown, ?_⟩
    rw [List.mem_append, List.mem_singleton]
    exact or_congr_right (and_iff_right rfl).symm
  · rw [List.getElem?_set_ne heq] at hv
    refine ⟨sources, hv, ?_⟩
    have hne : ¬v = d := fun h => heq h.symm
    exact (or_iff_left fun h => hne h.1).symm

theorem reverseSource_total (hrange : InRange edges) (work : ℕ) {reverse : List (List ℕ)}
    {source : ℕ} {outgoing : List ProgressEdge} {done : List ℕ}
    (houtgoing : edges[source]? = some outgoing)
    (hdone : reverse.length = edges.length ∧ ∀ v sources, reverse[v]? = some sources →
      ∀ u, u ∈ sources ↔ u ∈ done ∧ LeadsTo edges u v) :
    ∃ state', outgoing.foldlM
        (fun (work, reverse) (edge : ProgressEdge) => do
          let work ← charge work 1 unlimitedWork
          let sources ← indexAt reverse edge.destination
          return (work, reverse.set edge.destination (sources ++ [source])))
        (work, reverse) = .ok state' ∧
      state'.2.length = edges.length ∧ ∀ v sources, state'.2[v]? = some sources →
        ∀ u, u ∈ sources ↔ (u ∈ done ∧ LeadsTo edges u v) ∨
          (u = source ∧ ∃ edge ∈ outgoing, edge.destination = v) := by
  refine foldlM_total (I := fun (passed : List ProgressEdge) (state : ℕ × List (List ℕ)) =>
    state.2.length = edges.length ∧ ∀ v sources, state.2[v]? = some sources →
      ∀ u, u ∈ sources ↔ (u ∈ done ∧ LeadsTo edges u v) ∨
        (u = source ∧ ∃ edge ∈ passed, edge.destination = v)) ?_ ?_
  · refine ⟨hdone.1, fun v sources hv u => (hdone.2 v sources hv u).trans (or_iff_left ?_).symm⟩
    rintro ⟨-, edge, hedge, -⟩
    exact List.not_mem_nil hedge
  · rintro passed edge rest ⟨w, reverse⟩ hsplit ⟨hlength, hmem⟩
    have hedge : edge ∈ outgoing := by
      rw [hsplit]
      exact List.mem_append_right passed List.mem_cons_self
    have hlt : edge.destination < reverse.length := by
      rw [hlength]
      exact hrange source edge ⟨outgoing, houtgoing, hedge⟩
    have hget := List.getElem?_eq_getElem hlt
    simp only [charge_unlimited, indexAt_eq_ok.mpr hget, ok_bind]
    refine ⟨_, rfl, by rw [List.length_set]; exact hlength, fun v sources hv u => ?_⟩
    obtain ⟨before, hbefore, hiff⟩ := mem_set_sources (u := u) hget hv
    rw [hiff, hmem v before hbefore u, or_assoc]
    refine or_congr_right ?_
    constructor
    · rintro (⟨rfl, edge', hedge', rfl⟩ | ⟨rfl, rfl⟩)
      · exact ⟨rfl, edge', List.mem_append_left _ hedge', rfl⟩
      · exact ⟨rfl, edge, List.mem_append_right _ List.mem_cons_self, rfl⟩
    · rintro ⟨rfl, edge', hedge', rfl⟩
      rcases List.mem_append.mp hedge' with hold | hnew
      · exact Or.inl ⟨rfl, edge', hold, rfl⟩
      · rw [List.mem_singleton.mp hnew]
        exact Or.inr ⟨rfl, rfl⟩

theorem reverseEdges_total (hrange : InRange edges) (work : ℕ) :
    ∃ work' reverse, reverseEdges edges work unlimitedWork = .ok (work', reverse) ∧
      Reversed edges reverse := by
  have hloop : ∃ state, reverseEdges edges work unlimitedWork = .ok state ∧
      state.2.length = edges.length ∧ ∀ v sources, state.2[v]? = some sources →
        ∀ u, u ∈ sources ↔ u ∈ List.range edges.length ∧ LeadsTo edges u v := by
    refine foldlM_total (I := fun done (state : ℕ × List (List ℕ)) =>
      state.2.length = edges.length ∧ ∀ v sources, state.2[v]? = some sources →
        ∀ u, u ∈ sources ↔ u ∈ done ∧ LeadsTo edges u v) ?_ ?_
    · refine ⟨List.length_replicate, fun v sources hv u => ?_⟩
      rw [List.getElem?_replicate] at hv
      split_ifs at hv
      obtain rfl := Option.some_inj.mp hv
      exact ⟨fun h => absurd h List.not_mem_nil, fun h => absurd h.1 List.not_mem_nil⟩
    · rintro done source rest ⟨w, reverse⟩ hsplit hdone
      have hsource : source < edges.length := by
        rw [← List.mem_range, hsplit]
        exact List.mem_append_right done List.mem_cons_self
      have hget := List.getElem?_eq_getElem hsource
      simp only [indexAt_eq_ok.mpr hget, ok_bind]
      obtain ⟨state', hok, hlength, hmem⟩ := reverseSource_total hrange w hget hdone
      refine ⟨state', hok, hlength, fun v sources hv u => ?_⟩
      rw [hmem v sources hv u, List.mem_append, List.mem_singleton, or_and_right]
      refine or_congr_right (and_congr_right fun hu => ?_)
      rw [hu]
      constructor
      · rintro ⟨edge, hedge, hdestination⟩
        exact ⟨edge, ⟨_, hget, hedge⟩, hdestination⟩
      · rintro ⟨edge, ⟨_, houtgoing, hedge⟩, hdestination⟩
        obtain rfl := Option.some_inj.mp (houtgoing.symm.trans hget)
        exact ⟨edge, hedge, hdestination⟩
  obtain ⟨⟨work', reverse⟩, hok, hlength, hmem⟩ := hloop
  refine ⟨work', reverse, hok, hlength, fun v sources hv u => ?_⟩
  rw [hmem v sources hv u, List.mem_range]
  exact and_iff_right_of_imp LeadsTo.lt

/-! ## The second search -/

/-- The node has a component. -/
def Assigned (components : List (Option ℕ)) (v : ℕ) : Prop :=
  ∃ d : ℕ, components[v]? = some (some d)

/-- The node was given the component `c`, and had none before. -/
def Found (c : ℕ) (former components : List (Option ℕ)) (v : ℕ) : Prop :=
  components[v]? = some (some c) ∧ ¬Assigned former v

/-- **The invariant of the second search**, from `s`, among the nodes that had no component
before.  The predecessors of the pending nodes are still to be looked at. -/
structure SearchesFrom (edges : List (List ProgressEdge)) (s c : ℕ)
    (former components : List (Option ℕ)) (pending : List ℕ) : Prop where
  length : components.length = edges.length
  start : Found c former components s
  kept : ∀ v d : ℕ, former[v]? = some (some d) → components[v]? = some (some d)
  origin : ∀ v d : ℕ, components[v]? = some (some d) → former[v]? = some (some d) ∨
    (d = c ∧ ¬Assigned former v ∧ ReflTransGen (LeadsTo edges) v s)
  mem : ∀ v ∈ pending, Found c former components v
  closed : ∀ v, Found c former components v → v ∉ pending →
    ∀ u, LeadsTo edges u v → Assigned components u

variable {s c node : ℕ} {former components : List (Option ℕ)} {pending : List ℕ}

theorem SearchesFrom.reach (h : SearchesFrom edges s c former components pending) {v : ℕ}
    (hv : Found c former components v) : ReflTransGen (LeadsTo edges) v s := by
  rcases h.origin v c hv.1 with hold | ⟨-, -, hreach⟩
  · exact absurd ⟨c, hold⟩ hv.2
  · exact hreach

theorem SearchesFrom.push (h : SearchesFrom edges s c former components (node :: pending))
    {u : ℕ} (hu : components[u]? = some none) (hedge : LeadsTo edges u node) :
    SearchesFrom edges s c former (components.set u (some c)) (node :: u :: pending) := by
  obtain ⟨hlt, -⟩ := List.getElem?_eq_some_iff.mp hu
  have hset : (components.set u (some c))[u]? = some (some c) := List.getElem?_set_self hlt
  have hformer : ¬Assigned former u := by
    rintro ⟨d, hd⟩
    have hsome := h.kept u d hd
    rw [hu] at hsome
    cases hsome
  have hkept : ∀ v d : ℕ, components[v]? = some (some d) →
      (components.set u (some c))[v]? = some (some d) := by
    intro v d hv
    have hne : u ≠ v := fun heq => by
      rw [← heq, hu] at hv
      cases hv
    rw [List.getElem?_set_ne hne]
    exact hv
  have hfound : ∀ v, Found c former components v → Found c former (components.set u (some c)) v :=
    fun v hv => ⟨hkept v c hv.1, hv.2⟩
  refine ⟨by rw [List.length_set]; exact h.length, hfound s h.start,
    fun v d hv => hkept v d (h.kept v d hv), fun v d hv => ?_, fun v hv => ?_,
    fun v hv hnot u' hedge' => ?_⟩
  · by_cases heq : u = v
    · subst heq
      obtain rfl : c = d := Option.some_inj.mp (Option.some_inj.mp (hset.symm.trans hv))
      exact Or.inr ⟨rfl, hformer, (h.reach (h.mem node List.mem_cons_self)).head hedge⟩
    · rw [List.getElem?_set_ne heq] at hv
      exact h.origin v d hv
  · rcases List.mem_cons.mp hv with rfl | hv
    · exact hfound v (h.mem v List.mem_cons_self)
    · rcases List.mem_cons.mp hv with rfl | hv
      · exact ⟨hset, hformer⟩
      · exact hfound v (h.mem v (List.mem_cons_of_mem node hv))
  · have hne : u ≠ v := fun heq => hnot (heq ▸ List.mem_cons_of_mem node List.mem_cons_self)
    have hold : Found c former components v := by
      refine ⟨?_, hv.2⟩
      have hget := hv.1
      rwa [List.getElem?_set_ne hne] at hget
    have hnot' : v ∉ node :: pending := fun hmem => by
      rcases List.mem_cons.mp hmem with rfl | hmem
      · exact hnot List.mem_cons_self
      · exact hnot (List.mem_cons_of_mem node (List.mem_cons_of_mem u hmem))
    obtain ⟨d, hd⟩ := h.closed v hold hnot' u' hedge'
    exact ⟨d, hkept u' d hd⟩

theorem SearchesFrom.pop (h : SearchesFrom edges s c former components (node :: pending))
    (hdone : ∀ u, LeadsTo edges u node → Assigned components u) :
    SearchesFrom edges s c former components pending where
  length := h.length
  start := h.start
  kept := h.kept
  origin := h.origin
  mem v hv := h.mem v (List.mem_cons_of_mem node hv)
  closed v hv hnot u hedge := by
    by_cases heq : v = node
    · exact hdone u (heq ▸ hedge)
    · refine h.closed v hv (fun hmem => ?_) u hedge
      rcases List.mem_cons.mp hmem with hmem | hmem
      · exact heq hmem
      · exact hnot hmem

theorem reachPredecessor_total {search : ComponentSearch} {u : ℕ}
    (h : SearchesFrom edges s c former search.components (node :: search.stack))
    (hedge : LeadsTo edges u node) :
    ∃ search', reachPredecessor c unlimitedWork search u = .ok search' ∧
      SearchesFrom edges s c former search'.components (node :: search'.stack) ∧
      Assigned search'.components u ∧
      ∀ v, Assigned search.components v → Assigned search'.components v := by
  have hlt : u < search.components.length := by
    rw [h.length]
    exact hedge.lt
  have hget := List.getElem?_eq_getElem hlt
  simp only [reachPredecessor, charge_unlimited, indexAt_eq_ok.mpr hget, ok_bind]
  cases hcurrent : search.components[u] with
  | some d =>
    rw [hcurrent] at hget
    exact ⟨_, rfl, h, ⟨d, hget⟩, fun _ hv => hv⟩
  | none =>
    rw [hcurrent] at hget
    refine ⟨_, rfl, h.push hget hedge, ⟨c, List.getElem?_set_self hlt⟩, ?_⟩
    rintro v ⟨d, hd⟩
    have hne : u ≠ v := fun heq => by
      rw [← heq, hget] at hd
      cases hd
    refine ⟨d, ?_⟩
    show (search.components.set u (some c))[v]? = some (some d)
    rw [List.getElem?_set_ne hne]
    exact hd

/-- **A turn of the second search** goes through, and keeps the invariant. -/
theorem componentTurn_total {reverse : List (List ℕ)} (hreverse : Reversed edges reverse)
    {search : ComponentSearch} {rest : List ℕ} (hstack : search.stack = node :: rest)
    (h : SearchesFrom edges s c former search.components search.stack) :
    ∃ search', componentTurn reverse c unlimitedWork search node rest = .ok search' ∧
      SearchesFrom edges s c former search'.components search'.stack := by
  rw [hstack] at h
  have hnode : node < reverse.length := by
    obtain ⟨hget, -⟩ := h.mem node List.mem_cons_self
    rw [hreverse.1, ← h.length]
    exact (List.getElem?_eq_some_iff.mp hget).1
  have hget := List.getElem?_eq_getElem hnode
  simp only [componentTurn, charge_unlimited, indexAt_eq_ok.mpr hget, ok_bind]
  have hloop : ∃ search', reverse[node].foldlM (reachPredecessor c unlimitedWork)
      ⟨search.components, rest, min (search.work + 1) unlimitedWork⟩ = .ok search' ∧
      SearchesFrom edges s c former search'.components (node :: search'.stack) ∧
      ∀ u ∈ reverse[node], Assigned search'.components u := by
    refine foldlM_total (I := fun (looked : List ℕ) (search : ComponentSearch) =>
      SearchesFrom edges s c former search.components (node :: search.stack) ∧
        ∀ u ∈ looked, Assigned search.components u)
      ⟨h, fun _ hu => absurd hu List.not_mem_nil⟩ ?_
    rintro looked u later search' hsplit ⟨hs, hlooked⟩
    have hedge : LeadsTo edges u node := by
      rw [← hreverse.2 node _ hget u, hsplit]
      exact List.mem_append_right looked List.mem_cons_self
    obtain ⟨search'', hok, hs', hu, hkept⟩ := reachPredecessor_total hs hedge
    refine ⟨search'', hok, hs', fun v hv => ?_⟩
    rcases List.mem_append.mp hv with hv | hv
    · exact hkept v (hlooked v hv)
    · rw [List.mem_singleton.mp hv]
      exact hu
  obtain ⟨search', hok, hs, hdone⟩ := hloop
  exact ⟨search', hok, hs.pop fun u hu => hdone u ((hreverse.2 node _ hget u).mpr hu)⟩

theorem componentFrom_nil {reverse : List (List ℕ)} {maximumWork : ℕ} {search : ComponentSearch}
    (hstack : search.stack = []) : componentFrom reverse c maximumWork search = .ok search := by
  rw [componentFrom.eq_def]
  split
  · rfl
  · rename_i hcons
    rw [hstack] at hcons
    cases hcons

theorem componentFrom_cons {reverse : List (List ℕ)} {maximumWork : ℕ} {search : ComponentSearch}
    {rest : List ℕ} (hstack : search.stack = node :: rest) :
    componentFrom reverse c maximumWork search =
      componentTurn reverse c maximumWork search node rest >>=
        componentFrom reverse c maximumWork := by
  rw [componentFrom.eq_def]
  split
  · rename_i hnil
    rw [hstack] at hnil
    cases hnil
  · rename_i hcons
    rw [hstack] at hcons
    obtain ⟨rfl, rfl⟩ := List.cons.inj hcons
    split
    · rename_i hturn
      rw [hturn]
      rfl
    · rename_i hturn
      rw [hturn, ok_bind]

/-- **The second search from a node** empties its stack. -/
theorem componentFrom_total {reverse : List (List ℕ)} (hreverse : Reversed edges reverse)
    {search : ComponentSearch} (h : SearchesFrom edges s c former search.components search.stack) :
    ∃ search', componentFrom reverse c unlimitedWork search = .ok search' ∧
      SearchesFrom edges s c former search'.components [] := by
  generalize hleft : search.components.count none + search.stack.length = left
  induction left using Nat.strong_induction_on generalizing search with
  | _ left ih =>
    subst hleft
    rcases hstack : search.stack with _ | ⟨node, rest⟩
    · exact ⟨search, componentFrom_nil hstack, hstack ▸ h⟩
    · obtain ⟨search', hturn, hs⟩ := componentTurn_total hreverse hstack h
      obtain ⟨last, hlast, hsound⟩ := ih _ (componentTurn_measure hstack hturn) hs rfl
      exact ⟨last, by rw [componentFrom_cons hstack, hturn, ok_bind, hlast], hsound⟩

/-- **The components found so far**: `k` of them, all of them whole classes of mutual
reachability, and with a node everything that leads to it, in components of no larger
number. -/
structure ComponentsSound (edges : List (List ProgressEdge)) (components : List (Option ℕ))
    (k : ℕ) : Prop where
  length : components.length = edges.length
  lt : ∀ v d : ℕ, components[v]? = some (some d) → d < k
  used : ∀ d < k, ∃ v : ℕ, components[v]? = some (some d)
  classes : ∀ u v d : ℕ, components[u]? = some (some d) →
    (components[v]? = some (some d) ↔ Mutual (LeadsTo edges) u v)
  ordered : ∀ u v d : ℕ, LeadsTo edges u v → components[v]? = some (some d) →
    ∃ d' ≤ d, components[u]? = some (some d')

/-- A search from a node without a component finds its class. -/
theorem ComponentsSound.search {order earlier later : List ℕ} {k : ℕ}
    (horder : DepthFirst (LeadsTo edges) order []) (hmem : ∀ v, v ∈ order ↔ v < edges.length)
    (hsplit : order = earlier ++ s :: later) (h : ComponentsSound edges former k)
    (hlater : ∀ r ∈ later, Assigned former r) (hs : ¬Assigned former s)
    (hsearch : SearchesFrom edges s k former components []) :
    ComponentsSound edges components (k + 1) := by
  have horigin : ∀ v d : ℕ, components[v]? = some (some d) →
      (former[v]? = some (some d) ∧ d < k) ∨ (d = k ∧ Found k former components v) := by
    intro v d hv
    rcases hsearch.origin v d hv with hold | ⟨rfl, hnone, -⟩
    · exact Or.inl ⟨hold, h.lt v d hold⟩
    · exact Or.inr ⟨rfl, hv, hnone⟩
  have hclass : ∀ v, Found k former components v ↔ Mutual (LeadsTo edges) v s := by
    intro v
    refine horder.mem_found_iff hsplit (fun x y hxy => ?_) hlater hs hsearch.start
      (fun z => hsearch.reach) (fun z hz => ?_) (fun z hz => hz.2) fun z x hz hedge => ?_
    · rintro ⟨d, hd⟩
      exact ⟨d, (h.classes x y d hd).mpr hxy⟩
    · rw [hmem, ← hsearch.length]
      exact (List.getElem?_eq_some_iff.mp hz.1).1
    · obtain ⟨d, hd⟩ := hsearch.closed z hz List.not_mem_nil x hedge
      rcases horigin x d hd with ⟨hold, -⟩ | ⟨-, hfound⟩
      · exact Or.inr ⟨d, hold⟩
      · exact Or.inl hfound
  refine ⟨hsearch.length, fun v d hv => ?_, fun d hd => ?_, fun u v d hu => ?_,
    fun u v d hedge hv => ?_⟩
  · rcases horigin v d hv with ⟨-, hlt⟩ | ⟨rfl, -⟩
    · exact Nat.lt_succ_of_lt hlt
    · exact Nat.lt_succ_self d
  · rcases Nat.lt_succ_iff_lt_or_eq.mp hd with hlt | rfl
    · obtain ⟨v, hv⟩ := h.used d hlt
      exact ⟨v, hsearch.kept v d hv⟩
    · exact ⟨s, hsearch.start.1⟩
  · rcases horigin u d hu with ⟨hold, hlt⟩ | ⟨rfl, hfound⟩
    · rw [← h.classes u v d hold]
      refine ⟨fun hv => ?_, hsearch.kept v d⟩
      rcases horigin v d hv with ⟨hv, -⟩ | ⟨heq, -⟩
      · exact hv
      · exact absurd heq (Nat.ne_of_lt hlt)
    · have hus := (hclass u).mp hfound
      constructor
      · intro hv
        rcases horigin v d hv with ⟨-, hlt⟩ | ⟨-, hv⟩
        · exact absurd hlt (Nat.lt_irrefl d)
        · exact hus.trans ((hclass v).mp hv).symm
      · exact fun huv => ((hclass v).mpr (huv.symm.trans hus)).1
  · rcases horigin v d hv with ⟨hold, -⟩ | ⟨rfl, hfound⟩
    · obtain ⟨d', hle, hu⟩ := h.ordered u v d hedge hold
      exact ⟨d', hle, hsearch.kept u d' hu⟩
    · obtain ⟨d', hu⟩ := hsearch.closed v hfound List.not_mem_nil u hedge
      rcases horigin u d' hu with ⟨-, hlt⟩ | ⟨rfl, -⟩
      · exact ⟨d', Nat.le_of_lt hlt, hu⟩
      · exact ⟨d', le_rfl, hu⟩

theorem componentStart_total {reverse : List (List ℕ)} (hreverse : Reversed edges reverse)
    {order earlier later : List ℕ} {k work : ℕ} (horder : DepthFirst (LeadsTo edges) order [])
    (hmem : ∀ v, v ∈ order ↔ v < edges.length) (hsplit : order = earlier ++ s :: later)
    (h : ComponentsSound edges former k) (hlater : ∀ r ∈ later, Assigned former r) :
    ∃ work' components k', componentStart reverse unlimitedWork (work, former, k) s =
        .ok (work', components, k') ∧ ComponentsSound edges components k' ∧
      Assigned components s ∧ ∀ v, Assigned former v → Assigned components v := by
  have hlt : s < former.length := by
    rw [h.length, ← hmem, hsplit]
    exact List.mem_append_right earlier List.mem_cons_self
  have hget := List.getElem?_eq_getElem hlt
  simp only [componentStart, charge_unlimited, indexAt_eq_ok.mpr hget, ok_bind]
  cases hcurrent : former[s] with
  | some d =>
    rw [hcurrent] at hget
    exact ⟨_, former, k, rfl, h, ⟨d, hget⟩, fun _ hv => hv⟩
  | none =>
    rw [hcurrent] at hget
    have hs : ¬Assigned former s := by
      rintro ⟨d, hd⟩
      rw [hget] at hd
      cases hd
    have hset : (former.set s (some k))[s]? = some (some k) := List.getElem?_set_self hlt
    have hother : ∀ v, v ≠ s → (former.set s (some k))[v]? = former[v]? :=
      fun v hv => List.getElem?_set_ne (Ne.symm hv)
    have hstart : SearchesFrom edges s k former (former.set s (some k)) [s] := by
      refine ⟨by rw [List.length_set]; exact h.length, ⟨hset, hs⟩, fun v d hv => ?_,
        fun v d hv => ?_, fun v hv => ?_, fun v hv hnot => ?_⟩
      · by_cases heq : v = s
        · exact absurd ⟨d, heq ▸ hv⟩ hs
        · rw [hother v heq]
          exact hv
      · by_cases heq : v = s
        · subst heq
          obtain rfl : k = d := Option.some_inj.mp (Option.some_inj.mp (hset.symm.trans hv))
          exact Or.inr ⟨rfl, hs, .refl⟩
        · rw [hother v heq] at hv
          exact Or.inl hv
      · rw [List.mem_singleton.mp hv]
        exact ⟨hset, hs⟩
      · have hne : v ≠ s := fun heq => hnot (heq ▸ List.mem_singleton_self s)
        have hget' := hv.1
        rw [hother v hne] at hget'
        exact absurd ⟨k, hget'⟩ hv.2
    obtain ⟨search, hok, hsearch⟩ := @componentFrom_total _ s k former reverse hreverse
      ⟨former.set s (some k), [s], min (work + 1) unlimitedWork⟩ hstart
    refine ⟨search.work, search.components, k + 1, by rw [hok]; rfl,
      h.search horder hmem hsplit hlater hs hsearch, ⟨k, hsearch.start.1⟩, ?_⟩
    rintro v ⟨d, hd⟩
    exact ⟨d, hsearch.kept v d hd⟩

/-- What the component search returns: numbers that are all used, the same for two nodes
exactly if each reaches the other, and no larger at the source of an edge. -/
structure IsComponents (edges : List (List ProgressEdge)) (components : List ℕ) (k : ℕ) :
    Prop where
  length : components.length = edges.length
  lt : ∀ (v : ℕ) (d : ℕ), components[v]? = some d → d < k
  used : ∀ d < k, ∃ v : ℕ, components[v]? = some d
  classes : ∀ u v d : ℕ, components[u]? = some d →
    (components[v]? = some d ↔ Mutual (LeadsTo edges) u v)
  ordered : ∀ u v d d' : ℕ, LeadsTo edges u v → components[u]? = some d →
    components[v]? = some d' → d ≤ d'

/-- **The component search** at the largest maximum. -/
theorem stronglyConnectedComponents_total (hrange : InRange edges) (work : ℕ) :
    ∃ work' components k,
      stronglyConnectedComponents edges work unlimitedWork = .ok (work', components) ∧
      IsComponents edges components k := by
  obtain ⟨work₁, order, hfinish, horder, hmem⟩ := finishingOrder_total hrange work
  obtain ⟨work₂, reverse, hreverse, hreversed⟩ := reverseEdges_total hrange work₁
  have hloop : ∃ state, order.reverse.foldlM (componentStart reverse unlimitedWork)
      (work₂, List.replicate edges.length none, 0) = .ok state ∧
      ComponentsSound edges state.2.1 state.2.2 ∧
      ∀ v ∈ order.reverse, Assigned state.2.1 v := by
    refine foldlM_total (I := fun (done : List ℕ) (state : ℕ × List (Option ℕ) × ℕ) =>
      ComponentsSound edges state.2.1 state.2.2 ∧ ∀ v ∈ done, Assigned state.2.1 v) ?_ ?_
    · have hnone : ∀ v d : ℕ, (List.replicate edges.length (none : Option ℕ))[v]? ≠
          some (some d) := by
        intro v d hv
        rw [List.getElem?_replicate] at hv
        split_ifs at hv
        cases hv
      exact ⟨⟨List.length_replicate, fun v d hv => absurd hv (hnone v d),
        fun d hd => absurd hd (Nat.not_lt_zero d), fun u v d hu => absurd hu (hnone u d),
        fun u v d _ hv => absurd hv (hnone v d)⟩, fun _ hv => absurd hv List.not_mem_nil⟩
    · rintro done s rest ⟨w, former, k⟩ hsplit ⟨hs, hdone⟩
      have horder' : order = rest.reverse ++ s :: done.reverse := by
        rw [← List.reverse_reverse order, hsplit, List.reverse_append, List.reverse_cons,
          List.append_assoc]
        rfl
      obtain ⟨w', components, k', hok, hs', hnew, hkept⟩ := componentStart_total hreversed horder
        hmem horder' hs fun r hr => hdone r (List.mem_reverse.mp hr)
      refine ⟨(w', components, k'), hok, hs', fun v hv => ?_⟩
      rcases List.mem_append.mp hv with hv | hv
      · exact hkept v (hdone v hv)
      · rw [List.mem_singleton.mp hv]
        exact hnew
  obtain ⟨⟨work₃, components, k⟩, hok, hs, hall⟩ := hloop
  have hassigned : ∀ v < edges.length, Assigned components v :=
    fun v hv => hall v (List.mem_reverse.mpr ((hmem v).mpr hv))
  have hget : ∀ v d : ℕ, (components.map fun component => component.getD usizeMax)[v]? = some d ↔
      components[v]? = some (some d) := by
    intro v d
    rw [List.getElem?_map, Option.map_eq_some_iff]
    constructor
    · rintro ⟨component, hcomponent, rfl⟩
      have hv : v < edges.length := hs.length ▸ (List.getElem?_eq_some_iff.mp hcomponent).1
      obtain ⟨d, hd⟩ := hassigned v hv
      obtain rfl := Option.some_inj.mp (hcomponent.symm.trans hd)
      exact hcomponent
    · exact fun h => ⟨some d, h, rfl⟩
  refine ⟨work₃, components.map fun component => component.getD usizeMax, k, ?_, ?_⟩
  · simp only [stronglyConnectedComponents, hfinish, hreverse, hok, ok_bind]
    rfl
  · refine ⟨by rw [List.length_map]; exact hs.length, fun v d hv => hs.lt v d ((hget v d).mp hv),
      fun d hd => ?_, fun u v d hu => ?_, fun u v d d' hedge hu hv => ?_⟩
    · obtain ⟨v, hv⟩ := hs.used d hd
      exact ⟨v, (hget v d).mpr hv⟩
    · rw [hget]
      exact hs.classes u v d ((hget u d).mp hu)
    · obtain ⟨e, hle, he⟩ := hs.ordered u v d' hedge ((hget v d').mp hv)
      rw [(hget u d).mp hu] at he
      obtain rfl := Option.some_inj.mp (Option.some_inj.mp he)
      exact hle

/-! ## The need of the component search -/

theorem budgeted_finishingTurn (search : FinishingSearch) (node next : ℕ)
    (rest : List (ℕ × ℕ)) :
    Budgeted fun maximum => finishingTurn edges maximum search node next rest :=
  .bind (.charge _ _) fun _ _ => .const _

theorem budgeted_finishFrom (search : FinishingSearch) :
    Budgeted fun maximum => finishFrom edges maximum search := by
  generalize hleft : search.left edges = left
  induction left using Nat.strong_induction_on generalizing search with
  | _ left ih =>
    subst hleft
    rcases hstack : search.stack with _ | ⟨⟨node, next⟩, rest⟩
    · simp only [finishFrom_nil hstack]
      exact .const _
    · simp only [finishFrom_cons hstack]
      refine .bind (budgeted_finishingTurn search node next rest) fun search' hturn => ?_
      obtain ⟨_, hturn⟩ := hturn
      exact ih _ (finishingTurn_left hstack hturn) search' rfl

theorem budgeted_finishingOrder (work : ℕ) :
    Budgeted fun maximum => finishingOrder edges work maximum := by
  refine .bind (.foldlM (fun start _ search => ?_) _) fun _ _ => .const _
  refine .bind (.charge _ _) fun work _ => .bind (.const _) fun seen _ => ?_
  cases seen with
  | true => exact .const _
  | false => exact budgeted_finishFrom _

theorem budgeted_componentFrom (reverse : List (List ℕ)) (c : ℕ) (search : ComponentSearch) :
    Budgeted fun maximum => componentFrom reverse c maximum search := by
  generalize hleft : search.components.count none + search.stack.length = left
  induction left using Nat.strong_induction_on generalizing search with
  | _ left ih =>
    subst hleft
    rcases hstack : search.stack with _ | ⟨node, rest⟩
    · simp only [componentFrom_nil hstack]
      exact .const _
    · simp only [componentFrom_cons hstack]
      refine .bind ?_ fun search' hturn => ?_
      · refine .bind (.charge _ _) fun work _ => .bind (.const _) fun predecessors _ => ?_
        refine .foldlM (fun u _ search => ?_) _
        exact .bind (.charge _ _) fun _ _ => .const _
      · obtain ⟨_, hturn⟩ := hturn
        exact ih _ (componentTurn_measure hstack hturn) search' rfl

theorem budgeted_stronglyConnectedComponents (work : ℕ) :
    Budgeted fun maximum => stronglyConnectedComponents edges work maximum := by
  refine .bind (budgeted_finishingOrder work) ?_
  rintro ⟨work₁, order⟩ -
  refine .bind ?_ ?_
  · refine .foldlM (fun source _ state => .bind (.const _) fun outgoing _ => ?_) _
    refine .foldlM (fun edge _ state => ?_) _
    exact .bind (.charge _ _) fun _ _ => .const _
  · rintro ⟨work₂, reverse⟩ -
    refine .bind ?_ fun _ _ => .const _
    refine .foldlM (fun start _ state => .bind (.charge _ _) fun w _ => ?_) _
    refine .bind (.const _) fun current _ => ?_
    cases current with
    | some d => exact .const _
    | none => exact .bind (budgeted_componentFrom reverse _ _) fun _ _ => .const _

/-- **The component search is correct.**  With enough work it numbers the nodes by their
classes of mutual reachability, with all the numbers from `0` on.  The finishing order
that it goes by holds every node once; where an edge leads from one class to another, the
last node of the first class stands behind the whole second class. -/
theorem stronglyConnectedComponents_correct (hrange : InRange edges) (work : ℕ) :
    (∃ need ≤ unlimitedWork, ∃ work' components k, IsComponents edges components k ∧
      ∀ maximum,
        (need ≤ maximum →
          stronglyConnectedComponents edges work maximum = .ok (work', components)) ∧
        (maximum < need → ∃ required > maximum,
          stronglyConnectedComponents edges work maximum =
            .error (.error (.compilerWorkLimit required maximum)))) ∧
    ∃ need ≤ unlimitedWork, ∃ work' order, order.Nodup ∧ (∀ v, v ∈ order ↔ v < edges.length) ∧
      (∀ u v, LeadsTo edges u v → ¬Mutual (LeadsTo edges) u v →
        ∃ earlier r later, order = earlier ++ r :: later ∧ Mutual (LeadsTo edges) u r ∧
          (∀ w ∈ later, ¬Mutual (LeadsTo edges) u w) ∧
          ∀ w, Mutual (LeadsTo edges) v w → w ∈ earlier) ∧
      ∀ maximum,
        (need ≤ maximum → finishingOrder edges work maximum = .ok (work', order)) ∧
        (maximum < need → ∃ required > maximum, finishingOrder edges work maximum =
          .error (.error (.compilerWorkLimit required maximum))) := by
  constructor
  · obtain ⟨work', components, k, hok, hcomponents⟩ := stronglyConnectedComponents_total hrange work
    obtain ⟨need, hneed, hgate⟩ :=
      (budgeted_stronglyConnectedComponents work).exists_need fun required h => by
        rw [hok] at h
        cases h
    refine ⟨need, hneed, work', components, k, hcomponents, fun maximum => ⟨fun hle => ?_, ?_⟩⟩
    · rw [(hgate maximum).1 hle, hok]
    · exact (hgate maximum).2
  · obtain ⟨work', order, hok, horder, hmem⟩ := finishingOrder_total hrange work
    obtain ⟨need, hneed, hgate⟩ := (budgeted_finishingOrder work).exists_need fun required h => by
      rw [hok] at h
      cases h
    refine ⟨need, hneed, work', order, ?_, hmem, fun u v hedge hclasses => ?_,
      fun maximum => ⟨fun hle => ?_, (hgate maximum).2⟩⟩
    · have hnodup := horder.nodup
      rwa [List.append_nil] at hnodup
    · have hu : u ∈ order := (hmem u).mpr hedge.lt
      obtain ⟨earlier, r, later, hsplit, hmutual, hlast⟩ := horder.exists_leader hu
      refine ⟨earlier, r, later, hsplit, hmutual, fun w hw huw => hlast w huw.1 hw, ?_⟩
      intro w hvw
      have hreach : ReflTransGen (LeadsTo edges) u w := hvw.1.head hedge
      have hw : w ∈ earlier ++ r :: later := hsplit ▸ horder.mem_of_reach hu hreach
      rcases List.mem_append.mp hw with hw | hw
      · exact hw
      · rcases List.mem_cons.mp hw with rfl | hw
        · exact absurd (hmutual.trans hvw.symm) hclasses
        · exact absurd hw (hlast w hreach)
    · rw [(hgate maximum).1 hle, hok]

end

/-- Two nodes on a cycle, and one behind them with an edge to itself. -/
def twoComponents : List (List ProgressEdge) :=
  [[⟨1, false⟩], [⟨0, true⟩, ⟨2, false⟩], [⟨2, true⟩]]

theorem stronglyConnectedComponents_correct_two :
    ∃ need ≤ unlimitedWork, ∃ work' components k, IsComponents twoComponents components k ∧
      ∀ maximum, need ≤ maximum →
        stronglyConnectedComponents twoComponents 0 maximum = .ok (work', components) := by
  obtain ⟨⟨need, hneed, work', components, k, hcomponents, hgate⟩, -⟩ :=
    @stronglyConnectedComponents_correct twoComponents (.of_forall (by decide)) 0
  exact ⟨need, hneed, work', components, k, hcomponents, fun maximum => (hgate maximum).1⟩

end GreatGramma
