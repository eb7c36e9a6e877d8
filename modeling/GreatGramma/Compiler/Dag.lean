import Mathlib.Algebra.BigOperators.Intervals
import GreatGramma.Compiler.Ranks
import GreatGramma.Library.TopologicalOrder

/-!
# Ranking an acyclic graph

`dag_ranks` releases a node once all edges into it have been counted off, and ranks the nodes in
the reverse of that order.

## Releasing

The counters are exact: between two turns the indegree of a node is the number of edges that still
come from nodes not released (`Release.Sound`), so the queue is topological.  Within a turn the
counters are off by the edges of the node that is being released, which are counted off one after
the other; the last edge into a node comes when all that leads to it is released, and that is when
the node is queued (`releaseEdges_ok`).

Nothing is said here of graphs with cycles, but for this: the nodes that are released are released
in topological order.  If the graph has a cycle some nodes never are, and the source finds out by
comparing the number of released nodes with that of all.

## Ranking

Going back along the order, an edge always leads to a node that has its rank for good, and the
rank of the source is raised to it, by one more if the edge is strict.  A covered edge stays
covered when only the rank of its source grows (`Covers.raise`), so all edges are covered in the
end (`dagRanks_ok`).
-/

namespace GreatGramma

open Finset Traversal

/-- The graph has an edge. -/
def HasEdge (edges : List (List ProgressEdge)) (u : ℕ) (edge : ProgressEdge) : Prop :=
  ∃ outgoing, edges[u]? = some outgoing ∧ edge ∈ outgoing

/-- Some edge leads from one node to the other. -/
def LeadsTo (edges : List (List ProgressEdge)) (u d : ℕ) : Prop :=
  ∃ edge, HasEdge edges u edge ∧ edge.destination = d

theorem HasEdge.lt {edges : List (List ProgressEdge)} {u : ℕ} {edge : ProgressEdge}
    (h : HasEdge edges u edge) : u < edges.length := by
  obtain ⟨outgoing, houtgoing, -⟩ := h
  exact (List.getElem?_eq_some_iff.mp houtgoing).1

/-- The number of edges of a list that lead to a node. -/
def edgesTo (d : ℕ) (outgoing : List ProgressEdge) : ℕ :=
  outgoing.countP fun edge => edge.destination == d

/-- The number of edges that lead to a node from nodes of a set. -/
def incoming (edges : List (List ProgressEdge)) (pending : Finset ℕ) (d : ℕ) : ℕ :=
  ∑ u ∈ pending, edgesTo d ((edges[u]?).getD [])

section
variable {edges : List (List ProgressEdge)} {maximumWork : ℕ}

theorem edgesTo_append (d : ℕ) (xs ys : List ProgressEdge) :
    edgesTo d (xs ++ ys) = edgesTo d xs + edgesTo d ys := List.countP_append

theorem edgesTo_cons (d : ℕ) (edge : ProgressEdge) (rest : List ProgressEdge) :
    edgesTo d (edge :: rest) = edgesTo d rest + if edge.destination = d then 1 else 0 := by
  simp only [edgesTo, List.countP_cons, beq_iff_eq]

theorem not_leadsTo_of_incoming {pending : Finset ℕ} {u d : ℕ}
    (h : incoming edges pending d = 0) (hu : LeadsTo edges u d) : u ∉ pending := by
  intro hmem
  obtain ⟨edge, ⟨outgoing, houtgoing, hedge⟩, rfl⟩ := hu
  have hzero := (Finset.sum_eq_zero_iff.mp h) u hmem
  rw [houtgoing, Option.getD_some, edgesTo, List.countP_eq_zero] at hzero
  exact hzero edge hedge (beq_self_eq_true _)

/-! ## Counting

Two passes over the graph: one counts the edges into every node, and the other queues the nodes
without any. -/

theorem set_count {indegree : List ℕ} {count : ℕ → ℕ} {n : ℕ} {edge : ProgressEdge} {degree : ℕ}
    (hcount : ∀ d < n, indegree[d]? = some (count d)) (hlength : indegree.length = n)
    (hdegree : indegree[edge.destination]? = some degree) (value : ℕ) :
    edge.destination < n ∧ degree = count edge.destination ∧
      ∀ d < n, (indegree.set edge.destination value)[d]? =
        some (if edge.destination = d then value else count d) := by
  obtain ⟨hlt, -⟩ := List.getElem?_eq_some_iff.mp hdegree
  have hin : edge.destination < n := hlength ▸ hlt
  have hsame := hcount edge.destination hin
  rw [hdegree] at hsame
  refine ⟨hin, Option.some.inj hsame, fun d hd => ?_⟩
  by_cases heq : edge.destination = d
  · subst heq
    rw [if_pos rfl, List.getElem?_set_self hlt]
  · rw [if_neg heq, List.getElem?_set_ne heq]
    exact hcount d hd

/-- **The indegrees are exact.** -/
theorem countIndegrees_ok {work work' : ℕ} {indegree : List ℕ}
    (h : countIndegrees edges work maximumWork = .ok (work', indegree)) :
    indegree.length = edges.length ∧
      ∀ d < edges.length, indegree[d]? = some (incoming edges (range edges.length) d) := by
  refine foldlM_ok
    (I := fun before (s : ℕ × List ℕ) => s.2.length = edges.length ∧
      ∀ d < edges.length, s.2[d]? = some (incoming edges (range before.length) d))
    h ⟨List.length_replicate, fun d hd => ?_⟩ ?_
  · rw [List.getElem?_replicate, if_pos hd]
    rfl
  · rintro before outgoing after ⟨w, s⟩ ⟨w', s'⟩ hsplit ⟨hlength, hcount⟩ hstep
    have hget : edges[before.length]? = some outgoing := by
      rw [hsplit, List.getElem?_append_right le_rfl, Nat.sub_self]
      rfl
    have hloop := foldlM_ok
      (I := fun done (t : ℕ × List ℕ) => t.2.length = edges.length ∧
        ∀ d < edges.length, t.2[d]? =
          some (incoming edges (range before.length) d + edgesTo d done))
      hstep ⟨hlength, hcount⟩ ?_
    · refine ⟨hloop.1, fun d hd => ?_⟩
      rw [hloop.2 d hd, List.length_append, List.length_singleton, incoming, incoming,
        Finset.sum_range_succ, hget, Option.getD_some]
    · rintro done edge rest ⟨w₁, t⟩ ⟨w₁', t'⟩ - ⟨ht, hdone⟩ hedge
      simp only [bind_eq_ok, indexAt_eq_ok] at hedge
      obtain ⟨_, -, degree, hdegree, hedge⟩ := hedge
      cases hedge
      obtain ⟨-, rfl, hset⟩ := set_count hdone ht hdegree (degree + 1)
      refine ⟨by rw [List.length_set, ht], fun d hd => ?_⟩
      rw [hset d hd, edgesTo_append, edgesTo_cons]
      by_cases heq : edge.destination = d
      · subst heq
        simp only [if_true, edgesTo, List.countP_nil]
        congr 1
      · simp only [heq, if_false, edgesTo, List.countP_nil, Nat.add_zero]

/-- **The queue starts with the nodes without incoming edges.** -/
theorem initialQueue_ok {indegree queue : List ℕ} {work work' : ℕ}
    (h : initialQueue indegree work maximumWork = .ok (work', queue)) :
    queue.Nodup ∧ ∀ d, d ∈ queue ↔ indegree[d]? = some 0 := by
  have hloop := foldlM_range_ok
    (I := fun i (s : ℕ × List ℕ) => s.2.Nodup ∧
      ∀ d, d ∈ s.2 ↔ d < i ∧ indegree[d]? = some 0)
    h ⟨List.nodup_nil, fun d => by simp⟩ ?_
  · refine ⟨hloop.1, fun d => (hloop.2 d).trans ⟨And.right, fun hd => ⟨?_, hd⟩⟩⟩
    exact (List.getElem?_eq_some_iff.mp hd).1
  · rintro i ⟨w, s⟩ ⟨w', s'⟩ - ⟨hnodup, hmem⟩ hstep
    simp only [bind_eq_ok, indexAt_eq_ok] at hstep
    obtain ⟨_, -, degree, hdegree, hstep⟩ := hstep
    split_ifs at hstep with hzero
    · cases hstep
      subst hzero
      refine ⟨List.nodup_append.mpr ⟨hnodup, List.pairwise_singleton _ _, ?_⟩, fun d => ?_⟩
      · intro d hd e he heq
        have hlt := ((hmem d).mp hd).1
        rw [heq, List.mem_singleton.mp he] at hlt
        exact Nat.lt_irrefl i hlt
      · rw [lt_succ_and_iff (P := fun d => indegree[d]? = some 0), ← hmem d, and_iff_left hdegree,
          List.mem_append, List.mem_singleton]
    · cases hstep
      have hkept : indegree[i]? ≠ some 0 := fun hd =>
        hzero (Option.some.inj (hdegree.symm.trans hd))
      refine ⟨hnodup, fun d => ?_⟩
      rw [lt_succ_and_iff (P := fun d => indegree[d]? = some 0), ← hmem d,
        or_iff_left fun h => hkept h.2]

/-! ## Releasing -/

/-- What holds while nodes are released: `count` says how many edges into a node are
still to come. -/
structure Release.Sound (edges : List (List ProgressEdge)) (count : ℕ → ℕ) (release : Release) :
    Prop where
  length : release.indegree.length = edges.length
  indegree : ∀ d < edges.length, release.indegree[d]? = some (count d)
  queued : ∀ d, d ∈ release.queue ↔ d < edges.length ∧ count d = 0
  nodup : release.queue.Nodup
  topological : Topological (LeadsTo edges) release.queue

theorem releaseEdge_ok {count : ℕ → ℕ} {release release' : Release} {edge : ProgressEdge}
    (hrelease : release.Sound edges count)
    (hsources : count edge.destination = 1 →
      ∀ u, LeadsTo edges u edge.destination → u ∈ release.queue)
    (h : releaseEdge maximumWork release edge = .ok release') :
    release'.Sound edges (fun d => if edge.destination = d then count d - 1 else count d) ∧
      release'.order = release.order ∧ release.queue <+: release'.queue ∧
      0 < count edge.destination := by
  simp only [releaseEdge, bind_eq_ok, indexAt_eq_ok] at h
  obtain ⟨work, -, degree, hdegree, h⟩ := h
  obtain ⟨hlt, rfl, hset⟩ := set_count hrelease.indegree hrelease.length hdegree (degree - 1)
  have hindegree : ∀ d < edges.length,
      (release.indegree.set edge.destination (count edge.destination - 1))[d]? =
        some (if edge.destination = d then count d - 1 else count d) := by
    intro d hd
    rw [hset d hd]
    by_cases heq : edge.destination = d
    · rw [if_pos heq, if_pos heq, heq]
    · rw [if_neg heq, if_neg heq]
  split_ifs at h with hzero hlast
  · cases h
    have hnew : edge.destination ∉ release.queue := fun hmem =>
      hzero ((hrelease.queued _).mp hmem).2
    refine ⟨⟨by rw [List.length_set, hrelease.length], hindegree, fun d => ?_, ?_, ?_⟩, rfl,
      List.prefix_append _ _, Nat.pos_of_ne_zero hzero⟩
    · rw [List.mem_append, hrelease.queued d, List.mem_singleton]
      by_cases heq : edge.destination = d
      · subst heq
        simp only [if_true, hlast, and_true, or_true, hlt]
      · have hne : d ≠ edge.destination := fun h => heq h.symm
        simp only [heq, if_false, hne, or_false]
    · refine List.nodup_append.mpr ⟨hrelease.nodup, List.pairwise_singleton _ _, ?_⟩
      intro d hd e he heq
      rw [heq, List.mem_singleton.mp he] at hd
      exact hnew hd
    · exact hrelease.topological.push (hsources (by omega))
  · cases h
    refine ⟨⟨by rw [List.length_set, hrelease.length], hindegree, fun d => ?_, hrelease.nodup,
      hrelease.topological⟩, rfl, List.prefix_refl _, Nat.pos_of_ne_zero hzero⟩
    rw [hrelease.queued d]
    by_cases heq : edge.destination = d
    · subst heq
      simp only [if_true, hzero, hlast, and_false]
    · simp only [heq, if_false]

/-- What holds of a queue whose first entries, up to the cursor, are released. -/
structure Release.Upto (edges : List (List ProgressEdge)) (release : Release) (cursor : ℕ)
    (pending : Finset ℕ) : Prop where
  sound : release.Sound edges (incoming edges pending)
  order : release.order = release.queue.take cursor
  pending : ∀ u, u ∈ pending ↔ u < edges.length ∧ u ∉ release.queue.take cursor

theorem Release.Sound.congr {count count' : ℕ → ℕ} {release : Release}
    (h : release.Sound edges count) (hcount : ∀ d, count d = count' d) :
    release.Sound edges count' := by
  obtain rfl : count = count' := funext hcount
  exact h

theorem incoming_erase {pending : Finset ℕ} {node : ℕ} {outgoing : List ProgressEdge}
    (hpending : node ∈ pending) (houtgoing : edges[node]? = some outgoing) (d : ℕ) :
    incoming edges pending d = incoming edges (pending.erase node) d + edgesTo d outgoing := by
  have hsum := Finset.add_sum_erase pending (fun u => edgesTo d ((edges[u]?).getD [])) hpending
  rw [houtgoing, Option.getD_some] at hsum
  rw [incoming, incoming, ← hsum, Nat.add_comm]

theorem releaseEdge_counted {release release' : Release} {base : ℕ → ℕ} {edge : ProgressEdge}
    {rest : List ProgressEdge}
    (hrelease : release.Sound edges fun d => base d + edgesTo d (edge :: rest))
    (hsources : ∀ d, base d = 0 → ∀ u, LeadsTo edges u d → u ∈ release.queue)
    (h : releaseEdge maximumWork release edge = .ok release') :
    release'.Sound edges (fun d => base d + edgesTo d rest) ∧ release'.order = release.order ∧
      release.queue <+: release'.queue := by
  have hlast : base edge.destination + edgesTo edge.destination (edge :: rest) = 1 →
      ∀ u, LeadsTo edges u edge.destination → u ∈ release.queue := by
    intro hone
    rw [edgesTo_cons, if_pos rfl] at hone
    exact hsources _ (by omega)
  obtain ⟨hsound, horder, hleading, -⟩ := releaseEdge_ok hrelease hlast h
  refine ⟨hsound.congr fun d => ?_, horder, hleading⟩
  rw [edgesTo_cons]
  split_ifs <;> omega

/-- What holds within the edges of the released node. -/
theorem releaseEdges_step {order queue : List ℕ} {base : ℕ → ℕ} {outgoing : List ProgressEdge}
    (hsources : ∀ d, base d = 0 → ∀ u, LeadsTo edges u d → u ∈ queue)
    {done later : List ProgressEdge} {edge : ProgressEdge} {s s' : Release}
    (houtgoing : outgoing = done ++ edge :: later)
    (hs : ∀ rest, outgoing = done ++ rest →
      s.Sound edges (fun d => base d + edgesTo d rest) ∧ s.order = order ∧
        queue <+: s.queue)
    (hstep : releaseEdge maximumWork s edge = .ok s') :
    ∀ rest, outgoing = done ++ [edge] ++ rest →
      s'.Sound edges (fun d => base d + edgesTo d rest) ∧ s'.order = order ∧
        queue <+: s'.queue := by
  intro rest hrest
  have hlater : rest = later := by
    rw [houtgoing, List.append_assoc] at hrest
    exact (List.cons.inj (List.append_cancel_left hrest)).2.symm
  subst hlater
  obtain ⟨hsound, horder, hleading⟩ := hs (edge :: rest) houtgoing
  obtain ⟨hsound', horder', hleading'⟩ := releaseEdge_counted hsound
    (fun d hd u hu => hleading.subset (hsources d hd u hu)) hstep
  exact ⟨hsound', horder'.trans horder, hleading.trans hleading'⟩

/-- **The edges of the released node**, counted off one after the other.  The last edge
into a node comes when all that leads to it is released. -/
theorem releaseEdges_ok {release release' : Release} {pending : Finset ℕ}
    {outgoing : List ProgressEdge}
    (hrelease : release.Sound edges fun d => incoming edges pending d + edgesTo d outgoing)
    (hsources : ∀ d, incoming edges pending d = 0 → ∀ u, LeadsTo edges u d → u ∈ release.queue)
    (h : outgoing.foldlM (releaseEdge maximumWork) release = .ok release') :
    release'.Sound edges (incoming edges pending) ∧ release'.order = release.order ∧
      release.queue <+: release'.queue := by
  have hloop := foldlM_ok
    (I := fun done (s : Release) => ∀ rest, outgoing = done ++ rest →
      s.Sound edges (fun d => incoming edges pending d + edgesTo d rest) ∧
        s.order = release.order ∧ release.queue <+: s.queue)
    h ?_ ?_
  · obtain ⟨hsound, horder, hleading⟩ := hloop [] (List.append_nil _).symm
    exact ⟨hsound.congr fun d => Nat.add_zero _, horder, hleading⟩
  · rintro rest hrest
    obtain rfl : outgoing = rest := hrest
    exact ⟨hrelease, rfl, List.prefix_refl _⟩
  · intro done edge later s s' houtgoing hs hstep
    exact releaseEdges_step hsources houtgoing hs hstep

/-- **A node taken from the queue**: with it, its edges are the only ones still to come
from nodes that are not pending, and what leads to a node without edges to come is
queued. -/
theorem Release.Upto.take {release : Release} {cursor : ℕ} {pending : Finset ℕ}
    (hcursor : cursor < release.queue.length) (hrelease : release.Upto edges cursor pending)
    {outgoing : List ProgressEdge} (houtgoing : edges[release.queue[cursor]]? = some outgoing) :
    release.Sound edges
        (fun d => incoming edges (pending.erase release.queue[cursor]) d + edgesTo d outgoing) ∧
      ∀ d, incoming edges (pending.erase release.queue[cursor]) d = 0 →
        ∀ u, LeadsTo edges u d → u ∈ release.queue := by
  generalize hnode : release.queue[cursor] = node at houtgoing ⊢
  have hfresh : node ∉ release.queue.take cursor := by
    intro hmem
    have hnodup := (List.take_sublist (cursor + 1) release.queue).nodup hrelease.sound.nodup
    rw [List.take_succ_eq_append_getElem hcursor, hnode] at hnodup
    exact List.disjoint_of_nodup_append hnodup hmem (List.mem_singleton_self node)
  have hlt : node < edges.length := (List.getElem?_eq_some_iff.mp houtgoing).1
  have hpending : node ∈ pending := (hrelease.pending node).mpr ⟨hlt, hfresh⟩
  refine ⟨hrelease.sound.congr (incoming_erase hpending houtgoing), fun d hnone u hu => ?_⟩
  have hnot := not_leadsTo_of_incoming hnone hu
  obtain ⟨edge, hedge, -⟩ := hu
  by_cases heq : u = node
  · rw [heq, ← hnode]
    exact List.getElem_mem hcursor
  · by_contra hmem
    refine hnot (Finset.mem_erase.mpr ⟨heq, (hrelease.pending u).mpr ⟨hedge.lt, fun htake => ?_⟩⟩)
    exact hmem (List.mem_of_mem_take htake)

/-- **One node released.** -/
theorem releaseTurn_ok {release release' : Release} {cursor : ℕ} {pending : Finset ℕ}
    (hcursor : cursor < release.queue.length) (hrelease : release.Upto edges cursor pending)
    (h : releaseTurn edges maximumWork release release.queue[cursor] = .ok release') :
    release'.Upto edges (cursor + 1) (pending.erase release.queue[cursor]) := by
  simp only [releaseTurn, bind_eq_ok, indexAt_eq_ok] at h
  obtain ⟨work, -, outgoing, houtgoing, h⟩ := h
  obtain ⟨hcounted, hsources⟩ := hrelease.take hcursor houtgoing
  generalize hnode : release.queue[cursor] = node at h houtgoing hcounted hsources ⊢
  have hqueue : release.queue.take (cursor + 1) = release.queue.take cursor ++ [node] := by
    rw [List.take_succ_eq_append_getElem hcursor, hnode]
  have hstart : Release.Sound edges
      (fun d => incoming edges (pending.erase node) d + edgesTo d outgoing)
      ⟨release.indegree, release.queue, release.order ++ [node], work⟩ :=
    ⟨hcounted.length, hcounted.indegree, hcounted.queued, hcounted.nodup, hcounted.topological⟩
  obtain ⟨hsound, horder, hleading⟩ := releaseEdges_ok hstart hsources h
  have htake : release'.queue.take (cursor + 1) = release.queue.take cursor ++ [node] := by
    obtain ⟨added, hadded⟩ := hleading
    rw [← hadded, List.take_append_of_le_length hcursor, hqueue]
  refine ⟨hsound, ?_, fun u => ?_⟩
  · rw [horder, htake, hrelease.order]
  · rw [Finset.mem_erase, hrelease.pending u, htake, List.mem_append, List.mem_singleton]
    tauto

theorem Release.Upto.initial {work work₁ work₂ : ℕ} {indegree queue : List ℕ}
    (hcount : countIndegrees edges work maximumWork = .ok (work₁, indegree))
    (hqueue : initialQueue indegree work₁ maximumWork = .ok (work₂, queue)) (work' : ℕ) :
    Release.Upto edges ⟨indegree, queue, [], work'⟩ 0 (range edges.length) := by
  obtain ⟨hlength, hindegree⟩ := countIndegrees_ok hcount
  obtain ⟨hnodup, hmem⟩ := initialQueue_ok hqueue
  have hqueued : ∀ d, d ∈ queue ↔ d < edges.length ∧ incoming edges (range edges.length) d = 0 := by
    intro d
    rw [hmem d]
    constructor
    · intro hd
      have hlt : d < edges.length := hlength ▸ (List.getElem?_eq_some_iff.mp hd).1
      rw [hindegree d hlt] at hd
      exact ⟨hlt, Option.some.inj hd⟩
    · rintro ⟨hlt, hzero⟩
      rw [hindegree d hlt, hzero]
  have hfree : ∀ d ∈ queue, ∀ u, ¬ LeadsTo edges u d := by
    intro d hd u hu
    obtain ⟨edge', hedge', -⟩ := id hu
    exact not_leadsTo_of_incoming ((hqueued d).mp hd).2 hu (mem_range.mpr hedge'.lt)
  have htop : Topological (LeadsTo edges) queue := fun earlier d later hsplit u hu =>
    absurd hu (hfree d (by rw [hsplit]; exact List.mem_append_right _ List.mem_cons_self) u)
  exact ⟨⟨hlength, hindegree, hqueued, hnodup, htop⟩, rfl, fun u => by simp⟩

theorem releaseFrom_eq (edges : List (List ProgressEdge)) (maximumWork : ℕ) (release : Release)
    (cursor : ℕ) :
    releaseFrom edges maximumWork release cursor =
      if hcursor : cursor < release.queue.length then
        match releaseTurn edges maximumWork release release.queue[cursor] with
        | .error failure => .error failure
        | .ok release => releaseFrom edges maximumWork release (cursor + 1)
      else .ok release := by
  rw [releaseFrom]
  split
  · split <;> simp only [*]
  · rfl

/-- **The order of release** is topological, without repetitions, and of nodes. -/
theorem releaseFrom_ok {release release' : Release} {cursor : ℕ} {pending : Finset ℕ}
    (hrelease : release.Upto edges cursor pending)
    (h : releaseFrom edges maximumWork release cursor = .ok release') :
    release'.order.Nodup ∧ Topological (LeadsTo edges) release'.order ∧
      ∀ u ∈ release'.order, u < edges.length := by
  induction release, cursor using releaseFrom.induct edges maximumWork generalizing pending with
  | case1 release cursor hcursor failure hturn =>
    rw [releaseFrom_eq, dif_pos hcursor, hturn] at h
    cases h
  | case2 release cursor hcursor release₁ hturn ih =>
    rw [releaseFrom_eq, dif_pos hcursor, hturn] at h
    exact ih (releaseTurn_ok hcursor hrelease hturn) h
  | case3 release cursor hcursor =>
    rw [releaseFrom_eq, dif_neg hcursor] at h
    cases h
    rw [hrelease.order, List.take_of_length_le (Nat.not_lt.mp hcursor)]
    exact ⟨hrelease.sound.nodup, hrelease.sound.topological,
      fun u hu => ((hrelease.sound.queued u).mp hu).1⟩

/-! ## Ranking -/

/-- The rank of a node covers an edge: it is at least that of the destination, and more
when the edge is strict. -/
def Covers (ranks : List UInt32) (u : ℕ) (edge : ProgressEdge) : Prop :=
  ∃ own next, ranks[u]? = some own ∧ ranks[edge.destination]? = some next ∧
    next.toNat + edge.strict.toNat ≤ own.toNat

theorem rankEdge_ok {node work work' : ℕ} {ranks ranks' : List UInt32} {edge : ProgressEdge}
    (hself : edge.destination ≠ node)
    (h : rankEdge maximumWork node (work, ranks) edge = .ok (work', ranks')) :
    ranks'.length = ranks.length ∧ (∀ u, u ≠ node → ranks'[u]? = ranks[u]?) ∧
      (∀ own, ranks[node]? = some own → ∃ own', ranks'[node]? = some own' ∧
        own.toNat ≤ own'.toNat) ∧
      Covers ranks' node edge := by
  simp only [rankEdge, bind_eq_ok, indexAt_eq_ok] at h
  obtain ⟨_, -, own, hown, next, hnext, h⟩ := h
  obtain ⟨hlt, -⟩ := List.getElem?_eq_some_iff.mp hown
  split_ifs at h with hstrict hfits hfits
  all_goals
    cases h
    refine ⟨List.length_set, fun u hu => List.getElem?_set_ne (fun heq => hu heq.symm), ?_, ?_⟩
  · intro own' hown'
    rw [hown] at hown'
    cases hown'
    refine ⟨_, List.getElem?_set_self hlt, ?_⟩
    rw [UInt32.toNat_max]
    exact le_max_left _ _
  · refine ⟨_, next, List.getElem?_set_self hlt, ?_, ?_⟩
    · rw [List.getElem?_set_ne (fun heq => hself heq.symm), hnext]
    · rw [hstrict, UInt32.toNat_max, UInt32.toNat_add, Nat.mod_eq_of_lt hfits]
      exact le_max_right _ _
  · intro own' hown'
    rw [hown] at hown'
    cases hown'
    refine ⟨_, List.getElem?_set_self hlt, ?_⟩
    rw [UInt32.toNat_max]
    exact le_max_left _ _
  · refine ⟨_, next, List.getElem?_set_self hlt, ?_, ?_⟩
    · rw [List.getElem?_set_ne (fun heq => hself heq.symm), hnext]
    · rw [Bool.eq_false_iff.mpr hstrict, UInt32.toNat_max, UInt32.toNat_add,
        Nat.mod_eq_of_lt hfits]
      exact le_max_right _ _

theorem Covers.raise {ranks ranks' : List UInt32} {node : ℕ} {edge : ProgressEdge}
    (h : Covers ranks node edge) (hself : edge.destination ≠ node)
    (hsame : ∀ u, u ≠ node → ranks'[u]? = ranks[u]?)
    (hraise : ∀ own, ranks[node]? = some own → ∃ own', ranks'[node]? = some own' ∧
      own.toNat ≤ own'.toNat) : Covers ranks' node edge := by
  obtain ⟨own, next, hown, hnext, hle⟩ := h
  obtain ⟨own', hown', hmore⟩ := hraise own hown
  exact ⟨own', next, hown', by rw [hsame _ hself, hnext], hle.trans hmore⟩

/-- **Ranking one node** touches no other rank and covers all its edges. -/
theorem rankNode_ok {node work work' : ℕ} {ranks ranks' : List UInt32}
    (hself : ¬ LeadsTo edges node node)
    (h : rankNode edges maximumWork (work, ranks) node = .ok (work', ranks')) :
    (∀ u, u ≠ node → ranks'[u]? = ranks[u]?) ∧
      ∀ edge, HasEdge edges node edge → Covers ranks' node edge := by
  simp only [rankNode, bind_eq_ok, indexAt_eq_ok] at h
  obtain ⟨_, -, outgoing, houtgoing, h⟩ := h
  have hloop := foldlM_ok
    (I := fun done (s : ℕ × List UInt32) => (∀ u, u ≠ node → s.2[u]? = ranks[u]?) ∧
      ∀ edge ∈ done, Covers s.2 node edge)
    h ⟨fun u _ => rfl, fun edge hedge => absurd hedge List.not_mem_nil⟩ ?_
  · refine ⟨hloop.1, fun edge ⟨outgoing', houtgoing', hedge⟩ => ?_⟩
    rw [houtgoing] at houtgoing'
    cases houtgoing'
    exact hloop.2 edge hedge
  · rintro done edge later ⟨w, s⟩ ⟨w', s'⟩ hsplit ⟨hsame, hcovers⟩ hstep
    have hother : ∀ edge ∈ outgoing, edge.destination ≠ node :=
      fun edge hedge heq => hself ⟨edge, ⟨outgoing, houtgoing, hedge⟩, heq⟩
    have hmem : edge ∈ outgoing := by
      rw [hsplit]
      exact List.mem_append_right done List.mem_cons_self
    obtain ⟨-, hkeep, hraise, hnew⟩ := rankEdge_ok (hother edge hmem) hstep
    refine ⟨fun u hu => (hkeep u hu).trans (hsame u hu), fun edge' hedge' => ?_⟩
    rcases List.mem_append.mp hedge' with hedge' | hedge'
    · have hmem' : edge' ∈ outgoing := by
        rw [hsplit]
        exact List.mem_append_left _ hedge'
      exact (hcovers edge' hedge').raise (hother edge' hmem') hkeep hraise
    · rw [List.mem_singleton.mp hedge']
      exact hnew

/-- **The ranks of `dag_ranks` cover every edge.** -/
theorem dagRanks_ok {work work' : ℕ} {ranks : List UInt32}
    (h : dagRanks edges work maximumWork = .ok (work', ranks)) {u : ℕ} {edge : ProgressEdge}
    (hedge : HasEdge edges u edge) : Covers ranks u edge := by
  simp only [dagRanks, bind_eq_ok] at h
  obtain ⟨⟨_, indegree⟩, hcount, ⟨_, queue⟩, hqueue, release, hrelease, h⟩ := h
  obtain ⟨horder, htopological, hnodes⟩ :=
    releaseFrom_ok (Release.Upto.initial hcount hqueue _) hrelease
  split_ifs at h with hall
  · have hloop := foldlM_ok
      (I := fun before (s : ℕ × List UInt32) =>
        ∀ u ∈ before, ∀ edge, HasEdge edges u edge → Covers s.2 u edge)
      h (fun u hu => absurd hu List.not_mem_nil) ?_
    · refine hloop u (List.mem_reverse.mpr ?_) edge hedge
      exact horder.mem_of_length hnodes (not_not.mp hall) hedge.lt
    · rintro before node after ⟨w, s⟩ ⟨w', s'⟩ hsplit hbefore hstep
      have hsplit' : release.order = after.reverse ++ node :: before.reverse := by
        have hreverse := congrArg List.reverse hsplit
        rw [List.reverse_reverse] at hreverse
        rw [hreverse, List.reverse_append, List.reverse_cons, List.append_assoc,
          List.singleton_append]
      -- what leads to this node has no rank yet
      have hlater : ∀ u, LeadsTo edges u node → u ∉ node :: before.reverse :=
        fun u hu => htopological.notMem_of_nodup horder hsplit' hu
      obtain ⟨hkeep, hnew⟩ :=
        rankNode_ok (fun hself => hlater node hself List.mem_cons_self) hstep
      intro u hu edge' hedge'
      rcases List.mem_append.mp hu with hearlier | hlast
      · have hmem : u ∈ node :: before.reverse :=
          List.mem_cons_of_mem _ (List.mem_reverse.mpr hearlier)
        have hother : u ≠ node := by
          rintro rfl
          rw [hsplit'] at horder
          exact (List.nodup_cons.mp (List.nodup_append.mp horder).2.1).1
            (List.mem_reverse.mpr hearlier)
        have hdestination : edge'.destination ≠ node :=
          fun heq => hlater u ⟨edge', hedge', heq⟩ hmem
        obtain ⟨own, next, hown, hnext, hle⟩ := hbefore u hearlier edge' hedge'
        exact ⟨own, next, by rw [hkeep u hother, hown], by rw [hkeep _ hdestination, hnext], hle⟩
      · rw [List.mem_singleton.mp hlast] at hedge' ⊢
        exact hnew edge' hedge'

end
end GreatGramma
