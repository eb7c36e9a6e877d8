import GreatGramma.Compiler.Components
import GreatGramma.Compiler.Condense
import GreatGramma.Library.StrictWalks

/-!
# The ranks are the longest walks

`Dag` and `Condense` follow the ranking as far as it goes through, and find that its ranks cover
every edge.  Here it is followed to the end, at the largest maximum: when it goes through, and
that no ranks could be smaller.

## When it goes through

On a graph whose edges all go to larger numbers every node is released: the smallest one that waits
would have nothing left to wait for (`Release.Upto.mem_queue`).  The condensed graph is such a
graph, for the component search numbers no component larger than what it leads to
(`CondensedFrom.upward`).  So only one check can fail, that no strict edge stays inside a
component, and it fails exactly if the graph has a strict edge on a cycle
(`IsComponents.strictCycle_iff`).

## No ranks could be smaller

On an upward graph the rank of a node is the largest number of strict edges on a walk from it: it
is raised to what its edges ask for and to nothing else (`rankNode_total`).  The walks of a graph
and of its condensed graph have the same numbers of strict edges, once no strict edge stays inside
a component (`CondensedFrom.isGreatest`); a walk of the one is made into a walk of the other edge
by edge, going around inside a component where it has to.

## With a limit

The last part shows the ranking to be gated by its work, and puts everything together: with enough
work it reports that there is no witness just where a cycle has a strict edge; otherwise every node
gets the largest number of strict edges on a walk from it (`progressRanks_exact`).
-/

namespace GreatGramma

open FinishingOrder Finset Relation StrictWalks Traversal

section
variable {edges : List (List ProgressEdge)}

/-- The edges of a progress graph, by their ends. -/
def EdgeOf (edges : List (List ProgressEdge)) (u : ℕ) (strict : Bool) (v : ℕ) : Prop :=
  ∃ edge, HasEdge edges u edge ∧ edge.strict = strict ∧ edge.destination = v

/-- Every edge goes to a node of a larger number. -/
def Upward (edges : List (List ProgressEdge)) : Prop := ∀ u v, LeadsTo edges u v → u < v

theorem EdgeOf.leadsTo {u v : ℕ} {strict : Bool} (h : EdgeOf edges u strict v) :
    LeadsTo edges u v := by
  obtain ⟨edge, hedge, -, hd⟩ := h
  exact ⟨edge, hedge, hd⟩

theorem leadsTo_iff {u v : ℕ} : LeadsTo edges u v ↔ Edge (EdgeOf edges) u v := by
  constructor
  · rintro ⟨edge, hedge, hd⟩
    exact ⟨edge.strict, edge, hedge, rfl, hd⟩
  · rintro ⟨strict, h⟩
    exact h.leadsTo

/-- A walk stays in the graph. -/
theorem Walk.lt (hrange : InRange edges) {u w n : ℕ} (h : Walk (EdgeOf edges) u n w)
    (hu : u < edges.length) : w < edges.length := by
  induction h with
  | nil => exact hu
  | cons edge _ ih => exact ih (hrange.lt edge.leadsTo)

/-- In an upward graph no walk has as many strict edges as there are nodes. -/
theorem From.lt (hrange : InRange edges) (hup : Upward edges) {u n : ℕ}
    (h : From (EdgeOf edges) u n) (hu : u < edges.length) : n < edges.length := by
  obtain ⟨w, hw⟩ := h
  have hclimb := hw.add_le fun u strict v edge => hup u v edge.leadsTo
  have hlt := Walk.lt hrange hw hu
  omega

/-! ## Every node is released -/

theorem releaseEdge_total {count : ℕ → ℕ} {release : Release} {edge : ProgressEdge}
    (hrelease : release.Sound edges count) (hlt : edge.destination < edges.length)
    (hpos : 0 < count edge.destination) :
    ∃ release', releaseEdge unlimitedWork release edge = .ok release' := by
  have hget := hrelease.indegree edge.destination hlt
  simp only [releaseEdge, charge_unlimited, indexAt_eq_ok.mpr hget, ok_bind]
  rw [if_neg (Nat.ne_of_gt hpos)]
  split_ifs <;> exact ⟨_, rfl⟩

theorem releaseTurn_total (hrange : InRange edges) {release : Release} {cursor : ℕ}
    {pending : Finset ℕ} (hcursor : cursor < release.queue.length)
    (hrelease : release.Upto edges cursor pending) :
    ∃ release', releaseTurn edges unlimitedWork release release.queue[cursor] = .ok release' := by
  have hnode : release.queue[cursor] < edges.length :=
    ((hrelease.sound.queued _).mp (List.getElem_mem hcursor)).1
  have houtgoing := List.getElem?_eq_getElem hnode
  obtain ⟨hcounted, hsources⟩ := hrelease.take hcursor houtgoing
  generalize release.queue[cursor] = node at hnode houtgoing hcounted hsources ⊢
  simp only [releaseTurn, charge_unlimited, indexAt_eq_ok.mpr houtgoing, ok_bind]
  have hloop : ∃ release', edges[node].foldlM (releaseEdge unlimitedWork)
      ⟨release.indegree, release.queue, release.order ++ [node],
        min (release.work + 1) unlimitedWork⟩ = .ok release' ∧
      ∀ rest, edges[node] = edges[node] ++ rest →
        release'.Sound edges
          (fun d => incoming edges (pending.erase node) d + edgesTo d rest) ∧
        release'.order = release.order ++ [node] ∧ release.queue <+: release'.queue := by
    refine foldlM_total (I := fun done (s : Release) => ∀ rest, edges[node] = done ++ rest →
      s.Sound edges (fun d => incoming edges (pending.erase node) d + edgesTo d rest) ∧
        s.order = release.order ++ [node] ∧ release.queue <+: s.queue) ?_ ?_
    · rintro rest hrest
      rw [List.nil_append] at hrest
      rw [← hrest]
      exact ⟨⟨hcounted.length, hcounted.indegree, hcounted.queued, hcounted.nodup,
        hcounted.topological⟩, rfl, List.prefix_refl _⟩
    · intro done edge later s hsplit hs
      have hedge : edge ∈ edges[node] := by
        rw [hsplit]
        exact List.mem_append_right done List.mem_cons_self
      have hlt : edge.destination < edges.length := hrange node edge ⟨_, houtgoing, hedge⟩
      obtain ⟨hsound, -, -⟩ := hs (edge :: later) hsplit
      obtain ⟨s', hs'⟩ := releaseEdge_total hsound hlt (by rw [edgesTo_cons, if_pos rfl]; omega)
      exact ⟨s', hs', releaseEdges_step hsources hsplit hs hs'⟩
  obtain ⟨release', hok, -⟩ := hloop
  exact ⟨release', hok⟩

/-- **The loop over the queue** goes through, and the whole queue is released. -/
theorem releaseFrom_total (hrange : InRange edges) {release : Release} {cursor : ℕ}
    {pending : Finset ℕ} (hrelease : release.Upto edges cursor pending) :
    ∃ release' pending', releaseFrom edges unlimitedWork release cursor = .ok release' ∧
      release'.Upto edges release'.queue.length pending' := by
  induction release, cursor using releaseFrom.induct edges unlimitedWork generalizing pending with
  | case1 release cursor hcursor failure hturn =>
    obtain ⟨release', hok⟩ := releaseTurn_total hrange hcursor hrelease
    rw [hturn] at hok
    cases hok
  | case2 release cursor hcursor release₁ hturn ih =>
    rw [releaseFrom_eq, dif_pos hcursor, hturn]
    exact ih (releaseTurn_ok hcursor hrelease hturn)
  | case3 release cursor hcursor =>
    rw [releaseFrom_eq, dif_neg hcursor]
    have hall : release.queue.take cursor = release.queue.take release.queue.length := by
      rw [List.take_length, List.take_of_length_le (Nat.not_lt.mp hcursor)]
    exact ⟨release, pending, rfl, hrelease.sound, hall ▸ hrelease.order, hall ▸ hrelease.pending⟩

/-- **In an upward graph every node is released.** -/
theorem Release.Upto.mem_queue (hup : Upward edges) {release : Release} {pending : Finset ℕ}
    (h : release.Upto edges release.queue.length pending) {d : ℕ} (hd : d < edges.length) :
    d ∈ release.queue := by
  induction d using Nat.strong_induction_on with
  | _ d ih =>
    refine (h.sound.queued d).mpr ⟨hd, Finset.sum_eq_zero fun u hu => ?_⟩
    obtain ⟨hlt, hnot⟩ := (h.pending u).mp hu
    rw [List.take_length] at hnot
    rw [List.getElem?_eq_getElem hlt, Option.getD_some, edgesTo, List.countP_eq_zero]
    intro edge hedge heq
    have hleads : LeadsTo edges u d :=
      ⟨edge, ⟨_, List.getElem?_eq_getElem hlt, hedge⟩, beq_iff_eq.mp heq⟩
    exact hnot (ih u (hup u d hleads) hlt)

theorem countIndegrees_total (hrange : InRange edges) (work : ℕ) :
    ∃ work' indegree, countIndegrees edges work unlimitedWork = .ok (work', indegree) := by
  have hloop : ∃ state, countIndegrees edges work unlimitedWork = .ok state ∧
      state.2.length = edges.length := by
    refine foldlM_total (I := fun _ (state : ℕ × List ℕ) => state.2.length = edges.length)
      List.length_replicate ?_
    rintro before outgoing after ⟨w, indegree⟩ hsplit hlength
    refine foldlM_total (I := fun _ (state : ℕ × List ℕ) => state.2.length = edges.length)
      hlength ?_
    rintro done edge rest ⟨w, indegree⟩ hsplit' hlength
    have hget : edges[before.length]? = some outgoing := by
      rw [hsplit, List.getElem?_append_right le_rfl, Nat.sub_self]
      rfl
    have hedge : edge ∈ outgoing := by
      rw [hsplit']
      exact List.mem_append_right done List.mem_cons_self
    have hlt : edge.destination < indegree.length := by
      rw [hlength]
      exact hrange before.length edge ⟨outgoing, hget, hedge⟩
    have hdegree := List.getElem?_eq_getElem hlt
    simp only [charge_unlimited, indexAt_eq_ok.mpr hdegree, ok_bind]
    exact ⟨_, rfl, by rw [List.length_set]; exact hlength⟩
  obtain ⟨⟨work', indegree⟩, hok, -⟩ := hloop
  exact ⟨work', indegree, hok⟩

theorem initialQueue_total (indegree : List ℕ) (work : ℕ) :
    ∃ work' queue, initialQueue indegree work unlimitedWork = .ok (work', queue) := by
  have hloop : ∃ state, initialQueue indegree work unlimitedWork = .ok state ∧ True := by
    refine foldlM_total (I := fun _ (_ : ℕ × List ℕ) => True) trivial ?_
    rintro done node rest ⟨w, queue⟩ hsplit -
    have hlt : node < indegree.length := by
      rw [← List.mem_range, hsplit]
      exact List.mem_append_right done List.mem_cons_self
    have hget := List.getElem?_eq_getElem hlt
    simp only [charge_unlimited, indexAt_eq_ok.mpr hget, ok_bind]
    split_ifs <;> exact ⟨_, rfl, trivial⟩
  obtain ⟨⟨work', queue⟩, hok, -⟩ := hloop
  exact ⟨work', queue, hok⟩

/-! ## Ranks are largest numbers -/

/-- The rank of a node is the largest number of strict edges on a walk from it. -/
def RankedExactly (edges : List (List ProgressEdge)) (ranks : List UInt32) (u : ℕ) : Prop :=
  ∃ rank : UInt32, ranks[u]? = some rank ∧ IsGreatest {n | From (EdgeOf edges) u n} rank.toNat

/-- What the edges looked at give to the rank of their source. -/
structure RankedSoFar (edges : List (List ProgressEdge)) (looked : List ProgressEdge)
    (own : UInt32) : Prop where
  le : ∀ edge ∈ looked, ∃ next, IsGreatest {n | From (EdgeOf edges) edge.destination n} next ∧
    next + edge.strict.toNat ≤ own.toNat
  mem : own.toNat = 0 ∨ ∃ edge ∈ looked, ∃ next, From (EdgeOf edges) edge.destination next ∧
    own.toNat = next + edge.strict.toNat

theorem rankEdge_total {node : ℕ} (work : ℕ) {ranks : List UInt32} {looked : List ProgressEdge}
    {edge : ProgressEdge} {own : UInt32} (hsize : edges.length < 2 ^ 32) (hrange : InRange edges)
    (hup : Upward edges) (hedge : HasEdge edges node edge)
    (hnext : RankedExactly edges ranks edge.destination) (hown : ranks[node]? = some own)
    (hs : RankedSoFar edges looked own) :
    ∃ work' own', rankEdge unlimitedWork node (work, ranks) edge =
        .ok (work', ranks.set node own') ∧ RankedSoFar edges (looked ++ [edge]) own' := by
  obtain ⟨next, hget, hgreatest⟩ := hnext
  have hincrement : (if edge.strict then (1 : UInt32) else 0).toNat = edge.strict.toNat := by
    cases edge.strict <;> rfl
  -- the sum is the number of a walk from the node, and so it does not overflow
  have hwalk : From (EdgeOf edges) node (next.toNat + edge.strict.toNat) := by
    obtain ⟨w, hw⟩ := hgreatest.1
    exact ⟨w, .cons ⟨edge, hedge, rfl, rfl⟩ hw⟩
  have hfits : next.toNat + edge.strict.toNat < 2 ^ 32 :=
    (From.lt hrange hup hwalk hedge.lt).trans hsize
  have hsum : (next + if edge.strict then (1 : UInt32) else 0).toNat =
      next.toNat + edge.strict.toNat := by
    rw [UInt32.toNat_add, hincrement, Nat.mod_eq_of_lt hfits]
  refine ⟨min (work + 1) unlimitedWork,
    max own (next + if edge.strict then (1 : UInt32) else 0), ?_, ?_, ?_⟩
  · simp only [rankEdge, charge_unlimited, indexAt_eq_ok.mpr hown, indexAt_eq_ok.mpr hget, ok_bind]
    rw [hincrement, if_pos hfits]
    rfl
  · intro edge' hedge'
    rw [UInt32.toNat_max, hsum]
    rcases List.mem_append.mp hedge' with hold | hnew
    · obtain ⟨next', hgreatest', hle⟩ := hs.le edge' hold
      exact ⟨next', hgreatest', hle.trans (le_max_left _ _)⟩
    · rw [List.mem_singleton.mp hnew]
      exact ⟨next.toNat, hgreatest, le_max_right _ _⟩
  · rw [UInt32.toNat_max, hsum]
    rcases le_total own.toNat (next.toNat + edge.strict.toNat) with hle | hle
    · rw [max_eq_right hle]
      exact Or.inr ⟨edge, List.mem_append_right _ List.mem_cons_self, next.toNat, hgreatest.1, rfl⟩
    · rw [max_eq_left hle]
      rcases hs.mem with hzero | ⟨edge', hedge', next', hfrom, heq⟩
      · exact Or.inl hzero
      · exact Or.inr ⟨edge', List.mem_append_left _ hedge', next', hfrom, heq⟩

/-- **A node is ranked** once all that it leads to is. -/
theorem rankNode_total {node : ℕ} (work : ℕ) {ranks : List UInt32} (hsize : edges.length < 2 ^ 32)
    (hrange : InRange edges) (hup : Upward edges) (hnode : node < edges.length)
    (hfresh : ranks[node]? = some 0)
    (hnext : ∀ v, LeadsTo edges node v → RankedExactly edges ranks v) :
    ∃ work' ranks', rankNode edges unlimitedWork (work, ranks) node = .ok (work', ranks') ∧
      (∀ u, u ≠ node → ranks'[u]? = ranks[u]?) ∧ RankedExactly edges ranks' node := by
  have houtgoing := List.getElem?_eq_getElem hnode
  have hloop : ∃ state, edges[node].foldlM (rankEdge unlimitedWork node)
      (min (work + 1) unlimitedWork, ranks) = .ok state ∧
      (∀ u, u ≠ node → state.2[u]? = ranks[u]?) ∧
      ∃ own, state.2[node]? = some own ∧ RankedSoFar edges edges[node] own := by
    refine foldlM_total (I := fun looked (state : ℕ × List UInt32) =>
      (∀ u, u ≠ node → state.2[u]? = ranks[u]?) ∧
        ∃ own, state.2[node]? = some own ∧ RankedSoFar edges looked own) ?_ ?_
    · exact ⟨fun _ _ => rfl, 0, hfresh, fun _ h => absurd h List.not_mem_nil, Or.inl rfl⟩
    · rintro looked edge rest ⟨w, s⟩ hsplit ⟨hother, own, hown, hs⟩
      have hedge : HasEdge edges node edge := by
        refine ⟨_, houtgoing, ?_⟩
        rw [hsplit]
        exact List.mem_append_right looked List.mem_cons_self
      have hleads : LeadsTo edges node edge.destination := ⟨edge, hedge, rfl⟩
      have hdestination : RankedExactly edges s edge.destination := by
        obtain ⟨rank, hget, hgreatest⟩ := hnext _ hleads
        exact ⟨rank, by rw [hother _ (Nat.ne_of_gt (hup _ _ hleads)), hget], hgreatest⟩
      obtain ⟨w', own', hok, hs'⟩ := rankEdge_total w hsize hrange hup hedge hdestination hown hs
      obtain ⟨hlt, -⟩ := List.getElem?_eq_some_iff.mp hown
      refine ⟨_, hok, fun u hu => ?_, own', List.getElem?_set_self hlt, hs'⟩
      rw [List.getElem?_set_ne (Ne.symm hu)]
      exact hother u hu
  obtain ⟨⟨work', ranks'⟩, hok, hother, own, hown, hs⟩ := hloop
  refine ⟨work', ranks', ?_, hother, own, hown, isGreatest_of_edges ?_ ?_⟩
  · simp only [rankNode, charge_unlimited, indexAt_eq_ok.mpr houtgoing, ok_bind]
    exact hok
  · rintro strict v ⟨edge, ⟨outgoing, houtgoing', hedge⟩, rfl, rfl⟩
    obtain rfl := Option.some_inj.mp (houtgoing'.symm.trans houtgoing)
    exact hs.le edge hedge
  · rcases hs.mem with hzero | ⟨edge, hedge, next, hfrom, heq⟩
    · exact Or.inl hzero
    · exact Or.inr ⟨_, _, next, ⟨edge, ⟨_, houtgoing, hedge⟩, rfl, rfl⟩, hfrom, heq⟩

/-- **`dag_ranks` on an upward graph** gives every node its largest number. -/
theorem dagRanks_total (hsize : edges.length < 2 ^ 32) (hrange : InRange edges)
    (hup : Upward edges) (work : ℕ) :
    ∃ work' ranks, dagRanks edges work unlimitedWork = .ok (work', ranks) ∧
      ∀ u < edges.length, RankedExactly edges ranks u := by
  obtain ⟨work₁, indegree, hcount⟩ := countIndegrees_total hrange work
  obtain ⟨work₂, queue, hqueue⟩ := initialQueue_total indegree work₁
  obtain ⟨release, pending, hrelease, hupto⟩ :=
    releaseFrom_total hrange (Release.Upto.initial hcount hqueue work₂)
  have hmem : ∀ d, d ∈ release.order ↔ d < edges.length := by
    intro d
    rw [hupto.order, List.take_length]
    exact ⟨fun hd => ((hupto.sound.queued d).mp hd).1, hupto.mem_queue hup⟩
  have hnodup : release.order.Nodup := by
    rw [hupto.order, List.take_length]
    exact hupto.sound.nodup
  have htopological : Topological (LeadsTo edges) release.order := by
    rw [hupto.order, List.take_length]
    exact hupto.sound.topological
  have hlength : release.order.length = edges.length := by
    have hperm : release.order.Perm (List.range edges.length) :=
      (List.perm_ext_iff_of_nodup hnodup List.nodup_range).mpr fun d => by
        rw [hmem, List.mem_range]
    rw [hperm.length_eq, List.length_range]
  have hloop : ∃ state, release.order.reverse.foldlM (rankNode edges unlimitedWork)
      (release.work, List.replicate edges.length 0) = .ok state ∧
      (∀ u ∈ release.order.reverse, RankedExactly edges state.2 u) ∧
      ∀ u < edges.length, u ∉ release.order.reverse → state.2[u]? = some 0 := by
    refine foldlM_total (I := fun (done : List ℕ) (state : ℕ × List UInt32) =>
      (∀ u ∈ done, RankedExactly edges state.2 u) ∧
        ∀ u < edges.length, u ∉ done → state.2[u]? = some 0) ?_ ?_
    · refine ⟨fun _ h => absurd h List.not_mem_nil, fun u hu _ => ?_⟩
      rw [List.getElem?_replicate, if_pos hu]
    · rintro done node rest ⟨w, ranks⟩ hsplit ⟨hdone, hfresh⟩
      have hsplit' : release.order = rest.reverse ++ node :: done.reverse := by
        rw [← List.reverse_reverse release.order, hsplit, List.reverse_append, List.reverse_cons,
          List.append_assoc]
        rfl
      have hnode : node < edges.length := by
        rw [← hmem, hsplit']
        exact List.mem_append_right _ List.mem_cons_self
      have hnot : node ∉ done := by
        intro hin
        rw [hsplit'] at hnodup
        exact (List.nodup_cons.mp hnodup.of_append_right).1 (List.mem_reverse.mpr hin)
      -- what the node leads to stands behind it
      have hnext : ∀ v, LeadsTo edges node v → v ∈ done := by
        intro v hv
        have hvlt : v < edges.length := hrange.lt hv
        have hvin : v ∈ rest.reverse ++ node :: done.reverse := hsplit' ▸ (hmem v).mpr hvlt
        rcases List.mem_append.mp hvin with hearlier | hlater
        · obtain ⟨front, between, hfront⟩ := List.append_of_mem hearlier
          have hsplit'' : release.order = front ++ v :: (between ++ node :: done.reverse) := by
            rw [hsplit', hfront, List.append_assoc, List.cons_append]
          have hbehind := htopological.notMem_of_nodup hnodup hsplit'' hv
          exact absurd (List.mem_cons_of_mem v
            (List.mem_append_right between List.mem_cons_self)) hbehind
        · rcases List.mem_cons.mp hlater with rfl | hlater
          · exact absurd (hup v v hv) (Nat.lt_irrefl v)
          · exact List.mem_reverse.mp hlater
      obtain ⟨w', ranks', hok, hother, hranked⟩ := rankNode_total w hsize hrange hup hnode
        (hfresh node hnode hnot) fun v hv => hdone v (hnext v hv)
      refine ⟨(w', ranks'), hok, fun u hu => ?_, fun u hu hnotin => ?_⟩
      · by_cases heq : u = node
        · rw [heq]
          exact hranked
        · rcases List.mem_append.mp hu with hold | hnew
          · obtain ⟨rank, hget, hgreatest⟩ := hdone u hold
            exact ⟨rank, (hother u heq).trans hget, hgreatest⟩
          · exact absurd (List.mem_singleton.mp hnew) heq
      · rw [List.mem_append, List.mem_singleton, not_or] at hnotin
        rw [hother u hnotin.2]
        exact hfresh u hu hnotin.1
  obtain ⟨⟨work', ranks⟩, hok, hranked, -⟩ := hloop
  refine ⟨work', ranks, ?_, fun u hu => hranked u (List.mem_reverse.mpr ((hmem u).mpr hu))⟩
  simp only [dagRanks, hcount, hqueue, hrelease, ok_bind]
  rw [if_neg (not_not.mpr hlength)]
  exact hok

/-! ## Strict edges inside a component -/

/-- A closed walk with a strict edge. -/
def StrictCycle (edges : List (List ProgressEdge)) : Prop :=
  ∃ u n, Walk (EdgeOf edges) u n u ∧ 0 < n

variable {components : List ℕ} {k : ℕ}

theorem leadsTo_eq : Edge (EdgeOf edges) = LeadsTo edges := by
  funext u v
  exact propext leadsTo_iff.symm

theorem IsComponents.get (h : IsComponents edges components k) {v : ℕ} (hv : v < edges.length) :
    ∃ c, components[v]? = some c := by
  rw [← h.length] at hv
  exact ⟨components[v], List.getElem?_eq_getElem hv⟩

/-- **A strict edge stays inside a component exactly if it lies on a cycle.** -/
theorem IsComponents.strictCycle_iff (h : IsComponents edges components k) :
    StrictCycle edges ↔ ∃ u edge c, HasEdge edges u edge ∧ edge.strict = true ∧
      components[u]? = some c ∧ components[edge.destination]? = some c := by
  constructor
  · rintro ⟨u, n, hwalk, hn⟩
    obtain ⟨x, y, hux, ⟨edge, hedge, hstrict, rfl⟩, hyu⟩ := hwalk.exists_strict hn
    rw [leadsTo_eq] at hux hyu
    obtain ⟨c, hc⟩ := h.get hedge.lt
    refine ⟨x, edge, c, hedge, hstrict, hc, (h.classes x edge.destination c hc).mpr ⟨?_, ?_⟩⟩
    · exact ReflTransGen.single ⟨edge, hedge, rfl⟩
    · exact hyu.trans hux
  · rintro ⟨u, edge, c, hedge, hstrict, hu, hd⟩
    obtain ⟨-, hback⟩ := (h.classes u edge.destination c hu).mp hd
    rw [← leadsTo_eq] at hback
    obtain ⟨n, hn⟩ := Walk.of_reach hback
    exact ⟨u, n + true.toNat, .cons ⟨edge, hedge, hstrict, rfl⟩ hn, Nat.succ_pos n⟩

/-- **The check for strict edges** goes through, or it has found one. -/
theorem checkStrictEdges_total (h : IsComponents edges components k) (hrange : InRange edges)
    (work : ℕ) :
    (∃ work', checkStrictEdges edges components work unlimitedWork = .ok work') ∨
      (checkStrictEdges edges components work unlimitedWork =
        .error (.error .noReductionProgressWitness) ∧ StrictCycle edges) := by
  have hloop : (∃ work', checkStrictEdges edges components work unlimitedWork = .ok work' ∧ True) ∨
      ∃ e, checkStrictEdges edges components work unlimitedWork = .error e ∧
        e = .error .noReductionProgressWitness ∧ StrictCycle edges := by
    refine foldlM_total_or (I := fun _ (_ : ℕ) => True) trivial ?_
    rintro before source after w hsplit -
    have hsource : source < edges.length := by
      rw [← List.mem_range, hsplit]
      exact List.mem_append_right before List.mem_cons_self
    have houtgoing := List.getElem?_eq_getElem hsource
    obtain ⟨own, hown⟩ := h.get hsource
    simp only [indexAt_eq_ok.mpr houtgoing, ok_bind]
    refine foldlM_total_or (I := fun _ (_ : ℕ) => True) trivial ?_
    rintro done edge rest w' hsplit' -
    have hedge : HasEdge edges source edge := by
      refine ⟨_, houtgoing, ?_⟩
      rw [hsplit']
      exact List.mem_append_right done List.mem_cons_self
    obtain ⟨other, hother⟩ := h.get (hrange source edge hedge)
    simp only [charge_unlimited, indexAt_eq_ok.mpr hown, indexAt_eq_ok.mpr hother, ok_bind]
    by_cases hstrict : edge.strict = true
    · rw [if_pos hstrict]
      by_cases hsame : own = other
      · rw [if_pos hsame]
        refine Or.inr ⟨_, rfl, rfl, h.strictCycle_iff.mpr ?_⟩
        exact ⟨source, edge, own, hedge, hstrict, hown, hsame ▸ hother⟩
      · rw [if_neg hsame]
        exact Or.inl ⟨_, rfl, trivial⟩
    · rw [if_neg hstrict]
      exact Or.inl ⟨_, rfl, trivial⟩
  rcases hloop with ⟨work', hok, -⟩ | ⟨e, herror, rfl, hcycle⟩
  · exact Or.inl ⟨work', hok⟩
  · exact Or.inr ⟨herror, hcycle⟩

/-! ## The condensed graph -/

/-- An edge of the condensed graph comes from an edge between the two components, and a
strict one from a strict one. -/
def Condensed (edges : List (List ProgressEdge)) (components : List ℕ) (c d : ℕ) (strict : Bool) :
    Prop :=
  c ≠ d ∧ ∃ u edge, HasEdge edges u edge ∧ components[u]? = some c ∧
    components[edge.destination]? = some d ∧ (strict = true → edge.strict = true)

theorem forall_joinEdge {P : ℕ → Bool → Prop} (hor : ∀ d a b, P d a → P d b → P d (a || b))
    {d : ℕ} {strict : Bool} (hnew : P d strict) {known : List ProgressEdge}
    (hknown : ∀ edge ∈ known, P edge.destination edge.strict) :
    ∀ edge ∈ joinEdge d strict known, P edge.destination edge.strict := by
  induction known with
  | nil =>
    intro edge hedge
    rw [List.mem_singleton.mp hedge]
    exact hnew
  | cons first rest ih =>
    have hfirst := hknown first List.mem_cons_self
    have hrest : ∀ edge ∈ rest, P edge.destination edge.strict :=
      fun edge hedge => hknown edge (List.mem_cons_of_mem first hedge)
    unfold joinEdge
    split_ifs with hsame
    · intro edge hedge
      rcases List.mem_cons.mp hedge with rfl | hedge
      · subst hsame
        exact hor _ _ _ hfirst hnew
      · exact hrest edge hedge
    · intro edge hedge
      rcases List.mem_cons.mp hedge with rfl | hedge
      · exact hfirst
      · exact ih hrest edge hedge

/-- Every edge of the condensed graph comes from an edge of the graph. -/
def CondensedFrom (edges : List (List ProgressEdge)) (components : List ℕ) (k : ℕ)
    (componentEdges : List (List ProgressEdge)) : Prop :=
  componentEdges.length = k ∧ ∀ c outgoing, componentEdges[c]? = some outgoing →
    ∀ edge ∈ outgoing, Condensed edges components c edge.destination edge.strict

theorem condenseEdge_total (h : IsComponents edges components k) (hrange : InRange edges)
    {source c : ℕ} (hc : components[source]? = some c) {edge : ProgressEdge}
    (hedge : HasEdge edges source edge) (work : ℕ) {componentEdges : List (List ProgressEdge)}
    (hs : CondensedFrom edges components k componentEdges) :
    ∃ state, condenseEdge components unlimitedWork c (work, componentEdges) edge = .ok state ∧
      CondensedFrom edges components k state.2 := by
  obtain ⟨d, hd⟩ := h.get (hrange source edge hedge)
  simp only [condenseEdge, charge_unlimited, indexAt_eq_ok.mpr hd, ok_bind]
  by_cases hsame : c = d
  · rw [if_pos hsame]
    exact ⟨_, rfl, hs⟩
  · rw [if_neg hsame]
    have hlt : c < componentEdges.length := by
      rw [hs.1]
      exact h.lt source c hc
    have hget := List.getElem?_eq_getElem hlt
    simp only [indexAt_eq_ok.mpr hget, ok_bind]
    refine ⟨_, rfl, by rw [List.length_set]; exact hs.1, fun c' outgoing houtgoing => ?_⟩
    by_cases heq : c = c'
    · subst heq
      rw [List.getElem?_set_self hlt] at houtgoing
      obtain rfl := Option.some_inj.mp houtgoing
      refine forall_joinEdge (P := Condensed edges components c) ?_ ?_ (hs.2 c _ hget)
      · rintro d' (_ | _) b ha hb
        · exact hb
        · exact ha
      · exact ⟨hsame, source, edge, hedge, hc, hd, id⟩
    · rw [List.getElem?_set_ne heq] at houtgoing
      exact hs.2 c' outgoing houtgoing

/-- **The condensing** goes through, and makes no edge up. -/
theorem condense_total (h : IsComponents edges components k) (hrange : InRange edges)
    (work : ℕ) :
    ∃ work' componentEdges, condense edges components k work unlimitedWork =
        .ok (work', componentEdges) ∧ CondensedFrom edges components k componentEdges := by
  have hloop : ∃ state, condense edges components k work unlimitedWork = .ok state ∧
      CondensedFrom edges components k state.2 := by
    refine foldlM_total (I := fun _ (state : ℕ × List (List ProgressEdge)) =>
      CondensedFrom edges components k state.2) ?_ ?_
    · refine ⟨List.length_replicate, fun c outgoing houtgoing edge hedge => ?_⟩
      rw [List.getElem?_replicate] at houtgoing
      split_ifs at houtgoing
      obtain rfl := Option.some_inj.mp houtgoing
      exact absurd hedge List.not_mem_nil
    · rintro before source after ⟨w, s⟩ hsplit hs
      have hsource : source < edges.length := by
        rw [← List.mem_range, hsplit]
        exact List.mem_append_right before List.mem_cons_self
      have houtgoing := List.getElem?_eq_getElem hsource
      obtain ⟨c, hc⟩ := h.get hsource
      simp only [indexAt_eq_ok.mpr houtgoing, indexAt_eq_ok.mpr hc, ok_bind]
      refine foldlM_total (I := fun _ (state : ℕ × List (List ProgressEdge)) =>
        CondensedFrom edges components k state.2) hs ?_
      rintro done edge rest ⟨w', s'⟩ hsplit' hs'
      have hedge : HasEdge edges source edge := by
        refine ⟨_, houtgoing, ?_⟩
        rw [hsplit']
        exact List.mem_append_right done List.mem_cons_self
      exact condenseEdge_total h hrange hc hedge w' hs'
  obtain ⟨⟨work', componentEdges⟩, hok, hs⟩ := hloop
  exact ⟨work', componentEdges, hok, hs⟩

theorem IsComponents.componentCount_eq (h : IsComponents edges components k) :
    componentCount components = k := by
  rcases Nat.eq_zero_or_pos k with rfl | hpos
  · have hnil : components = [] := by
      refine List.eq_nil_iff_forall_not_mem.mpr fun c hc => ?_
      obtain ⟨v, hv, rfl⟩ := List.getElem_of_mem hc
      exact Nat.not_lt_zero _ (h.lt v _ (List.getElem?_eq_getElem hv))
    rw [hnil]
    rfl
  · have hmax : components.max? = some (k - 1) := by
      refine List.max?_eq_some_iff.mpr ⟨?_, fun c hc => ?_⟩
      · obtain ⟨v, hv⟩ := h.used (k - 1) (by omega)
        exact List.mem_of_getElem? hv
      · obtain ⟨v, hv, rfl⟩ := List.getElem_of_mem hc
        have hlt := h.lt v _ (List.getElem?_eq_getElem hv)
        omega
    rw [componentCount, hmax]
    show k - 1 + 1 = k
    omega

theorem IsComponents.le (h : IsComponents edges components k) : k ≤ edges.length := by
  have hsubset : List.range k ⊆ components := by
    intro d hd
    obtain ⟨v, hv⟩ := h.used d (List.mem_range.mp hd)
    exact List.mem_of_getElem? hv
  have hle := (List.nodup_range.subperm hsubset).length_le
  rwa [List.length_range, h.length] at hle

section
variable {componentEdges : List (List ProgressEdge)}

theorem CondensedFrom.edgeOf (hs : CondensedFrom edges components k componentEdges) {c d : ℕ}
    {strict : Bool} (h : EdgeOf componentEdges c strict d) :
    Condensed edges components c d strict := by
  obtain ⟨edge, ⟨outgoing, houtgoing, hedge⟩, rfl, rfl⟩ := h
  exact hs.2 c outgoing houtgoing edge hedge

theorem CondensedFrom.inRange (h : IsComponents edges components k)
    (hs : CondensedFrom edges components k componentEdges) : InRange componentEdges := by
  rintro c edge ⟨outgoing, houtgoing, hedge⟩
  obtain ⟨-, u, e, -, -, hd, -⟩ := hs.2 c outgoing houtgoing edge hedge
  rw [hs.1]
  exact h.lt _ _ hd

/-- **The condensed graph is upward.** -/
theorem CondensedFrom.upward (h : IsComponents edges components k)
    (hs : CondensedFrom edges components k componentEdges) : Upward componentEdges := by
  intro c d hcd
  obtain ⟨strict, hedge⟩ := leadsTo_iff.mp hcd
  obtain ⟨hne, u, e, he, hc, hd, -⟩ := hs.edgeOf hedge
  exact Nat.lt_of_le_of_ne (h.ordered u e.destination c d ⟨e, he, rfl⟩ hc hd) hne

/-- **The condensed graph has the walks of the graph**, from a node and from its
component, where no strict edge stays inside a component. -/
theorem CondensedFrom.isGreatest (h : IsComponents edges components k)
    (hs : CondensedFrom edges components k componentEdges) (hcycle : ¬StrictCycle edges)
    (hjoined : ∀ u edge, HasEdge edges u edge → ∃ c d, components[u]? = some c ∧
      components[edge.destination]? = some d ∧ (c ≠ d → Joined componentEdges c d edge.strict))
    {u c : ℕ} (hc : components[u]? = some c) {r : ℕ}
    (hr : IsGreatest {n | From (EdgeOf componentEdges) c n} r) :
    IsGreatest {n | From (EdgeOf edges) u n} r := by
  refine isGreatest_congr hr ?_ ?_
  · rintro n ⟨w, hw⟩
    have hfollow : ∃ m d, Walk (EdgeOf componentEdges) c m d ∧ components[w]? = some d ∧ n ≤ m := by
      refine hw.follow (R := fun v c => components[v]? = some c) ?_ hc
      rintro x strict y c ⟨edge, hedge, rfl, rfl⟩ hx
      obtain ⟨c', d, hx', hd, hstep⟩ := hjoined x edge hedge
      obtain rfl := Option.some_inj.mp (hx'.symm.trans hx)
      by_cases hsame : c' = d
      · -- the edge stays inside, and is not strict
        subst hsame
        have hloose : edge.strict = false := by
          refine Bool.eq_false_iff.mpr fun hstrict => hcycle (h.strictCycle_iff.mpr ?_)
          exact ⟨x, edge, c', hedge, hstrict, hx', hd⟩
        exact ⟨0, c', .nil c', hd, by rw [hloose]; exact le_rfl⟩
      · obtain ⟨outgoing, houtgoing, e, he, hed, himp⟩ := hstep hsame
        exact ⟨_, d, .single ⟨e, ⟨outgoing, houtgoing, he⟩, rfl, hed⟩, hd,
          Bool.toNat_le_toNat himp⟩
    obtain ⟨m, d, hm, -, hle⟩ := hfollow
    exact ⟨m, ⟨d, hm⟩, hle⟩
  · rintro m ⟨d, hm⟩
    have hfollow : ∃ n w, Walk (EdgeOf edges) u n w ∧ components[w]? = some d ∧ m ≤ n := by
      refine hm.follow (R := fun c v => components[v]? = some c) ?_ hc
      rintro c strict d x hedge hx
      obtain ⟨-, y, e, he, hy, hd, himp⟩ := hs.edgeOf hedge
      -- within the component to the source of the edge, and along it
      obtain ⟨hreach, -⟩ := (h.classes x y c hx).mp hy
      rw [← leadsTo_eq] at hreach
      obtain ⟨n, hn⟩ := Walk.of_reach hreach
      refine ⟨n + e.strict.toNat, e.destination, hn.append (.single ⟨e, he, rfl, rfl⟩), hd, ?_⟩
      have hstrict := Bool.toNat_le_toNat himp
      omega
    obtain ⟨n, w, hn, -, hle⟩ := hfollow
    exact ⟨n, ⟨w, hn⟩, hle⟩

end

/-! ## The ranks -/

/-- The rank of a component is handed to a node of it. -/
def nodeRank (componentRanks : List UInt32) (maximumWork : ℕ) (state : ℕ × List UInt32)
    (component : ℕ) : Except CompileFailure (ℕ × List UInt32) := do
  let (work, ranks) := state
  let work ← charge work 1 maximumWork
  match componentRanks[component]? with
  | none => throw (.error .noReductionProgressWitness)
  | some rank => return (work, ranks ++ [rank])

theorem nodeRanks_total {componentRanks : List UInt32}
    (hranked : ∀ c ∈ components, ∃ rank, componentRanks[c]? = some rank) (work : ℕ) :
    ∃ work' ranks, components.foldlM (nodeRank componentRanks unlimitedWork) (work, []) =
        .ok (work', ranks) ∧
      ranks.length = components.length ∧
      ∀ v c : ℕ, components[v]? = some c → ranks[v]? = componentRanks[c]? := by
  have hloop : ∃ state, components.foldlM (nodeRank componentRanks unlimitedWork) (work, []) =
      .ok state ∧ state.2.map some = components.map fun c => componentRanks[c]? := by
    refine foldlM_total (I := fun done (state : ℕ × List UInt32) =>
      state.2.map some = done.map fun c => componentRanks[c]?) rfl ?_
    rintro done c rest ⟨w, ranks⟩ hsplit hdone
    have hc : c ∈ components := by
      rw [hsplit]
      exact List.mem_append_right done List.mem_cons_self
    obtain ⟨rank, hrank⟩ := hranked c hc
    simp only [nodeRank, charge_unlimited, hrank, ok_bind]
    refine ⟨_, rfl, ?_⟩
    rw [List.map_append, List.map_append, hdone, List.map_singleton, List.map_singleton, hrank]
  obtain ⟨⟨work', ranks⟩, hok, hmap⟩ := hloop
  refine ⟨work', ranks, hok, ?_, fun v c hv => ?_⟩
  · have hlength := congrArg List.length hmap
    rwa [List.length_map, List.length_map] at hlength
  · have hget := congrArg (·[v]?) hmap
    simp only [List.getElem?_map, hv, Option.map_some] at hget
    obtain ⟨rank, hrank, hsome⟩ := Option.map_eq_some_iff.mp hget
    exact hrank.trans hsome

/-- **`progress_ranks` at the largest maximum**: it finds a strict edge on a cycle, or the
ranks are the largest numbers. -/
theorem progressRanks_total (hsize : edges.length < 2 ^ 32) (hrange : InRange edges) (work : ℕ) :
    (StrictCycle edges ∧ progressRanks edges work unlimitedWork =
      .error (.error .noReductionProgressWitness)) ∨
    (¬StrictCycle edges ∧ ∃ work' ranks, progressRanks edges work unlimitedWork =
        .ok (work', ranks) ∧ ranks.length = edges.length ∧
      ∀ u < edges.length, RankedExactly edges ranks u) := by
  obtain ⟨work₁, components, k, hcomponents, h⟩ := stronglyConnectedComponents_total hrange work
  rcases checkStrictEdges_total h hrange work₁ with ⟨work₂, hcheck⟩ | ⟨hcheck, hcycle⟩
  · have hno : ¬StrictCycle edges := by
      rw [h.strictCycle_iff]
      rintro ⟨u, edge, c, hedge, hstrict, hu, hd⟩
      exact checkStrictEdges_ok hcheck hedge hstrict hu hd
    obtain ⟨work₃, componentEdges, hcondense, hs⟩ :=
      condense_total h hrange (min (work₂ + components.length) unlimitedWork)
    have hsize' : componentEdges.length < 2 ^ 32 := by
      rw [hs.1]
      exact Nat.lt_of_le_of_lt h.le hsize
    obtain ⟨work₄, componentRanks, hdag, hranks⟩ :=
      dagRanks_total hsize' (hs.inRange h) (hs.upward h) work₃
    rw [hs.1] at hranks
    have hranked : ∀ c ∈ components, ∃ rank, componentRanks[c]? = some rank := by
      intro c hc
      obtain ⟨v, hv, rfl⟩ := List.getElem_of_mem hc
      obtain ⟨rank, hget, -⟩ := hranks _ (h.lt v _ (List.getElem?_eq_getElem hv))
      exact ⟨rank, hget⟩
    obtain ⟨work₅, ranks, hnodes, hlength, hget⟩ := nodeRanks_total hranked work₄
    refine Or.inr ⟨hno, work₅, ranks, ?_, hlength.trans h.length, fun u hu => ?_⟩
    · have hcharge := charge_unlimited work₂ components.length
      simp only [progressRanks, hcomponents, hcheck, hcharge, h.componentCount_eq, hcondense, hdag,
        ok_bind]
      exact hnodes
    · obtain ⟨c, hc⟩ := h.get hu
      obtain ⟨rank, hrank, hgreatest⟩ := hranks c (h.lt u c hc)
      refine ⟨rank, (hget u c hc).trans hrank, ?_⟩
      exact hs.isGreatest h hno (fun u edge hedge => condense_ok hcondense hedge) hc hgreatest
  · refine Or.inl ⟨hcycle, ?_⟩
    simp only [progressRanks, hcomponents, hcheck, ok_bind]
    rfl

/-! ## The need of the ranking

One lemma for each function, and each follows how the function is written. -/

theorem budgeted_releaseTurn (release : Release) (node : ℕ) :
    Budgeted fun maximum => releaseTurn edges maximum release node := by
  refine .bind (.charge _ _) fun work _ => .bind (.const _) fun outgoing _ => ?_
  refine .foldlM (fun edge _ release => ?_) _
  exact .bind (.charge _ _) fun work _ => .const _

theorem releaseFrom_of_lt (maximum : ℕ) {release : Release} {cursor : ℕ}
    (hcursor : cursor < release.queue.length) :
    releaseFrom edges maximum release cursor =
      releaseTurn edges maximum release release.queue[cursor] >>= fun release =>
        releaseFrom edges maximum release (cursor + 1) := by
  rw [releaseFrom_eq, dif_pos hcursor]
  cases releaseTurn edges maximum release release.queue[cursor] <;> rfl

theorem releaseFrom_of_le (maximum : ℕ) {release : Release} {cursor : ℕ}
    (hcursor : ¬cursor < release.queue.length) :
    releaseFrom edges maximum release cursor = .ok release := by
  rw [releaseFrom_eq, dif_neg hcursor]

theorem budgeted_releaseFrom (release : Release) (cursor : ℕ) :
    Budgeted fun maximum => releaseFrom edges maximum release cursor := by
  generalize hleft :
    release.indegree.countP (0 < ·) + release.queue.length - cursor = left
  induction left using Nat.strong_induction_on generalizing release cursor with
  | _ left ih =>
    subst hleft
    by_cases hcursor : cursor < release.queue.length
    · simp only [releaseFrom_of_lt _ hcursor]
      refine .bind (budgeted_releaseTurn release _) fun release' hturn => ?_
      obtain ⟨_, hturn⟩ := hturn
      refine ih _ ?_ release' (cursor + 1) rfl
      rw [releaseTurn_measure hturn]
      omega
    · simp only [releaseFrom_of_le _ hcursor]
      exact .const _

theorem budgeted_rankNode (state : ℕ × List UInt32) (node : ℕ) :
    Budgeted fun maximum => rankNode edges maximum state node := by
  refine .bind (.charge _ _) fun work _ => .bind (.const _) fun outgoing _ => ?_
  refine .foldlM (fun edge _ state => ?_) _
  exact .bind (.charge _ _) fun work _ => .const _

theorem budgeted_dagRanks (work : ℕ) :
    Budgeted fun maximum => dagRanks edges work maximum := by
  refine .bind ?_ ?_
  · refine .foldlM (fun outgoing _ state => ?_) _
    refine .foldlM (fun edge _ state => ?_) _
    exact .bind (.charge _ _) fun work _ => .const _
  rintro ⟨work₁, indegree⟩ -
  refine .bind ?_ ?_
  · refine .foldlM (fun node _ state => ?_) _
    exact .bind (.charge _ _) fun work _ => .const _
  rintro ⟨work₂, queue⟩ -
  refine .bind (budgeted_releaseFrom _ _) fun release _ => ?_
  split_ifs
  · exact .const _
  · exact .foldlM (fun node _ state => budgeted_rankNode state node) _

theorem budgeted_checkStrictEdges (components : List ℕ) (work : ℕ) :
    Budgeted fun maximum => checkStrictEdges edges components work maximum := by
  refine .foldlM (fun source _ work => .bind (.const _) fun outgoing _ => ?_) _
  refine .foldlM (fun edge _ work => ?_) _
  exact .bind (.charge _ _) fun work _ => .const _

theorem budgeted_condense (components : List ℕ) (count work : ℕ) :
    Budgeted fun maximum => condense edges components count work maximum := by
  refine .foldlM (fun source _ state => .bind (.const _) fun outgoing _ => ?_) _
  refine .bind (.const _) fun own _ => .foldlM (fun edge _ state => ?_) _
  refine .bind (.charge _ _) fun work _ => .bind (.const _) fun other _ => ?_
  split_ifs
  · exact .const _
  · exact .bind (.const _) fun known _ => .bind (.charge _ _) fun work _ => .const _

theorem budgeted_progressRanks (work : ℕ) :
    Budgeted fun maximum => progressRanks edges work maximum := by
  refine .bind (budgeted_stronglyConnectedComponents work) ?_
  rintro ⟨work₁, components⟩ -
  refine .bind (budgeted_checkStrictEdges components work₁) fun work₂ _ => ?_
  refine .bind (.charge _ _) fun work₃ _ => .bind (budgeted_condense components _ work₃) ?_
  rintro ⟨work₄, componentEdges⟩ -
  refine .bind (budgeted_dagRanks work₄) ?_
  rintro ⟨work₅, componentRanks⟩ -
  refine .foldlM (fun component _ state => ?_) _
  exact .bind (.charge _ _) fun work _ => .const _

/-- **`progress_ranks` is exact.**  With enough work it reports that there is no witness
just where a cycle has a strict edge; otherwise every node gets the largest number of
strict edges on a walk from it, and the ranks cover every edge. -/
theorem progressRanks_exact (hrange : InRange edges) (hsize : edges.length < 2 ^ 32)
    (work : ℕ) :
    ∃ need ≤ unlimitedWork, ∀ maximum,
      (need ≤ maximum →
        (progressRanks edges work maximum = .error (.error .noReductionProgressWitness) ↔
          StrictCycle edges) ∧
        (¬StrictCycle edges → ∃ work' ranks,
          progressRanks edges work maximum = .ok (work', ranks) ∧ ranks.length = edges.length ∧
            (∀ u < edges.length, RankedExactly edges ranks u) ∧
            ∀ u edge, HasEdge edges u edge → Covers ranks u edge)) ∧
      (maximum < need → ∃ required > maximum, progressRanks edges work maximum =
        .error (.error (.compilerWorkLimit required maximum))) := by
  have htotal := progressRanks_total hsize hrange work
  have hbudgeted : Budgeted fun maximum => progressRanks edges work maximum :=
    budgeted_progressRanks work
  obtain ⟨need, hneed, hgate⟩ := hbudgeted.exists_need fun required h => by
    rcases htotal with ⟨-, hfail⟩ | ⟨-, work', ranks, hok, -⟩
    · rw [hfail] at h
      cases h
    · rw [hok] at h
      cases h
  refine ⟨need, hneed, fun maximum => ⟨fun hle => ?_, (hgate maximum).2⟩⟩
  rw [(hgate maximum).1 hle]
  rcases htotal with ⟨hcycle, hfail⟩ | ⟨hno, work', ranks, hok, hlength, hranks⟩
  · exact ⟨⟨fun _ => hcycle, fun _ => hfail⟩, fun hno => absurd hcycle hno⟩
  · refine ⟨⟨fun hfail => ?_, fun hcycle => absurd hcycle hno⟩, fun _ => ?_⟩
    · rw [hok] at hfail
      cases hfail
    · exact ⟨work', ranks, hok, hlength, hranks, fun u edge hedge => progressRanks_ok hok hedge⟩

end

/-- A cycle without a strict edge, and two walks on to a last node, one of them with two
strict edges. -/
def twoWalks : List (List ProgressEdge) :=
  [[⟨1, false⟩, ⟨2, true⟩, ⟨3, true⟩], [⟨0, false⟩], [⟨3, true⟩], []]

theorem progressRanks_exact_two :
    ∃ need ≤ unlimitedWork, ∀ maximum, need ≤ maximum →
      (progressRanks twoWalks 0 maximum = .error (.error .noReductionProgressWitness) ↔
        StrictCycle twoWalks) := by
  obtain ⟨need, hneed, hgate⟩ :=
    @progressRanks_exact twoWalks (.of_forall (by decide)) (by decide) 0
  exact ⟨need, hneed, fun maximum hle => ((hgate maximum).1 hle).1⟩

end GreatGramma
