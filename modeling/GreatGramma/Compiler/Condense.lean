import GreatGramma.Compiler.Dag

/-!
# Ranking any graph

`progress_ranks` reduces a graph to an acyclic one: the components are found, edges inside of a
component are checked and left out, the others are joined into the edges of the condensed graph,
and this is ranked.

## What does not depend on the components

Its ranks cover every edge, as those of an acyclic graph do, and nothing here depends on what the
components are: whatever partition the search comes up with, an edge inside a class is refused when
it is strict, and an edge between classes is an edge of the condensed graph.  So this module needs
nothing of the component search, and the progress of compiled tables (`Compiler.Progress`) does not
rest on it.  That the search finds the strongly connected components, and that no ranks could be
smaller, is another matter (`Compiler.Components`, `Compiler.Exact`).

Edges of the condensed graph are joined: of two edges between the same components one is kept, the
strict one if there is one.  Joining adds an edge and loses none (`reaches_joinEdge`,
`Reaches.joinEdge`), and that is all that is used of it.
-/

namespace GreatGramma

open Traversal

section
variable {edges componentEdges : List (List ProgressEdge)} {components : List ℕ}
  {maximumWork : ℕ}

/-! ## The condensed graph -/

/-- **No strict edge stays inside a component.** -/
theorem checkStrictEdges_ok {work work' : ℕ}
    (h : checkStrictEdges edges components work maximumWork = .ok work') {u c : ℕ}
    {edge : ProgressEdge} (hedge : HasEdge edges u edge) (hstrict : edge.strict = true)
    (hc : components[u]? = some c) : components[edge.destination]? ≠ some c := by
  have hloop := foldlM_ok (I := fun done (_ : ℕ) => ∀ u ∈ done, ∀ c edge, HasEdge edges u edge →
    edge.strict = true → components[u]? = some c → components[edge.destination]? ≠ some c)
    h (fun u hu => absurd hu List.not_mem_nil) ?_
  · exact hloop u (List.mem_range.mpr hedge.lt) c edge hedge hstrict hc
  · rintro done source _ w w' - hdone hbody u hu c edge hedge hstrict hc
    rcases List.mem_append.mp hu with hearlier | hlast
    · exact hdone u hearlier c edge hedge hstrict hc
    obtain rfl := List.mem_singleton.mp hlast
    simp only [bind_eq_ok, indexAt_eq_ok] at hbody
    obtain ⟨outgoing, houtgoing, hbody⟩ := hbody
    obtain ⟨outgoing', houtgoing', hmem⟩ := hedge
    obtain rfl := Option.some_inj.mp (houtgoing.symm.trans houtgoing')
    refine foldlM_ok (I := fun done (_ : ℕ) => ∀ edge ∈ done, edge.strict = true →
      components[edge.destination]? ≠ some c) hbody
      (fun edge hedge => absurd hedge List.not_mem_nil) ?_ edge hmem hstrict
    rintro done next _ w w' - hdone hnext edge hedge hstrict
    rcases List.mem_append.mp hedge with hearlier | hlast
    · exact hdone edge hearlier hstrict
    obtain rfl := List.mem_singleton.mp hlast
    simp only [bind_eq_ok, indexAt_eq_ok, hstrict, if_true] at hnext
    obtain ⟨_, -, own, hown, other, hother, hnext⟩ := hnext
    split_ifs at hnext with hsame
    rw [hother]
    rw [hc] at hown
    rintro hback
    exact hsame ((Option.some_inj.mp hown).symm.trans (Option.some_inj.mp hback).symm)

/-- A list of edges leads to a node, strictly if asked for. -/
def Reaches (outgoing : List ProgressEdge) (d : ℕ) (strict : Bool) : Prop :=
  ∃ edge ∈ outgoing, edge.destination = d ∧ (strict = true → edge.strict = true)

theorem reaches_joinEdge (d : ℕ) (strict : Bool) (known : List ProgressEdge) :
    Reaches (joinEdge d strict known) d strict := by
  induction known with
  | nil => exact ⟨⟨d, strict⟩, List.mem_singleton_self _, rfl, id⟩
  | cons first rest ih =>
    unfold joinEdge
    split_ifs with hsame
    · refine ⟨_, List.mem_cons_self, hsame, fun hstrict => ?_⟩
      rw [hstrict, Bool.or_true]
    · obtain ⟨edge, hedge, hd, himp⟩ := ih
      exact ⟨edge, List.mem_cons_of_mem first hedge, hd, himp⟩

theorem Reaches.joinEdge {known : List ProgressEdge} {d' : ℕ} {strict' : Bool}
    (h : Reaches known d' strict') (d : ℕ) (strict : Bool) :
    Reaches (joinEdge d strict known) d' strict' := by
  induction known with
  | nil =>
    obtain ⟨edge, hedge, -⟩ := h
    exact absurd hedge List.not_mem_nil
  | cons first rest ih =>
    obtain ⟨edge, hedge, hd, himp⟩ := h
    unfold GreatGramma.joinEdge
    rcases List.mem_cons.mp hedge with rfl | hrest
    · split_ifs with hsame
      · refine ⟨_, List.mem_cons_self, hd, fun hstrict => ?_⟩
        rw [himp hstrict, Bool.true_or]
      · exact ⟨edge, List.mem_cons_self, hd, himp⟩
    · split_ifs with hsame
      · exact ⟨edge, List.mem_cons_of_mem _ hrest, hd, himp⟩
      · obtain ⟨edge', hedge', hd', himp'⟩ := ih ⟨edge, hrest, hd, himp⟩
        exact ⟨edge', List.mem_cons_of_mem first hedge', hd', himp'⟩

/-- A component leads to another. -/
def Joined (componentEdges : List (List ProgressEdge)) (c d : ℕ) (strict : Bool) : Prop :=
  ∃ outgoing, componentEdges[c]? = some outgoing ∧ Reaches outgoing d strict

theorem condenseEdge_ok {c work work' : ℕ} {edge : ProgressEdge}
    {componentEdges' : List (List ProgressEdge)}
    (h : condenseEdge components maximumWork c (work, componentEdges) edge =
      .ok (work', componentEdges')) :
    (∀ c' d strict, Joined componentEdges c' d strict → Joined componentEdges' c' d strict) ∧
      ∃ d, components[edge.destination]? = some d ∧
        (c ≠ d → Joined componentEdges' c d edge.strict) := by
  simp only [condenseEdge, bind_eq_ok, indexAt_eq_ok] at h
  obtain ⟨_, -, d, hd, h⟩ := h
  split_ifs at h with hsame
  · cases h
    exact ⟨fun _ _ _ hjoined => hjoined, d, hd, fun hne => absurd hsame hne⟩
  · simp only [bind_eq_ok, indexAt_eq_ok] at h
    obtain ⟨known, hknown, _, -, h⟩ := h
    cases h
    obtain ⟨hlt, -⟩ := List.getElem?_eq_some_iff.mp hknown
    refine ⟨fun c' d' strict ⟨outgoing, houtgoing, hreaches⟩ => ?_, d, hd, fun _ =>
      ⟨_, List.getElem?_set_self hlt, reaches_joinEdge d edge.strict known⟩⟩
    by_cases hc : c = c'
    · subst hc
      obtain rfl := Option.some_inj.mp (hknown.symm.trans houtgoing)
      exact ⟨_, List.getElem?_set_self hlt, hreaches.joinEdge d edge.strict⟩
    · exact ⟨outgoing, by rw [List.getElem?_set_ne hc, houtgoing], hreaches⟩

/-- **Every edge between components is an edge of the condensed graph.** -/
theorem condense_ok {count work work' : ℕ}
    (h : condense edges components count work maximumWork = .ok (work', componentEdges)) {u : ℕ}
    {edge : ProgressEdge} (hedge : HasEdge edges u edge) :
    ∃ c d, components[u]? = some c ∧ components[edge.destination]? = some d ∧
      (c ≠ d → Joined componentEdges c d edge.strict) := by
  have hloop := foldlM_ok (I := fun done (s : ℕ × List (List ProgressEdge)) =>
    ∀ u ∈ done, ∀ edge, HasEdge edges u edge → ∃ c d, components[u]? = some c ∧
      components[edge.destination]? = some d ∧ (c ≠ d → Joined s.2 c d edge.strict))
    h (fun u hu => absurd hu List.not_mem_nil) ?_
  · exact hloop u (List.mem_range.mpr hedge.lt) edge hedge
  · rintro done source _ ⟨w, s⟩ ⟨w', s'⟩ - hdone hbody
    simp only [bind_eq_ok, indexAt_eq_ok] at hbody
    obtain ⟨outgoing, houtgoing, c, hc, hbody⟩ := hbody
    have hinner := foldlM_ok (I := fun done (t : ℕ × List (List ProgressEdge)) =>
      (∀ c' d strict, Joined s c' d strict → Joined t.2 c' d strict) ∧
        ∀ edge ∈ done, ∃ d, components[edge.destination]? = some d ∧
          (c ≠ d → Joined t.2 c d edge.strict))
      hbody ⟨fun _ _ _ hjoined => hjoined, fun edge hedge => absurd hedge List.not_mem_nil⟩ ?_
    · obtain ⟨hkeep, hnew⟩ := hinner
      intro u hu edge hedge
      rcases List.mem_append.mp hu with hearlier | hlast
      · obtain ⟨c', d, hc', hd, hjoined⟩ := hdone u hearlier edge hedge
        exact ⟨c', d, hc', hd, fun hne => hkeep c' d edge.strict (hjoined hne)⟩
      · obtain rfl := List.mem_singleton.mp hlast
        obtain ⟨outgoing', houtgoing', hmem⟩ := hedge
        obtain rfl := Option.some_inj.mp (houtgoing.symm.trans houtgoing')
        obtain ⟨d, hd, hjoined⟩ := hnew edge hmem
        exact ⟨c, d, hc, hd, hjoined⟩
    · rintro done edge _ ⟨v, t⟩ ⟨v', t'⟩ - ⟨hkeep, hnew⟩ hedge
      obtain ⟨hmore, d, hd, hjoined⟩ := condenseEdge_ok hedge
      refine ⟨fun c' d' strict hold => hmore c' d' strict (hkeep c' d' strict hold), ?_⟩
      intro edge' hedge'
      rcases List.mem_append.mp hedge' with hearlier | hlast
      · obtain ⟨d', hd', hold⟩ := hnew edge' hearlier
        exact ⟨d', hd', fun hne => hmore c d' edge'.strict (hold hne)⟩
      · rw [List.mem_singleton.mp hlast]
        exact ⟨d, hd, hjoined⟩

/-- **The ranks of `progress_ranks` cover every edge**, on any graph. -/
theorem progressRanks_ok {work work' : ℕ} {ranks : List UInt32}
    (h : progressRanks edges work maximumWork = .ok (work', ranks)) {u : ℕ}
    {edge : ProgressEdge} (hedge : HasEdge edges u edge) : Covers ranks u edge := by
  simp only [progressRanks, bind_eq_ok] at h
  obtain ⟨⟨_, components⟩, -, _, hstrict, _, -, ⟨_, componentEdges⟩, hcondense,
    ⟨_, componentRanks⟩, hdag, h⟩ := h
  have hpush := foldlM_push
    (R := fun (component : ℕ) (rank : UInt32) => componentRanks[component]? = some rank)
    h rfl ?_
  · have hlength : ranks.length = components.length := hpush.1
    have hrank : ∀ v c : ℕ, components[v]? = some c → ranks[v]? = componentRanks[c]? := by
      intro v c hv
      obtain ⟨hlt, -⟩ := List.getElem?_eq_some_iff.mp hv
      rw [← hlength] at hlt
      obtain ⟨c', hc', hR⟩ := hpush.2 v ranks[v] (List.getElem?_eq_getElem hlt)
      obtain rfl := Option.some_inj.mp (hv.symm.trans hc')
      rw [hR, List.getElem?_eq_getElem hlt]
    obtain ⟨c, d, hc, hd, hjoined⟩ := condense_ok hcondense hedge
    by_cases hsame : c = d
    · -- the edge is not strict, and both ends have the rank of the component
      subst hsame
      have hloose : edge.strict = false := by
        rw [Bool.eq_false_iff]
        intro hs
        exact checkStrictEdges_ok hstrict hedge hs hc hd
      obtain ⟨hlt, -⟩ := List.getElem?_eq_some_iff.mp hc
      rw [← hlength] at hlt
      have hown := List.getElem?_eq_getElem hlt
      refine ⟨_, ranks[u], hown, ?_, Nat.le_of_eq ?_⟩
      · rw [hrank _ _ hd, ← hrank _ _ hc, hown]
      · rw [hloose]
        rfl
    · obtain ⟨outgoing, houtgoing, edge', hedge', rfl, himp⟩ := hjoined hsame
      obtain ⟨own, next, hown, hnext, hle⟩ := dagRanks_ok hdag ⟨outgoing, houtgoing, hedge'⟩
      refine ⟨own, next, by rw [hrank _ _ hc, hown], by rw [hrank _ _ hd, hnext], ?_⟩
      refine le_trans (Nat.add_le_add_left ?_ _) hle
      exact Bool.toNat_le_toNat fun hs => himp hs
  · rintro ⟨w, s⟩ component ⟨w', s'⟩ hbody
    simp only [bind_eq_ok] at hbody
    obtain ⟨_, -, hbody⟩ := hbody
    cases hget : componentRanks[component]? with
    | none =>
      rw [hget] at hbody
      cases hbody
    | some rank =>
      rw [hget] at hbody
      cases hbody
      exact ⟨rank, rfl, rfl⟩

end

end GreatGramma
