import Mathlib.Logic.Relation
import Mathlib.Order.Bounds.Basic
import Mathlib.Order.Nat
import Mathlib.Tactic.Common

/-!
# Walks that count strict edges

A graph has edges of two kinds, strict ones and others.  A walk is followed for its strict edges
only, and a node is given the largest number of strict edges on a walk from it, where there is one.

Two facts are used of such numbers.

* The number of a node is the largest that its edges give it, from the numbers of their ends
  (`isGreatest_of_edges`).  This is how it is computed, from the ends of the walks backwards.
* Two graphs give corresponding nodes the same number when each can follow the steps of the other
  without losing strict edges (`isGreatest_congr`).  A step may be followed by a whole walk, so the
  graphs need not have the same number of nodes.

The second fact is what allows a graph to be condensed: the nodes of a component without strict
edges are one node of the condensed graph, and a walk inside of the component is followed by
standing still.

## When there is a largest number

On a cycle with a strict edge the numbers grow without bound and there is no largest.  Where edges
go upwards, a walk climbs at least as far as it has strict edges, so the numbers exist (`add_le`).
A walk with a strict edge can be cut at its first one (`exists_strict`), so the nodes that have a
number above zero are those from which a strict edge can be reached.
-/

namespace StrictWalks

open Relation

variable {α β : Type*} {E : α → Bool → α → Prop} {F : β → Bool → β → Prop} {u v w : α} {n m : ℕ}

/-- A walk with a number of strict edges. -/
inductive Walk (E : α → Bool → α → Prop) : α → ℕ → α → Prop
  | nil (u : α) : Walk E u 0 u
  | cons {u v w : α} {strict : Bool} {n : ℕ} (edge : E u strict v) (rest : Walk E v n w) :
    Walk E u (n + strict.toNat) w

/-- The node has a walk with `n` strict edges. -/
def From (E : α → Bool → α → Prop) (u : α) (n : ℕ) : Prop := ∃ w, Walk E u n w

/-- An edge of either kind. -/
def Edge (E : α → Bool → α → Prop) (u v : α) : Prop := ∃ strict, E u strict v

namespace Walk

theorem append (h : Walk E u n v) (h' : Walk E v m w) : Walk E u (n + m) w := by
  induction h with
  | nil => rwa [Nat.zero_add]
  | @cons u v _ strict n edge _ ih =>
    rw [Nat.add_right_comm]
    exact .cons edge (ih h')

theorem single {strict : Bool} (edge : E u strict v) : Walk E u strict.toNat v := by
  have h := Walk.cons edge (.nil v)
  rwa [Nat.zero_add] at h

/-- A path is a walk, with some number of strict edges. -/
theorem of_reach (h : ReflTransGen (Edge E) u v) : ∃ n, Walk E u n v := by
  induction h with
  | refl => exact ⟨0, .nil u⟩
  | tail _ edge ih =>
    obtain ⟨n, hn⟩ := ih
    obtain ⟨strict, edge⟩ := edge
    exact ⟨n + strict.toNat, hn.append (.single edge)⟩

/-- A walk with strict edges passes one. -/
theorem exists_strict (h : Walk E u n w) (hn : 0 < n) :
    ∃ x y, ReflTransGen (Edge E) u x ∧ E x true y ∧ ReflTransGen (Edge E) y w := by
  have hreach : ∀ {u n w}, Walk E u n w → ReflTransGen (Edge E) u w := by
    intro u n w h
    induction h with
    | nil => exact .refl
    | cons edge _ ih => exact ih.head ⟨_, edge⟩
  induction h with
  | nil => exact absurd hn (Nat.lt_irrefl 0)
  | @cons u v w strict n edge rest ih =>
    cases strict with
    | true => exact ⟨u, v, .refl, edge, hreach rest⟩
    | false =>
      obtain ⟨x, y, hx, hxy, hy⟩ := ih hn
      exact ⟨x, y, hx.head ⟨_, edge⟩, hxy, hy⟩

/-- Where edges go upwards, a walk climbs at least as far as it has strict edges. -/
theorem add_le {E : ℕ → Bool → ℕ → Prop} (hup : ∀ u strict v, E u strict v → u < v) {u w n : ℕ}
    (h : Walk E u n w) : u + n ≤ w := by
  induction h with
  | nil => exact le_rfl
  | @cons u v w strict n edge _ ih =>
    have hlt := hup u strict v edge
    have hone : strict.toNat ≤ 1 := Bool.toNat_le strict
    omega

end Walk

theorem From.zero (u : α) : From E u 0 := ⟨u, .nil u⟩

/-! ## The largest number -/

/-- **The number of a node by its edges**: `r` is the largest if every edge allows it, and
it is `0` or given by an edge. -/
theorem isGreatest_of_edges {r : ℕ}
    (hle : ∀ strict v, E u strict v → ∃ next, IsGreatest {n | From E v n} next ∧
      next + strict.toNat ≤ r)
    (hmem : r = 0 ∨ ∃ strict v next, E u strict v ∧ From E v next ∧ r = next + strict.toNat) :
    IsGreatest {n | From E u n} r := by
  constructor
  · rcases hmem with rfl | ⟨strict, v, next, edge, ⟨w, hw⟩, rfl⟩
    · exact From.zero u
    · exact ⟨w, .cons edge hw⟩
  · rintro n ⟨w, hw⟩
    cases hw with
    | nil => exact Nat.zero_le r
    | @cons _ v _ strict n edge rest =>
      obtain ⟨next, hgreatest, hnext⟩ := hle strict v edge
      have hn : n ≤ next := hgreatest.2 ⟨w, rest⟩
      exact Nat.le_trans (Nat.add_le_add_right hn _) hnext

/-- **Walks followed in another graph**: if every edge of the one is matched by a walk of
the other with as many strict edges, so is every walk. -/
theorem Walk.follow {R : α → β → Prop}
    (hstep : ∀ u strict v x, E u strict v → R u x → ∃ n y, Walk F x n y ∧ R v y ∧ strict.toNat ≤ n)
    {x : β} (h : Walk E u n w) (hx : R u x) : ∃ m y, Walk F x m y ∧ R w y ∧ n ≤ m := by
  induction h generalizing x with
  | nil => exact ⟨0, x, .nil x, hx, le_rfl⟩
  | @cons u v w strict n edge _ ih =>
    obtain ⟨k, y, hwalk, hy, hk⟩ := hstep u strict v x edge hx
    obtain ⟨m, z, hrest, hz, hm⟩ := ih hy
    exact ⟨k + m, z, hwalk.append hrest, hz, by omega⟩

/-- **Corresponding nodes have the same number.** -/
theorem isGreatest_congr {x : β} {r : ℕ} (h : IsGreatest {n | From F x n} r)
    (hto : ∀ n, From E u n → ∃ m, From F x m ∧ n ≤ m)
    (hfrom : ∀ m, From F x m → ∃ n, From E u n ∧ m ≤ n) : IsGreatest {n | From E u n} r := by
  have hle : ∀ n, From E u n → n ≤ r := by
    intro n hn
    obtain ⟨m, hm, hnm⟩ := hto n hn
    exact hnm.trans (h.2 hm)
  obtain ⟨n, hn, hrn⟩ := hfrom r h.1
  obtain rfl : n = r := le_antisymm (hle n hn) hrn
  exact ⟨hn, fun n' hn' => hle n' hn'⟩

end StrictWalks
