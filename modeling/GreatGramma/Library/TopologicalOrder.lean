import Mathlib.Data.List.Nodup
import Mathlib.Data.Finset.Card
import Mathlib.Data.Finset.Range
import Mathlib.Tactic.Common

/-!
# Lists in the order of their dependencies

A list is topological for a relation when whatever an entry depends on stands before it.  The
relation is a parameter and `E u d` is read as: `d` depends on `u`.

## How such lists are built

They are built by pushing: an entry may be pushed once all that it depends on is there (`push`).  So
an algorithm that keeps a list topological has to show this one thing at the place where it appends,
whatever order it goes in otherwise.

## What they are for

What an entry depends on does not stand behind it, if there are no repetitions (`notMem_of_nodup`).
So going backwards through the list one comes to an entry after all that depend on it, and may
compute for an entry from what has been computed for these.

A list of distinct numbers below `n` that has `n` entries holds all of them
(`List.Nodup.mem_of_length`); so a topological list that is as long as there are nodes holds every
node.  This is how a length check tells that no node is on a cycle.
-/

variable {α : Type*} {E : α → α → Prop} {order : List α}

/-- Everything that `E` leads from stands before what it leads to. -/
def Topological (E : α → α → Prop) (order : List α) : Prop :=
  ∀ earlier d later, order = earlier ++ d :: later → ∀ u, E u d → u ∈ earlier

namespace Topological

/-- **Pushing** what depends only on entries of the list. -/
theorem push (h : Topological E order) {x : α} (hx : ∀ u, E u x → u ∈ order) :
    Topological E (order ++ [x]) := by
  intro earlier d later hsplit u hu
  rcases List.eq_nil_or_concat later with rfl | ⟨later', y, rfl⟩
  · obtain ⟨rfl, hlast⟩ := List.append_inj' hsplit rfl
    obtain ⟨rfl, -⟩ := List.cons.inj hlast
    exact hx u hu
  · rw [List.concat_eq_append, ← List.cons_append, ← List.append_assoc] at hsplit
    obtain ⟨horder, -⟩ := List.append_inj' hsplit rfl
    exact h earlier d later' horder u hu

/-- What an entry depends on does not stand behind it. -/
theorem notMem_of_nodup (h : Topological E order) (hnodup : order.Nodup) {earlier later : List α}
    {d u : α} (hsplit : order = earlier ++ d :: later) (hu : E u d) : u ∉ d :: later := by
  intro hmem
  rw [hsplit] at hnodup
  exact List.disjoint_of_nodup_append hnodup (h earlier d later hsplit u hu) hmem

end Topological

/-- Distinct numbers below `n`, as many as `n`, are all of them. -/
theorem List.Nodup.mem_of_length {numbers : List ℕ} {n : ℕ} (hnodup : numbers.Nodup)
    (hlt : ∀ u ∈ numbers, u < n) (hlength : numbers.length = n) {u : ℕ} (hu : u < n) :
    u ∈ numbers := by
  have hsubset : numbers.toFinset ⊆ Finset.range n := by
    intro v hv
    exact Finset.mem_range.mpr (hlt v (List.mem_toFinset.mp hv))
  have hcard : (Finset.range n).card ≤ numbers.toFinset.card := by
    rw [Finset.card_range, List.toFinset_card_of_nodup hnodup, hlength]
  rw [← List.mem_toFinset, Finset.eq_of_subset_of_card_le hsubset hcard]
  exact Finset.mem_range.mpr hu
