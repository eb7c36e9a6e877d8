import Mathlib.Data.List.Nodup
import Mathlib.Logic.Relation
import Mathlib.Tactic.Common

/-!
# The order in which a depth-first search finishes

A depth-first search over a relation `E` keeps a stack of the nodes it is in and lists
the nodes it is done with.  It enters a node that it has not seen, from nowhere or along
an edge from the top of the stack, and it finishes the top when all its successors are
seen.

What such an order is good for is one fact.  Look at a node `r` of it and at the nodes
finished while the search was in `r`: `r` reaches them, and no node finished before that
has an edge to them or to `r`, for its successors were all seen when it finished and
these were not.  So a path to `r` along nodes that finish no later than `r` starts at a
node that `r` reaches.  Apply it to the last node of the order that a node `x` reaches:
that node and `x` reach each other.  `exists_leader` says so, and from it the second
search, against the edges, finds exactly the classes of mutual reachability.
-/

namespace FinishingOrder

open Relation

variable {α : Type*} {E : α → α → Prop} {order stack : List α} {u v r x y : α}

/-- Each of two nodes reaches the other. -/
def Mutual (E : α → α → Prop) (x y : α) : Prop := ReflTransGen E x y ∧ ReflTransGen E y x

namespace Mutual

theorem symm (h : Mutual E x y) : Mutual E y x := ⟨h.2, h.1⟩

theorem trans {z : α} (h : Mutual E x y) (h' : Mutual E y z) : Mutual E x z :=
  ⟨h.1.trans h'.1, h'.2.trans h.2⟩

end Mutual

/-! ## The search -/

/-- A finished node, with the nodes finished while the search was in it. -/
def FinishedAt (E : α → α → Prop) (order : List α) (r : α) : Prop :=
  ∃ before since later, order = before ++ (since ++ r :: later) ∧
    (∀ w ∈ since, ReflTransGen E r w) ∧
    ∀ w ∈ before, ∀ v, E w v → v ≠ r ∧ v ∉ since

/-- The nodes of the stack, the top first: which nodes were finished since the search
entered each of them, and where it came from. -/
def Entered (E : α → α → Prop) (order : List α) : List α → Prop
  | [] => True
  | r :: rest =>
    (∃ before since, order = before ++ since ∧ (∀ w ∈ since, ReflTransGen E r w) ∧
      ∀ w ∈ before, ∀ v, E w v → v ∈ before ∨ v ∈ rest) ∧
    (∀ parent ∈ rest.head?, E parent r) ∧ Entered E order rest

/-- **A search under way.** -/
structure DepthFirst (E : α → α → Prop) (order stack : List α) : Prop where
  nodup : (order ++ stack).Nodup
  closed : ∀ w ∈ order, ∀ v, E w v → v ∈ order ∨ v ∈ stack
  finished : ∀ r ∈ order, FinishedAt E order r
  entered : Entered E order stack

theorem FinishedAt.concat (h : FinishedAt E order r) (x : α) : FinishedAt E (order ++ [x]) r := by
  obtain ⟨before, since, later, rfl, hsince, hbefore⟩ := h
  refine ⟨before, since, later ++ [x], ?_, hsince, hbefore⟩
  rw [List.append_assoc, List.append_assoc, List.cons_append]

/-- Every node of the stack reaches the top. -/
theorem Entered.reach (h : Entered E order (r :: stack)) : ∀ p ∈ stack, ReflTransGen E p r := by
  induction stack generalizing r with
  | nil =>
    intro p hp
    exact absurd hp List.not_mem_nil
  | cons q stack ih =>
    obtain ⟨-, hparent, hrest⟩ := h
    have hedge : E q r := hparent q rfl
    intro p hp
    rcases List.mem_cons.mp hp with rfl | hp
    · exact ReflTransGen.single hedge
    · exact (ih hrest p hp).tail hedge

/-- A node that the whole stack reaches may finish. -/
theorem Entered.concat (h : Entered E order stack) (hx : ∀ p ∈ stack, ReflTransGen E p x) :
    Entered E (order ++ [x]) stack := by
  induction stack with
  | nil => exact trivial
  | cons r stack ih =>
    obtain ⟨⟨before, since, rfl, hsince, hbefore⟩, hparent, hrest⟩ := h
    refine ⟨⟨before, since ++ [x], ?_, ?_, hbefore⟩, hparent, ?_⟩
    · rw [List.append_assoc]
    · intro w hw
      rcases List.mem_append.mp hw with hw | hw
      · exact hsince w hw
      · rw [List.mem_singleton.mp hw]
        exact hx r List.mem_cons_self
    · exact ih hrest fun p hp => hx p (List.mem_cons_of_mem r hp)

namespace DepthFirst

theorem nil : DepthFirst E ([] : List α) [] where
  nodup := List.nodup_nil
  closed _ hw := absurd hw List.not_mem_nil
  finished _ hr := absurd hr List.not_mem_nil
  entered := trivial

/-- **Entering a node** that is not seen yet, from the top of the stack if there is one. -/
theorem enter (h : DepthFirst E order stack) (hparent : ∀ parent ∈ stack.head?, E parent v)
    (horder : v ∉ order) (hstack : v ∉ stack) : DepthFirst E order (v :: stack) where
  nodup := by
    have hperm : (v :: (order ++ stack)).Perm (order ++ v :: stack) := List.perm_middle.symm
    refine hperm.nodup_iff.mp (List.nodup_cons.mpr ⟨?_, h.nodup⟩)
    rw [List.mem_append]
    rintro (hmem | hmem)
    · exact horder hmem
    · exact hstack hmem
  closed w hw v' hedge := by
    rcases h.closed w hw v' hedge with hmem | hmem
    · exact Or.inl hmem
    · exact Or.inr (List.mem_cons_of_mem v hmem)
  finished := h.finished
  entered := by
    refine ⟨⟨order, [], (List.append_nil order).symm, ?_, h.closed⟩, hparent, h.entered⟩
    intro w hw
    exact absurd hw List.not_mem_nil

/-- **Finishing the top** of the stack, once all its successors are seen. -/
theorem finish (h : DepthFirst E order (r :: stack))
    (hseen : ∀ v, E r v → v ∈ order ∨ v ∈ r :: stack) : DepthFirst E (order ++ [r]) stack where
  nodup := by
    rw [List.append_assoc]
    exact h.nodup
  closed w hw v hedge := by
    have hmoved : v ∈ order ∨ v ∈ r :: stack → v ∈ order ++ [r] ∨ v ∈ stack := by
      rintro (hv | hv)
      · exact Or.inl (List.mem_append_left [r] hv)
      · rcases List.mem_cons.mp hv with rfl | hv
        · exact Or.inl (List.mem_append_right order List.mem_cons_self)
        · exact Or.inr hv
    rcases List.mem_append.mp hw with hw | hw
    · exact hmoved (h.closed w hw v hedge)
    · obtain rfl : w = r := List.mem_singleton.mp hw
      exact hmoved (hseen v hedge)
  finished w hw := by
    rcases List.mem_append.mp hw with hw | hw
    · exact (h.finished w hw).concat r
    · obtain rfl : w = r := List.mem_singleton.mp hw
      obtain ⟨⟨before, since, horder, hsince, hbefore⟩, -, -⟩ := h.entered
      refine ⟨before, since, [], by rw [horder, List.append_assoc], hsince, ?_⟩
      intro u hu v hedge
      -- a successor of `u` was finished before, or it is below the top: neither is new
      have hnodup := h.nodup
      rw [horder, List.append_assoc] at hnodup
      have hdisjoint := List.disjoint_of_nodup_append hnodup
      have hlater : (since ++ w :: stack).Nodup := hnodup.of_append_right
      have hstack : w ∉ stack := (List.nodup_cons.mp hlater.of_append_right).1
      rcases hbefore u hu v hedge with hv | hv
      · have hv' : v ∉ since ++ w :: stack := hdisjoint hv
        refine ⟨fun heq => hv' (List.mem_append_right since ?_), fun hsince' => ?_⟩
        · rw [heq]
          exact List.mem_cons_self
        · exact hv' (List.mem_append_left _ hsince')
      · refine ⟨fun heq => hstack (heq ▸ hv), fun hsince' => ?_⟩
        exact List.disjoint_of_nodup_append hlater hsince' (List.mem_cons_of_mem w hv)
  entered := (h.entered.2.2).concat h.entered.reach

end DepthFirst

/-! ## The order of a search that is over -/

/-- The last entry of a list with a property. -/
theorem exists_last {P : α → Prop} (h : ∃ w ∈ order, P w) :
    ∃ earlier r later, order = earlier ++ r :: later ∧ P r ∧ ∀ w ∈ later, ¬P w := by
  induction order with
  | nil =>
    obtain ⟨w, hw, -⟩ := h
    exact absurd hw List.not_mem_nil
  | cons a order ih =>
    by_cases hlater : ∃ w ∈ order, P w
    · obtain ⟨earlier, r, later, rfl, hr, hnone⟩ := ih hlater
      exact ⟨a :: earlier, r, later, rfl, hr, hnone⟩
    · obtain ⟨w, hw, hP⟩ := h
      have hfirst : w = a := by
        rcases List.mem_cons.mp hw with rfl | hw
        · rfl
        · exact absurd ⟨w, hw, hP⟩ hlater
      exact ⟨[], a, order, rfl, hfirst ▸ hP, fun w hw hP => hlater ⟨w, hw, hP⟩⟩

namespace DepthFirst

variable (h : DepthFirst E order [])
include h

/-- What a finished node reaches is finished. -/
theorem mem_of_reach (hx : x ∈ order) (hxy : ReflTransGen E x y) : y ∈ order := by
  induction hxy with
  | refl => exact hx
  | tail _ hedge ih =>
    rcases h.closed _ ih _ hedge with hmem | hmem
    · exact hmem
    · exact absurd hmem List.not_mem_nil

/-- A node has one place in the order. -/
theorem behind_unique {earlier later earlier' later' : List α}
    (hsplit : order = earlier ++ r :: later) (hsplit' : order = earlier' ++ r :: later') :
    later = later' := by
  have hnodup := h.nodup
  rw [List.append_nil, hsplit] at hnodup
  obtain ⟨-, hlater, hdisjoint⟩ := List.nodup_append'.mp hnodup
  have hearlier : r ∉ earlier := fun hmem => hdisjoint hmem List.mem_cons_self
  rw [hsplit] at hsplit'
  exact ((List.append_cons_inj_of_notMem hearlier (List.nodup_cons.mp hlater).1).mp hsplit').2.2

/-- **The leader** of a node: the last node of the order that it reaches.  The two reach
each other. -/
theorem exists_leader (hx : x ∈ order) :
    ∃ earlier r later, order = earlier ++ r :: later ∧ Mutual E x r ∧
      ∀ w, ReflTransGen E x w → w ∉ later := by
  obtain ⟨earlier, r, later, hsplit, hreach, hlast⟩ :=
    exists_last (P := fun w => ReflTransGen E x w) ⟨x, hx, .refl⟩
  refine ⟨earlier, r, later, hsplit, ⟨hreach, ?_⟩, fun w hw hmem => hlast w hmem hw⟩
  have hr : r ∈ order := by
    rw [hsplit]
    exact List.mem_append_right earlier List.mem_cons_self
  obtain ⟨before, since, later', hsplit', hsince, hbefore⟩ := h.finished r hr
  have hsame : later = later' := by
    rw [← List.append_assoc] at hsplit'
    exact h.behind_unique hsplit hsplit'
  -- backwards along a path to `r`, every node is one of those finished within `r`
  have hwithin : ∀ z, ReflTransGen E z r → ReflTransGen E x z → z ∈ since ∨ z = r := by
    intro z hz
    induction hz using ReflTransGen.head_induction_on with
    | refl => exact fun _ => Or.inr rfl
    | @head z z' hedge _ ih =>
      intro hxz
      have hz' := ih (hxz.tail hedge)
      have hmem : z ∈ before ++ (since ++ r :: later') := hsplit' ▸ h.mem_of_reach hx hxz
      rcases List.mem_append.mp hmem with hz | hz
      · obtain ⟨hne, hnot⟩ := hbefore z hz z' hedge
        rcases hz' with hz' | hz'
        · exact absurd hz' hnot
        · exact absurd hz' hne
      · rcases List.mem_append.mp hz with hz | hz
        · exact Or.inl hz
        · rcases List.mem_cons.mp hz with rfl | hz
          · exact Or.inr rfl
          · exact absurd hxz (hlast z (hsame.symm ▸ hz))
  rcases hwithin x hreach .refl with hmem | rfl
  · exact hsince x hmem
  · exact .refl

end DepthFirst

/-! ## The search against the edges -/

/-- **The classes are found in the order of their leaders.**  Say that the nodes behind
`s` in the order are all assigned, that what is assigned is made of whole classes, and
that `found` is what a search from `s` against the edges finds among the other nodes.
Then it found the class of `s`. -/
theorem DepthFirst.mem_found_iff (h : DepthFirst E order []) {earlier later : List α} {s : α}
    (hsplit : order = earlier ++ s :: later) {assigned found : α → Prop}
    (hwhole : ∀ x y, Mutual E x y → assigned x → assigned y) (hlater : ∀ r ∈ later, assigned r)
    (hs : ¬assigned s) (hstart : found s) (hreach : ∀ z, found z → ReflTransGen E z s)
    (hmem : ∀ z, found z → z ∈ order) (hfresh : ∀ z, found z → ¬assigned z)
    (hclosed : ∀ z x, found z → E x z → found x ∨ assigned x) : found x ↔ Mutual E x s := by
  constructor
  · intro hx
    obtain ⟨earlier', r, later', hsplit', hmutual, hlast⟩ := h.exists_leader (hmem x hx)
    -- the leader of `x` is `s` or stands behind it, and then `x` would be assigned
    have hrs : r = s ∨ r ∈ later := by
      have hs' : s ∉ later' := hlast s (hreach x hx)
      have hr : r ∈ earlier ++ s :: later := by
        rw [← hsplit, hsplit']
        exact List.mem_append_right earlier' List.mem_cons_self
      rcases List.mem_append.mp hr with hr | hr
      · obtain ⟨front, between, rfl⟩ := List.append_of_mem hr
        rw [List.append_assoc, List.cons_append] at hsplit
        refine absurd ?_ hs'
        rw [h.behind_unique hsplit' hsplit]
        exact List.mem_append_right between List.mem_cons_self
      · exact List.mem_cons.mp hr
    rcases hrs with rfl | hr
    · exact hmutual
    · exact absurd (hwhole r x hmutual.symm (hlater r hr)) (hfresh x hx)
  · rintro ⟨hxs, hsx⟩
    induction hxs using ReflTransGen.head_induction_on with
    | refl => exact hstart
    | @head z z' hedge hrest ih =>
      have hz' : found z' := ih (hsx.tail hedge)
      rcases hclosed z' z hz' hedge with hfound | hassigned
      · exact hfound
      · exact absurd (hwhole z s ⟨hrest.head hedge, hsx⟩ hassigned) hs

end FinishingOrder
