import GreatGramma.Library.FirstError

/-!
# Computations that fail in few ways

A computation in `Except` is confined to a set of errors when it fails with no other.  A check that
is known to pass is confined to any set, so what is left of a sequence of checks is what its other
checks may say.

This is the other side of an equivalence.  To say that a computation succeeds one has to know what
every check of it asks; to say in which ways it may fail it is enough to know of each check either
that it passes or which errors it has.

## Rules

The rules follow how a computation is written: `bind` and `after` for its sequences, `ite` for its
branches, `foldlM` for its loops.  A branch is confined under its condition, which is what makes it
possible to leave out the errors of a check that is known to pass.  In a sequence the second part is
confined for what the first part gives; `after` is the rule where this is known, and `pass` the one
where it is nothing.  A loop keeps an invariant of its state, for the same reason.

`cases` reads the result off at the end: the computation succeeds, or it fails with one of the
errors.
-/

namespace Traversal

universe u

variable {ε ι : Type*} {α β σ : Type u} {P : ε → Prop}

/-- Every error of the computation is one of `P`. -/
def Confined (P : ε → Prop) (x : Except ε α) : Prop := ∀ e, x = .error e → P e

namespace Confined

theorem ok (a : α) : Confined P (.ok a : Except ε α) :=
  fun _ h => by cases h

theorem error {e : ε} (h : P e) : Confined P (.error e : Except ε α) := by
  intro e' he
  rwa [← Except.error.inj he]

/-- A check that passes. -/
theorem of_ok {x : Except ε α} {a : α} (h : x = .ok a) : Confined P x := by
  rw [h]
  exact ok a

theorem ite {p : Prop} [Decidable p] {x y : Except ε α} (hx : p → Confined P x)
    (hy : ¬p → Confined P y) : Confined P (if p then x else y) := by
  by_cases hp : p
  · rw [if_pos hp]
    exact hx hp
  · rw [if_neg hp]
    exact hy hp

/-- What follows has to be confined for the values that are there. -/
theorem bind {x : Except ε α} {f : α → Except ε β} (hx : Confined P x)
    (hf : ∀ a, x = .ok a → Confined P (f a)) : Confined P (x >>= f) := by
  cases x with
  | error e => exact error (hx e rfl)
  | ok a => exact hf a rfl

/-- Past a check that passes. -/
theorem after {x : Except ε α} {a : α} {f : α → Except ε β} (h : x = .ok a)
    (hf : Confined P (f a)) : Confined P (x >>= f) := by
  rw [h]
  exact hf

theorem pass {x : Except ε PUnit} {f : PUnit → Except ε β} (h : x = .ok ⟨⟩)
    (hf : Confined P (f ⟨⟩)) : Confined P (x >>= f) :=
  after h hf

/-- A loop whose turns are confined. -/
theorem foldlM {body : σ → ι → Except ε σ} {l : List ι} {s : σ}
    (h : ∀ x ∈ l, ∀ s, Confined P (body s x)) : Confined P (l.foldlM body s) := by
  induction l generalizing s with
  | nil => exact ok s
  | cons x l ih =>
    rw [List.foldlM_cons]
    exact bind (h x List.mem_cons_self s) fun s' _ =>
      ih fun y hy => h y (List.mem_cons_of_mem x hy)

/-- A confined computation returns or fails in one of the ways that there are. -/
theorem cases {x : Except ε α} (h : Confined P x) : (∃ a, x = .ok a) ∨ ∃ e, x = .error e ∧ P e := by
  cases x with
  | error e => exact Or.inr ⟨e, rfl, h e rfl⟩
  | ok a => exact Or.inl ⟨a, rfl⟩

end Confined
end Traversal
