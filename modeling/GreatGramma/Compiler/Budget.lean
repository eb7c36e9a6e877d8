import GreatGramma.Compiler.Ranks
import GreatGramma.Library.Metering

/-!
# The work limit of the compiler

`charge` saturates at the largest `u64` and compares with the maximum, and nothing else reads the
maximum.  So a function of the compiler needs a certain amount of work: with a maximum that covers
it the function always comes out the same, and with a smaller one it is refused.

## How the limit is treated

The searches of the compiler are proved at one maximum, the largest `u64`, where nothing is
refused for its work because no count can exceed it (`charge_unlimited`); what comes out there is
what the search computes.  That every function is gated by the maximum is shown separately, by a
lemma for each that follows how it is written (`Budgeted`, with `charge`, `bind` and `foldlM`).
The two together give the amount of work that is needed and what comes of every smaller one
(`exists_need`).

## What gating says

A function of the maximum is gated if a larger maximum changes a result only where it was a refusal
for work.  Both directions of the threshold come from this.  Going up from a maximum at which
something else than a refusal comes out, the result stays; and among the maxima at which something
else comes out there is a least one, below which there are only refusals.  Where even the largest
`u64` is refused, so is every smaller one.
-/

namespace GreatGramma

open Metering

/-- The maximum that nothing exceeds. -/
def unlimitedWork : ℕ := 2 ^ 64 - 1

/-- A function of the maximum that is gated by it. -/
def Budgeted {α : Type} (f : ℕ → Except CompileFailure α) : Prop :=
  Gated (fun _ required maximum e => e = .error (.compilerWorkLimit required maximum))
    (fun _ (failure : CompileFailure) => failure) (fun _ (a : α) => a)
    (fun limits : Unit → ℕ => f (limits ()))

theorem charge_unlimited (work amount : ℕ) :
    charge work amount unlimitedWork = .ok (min (work + amount) unlimitedWork) := by
  show (if min (work + amount) unlimitedWork > unlimitedWork then _ else _) = _
  exact if_neg (Nat.not_lt.mpr (Nat.min_le_right _ _))

namespace Budgeted

variable {α β σ ι : Type}

/-- A computation that does not look at the maximum. -/
theorem const (result : Except CompileFailure α) : Budgeted fun _ => result :=
  Gated.of_eq result fun _ => by cases result <;> rfl

theorem charge (work amount : ℕ) : Budgeted (GreatGramma.charge work amount) := by
  refine .of_check () (min (work + amount) (2 ^ 64 - 1)) (min (work + amount) (2 ^ 64 - 1))
    (fun limits hle => ?_) fun limits hlt => ⟨_, rfl, ?_⟩
  · show (if _ then _ else _) = _
    exact if_neg (Nat.not_lt.mpr hle)
  · show (if _ then _ else _) = _
    exact if_pos hlt

theorem bind {f : ℕ → Except CompileFailure α} {g : ℕ → α → Except CompileFailure β}
    (hf : Budgeted f) (hg : ∀ a, (∃ maximum, f maximum = .ok a) → Budgeted fun maximum =>
      g maximum a) : Budgeted fun maximum => f maximum >>= g maximum :=
  Gated.bind (g := fun limits => g (limits ())) hf fun a ⟨limits, h⟩ => hg a ⟨limits (), h⟩

theorem foldlM {body : ℕ → σ → ι → Except CompileFailure σ} {l : List ι}
    (hbody : ∀ x ∈ l, ∀ s, Budgeted fun maximum => body maximum s x) (s : σ) :
    Budgeted fun maximum => l.foldlM (body maximum) s :=
  @Gated.foldlM Unit _ _ _ _ _ _ _ _ (fun limits => body (limits ())) l hbody s

/-- **A need, covered by the largest `u64`**, where that maximum is not refused. -/
theorem exists_need {f : ℕ → Except CompileFailure α} (h : Budgeted f)
    (hfree : ∀ required,
      f unlimitedWork ≠ .error (.error (.compilerWorkLimit required unlimitedWork))) :
    ∃ need ≤ unlimitedWork, ∀ maximum,
      (need ≤ maximum → f maximum = f unlimitedWork) ∧
      (maximum < need → ∃ required > maximum,
        f maximum = .error (.error (.compilerWorkLimit required maximum))) := by
  obtain ⟨need, out, hneed⟩ := h
  have hcovered : need ≤ fun _ => unlimitedWork := by
    by_contra hnot
    obtain ⟨_, required, _, -, -, rfl, herror⟩ := hneed.refused (fun _ => unlimitedWork) hnot
    exact hfree required herror
  have hout := hneed.enough (fun _ => unlimitedWork) hcovered
  refine ⟨need (), hcovered (), fun maximum => ⟨fun hle => ?_, fun hlt => ?_⟩⟩
  · have hsame := hneed.enough (fun _ => maximum) fun _ => hle
    cases out with
    | error e => exact hsame.trans hout.symm
    | ok a => exact hsame.trans hout.symm
  · have hshort : ¬need ≤ fun _ => maximum := fun hle => Nat.not_le.mpr hlt (hle ())
    obtain ⟨_, required, _, hrequired, -, rfl, herror⟩ := hneed.refused (fun _ => maximum) hshort
    exact ⟨required, hrequired, herror⟩

end Budgeted

end GreatGramma
