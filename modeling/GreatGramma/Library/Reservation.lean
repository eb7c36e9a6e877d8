import Mathlib.Tactic.Common

/-!
# Programs whose reservations may be refused

A program that reserves memory before it grows a buffer has one more way to end
than its author usually thinks about: any reservation may be refused.  What such
a program owes is the same everywhere.  When every reservation is granted it
does what it is meant to do; when one is refused it reports exactly that, and
never something else.

`Settles s post out` is that statement for one call: run from the state `s`, the
call ended in `out`, and either every reservation on the way was granted and `out`
satisfies `post`, or one was refused, at which the call ended.  The second is
impossible when the allocator grants everything.  A state survives an error, as a
buffer passed by mutable reference does, so `post` reads both the reply and the
state left behind.

## The allocator

`Memory` is the list of the answers the allocator will give; past its end every
reservation is granted.  The empty list is therefore the allocator that never
refuses, and a finite run meets only finitely many reservations, so every
pattern of refusals along a run is one of these lists.
-/

namespace Reservation

/-- The allocator as a program meets it: its answers to the reservations still
to come.  Past the end of the list every reservation is granted. -/
abbrev Memory := List Bool

/-- The allocator that grants every reservation. -/
def Memory.granting : Memory := []

/-- One reservation: the next answer, and the answers after it. -/
def Memory.reserve : Memory → Bool × Memory
  | [] => (true, [])
  | answer :: rest => (answer, rest)

@[simp] theorem reserve_granting : Memory.reserve Memory.granting = (true, .granting) := rfl

/-- **From the first allocator to the second every reservation was granted.** -/
def Grants (m m' : Memory) : Prop := ∃ n, m = List.replicate n true ++ m'

/-- **A reservation was refused** on the way from the first allocator to the second, the last
one; those before it were granted. -/
def Refuses (m m' : Memory) : Prop := ∃ n, m = List.replicate n true ++ false :: m'

theorem Grants.refl (m : Memory) : Grants m m := ⟨0, rfl⟩

theorem Grants.of_eq {m m' : Memory} (h : m = m') : Grants m m' := ⟨0, h⟩

theorem Grants.head (rest : Memory) : Grants (true :: rest) rest := ⟨1, rfl⟩

theorem Refuses.head (rest : Memory) : Refuses (false :: rest) rest := ⟨0, rfl⟩

theorem Grants.trans {m m' m'' : Memory} (h : Grants m m') (h' : Grants m' m'') :
    Grants m m'' := by
  obtain ⟨n, rfl⟩ := h
  obtain ⟨n', rfl⟩ := h'
  exact ⟨n + n', by rw [← List.append_assoc, List.replicate_append_replicate]⟩

theorem Grants.refuses {m m' m'' : Memory} (h : Grants m m') (h' : Refuses m' m'') :
    Refuses m m'' := by
  obtain ⟨n, rfl⟩ := h
  obtain ⟨n', rfl⟩ := h'
  exact ⟨n + n', by rw [← List.append_assoc, List.replicate_append_replicate]⟩

/-- The allocator that grants everything stays what it is. -/
theorem Grants.granting {m m' : Memory} (h : Grants m m') (hm : m = .granting) :
    m' = .granting := by
  obtain ⟨n, rfl⟩ := h
  exact (List.append_eq_nil_iff.mp hm).2

/-- It refuses nothing. -/
theorem Refuses.ne_granting {m m' : Memory} (h : Refuses m m') : m ≠ .granting := by
  obtain ⟨n, rfl⟩ := h
  intro hm
  cases (List.append_eq_nil_iff.mp hm).2

theorem reserve_true {m m' : Memory} (h : m.reserve = (true, m')) : Grants m m' := by
  cases m with
  | nil =>
    cases h
    exact .refl _
  | cons answer rest =>
    cases h
    exact .head _

theorem reserve_false {m m' : Memory} (h : m.reserve = (false, m')) : Refuses m m' := by
  cases m with
  | nil => cases h
  | cons answer rest =>
    cases h
    exact .head _

/-- A state that carries the allocator. -/
class HasMemory (σ : Type*) where
  /-- The allocator's answers still to come. -/
  memory : σ → Memory

/-- An error type with a way to report a refused reservation. -/
class HasRefusal (ε : Type*) where
  /-- The errors that report a refused reservation. -/
  Refused : ε → Prop

export HasMemory (memory)
export HasRefusal (Refused)

instance : HasMemory Memory := ⟨id⟩

/-- A state paired with other data keeps its allocator. -/
instance {α σ : Type*} [HasMemory σ] : HasMemory (α × σ) := ⟨fun s => memory s.2⟩

variable {α β σ σ' ε ε' : Type*} [HasMemory σ] [HasMemory σ'] [HasRefusal ε] [HasRefusal ε']

/-- **One call, refusals included.**  Started in `s` the call ended in the reply
and state given: it settled, with `post`, every reservation of it being granted, or one
was refused and the reply says so. -/
inductive Settles (s : σ) (post : Except ε α → σ → Prop) : Except ε α × σ → Prop
  | done {r : Except ε α} {s' : σ} (h : post r s') (hs : Grants (memory s) (memory s')) :
      Settles s post (r, s')
  | refused {e : ε} {s' : σ} (hs : Refuses (memory s) (memory s')) (he : Refused e) :
      Settles s post (.error e, s')

namespace Settles

variable {s : σ} {post post' : Except ε α → σ → Prop} {out : Except ε α × σ}

/-- A call that reserves nothing settles where it stands. -/
theorem here {r : Except ε α} (h : post r s) : Settles s post (r, s) :=
  .done h (.refl _)

theorem mono (h : Settles s post out) (hpost : ∀ r s', post r s' → post' r s') :
    Settles s post' out := by
  cases h with
  | done h hs => exact .done (hpost _ _ h) hs
  | refused hs he => exact .refused hs he

/-- When nothing is refused, the call did what it is meant to do, and nothing
is refused afterwards either. -/
theorem of_granting (h : Settles s post out) (hs : memory s = .granting) :
    post out.1 out.2 ∧ memory out.2 = .granting := by
  cases h with
  | done h hs' => exact ⟨h, hs'.granting hs⟩
  | refused hs' _ => exact absurd hs hs'.ne_granting

/-- A reply that is not a refusal satisfies `post`, whatever the allocator does. -/
theorem of_not_refused (h : Settles s post out)
    (hr : ∀ e, out.1 = .error e → ¬ Refused e) : post out.1 out.2 := by
  cases h with
  | done h _ => exact h
  | refused _ he => exact absurd he (hr _ rfl)

/-- **Sequencing.**  A call that starts where an earlier one settled settles for
the two together. -/
theorem after {t : σ} (hs : Grants (memory s) (memory t)) (h : Settles t post out) :
    Settles s post out := by
  cases h with
  | done h hs' => exact .done h (hs.trans hs')
  | refused hs' he => exact .refused (hs.refuses hs') he

end Settles

end Reservation
