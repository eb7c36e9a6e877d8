import Mathlib.Order.Lattice
import Mathlib.Tactic.Common

/-!
# Computations under limits

A computation is given limits, one number of each kind, and fails when it needs more than
a limit allows.  It is *gated* when that is all the limits do: there is a need, again one
number of each kind; limits that cover the need all lead to one outcome, and limits that
do not are refused, with a requirement that the limit misses and the need covers.  What a
refusal looks like is a relation: one limit may be compared at several places, which put
their refusals differently.

A value that is passed on may hold the limits, as a budget does, and a fault may report
them.  So an outcome is read through two maps that say what it looks like under given
limits.  Gated computations may be run one after the other, and in loops.

A kind may be metered: what is used up of it is carried along and only ever grows, and
every check is of what is used so far.  Then the need of that kind is what has been used
in the end.
-/

namespace Metering

variable {K ε φ σ σ' τ τ' ι : Type}

/-- What an outcome looks like under limits. -/
def outcome (fault : (K → ℕ) → φ → ε) (value : (K → ℕ) → τ → σ) (limits : K → ℕ)
    (out : Except φ τ) : Except ε σ :=
  match out with
  | .error e => .error (fault limits e)
  | .ok t => .ok (value limits t)

/-- Limits that cover `need` lead to `out`, and others are refused. -/
structure Gates (Short : K → ℕ → ℕ → ε → Prop) (fault : (K → ℕ) → φ → ε) (value : (K → ℕ) → τ → σ)
    (f : (K → ℕ) → Except ε σ) (need : K → ℕ) (out : Except φ τ) : Prop where
  enough : ∀ limits, need ≤ limits → f limits = outcome fault value limits out
  refused : ∀ limits, ¬need ≤ limits → ∃ kind required e, limits kind < required ∧
    required ≤ need kind ∧ Short kind required (limits kind) e ∧ f limits = .error e

/-- **Gated by its limits.** -/
def Gated (Short : K → ℕ → ℕ → ε → Prop) (fault : (K → ℕ) → φ → ε) (value : (K → ℕ) → τ → σ)
    (f : (K → ℕ) → Except ε σ) : Prop :=
  ∃ need out, Gates Short fault value f need out

variable {Short : K → ℕ → ℕ → ε → Prop} {fault : (K → ℕ) → φ → ε} {value : (K → ℕ) → τ → σ}
  {value' : (K → ℕ) → τ' → σ'} {f : (K → ℕ) → Except ε σ}

namespace Gates

variable {need need' : K → ℕ} {t : τ} {g : (K → ℕ) → σ → Except ε σ'}

/-- A failure is the end of what follows. -/
theorem bind_error {e : φ} (hf : Gates Short fault value f need (.error e)) :
    Gates Short fault value' (fun limits => f limits >>= g limits) need (.error e) := by
  refine ⟨fun limits hle => ?_, fun limits hle => ?_⟩
  · show f limits >>= g limits = _
    rw [hf.enough limits hle]
    rfl
  · obtain ⟨kind, required, e, hlt, hrequired, hshort, herror⟩ := hf.refused limits hle
    refine ⟨kind, required, e, hlt, hrequired, hshort, ?_⟩
    show f limits >>= g limits = _
    rw [herror]
    rfl

/-- **The needs of two computations are joined.** -/
theorem bind {out' : Except φ τ'} (hf : Gates Short fault value f need (.ok t))
    (hg : Gates Short fault value' (fun limits => g limits (value limits t)) need' out') :
    Gates Short fault value' (fun limits => f limits >>= g limits) (need ⊔ need') out' := by
  refine ⟨fun limits hle => ?_, fun limits hle => ?_⟩
  · obtain ⟨hfirst, hsecond⟩ := sup_le_iff.mp hle
    show f limits >>= g limits = _
    rw [hf.enough limits hfirst]
    exact hg.enough limits hsecond
  · show ∃ kind required e, _ ∧ _ ∧ _ ∧ f limits >>= g limits = _
    by_cases hfirst : need ≤ limits
    · have hsecond : ¬need' ≤ limits := fun h => hle (sup_le hfirst h)
      obtain ⟨kind, required, e, hlt, hrequired, hshort, herror⟩ := hg.refused limits hsecond
      have hle : required ≤ need kind ⊔ need' kind := hrequired.trans le_sup_right
      refine ⟨kind, required, e, hlt, hle, hshort, ?_⟩
      rw [hf.enough limits hfirst]
      exact herror
    · obtain ⟨kind, required, e, hlt, hrequired, hshort, herror⟩ := hf.refused limits hfirst
      have hle : required ≤ need kind ⊔ need' kind := hrequired.trans le_sup_left
      refine ⟨kind, required, e, hlt, hle, hshort, ?_⟩
      rw [herror]
      rfl

/-- Limits under which it goes through cover the need. -/
theorem of_ok {limits : K → ℕ} {s : σ} {out : Except φ τ}
    (hf : Gates Short fault value f need out) (h : f limits = .ok s) :
    need ≤ limits ∧ ∃ t, out = .ok t ∧ s = value limits t := by
  have hle : need ≤ limits := by
    by_contra hnot
    obtain ⟨_, _, _, -, -, -, herror⟩ := hf.refused limits hnot
    rw [h] at herror
    cases herror
  have hout := hf.enough limits hle
  rw [h] at hout
  cases out with
  | error e => cases hout
  | ok t => exact ⟨hle, t, rfl, Except.ok.inj hout⟩

/-- A computation without limits. -/
theorem of_eq {out : Except φ τ} (h : ∀ limits, f limits = outcome fault value limits out) :
    Gates Short fault value f (fun _ => 0) out := by
  refine ⟨fun limits _ => h limits, fun limits hneed => absurd ?_ hneed⟩
  exact fun kind => Nat.zero_le (limits kind)

/-- **A check of one limit** needs something of that kind and nothing of the others. -/
theorem of_check [DecidableEq K] (kind : K) (amount : ℕ)
    (hok : ∀ limits, amount ≤ limits kind → f limits = .ok (value limits t))
    (hrefused : ∀ limits, limits kind < amount → ∃ required e, limits kind < required ∧
      required ≤ amount ∧ Short kind required (limits kind) e ∧ f limits = .error e) :
    Gates Short fault value f (Function.update (fun _ => 0) kind amount) (.ok t) := by
  refine ⟨fun limits hle => hok limits (update_le_iff.mp hle).1, fun limits hle => ?_⟩
  have hlt : limits kind < amount := by
    by_contra hnot
    exact hle (update_le_iff.mpr ⟨Nat.not_lt.mp hnot, fun _ _ => Nat.zero_le _⟩)
  obtain ⟨required, e, hpast, hwithin, hshort, herror⟩ := hrefused limits hlt
  refine ⟨kind, required, e, hpast, ?_, hshort, herror⟩
  rwa [Function.update_self]

end Gates

namespace Gated

/-- A computation without limits. -/
theorem of_eq (out : Except φ τ) (h : ∀ limits, f limits = outcome fault value limits out) :
    Gated Short fault value f :=
  ⟨fun _ => 0, out, .of_eq h⟩

theorem ok (t : τ) : Gated Short fault value fun limits => .ok (value limits t) :=
  of_eq (.ok t) fun _ => rfl

/-- **A check of one limit.** -/
theorem of_check [DecidableEq K] (kind : K) (amount : ℕ) (t : τ)
    (hok : ∀ limits, amount ≤ limits kind → f limits = .ok (value limits t))
    (hrefused : ∀ limits, limits kind < amount →
      ∃ e, Short kind amount (limits kind) e ∧ f limits = .error e) :
    Gated Short fault value f := by
  refine ⟨_, .ok t, .of_check kind amount hok fun limits hlt => ?_⟩
  obtain ⟨e, hshort, herror⟩ := hrefused limits hlt
  exact ⟨amount, e, hlt, le_rfl, hshort, herror⟩

/-- **One computation after another.** -/
theorem bind {g : (K → ℕ) → σ → Except ε σ'} (hf : Gated Short fault value f)
    (hg : ∀ t, (∃ limits, f limits = .ok (value limits t)) →
      Gated Short fault value' fun limits => g limits (value limits t)) :
    Gated Short fault value' fun limits => f limits >>= g limits := by
  obtain ⟨need, out, hneed⟩ := hf
  cases out with
  | error e => exact ⟨need, .error e, hneed.bind_error⟩
  | ok t =>
    obtain ⟨need', out', hneed'⟩ := hg t ⟨need, hneed.enough need le_rfl⟩
    exact ⟨need ⊔ need', out', hneed.bind hneed'⟩

/-- **A loop.** -/
theorem foldlM {body : (K → ℕ) → σ → ι → Except ε σ} {l : List ι}
    (hbody : ∀ x ∈ l, ∀ t, Gated Short fault value fun limits => body limits (value limits t) x)
    (t : τ) : Gated Short fault value fun limits => l.foldlM (body limits) (value limits t) := by
  induction l generalizing t with
  | nil => exact ok t
  | cons x l ih =>
    simp only [List.foldlM_cons]
    refine bind (hbody x List.mem_cons_self t) fun t' _ => ?_
    exact ih (fun y hy => hbody y (List.mem_cons_of_mem x hy)) t'

end Gated

/-! ## Metered kinds -/

/-- **Gated, and metered for one kind**: `start` is used already, and `meter` reads off
what is used in the end. -/
def Metered (Short : K → ℕ → ℕ → ε → Prop) (fault : (K → ℕ) → φ → ε) (value : (K → ℕ) → τ → σ)
    (kind : K) (meter : τ → ℕ) (start : ℕ) (f : (K → ℕ) → Except ε σ) : Prop :=
  ∃ need out, Gates Short fault value f need out ∧ ∀ t, out = .ok t →
    start ≤ meter t ∧ need kind ≤ meter t ∧ meter t ≤ max start (need kind)

namespace Metered

variable {kind : K} {meter : τ → ℕ} {meter' : τ' → ℕ} {start : ℕ}

/-- Nothing is used. -/
theorem ok (t : τ) (h : meter t = start) :
    Metered Short fault value kind meter start fun limits => .ok (value limits t) := by
  refine ⟨fun _ => 0, .ok t, .of_eq fun _ => rfl, fun t' ht => ?_⟩
  obtain rfl := Except.ok.inj ht
  rw [h]
  exact ⟨le_rfl, Nat.zero_le _, le_max_left _ _⟩

theorem error (e : φ) :
    Metered Short fault value kind meter start fun limits => .error (fault limits e) :=
  ⟨fun _ => 0, .error e, .of_eq fun _ => rfl, fun _ ht => by cases ht⟩

/-- **One computation after another**: the second starts where the first ends. -/
theorem bind {g : (K → ℕ) → σ → Except ε σ'}
    (hf : Metered Short fault value kind meter start f)
    (hg : ∀ t, (∃ limits, f limits = .ok (value limits t)) →
      Metered Short fault value' kind meter' (meter t) fun limits => g limits (value limits t)) :
    Metered Short fault value' kind meter' start fun limits => f limits >>= g limits := by
  obtain ⟨need, out, hneed, hmeter⟩ := hf
  cases out with
  | error e => exact ⟨need, .error e, hneed.bind_error, fun _ ht => by cases ht⟩
  | ok t =>
    obtain ⟨hstart, hle, hmax⟩ := hmeter t rfl
    obtain ⟨need', out', hneed', hmeter'⟩ := hg t ⟨need, hneed.enough need le_rfl⟩
    refine ⟨need ⊔ need', out', hneed.bind hneed', fun t' ht => ?_⟩
    obtain ⟨hstart', hle', hmax'⟩ := hmeter' t' ht
    show start ≤ meter' t' ∧ max (need kind) (need' kind) ≤ meter' t' ∧
      meter' t' ≤ max start (max (need kind) (need' kind))
    omega

/-- **A loop.** -/
theorem foldlM {body : (K → ℕ) → σ → ι → Except ε σ} {l : List ι}
    (hbody : ∀ x ∈ l, ∀ t, Metered Short fault value kind meter (meter t)
      fun limits => body limits (value limits t) x) (t : τ) :
    Metered Short fault value kind meter (meter t) fun limits =>
      l.foldlM (body limits) (value limits t) := by
  induction l generalizing t with
  | nil => exact ok t rfl
  | cons x l ih =>
    simp only [List.foldlM_cons]
    refine bind (hbody x List.mem_cons_self t) fun t' _ => ?_
    exact ih (fun y hy => hbody y (List.mem_cons_of_mem x hy)) t'

end Metered

end Metering
