import GreatGramma.Library.Traversal
import Mathlib.Data.List.Forall2
import Mathlib.Data.List.Induction

/-!
# List computations that stop at the first error

Four computations over a list in `Except`: `checkEach` checks every element, `List.mapM` collects a
value for every element, `List.anyM` asks whether some element answers `true` and looks no further
than the first that does, and `select` keeps the elements that answer `true`.  Each ends at the
first error, and each is characterized here by what the elements answer, with no mention of the
order in which they are asked beyond that.

## Successes and errors

There are two lemmas for each.  The one for success speaks of all elements.  The one for an error
speaks of the first element that fails, and of what the elements before it have answered: anything
for `mapM` and `select`, and `false` for `anyM`, which would have stopped at a `true`.  The lemmas
for `mapM` come in the two forms in which lists are indexed, with a bound and with an option.

## Loops with a state

A loop with limits is one whose state is told by the elements it has been through, while these
fit (`foldlM_fits`).  Whether it succeeds is then a question about the whole list and not about its
prefixes, because a prefix of what fits does fit.  A loop that collects reads something from each
element and adds it to its state, while the state is within the limits (`foldlM_collects`).

## Loops in place

The last part connects the computations to the in-place loops: a loop whose body computes a
list computation's function at index `i` computes the list computation, whatever
else the state holds (`scan_mapM`, `search_anyM`, `sweep_select`).  The body may also fail because a
reservation is refused (`Reservation.Settles`), and then the loop fails with this refusal.
-/

namespace Traversal

open Reservation

universe u

variable {ε : Type*} {α β σ : Type u}

/-! ## A check of every element -/

/-- Checks the elements in order, each with its index, from the given index on. -/
def checkFrom (check : α → ℕ → Except ε PUnit) : ℕ → List α → Except ε PUnit
  | _, [] => .ok ⟨⟩
  | index, x :: rest =>
    match check x index with
    | .error error => .error error
    | .ok _ => checkFrom check (index + 1) rest

/-- Checks the elements in order, each with its index. -/
def checkEach (check : α → ℕ → Except ε PUnit) (l : List α) : Except ε PUnit :=
  checkFrom check 0 l

theorem checkFrom_eq_ok {check : α → ℕ → Except ε PUnit} {l : List α} {index : ℕ} :
    checkFrom check index l = .ok ⟨⟩ ↔
      ∀ i x, l[i]? = some x → check x (index + i) = .ok ⟨⟩ := by
  induction l generalizing index with
  | nil => exact ⟨fun _ i x h => (by cases h), fun _ => rfl⟩
  | cons x l ih =>
    rw [checkFrom]
    constructor
    · intro h i y hy
      cases hx : check x index with
      | error e =>
        rw [hx] at h
        cases h
      | ok _ =>
        rw [hx] at h
        cases i with
        | zero =>
          cases hy
          exact hx
        | succ i =>
          have hrest := ih.mp h i y hy
          rwa [Nat.add_right_comm] at hrest
    · intro h
      have hx : check x index = .ok ⟨⟩ := h 0 x rfl
      rw [hx]
      refine ih.mpr fun i y hy => ?_
      rw [Nat.add_right_comm]
      exact h (i + 1) y hy

/-- **Every element passes.** -/
theorem checkEach_eq_ok {check : α → ℕ → Except ε PUnit} {l : List α} :
    checkEach check l = .ok ⟨⟩ ↔ ∀ i x, l[i]? = some x → check x i = .ok ⟨⟩ := by
  rw [checkEach, checkFrom_eq_ok]
  simp only [Nat.zero_add]

/-- A check that does not look at the index. -/
theorem checkEach_eq_ok_mem {check : α → ℕ → Except ε PUnit} {P : α → Prop} {l : List α}
    (hcheck : ∀ x i, check x i = .ok ⟨⟩ ↔ P x) :
    checkEach check l = .ok ⟨⟩ ↔ ∀ x ∈ l, P x := by
  rw [checkEach_eq_ok]
  constructor
  · intro h x hx
    obtain ⟨i, hi, rfl⟩ := List.mem_iff_getElem.mp hx
    exact (hcheck _ i).mp (h i _ (List.getElem?_eq_getElem hi))
  · intro h i x hx
    exact (hcheck x i).mpr (h x (List.mem_of_getElem? hx))

/-! ## A value for every element -/

theorem mapM_eq_ok {f : α → Except ε β} {l : List α} {ys : List β} :
    l.mapM f = .ok ys ↔ List.Forall₂ (fun x y => f x = .ok y) l ys := by
  induction l generalizing ys with
  | nil =>
    rw [List.mapM_nil, pure_eq_ok, List.forall₂_nil_left_iff]
    exact eq_comm
  | cons x l ih =>
    rw [List.mapM_cons, List.forall₂_cons_left_iff]
    simp only [bind_eq_ok, pure_eq_ok, ih]
    constructor
    · rintro ⟨y, hy, ys, hys, rfl⟩
      exact ⟨y, ys, hy, hys, rfl⟩
    · rintro ⟨y, ys, hy, hys, rfl⟩
      exact ⟨y, hy, ys, hys, rfl⟩

/-- The same, by index. -/
theorem mapM_eq_ok_get {f : α → Except ε β} {l : List α} {ys : List β} :
    l.mapM f = .ok ys ↔ ys.length = l.length ∧
      ∀ i, ∀ hi : i < l.length, ∀ hy : i < ys.length, f l[i] = .ok ys[i] := by
  rw [mapM_eq_ok, List.forall₂_iff_get]
  exact and_congr_left fun _ => eq_comm

/-- **The error is the one of the first element that fails.** -/
theorem mapM_eq_error {f : α → Except ε β} {l : List α} {e : ε} :
    l.mapM f = .error e ↔ ∃ i, ∃ hi : i < l.length, f l[i] = .error e ∧
      ∀ j, ∀ hj : j < l.length, j < i → ∃ y, f l[j] = .ok y := by
  induction l with
  | nil =>
    constructor
    · intro h
      cases h
    · rintro ⟨i, hi, -⟩
      exact absurd hi (Nat.not_lt_zero i)
  | cons x l ih =>
    rw [List.mapM_cons]
    cases hx : f x with
    | error e' =>
      constructor
      · intro h
        cases h
        exact ⟨0, Nat.succ_pos _, hx, fun j _ hj => absurd hj (Nat.not_lt_zero j)⟩
      · rintro ⟨i, hi, herror, hbefore⟩
        cases i with
        | zero =>
          rw [List.getElem_cons_zero, hx] at herror
          cases herror
          rfl
        | succ i =>
          obtain ⟨y, hy⟩ := hbefore 0 (Nat.succ_pos _) (Nat.succ_pos i)
          rw [List.getElem_cons_zero, hx] at hy
          cases hy
    | ok y =>
      have hstep : (Except.ok y >>= fun y => l.mapM f >>= fun ys => pure (y :: ys)) = .error e ↔
          l.mapM f = .error e := by
        cases l.mapM f with
        | error e' => exact ⟨fun h => (by cases h; rfl), fun h => (by cases h; rfl)⟩
        | ok ys => exact ⟨fun h => (by cases h), fun h => (by cases h)⟩
      rw [hstep, ih]
      constructor
      · rintro ⟨i, hi, herror, hbefore⟩
        refine ⟨i + 1, Nat.succ_lt_succ hi, herror, fun j hjl hj => ?_⟩
        cases j with
        | zero => exact ⟨y, hx⟩
        | succ j => exact hbefore j (Nat.lt_of_succ_lt_succ hjl) (Nat.lt_of_succ_lt_succ hj)
      · rintro ⟨i, hi, herror, hbefore⟩
        cases i with
        | zero =>
          rw [List.getElem_cons_zero, hx] at herror
          cases herror
        | succ i =>
          exact ⟨i, Nat.lt_of_succ_lt_succ hi, herror,
            fun j hjl hj => hbefore (j + 1) (Nat.succ_lt_succ hjl) (Nat.succ_lt_succ hj)⟩

/-- A traversal that fails has a first element that fails. -/
theorem exists_first_of_mapM_error {f : α → Except ε β} {l : List α} {e : ε}
    (h : l.mapM f = .error e) : ∃ (i : ℕ) (x : α), l[i]? = some x ∧ f x = .error e ∧
      ∀ j < i, ∃ x y, l[j]? = some x ∧ f x = .ok y := by
  obtain ⟨i, hi, herror, hbefore⟩ := mapM_eq_error.mp h
  refine ⟨i, _, List.getElem?_eq_getElem hi, herror, fun j hj => ?_⟩
  have hlt := Nat.lt_trans hj hi
  obtain ⟨y, hy⟩ := hbefore j hlt hj
  exact ⟨_, y, List.getElem?_eq_getElem hlt, hy⟩

/-- Every element of the first of two related lists is related to one of the second. -/
theorem exists_of_mem_forall₂ {γ : Type*} {δ : Type*} {R : γ → δ → Prop} {xs : List γ}
    {ys : List δ} (h : List.Forall₂ R xs ys) {x : γ} (hx : x ∈ xs) : ∃ y ∈ ys, R x y := by
  induction h with
  | nil => exact absurd hx List.not_mem_nil
  | cons hxy _ ih =>
    rcases List.mem_cons.mp hx with rfl | hx
    · exact ⟨_, List.mem_cons_self, hxy⟩
    · obtain ⟨y, hy, hR⟩ := ih hx
      exact ⟨y, List.mem_cons_of_mem _ hy, hR⟩

/-- And of the second to one of the first. -/
theorem exists_of_mem_forall₂_right {γ : Type*} {δ : Type*} {R : γ → δ → Prop} {xs : List γ}
    {ys : List δ} (h : List.Forall₂ R xs ys) {y : δ} (hy : y ∈ ys) : ∃ x ∈ xs, R x y :=
  exists_of_mem_forall₂ h.flip hy

/-- Related lists are related entry by entry. -/
theorem getElem?_of_forall₂ {γ : Type*} {δ : Type*} {R : γ → δ → Prop} {xs : List γ} {ys : List δ}
    (h : List.Forall₂ R xs ys) {i : ℕ} {x : γ} (hx : xs[i]? = some x) :
    ∃ y, ys[i]? = some y ∧ R x y := by
  obtain ⟨hlength, hget⟩ := List.forall₂_iff_get.mp h
  obtain ⟨hlt, rfl⟩ := List.getElem?_eq_some_iff.mp hx
  exact ⟨_, List.getElem?_eq_getElem (hlength ▸ hlt), hget i hlt (hlength ▸ hlt)⟩

/-- The same from the second list. -/
theorem getElem?_of_forall₂_right {γ : Type*} {δ : Type*} {R : γ → δ → Prop} {xs : List γ}
    {ys : List δ} (h : List.Forall₂ R xs ys) {i : ℕ} {y : δ} (hy : ys[i]? = some y) :
    ∃ x, xs[i]? = some x ∧ R x y :=
  getElem?_of_forall₂ h.flip hy

/-- A loop over a list goes through when every element does. -/
theorem forM_eq_ok {body : α → Except ε PUnit} {l : List α} :
    l.forM body = .ok ⟨⟩ ↔ ∀ x ∈ l, body x = .ok ⟨⟩ := by
  induction l with
  | nil => exact ⟨fun _ _ hx => absurd hx List.not_mem_nil, fun _ => rfl⟩
  | cons x l ih =>
    show (body x >>= fun _ => l.forM body) = .ok ⟨⟩ ↔ _
    rw [bind_eq_ok, List.forall_mem_cons]
    constructor
    · rintro ⟨_, hx, hl⟩
      exact ⟨hx, ih.mp hl⟩
    · exact fun h => ⟨⟨⟩, h.1, ih.mpr h.2⟩

/-! ## Loops that are told by a prefix -/

/-- What fits still fits when less is asked. -/
theorem fits_of_append {Fits : List α → Prop} (hshorter : ∀ done x, Fits (done ++ [x]) → Fits done)
    {done more : List α} (h : Fits (done ++ more)) : Fits done := by
  induction more using List.reverseRecOn with
  | nil => rwa [List.append_nil] at h
  | append_singleton more x ih =>
    rw [← List.append_assoc] at h
    exact ih (hshorter _ x h)

theorem foldlM_from {step : σ → α → Except ε σ} {after : List α → σ} {Fits : List α → Prop}
    (hshorter : ∀ done x, Fits (done ++ [x]) → Fits done)
    (hstep : ∀ done x state, Fits done →
      (step (after done) x = .ok state ↔ Fits (done ++ [x]) ∧ state = after (done ++ [x])))
    {done l : List α} (hdone : Fits done) {state : σ} :
    l.foldlM step (after done) = .ok state ↔ Fits (done ++ l) ∧ state = after (done ++ l) := by
  induction l generalizing done with
  | nil =>
    rw [List.foldlM_nil, List.append_nil, pure_eq_ok]
    exact ⟨fun h => ⟨hdone, h.symm⟩, fun h => h.2.symm⟩
  | cons x l ih =>
    have hsplit : done ++ x :: l = done ++ [x] ++ l := by
      rw [List.append_assoc, List.singleton_append]
    rw [List.foldlM_cons, bind_eq_ok, hsplit]
    constructor
    · rintro ⟨middle, hmiddle, hrest⟩
      obtain ⟨hfits, rfl⟩ := (hstep done x middle hdone).mp hmiddle
      exact (ih hfits).mp hrest
    · rintro ⟨hfits, rfl⟩
      have hone : Fits (done ++ [x]) := fits_of_append hshorter hfits
      exact ⟨_, (hstep done x _ hdone).mpr ⟨hone, rfl⟩, (ih hone).mpr ⟨hfits, rfl⟩⟩

/-- **A loop with limits.**  Its state is a function of the elements it has been through, and
it goes on while these fit. -/
theorem foldlM_fits (step : σ → α → Except ε σ) (after : List α → σ) (Fits : List α → Prop)
    (hnil : Fits []) (hshorter : ∀ done x, Fits (done ++ [x]) → Fits done)
    (hstep : ∀ done x state, Fits done →
      (step (after done) x = .ok state ↔ Fits (done ++ [x]) ∧ state = after (done ++ [x])))
    {l : List α} {state : σ} :
    l.foldlM step (after []) = .ok state ↔ Fits l ∧ state = after l :=
  foldlM_from hshorter hstep hnil

/-! ## Loops that collect -/

theorem of_within_foldl {δ : Type*} {add : σ → δ → σ} {Within : σ → Prop}
    (hshorter : ∀ state y, Within (add state y) → Within state) {ys : List δ} {start : σ}
    (h : Within (ys.foldl add start)) : Within start := by
  induction ys generalizing start with
  | nil => exact h
  | cons y ys ih => exact hshorter start y (ih h)

/-- **A loop that collects.**  Its body succeeds just if the element describes something that
can be added within the limits. -/
theorem foldlM_collects {δ : Type*} {step : σ → α → Except ε σ} {Describes : α → δ → Prop}
    {add : σ → δ → σ} {Within : σ → Prop}
    (hshorter : ∀ state y, Within (add state y) → Within state)
    (hstep : ∀ state x state', Within state →
      (step state x = .ok state' ↔ ∃ y, Describes x y ∧ state' = add state y ∧ Within state'))
    {l : List α} {start state : σ} (hstart : Within start) :
    l.foldlM step start = .ok state ↔
      ∃ ys, List.Forall₂ Describes l ys ∧ state = ys.foldl add start ∧ Within state := by
  induction l generalizing start with
  | nil =>
    rw [List.foldlM_nil, pure_eq_ok]
    constructor
    · rintro rfl
      exact ⟨[], .nil, rfl, hstart⟩
    · rintro ⟨ys, hys, rfl, -⟩
      rw [List.forall₂_nil_left_iff.mp hys, List.foldl_nil]
  | cons x l ih =>
    rw [List.foldlM_cons, bind_eq_ok]
    constructor
    · rintro ⟨next, hnext, hrest⟩
      obtain ⟨y, hy, rfl, hwithin⟩ := (hstep start x next hstart).mp hnext
      obtain ⟨ys, hys, hstate, hfinal⟩ := (ih hwithin).mp hrest
      exact ⟨y :: ys, .cons hy hys, hstate, hfinal⟩
    · rintro ⟨ys, hys, rfl, hfinal⟩
      obtain ⟨y, ys, hy, hrest, rfl⟩ := List.forall₂_cons_left_iff.mp hys
      have hwithin : Within (add start y) := of_within_foldl hshorter hfinal
      exact ⟨add start y, (hstep start x _ hstart).mpr ⟨y, hy, rfl, hwithin⟩,
        (ih hwithin).mpr ⟨ys, hrest, rfl, hfinal⟩⟩

/-! ## The first element that answers true -/

theorem anyM_cons_eq {f : α → Except ε Bool} {x : α} {l : List α} :
    (x :: l).anyM f =
      match f x with
      | .error e => .error e
      | .ok true => .ok true
      | .ok false => l.anyM f := by
  rw [List.anyM_cons]
  cases f x with
  | error e => rfl
  | ok answer => cases answer <;> rfl

theorem anyM_eq_false {f : α → Except ε Bool} {l : List α} :
    l.anyM f = .ok false ↔ ∀ x ∈ l, f x = .ok false := by
  induction l with
  | nil => exact ⟨fun _ x hx => absurd hx List.not_mem_nil, fun _ => rfl⟩
  | cons x l ih =>
    rw [anyM_cons_eq, List.forall_mem_cons]
    cases hx : f x with
    | error e => exact ⟨fun h => (by cases h), fun h => (by cases h.1)⟩
    | ok answer =>
      cases answer with
      | true => exact ⟨fun h => (by cases h), fun h => (by cases h.1)⟩
      | false => exact ⟨fun h => ⟨rfl, ih.mp h⟩, fun h => ih.mpr h.2⟩

theorem exists_of_anyM {f : α → Except ε Bool} {l : List α} (h : l.anyM f = .ok true) :
    ∃ x ∈ l, f x = .ok true := by
  induction l with
  | nil => cases h
  | cons x l ih =>
    rw [anyM_cons_eq] at h
    split at h
    · cases h
    · exact ⟨x, List.mem_cons_self, by assumption⟩
    · obtain ⟨y, hy, hfy⟩ := ih h
      exact ⟨y, List.mem_cons_of_mem x hy, hfy⟩

/-- **The error is the one of the first element that does not answer `false`.** -/
theorem anyM_eq_error {f : α → Except ε Bool} {l : List α} {e : ε} :
    l.anyM f = .error e ↔ ∃ i, ∃ hi : i < l.length, f l[i] = .error e ∧
      ∀ j, ∀ hj : j < l.length, j < i → f l[j] = .ok false := by
  induction l with
  | nil =>
    constructor
    · intro h
      cases h
    · rintro ⟨i, hi, -⟩
      exact absurd hi (Nat.not_lt_zero i)
  | cons x l ih =>
    rw [anyM_cons_eq]
    cases hx : f x with
    | error e' =>
      constructor
      · intro h
        cases h
        exact ⟨0, Nat.succ_pos _, hx, fun j _ hj => absurd hj (Nat.not_lt_zero j)⟩
      · rintro ⟨i, hi, herror, hbefore⟩
        cases i with
        | zero =>
          rw [List.getElem_cons_zero, hx] at herror
          cases herror
          rfl
        | succ i =>
          have hfirst := hbefore 0 (Nat.succ_pos _) (Nat.succ_pos i)
          rw [List.getElem_cons_zero, hx] at hfirst
          cases hfirst
    | ok answer =>
      cases answer with
      | true =>
        constructor
        · intro h
          cases h
        · rintro ⟨i, hi, herror, hbefore⟩
          cases i with
          | zero =>
            rw [List.getElem_cons_zero, hx] at herror
            cases herror
          | succ i =>
            have hfirst := hbefore 0 (Nat.succ_pos _) (Nat.succ_pos i)
            rw [List.getElem_cons_zero, hx] at hfirst
            cases hfirst
      | false =>
        refine ih.trans ⟨?_, ?_⟩
        · rintro ⟨i, hi, herror, hbefore⟩
          refine ⟨i + 1, Nat.succ_lt_succ hi, herror, fun j hjl hj => ?_⟩
          cases j with
          | zero => exact hx
          | succ j => exact hbefore j (Nat.lt_of_succ_lt_succ hjl) (Nat.lt_of_succ_lt_succ hj)
        · rintro ⟨i, hi, herror, hbefore⟩
          cases i with
          | zero =>
            rw [List.getElem_cons_zero, hx] at herror
            cases herror
          | succ i =>
            exact ⟨i, Nat.lt_of_succ_lt_succ hi, herror,
              fun j hjl hj => hbefore (j + 1) (Nat.succ_lt_succ hjl) (Nat.succ_lt_succ hj)⟩

/-- When no element fails, the order does not matter. -/
theorem anyM_eq_true {f : α → Except ε Bool} {l : List α} (hok : ∀ x ∈ l, ∀ e, f x ≠ .error e) :
    l.anyM f = .ok true ↔ ∃ x ∈ l, f x = .ok true := by
  refine ⟨exists_of_anyM, fun ⟨x, hx, hfx⟩ => ?_⟩
  cases h : l.anyM f with
  | error e =>
    obtain ⟨i, hi, hfy, -⟩ := anyM_eq_error.mp h
    exact absurd hfy (hok _ (List.getElem_mem hi) e)
  | ok answer =>
    cases answer with
    | true => rfl
    | false =>
      rw [anyM_eq_false.mp h x hx] at hfx
      cases hfx

/-! ## The elements that answer true -/

/-- The elements that answer `true`, in order. -/
def select (f : α → Except ε Bool) : List α → Except ε (List α)
  | [] => .ok []
  | x :: l =>
    match f x with
    | .error e => .error e
    | .ok answer =>
      match select f l with
      | .error e => .error e
      | .ok ys => .ok (if answer then x :: ys else ys)

theorem select_eq_ok {f : α → Except ε Bool} {l ys : List α} (h : select f l = .ok ys) :
    (∀ x ∈ l, ∃ answer, f x = .ok answer) ∧ ∀ x, x ∈ ys ↔ x ∈ l ∧ f x = .ok true := by
  induction l generalizing ys with
  | nil =>
    cases h
    exact ⟨fun x hx => absurd hx List.not_mem_nil, fun x => by simp⟩
  | cons y l ih =>
    rw [select] at h
    split at h
    · cases h
    · rename_i answer hy
      split at h
      · cases h
      · rename_i rest hrest
        cases h
        obtain ⟨hall, hmem⟩ := ih hrest
        refine ⟨List.forall_mem_cons.mpr ⟨⟨answer, hy⟩, hall⟩, fun x => ?_⟩
        cases answer with
        | true =>
          simp only [if_true, List.mem_cons, hmem x]
          constructor
          · rintro (rfl | ⟨hx, hfx⟩)
            · exact ⟨Or.inl rfl, hy⟩
            · exact ⟨Or.inr hx, hfx⟩
          · rintro ⟨rfl | hx, hfx⟩
            · exact Or.inl rfl
            · exact Or.inr ⟨hx, hfx⟩
        | false =>
          simp only [Bool.false_eq_true, if_false, List.mem_cons, hmem x]
          constructor
          · rintro ⟨hx, hfx⟩
            exact ⟨Or.inr hx, hfx⟩
          · rintro ⟨rfl | hx, hfx⟩
            · rw [hy] at hfx
              cases hfx
            · exact ⟨hx, hfx⟩

theorem select_eq_nil {f : α → Except ε Bool} {l : List α} :
    select f l = .ok [] ↔ ∀ x ∈ l, f x = .ok false := by
  induction l with
  | nil => exact ⟨fun _ x hx => absurd hx List.not_mem_nil, fun _ => rfl⟩
  | cons x l ih =>
    rw [select, List.forall_mem_cons]
    cases hx : f x with
    | error e => exact ⟨fun h => (by cases h), fun h => (by cases h.1)⟩
    | ok answer =>
      cases hl : select f l with
      | error e =>
        rw [hl] at ih
        exact ⟨fun h => (by cases h), fun h => (by cases ih.mpr h.2)⟩
      | ok ys =>
        rw [hl] at ih
        cases answer with
        | true => exact ⟨fun h => (by cases h), fun h => (by cases h.1)⟩
        | false => exact ⟨fun h => ⟨rfl, ih.mp h⟩, fun h => ih.mpr h.2⟩

theorem select_append {f : α → Except ε Bool} {l l' : List α} :
    select f (l ++ l') =
      match select f l with
      | .error e => .error e
      | .ok ys =>
        match select f l' with
        | .error e => .error e
        | .ok ys' => .ok (ys ++ ys') := by
  induction l with
  | nil =>
    simp only [List.nil_append, select]
    cases select f l' <;> rfl
  | cons x l ih =>
    rw [List.cons_append, select, select]
    cases f x with
    | error e => rfl
    | ok answer =>
      simp only [ih]
      cases select f l with
      | error e => rfl
      | ok ys =>
        cases select f l' with
        | error e => rfl
        | ok ys' => cases answer <;> rfl

theorem select_all (l : List α) : select (fun _ => (.ok true : Except ε Bool)) l = .ok l := by
  induction l with
  | nil => rfl
  | cons x l ih => simp only [select, ih, if_true]

/-- It fails where collecting the answers does. -/
theorem select_eq_error {f : α → Except ε Bool} {l : List α} {e : ε} :
    select f l = .error e ↔ l.mapM f = .error e := by
  induction l with
  | nil => exact ⟨fun h => (by cases h), fun h => (by cases h)⟩
  | cons x l ih =>
    rw [select, List.mapM_cons]
    cases f x with
    | error e' => exact ⟨fun h => (by cases h; rfl), fun h => (by cases h; rfl)⟩
    | ok answer =>
      cases hrest : select f l with
      | error e' =>
        rw [hrest] at ih
        cases hvalues : l.mapM f with
        | error e'' =>
          rw [hvalues] at ih
          exact ih
        | ok values =>
          rw [hvalues] at ih
          exact ⟨fun h => (by cases ih.mp h), fun h => (by cases h)⟩
      | ok ys =>
        rw [hrest] at ih
        cases hvalues : l.mapM f with
        | error e'' =>
          rw [hvalues] at ih
          exact ⟨fun h => (by cases h), fun h => (by cases h; cases ih.mpr rfl)⟩
        | ok values => exact ⟨fun h => (by cases h), fun h => (by cases h)⟩

/-! ## Loops that compute them -/

variable [HasMemory σ] [HasRefusal ε]

/-- **A search computes `anyM`.** -/
theorem search_anyM {l : List α} {f : α → Except ε Bool} {body : ℕ → σ → Except ε Bool × σ}
    (hbody : ∀ i, ∀ hi : i < l.length, ∀ s, Settles s (fun r _ => r = f l[i]) (body i s)) (s : σ) :
    Settles s (fun r _ => r = l.anyM f) (search l.length body s) := by
  have hskip : ∀ i, ∀ hi : i < l.length,
      (l.drop i).anyM f = match f l[i] with
        | .error e => .error e
        | .ok true => .ok true
        | .ok false => (l.drop (i + 1)).anyM f := by
    intro i hi
    rw [List.drop_eq_getElem_cons hi, anyM_cons_eq]
  refine search_settles (I := fun i _ => l.anyM f = (l.drop i).anyM f) rfl ?_ ?_
  · intro i s hi hI
    refine (hbody i hi s).mono fun r s' hr => ?_
    rw [hskip i hi] at hI
    cases hf : f l[i] with
    | error e =>
      rw [hf] at hr hI
      exact Or.inr ⟨by rw [hr]; exact fun h => (by cases h), by rw [hr, hI]⟩
    | ok answer =>
      rw [hf] at hr hI
      cases answer with
      | true => exact Or.inr ⟨by rw [hr]; exact fun h => (by cases h), by rw [hr, hI]⟩
      | false => exact Or.inl ⟨hr, hI⟩
  · intro s hI
    rw [hI, List.drop_length]
    rfl

/-- **A sweep computes `select`**, and does to what it views what the selected
elements do, in order.  `P` is what the body needs of the view, and keeps also when
it fails. -/
theorem sweep_select {γ : Type*} {l : List α} (f : α → Except ε Bool) (view : σ → γ)
    (add : γ → α → γ) (P : γ → Prop) {n : ℕ} (hn : l.length = n)
    {body : ℕ → σ → Except ε Bool × σ}
    (hbody : ∀ i, ∀ hi : i < l.length, ∀ s, P (view s) → Settles s
      (fun r s' => r = f l[i] ∧ P (view s') ∧ ∀ answer, r = .ok answer →
        view s' = if answer then add (view s) l[i] else view s) (body i s))
    (s : σ) (hs : P (view s)) :
    Settles s
      (fun r s' => r = (select f l).map (fun ys => !ys.isEmpty) ∧ P (view s') ∧
        ∀ ys, select f l = .ok ys → view s' = ys.foldl add (view s))
      (sweep n body s) := by
  subst hn
  refine sweep_settles
    (I := fun i any s' => P (view s') ∧ ∃ ys, select f (l.take i) = .ok ys ∧
      any = !ys.isEmpty ∧ view s' = ys.foldl add (view s)) ⟨hs, [], rfl, rfl, rfl⟩ ?_ ?_
  · rintro i any s₁ hi ⟨hP₁, ys, hys, rfl, hview⟩
    refine (hbody i hi s₁ hP₁).mono ?_
    rintro r s₂ ⟨rfl, hP₂, hnext⟩
    have hone : ∀ answer, f l[i] = .ok answer →
        select f (l.take (i + 1)) = .ok (ys ++ if answer then [l[i]] else []) := by
      intro answer hanswer
      rw [List.take_succ_eq_append_getElem hi, select_append, hys]
      simp only [select, hanswer]
    cases hf : f l[i] with
    | error e =>
      have hall : select f l = .error e := by
        rw [← List.take_append_drop i l, List.drop_eq_getElem_cons hi, select_append, hys]
        simp only [select, hf]
      rw [hall]
      exact Or.inr ⟨e, rfl, rfl, hP₂, fun ys h => by cases h⟩
    | ok answer =>
      refine Or.inl ⟨answer, rfl, hP₂, _, hone answer hf, ?_, ?_⟩
      · cases ys <;> cases answer <;> rfl
      · rw [hnext answer hf, hview]
        cases answer with
        | true => rw [if_pos rfl, if_pos rfl, List.foldl_append, List.foldl_cons, List.foldl_nil]
        | false => rw [if_neg Bool.false_ne_true, if_neg Bool.false_ne_true, List.append_nil]
  · rintro any s' ⟨hP', ys, hys, rfl, hview⟩
    rw [List.take_length] at hys
    rw [hys]
    exact ⟨rfl, hP', fun ys' h => by cases h; exact hview⟩

/-- The reply mirrors a value that is computed elsewhere: the same error, which leaves
`K` behind, or success, which leaves the value's `J`. -/
def Mirrors (J : β → σ → Prop) (K : σ → Prop) (value : Except ε β) (reply : Except ε Unit)
    (s : σ) : Prop :=
  match value with
  | .error e => reply = .error e ∧ K s
  | .ok y => reply = .ok () ∧ J y s

/-- **A scan computes `mapM`.**  `J` relates the values so far to the state, and `K`
is what an error leaves behind. -/
theorem scan_mapM {l : List α} {n : ℕ} (hn : l.length = n) (f : α → Except ε β)
    (J : List β → σ → Prop) (K : σ → Prop) {body : ℕ → σ → Except ε Unit × σ} (s : σ)
    (h0 : J [] s)
    (hbody : ∀ i, ∀ hi : i < l.length, ∀ ys s, ys.length = i → J ys s →
      Settles s (Mirrors (fun y => J (ys ++ [y])) K (f l[i])) (body i s)) :
    Settles s (Mirrors J K (l.mapM f)) (scan n body s) := by
  subst hn
  refine scan_settles (I := fun i s' => ∃ ys, (l.take i).mapM f = .ok ys ∧ J ys s')
    ⟨[], rfl, h0⟩ ?_ ?_
  · rintro i s₁ hi ⟨ys, hys, hJ⟩
    have hlength : ys.length = i := by
      rw [← (mapM_eq_ok.mp hys).length_eq, List.length_take, Nat.min_eq_left (Nat.le_of_lt hi)]
    refine (hbody i hi ys s₁ hlength hJ).mono fun r s₂ hr => ?_
    cases hf : f l[i] with
    | error e =>
      rw [hf] at hr
      obtain ⟨rfl, hK⟩ := hr
      have hall : l.mapM f = .error e := by
        rw [mapM_eq_error]
        refine ⟨i, hi, hf, fun j _ hj => ?_⟩
        have hget := (List.forall₂_iff_get.mp (mapM_eq_ok.mp hys)).2 j
          (by rw [List.length_take]; omega) (by omega)
        exact ⟨_, by simpa using hget⟩
      rw [hall]
      exact Or.inr ⟨e, rfl, rfl, hK⟩
    | ok y =>
      rw [hf] at hr
      obtain ⟨rfl, hJ'⟩ := hr
      refine Or.inl ⟨rfl, ys ++ [y], ?_, hJ'⟩
      rw [List.take_succ_eq_append_getElem hi, List.mapM_append, hys, List.mapM_cons, hf]
      rfl
  · rintro s' ⟨ys, hys, hJ⟩
    rw [List.take_length] at hys
    rw [hys]
    exact ⟨rfl, hJ⟩

end Traversal
