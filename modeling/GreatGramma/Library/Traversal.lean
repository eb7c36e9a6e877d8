import GreatGramma.Library.Reservation

/-!
# Loops that stop at the first error

Two kinds of loop, each with the rule that carries an invariant through it.

## Building loops

They return a new accumulator and give it up on an error: `List.foldlM` in `Except`, over a list or
a range of indices.  An invariant of such a loop speaks of the elements that are behind it and of
the accumulator (`foldlM_ok`, `foldlM_range_ok`), and there are rules for loops that do not fail
(`foldlM_total`) and for those that push one entry for every element (`foldlM_push`).

## In-place loops

They change a state that outlives the error, as a loop over borrowed buffers does.  There are three:
`scan` runs its body for its effect, `search` stops at the first `true`, and `sweep` runs to the end
and says whether the body ever answered `true`.  All three run over the indices of a count, and the
body fetches the slot it works on.  Their rules are about loops that settle (`Library.Reservation`):
if every round does what it should unless a reservation is refused, the loop does.

The first section takes computations in `Except` apart, so that no proof about them unfolds a bind.
-/

namespace Traversal

open Reservation

universe u

variable {γ ε ι : Type*} {α β σ : Type u}

/-! ## Peeling computations apart -/

theorem bind_eq_ok {x : Except ε α} {f : α → Except ε β} {b : β} :
    (x >>= f) = .ok b ↔ ∃ a, x = .ok a ∧ f a = .ok b := by
  cases x with
  | error e => exact ⟨fun h => (by cases h), fun ⟨_, h, _⟩ => (by cases h)⟩
  | ok a => exact ⟨fun h => ⟨a, rfl, h⟩, fun ⟨a', ha, h⟩ => (by cases ha; exact h)⟩

theorem bind_eq_error {x : Except ε α} {f : α → Except ε β} {e : ε} :
    (x >>= f) = .error e ↔ x = .error e ∨ ∃ a, x = .ok a ∧ f a = .error e := by
  cases x with
  | error e' =>
    refine ⟨fun h => Or.inl (congrArg Except.error (Except.error.inj h)), ?_⟩
    rintro (h | ⟨a, h, -⟩)
    · exact congrArg Except.error (Except.error.inj h)
    · cases h
  | ok a =>
    refine ⟨fun h => Or.inr ⟨a, rfl, h⟩, ?_⟩
    rintro (h | ⟨a', h, hf⟩)
    · cases h
    · cases h
      exact hf

@[simp] theorem ok_bind (a : α) (f : α → Except ε β) : (Except.ok a >>= f) = f a := rfl

theorem mapError_eq_ok {x : Except ε α} {f : ε → γ} {a : α} :
    x.mapError f = .ok a ↔ x = .ok a := by
  cases x <;> simp [Except.mapError]

theorem mapError_eq_error {x : Except ε α} {f : ε → γ} {e : γ} :
    x.mapError f = .error e ↔ ∃ e', x = .error e' ∧ f e' = e := by
  cases x <;> simp [Except.mapError]

theorem map_eq_ok {x : Except ε α} {f : α → β} {b : β} :
    x.map f = .ok b ↔ ∃ a, x = .ok a ∧ f a = b := by
  cases x <;> simp [Except.map]

theorem map_eq_error {x : Except ε α} {f : α → β} {e : ε} :
    x.map f = .error e ↔ x = .error e := by
  cases x <;> simp [Except.map]

theorem map_inj {f : α → β} (hf : Function.Injective f) {x y : Except ε α}
    (h : x.map f = y.map f) : x = y := by
  cases x with
  | error e =>
    cases y with
    | error e' =>
      cases h
      rfl
    | ok b => cases h
  | ok a =>
    cases y with
    | error e' => cases h
    | ok b => rw [hf (Except.ok.inj h)]

theorem toOption_map {x : Except ε α} {f : α → β} : (x.map f).toOption = x.toOption.map f := by
  cases x <;> rfl

theorem eq_ok_get (x : Except ε α) (h : x.toOption.isSome) : x = .ok (x.toOption.get h) := by
  cases x with
  | error e => cases h
  | ok a => rfl

@[simp] theorem pure_eq_ok {a b : α} : (pure a : Except ε α) = .ok b ↔ a = b :=
  ⟨fun h => (by cases h; rfl), fun h => (by rw [h]; rfl)⟩

/-- A guarded value. -/
theorem ite_ok_eq_ok {p : Prop} [Decidable p] {e : ε} {a b : α} :
    (if p then .ok a else .error e) = (.ok b : Except ε α) ↔ p ∧ a = b := by
  by_cases hp : p
  · rw [if_pos hp, Except.ok.injEq]
    exact (and_iff_right hp).symm
  · rw [if_neg hp]
    exact ⟨fun h => (by cases h), fun h => absurd h.1 hp⟩

/-- A guard. -/
theorem ite_error_eq_ok {p : Prop} [Decidable p] {e : ε} {x : Except ε α} {b : α} :
    (if p then .error e else x) = .ok b ↔ ¬ p ∧ x = .ok b := by
  by_cases hp : p
  · rw [if_pos hp]
    exact ⟨fun h => (by cases h), fun h => absurd hp h.1⟩
  · rw [if_neg hp]
    exact (and_iff_right hp).symm

/-! ## Building loops -/

/-- What holds of an index that a loop has passed after one more turn: it was passed
before, or it is the index of this turn. -/
theorem lt_succ_and_iff {P : ℕ → Prop} {i j : ℕ} :
    j < i + 1 ∧ P j ↔ (j < i ∧ P j) ∨ (j = i ∧ P i) := by
  rw [Nat.lt_succ_iff_lt_or_eq, or_and_right]
  exact or_congr_right (and_congr_right fun h => h ▸ Iff.rfl)

/-- **The invariant rule over a list**: `I xs s` says what holds of the
accumulator once the elements `xs` are behind it. -/
theorem foldlM_ok {body : σ → ι → Except ε σ} {I : List ι → σ → Prop} {l : List ι} {s s' : σ}
    (h : l.foldlM body s = .ok s') (h0 : I [] s)
    (hstep : ∀ before x after s s', l = before ++ x :: after → I before s →
      body s x = .ok s' → I (before ++ [x]) s') : I l s' := by
  have key : ∀ after before s, l = before ++ after → I before s →
      after.foldlM body s = .ok s' → I l s' := by
    intro after
    induction after with
    | nil =>
      intro before s hl hI h
      rw [List.foldlM_nil, pure_eq_ok] at h
      rw [List.append_nil] at hl
      exact hl ▸ h ▸ hI
    | cons x after ih =>
      intro before s hl hI h
      rw [List.foldlM_cons, bind_eq_ok] at h
      obtain ⟨mid, hmid, h⟩ := h
      refine ih (before ++ [x]) mid ?_ (hstep before x after s mid hl hI hmid) h
      rw [hl, List.append_assoc]
      rfl
  exact key l [] s rfl h0 h

/-- **The invariant rule for a loop that may stop**: every turn goes through and keeps the
invariant, or it stops for a reason. -/
theorem foldlM_total_or {body : σ → ι → Except ε σ} {I : List ι → σ → Prop} {reason : ε → Prop}
    {l : List ι} {s : σ} (h0 : I [] s)
    (hstep : ∀ before x after s, l = before ++ x :: after → I before s →
      (∃ s', body s x = .ok s' ∧ I (before ++ [x]) s') ∨ ∃ e, body s x = .error e ∧ reason e) :
    (∃ s', l.foldlM body s = .ok s' ∧ I l s') ∨ ∃ e, l.foldlM body s = .error e ∧ reason e := by
  have key : ∀ after before s, l = before ++ after → I before s →
      (∃ s', after.foldlM body s = .ok s' ∧ I l s') ∨
        ∃ e, after.foldlM body s = .error e ∧ reason e := by
    intro after
    induction after with
    | nil =>
      intro before s hl hI
      rw [List.append_nil] at hl
      exact Or.inl ⟨s, rfl, hl ▸ hI⟩
    | cons x after ih =>
      intro before s hl hI
      rw [List.foldlM_cons]
      rcases hstep before x after s hl hI with ⟨mid, hmid, hI'⟩ | ⟨e, herror, hreason⟩
      · rw [hmid]
        exact ih (before ++ [x]) mid (by rw [hl, List.append_assoc]; rfl) hI'
      · rw [herror]
        exact Or.inr ⟨e, rfl, hreason⟩
  exact key l [] s rfl h0

/-- **The invariant rule for a loop that does not fail**: every turn goes through and
keeps the invariant, so the loop goes through. -/
theorem foldlM_total {body : σ → ι → Except ε σ} {I : List ι → σ → Prop} {l : List ι} {s : σ}
    (h0 : I [] s) (hstep : ∀ before x after s, l = before ++ x :: after → I before s →
      ∃ s', body s x = .ok s' ∧ I (before ++ [x]) s') :
    ∃ s', l.foldlM body s = .ok s' ∧ I l s' := by
  rcases @foldlM_total_or _ _ _ _ _ (fun _ => False) _ _ h0
    (fun before x after s hl hI => Or.inl (hstep before x after s hl hI)) with hok | ⟨_, -, hnone⟩
  · exact hok
  · exact absurd hnone id

/-- **The invariant rule over a range**: `I i s` says what holds of the
accumulator before index `i`. -/
theorem foldlM_range_ok {body : σ → ℕ → Except ε σ} {I : ℕ → σ → Prop} {n : ℕ} {s s' : σ}
    (h : (List.range n).foldlM body s = .ok s') (h0 : I 0 s)
    (hstep : ∀ i s s', i < n → I i s → body s i = .ok s' → I (i + 1) s') : I n s' := by
  have key := foldlM_ok (I := fun before s => before.length ≤ n ∧ I before.length s) h
    ⟨Nat.zero_le n, h0⟩ ?_
  · rw [List.length_range] at key
    exact key.2
  · rintro before x after s s' hl ⟨-, hI⟩ hbody
    have hlt : before.length < n := by
      have hlen := congrArg List.length hl
      rw [List.length_range, List.length_append, List.length_cons] at hlen
      omega
    have hx : x = before.length := by
      have hget := congrArg (fun l => l[before.length]?) hl
      simpa [hlt] using hget.symm
    rw [List.length_append, List.length_singleton]
    exact ⟨hlt, hstep _ s s' hlt hI (hx ▸ hbody)⟩

theorem getElem?_concat_eq_some {l : List γ} {x y : γ} {i : ℕ} :
    (l ++ [x])[i]? = some y ↔ l[i]? = some y ∨ (i = l.length ∧ x = y) := by
  rw [List.getElem?_append]
  split_ifs with hlt
  · exact (or_iff_left fun h => Nat.ne_of_lt hlt h.1).symm
  · rw [List.getElem?_eq_none (Nat.not_lt.mp hlt), List.getElem?_singleton]
    split_ifs with hzero
    · have hi : i = l.length := by omega
      simp [hi]
    · have hi : i ≠ l.length := by omega
      simp [hi]

/-- A vector filled by pushing: it has `n` entries, and entry `i` satisfies
`P i`. -/
def Filled (P : ℕ → γ → Prop) (n : ℕ) (l : List γ) : Prop :=
  l.length = n ∧ ∀ i x, l[i]? = some x → P i x

namespace Filled

variable {P : ℕ → γ → Prop} {n : ℕ} {l : List γ}

theorem nil : Filled P 0 [] :=
  ⟨rfl, fun _ _ h => by cases h⟩

theorem push {x : γ} (h : Filled P n l) (hx : P n x) : Filled P (n + 1) (l ++ [x]) := by
  refine ⟨by rw [List.length_append, h.1, List.length_singleton], fun i y hy => ?_⟩
  rcases getElem?_concat_eq_some.mp hy with hold | ⟨hi, hxy⟩
  · exact h.2 i y hold
  · rw [hi, h.1, ← hxy]
    exact hx

theorem get (h : Filled P n l) {i : ℕ} (hi : i < n) : ∃ x, l[i]? = some x ∧ P i x := by
  have hlt : i < l.length := by rw [h.1]; exact hi
  exact ⟨l[i], List.getElem?_eq_getElem hlt, h.2 i _ (List.getElem?_eq_getElem hlt)⟩

theorem mono {Q : ℕ → γ → Prop} (h : Filled P n l) (hPQ : ∀ i x, P i x → Q i x) :
    Filled Q n l :=
  ⟨h.1, fun i x hx => hPQ i x (h.2 i x hx)⟩

end Filled

/-- **A loop that pushes one entry for every element.** -/
theorem foldlM_push {body : ω × List γ → ι → Except ε (ω × List γ)} {R : ι → γ → Prop}
    {l : List ι} {s out : ω × List γ} (h : l.foldlM body s = .ok out) (hs : s.2 = [])
    (hstep : ∀ s x s', body s x = .ok s' → ∃ y, s'.2 = s.2 ++ [y] ∧ R x y) :
    Filled (fun i y => ∃ x, l[i]? = some x ∧ R x y) l.length out.2 := by
  refine foldlM_ok (I := fun done (s : ω × List γ) =>
    Filled (fun i y => ∃ x, done[i]? = some x ∧ R x y) done.length s.2) h ?_ ?_
  · rw [hs]
    exact Filled.nil
  · rintro done x _ s s' - hfilled hbody
    obtain ⟨y, hy, hR⟩ := hstep s x s' hbody
    rw [hy, List.length_append, List.length_singleton]
    refine (hfilled.mono ?_).push ⟨x, List.getElem?_concat_length, hR⟩
    rintro i z ⟨x', hx', hz⟩
    obtain ⟨hlt, -⟩ := List.getElem?_eq_some_iff.mp hx'
    exact ⟨x', by rw [List.getElem?_append_left hlt, hx'], hz⟩

/-! ## In-place loops -/

/-- Runs the body at `k` indices from `i` on. -/
def scanFrom (body : ℕ → σ → Except ε Unit × σ) : ℕ → ℕ → σ → Except ε Unit × σ
  | 0, _, s => (.ok (), s)
  | k + 1, i, s =>
    match body i s with
    | (.ok (), s) => scanFrom body k (i + 1) s
    | (.error e, s) => (.error e, s)

/-- Runs the body at the indices below `n`. -/
def scan (n : ℕ) (body : ℕ → σ → Except ε Unit × σ) (s : σ) : Except ε Unit × σ :=
  scanFrom body n 0 s

/-- Stops at the first index, of `k` from `i` on, where the body answers `true`. -/
def searchFrom (body : ℕ → σ → Except ε Bool × σ) : ℕ → ℕ → σ → Except ε Bool × σ
  | 0, _, s => (.ok false, s)
  | k + 1, i, s =>
    match body i s with
    | (.ok true, s) => (.ok true, s)
    | (.ok false, s) => searchFrom body k (i + 1) s
    | (.error e, s) => (.error e, s)

/-- Stops at the first index below `n` where the body answers `true`. -/
def search (n : ℕ) (body : ℕ → σ → Except ε Bool × σ) (s : σ) : Except ε Bool × σ :=
  searchFrom body n 0 s

/-- Runs the body at `k` indices from `i` on, and collects whether it ever
answered `true`. -/
def sweepFrom (body : ℕ → σ → Except ε Bool × σ) : ℕ → ℕ → Bool → σ → Except ε Bool × σ
  | 0, _, any, s => (.ok any, s)
  | k + 1, i, any, s =>
    match body i s with
    | (.ok answer, s) => sweepFrom body k (i + 1) (any || answer) s
    | (.error e, s) => (.error e, s)

/-- Runs the body at the indices below `n`, and says whether it ever answered
`true`. -/
def sweep (n : ℕ) (body : ℕ → σ → Except ε Bool × σ) (s : σ) : Except ε Bool × σ :=
  sweepFrom body n 0 false s

/-- What every round of a scan keeps, the scan keeps, however it ends. -/
theorem scan_keeps {body : ℕ → σ → Except ε Unit × σ} {P : σ → Prop}
    (hbody : ∀ i s, P s → P (body i s).2) (n : ℕ) {s : σ} (h : P s) : P (scan n body s).2 := by
  have key : ∀ k i s, P s → P (scanFrom body k i s).2 := by
    intro k
    induction k with
    | zero => exact fun i s h => h
    | succ k ih =>
      intro i s h
      have hone := hbody i s h
      rw [scanFrom]
      generalize body i s = out at hone
      obtain ⟨reply, s'⟩ := out
      cases reply with
      | error e => exact hone
      | ok _ => exact ih (i + 1) s' hone
  exact key n 0 s h

theorem sweep_keeps {body : ℕ → σ → Except ε Bool × σ} {P : σ → Prop}
    (hbody : ∀ i s, P s → P (body i s).2) (n : ℕ) {s : σ} (h : P s) : P (sweep n body s).2 := by
  have key : ∀ k i any s, P s → P (sweepFrom body k i any s).2 := by
    intro k
    induction k with
    | zero => exact fun i any s h => h
    | succ k ih =>
      intro i any s h
      have hone := hbody i s h
      rw [sweepFrom]
      generalize body i s = out at hone
      obtain ⟨reply, s'⟩ := out
      cases reply with
      | error e => exact hone
      | ok answer => exact ih (i + 1) (any || answer) s' hone
  exact key n 0 false s h

/-- **The invariant rule of a scan**: a round goes on, or it ends the scan. -/
theorem scan_ends {n : ℕ} {body : ℕ → σ → Except ε Unit × σ} {I : ℕ → σ → Prop}
    {post : Except ε Unit → σ → Prop} {s : σ} (h0 : I 0 s)
    (hbody : ∀ i s, i < n → I i s → ∀ r s', body i s = (r, s') →
      (r = .ok () ∧ I (i + 1) s') ∨ (∃ e, r = .error e ∧ post (.error e) s'))
    (hpost : ∀ s, I n s → post (.ok ()) s) : post (scan n body s).1 (scan n body s).2 := by
  have key : ∀ k i s, i + k = n → I i s →
      post (scanFrom body k i s).1 (scanFrom body k i s).2 := by
    intro k
    induction k with
    | zero =>
      intro i s hi hI
      exact hpost s (by rwa [← hi])
    | succ k ih =>
      intro i s hi hI
      have hone := hbody i s (by omega) hI
      rw [scanFrom]
      generalize body i s = out at hone
      obtain ⟨reply, s'⟩ := out
      rcases hone reply s' rfl with ⟨rfl, hI'⟩ | ⟨e, rfl, hpost'⟩
      · exact ih (i + 1) s' (by omega) hI'
      · exact hpost'
  exact key n 0 s (Nat.zero_add n) h0

variable [HasMemory σ] [HasRefusal ε]

/-- **The rule of `scan`.** -/
theorem scan_settles {n : ℕ} {body : ℕ → σ → Except ε Unit × σ} {I : ℕ → σ → Prop}
    {post : Except ε Unit → σ → Prop} {s : σ} (h0 : I 0 s)
    (hbody : ∀ i s, i < n → I i s → Settles s
      (fun r s' => (r = .ok () ∧ I (i + 1) s') ∨ (∃ e, r = .error e ∧ post (.error e) s'))
      (body i s))
    (hpost : ∀ s, I n s → post (.ok ()) s) : Settles s post (scan n body s) := by
  have key : ∀ k i s, i + k = n → I i s → Settles s post (scanFrom body k i s) := by
    intro k
    induction k with
    | zero =>
      intro i s hi hI
      exact .here (hpost s (by rwa [← hi]))
    | succ k ih =>
      intro i s hi hI
      have hone := hbody i s (by omega) hI
      rw [scanFrom]
      generalize body i s = out at hone
      cases hone with
      | refused hs he => exact .refused hs he
      | done h hs =>
        rcases h with ⟨rfl, hI'⟩ | ⟨e, rfl, hpost'⟩
        · exact .after hs (ih (i + 1) _ (by omega) hI')
        · exact .done hpost' hs
  exact key n 0 s (Nat.zero_add n) h0

/-- **The rule of `search`.** -/
theorem search_settles {n : ℕ} {body : ℕ → σ → Except ε Bool × σ} {I : ℕ → σ → Prop}
    {post : Except ε Bool → σ → Prop} {s : σ} (h0 : I 0 s)
    (hbody : ∀ i s, i < n → I i s → Settles s
      (fun r s' => (r = .ok false ∧ I (i + 1) s') ∨ (r ≠ .ok false ∧ post r s')) (body i s))
    (hpost : ∀ s, I n s → post (.ok false) s) : Settles s post (search n body s) := by
  have key : ∀ k i s, i + k = n → I i s → Settles s post (searchFrom body k i s) := by
    intro k
    induction k with
    | zero =>
      intro i s hi hI
      exact .here (hpost s (by rwa [← hi]))
    | succ k ih =>
      intro i s hi hI
      have hone := hbody i s (by omega) hI
      rw [searchFrom]
      generalize body i s = out at hone
      cases hone with
      | refused hs he => exact .refused hs he
      | @done r s' h hs =>
        rcases h with ⟨rfl, hI'⟩ | ⟨hr, hpost'⟩
        · exact .after hs (ih (i + 1) _ (by omega) hI')
        · cases r with
          | error e => exact .done hpost' hs
          | ok answer =>
            cases answer with
            | false => exact absurd rfl hr
            | true => exact .done hpost' hs
  exact key n 0 s (Nat.zero_add n) h0

/-- **The rule of `sweep`**: the invariant also sees what has been collected. -/
theorem sweep_settles {n : ℕ} {body : ℕ → σ → Except ε Bool × σ} {I : ℕ → Bool → σ → Prop}
    {post : Except ε Bool → σ → Prop} {s : σ} (h0 : I 0 false s)
    (hbody : ∀ i any s, i < n → I i any s → Settles s
      (fun r s' => (∃ answer, r = .ok answer ∧ I (i + 1) (any || answer) s') ∨
        (∃ e, r = .error e ∧ post (.error e) s')) (body i s))
    (hpost : ∀ any s, I n any s → post (.ok any) s) : Settles s post (sweep n body s) := by
  have key : ∀ k i any s, i + k = n → I i any s → Settles s post (sweepFrom body k i any s) := by
    intro k
    induction k with
    | zero =>
      intro i any s hi hI
      exact .here (hpost any s (by rwa [← hi]))
    | succ k ih =>
      intro i any s hi hI
      have hone := hbody i any s (by omega) hI
      rw [sweepFrom]
      generalize body i s = out at hone
      cases hone with
      | refused hs he => exact .refused hs he
      | done h hs =>
        rcases h with ⟨answer, rfl, hI'⟩ | ⟨e, rfl, hpost'⟩
        · exact .after hs (ih (i + 1) _ _ (by omega) hI')
        · exact .done hpost' hs
  exact key n 0 false s (Nat.zero_add n) h0

end Traversal
