import Mathlib.Data.List.Count
import Mathlib.Data.List.NodupEquivFin
import Mathlib.Data.List.Perm.Basic
import Mathlib.Order.Defs.LinearOrder
import Mathlib.Tactic.Common

/-!
# A running minimum that refuses ties

A list is read from the front.  The entry of the smallest key so far is kept, and an entry with the
same key as the one kept ends the reading.  So a tie above the minimum of the list is met or missed,
as the list is ordered: it is missed when a smaller entry stands before it.

## What a reading finds

A reading that goes through has found the unique minimum of the list, and one that ends has found
two entries with one key, which need not be the smallest (`run_ok`, `run_error`).

## The orders of a list

Whether every order of a list reads the same is settled by its keys alone.  Where there is a unique
minimum and no tie above it, every order finds it (`UniqueMinimum.run_eq`).  Where there is a unique
minimum and a tie above it, some order reads the tie first, and another the minimum
(`exists_perm_error`, `exists_perm_ok`).  Where a list with entries has none, no order of it is read
to its end (`run_error_of_not_unique`); the ties found are always those of the minimum if there are
no others (`le_of_run_error`).
-/

namespace RunningMinimum

variable {α κ : Type*} [LinearOrder κ] {key : α → κ} {l : List α}

/-- Takes one more entry in.  A tie is given by the two entries. -/
def step (key : α → κ) : Option α → α → Except (α × α) (Option α)
  | none, x => .ok (some x)
  | some m, x =>
    if key x < key m then .ok (some x)
    else if key x = key m then .error (m, x)
    else .ok (some m)

/-- The reading of a list. -/
def run (key : α → κ) (l : List α) : Except (α × α) (Option α) := l.foldlM (step key) none

/-- `m` has the smallest key, and no other entry has it. -/
structure UniqueMinimum (key : α → κ) (m : α) (l : List α) : Prop where
  mem : m ∈ l
  le : ∀ z ∈ l, key m ≤ key z
  once : (l.map key).count (key m) = 1

/-- Two entries share a key that is not the smallest. -/
def TieAbove (key : α → κ) (l : List α) : Prop :=
  ∃ k, 2 ≤ (l.map key).count k ∧ ∃ z ∈ l, key z < k

@[simp] theorem run_nil : run key ([] : List α) = .ok none := rfl

/-! ## What a reading finds -/

/-- A reading that goes through has found the unique minimum. -/
theorem uniqueMinimum_of_foldlM {m : α} {r : Option α}
    (h : l.foldlM (step key) (some m) = .ok r) :
    ∃ m', r = some m' ∧ UniqueMinimum key m' (m :: l) := by
  induction l generalizing m with
  | nil =>
    obtain rfl : some m = r := Except.ok.inj h
    refine ⟨m, rfl, List.mem_cons_self, fun z hz => ?_, ?_⟩
    · rw [List.mem_singleton.mp hz]
    · rw [List.map_singleton, List.count_singleton_self]
  | cons x l ih =>
    rw [List.foldlM_cons] at h
    by_cases hlt : key x < key m
    · have hstep : step key (some m) x = .ok (some x) := by rw [step, if_pos hlt]
      rw [hstep] at h
      obtain ⟨m', hr, hm'⟩ := ih h
      have hbelow : key m' < key m := lt_of_le_of_lt (hm'.le x List.mem_cons_self) hlt
      refine ⟨m', hr, List.mem_cons_of_mem m hm'.mem, fun z hz => ?_, ?_⟩
      · rcases List.mem_cons.mp hz with rfl | hz
        · exact le_of_lt hbelow
        · exact hm'.le z hz
      · rw [List.map_cons, List.count_cons_of_ne (ne_of_gt hbelow)]
        exact hm'.once
    · by_cases heq : key x = key m
      · have hstep : step key (some m) x = .error (m, x) := by rw [step, if_neg hlt, if_pos heq]
        rw [hstep] at h
        cases h
      · have hstep : step key (some m) x = .ok (some m) := by rw [step, if_neg hlt, if_neg heq]
        rw [hstep] at h
        obtain ⟨m', hr, hm'⟩ := ih h
        have habove : key m < key x := lt_of_le_of_ne (not_lt.mp hlt) (Ne.symm heq)
        have hkept : key m' < key x := lt_of_le_of_lt (hm'.le m List.mem_cons_self) habove
        refine ⟨m', hr, ?_, fun z hz => ?_, ?_⟩
        · rcases List.mem_cons.mp hm'.mem with rfl | hmem
          · exact List.mem_cons_self
          · exact List.mem_cons_of_mem m (List.mem_cons_of_mem x hmem)
        · rcases List.mem_cons.mp hz with rfl | hz
          · exact hm'.le z List.mem_cons_self
          · rcases List.mem_cons.mp hz with rfl | hz
            · exact le_of_lt hkept
            · exact hm'.le z (List.mem_cons_of_mem m hz)
        · have honce := hm'.once
          rw [List.map_cons, List.count_cons] at honce
          rw [List.map_cons, List.map_cons, List.count_cons, List.count_cons_of_ne (ne_of_gt hkept)]
          exact honce

/-- A reading that ends has found a tie. -/
theorem tie_of_foldlM {m a b : α} (h : l.foldlM (step key) (some m) = .error (a, b)) :
    key a = key b ∧ 2 ≤ ((m :: l).map key).count (key b) := by
  induction l generalizing m with
  | nil => cases h
  | cons x l ih =>
    rw [List.foldlM_cons] at h
    by_cases hlt : key x < key m
    · have hstep : step key (some m) x = .ok (some x) := by rw [step, if_pos hlt]
      rw [hstep] at h
      obtain ⟨hkey, hcount⟩ := ih h
      refine ⟨hkey, Nat.le_trans hcount ?_⟩
      rw [List.map_cons, List.map_cons, List.map_cons]
      exact List.count_le_count_cons
    · by_cases heq : key x = key m
      · have hstep : step key (some m) x = .error (m, x) := by rw [step, if_neg hlt, if_pos heq]
        rw [hstep] at h
        obtain ⟨rfl, rfl⟩ : m = a ∧ x = b := Prod.mk.inj (Except.error.inj h)
        refine ⟨heq.symm, ?_⟩
        rw [List.map_cons, List.map_cons, heq, List.count_cons_self, List.count_cons_self]
        omega
      · have hstep : step key (some m) x = .ok (some m) := by rw [step, if_neg hlt, if_neg heq]
        rw [hstep] at h
        obtain ⟨hkey, hcount⟩ := ih h
        refine ⟨hkey, Nat.le_trans hcount ?_⟩
        rw [List.map_cons, List.map_cons, List.map_cons, List.count_cons, List.count_cons,
          List.count_cons]
        omega

/-- **A reading that goes through**: the list is empty, or what is found is its unique
minimum. -/
theorem run_ok {r : Option α} (h : run key l = .ok r) :
    (l = [] ∧ r = none) ∨ ∃ m, r = some m ∧ UniqueMinimum key m l := by
  cases l with
  | nil => exact Or.inl ⟨rfl, (Except.ok.inj h).symm⟩
  | cons x l => exact Or.inr (uniqueMinimum_of_foldlM h)

/-- **A reading that ends**: two entries share the key of the tie. -/
theorem run_error {a b : α} (h : run key l = .error (a, b)) :
    key a = key b ∧ 2 ≤ (l.map key).count (key b) := by
  cases l with
  | nil => cases h
  | cons x l => exact tie_of_foldlM h

/-! ## The orders of a list -/

/-- An order of the entries that a filter finds comes from an order of the list. -/
theorem exists_perm_filterMap {β : Type*} {f : β → Option α} {l' : List α} {entries : List β}
    (h : l'.Perm (entries.filterMap f)) :
    ∃ order : List β, order.Perm entries ∧ order.filterMap f = l' := by
  generalize hl : entries.filterMap f = l at h
  induction h generalizing entries with
  | nil => exact ⟨entries, .refl entries, hl⟩
  | cons x _ ih =>
    obtain ⟨before, b, after, rfl, hbefore, hb, hafter⟩ := List.filterMap_eq_cons_iff.mp hl
    obtain ⟨order, horder, hfilter⟩ := ih hafter
    refine ⟨before ++ b :: order, (horder.cons b).append_left before, ?_⟩
    rw [List.filterMap_append, List.filterMap_eq_nil_iff.mpr hbefore, List.nil_append,
      List.filterMap_cons_some hb, hfilter]
  | swap x y l =>
    obtain ⟨before, b, after, rfl, hbefore, hb, hafter⟩ := List.filterMap_eq_cons_iff.mp hl
    obtain ⟨between, c, rest, rfl, hbetween, hc, hrest⟩ := List.filterMap_eq_cons_iff.mp hafter
    refine ⟨c :: b :: (before ++ (between ++ rest)), ?_, ?_⟩
    · have hc' : (c :: (between ++ rest)).Perm (between ++ c :: rest) :=
        List.perm_middle.symm
      have hb' : (b :: (before ++ c :: (between ++ rest))).Perm
          (before ++ b :: (between ++ c :: rest)) :=
        List.perm_middle.symm.trans ((hc'.cons b).append_left before)
      exact ((List.Perm.swap b c _).trans (List.perm_middle.symm.cons b)).trans hb'
    · rw [List.filterMap_cons_some hc, List.filterMap_cons_some hb, List.filterMap_append,
        List.filterMap_eq_nil_iff.mpr hbefore, List.nil_append, List.filterMap_append,
        List.filterMap_eq_nil_iff.mpr hbetween, List.nil_append, hrest]
  | trans _ _ ih ih' =>
    obtain ⟨order, horder, hfilter⟩ := ih' hl
    obtain ⟨order', horder', hfilter'⟩ := ih hfilter
    exact ⟨order', horder'.trans horder, hfilter'⟩

theorem UniqueMinimum.perm {m : α} {l' : List α} (h : UniqueMinimum key m l) (hp : l'.Perm l) :
    UniqueMinimum key m l' where
  mem := hp.mem_iff.mpr h.mem
  le z hz := h.le z (hp.mem_iff.mp hz)
  once := by rw [(hp.map key).count_eq]; exact h.once

/-- Entries with the least key and no other are the same entry. -/
theorem UniqueMinimum.unique {m m' : α} (h : UniqueMinimum key m l)
    (h' : UniqueMinimum key m' l) : m = m' := by
  have hkey : key m = key m' := le_antisymm (h.le m' h'.mem) (h'.le m h.mem)
  have honce : (l.filter fun z => key z = key m).length = 1 := by
    rw [← h.once, List.count, List.countP_map, List.countP_eq_length_filter]
    congr 1
  obtain ⟨x, hx⟩ := List.length_eq_one_iff.mp honce
  have hm : m ∈ l.filter fun z => key z = key m := by
    rw [List.mem_filter]
    exact ⟨h.mem, decide_eq_true rfl⟩
  have hm' : m' ∈ l.filter fun z => key z = key m := by
    rw [List.mem_filter]
    exact ⟨h'.mem, decide_eq_true hkey.symm⟩
  rw [hx, List.mem_singleton] at hm hm'
  rw [hm, hm']

theorem UniqueMinimum.place_unique {m : α} (h : UniqueMinimum key m l) {i j : ℕ}
    (hi : i < l.length) (hj : j < l.length) (hki : key l[i] = key m) (hkj : key l[j] = key m) :
    i = j := by
  have hplaces : ∀ {i j : ℕ} (hi : i < l.length) (hj : j < l.length), key l[i] = key m →
      key l[j] = key m → ¬i < j := by
    intro i j hi hj hki hkj hlt
    have hduplicate : (l.map key).Duplicate (key m) := by
      refine List.duplicate_iff_exists_distinct_get.mpr
        ⟨⟨i, by rw [List.length_map]; exact hi⟩, ⟨j, by rw [List.length_map]; exact hj⟩, hlt,
          ?_, ?_⟩
      · rw [List.get_eq_getElem, List.getElem_map, hki]
      · rw [List.get_eq_getElem, List.getElem_map, hkj]
    have htwo := List.duplicate_iff_two_le_count.mp hduplicate
    have honce := h.once
    omega
  have hij := hplaces hi hj hki hkj
  have hji := hplaces hj hi hkj hki
  omega

theorem UniqueMinimum.eq_of_key {m z : α} (h : UniqueMinimum key m l) (hz : z ∈ l)
    (hkey : key z = key m) : z = m := by
  obtain ⟨i, hi, rfl⟩ := List.getElem_of_mem hz
  obtain ⟨j, hj, rfl⟩ := List.getElem_of_mem h.mem
  obtain rfl := h.place_unique hi hj hkey rfl
  rfl

/-- An entry of the smallest key, when all others have another one. -/
theorem UniqueMinimum.of_getElem {i : ℕ} (hi : i < l.length) (hle : ∀ z ∈ l, key l[i] ≤ key z)
    (hother : ∀ j (hj : j < l.length), j ≠ i → key l[j] ≠ key l[i]) :
    UniqueMinimum key l[i] l := by
  refine ⟨List.getElem_mem hi, hle, ?_⟩
  have hsplit : l.map key = (l.take i).map key ++ key l[i] :: (l.drop (i + 1)).map key := by
    rw [← List.map_cons, ← List.map_append, List.getElem_cons_drop, List.take_append_drop]
  have hbefore : ((l.take i).map key).count (key l[i]) = 0 := by
    refine List.count_eq_zero.mpr fun hmem => ?_
    obtain ⟨z, hz, hkey⟩ := List.mem_map.mp hmem
    obtain ⟨j, hj, rfl⟩ := List.getElem_of_mem hz
    rw [List.length_take] at hj
    rw [List.getElem_take] at hkey
    exact hother j (by omega) (by omega) hkey
  have hafter : ((l.drop (i + 1)).map key).count (key l[i]) = 0 := by
    refine List.count_eq_zero.mpr fun hmem => ?_
    obtain ⟨z, hz, hkey⟩ := List.mem_map.mp hmem
    obtain ⟨j, hj, rfl⟩ := List.getElem_of_mem hz
    rw [List.length_drop] at hj
    rw [List.getElem_drop] at hkey
    exact hother (i + 1 + j) (by omega) (by omega) hkey
  rw [hsplit, List.count_append, hbefore, List.count_cons_self, hafter]

theorem perm_front (key : α → κ) (k : κ) (l : List α) : ∃ front rest : List α,
    (front ++ rest).Perm l ∧ front.length = (l.map key).count k ∧
      (∀ z ∈ front, key z = k) ∧ ∀ z ∈ rest, key z ≠ k := by
  refine ⟨l.filter fun z => key z = k, l.filter fun z => ¬key z = k, ?_, ?_, ?_, ?_⟩
  · have hp := List.filter_append_perm (fun z => decide (key z = k)) l
    simpa only [decide_not] using hp
  · rw [List.count, List.countP_map, List.countP_eq_length_filter]
    congr 1
  · intro z hz
    exact of_decide_eq_true (List.mem_filter.mp hz).2
  · intro z hz
    exact of_decide_eq_true (List.mem_filter.mp hz).2

/-- A tie can be read first. -/
theorem exists_perm_error {k : κ} (h : 2 ≤ (l.map key).count k) :
    ∃ l' a b, l'.Perm l ∧ run key l' = .error (a, b) ∧ key b = k := by
  obtain ⟨front, rest, hp, hlength, hfront, -⟩ := perm_front key k l
  rw [← hlength] at h
  rcases front with _ | ⟨a, _ | ⟨b, front⟩⟩
  · exact absurd h (by rw [List.length_nil]; omega)
  · exact absurd h (by rw [List.length_singleton]; omega)
  · have ha : key a = k := hfront a List.mem_cons_self
    have hb : key b = k := hfront b (List.mem_cons_of_mem a List.mem_cons_self)
    refine ⟨_, a, b, hp, ?_, hb⟩
    have hstep : step key (some a) b = .error (a, b) := by
      rw [step, ha, hb, if_neg (lt_irrefl k), if_pos rfl]
    show (b :: (front ++ rest)).foldlM (step key) (some a) = _
    rw [List.foldlM_cons, hstep]
    rfl

/-- **A reading without ties above the minimum** finds the unique minimum, where there is
one. -/
theorem UniqueMinimum.run_eq {m : α} (h : UniqueMinimum key m l) (hno : ¬TieAbove key l) :
    run key l = .ok (some m) := by
  rcases hrun : run key l with ⟨a, b⟩ | r
  · obtain ⟨-, hcount⟩ := run_error hrun
    have hmem : key b ∈ l.map key := List.count_pos_iff.mp (by omega)
    obtain ⟨z, hz, hkey⟩ := List.mem_map.mp hmem
    have hne : key m ≠ key b := fun heq => by
      rw [← heq, h.once] at hcount
      omega
    have hlt : key m < key b := lt_of_le_of_ne (hkey ▸ h.le z hz) hne
    exact absurd ⟨key b, hcount, m, h.mem, hlt⟩ hno
  · rcases run_ok hrun with ⟨rfl, -⟩ | ⟨m', rfl, hm'⟩
    · exact absurd h.mem List.not_mem_nil
    · rw [hm'.unique h]

/-- Without a unique minimum no order of the list is read to its end. -/
theorem run_error_of_not_unique (hl : l ≠ []) (h : ∀ m, ¬UniqueMinimum key m l) :
    ∃ a b, run key l = .error (a, b) := by
  rcases hrun : run key l with ⟨a, b⟩ | r
  · exact ⟨a, b, rfl⟩
  · rcases run_ok hrun with ⟨hnil, -⟩ | ⟨m, -, hm⟩
    · exact absurd hnil hl
    · exact absurd hm (h m)

theorem le_of_run_error {a b : α} (h : run key l = .error (a, b)) (hno : ¬TieAbove key l) :
    ∀ z ∈ l, key b ≤ key z := by
  intro z hz
  by_contra hlt
  exact hno ⟨key b, (run_error h).2, z, hz, lt_of_not_ge hlt⟩

theorem exists_mem_of_run_error {a b : α} (h : run key l = .error (a, b)) :
    ∃ z ∈ l, key z = key b := by
  have hmem : key b ∈ l.map key := List.count_pos_iff.mp (by have := (run_error h).2; omega)
  exact List.mem_map.mp hmem

theorem TieAbove.perm {l' : List α} (h : TieAbove key l) (hp : l'.Perm l) : TieAbove key l' := by
  obtain ⟨k, hcount, z, hz, hlt⟩ := h
  refine ⟨k, ?_, z, hp.mem_iff.mpr hz, hlt⟩
  rw [(hp.map key).count_eq]
  exact hcount

/-- A list with entries has a smallest one. -/
theorem exists_le (key : α → κ) (hl : l ≠ []) : ∃ m ∈ l, ∀ z ∈ l, key m ≤ key z := by
  induction l with
  | nil => exact absurd rfl hl
  | cons x l ih =>
    rcases List.eq_nil_or_concat l with rfl | ⟨_, _, hl'⟩
    · refine ⟨x, List.mem_cons_self, fun z hz => ?_⟩
      rw [List.mem_singleton.mp hz]
    · have hne : l ≠ [] := by
        rw [hl', List.concat_eq_append]
        exact List.append_ne_nil_of_right_ne_nil _ (List.cons_ne_nil _ _)
      obtain ⟨m, hm, hle⟩ := ih hne
      rcases le_total (key x) (key m) with hx | hx
      · refine ⟨x, List.mem_cons_self, fun z hz => ?_⟩
        rcases List.mem_cons.mp hz with rfl | hz
        · exact le_rfl
        · exact le_trans hx (hle z hz)
      · refine ⟨m, List.mem_cons_of_mem x hm, fun z hz => ?_⟩
        rcases List.mem_cons.mp hz with rfl | hz
        · exact hx
        · exact hle z hz

/-- The unique minimum can be read first, and then nothing is refused. -/
theorem exists_perm_ok {m : α} (h : UniqueMinimum key m l) :
    ∃ l', l'.Perm l ∧ run key l' = .ok (some m) := by
  obtain ⟨front, rest, hp, hlength, hfront, hrest⟩ := perm_front key (key m) l
  rw [h.once] at hlength
  obtain ⟨x, rfl⟩ := List.length_eq_one_iff.mp hlength
  have hx : UniqueMinimum key x l := by
    have hkey : key x = key m := hfront x List.mem_cons_self
    refine ⟨hp.mem_iff.mp List.mem_cons_self, fun z hz => ?_, ?_⟩
    · rw [hkey]
      exact h.le z hz
    · rw [hkey]
      exact h.once
  obtain rfl : x = m := hx.unique h
  refine ⟨_, hp, ?_⟩
  show rest.foldlM (step key) (some x) = .ok (some x)
  have habove : ∀ z ∈ rest, key x < key z := fun z hz =>
    lt_of_le_of_ne (h.le z (hp.mem_iff.mp (List.mem_append_right _ hz))) (Ne.symm (hrest z hz))
  clear hp hrest
  induction rest with
  | nil => rfl
  | cons z rest ih =>
    have hz : key x < key z := habove z List.mem_cons_self
    have hstep : step key (some x) z = .ok (some x) := by
      rw [step, if_neg (not_lt_of_gt hz), if_neg (ne_of_gt hz)]
    rw [List.foldlM_cons, hstep]
    exact ih fun w hw => habove w (List.mem_cons_of_mem z hw)

end RunningMinimum
