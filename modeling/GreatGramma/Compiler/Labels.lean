import GreatGramma.Compiler.Ranks
import GreatGramma.Library.RunningMinimum

/-!
# Priorities

Several terminals may accept in one lexer state.  `resolve_label` chooses among them, and
`collapse_aliases` among the terminals that share one regex; smaller priorities win in both, and
equal ones are refused.

## Two ways to refuse

`collapse_aliases` looks for a second terminal of the smallest priority, and what ties above it
does not matter.  `resolve_label` keeps a running winner and refuses as soon as a terminal ties
with it, also where a later terminal would have beaten both.  So its answer depends on the order of
the terminals, and the order is that of the lexemes, which is that of their registration.

## How far the order matters

Both are readings of a list by a running minimum, a notion of the library, and the library says
what a reading of every permutation of a list comes out with.  The outcome is the same for every
order, and a unique smallest priority wins, except where the smallest priority is held once and
two terminals tie above it.  If the priority that an ambiguity is reported with counts as well,
there is no exception to be made for lists without a unique minimum either: any tie above the
smallest priority is reported in one order and not in another (`resolveLabel_order_iff`).

`resolveLabel_order_dependent` is the smallest instance: priorities 5, 5 and 1.
-/

namespace GreatGramma

open Traversal RunningMinimum

/-! ## The two resolutions -/

/-- `TerminalMeta`. -/
structure TerminalMeta where
  name : String
  priority : UInt32
  terminal : TerminalId
  deriving DecidableEq

/-- One turn of the loop of `resolve_label`, at one accepting lexeme. -/
def resolveLabelStep (aliases : List (Option TerminalMeta)) (maximumWork : ℕ)
    (state : ℕ × Option TerminalMeta) (index : ℕ) :
    Except CompileFailure (ℕ × Option TerminalMeta) := do
  let (work, winner) := state
  match ← indexAt aliases index with
  | none => return (work, winner)
  | some terminal =>
    let work ← charge work 1 maximumWork
    match winner with
    | none => return (work, some terminal)
    | some previous =>
      if terminal.priority < previous.priority then return (work, some terminal)
      else if terminal.priority = previous.priority then
        throw (.error (.ambiguousPriority previous.name terminal.name terminal.priority))
      else return (work, some previous)

/-- `resolve_label`, from the lexemes that accept in the state. -/
def resolveLabel (aliases : List (Option TerminalMeta)) (accepting : List ℕ)
    (work maximumWork : ℕ) : Except CompileFailure (ℕ × Option TerminalId) := do
  let (work, winner) ← accepting.foldlM (resolveLabelStep aliases maximumWork) (work, none)
  return (work, winner.map TerminalMeta.terminal)

/-- One group of `collapse_aliases`. -/
def collapseGroup (group : List TerminalMeta) : Except CompileFailure (Option TerminalMeta) :=
  -- `min_by_key`
  match group.minIdxOn? TerminalMeta.priority with
  | none => .ok none
  | some winnerIndex => do
    let winner ← indexAt group winnerIndex
    let tied := group.zipIdx.find? fun (terminal, index) =>
      index ≠ winnerIndex ∧ terminal.priority = winner.priority
    match tied with
    | some (tied, _) =>
      throw (.error (.ambiguousPriority winner.name tied.name winner.priority))
    | none => return some winner

/-- `collapse_aliases`. -/
def collapseAliases (aliases : List (List TerminalMeta)) :
    Except CompileFailure (List (Option TerminalMeta)) :=
  aliases.foldlM
    (fun collapsed group => do
      let winner ← collapseGroup group
      return collapsed ++ [winner])
    []

/-- The terminals that accept, in the order of their lexemes. -/
def acceptingTerminals (aliases : List (Option TerminalMeta)) (accepting : List ℕ) :
    List TerminalMeta :=
  accepting.filterMap fun index => (aliases[index]?).join

/-- What terminals are compared by. -/
def TerminalMeta.key (terminal : TerminalMeta) : ℕ := terminal.priority.toNat

/-! ## `resolve_label` reads the terminals -/

/-- The failure that a tie is reported as. -/
def tieFailure (tie : TerminalMeta × TerminalMeta) : CompileFailure :=
  .error (.ambiguousPriority tie.1.name tie.2.name tie.2.priority)

/-- A reading of terminals, with ties as failures. -/
def reported (reading : Except (TerminalMeta × TerminalMeta) (Option TerminalMeta)) :
    Except CompileFailure (Option TerminalMeta) :=
  reading.mapError tieFailure

theorem charge_of_le {work amount maximum : ℕ} (h : work + amount ≤ maximum) :
    ∃ work', charge work amount maximum = .ok work' ∧ work' ≤ work + amount := by
  have hmin : min (work + amount) (2 ^ 64 - 1) ≤ work + amount := Nat.min_le_left _ _
  refine ⟨min (work + amount) (2 ^ 64 - 1), ?_, hmin⟩
  show (if _ then _ else _) = _
  rw [if_neg (Nat.not_lt.mpr (Nat.le_trans hmin h))]

theorem resolveLabelStep_some {aliases : List (Option TerminalMeta)} {work work' maximumWork : ℕ}
    {winner : Option TerminalMeta} {index : ℕ} {terminal : TerminalMeta}
    (halias : aliases[index]? = some (some terminal))
    (hcharge : charge work 1 maximumWork = .ok work') :
    resolveLabelStep aliases maximumWork (work, winner) index =
      (reported (step TerminalMeta.key winner terminal)).map fun winner => (work', winner) := by
  have hbody : resolveLabelStep aliases maximumWork (work, winner) index =
      match winner with
      | none => .ok (work', some terminal)
      | some previous =>
        if terminal.priority < previous.priority then .ok (work', some terminal)
        else if terminal.priority = previous.priority then
          .error (.error (.ambiguousPriority previous.name terminal.name terminal.priority))
        else .ok (work', some previous) := by
    simp only [resolveLabelStep, indexAt, halias]
    show (charge work 1 maximumWork).bind _ = _
    rw [hcharge]
    rfl
  rw [hbody]
  cases winner with
  | none => rfl
  | some previous =>
    have hlt : terminal.priority < previous.priority ↔ terminal.key < previous.key :=
      UInt32.lt_iff_toNat_lt
    have heq : terminal.priority = previous.priority ↔ terminal.key = previous.key :=
      UInt32.toNat_inj.symm
    simp only [step, hlt, heq]
    split_ifs <;> rfl

/-- **The loop reads the accepting terminals**, with a unit of work for each. -/
theorem foldlM_resolveLabelStep {aliases : List (Option TerminalMeta)} {maximumWork : ℕ}
    {accepting : List ℕ} (hin : ∀ index ∈ accepting, index < aliases.length) {work : ℕ}
    {winner : Option TerminalMeta}
    (hwork : work + (acceptingTerminals aliases accepting).length ≤ maximumWork) :
    (accepting.foldlM (resolveLabelStep aliases maximumWork) (work, winner)).map Prod.snd =
      reported ((acceptingTerminals aliases accepting).foldlM (step TerminalMeta.key) winner) := by
  induction accepting generalizing work winner with
  | nil => rfl
  | cons index accepting ih =>
    have hrest : ∀ i ∈ accepting, i < aliases.length :=
      fun i hi => hin i (List.mem_cons_of_mem index hi)
    have hindex : index < aliases.length := hin index List.mem_cons_self
    rw [List.foldlM_cons]
    cases halias : aliases[index] with
    | none =>
      have hget : aliases[index]? = some none := by rw [List.getElem?_eq_getElem hindex, halias]
      have hskip : acceptingTerminals aliases (index :: accepting) =
          acceptingTerminals aliases accepting := by
        rw [acceptingTerminals, List.filterMap_cons, hget]
        rfl
      have hstep : resolveLabelStep aliases maximumWork (work, winner) index =
          .ok (work, winner) := by
        simp only [resolveLabelStep, indexAt, hget]
        rfl
      rw [hskip] at hwork ⊢
      rw [hstep]
      exact ih hrest hwork
    | some terminal =>
      have hget : aliases[index]? = some (some terminal) := by
        rw [List.getElem?_eq_getElem hindex, halias]
      have htake : acceptingTerminals aliases (index :: accepting) =
          terminal :: acceptingTerminals aliases accepting := by
        rw [acceptingTerminals, List.filterMap_cons, hget]
        rfl
      rw [htake, List.length_cons] at hwork
      have hone : work + 1 ≤ maximumWork := by omega
      obtain ⟨work', hcharge, hle⟩ := charge_of_le hone
      rw [htake, List.foldlM_cons, resolveLabelStep_some hget hcharge]
      cases step TerminalMeta.key winner terminal with
      | error tie => rfl
      | ok winner => exact ih hrest (by omega)

/-- **`resolve_label` is a reading of the accepting terminals.** -/
theorem resolveLabel_cases {aliases : List (Option TerminalMeta)} {accepting : List ℕ}
    {work maximumWork : ℕ} (hin : ∀ index ∈ accepting, index < aliases.length)
    (hwork : work + (acceptingTerminals aliases accepting).length ≤ maximumWork) :
    (∃ winner work', run TerminalMeta.key (acceptingTerminals aliases accepting) = .ok winner ∧
      resolveLabel aliases accepting work maximumWork =
        .ok (work', winner.map TerminalMeta.terminal)) ∨
    ∃ tie, run TerminalMeta.key (acceptingTerminals aliases accepting) = .error tie ∧
      resolveLabel aliases accepting work maximumWork = .error (tieFailure tie) := by
  have heq := @foldlM_resolveLabelStep aliases maximumWork accepting hin work none hwork
  rw [← run.eq_1] at heq
  unfold resolveLabel
  cases hrun : run TerminalMeta.key (acceptingTerminals aliases accepting) with
  | ok winner =>
    rw [hrun] at heq
    obtain ⟨⟨work', winner'⟩, hfold, hwinner⟩ := map_eq_ok.mp heq
    obtain rfl : winner' = winner := hwinner
    exact Or.inl ⟨winner', work', rfl, by rw [hfold]; rfl⟩
  | error tie =>
    rw [hrun] at heq
    cases hfold : accepting.foldlM (resolveLabelStep aliases maximumWork) (work, none) with
    | ok out =>
      rw [hfold] at heq
      cases heq
    | error failure =>
      rw [hfold] at heq
      obtain rfl : failure = tieFailure tie := Except.error.inj heq
      exact Or.inr ⟨tie, rfl, rfl⟩

/-! ## Outcomes -/

/-- What `resolve_label` comes out with, whatever names it reports. -/
inductive LabelOutcome where
  | label (terminal : Option TerminalId)
  | ambiguous
  | failed (failure : CompileFailure)
  deriving DecidableEq

/-- The outcome of a call. -/
def labelOutcome (result : Except CompileFailure (ℕ × Option TerminalId)) : LabelOutcome :=
  match result with
  | .ok (_, terminal) => .label terminal
  | .error (.error (.ambiguousPriority _ _ _)) => .ambiguous
  | .error failure => .failed failure

/-- The priority that an ambiguity is reported with. -/
def reportedPriority (result : Except CompileFailure (ℕ × Option TerminalId)) : Option UInt32 :=
  match result with
  | .error (.error (.ambiguousPriority _ _ priority)) => some priority
  | _ => none

variable {aliases : List (Option TerminalMeta)} {accepting : List ℕ} {work maximumWork : ℕ}

/-! ## `collapse_aliases`

The terminals of one group are compared at once, so no order enters. -/

/-- **A unique smallest priority wins its group**, whatever else ties. -/
theorem collapseGroup_of_uniqueMinimum {group : List TerminalMeta} {terminal : TerminalMeta}
    (h : UniqueMinimum TerminalMeta.key terminal group) :
    collapseGroup group = .ok (some terminal) := by
  have hne : group ≠ [] := List.ne_nil_of_mem h.mem
  obtain ⟨hlt, hle, -⟩ := (List.minIdxOn_eq_iff hne).mp
    (rfl : group.minIdxOn TerminalMeta.priority hne = _)
  generalize hindex : group.minIdxOn TerminalMeta.priority hne = winnerIndex at hlt hle
  have hsmallest : group[winnerIndex].key ≤ terminal.key := by
    obtain ⟨j, hj, hget⟩ := List.getElem_of_mem h.mem
    have hj' := hle j hj
    rw [hget] at hj'
    exact UInt32.le_iff_toNat_le.mp hj'
  have hkey : group[winnerIndex].key = terminal.key :=
    le_antisymm hsmallest (h.le _ (List.getElem_mem hlt))
  have hunique : UniqueMinimum TerminalMeta.key group[winnerIndex] group := by
    refine ⟨List.getElem_mem hlt, fun z hz => ?_, ?_⟩
    · rw [hkey]
      exact h.le z hz
    · rw [hkey]
      exact h.once
  have hwinner : group[winnerIndex] = terminal := hunique.unique h
  have htied : (group.zipIdx.find? fun (t, index) =>
      index ≠ winnerIndex ∧ t.priority = terminal.priority) = none := by
    refine List.find?_eq_none.mpr ?_
    rintro ⟨tied, index⟩ hmem htie
    obtain ⟨hne', hpriority⟩ := of_decide_eq_true htie
    obtain ⟨hindex', hget⟩ := List.getElem?_eq_some_iff.mp (List.mem_zipIdx_iff_getElem?.mp hmem)
    refine hne' (h.place_unique hindex' hlt ?_ hkey)
    rw [hget]
    exact congrArg UInt32.toNat hpriority
  unfold collapseGroup
  rw [List.minIdxOn?_eq_some_minIdxOn hne, hindex]
  show (indexAt group winnerIndex).bind _ = _
  rw [indexAt, List.getElem?_eq_getElem hlt, hwinner]
  simp only [Except.bind, htied]
  rfl

/-! ## Orders -/

theorem acceptingTerminals_perm (aliases : List (Option TerminalMeta)) {order : List ℕ}
    (h : order.Perm accepting) :
    (acceptingTerminals aliases order).Perm (acceptingTerminals aliases accepting) :=
  h.filterMap _

theorem outcome_cases (hin : ∀ index ∈ accepting, index < aliases.length)
    (hwork : work + (acceptingTerminals aliases accepting).length ≤ maximumWork) {order : List ℕ}
    (horder : order.Perm accepting) :
    (∃ winner, run TerminalMeta.key (acceptingTerminals aliases order) = .ok winner ∧
      labelOutcome (resolveLabel aliases order work maximumWork) =
        .label (winner.map TerminalMeta.terminal) ∧
      reportedPriority (resolveLabel aliases order work maximumWork) = none) ∨
    ∃ first second,
      run TerminalMeta.key (acceptingTerminals aliases order) = .error (first, second) ∧
      labelOutcome (resolveLabel aliases order work maximumWork) = .ambiguous ∧
      reportedPriority (resolveLabel aliases order work maximumWork) = some second.priority := by
  have hin' : ∀ index ∈ order, index < aliases.length :=
    fun index hindex => hin index (horder.mem_iff.mp hindex)
  have hwork' : work + (acceptingTerminals aliases order).length ≤ maximumWork := by
    rw [(acceptingTerminals_perm aliases horder).length_eq]
    exact hwork
  rcases resolveLabel_cases hin' hwork' with ⟨winner, work', hrun, hresult⟩ | ⟨tie, hrun, hresult⟩
  · exact Or.inl ⟨winner, hrun, by rw [hresult]; rfl, by rw [hresult]; rfl⟩
  · exact Or.inr ⟨tie.1, tie.2, hrun, by rw [hresult]; rfl, by rw [hresult]; rfl⟩

/-- Every order of a list without ties above its unique minimum finds that minimum. -/
theorem outcome_of_uniqueMinimum (hin : ∀ index ∈ accepting, index < aliases.length)
    (hwork : work + (acceptingTerminals aliases accepting).length ≤ maximumWork) {order : List ℕ}
    (horder : order.Perm accepting) {terminal : TerminalMeta}
    (h : UniqueMinimum TerminalMeta.key terminal (acceptingTerminals aliases accepting))
    (hno : ¬TieAbove TerminalMeta.key (acceptingTerminals aliases accepting)) :
    labelOutcome (resolveLabel aliases order work maximumWork) = .label (some terminal.terminal) ∧
      reportedPriority (resolveLabel aliases order work maximumWork) = none := by
  have hperm := acceptingTerminals_perm aliases horder
  have hrun := (h.perm hperm).run_eq fun htie => hno (htie.perm hperm.symm)
  rcases outcome_cases hin hwork horder with ⟨winner, hrun', hlabel, hnone⟩ | ⟨_, _, hrun', -⟩
  · rw [hrun] at hrun'
    obtain rfl : some terminal = winner := Except.ok.inj hrun'
    exact ⟨hlabel, hnone⟩
  · rw [hrun] at hrun'
    cases hrun'

/-- Every order of a list without a unique minimum is refused. -/
theorem outcome_of_not_uniqueMinimum (hin : ∀ index ∈ accepting, index < aliases.length)
    (hwork : work + (acceptingTerminals aliases accepting).length ≤ maximumWork) {order : List ℕ}
    (horder : order.Perm accepting) (hne : acceptingTerminals aliases accepting ≠ [])
    (h : ∀ terminal,
      ¬UniqueMinimum TerminalMeta.key terminal (acceptingTerminals aliases accepting)) :
    ∃ first second,
      run TerminalMeta.key (acceptingTerminals aliases order) = .error (first, second) ∧
      labelOutcome (resolveLabel aliases order work maximumWork) = .ambiguous ∧
      reportedPriority (resolveLabel aliases order work maximumWork) = some second.priority := by
  have hperm := acceptingTerminals_perm aliases horder
  have hne' : acceptingTerminals aliases order ≠ [] := fun hnil => hne (by
    rw [hnil] at hperm
    exact hperm.nil_eq.symm)
  obtain ⟨a, b, herror⟩ := run_error_of_not_unique hne' fun t ht => h t (ht.perm hperm.symm)
  rcases outcome_cases hin hwork horder with ⟨_, hrun, -⟩ | hrefused
  · rw [herror] at hrun
    cases hrun
  · exact hrefused

/-- Without a unique minimum all orders come out alike, and without ties above the minimum
they report one priority. -/
theorem outcome_perm_of_not_uniqueMinimum (hin : ∀ index ∈ accepting, index < aliases.length)
    (hwork : work + (acceptingTerminals aliases accepting).length ≤ maximumWork) {order : List ℕ}
    (horder : order.Perm accepting)
    (h : ∀ terminal,
      ¬UniqueMinimum TerminalMeta.key terminal (acceptingTerminals aliases accepting)) :
    labelOutcome (resolveLabel aliases order work maximumWork) =
        labelOutcome (resolveLabel aliases accepting work maximumWork) ∧
      (¬TieAbove TerminalMeta.key (acceptingTerminals aliases accepting) →
        reportedPriority (resolveLabel aliases order work maximumWork) =
          reportedPriority (resolveLabel aliases accepting work maximumWork)) := by
  have hself : accepting.Perm accepting := .refl accepting
  have hperm := acceptingTerminals_perm aliases horder
  by_cases hne : acceptingTerminals aliases accepting = []
  · have hnil : acceptingTerminals aliases order = [] := by
      rw [hne] at hperm
      exact hperm.eq_nil
    rcases outcome_cases hin hwork horder with ⟨winner, hok, hlabel, hnone⟩ | ⟨_, _, herror, -⟩
    · rcases outcome_cases hin hwork hself with ⟨winner', hok', hlabel', hnone'⟩ | ⟨_, _, herror, -⟩
      · rw [hnil] at hok
        rw [hne] at hok'
        rw [hlabel, hlabel', hnone, hnone', ← Except.ok.inj hok, ← Except.ok.inj hok']
        exact ⟨rfl, fun _ => rfl⟩
      · rw [hne] at herror
        cases herror
    · rw [hnil] at herror
      cases herror
  · obtain ⟨a, b, hrun, hlabel, hpriority⟩ := outcome_of_not_uniqueMinimum hin hwork horder hne h
    obtain ⟨a', b', hrun', hlabel', hpriority'⟩ :=
      outcome_of_not_uniqueMinimum hin hwork hself hne h
    refine ⟨by rw [hlabel, hlabel'], fun hno => ?_⟩
    have hno' : ¬TieAbove TerminalMeta.key (acceptingTerminals aliases order) :=
      fun htie => hno (htie.perm hperm.symm)
    -- both ties are ties of the smallest priority
    obtain ⟨z, hz, hkey⟩ := exists_mem_of_run_error hrun
    obtain ⟨z', hz', hkey'⟩ := exists_mem_of_run_error hrun'
    have hle : b.key ≤ b'.key := hkey' ▸ le_of_run_error hrun hno' z' (hperm.mem_iff.mpr hz')
    have hge : b'.key ≤ b.key := hkey ▸ le_of_run_error hrun' hno z (hperm.mem_iff.mp hz)
    rw [hpriority, hpriority', UInt32.toNat_inj.mp (le_antisymm hle hge)]

theorem exists_order_ambiguous (hin : ∀ index ∈ accepting, index < aliases.length)
    (hwork : work + (acceptingTerminals aliases accepting).length ≤ maximumWork) {k : ℕ}
    (h : 2 ≤ ((acceptingTerminals aliases accepting).map TerminalMeta.key).count k) :
    ∃ order : List ℕ, order.Perm accepting ∧
      labelOutcome (resolveLabel aliases order work maximumWork) = .ambiguous ∧
      ∃ priority, priority.toNat = k ∧
        reportedPriority (resolveLabel aliases order work maximumWork) = some priority := by
  obtain ⟨terminals, a, b, hperm, hrun, hkey⟩ := exists_perm_error h
  obtain ⟨order, horder, hfilter⟩ := exists_perm_filterMap hperm
  refine ⟨order, horder, ?_⟩
  have hrun' : run TerminalMeta.key (acceptingTerminals aliases order) = .error (a, b) := by
    rw [acceptingTerminals, hfilter]
    exact hrun
  rcases outcome_cases hin hwork horder with ⟨_, hok, -⟩ | ⟨_, _, herror, hlabel, hpriority⟩
  · rw [hrun'] at hok
    cases hok
  · rw [hrun'] at herror
    obtain ⟨rfl, rfl⟩ := Prod.mk.inj (Except.error.inj herror)
    exact ⟨hlabel, b.priority, hkey, hpriority⟩

theorem exists_order_label (hin : ∀ index ∈ accepting, index < aliases.length)
    (hwork : work + (acceptingTerminals aliases accepting).length ≤ maximumWork)
    {terminal : TerminalMeta}
    (h : UniqueMinimum TerminalMeta.key terminal (acceptingTerminals aliases accepting)) :
    ∃ order : List ℕ, order.Perm accepting ∧
      labelOutcome (resolveLabel aliases order work maximumWork) =
        .label (some terminal.terminal) := by
  obtain ⟨terminals, hperm, hrun⟩ := exists_perm_ok h
  obtain ⟨order, horder, hfilter⟩ := exists_perm_filterMap hperm
  refine ⟨order, horder, ?_⟩
  have hrun' : run TerminalMeta.key (acceptingTerminals aliases order) = .ok (some terminal) := by
    rw [acceptingTerminals, hfilter]
    exact hrun
  rcases outcome_cases hin hwork horder with ⟨winner, hok, hlabel, -⟩ | ⟨_, _, herror, -⟩
  · rw [hrun'] at hok
    obtain rfl : some terminal = winner := Except.ok.inj hok
    exact hlabel
  · rw [hrun'] at herror
    cases herror

/-- A tie above a unique minimum is refused in one order and not in another. -/
theorem outcomes_differ (hin : ∀ index ∈ accepting, index < aliases.length)
    (hwork : work + (acceptingTerminals aliases accepting).length ≤ maximumWork)
    {terminal : TerminalMeta}
    (hunique : UniqueMinimum TerminalMeta.key terminal (acceptingTerminals aliases accepting))
    (htie : TieAbove TerminalMeta.key (acceptingTerminals aliases accepting)) :
    ¬∀ order : List ℕ, order.Perm accepting →
      labelOutcome (resolveLabel aliases order work maximumWork) =
        labelOutcome (resolveLabel aliases accepting work maximumWork) := by
  intro hsame
  obtain ⟨k, hcount, -⟩ := htie
  obtain ⟨order, horder, hambiguous, -⟩ := exists_order_ambiguous hin hwork hcount
  obtain ⟨order', horder', hlabel⟩ := exists_order_label hin hwork hunique
  rw [hsame order horder] at hambiguous
  rw [hsame order' horder', hambiguous] at hlabel
  cases hlabel

/-- Without a unique minimum the smallest priority ties as well, and another order reports
it. -/
theorem reports_differ (hin : ∀ index ∈ accepting, index < aliases.length)
    (hwork : work + (acceptingTerminals aliases accepting).length ≤ maximumWork)
    (hnone : ∀ terminal,
      ¬UniqueMinimum TerminalMeta.key terminal (acceptingTerminals aliases accepting))
    (htie : TieAbove TerminalMeta.key (acceptingTerminals aliases accepting)) :
    ¬∀ order : List ℕ, order.Perm accepting →
      reportedPriority (resolveLabel aliases order work maximumWork) =
        reportedPriority (resolveLabel aliases accepting work maximumWork) := by
  intro hsame
  obtain ⟨k, hcount, z, hz, hlt⟩ := htie
  obtain ⟨order, horder, -, priority, hk, hpriority⟩ := exists_order_ambiguous hin hwork hcount
  obtain ⟨m, hm, hle⟩ := exists_le TerminalMeta.key (List.ne_nil_of_mem hz)
  have hpos : 0 < ((acceptingTerminals aliases accepting).map TerminalMeta.key).count m.key :=
    List.count_pos_iff.mpr (List.mem_map_of_mem hm)
  have htwo : 2 ≤ ((acceptingTerminals aliases accepting).map TerminalMeta.key).count m.key := by
    by_contra hone
    exact hnone m ⟨hm, hle, by omega⟩
  obtain ⟨order', horder', -, priority', hk', hpriority'⟩ := exists_order_ambiguous hin hwork htwo
  rw [hsame order horder] at hpriority
  rw [hsame order' horder', hpriority] at hpriority'
  have hsmallest : k = m.key := by
    rw [← hk, ← hk', Option.some_inj.mp hpriority']
  exact absurd (hle z hz) (Nat.not_le.mpr (hsmallest ▸ hlt))

/-- **When the order does not matter.**  The outcome is the same for every order of the
accepting lexemes, and a unique smallest priority wins as it does in `collapse_aliases`,
except where the smallest priority is held once and two terminals tie above it.  Where the
priority of the failure counts as well, no tie above the smallest priority is harmless. -/
theorem resolveLabel_order_iff (hin : ∀ index ∈ accepting, index < aliases.length)
    (hwork : work + (acceptingTerminals aliases accepting).length ≤ maximumWork) :
    (((∀ order : List ℕ, order.Perm accepting →
          labelOutcome (resolveLabel aliases order work maximumWork) =
            labelOutcome (resolveLabel aliases accepting work maximumWork)) ∧
        ∀ terminal,
          UniqueMinimum TerminalMeta.key terminal (acceptingTerminals aliases accepting) →
          labelOutcome (resolveLabel aliases accepting work maximumWork) =
              .label (some terminal.terminal) ∧
            collapseAliases [acceptingTerminals aliases accepting] = .ok [some terminal]) ↔
      ¬((∃ terminal,
          UniqueMinimum TerminalMeta.key terminal (acceptingTerminals aliases accepting)) ∧
        TieAbove TerminalMeta.key (acceptingTerminals aliases accepting))) ∧
    ((∀ order : List ℕ, order.Perm accepting →
        labelOutcome (resolveLabel aliases order work maximumWork) =
            labelOutcome (resolveLabel aliases accepting work maximumWork) ∧
          reportedPriority (resolveLabel aliases order work maximumWork) =
            reportedPriority (resolveLabel aliases accepting work maximumWork)) ↔
      ¬TieAbove TerminalMeta.key (acceptingTerminals aliases accepting)) := by
  have hself : accepting.Perm accepting := .refl accepting
  constructor
  · constructor
    · rintro ⟨hsame, -⟩ ⟨⟨terminal, hunique⟩, htie⟩
      exact outcomes_differ hin hwork hunique htie hsame
    · intro hcondition
      refine ⟨fun order horder => ?_, fun terminal hunique => ?_⟩
      · by_cases hunique : ∃ terminal,
            UniqueMinimum TerminalMeta.key terminal (acceptingTerminals aliases accepting)
        · obtain ⟨terminal, hunique⟩ := hunique
          have hno := fun htie => hcondition ⟨⟨terminal, hunique⟩, htie⟩
          rw [(outcome_of_uniqueMinimum hin hwork horder hunique hno).1,
            (outcome_of_uniqueMinimum hin hwork hself hunique hno).1]
        · have hnone := fun terminal h => hunique ⟨terminal, h⟩
          exact (outcome_perm_of_not_uniqueMinimum hin hwork horder hnone).1
      · have hno := fun htie => hcondition ⟨⟨terminal, hunique⟩, htie⟩
        refine ⟨(outcome_of_uniqueMinimum hin hwork hself hunique hno).1, ?_⟩
        rw [collapseAliases, List.foldlM_cons, collapseGroup_of_uniqueMinimum hunique]
        rfl
  · constructor
    · intro hsame htie
      by_cases hunique : ∃ terminal,
          UniqueMinimum TerminalMeta.key terminal (acceptingTerminals aliases accepting)
      · obtain ⟨terminal, hunique⟩ := hunique
        exact outcomes_differ hin hwork hunique htie fun order horder => (hsame order horder).1
      · have hnone := fun terminal h => hunique ⟨terminal, h⟩
        exact reports_differ hin hwork hnone htie fun order horder => (hsame order horder).2
    · intro hno order horder
      by_cases hunique : ∃ terminal,
          UniqueMinimum TerminalMeta.key terminal (acceptingTerminals aliases accepting)
      · obtain ⟨terminal, hunique⟩ := hunique
        obtain ⟨hlabel, hpriority⟩ := outcome_of_uniqueMinimum hin hwork horder hunique hno
        obtain ⟨hlabel', hpriority'⟩ := outcome_of_uniqueMinimum hin hwork hself hunique hno
        exact ⟨by rw [hlabel, hlabel'], by rw [hpriority, hpriority']⟩
      · have hnone := fun terminal h => hunique ⟨terminal, h⟩
        have hperm := outcome_perm_of_not_uniqueMinimum hin hwork horder hnone
        exact ⟨hperm.1, hperm.2 hno⟩

/-- Two terminals of priority 5 and one of priority 1. -/
def tiedAboveAliases : List (Option TerminalMeta) :=
  [some ⟨"A", 5, 1⟩, some ⟨"B", 5, 2⟩, some ⟨"C", 1, 3⟩]

/-- **A tie above the winner is refused, or not, as the terminals are ordered.** -/
theorem resolveLabel_order_dependent :
    resolveLabel tiedAboveAliases [0, 1, 2] 0 100 =
        .error (.error (.ambiguousPriority "A" "B" 5)) ∧
      resolveLabel tiedAboveAliases [2, 0, 1] 0 100 = .ok (3, some 3) ∧
      collapseAliases [acceptingTerminals tiedAboveAliases [0, 1, 2]] =
        .ok [some ⟨"C", 1, 3⟩] ∧
      ¬((∀ order : List ℕ, order.Perm [0, 1, 2] →
          labelOutcome (resolveLabel tiedAboveAliases order 0 100) =
            labelOutcome (resolveLabel tiedAboveAliases [0, 1, 2] 0 100)) ∧
        ∀ terminal, UniqueMinimum TerminalMeta.key terminal
            (acceptingTerminals tiedAboveAliases [0, 1, 2]) →
          labelOutcome (resolveLabel tiedAboveAliases [0, 1, 2] 0 100) =
            .label (some terminal.terminal)) := by
  refine ⟨by decide, by decide, by decide, fun h => ?_⟩
  exact absurd (h.1 [2, 0, 1] (by decide)) (by decide)

/-- Without the third terminal the ties are ties of the smallest priority: every order
refuses them. -/
theorem resolveLabel_order_iff_two :
    (∀ order : List ℕ, order.Perm [0, 1] →
      labelOutcome (resolveLabel tiedAboveAliases order 0 100) =
        labelOutcome (resolveLabel tiedAboveAliases [0, 1] 0 100)) ∧
    labelOutcome (resolveLabel tiedAboveAliases [0, 1] 0 100) = .ambiguous := by
  have hin : ∀ index ∈ [0, 1], index < tiedAboveAliases.length := by decide
  refine ⟨((@resolveLabel_order_iff tiedAboveAliases [0, 1] 0 100 hin (by decide)).1.mpr ?_).1,
    by decide⟩
  rintro ⟨-, k, hcount, z, hz, hlt⟩
  have hk : k ∈ (acceptingTerminals tiedAboveAliases [0, 1]).map TerminalMeta.key :=
    List.count_pos_iff.mp (by omega)
  have hfive : ∀ z ∈ acceptingTerminals tiedAboveAliases [0, 1], z.key = 5 := by decide
  obtain ⟨y, hy, rfl⟩ := List.mem_map.mp hk
  rw [hfive y hy, hfive z hz] at hlt
  exact absurd hlt (by decide)

end GreatGramma
