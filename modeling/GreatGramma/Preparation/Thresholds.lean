import GreatGramma.Engine.Heads
import GreatGramma.Library.Metering
import GreatGramma.Preparation.SymbolicWork

/-!
# Limits are thresholds

Preparation compares totals with two limits: item counts with one, and the work done so far with
the other.  It reads the limits for nothing else.  So a grammar that can be prepared at all has a
number for each limit, and preparation goes through just when both limits reach them; what it
builds is then always the same.

## Gates and meters

Two notions of the library carry the argument.  An item count is *gated*: it is compared and
forgotten.  Work is *metered*: it is added up, and every sum is compared.  `Prepares` says of a
part of preparation that it is gated by both limits and metered for work, over values that hold
the maximum of a budget and over the work that is used before it.  There is one lemma for each
function of preparation, and it follows how the function is written: `bind` for its sequences,
`foldlM` for its loops, `charge` and `checkItems` where it looks at a limit.

## The parser phase

The work needed is the work done, with one exception.  The parser phase runs symbolically under
what is left of the budget, and charges what a run has counted; a run that stops has counted more
than what is left, so charging its count is refused (`Preparation.SymbolicWork`).  What a head
takes of a budget that has it is therefore the same for every budget
(`classifySequenceHeadWithBudget_cases`).

## Two phases

The threshold for work of the whole is that of the two phases together, and each phase by itself
needs its own: a part that goes through with some work used goes through with less used, and
takes the same amount (`Lowers`, `prepareParserWithBudget_alone`).
-/

namespace GreatGramma

open Metering Reservation Traversal

theorem WorkBudget.charge_of_fits {used amount : ℕ} (hfits : used + amount ≤ usizeMax)
    (maximum : ℕ) :
    WorkBudget.charge ⟨used, maximum⟩ amount =
      if used + amount > maximum then .error (.tooLarge (used + amount) maximum)
      else .ok ⟨used + amount, maximum⟩ := by
  simp only [WorkBudget.charge, checkedAdd, if_pos hfits, checkLimit]
  split_ifs <;> rfl

theorem WorkBudget.charge_of_not_fits {used amount : ℕ} (hfits : ¬used + amount ≤ usizeMax)
    (maximum : ℕ) :
    WorkBudget.charge ⟨used, maximum⟩ amount = .error (.tooLarge usizeMax maximum) := by
  simp only [WorkBudget.charge, checkedAdd, if_neg hfits, checkLimit]
  rfl

/-- The two limits of preparation. -/
inductive PreparationLimit where
  | items
  | work
  deriving DecidableEq

def PreparationLimits.of (limits : PreparationLimit → ℕ) : PreparationLimits :=
  ⟨limits .items, limits .work⟩

def PreparationLimits.kinds (limits : PreparationLimits) : PreparationLimit → ℕ
  | .items => limits.maxItems
  | .work => limits.maxWork

/-- It fails on a limit, and says by how much. -/
def FailsOnLimits {σ : Type} (limits : PreparationLimits) (result : Except PreparationError σ) :
    Prop :=
  (∃ required > limits.maxItems, result = .error (.tooLarge required limits.maxItems)) ∨
    ∃ required > limits.maxWork, result = .error (.tooLarge required limits.maxWork)

theorem FailsOnLimits.bind {σ σ' : Type} {limits : PreparationLimits}
    {result : Except PreparationError σ} (h : FailsOnLimits limits result)
    (next : σ → Except PreparationError σ') : FailsOnLimits limits (result >>= next) := by
  rcases h with ⟨required, hlt, rfl⟩ | ⟨required, hlt, rfl⟩
  · exact Or.inl ⟨required, hlt, rfl⟩
  · exact Or.inr ⟨required, hlt, rfl⟩

theorem FailsOnLimits.ne_ok {σ : Type} {limits : PreparationLimits} {s : σ}
    (h : FailsOnLimits limits (.ok s)) : False := by
  rcases h with ⟨_, -, h⟩ | ⟨_, -, h⟩ <;> cases h

/-- A part of preparation, gated by the limits and metered for work: `value` puts the
maximum back into what it returns, and `start` is used before it. -/
def Prepares {σ τ : Type} (value : ℕ → τ → σ) (meter : τ → ℕ) (start : ℕ)
    (f : PreparationLimits → Except PreparationError σ) : Prop :=
  Metered (fun _ required maximum e => e = .tooLarge required maximum)
    (fun limits (failure : (PreparationLimit → ℕ) → PreparationError) => failure limits)
    (fun limits => value (limits .work)) PreparationLimit.work meter start
    fun limits => f (.of limits)

namespace Prepares

variable {σ σ' τ τ' ι : Type} {value : ℕ → τ → σ} {value' : ℕ → τ' → σ'} {meter : τ → ℕ}
  {meter' : τ' → ℕ} {start : ℕ} {f : PreparationLimits → Except PreparationError σ}

theorem fails (h : ∀ limits, ∃ e, f limits = .error e) : Prepares value meter start f := by
  choose failure hfailure using h
  have herror : (fun limits : PreparationLimit → ℕ => f (.of limits)) =
      fun limits => .error (failure (.of limits)) := funext fun limits => hfailure (.of limits)
  unfold Prepares
  rw [herror]
  exact Metered.error fun limits => failure (.of limits)

theorem pass (t : τ) (h : ∀ limits, f limits = .ok (value limits.maxWork t))
    (hmeter : meter t = start) : Prepares value meter start f := by
  have hok : (fun limits : PreparationLimit → ℕ => f (.of limits)) =
      fun limits => .ok (value (limits .work) t) := funext fun limits => h (.of limits)
  unfold Prepares
  rw [hok]
  exact Metered.ok t hmeter

theorem const (result : Except PreparationError σ) :
    Prepares (fun _ x => x) (fun _ => start) start fun _ => result := by
  cases result with
  | error e => exact .fails fun _ => ⟨e, rfl⟩
  | ok x => exact .pass x (fun _ => rfl) rfl

theorem bind {g : PreparationLimits → σ → Except PreparationError σ'}
    (hf : Prepares value meter start f)
    (hg : ∀ t, (∃ limits : PreparationLimits, f limits = .ok (value limits.maxWork t)) →
      Prepares value' meter' (meter t) fun limits => g limits (value limits.maxWork t)) :
    Prepares value' meter' start fun limits => f limits >>= g limits :=
  Metered.bind (g := fun limits => g (.of limits)) hf fun t ⟨limits, h⟩ => hg t ⟨.of limits, h⟩

theorem foldlM {body : PreparationLimits → σ → ι → Except PreparationError σ} {l : List ι}
    (hbody : ∀ x ∈ l, ∀ t, Prepares value meter (meter t) fun limits =>
      body limits (value limits.maxWork t) x) (t : τ) :
    Prepares value meter (meter t) fun limits => l.foldlM (body limits) (value limits.maxWork t) :=
  by
  exact @Metered.foldlM PreparationLimit _ _ _ _ _ _ _ _ _ _ (fun limits => body (.of limits)) l
    hbody t

theorem checkItems (required : Option ℕ) :
    Prepares (fun _ n => n) (fun _ => start) start fun limits => checkItems required limits := by
  cases required with
  | none => exact .fails fun limits => ⟨.tooLarge usizeMax limits.maxItems, rfl⟩
  | some required =>
    refine ⟨_, .ok required, .of_check PreparationLimit.items required (fun limits hle => ?_)
      fun limits hlt => ?_, fun t ht => ?_⟩
    · exact if_neg (Nat.not_lt.mpr hle)
    · exact ⟨required, _, hlt, le_rfl, rfl, if_pos hlt⟩
    · exact ⟨le_rfl, Nat.zero_le _, le_max_left _ _⟩

theorem spends {amount : ℕ} (t : τ) (hmeter : meter t = start + amount)
    (hok : ∀ limits : PreparationLimits, start + amount ≤ limits.maxWork →
      f limits = .ok (value limits.maxWork t))
    (hshort : ∀ limits : PreparationLimits, limits.maxWork < start + amount →
      ∃ required, limits.maxWork < required ∧ required ≤ start + amount ∧
        f limits = .error (.tooLarge required limits.maxWork)) :
    Prepares value meter start f := by
  refine ⟨_, .ok t, .of_check PreparationLimit.work (start + amount)
    (fun limits => hok (.of limits)) fun limits hlt => ?_, fun t' ht => ?_⟩
  · obtain ⟨required, hpast, hwithin, herror⟩ := hshort (.of limits) hlt
    exact ⟨required, _, hpast, hwithin, rfl, herror⟩
  · obtain rfl := Except.ok.inj ht
    rw [hmeter, Function.update_self]
    exact ⟨Nat.le_add_right start amount, le_rfl, le_max_right _ _⟩

theorem charge (used amount : ℕ) :
    Prepares (fun maximum used => (⟨used, maximum⟩ : WorkBudget)) id used fun limits =>
      WorkBudget.charge ⟨used, limits.maxWork⟩ amount := by
  by_cases hfits : used + amount ≤ usizeMax
  · refine .spends (used + amount) rfl (fun limits hle => ?_) fun limits hlt => ?_
    · exact (WorkBudget.charge_of_fits hfits _).trans (if_neg (Nat.not_lt.mpr hle))
    · refine ⟨used + amount, hlt, le_rfl, ?_⟩
      exact (WorkBudget.charge_of_fits hfits _).trans (if_pos hlt)
  · exact .fails fun limits => ⟨_, WorkBudget.charge_of_not_fits hfits limits.maxWork⟩

end Prepares

/-- A budget, and what comes with it. -/
def budgetFst {α : Type} (maximum : ℕ) (t : ℕ × α) : WorkBudget × α := (⟨t.1, maximum⟩, t.2)

def budgetSnd {α : Type} (maximum : ℕ) (t : α × ℕ) : α × WorkBudget := (t.1, ⟨t.2, maximum⟩)

/-! ## The token table -/

theorem prepares_appendTokenCell (grammar : ValidatedGrammar) (source : LexerState)
    (tokenIndex used emittedItems : ℕ) (row : List (Option TokenExecution)) :
    Prepares budgetFst Prod.fst used fun limits =>
      appendTokenCell grammar source tokenIndex limits ⟨used, limits.maxWork⟩ emittedItems row := by
  rcases htoken : u32TryFrom tokenIndex with _ | token
  · simp only [appendTokenCell, htoken]
    exact .fails fun _ => ⟨_, rfl⟩
  rcases hentry : grammar.token token with _ | entry
  · simp only [appendTokenCell, htoken, hentry]
    exact .fails fun _ => ⟨_, rfl⟩
  have hrest : ∀ amount, Prepares budgetFst Prod.fst used fun limits => do
      let work ← WorkBudget.charge ⟨used, limits.maxWork⟩ amount
      let execution ← (executeEntry grammar source entry).mapError preparationTokenError
      let emittedItems ← checkItems (checkedAdd emittedItems (emittedLength execution)) limits
      return (work, emittedItems, row ++ [execution]) := by
    intro amount
    refine .bind (.charge used amount) fun used' _ => .bind (.const _) fun execution _ => ?_
    refine .bind (.checkItems _) fun emittedItems' _ => ?_
    exact .pass (used', emittedItems', row ++ [execution]) (fun _ => rfl) rfl
  cases entry with
  | bytes bytes =>
    simp only [appendTokenCell, htoken, hentry]
    exact .bind (.checkItems _) fun amount _ => hrest amount
  | eos =>
    simp only [appendTokenCell, htoken, hentry]
    exact hrest 1

theorem prepares_buildTokenRow (grammar : ValidatedGrammar) (source : LexerState)
    (tokenCount used emittedItems : ℕ) :
    Prepares budgetFst Prod.fst used fun limits =>
      buildTokenRow grammar source tokenCount limits ⟨used, limits.maxWork⟩ emittedItems :=
  .foldlM (fun tokenIndex _ t =>
    prepares_appendTokenCell grammar source tokenIndex t.1 t.2.1 t.2.2) (used, emittedItems, [])

theorem prepares_prepareTokenTable (grammar : ValidatedGrammar) (used : ℕ) :
    Prepares budgetFst Prod.fst used fun limits =>
      prepareTokenTable grammar limits ⟨used, limits.maxWork⟩ := by
  refine .bind (.const _) fun sources _ => .bind (.checkItems _) fun cells _ => ?_
  refine .bind (.charge used cells) fun used' _ => ?_
  refine .bind (?_ : Prepares budgetFst Prod.fst used' _) fun t _ =>
    .pass (t.1, ⟨t.2.2⟩) (fun _ => rfl) rfl
  refine .foldlM (fun sourceIndex _ t => ?_) (used', 0, [])
  refine .bind (?_ : Prepares budgetFst Prod.fst t.1 _) fun t' _ =>
    .pass (t'.1, t'.2.1, t.2.2 ++ [t'.2.2]) (fun _ => rfl) rfl
  rcases hsource : sourceAt sourceIndex with _ | source
  · simp only [buildTokenTableRow, hsource]
    exact .fails fun _ => ⟨_, rfl⟩
  · simp only [buildTokenTableRow, hsource]
    exact prepares_buildTokenRow grammar source _ t.1 t.2.1

/-! ## The singletons -/

/-- A scan, with the maximum put back. -/
def Scan.of (maximum : ℕ) (t : (Facts × List (List ℕ)) × ℕ) : Scan :=
  ⟨t.1.1, t.1.2, ⟨t.2, maximum⟩⟩

def scanFst {α : Type} (maximum : ℕ) (t : ((Facts × List (List ℕ)) × ℕ) × α) : Scan × α :=
  (Scan.of maximum t.1, t.2)

theorem prepares_scanByte (grammar : ValidatedGrammar) (lexerSource : LexerState)
    (byte source terminalCount : ℕ) (t : ((Facts × List (List ℕ)) × ℕ) × List ℕ) :
    Prepares scanFst (fun t => t.1.2) t.1.2 fun limits =>
      scanByte grammar lexerSource byte source terminalCount (Scan.of limits.maxWork t.1) t.2 := by
  by_cases hbyte : byte ≥ 256
  · simp only [scanByte, if_pos hbyte]
    exact .fails fun _ => ⟨_, rfl⟩
  rcases hstep : lexerStep grammar lexerSource (.byte (UInt8.ofNat byte)) with e | next
  · cases e with
    | invalidState state =>
      simp only [scanByte, if_neg hbyte, hstep]
      exact .fails fun _ => ⟨_, rfl⟩
    | cannotBeginLexeme symbol =>
      simp only [scanByte, if_neg hbyte, hstep]
      exact .pass t (fun _ => rfl) rfl
    | byteAfterUnfinishedResidual state byte =>
      simp only [scanByte, if_neg hbyte, hstep]
      exact .pass t (fun _ => rfl) rfl
    | eosAfterUnfinishedResidual state =>
      simp only [scanByte, if_neg hbyte, hstep]
      exact .pass t (fun _ => rfl) rfl
  rcases next with ⟨destination, _ | terminal⟩ | ⟨terminal, eof⟩
  · rcases hindex : sourceIndex grammar destination with _ | index
    · simp only [scanByte, if_neg hbyte, hstep, hindex]
      exact .fails fun _ => ⟨_, rfl⟩
    · simp only [scanByte, if_neg hbyte, hstep, hindex]
      refine .bind (.charge t.1.2 t.2.length) fun used' _ => ?_
      split_ifs
      · exact .pass ((t.1.1, used'), t.2) (fun _ => rfl) rfl
      · refine .bind (.const (appendPredecessor t.1.1.2 index source)) fun predecessors _ => ?_
        exact .pass (((t.1.1.1, predecessors), used'), t.2 ++ [index]) (fun _ => rfl) rfl
  · simp only [scanByte, if_neg hbyte, hstep]
    refine .bind (.const (addFact t.1.1.1 source terminal terminalCount)) fun known _ => ?_
    exact .pass (((known, t.1.1.2), t.1.2), t.2) (fun _ => rfl) rfl
  · simp only [scanByte, if_neg hbyte, hstep]
    exact .pass t (fun _ => rfl) rfl

theorem prepares_scanSource (grammar : ValidatedGrammar) (source terminalCount : ℕ)
    (t : (Facts × List (List ℕ)) × ℕ) :
    Prepares Scan.of Prod.snd t.2 fun limits =>
      scanSource grammar source terminalCount (Scan.of limits.maxWork t) := by
  rcases hsource : sourceAt source with _ | lexerSource
  · simp only [scanSource, hsource]
    exact .fails fun _ => ⟨_, rfl⟩
  · simp only [scanSource, hsource]
    refine .bind (.const (scanLabel grammar lexerSource source terminalCount t.1.1))
      fun known _ => ?_
    refine .bind (?_ : Prepares scanFst (fun t => t.1.2)
      t.2 _) fun t' _ => .pass t'.1 (fun _ => rfl) rfl
    exact .foldlM
      (fun byte _ t => prepares_scanByte grammar lexerSource byte source terminalCount t)
      (((known, t.1.2), t.2), [])

theorem prepares_propagateFact (predecessors : List (List ℕ)) (known : Facts) (fact : Fact)
    (terminalCount used : ℕ) :
    Prepares budgetSnd Prod.snd used fun limits =>
      propagateFact predecessors known fact terminalCount ⟨used, limits.maxWork⟩ := by
  rcases hrow : predecessors[fact.source]? with _ | row
  · simp only [propagateFact, hrow]
    exact .fails fun _ => ⟨_, rfl⟩
  · simp only [propagateFact, hrow]
    refine .bind (.charge used row.length) fun used' _ => .bind (.const _) fun known' _ => ?_
    exact .pass (known', used') (fun _ => rfl) rfl

theorem propagateFactsFrom_of_lt (predecessors : List (List ℕ)) (terminalCount : ℕ)
    {known : Facts} (work : WorkBudget) {cursor : ℕ} (hcursor : cursor < known.facts.length) :
    propagateFactsFrom predecessors terminalCount known work cursor =
      propagateFact predecessors known known.facts[cursor] terminalCount work >>= fun state =>
        propagateFactsFrom predecessors terminalCount state.1 state.2 (cursor + 1) := by
  rw [propagateFactsFrom, dif_pos hcursor]
  split
  · simp only [*]
    rfl
  · simp only [*]
    rfl

theorem prepares_propagateFactsFrom (predecessors : List (List ℕ)) (terminalCount : ℕ)
    (known : Facts) (used cursor : ℕ) :
    Prepares budgetSnd Prod.snd used fun limits =>
      propagateFactsFrom predecessors terminalCount known ⟨used, limits.maxWork⟩ cursor := by
  generalize hleft : known.size - cursor = left
  induction left using Nat.strong_induction_on generalizing known used cursor with
  | _ left ih =>
    subst hleft
    by_cases hcursor : cursor < known.facts.length
    · simp only [propagateFactsFrom_of_lt _ _ _ hcursor]
      refine .bind (prepares_propagateFact predecessors known _ terminalCount used) ?_
      rintro ⟨known', used'⟩ ⟨limits, hstep⟩
      refine ih _ ?_ known' used' (cursor + 1) rfl
      rw [propagateFact_size hstep]
      have hsize : cursor < known.size := hcursor.trans_le (Nat.le_add_left _ _)
      omega
    · refine .pass (known, used) (fun limits => ?_) rfl
      rw [propagateFactsFrom, dif_neg hcursor]
      rfl

theorem prepares_buildSingletons (grammar : ValidatedGrammar) (used : ℕ) :
    Prepares budgetFst Prod.fst used fun limits =>
      buildSingletons grammar limits ⟨used, limits.maxWork⟩ := by
  refine .bind (.const _) fun sources _ => .bind (.checkItems _) fun factCells _ => ?_
  refine .bind (.checkItems _) fun byteSteps _ => .bind (.charge used byteSteps) fun used₁ _ => ?_
  refine .bind (?_ : Prepares Scan.of Prod.snd used₁ _) fun t _ => ?_
  · exact .foldlM (fun source _ t => prepares_scanSource grammar source _ t)
      ((⟨List.replicate factCells 0, []⟩, List.replicate sources []), used₁)
  refine .bind (prepares_propagateFactsFrom _ _ _ t.2 0) fun t' _ => ?_
  refine .bind (?_ : Prepares budgetFst Prod.fst t'.2 _) fun t'' _ =>
    .pass (t''.1, ⟨t''.2, [], 0⟩) (fun _ => rfl) rfl
  refine .foldlM (fun source _ t => ?_) (t'.2, [])
  refine .bind (?_ : Prepares budgetFst Prod.fst t.1 _) fun t₁ _ =>
    .pass (t₁.1, t.2 ++ [t₁.2]) (fun _ => rfl) rfl
  refine .bind (.charge t.1 _) fun used' _ => .bind (.const _) fun row _ => ?_
  exact .pass (used', row) (fun _ => rfl) rfl

/-! ## The heads -/

theorem prepares_findSequenceFrom (head : List TerminalId) (headLen index : ℕ)
    (sequences : List (List TerminalId)) (used : ℕ) :
    Prepares budgetFst Prod.fst used fun limits =>
      findSequenceFrom head headLen index sequences ⟨used, limits.maxWork⟩ := by
  induction sequences generalizing index used with
  | nil => exact .pass (used, none) (fun _ => rfl) rfl
  | cons sequence sequences ih =>
    refine .bind (.charge used headLen) fun used' _ => ?_
    split_ifs
    · exact .pass (used', some index) (fun _ => rfl) rfl
    · exact ih (index + 1) used'

theorem prepares_internHead (table : SequenceTable) (direct : List TerminalId)
    (continuation : TerminalId) (used : ℕ) :
    Prepares (fun maximum (t : (SequenceTable × SequenceId) × ℕ) =>
        (t.1.1, (⟨t.2, maximum⟩ : WorkBudget), t.1.2)) Prod.snd used fun limits =>
      table.internHead direct continuation limits ⟨used, limits.maxWork⟩ := by
  refine .bind (.checkItems _) fun headLen _ => .bind (.charge used direct.length) fun used₁ _ => ?_
  refine .bind (prepares_findSequenceFrom _ headLen 0 table.sequences used₁) ?_
  rintro ⟨used₂, _ | index⟩ -
  · refine .bind (.checkItems _) fun _ _ => .bind (.const _) fun sequence _ => ?_
    refine .bind (.checkItems _) fun sequenceItems _ => ?_
    exact .pass (({ table with
      sequences := table.sequences ++ [direct ++ [continuation]], sequenceItems }, sequence), used₂)
      (fun _ => rfl) rfl
  · refine .bind (.const _) fun sequence _ => ?_
    exact .pass ((table, sequence), used₂) (fun _ => rfl) rfl

theorem prepares_appendMember (row : List InverseBucket) (sequence : SequenceId)
    (token : TokenId) (used : ℕ) :
    Prepares budgetSnd Prod.snd used fun limits =>
      appendMember row sequence token limits ⟨used, limits.maxWork⟩ := by
  refine .bind (.charge used row.length) fun used' _ => ?_
  rcases bucketIndex row sequence with _ | index
  · refine .bind (.checkItems _) fun _ _ => ?_
    exact .pass (row ++ [⟨sequence, [token]⟩], used') (fun _ => rfl) rfl
  · rcases hentry : row[index]? with _ | entry
    · simp only [hentry]
      exact .fails fun _ => ⟨_, rfl⟩
    · simp only [hentry]
      refine .bind (.checkItems _) fun _ _ => .bind (.const _) fun row' _ => ?_
      exact .pass (row', used') (fun _ => rfl) rfl

/-! ## The buckets -/

/-- A row being built, with the maximum put back. -/
def RowBuild.of (maximum : ℕ) (t : (SequenceTable × List InverseBucket) × ℕ) : RowBuild :=
  ⟨t.1.1, t.1.2, ⟨t.2, maximum⟩⟩

def rowBuildFst {α : Type} (maximum : ℕ) (t : ((SequenceTable × List InverseBucket) × ℕ) × α) :
    RowBuild × α := (RowBuild.of maximum t.1, t.2)

theorem prepares_appendContinuation (destination singleton : ℕ) (emitted : List TerminalId)
    (token : TokenId) (t : (SequenceTable × List InverseBucket) × ℕ) :
    Prepares RowBuild.of Prod.snd t.2 fun limits =>
      appendContinuation destination singleton emitted token limits
        (RowBuild.of limits.maxWork t) := by
  refine .bind (.charge t.2 1) fun used₁ _ => ?_
  rcases hterminal : t.1.1.singletonTerminal destination singleton with _ | continuation
  · refine .fails fun limits => ⟨.invariantViolation, ?_⟩
    simp only [RowBuild.of, hterminal]
    rfl
  · have hstep : Prepares RowBuild.of Prod.snd used₁ fun limits => do
        let head ← t.1.1.internHead emitted continuation limits ⟨used₁, limits.maxWork⟩
        let member ← appendMember t.1.2 head.2.2 token limits head.2.1
        return ⟨head.1, member.1, member.2⟩ := by
      refine .bind (prepares_internHead t.1.1 emitted continuation used₁) fun t₁ _ => ?_
      refine .bind (prepares_appendMember t.1.2 t₁.1.2 token t₁.2) fun t₂ _ => ?_
      exact .pass ((t₁.1.1, t₂.1), t₂.2) (fun _ => rfl) rfl
    simp only [RowBuild.of, hterminal]
    exact hstep

theorem prepares_appendContinuations (destination : ℕ) (emitted : List TerminalId)
    (token : TokenId) (t : (SequenceTable × List InverseBucket) × ℕ) :
    Prepares RowBuild.of Prod.snd t.2 fun limits =>
      appendContinuations destination emitted token limits (RowBuild.of limits.maxWork t) := by
  rcases hcount : t.1.1.singletonCount destination with _ | singletonCount
  · refine .fails fun limits => ⟨.invariantViolation, ?_⟩
    simp only [appendContinuations, RowBuild.of, hcount]
    rfl
  · have hloop : Prepares RowBuild.of Prod.snd t.2 fun limits =>
        (List.range singletonCount).foldlM
          (fun build singleton =>
            appendContinuation destination singleton emitted token limits build)
          (RowBuild.of limits.maxWork t) :=
      .foldlM (fun singleton _ t =>
        prepares_appendContinuation destination singleton emitted token t) t
    simp only [appendContinuations, RowBuild.of, hcount]
    exact hloop

theorem prepares_appendTokenContinuations (grammar : ValidatedGrammar)
    (tokenTable : PreparedTokenTable) (source : ℕ) (token : TokenId)
    (t : ((SequenceTable × List InverseBucket) × ℕ) × ℕ) :
    Prepares rowBuildFst (fun t => t.1.2) t.1.2 fun limits =>
      appendTokenContinuations grammar tokenTable source token limits
        (RowBuild.of limits.maxWork t.1) t.2 := by
  refine .bind (.charge t.1.2 1) fun used' _ => ?_
  rcases hcell : tokenTable.cell source token with _ | execution
  · exact .fails fun _ => ⟨_, rfl⟩
  simp only
  rcases execution with _ | ⟨state, emitted⟩ | ⟨emitted, eof⟩
  · exact .pass ((t.1.1, used'), t.2) (fun _ => rfl) rfl
  · rcases hindex : sourceIndex grammar state with _ | destination
    · simp only [hindex]
      exact .fails fun _ => ⟨_, rfl⟩
    rcases hcount : t.1.1.1.singletonCount destination with _ | singletonCount
    · refine .fails fun limits => ⟨.invariantViolation, ?_⟩
      simp only [hindex, RowBuild.of, hcount]
      rfl
    have hrest : Prepares rowBuildFst (fun t => t.1.2) used' fun limits => do
        let inverseMembers ← checkItems (checkedAdd t.2 singletonCount) limits
        let build ← appendContinuations destination emitted token limits
          (RowBuild.of limits.maxWork (t.1.1, used'))
        return (build, inverseMembers) := by
      refine .bind (.checkItems _) fun inverseMembers _ => ?_
      refine .bind (prepares_appendContinuations destination emitted token (t.1.1, used'))
        fun t' _ => ?_
      exact .pass (t', inverseMembers) (fun _ => rfl) rfl
    simp only [hindex, RowBuild.of, hcount]
    exact hrest
  · exact .pass ((t.1.1, used'), t.2) (fun _ => rfl) rfl

/-- The rows built, with the maximum put back. -/
def InverseBuild.of (maximum : ℕ)
    (t : (SequenceTable × List (List InverseBucket) × ℕ) × ℕ) : InverseBuild :=
  ⟨t.1.1, t.1.2.1, ⟨t.2, maximum⟩, t.1.2.2⟩

theorem prepares_buildInverseRows (grammar : ValidatedGrammar) (tokenTable : PreparedTokenTable)
    (sequences : SequenceTable) (sourceCount used : ℕ) :
    Prepares InverseBuild.of Prod.snd used fun limits =>
      buildInverseRows grammar tokenTable sequences sourceCount limits ⟨used, limits.maxWork⟩ := by
  refine .foldlM (fun source _ t => ?_) ((sequences, [], 0), used)
  refine .bind (?_ : Prepares rowBuildFst (fun t => t.1.2) t.2 _) fun t' _ =>
    .pass ((t'.1.1.1, t.1.2.1 ++ [t'.1.1.2], t'.2), t'.1.2) (fun _ => rfl) rfl
  exact .foldlM (fun tokenIndex _ t =>
    prepares_appendTokenContinuations grammar tokenTable source tokenIndex t)
    (((t.1.1, []), t.2), t.1.2.2)

theorem prepares_prepareSpannerWithBudget (grammar : ValidatedGrammar) (used : ℕ) :
    Prepares budgetSnd Prod.snd used fun limits =>
      prepareSpannerWithBudget grammar limits ⟨used, limits.maxWork⟩ := by
  refine .bind (prepares_prepareTokenTable grammar used) fun t₁ _ => ?_
  refine .bind (prepares_buildSingletons grammar t₁.1) fun t₂ _ => ?_
  refine .bind (prepares_buildInverseRows grammar t₁.2 t₂.2 t₁.2.sourceCount t₂.1) fun t₃ _ => ?_
  exact .pass (⟨t₁.2, t₃.1.1, t₃.1.2.1⟩, t₃.2) (fun _ => rfl) rfl

/-! ## The classification -/

/-- **One head** fails under every budget, or it takes the same amount of every budget that
has it. -/
theorem classifySequenceHeadWithBudget_cases (grammar : ValidatedGrammar)
    (state : ParserStateId) (sequenceHead : List TerminalId) :
    (∀ work, ∃ e, classifySequenceHeadWithBudget grammar state sequenceHead work = .error e) ∨
      ∃ amount classification, ∀ used maximum,
        (used + amount ≤ usizeMax → used + amount ≤ maximum →
          classifySequenceHeadWithBudget grammar state sequenceHead ⟨used, maximum⟩ =
            .ok (classification, ⟨used + amount, maximum⟩)) ∧
        (used + amount ≤ usizeMax → maximum < used + amount →
          ∃ required, maximum < required ∧ required ≤ used + amount ∧
            classifySequenceHeadWithBudget grammar state sequenceHead ⟨used, maximum⟩ =
              .error (.tooLarge required maximum)) ∧
        (¬used + amount ≤ usizeMax → ∃ e,
          classifySequenceHeadWithBudget grammar state sequenceHead ⟨used, maximum⟩ =
            .error e) := by
  by_cases hempty : sequenceHead.isEmpty = true
  · refine Or.inl fun work => ⟨.invariantViolation, ?_⟩
    simp only [classifySequenceHeadWithBudget, if_pos hempty]
  obtain ⟨amount, reply, hwork⟩ := executeTerminalsSymbolicCheckedWithLimit_work grammar.lalr
    [state] sequenceHead .granting
  -- a run that stops is an error, whether its count may be charged or not
  have hstopped : ∀ used maximum, maximum - used < amount → ∃ required, maximum - used < required ∧
      required ≤ amount ∧
      classifySequenceHeadWithBudget grammar state sequenceHead ⟨used, maximum⟩ =
        (WorkBudget.charge ⟨used, maximum⟩ required).bind fun _ => .error .invariantViolation := by
    intro used maximum hlt
    obtain ⟨required, hpast, hwithin, hrun⟩ := hwork.stopped (maximum - used) hlt
    refine ⟨required, hpast, hwithin, ?_⟩
    simp only [classifySequenceHeadWithBudget, if_neg hempty, WorkBudget.remaining, hrun]
    cases WorkBudget.charge ⟨used, maximum⟩ required <;> rfl
  have hfails : ∀ used maximum, maximum - used < amount → ∃ e,
      classifySequenceHeadWithBudget grammar state sequenceHead ⟨used, maximum⟩ = .error e := by
    intro used maximum hlt
    obtain ⟨required, -, -, hstop⟩ := hstopped used maximum hlt
    rw [hstop]
    cases WorkBudget.charge ⟨used, maximum⟩ required with
    | error e => exact ⟨e, rfl⟩
    | ok _ => exact ⟨.invariantViolation, rfl⟩
  rcases reply with e | ⟨decision, work⟩ | required
  · refine Or.inl fun budget => ?_
    by_cases hcovered : amount ≤ budget.maximum - budget.used
    · refine ⟨mapParserPreparationError e, ?_⟩
      simp only [classifySequenceHeadWithBudget, if_neg hempty, WorkBudget.remaining,
        hwork.covered _ hcovered]
    · exact hfails _ _ (Nat.not_le.mp hcovered)
  · obtain rfl := hwork.counted decision work rfl
    have hcomplete : ∀ used maximum, work ≤ maximum - used →
        classifySequenceHeadWithBudget grammar state sequenceHead ⟨used, maximum⟩ =
          (WorkBudget.charge ⟨used, maximum⟩ work).map fun work =>
            (classifyDecision decision, work) := by
      intro used maximum hle
      simp only [classifySequenceHeadWithBudget, if_neg hempty, WorkBudget.remaining,
        hwork.covered _ hle]
      cases WorkBudget.charge ⟨used, maximum⟩ work <;> rfl
    refine Or.inr ⟨work, classifyDecision decision, fun used maximum => ⟨fun hfits hle => ?_,
      fun hfits hshort => ?_, fun hfits => ?_⟩⟩
    · rw [hcomplete used maximum (by omega), WorkBudget.charge_of_fits hfits,
        if_neg (Nat.not_lt.mpr hle)]
      rfl
    · by_cases hcovered : work ≤ maximum - used
      · refine ⟨used + work, hshort, le_rfl, ?_⟩
        rw [hcomplete used maximum hcovered, WorkBudget.charge_of_fits hfits, if_pos hshort]
        rfl
      · -- the count of a run that stopped is over what was left
        obtain ⟨required, hpast, hwithin, hstop⟩ := hstopped used maximum (Nat.not_le.mp hcovered)
        have hover : used + required > maximum := by omega
        refine ⟨used + required, hover, Nat.add_le_add_left hwithin used, ?_⟩
        rw [hstop, WorkBudget.charge_of_fits (by omega), if_pos hover]
        rfl
    · by_cases hcovered : work ≤ maximum - used
      · refine ⟨.tooLarge usizeMax maximum, ?_⟩
        rw [hcomplete used maximum hcovered, WorkBudget.charge_of_not_fits hfits]
        rfl
      · exact hfails used maximum (Nat.not_le.mp hcovered)
  · exact absurd rfl (hwork.complete required)

theorem prepares_classifySequenceHeadWithBudget (grammar : ValidatedGrammar)
    (state : ParserStateId) (sequenceHead : List TerminalId) (used : ℕ) :
    Prepares budgetSnd Prod.snd used fun limits =>
      classifySequenceHeadWithBudget grammar state sequenceHead ⟨used, limits.maxWork⟩ := by
  rcases classifySequenceHeadWithBudget_cases grammar state sequenceHead with
    hfails | ⟨amount, classification, h⟩
  · exact .fails fun limits => hfails _
  by_cases hfits : used + amount ≤ usizeMax
  · refine .spends (classification, used + amount) rfl (fun limits hle => ?_)
      fun limits hlt => ?_
    · exact (h used limits.maxWork).1 hfits hle
    · exact (h used limits.maxWork).2.1 hfits hlt
  · exact .fails fun limits => (h used limits.maxWork).2.2 hfits

theorem prepares_prepareParserRow (grammar : ValidatedGrammar) (spanner : PreparedSpanner)
    (state : ParserStateId) (sequenceCount used : ℕ) :
    Prepares budgetSnd Prod.snd used fun limits =>
      prepareParserRow grammar spanner state sequenceCount ⟨used, limits.maxWork⟩ := by
  refine .foldlM (fun sequenceIndex _ t => ?_) ([], used)
  rcases u32TryFrom sequenceIndex with _ | sequence
  · exact .fails fun _ => ⟨_, rfl⟩
  rcases hhead : spanner.sequence sequence with _ | head
  · simp only [hhead]
    exact .fails fun _ => ⟨_, rfl⟩
  simp only [hhead]
  refine .bind (prepares_classifySequenceHeadWithBudget grammar state head t.2) fun t' _ => ?_
  exact .pass (t.1 ++ [t'.1], t'.2) (fun _ => rfl) rfl

theorem prepares_prepareParserWithBudget (grammar : ValidatedGrammar) (spanner : PreparedSpanner)
    (used : ℕ) :
    Prepares budgetSnd Prod.snd used fun limits =>
      prepareParserWithBudget grammar spanner limits ⟨used, limits.maxWork⟩ := by
  refine .bind (.checkItems _) fun _ _ => .bind (.charge used _) fun used' _ => ?_
  refine .bind (?_ : Prepares budgetSnd Prod.snd used' _) fun t _ =>
    .pass (⟨t.1⟩, t.2) (fun _ => rfl) rfl
  refine .foldlM (fun stateIndex _ t => ?_) ([], used')
  rcases u32TryFrom stateIndex with _ | state
  · exact .fails fun _ => ⟨_, rfl⟩
  refine .bind (prepares_prepareParserRow grammar spanner state _ t.2) fun t' _ => ?_
  exact .pass (t.1 ++ [t'.1], t'.2) (fun _ => rfl) rfl

/-! ## The thresholds

What is needed of a limit is the largest total that was compared with it, and for work this is the
last one. -/

/-- **A part that goes through has a threshold for each limit**: for work it is what is
used in the end. -/
theorem Prepares.threshold {σ τ : Type} {value : ℕ → τ → σ} {meter : τ → ℕ} {start : ℕ}
    {f : PreparationLimits → Except PreparationError σ} (h : Prepares value meter start f)
    {limits₀ : PreparationLimits} {s : σ} (hok : f limits₀ = .ok s) :
    ∃ t items, s = value limits₀.maxWork t ∧ start ≤ meter t ∧
      ∀ limits, start ≤ limits.maxWork →
        (items ≤ limits.maxItems → meter t ≤ limits.maxWork →
          f limits = .ok (value limits.maxWork t)) ∧
        (¬(items ≤ limits.maxItems ∧ meter t ≤ limits.maxWork) →
          FailsOnLimits limits (f limits)) := by
  obtain ⟨need, out, hgates, hmeter⟩ := h
  obtain ⟨-, t, rfl, hs⟩ := Gates.of_ok hgates (show f (.of limits₀.kinds) = .ok s from hok)
  obtain ⟨hstart, hle, hmax⟩ := hmeter t rfl
  refine ⟨t, need .items, hs, hstart, fun limits hlimits =>
    ⟨fun hitems hwork => ?_, fun hnot => ?_⟩⟩
  · refine hgates.enough limits.kinds fun kind => ?_
    cases kind with
    | items => exact hitems
    | work => exact hle.trans hwork
  · have hneed : ¬need ≤ limits.kinds := by
      intro hcovers
      refine hnot ⟨hcovers .items, hmax.trans (max_le hlimits ?_)⟩
      exact hcovers .work
    obtain ⟨kind, required, _, hlt, -, rfl, herror⟩ := hgates.refused limits.kinds hneed
    cases kind with
    | items => exact Or.inl ⟨required, hlt, herror⟩
    | work => exact Or.inr ⟨required, hlt, herror⟩

/-- **What goes through with some work used goes through with less used**, and takes the
same amount. -/
def Lowers {α : Type} (f : WorkBudget → Except PreparationError (α × WorkBudget)) : Prop :=
  ∀ extra used maximum a work', f ⟨used + extra, maximum⟩ = .ok (a, work') →
    ∃ amount, work' = ⟨used + extra + amount, maximum⟩ ∧
      f ⟨used, maximum⟩ = .ok (a, ⟨used + amount, maximum⟩)

namespace Lowers

variable {α ι : Type}

theorem foldlM {body : α × WorkBudget → ι → Except PreparationError (α × WorkBudget)}
    {l : List ι} (hbody : ∀ x ∈ l, ∀ a, Lowers fun work => body (a, work) x) (a : α) :
    Lowers fun work => l.foldlM body (a, work) := by
  induction l generalizing a with
  | nil =>
    intro extra used maximum b work' h
    cases h
    exact ⟨0, rfl, rfl⟩
  | cons x l ih =>
    intro extra used maximum b work' h
    obtain ⟨⟨a₁, work₁⟩, hx, hl⟩ := bind_eq_ok.mp h
    obtain ⟨amount₁, rfl, hx'⟩ := hbody x List.mem_cons_self a extra used maximum a₁ work₁ hx
    rw [Nat.add_right_comm] at hl
    obtain ⟨amount₂, rfl, hl'⟩ := ih (fun y hy => hbody y (List.mem_cons_of_mem x hy)) a₁ extra
      (used + amount₁) maximum b work' hl
    refine ⟨amount₁ + amount₂, by congr 1; omega, bind_eq_ok.mpr ⟨_, hx', ?_⟩⟩
    rw [← Nat.add_assoc]
    exact hl'

theorem classifySequenceHeadWithBudget (grammar : ValidatedGrammar) (state : ParserStateId)
    (sequenceHead : List TerminalId) :
    Lowers (classifySequenceHeadWithBudget grammar state sequenceHead) := by
  intro extra used maximum classification work' h
  rcases classifySequenceHeadWithBudget_cases grammar state sequenceHead with
    hfails | ⟨amount, classification', hcases⟩
  · obtain ⟨e, herror⟩ := hfails ⟨used + extra, maximum⟩
    rw [h] at herror
    cases herror
  obtain ⟨hgo, hshort, hlarge⟩ := hcases (used + extra) maximum
  by_cases hfits : used + extra + amount ≤ usizeMax
  · by_cases hle : used + extra + amount ≤ maximum
    · rw [hgo hfits hle] at h
      cases h
      exact ⟨amount, rfl, (hcases used maximum).1 (by omega) (by omega)⟩
    · obtain ⟨required, -, -, herror⟩ := hshort hfits (Nat.not_le.mp hle)
      rw [h] at herror
      cases herror
  · obtain ⟨e, herror⟩ := hlarge hfits
    rw [h] at herror
    cases herror

theorem prepareParserRow (grammar : ValidatedGrammar) (spanner : PreparedSpanner)
    (state : ParserStateId) (sequenceCount : ℕ) :
    Lowers (prepareParserRow grammar spanner state sequenceCount) := by
  refine .foldlM (fun sequenceIndex _ row => ?_) []
  intro extra used maximum row' work' h
  simp only at h ⊢
  split at h
  · split at h
    · obtain ⟨⟨classification, work₁⟩, hclassify, h⟩ := bind_eq_ok.mp h
      cases h
      obtain ⟨amount, rfl, hlower⟩ :=
        classifySequenceHeadWithBudget grammar state _ extra used maximum _ _ hclassify
      refine ⟨amount, rfl, ?_⟩
      simp only [*, ok_bind]
      rfl
    · cases h
  · cases h

theorem prepareParserWithBudget (grammar : ValidatedGrammar) (spanner : PreparedSpanner)
    (limits : PreparationLimits) : Lowers (prepareParserWithBudget grammar spanner limits) := by
  intro extra used maximum parser work' h
  simp only [GreatGramma.prepareParserWithBudget, bind_eq_ok] at h ⊢
  obtain ⟨items, hitems, work₁, hcharge, ⟨rows, work₂⟩, hrows, h⟩ := h
  cases h
  have hfits : used + extra + grammar.lalr.stateCount ≤ usizeMax := by
    by_contra hnot
    rw [WorkBudget.charge_of_not_fits hnot] at hcharge
    cases hcharge
  rw [WorkBudget.charge_of_fits hfits] at hcharge
  split_ifs at hcharge with hle
  cases hcharge
  rw [Nat.add_right_comm] at hrows
  have hlowers := Lowers.foldlM ?hrow [] extra (used + grammar.lalr.stateCount) maximum rows _ hrows
  case hrow =>
    intro stateIndex _ rows extra used maximum rows' work' h
    simp only at h ⊢
    split at h
    · obtain ⟨⟨row, work₁⟩, hrow, h⟩ := bind_eq_ok.mp h
      cases h
      obtain ⟨amount, rfl, hlower⟩ :=
        prepareParserRow grammar spanner _ _ extra used maximum _ _ hrow
      refine ⟨amount, rfl, ?_⟩
      simp only [*, ok_bind]
      rfl
    · cases h
  obtain ⟨amount, rfl, hlower⟩ := hlowers
  have htotal : used + grammar.lalr.stateCount + extra + amount =
      used + extra + (grammar.lalr.stateCount + amount) := by omega
  refine ⟨grammar.lalr.stateCount + amount, congrArg (WorkBudget.mk · maximum) htotal, items,
    hitems,
    ⟨used + grammar.lalr.stateCount, maximum⟩, ?_, ⟨rows, _⟩, hlower, ?_⟩
  · have hcovered : ¬used + grammar.lalr.stateCount > maximum := by omega
    rw [WorkBudget.charge_of_fits (by omega), if_neg hcovered]
  · rw [Nat.add_assoc]
    rfl

end Lowers

/-! ## Thresholds -/

/-- The limits that cover what is needed let it through, to the value given, and all others
make it fail on a limit. -/
def DecidedBy {σ : Type} (covers : PreparationLimits → Prop)
    (f : PreparationLimits → Except PreparationError σ) (value : PreparationLimits → σ) : Prop :=
  ∀ limits, (covers limits → f limits = .ok (value limits)) ∧
    (¬covers limits → FailsOnLimits limits (f limits))

namespace DecidedBy

variable {σ σ' : Type} {covers : PreparationLimits → Prop}
  {f : PreparationLimits → Except PreparationError σ} {value : PreparationLimits → σ}

theorem ok_iff (h : DecidedBy covers f value) (limits : PreparationLimits) :
    (∃ out, f limits = .ok out) ↔ covers limits := by
  constructor
  · rintro ⟨out, hout⟩
    by_contra hnot
    have hshort := (h limits).2 hnot
    rw [hout] at hshort
    exact hshort.ne_ok
  · exact fun hcovers => ⟨_, (h limits).1 hcovers⟩

theorem eq_value (h : DecidedBy covers f value) {limits : PreparationLimits} {out : σ}
    (hout : f limits = .ok out) : out = value limits := by
  have hcovers := (h.ok_iff limits).mp ⟨out, hout⟩
  rw [(h limits).1 hcovers] at hout
  exact (Except.ok.inj hout).symm

theorem fails (h : DecidedBy covers f value) {limits : PreparationLimits} {e : PreparationError}
    (he : f limits = .error e) : FailsOnLimits limits (f limits) := by
  refine (h limits).2 fun hcovers => ?_
  rw [(h limits).1 hcovers] at he
  cases he

theorem part (h : DecidedBy covers f value) (g : σ → σ') :
    DecidedBy covers (fun limits => f limits >>= fun x => .ok (g x)) fun limits =>
      g (value limits) := by
  intro limits
  exact ⟨fun hcovers => bind_eq_ok.mpr ⟨_, (h limits).1 hcovers, rfl⟩,
    fun hnot => ((h limits).2 hnot).bind _⟩

end DecidedBy

/-- **The parser phase by itself** needs its own work only, and no more items than it did
behind the spanner phase. -/
theorem prepareParserWithBudget_alone {grammar : ValidatedGrammar} {spanner : PreparedSpanner}
    {limits : PreparationLimits} {start work : ℕ} {parser : PreparedParser}
    (h : prepareParserWithBudget grammar spanner limits ⟨start, limits.maxWork⟩ =
      .ok (parser, ⟨start + work, limits.maxWork⟩)) :
    ∃ items ≤ limits.maxItems,
      DecidedBy (fun limits => items ≤ limits.maxItems ∧ work ≤ limits.maxWork)
        (fun limits => prepareParserWithBudget grammar spanner limits ⟨0, limits.maxWork⟩)
        fun limits => (parser, ⟨work, limits.maxWork⟩) := by
  rw [← Nat.zero_add start] at h
  obtain ⟨amount, hamount, hlower⟩ :=
    Lowers.prepareParserWithBudget grammar spanner limits start 0 limits.maxWork parser _ h
  obtain ⟨⟨parser', alone⟩, items, heq, -, hthird⟩ :=
    (prepares_prepareParserWithBudget grammar spanner 0).threshold hlower
  obtain ⟨rfl, hused⟩ := Prod.mk.inj heq
  obtain rfl : alone = work := by
    have hsame := (WorkBudget.mk.inj hamount).1
    have halone := (WorkBudget.mk.inj hused).1
    omega
  refine ⟨items, ?_, fun limits => ⟨fun hcovers => ?_, (hthird limits (Nat.zero_le _)).2⟩⟩
  · by_contra hitems
    have hshort := (hthird limits (Nat.zero_le _)).2 fun hcovers => hitems hcovers.1
    rw [hlower] at hshort
    exact hshort.ne_ok
  · exact (hthird limits (Nat.zero_le _)).1 hcovers.1 hcovers.2

/-- **The limits of preparation are thresholds.**  A grammar that can be prepared has
numbers for the two limits; the work needed is that of the two phases together, and each
phase by itself needs its own.  Whatever the limits are, what is prepared is the same, and
a failure says which limit is short. -/
theorem prepare_thresholds (grammar : ValidatedGrammar)
    (h : ∃ limits prepared, prepare grammar limits = .ok prepared) :
    ∃ (prepared : PreparedGrammar) (spannerWork parserWork items : ℕ),
      (∀ limits, (∃ out, prepare grammar limits = .ok out) ↔
        spannerWork + parserWork ≤ limits.maxWork ∧ items ≤ limits.maxItems) ∧
      (∀ limits out, prepare grammar limits = .ok out → out = prepared) ∧
      (∀ limits e, prepare grammar limits = .error e →
        FailsOnLimits limits (prepare grammar limits)) ∧
      ∀ limits, items ≤ limits.maxItems →
        ((∃ spanner, prepareSpanner grammar limits = .ok spanner) ↔
          spannerWork ≤ limits.maxWork) ∧
        ((∃ parser, prepareParser grammar prepared.spanner limits = .ok parser) ↔
          parserWork ≤ limits.maxWork) ∧
        (spannerWork ≤ limits.maxWork →
          prepareSpannerWithBudget grammar limits ⟨0, limits.maxWork⟩ =
            .ok (prepared.spanner, ⟨spannerWork, limits.maxWork⟩)) ∧
        (spannerWork + parserWork ≤ limits.maxWork →
          prepareParserWithBudget grammar prepared.spanner limits ⟨spannerWork, limits.maxWork⟩ =
            .ok (prepared.parser, ⟨spannerWork + parserWork, limits.maxWork⟩)) := by
  obtain ⟨limits₀, prepared, hprepare⟩ := h
  simp only [prepare, bind_eq_ok] at hprepare
  obtain ⟨⟨spanner, work₁⟩, hspanner, ⟨parser, work₂⟩, hparser, hprepare⟩ := hprepare
  obtain ⟨⟨spanner', spannerWork⟩, items₁, heq, -, hfirst⟩ :=
    (prepares_prepareSpannerWithBudget grammar 0).threshold hspanner
  obtain ⟨rfl, rfl⟩ := Prod.mk.inj heq
  obtain ⟨⟨parser', total⟩, items₂, heq, hstart, hsecond⟩ :=
    (prepares_prepareParserWithBudget grammar spanner spannerWork).threshold hparser
  obtain ⟨rfl, rfl⟩ := Prod.mk.inj heq
  obtain ⟨parserWork, rfl⟩ : ∃ parserWork, total = spannerWork + parserWork :=
    Nat.exists_eq_add_of_le hstart
  have hone : DecidedBy (fun limits => items₁ ≤ limits.maxItems ∧ spannerWork ≤ limits.maxWork)
      (fun limits => prepareSpannerWithBudget grammar limits ⟨0, limits.maxWork⟩)
      fun limits => (spanner, ⟨spannerWork, limits.maxWork⟩) := fun limits =>
    ⟨fun hcovers => (hfirst limits (Nat.zero_le _)).1 hcovers.1 hcovers.2,
      (hfirst limits (Nat.zero_le _)).2⟩
  have hall : DecidedBy (fun limits =>
        spannerWork + parserWork ≤ limits.maxWork ∧ max items₁ items₂ ≤ limits.maxItems)
      (prepare grammar) fun _ => prepared := by
    intro limits
    constructor
    · rintro ⟨hwork, hitems⟩
      have hwork₁ : spannerWork ≤ limits.maxWork := hstart.trans hwork
      have hok := (hone limits).1 ⟨(le_max_left _ _).trans hitems, hwork₁⟩
      have htwo := (hsecond limits hwork₁).1 ((le_max_right _ _).trans hitems) hwork
      unfold prepare
      exact bind_eq_ok.mpr ⟨_, hok, bind_eq_ok.mpr ⟨_, htwo, hprepare⟩⟩
    · intro hnot
      by_cases hcovers : items₁ ≤ limits.maxItems ∧ spannerWork ≤ limits.maxWork
      · have htwo := (hsecond limits hcovers.2).2 fun hboth =>
          hnot ⟨hboth.2, max_le hcovers.1 hboth.1⟩
        unfold prepare
        simp only [WorkBudget.new, (hone limits).1 hcovers, ok_bind]
        exact htwo.bind _
      · exact ((hone limits).2 hcovers).bind _
  -- the parser phase by itself, from its run under the limits of both
  let both : PreparationLimits := ⟨max items₁ items₂, spannerWork + parserWork⟩
  have hrun : prepareParserWithBudget grammar spanner both ⟨spannerWork, both.maxWork⟩ =
      .ok (parser, ⟨spannerWork + parserWork, both.maxWork⟩) :=
    (hsecond both hstart).1 (le_max_right items₁ items₂) le_rfl
  obtain ⟨items₃, hitems₃, halone⟩ := prepareParserWithBudget_alone hrun
  have hsame : prepared.spanner = spanner ∧ prepared.parser = parser := by
    split at hprepare
    · cases hprepare
      exact ⟨rfl, rfl⟩
    · cases hprepare
  refine ⟨prepared, spannerWork, parserWork, max items₁ items₂, hall.ok_iff,
    fun limits out => hall.eq_value, fun limits e => hall.fails, fun limits hitems => ?_⟩
  rw [hsame.1, hsame.2]
  have hitems₁ := (le_max_left _ _).trans hitems
  have hitems₂ := (le_max_right _ _).trans hitems
  refine ⟨((hone.part Prod.fst).ok_iff limits).trans (and_iff_right hitems₁),
    ((halone.part Prod.fst).ok_iff limits).trans (and_iff_right (hitems₃.trans hitems)),
    fun hwork => (hone limits).1 ⟨hitems₁, hwork⟩, fun hwork => ?_⟩
  exact (hsecond limits (hstart.trans hwork)).1 hitems₂ hwork

theorem prepare_thresholds_reusableStack :
    ∃ spannerWork parserWork items, ∀ limits,
      (∃ out, prepare reusableStackGrammar limits = .ok out) ↔
        spannerWork + parserWork ≤ limits.maxWork ∧ items ≤ limits.maxItems := by
  obtain ⟨_, spannerWork, parserWork, items, hiff, -⟩ := prepare_thresholds reusableStackGrammar
    ⟨reusableStackLimits, reusableStackPrepared, reusableStack_prepare⟩
  exact ⟨spannerWork, parserWork, items, hiff⟩

end GreatGramma
