import GreatGramma.Library.Confinement
import GreatGramma.Validation.Validate

/-!
# What validation may say of a sound grammar

The checks of `validate` are of two kinds.  Some meter a size: a count against its limit, a product
against the machine word, a reservation against the memory there is.  The others look at the
structure, and of a grammar whose tokens are formed, whose tables have their shape and whose
references are in range and kept apart they have nothing to say.  So validation of such a grammar
fails for want of resources, if it fails.

## Confinement

A computation is *confined* to a set of errors if it fails with no other (`Library.Confinement`).
The metering functions are confined to the errors of resources whatever they are given, and
confinement goes through sequences and loops.  The structural checks are shown to pass on a sound
grammar, one after the other; where an entry is metered and checked in one loop, the two are taken
apart by cases (`validateTokenEntry_confined`).

The result is what the compiler needs of validation (`validate_confined`): it has established that
its output is sound, and knows nothing of the limits that validation will be given.
-/

namespace GreatGramma

open Traversal

/-- The errors of the checks that meter a size. -/
def ValidationError.IsResource : ValidationError → Prop
  | .limitExceeded .. | .arithmeticOverflow .. | .allocationFailure .. => True
  | _ => False

instance (error : ValidationError) : Decidable error.IsResource := by
  unfold ValidationError.IsResource
  split <;> infer_instance

namespace UnvalidatedGrammar

/-- **A sound grammar**: nothing but its size can be wrong with it. -/
structure Sound (grammar : UnvalidatedGrammar) : Prop where
  tokens : grammar.TokensFormed
  shaped : grammar.Shaped
  inRange : grammar.InRange
  separated : grammar.Separated

end UnvalidatedGrammar

namespace Validate

/-! ## Metering

Totals are put together from checked additions and products. -/

section
variable {limit : LimitKind} {calculation : ArithmeticKind} {a b : ℕ} {maximum : UInt64}

theorem checkLimit_confined :
    Confined ValidationError.IsResource (checkLimit limit a maximum) :=
  .ite (fun _ => .error trivial) fun _ => .ok _

theorem checkedLen_confined : Confined ValidationError.IsResource (checkedLen a calculation) :=
  .ite (fun _ => .ok _) fun _ => .error trivial

theorem checkedProduct_confined :
    Confined ValidationError.IsResource (checkedProduct a b calculation) :=
  .ite (fun _ => .ok _) fun _ => .error trivial

theorem checkedSum_confined :
    Confined ValidationError.IsResource (checkedSum a b calculation) :=
  .ite (fun _ => .ok _) fun _ => .error trivial

theorem checkedAdd_confined :
    Confined ValidationError.IsResource (checkedAdd a b calculation) :=
  .ite (fun _ => .ok _) fun _ => .error trivial

theorem checkedMul_confined :
    Confined ValidationError.IsResource (checkedMul a b calculation) :=
  .ite (fun _ => .ok _) fun _ => .error trivial

end

theorem validationBaseWork_confined {sizes : DeclaredSizes} :
    Confined ValidationError.IsResource (validationBaseWork sizes) := by
  unfold validationBaseWork
  refine .bind checkedAdd_confined fun _ _ => .bind checkedAdd_confined fun _ _ =>
    .bind checkedAdd_confined fun _ _ => .bind checkedAdd_confined fun _ _ => ?_
  refine .bind checkedMul_confined fun _ _ => .bind checkedAdd_confined fun _ _ => ?_
  exact .bind checkedAdd_confined fun _ _ => .bind checkedAdd_confined fun _ _ =>
    checkedAdd_confined

theorem logicalBytes_confined {sizes : DeclaredSizes} :
    Confined ValidationError.IsResource (logicalBytes sizes) := by
  have hterm : ∀ {total count width : ℕ} {f : ℕ → Except ValidationError ℕ},
      (∀ total, Confined ValidationError.IsResource (f total)) →
      Confined ValidationError.IsResource (do
        let total ← checkedAdd total (← checkedMul count width .logicalBytes) .logicalBytes
        f total) := fun hf =>
    .bind checkedMul_confined fun _ _ => .bind checkedAdd_confined fun _ _ => hf _
  unfold logicalBytes
  refine .bind checkedAdd_confined fun _ _ => ?_
  refine hterm fun _ => hterm fun _ => hterm fun _ => hterm fun _ => hterm fun _ => hterm fun _ =>
    hterm fun _ => ?_
  exact .bind checkedMul_confined fun _ _ => checkedAdd_confined

/-! ## Tokens -/

/-- An entry that is not empty meets its limits or not. -/
theorem validateTokenEntry_confined {limits : ValidationLimits} {state : TokenValidation}
    {entry : TokenEntry × ℕ} (h : entry.1 ≠ .bytes []) :
    Confined ValidationError.IsResource (validateTokenEntry limits state entry) := by
  obtain ⟨entry, index⟩ := entry
  unfold validateTokenEntry
  refine .bind checkedAdd_confined fun _ _ => .bind checkLimit_confined fun _ _ => ?_
  cases entry with
  | eos => exact .ok _
  | bytes content =>
    refine .ite (fun hempty => absurd ?_ h) fun _ => ?_
    · rw [List.isEmpty_iff.mp hempty]
    · exact .bind checkedAdd_confined fun _ _ => .bind checkLimit_confined fun _ _ =>
        .bind checkedAdd_confined fun _ _ => .bind checkLimit_confined fun _ _ => .ok _

theorem validateTokens_confined {grammar : UnvalidatedGrammar} {limits : ValidationLimits}
    {initialWork : ℕ} (h : grammar.TokensFormed) (hwork : initialWork ≤ limits.maxWork.toNat) :
    Confined ValidationError.IsResource (validateTokens grammar.tokens initialWork limits) := by
  have hstart : TokenValidation.Within ⟨false, false, 0, initialWork⟩ limits :=
    ⟨Nat.zero_le _, hwork⟩
  obtain ⟨hordinary, heos⟩ := foldl_after_seen grammar.tokens ⟨false, false, 0, initialWork⟩
  refine .bind (.foldlM fun entry hentry _ => validateTokenEntry_confined fun hempty => ?_)
    fun last hlast => ?_
  · exact h.nonempty (hempty ▸ List.fst_mem_of_mem_zipIdx hentry)
  · -- the loop has seen an entry of either kind
    obtain ⟨-, rfl, -⟩ := (tokens_foldlM_eq_ok hstart).mp hlast
    refine .ite (fun hno => ?_) fun _ => .ite (fun hno => ?_) fun _ => .ok _
    · rw [hordinary.mpr (Or.inr h.ordinary)] at hno
      exact absurd hno Bool.false_ne_true
    · rw [heos.mpr (Or.inr h.eos)] at hno
      exact absurd hno Bool.false_ne_true

/-! ## The whole grammar -/

variable {grammar : UnvalidatedGrammar} {limits : ValidationLimits}

theorem validateDeclaredSizes_confined (h : grammar.TokensFormed) :
    Confined ValidationError.IsResource
      (validateDeclaredSizes grammar.tokens grammar.lexer grammar.lalr limits) := by
  unfold validateDeclaredSizes
  refine .ite (fun hempty => ?_) fun _ => ?_
  · exact absurd (List.isEmpty_iff.mp hempty) (List.ne_nil_of_mem h.eos)
  refine .bind checkedLen_confined fun _ _ => .bind checkLimit_confined fun _ _ => ?_
  refine .bind checkLimit_confined fun _ _ => .bind checkLimit_confined fun _ _ => ?_
  refine .bind checkLimit_confined fun _ _ => .bind checkLimit_confined fun _ _ => ?_
  refine .bind checkLimit_confined fun _ _ => .bind checkedLen_confined fun _ _ => ?_
  refine .bind checkedLen_confined fun _ _ => .bind checkLimit_confined fun _ _ => ?_
  refine .bind checkedProduct_confined fun _ _ => .bind checkLimit_confined fun _ _ => ?_
  refine .bind checkedProduct_confined fun _ _ => .bind checkedProduct_confined fun _ _ => ?_
  refine .bind checkedSum_confined fun _ _ => .bind checkLimit_confined fun _ _ => ?_
  refine .bind validationBaseWork_confined fun _ _ => .bind checkLimit_confined fun _ hwork => ?_
  refine .bind (validateTokens_confined h (checkLimit_eq_ok.mp hwork)) fun _ _ => ?_
  exact .bind logicalBytes_confined fun _ _ => .bind checkLimit_confined fun _ _ => .ok _

/-- **The checks of a sound grammar are about its size.**  Once the sizes are declared, each
check of the structure passes, and the reservation of the last table is all that is left. -/
theorem checkGrammar_confined (h : grammar.Sound) (limits : ValidationLimits) (granted : Bool) :
    Confined ValidationError.IsResource (checkGrammar grammar limits granted) := by
  unfold checkGrammar
  refine .bind (validateDeclaredSizes_confined h.tokens) fun sizes hsizes => ?_
  obtain ⟨-, hcounted, -, rfl⟩ := validateDeclaredSizes_eq_ok.mp hsizes
  have hlabels : grammar.lexer.terminals.length < 2 ^ 32 :=
    h.shaped.terminals.symm ▸ grammar.lexer.stateCount_lt
  have hactions : grammar.lalr.actions.length < 2 ^ 32 :=
    h.shaped.actions.symm ▸ hcounted.actionCells
  have husize : ∀ {count : ℕ} {calculation : ArithmeticKind}, count < 2 ^ 32 →
      countAsUsize count calculation = .ok count := by
    intro count calculation hcount
    rw [countAsUsize_eq_ok, usizeMax_eq]
    omega
  refine .pass (checkLength_eq_ok.mpr h.shaped.byteClasses) ?_
  refine .after (husize hcounted.lexerCells) ?_
  refine .pass (checkLength_eq_ok.mpr h.shaped.transitions) ?_
  refine .after (husize grammar.lexer.stateCount_lt) ?_
  refine .pass (checkLength_eq_ok.mpr h.shaped.terminals) ?_
  refine .after (husize hcounted.actionCells) ?_
  refine .pass (checkLength_eq_ok.mpr h.shaped.actions) ?_
  refine .after (husize hcounted.gotoCells) ?_
  refine .pass (checkLength_eq_ok.mpr h.shaped.gotos) ?_
  refine .pass (validateId_eq_ok.mpr h.inRange.lexerStart) ?_
  refine .pass (validateId_eq_ok.mpr h.inRange.parserStart) ?_
  refine .pass (validateId_eq_ok.mpr h.inRange.eof) ?_
  refine .pass (validateIgnoredTerminals_eq_ok.mpr
    ⟨h.inRange.ignored, h.separated.ignored⟩) ?_
  refine .pass (validateByteClasses_eq_ok.mpr h.inRange.byteClasses) ?_
  refine .pass (checkEach_optionalId_eq_ok.mpr h.inRange.transitions) ?_
  refine .pass ((validateLexerTerminals_eq_ok hlabels).mpr
    ⟨h.inRange.labels, h.separated.start, h.separated.labels⟩) ?_
  refine .pass ((validateActions_eq_ok grammar.lalr.terminalCount_lt hactions).mpr
    ⟨h.inRange.shifts, h.inRange.reductions, h.separated.accept⟩) ?_
  refine .pass (checkEach_optionalId_eq_ok.mpr h.inRange.gotos) ?_
  refine .pass (validateProductions_eq_ok.mpr h.inRange.lhs) ?_
  cases granted with
  | true =>
    -- the table is large enough for every terminal that is marked in it
    exact .of_ok ((buildIgnoredTerminalTable_eq_ok grammar.lalr.terminalCount_lt
      h.inRange.ignored).mpr ⟨rfl, rfl⟩)
  | false => exact .after (husize grammar.lalr.terminalCount_lt) (.error trivial)

end Validate

/-- **Validation of a sound grammar** returns it, or says which resource is short. -/
theorem validate_confined {grammar : UnvalidatedGrammar} (h : grammar.Sound)
    (limits : ValidationLimits) (granted : Bool) :
    Confined ValidationError.IsResource (validate grammar limits granted) := by
  intro error herror
  refine Validate.checkGrammar_confined h limits granted error ?_
  rw [validate] at herror
  split at herror
  · rename_i error' hchecked
    rw [hchecked, Except.error.inj herror]
  · cases herror

end GreatGramma
