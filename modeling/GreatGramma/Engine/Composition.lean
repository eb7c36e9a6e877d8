import GreatGramma.Engine.Heads
import GreatGramma.Parser.Composition

/-!
# One run or several

`execute_terminals` copies the stack it is given, runs in place, and reads its reply off what is
left; so what `Parser.Composition` says about cutting a run becomes a law about the entry point.
A call on `xs ++ ys` is a call on `xs` and, from the stack that it replies, a call on `ys`.

## The allocator

The two sides do not reserve alike: the second call makes a copy of its own.  The law names the
allocator of that copy and lets it grant this one reservation; everything else, refused
reservations too, is the same on both sides.  So it is a law about calls that may fail, and not
only about those that are granted all they ask for.

## The cases

A first run that goes on has read all its terminals and left a valid stack, from which the second
can be called (`executeTerminalsConcreteInPlace_continue`).  A first run that ends is not looked
at further, and the whole run ends where it does.  It cannot end by accepting, unless EOF is among
its terminals, and the arguments of `execute_terminals` hold no EOF
(`executeTerminals_ne_accepted`).  Terminals that the parser ignores may be left out of either
part.  The index of an error is offset by the length of the first part, so that the second call
reports the place in the whole slice.
-/

namespace GreatGramma

open Reservation ShiftReduce

/-! ## The entry point -/

/-- The reply of `execute_terminals`, as it is read off the executor. -/
def executionOf (out : Except ParserError RunDecision × Workspace) :
    Except ParserError (Option ParserExecution) × Memory :=
  match out with
  | (.error error, destination) => (.error error, destination.memory)
  | (.ok .rejected, destination) => (.ok none, destination.memory)
  | (.ok .continue, destination) => (.ok (some (.continue destination.stack)), destination.memory)
  | (.ok .accepted, destination) => (.ok (some .accepted), destination.memory)
  | (.ok .dependent, destination) => (.error .invariantViolation, destination.memory)

theorem executionOf_offsetReply (offset : ℕ) (out : Except ParserError RunDecision × Workspace) :
    executionOf (offsetReply offset out) = offsetReply offset (executionOf out) := by
  obtain ⟨error | decision, destination⟩ := out
  · rfl
  · cases decision <;> rfl

theorem executionOf_eq_continue {out : Except ParserError RunDecision × Workspace}
    {stack : List ParserStateId} {memory : Memory}
    (h : executionOf out = (.ok (some (.continue stack)), memory)) :
    out = (.ok .continue, ⟨stack, memory⟩) := by
  obtain ⟨error | decision, destination⟩ := out
  · cases h
  · cases decision <;> cases h
    rfl

section
variable {grammar : ValidatedGrammar} {stack : List ParserStateId} {copied memory : Memory}

/-- On valid inputs `execute_terminals` is the executor, in place on a copy of the stack. -/
theorem executeTerminals_eq_inPlace {ts : List TerminalId} (hstack : grammar.lalr.ValidStack stack)
    (hts : grammar.lalr.ValidTerminals ts) (h : copied.reserve = (true, memory)) :
    executeTerminals grammar stack ts copied =
      executionOf (executeTerminalsConcreteInPlace grammar.lalr ⟨stack, memory⟩ ts) := by
  unfold executeTerminals
  rw [validateInputs_ok hstack hts]
  dsimp only
  rw [executeTerminalsConcreteInto_eq_inPlace stack [] ts h]
  rfl

theorem executeTerminals_refused {ts : List TerminalId} (hstack : grammar.lalr.ValidStack stack)
    (hts : grammar.lalr.ValidTerminals ts) (h : copied.reserve = (false, memory)) :
    executeTerminals grammar stack ts copied =
      (.error (.allocationFailure stack.length), memory) := by
  unfold executeTerminals
  rw [validateInputs_ok hstack hts]
  dsimp only
  rw [executeTerminalsConcreteInto_refused stack [] ts h]

theorem ValidatedLalr.live_of_runReply {lalr : ValidatedLalr} {terminalCount : ℕ}
    {verdict : Verdict ParserStateId TerminalId ProductionId}
    (h : lalr.runReply .error terminalCount verdict = .ok .continue) :
    ∃ stack, verdict = .live stack := by
  cases verdict with
  | live stack => exact ⟨stack, rfl⟩
  | rejected => cases h
  | accepted rest =>
    simp only [runReply] at h
    split_ifs at h
    cases h
  | fault f => cases h

theorem ValidatedLalr.accepted_of_runReply {lalr : ValidatedLalr} {terminalCount : ℕ}
    {verdict : Verdict ParserStateId TerminalId ProductionId}
    (h : lalr.runReply .error terminalCount verdict = .ok .accepted) : verdict = .accepted [] := by
  cases verdict with
  | live stack => cases h
  | rejected => cases h
  | accepted rest =>
    simp only [runReply] at h
    split_ifs at h with hrest
    rw [hrest]
  | fault f => cases h

/-- What a run goes on with is a valid stack, and it does not make the allocator refuse. -/
theorem executeTerminalsConcreteInPlace_continue {ts : List TerminalId}
    {stack' : List ParserStateId} (hstack : grammar.lalr.ValidStack stack)
    (hts : grammar.lalr.ValidTerminals ts)
    (h : executeTerminalsConcreteInPlace grammar.lalr ⟨stack, copied⟩ ts =
      (.ok .continue, ⟨stack', memory⟩)) :
    grammar.lalr.ValidStack stack' ∧ (copied = .granting → memory = .granting) := by
  have hrun := executeTerminalsConcreteInPlace_settles ⟨stack, copied⟩ hstack hts
  rw [h] at hrun
  obtain ⟨hreply, hlive⟩ := hrun.of_not_refused fun e he => by cases he
  refine ⟨?_, fun hgranting => (hrun.of_granting hgranting).2⟩
  obtain ⟨top, hparse⟩ := ValidatedLalr.live_of_runReply hreply.symm
  obtain rfl : stack' = top := hlive top hparse
  exact hstack.parse hparse

/-- Without EOF nothing is accepted. -/
theorem executeTerminalsConcreteInPlace_ne_accepted {xs : List TerminalId}
    (hstack : grammar.lalr.ValidStack stack) (hxs : grammar.lalr.Emittable xs) :
    (executeTerminalsConcreteInPlace grammar.lalr ⟨stack, memory⟩ xs).1 ≠ .ok .accepted := by
  intro haccepted
  have hrun := executeTerminalsConcreteInPlace_settles ⟨stack, memory⟩ hstack hxs.valid
  obtain ⟨hreply, -⟩ := hrun.of_not_refused fun e he => by
    rw [haccepted] at he
    cases he
  exact ValidatedLalr.parse_ne_accepted hstack hxs
    (ValidatedLalr.accepted_of_runReply (hreply.symm.trans haccepted))

theorem executeTerminals_ne_accepted {xs : List TerminalId}
    (hstack : grammar.lalr.ValidStack stack) (hxs : grammar.lalr.Emittable xs) :
    (executeTerminals grammar stack xs memory).1 ≠ .ok (some .accepted) := by
  intro haccepted
  rcases hcopy : memory.reserve with ⟨granted, rest⟩
  cases granted with
  | false =>
    rw [executeTerminals_refused hstack hxs.valid hcopy] at haccepted
    cases haccepted
  | true =>
    rw [executeTerminals_eq_inPlace hstack hxs.valid hcopy] at haccepted
    have hrun : (executeTerminalsConcreteInPlace grammar.lalr ⟨stack, rest⟩ xs).1 ≠ _ :=
      executeTerminalsConcreteInPlace_ne_accepted hstack hxs
    generalize executeTerminalsConcreteInPlace grammar.lalr ⟨stack, rest⟩ xs = out
      at hrun haccepted
    obtain ⟨error | decision, destination⟩ := out
    · cases haccepted
    cases decision <;> cases haccepted
    exact hrun rfl

theorem executeTerminals_append_of_continue {xs ys : List TerminalId}
    {stack' : List ParserStateId} {memory' : Memory} (hstack : grammar.lalr.ValidStack stack)
    (hxs : grammar.lalr.Emittable xs) (hys : grammar.lalr.ValidTerminals ys)
    (h : executeTerminals grammar stack xs memory = (.ok (some (.continue stack')), memory')) :
    (memory = .granting → memory' = .granting) ∧
      ∀ copied, copied.reserve = (true, memory') →
        executeTerminals grammar stack (xs ++ ys) memory =
          offsetReply xs.length (executeTerminals grammar stack' ys copied) := by
  have heof : grammar.lalr.eofTerminal ∉ xs := fun hmem => (hxs _ hmem).2 rfl
  rcases hcopy : memory.reserve with ⟨granted, rest⟩
  cases granted with
  | false =>
    rw [executeTerminals_refused hstack hxs.valid hcopy] at h
    cases h
  | true =>
    rw [executeTerminals_eq_inPlace hstack hxs.valid hcopy] at h
    have hrun := executionOf_eq_continue h
    obtain ⟨hstack', hgranting⟩ :=
      executeTerminalsConcreteInPlace_continue hstack hxs.valid hrun
    refine ⟨fun hmemory => hgranting ((reserve_true hcopy).granting hmemory),
      fun copied hcopied => ?_⟩
    have hwhole : grammar.lalr.ValidTerminals (xs ++ ys) := fun t ht =>
      (List.mem_append.mp ht).elim (hxs.valid t) (hys t)
    rw [executeTerminals_eq_inPlace hstack hwhole hcopy,
      executeTerminals_eq_inPlace hstack' hys hcopied,
      executeTerminalsConcreteInPlace_append heof, hrun, executionOf_offsetReply]

theorem executeTerminals_append_of_ends {xs ys : List TerminalId}
    {out : Except ParserError (Option ParserExecution) × Memory}
    (hstack : grammar.lalr.ValidStack stack) (hxs : grammar.lalr.Emittable xs)
    (hys : grammar.lalr.ValidTerminals ys) (h : executeTerminals grammar stack xs memory = out)
    (hends : ∀ stack', out.1 ≠ .ok (some (.continue stack'))) :
    executeTerminals grammar stack (xs ++ ys) memory = out := by
  have heof : grammar.lalr.eofTerminal ∉ xs := fun hmem => (hxs _ hmem).2 rfl
  have hwhole : grammar.lalr.ValidTerminals (xs ++ ys) := fun t ht =>
    (List.mem_append.mp ht).elim (hxs.valid t) (hys t)
  rcases hcopy : memory.reserve with ⟨granted, rest⟩
  cases granted with
  | false =>
    rw [executeTerminals_refused hstack hwhole hcopy, ← h,
      executeTerminals_refused hstack hxs.valid hcopy]
  | true =>
    rw [executeTerminals_eq_inPlace hstack hxs.valid hcopy] at h
    rw [executeTerminals_eq_inPlace hstack hwhole hcopy,
      executeTerminalsConcreteInPlace_append heof]
    generalize executeTerminalsConcreteInPlace grammar.lalr ⟨stack, rest⟩ xs = run at h
    obtain ⟨error | decision, destination⟩ := run
    · exact h
    cases decision with
    | «continue» => exact absurd (congrArg Prod.fst h).symm (hends destination.stack)
    | rejected => exact h
    | accepted => exact h
    | dependent => exact h

theorem executeTerminals_kept {xs : List TerminalId} (hstack : grammar.lalr.ValidStack stack)
    (hxs : grammar.lalr.Emittable xs) :
    executeTerminals grammar stack (grammar.lalr.kept xs) memory =
      executeTerminals grammar stack xs memory := by
  have heof : grammar.lalr.eofTerminal ∉ xs := fun hmem => (hxs _ hmem).2 rfl
  have hkept : grammar.lalr.ValidTerminals (grammar.lalr.kept xs) := fun t ht =>
    hxs.valid t (List.mem_of_mem_filter ht)
  rcases hcopy : memory.reserve with ⟨granted, rest⟩
  cases granted with
  | false =>
    rw [executeTerminals_refused hstack hkept hcopy,
      executeTerminals_refused hstack hxs.valid hcopy]
  | true =>
    rw [executeTerminals_eq_inPlace hstack hkept hcopy,
      executeTerminals_eq_inPlace hstack hxs.valid hcopy,
      executeTerminalsConcreteInPlace_kept heof]

theorem executeTerminals_kept_append {xs ys : List TerminalId}
    (hstack : grammar.lalr.ValidStack stack) (hxs : grammar.lalr.Emittable xs)
    (hys : grammar.lalr.ValidTerminals ys) :
    executeTerminals grammar stack (xs ++ ys) memory =
      offsetReply (xs.length - (grammar.lalr.kept xs).length)
        (executeTerminals grammar stack (grammar.lalr.kept xs ++ ys) memory) := by
  have heof : grammar.lalr.eofTerminal ∉ xs := fun hmem => (hxs _ hmem).2 rfl
  have hwhole : grammar.lalr.ValidTerminals (xs ++ ys) := fun t ht =>
    (List.mem_append.mp ht).elim (hxs.valid t) (hys t)
  have hkept : grammar.lalr.ValidTerminals (grammar.lalr.kept xs ++ ys) := fun t ht =>
    (List.mem_append.mp ht).elim (fun hmem => hxs.valid t (List.mem_of_mem_filter hmem)) (hys t)
  rcases hcopy : memory.reserve with ⟨granted, rest⟩
  cases granted with
  | false =>
    rw [executeTerminals_refused hstack hwhole hcopy, executeTerminals_refused hstack hkept hcopy]
    rfl
  | true =>
    rw [executeTerminals_eq_inPlace hstack hwhole hcopy,
      executeTerminals_eq_inPlace hstack hkept hcopy,
      executeTerminalsConcreteInPlace_kept_append heof, executionOf_offsetReply]

end

/-- **Parser execution composes.**  A run over `xs ++ ys` is the run over `xs` and, from the
stack that it leaves, the run over `ys`; if the first does not go on, it is the first.  The
index in an error is that of the whole slice.  Ignored terminals change nothing, and the
executor that copies the stack does what the one in place does.  All of this holds for every
allocator, as long as the copies are granted that only one of the sides makes. -/
theorem ValidatedGrammar.executeTerminals_composes (grammar : ValidatedGrammar)
    {stack : List ParserStateId} {xs ys : List TerminalId} (hne : stack ≠ [])
    (hstates : ∀ state ∈ stack, state < grammar.lalr.stateCount)
    (hxs : ∀ t ∈ xs, t < grammar.lalr.terminalCount ∧ t ≠ grammar.lalr.eofTerminal)
    (hys : ∀ t ∈ ys, t < grammar.lalr.terminalCount) (memory : Memory) :
    (∀ stack' memory', executeTerminals grammar stack xs memory =
        (.ok (some (.continue stack')), memory') →
      (memory = .granting → memory' = .granting) ∧
      ∀ copied, copied.reserve = (true, memory') →
        executeTerminals grammar stack (xs ++ ys) memory =
          offsetReply xs.length (executeTerminals grammar stack' ys copied)) ∧
    (∀ memory', executeTerminals grammar stack xs memory = (.ok none, memory') →
      executeTerminals grammar stack (xs ++ ys) memory = (.ok none, memory')) ∧
    (∀ error memory', executeTerminals grammar stack xs memory = (.error error, memory') →
      executeTerminals grammar stack (xs ++ ys) memory = (.error error, memory')) ∧
    (executeTerminals grammar stack xs memory).1 ≠ .ok (some .accepted) ∧
    executeTerminals grammar stack (grammar.lalr.kept xs) memory =
      executeTerminals grammar stack xs memory ∧
    executeTerminals grammar stack (xs ++ ys) memory =
      offsetReply (xs.length - (grammar.lalr.kept xs).length)
        (executeTerminals grammar stack (grammar.lalr.kept xs ++ ys) memory) ∧
    ∀ old copied, copied.reserve = (true, memory) →
      executeTerminalsConcreteInto grammar.lalr stack xs ⟨old, copied⟩ =
        executeTerminalsConcreteInPlace grammar.lalr ⟨stack, memory⟩ xs := by
  have hstack : grammar.lalr.ValidStack stack := ⟨hne, hstates⟩
  refine ⟨fun stack' memory' h => executeTerminals_append_of_continue hstack hxs hys h,
    fun memory' h => ?_, fun error memory' h => ?_, executeTerminals_ne_accepted hstack hxs,
    executeTerminals_kept hstack hxs, executeTerminals_kept_append hstack hxs hys,
    fun old copied hcopied => executeTerminalsConcreteInto_eq_inPlace stack old xs hcopied⟩
  · exact executeTerminals_append_of_ends hstack hxs hys h fun stack' h => by cases h
  · exact executeTerminals_append_of_ends hstack hxs hys h fun stack' h => by cases h

/-- A cut before the last terminal, which is read in a second run, and the same in one. -/
theorem executeTerminals_composes_reusableStack :
    executeTerminals reusableStackGrammar [0] ([0, 0] ++ [1, 0]) .granting =
      offsetReply 2 (executeTerminals reusableStackGrammar [0, 2, 3] [1, 0] .granting) ∧
    (executeTerminals reusableStackGrammar [0] ([0, 0] ++ [1, 0]) .granting).1 =
      .error (.acceptBeforeEnd 2) := by
  have hrun : executeTerminals reusableStackGrammar [0] [0, 0] .granting =
      (.ok (some (.continue [0, 2, 3])), .granting) := by
    decide +kernel
  have hlaw := ValidatedGrammar.executeTerminals_composes reusableStackGrammar
    (by decide : ([0] : List ParserStateId) ≠ []) (by decide) (by decide : ∀ t ∈ [0, 0], _)
    (by decide : ∀ t ∈ [1, 0], _) .granting
  exact ⟨(hlaw.1 _ _ hrun).2 .granting rfl, by decide +kernel⟩

end GreatGramma
