import GreatGramma.Preparation.Classification

/-!
# The engine's decision about a head

At run time the engine decides whether a stack can read a head in two ways: the classification
cell of the top state answers, or, when the cell is `dependent`, the head is replayed on a scratch
stack.  Both are the answer of the reference interpreter, for every stack of parser states,
reachable or not, and whatever the scratch stack held before
(`sequenceAllowedWithScratch_eq_reference`).

## Settling

A replay copies the stack, so it reserves, and may be refused.  What is proved of the engine has
therefore two sides: the answer that it comes to, which is a function of the row (`headAnswer`),
and that it comes to it unless a reservation is refused.  This is what *settles* means here and in
the modules behind this one (`Library.Reservation`).  A fault of the table is reported as an error
of its own and never as a refused reservation (`mapParserError_faultError`), so the two stay apart
all the way up.

## A grammar to try things on

The file begins with what the other lookups of a sound prepared grammar find, and ends with a
small grammar on which the theorems of the development are tried: the lists of `a`, over a
left-recursive rule.  Its spanner and its classifications are written out, and preparation is
shown to find them.  One of the cells is `dependent`, so the replay is tried as well.
-/

namespace GreatGramma

open Reservation ShiftReduce Traversal

namespace PreparedGrammar

variable {prepared : PreparedGrammar}

/-! ## Lookups -/

theorem Sound.querySource_eq (hsound : prepared.Sound) {state : LexerState}
    (hvalid : state.Valid prepared.grammar.lexer) :
    prepared.spanner.querySource state = .ok state.index := by
  simp only [PreparedSpanner.querySource, hsound.spanner.tokens.sources,
    sourceIndexForCount_eq hvalid]

/-- Looking a token up is running it. -/
theorem Sound.tokenExecution_eq (hsound : prepared.Sound) {state : LexerState} {token : TokenId}
    {entry : TokenEntry} (hvalid : state.Valid prepared.grammar.lexer)
    (htoken : prepared.grammar.token token = some entry) :
    prepared.spanner.tokenExecution state token =
      .ok (prepared.grammar.tokenEffect state entry) := by
  simp only [PreparedSpanner.tokenExecution, hsound.querySource_eq hvalid,
    hsound.spanner.tokens.cell hvalid htoken]

variable (prepared) in
/-- The inverse row of a lexer state. -/
def inverseRow (state : LexerState) : List InverseBucket :=
  (prepared.spanner.inverse[state.index]?).getD []

theorem Sound.inverseRow_exact (hsound : prepared.Sound) {state : LexerState}
    (hvalid : state.Valid prepared.grammar.lexer) :
    RowExact prepared.grammar prepared.spanner.sequences.sequences state
      (prepared.inverseRow state) := by
  obtain ⟨row, hrow, hexact⟩ := hsound.spanner.rows hvalid
  rw [inverseRow, hrow, Option.getD_some]
  exact hexact

theorem Sound.inverseBuckets_eq (hsound : prepared.Sound) {state : LexerState}
    (hvalid : state.Valid prepared.grammar.lexer) :
    prepared.spanner.inverseBuckets state = .ok (prepared.inverseRow state) := by
  obtain ⟨row, hrow, -⟩ := hsound.spanner.rows hvalid
  simp only [PreparedSpanner.inverseBuckets, hsound.querySource_eq hvalid, hrow, inverseRow,
    Option.getD_some]

theorem Sound.sequence_emittable (hsound : prepared.Sound) {sequence : SequenceId}
    {head : List TerminalId} (hsequence : prepared.spanner.sequence sequence = some head) :
    ∃ direct c, head = direct ++ [c] ∧ prepared.grammar.lalr.Emittable head :=
  hsound.spanner.heads head (List.mem_of_getElem? hsequence)

/-! ## Heads -/

variable (prepared) in
/-- The engine's answer on a head. -/
def headAnswer (stack : List ParserStateId) (head : List TerminalId) : Except EngineError Bool :=
  (prepared.grammar.lalr.readable stack head).mapError mapParserError

theorem mapParserError_faultError (lalr : ValidatedLalr)
    (f : Fault ParserStateId TerminalId ProductionId) :
    mapParserError (lalr.faultError f) = .corruptPreparedData := by
  cases f <;> rfl

theorem refused_mapParserError {e : ParserError} (h : Refused e) : Refused (mapParserError e) := by
  obtain ⟨requested, rfl⟩ := h
  exact ⟨requested, rfl⟩

/-- **The decision about a head**, from the cell or by a replay. -/
theorem Sound.sequenceAllowedWithScratch_settles (hsound : prepared.Sound)
    {stack : List ParserStateId} {sequence : SequenceId} {head : List TerminalId}
    (hstack : prepared.grammar.lalr.ValidStack stack)
    (hsequence : prepared.spanner.sequence sequence = some head) (scratch : Workspace) :
    Settles scratch (fun reply _ => reply = prepared.headAnswer stack head)
      (prepared.sequenceAllowedWithScratch stack sequence scratch) := by
  obtain ⟨below, top, rfl⟩ := List.eq_nil_or_concat stack |>.resolve_left hstack.1
  rw [List.concat_eq_append] at hstack ⊢
  have htop : top < prepared.grammar.lalr.stateCount := hstack.2 top (by simp)
  obtain ⟨cell, hcell, decision, hdecision, rfl⟩ := hsound.cells htop hsequence
  obtain ⟨direct, c, rfl, hhead⟩ := hsound.sequence_emittable hsequence
  have hsymbolic := readable_of_symbolic below htop hhead hdecision
  unfold sequenceAllowedWithScratch headAnswer
  simp only [List.getLast?_concat, hcell]
  cases hclass : classifyDecision decision with
  | alwaysReadable =>
    rw [hclass] at hsymbolic
    rw [hsymbolic]
    exact .here rfl
  | rejected =>
    rw [hclass] at hsymbolic
    rw [hsymbolic]
    exact .here rfl
  | dependent =>
    have hreplay := sequenceHeadAllowedWithScratch_settles hstack hhead scratch
    simp only [hsequence]
    generalize sequenceHeadAllowedWithScratch prepared.grammar (below ++ [top]) (direct ++ [c])
      scratch = out at hreplay
    cases hreplay with
    | refused hs he => exact .refused hs (refused_mapParserError he)
    | @done reply scratch' h hs =>
      subst h
      cases prepared.grammar.lalr.readable (below ++ [top]) (direct ++ [c]) with
      | error e => exact .done rfl hs
      | ok allowed => exact .done rfl hs

end PreparedGrammar

/-! ## A grammar to try things on -/

/-- The lexer of the lists of `a`: one state for the byte, with the label `0`. -/
def reusableStackLexer : ValidatedLexer where
  stateCount := 2
  classCount := 2
  byteClasses := (List.replicate 256 0).set 97 1
  transitions := [none, some 1, none, none]
  startState := 0
  terminals := [none, some 0]
  stateCount_lt := by decide
  cells_lt := by decide
  byteClasses_length := by decide +kernel
  byteClasses_lt := by decide +kernel
  transitions_length := by decide
  transitions_lt := by
    intro d h
    simp only [List.mem_cons, reduceCtorEq, Option.some.injEq, List.not_mem_nil, or_false,
      false_or] at h
    subst h
    decide
  startState_lt := by decide
  terminals_length := by decide
  startState_unlabelled := by decide

/-- The table of `S → a | S a`. -/
def reusableStackLalr : ValidatedLalr where
  dimensions := ⟨4, 2, 1⟩
  startState := 0
  eofTerminal := 1
  actions := [.shift 1, .error, .reduce 0 0, .reduce 0 0, .shift 3, .accept, .reduce 1 0,
    .reduce 1 0]
  gotos := [some 2, none, none, none]
  productions := [⟨0, 1⟩, ⟨0, 2⟩]
  ignoredTerminals := [0, 0]
  stateCount_lt := by decide
  terminalCount_lt := by decide
  actionCells_lt := by decide
  gotoCells_lt := by decide
  actions_length := by decide
  gotos_length := by decide
  ignoredTerminals_length := by decide
  startState_lt := by decide
  eofTerminal_lt := by decide
  eofTerminal_kept := by decide
  shift_lt := by simp
  reduce_lt := by
    intro p rank h
    simp only [List.mem_cons, Action.reduce.injEq, reduceCtorEq, List.not_mem_nil, false_or,
      or_false] at h
    rcases h with ⟨rfl, -⟩ | ⟨rfl, -⟩ | ⟨rfl, -⟩ | ⟨rfl, -⟩ <;> decide
  accept_eof := by
    intro cell h
    obtain ⟨hcell, -⟩ := List.getElem?_eq_some_iff.mp h
    revert h
    exact (by decide : ∀ cell < 8, ([.shift 1, .error, .reduce 0 0, .reduce 0 0, .shift 3,
      .accept, .reduce 1 0, .reduce 1 0] : List Action)[cell]? = some .accept → cell % 2 = 1)
      cell hcell
  gotos_lt := by simp
  lhs_lt := by decide

/-- The lists of `a`, with one token for the byte and one for the end. -/
def reusableStackGrammar : ValidatedGrammar where
  tokens := [.bytes [97], .eos]
  lexer := reusableStackLexer
  lalr := reusableStackLalr
  tokens_length_lt := by decide
  hasOrdinary := ⟨[97], by decide⟩
  hasEos := by decide
  bytes_ne_nil := by decide
  terminals_lt := by
    intro t h
    change some t ∈ [none, some 0] at h
    simp only [List.mem_cons, reduceCtorEq, Option.some.injEq, List.not_mem_nil, or_false,
      false_or] at h
    subst h
    decide
  terminals_ne_eof := by decide

/-- Enough for a small grammar. -/
def reusableStackLimits : PreparationLimits := ⟨10000, 100000⟩

/-- The lists of `a`, prepared. -/
def reusableStackPrepared : PreparedGrammar :=
  (prepare reusableStackGrammar reusableStackLimits).toOption.get (by decide +kernel)

theorem reusableStack_prepare :
    prepare reusableStackGrammar reusableStackLimits = .ok reusableStackPrepared :=
  eq_ok_get _ _

deriving instance DecidableEq for PreparedTokenTable
deriving instance DecidableEq for SequenceTable
deriving instance DecidableEq for PreparedSpanner
deriving instance DecidableEq for PreparedParser

/-- The spanner of the lists of `a`: the heads are one `a` and two of them. -/
def reusableStackSpanner : PreparedSpanner where
  tokenTable := ⟨[[some (.continue (.dfa 1) []), some (.finished [] 1)],
    [some (.continue (.dfa 1) []), none],
    [some (.continue (.dfa 1) [0]), some (.finished [0] 1)]]⟩
  sequences := ⟨[[0], [0], [0]], [[0], [0, 0]], 3⟩
  inverse := [[⟨0, [0]⟩], [⟨0, [0]⟩], [⟨1, [0]⟩]]

/-- The classifications of its four parser states. -/
def reusableStackParser : PreparedParser :=
  ⟨[[.alwaysReadable, .alwaysReadable], [.dependent, .dependent],
    [.alwaysReadable, .dependent], [.dependent, .dependent]]⟩

/-- Preparation of the lists of `a` finds these tables. -/
theorem reusableStackPrepared_eq :
    reusableStackPrepared =
      ⟨reusableStackGrammar, reusableStackSpanner, reusableStackParser, 1⟩ := by
  have htables : reusableStackPrepared.spanner = reusableStackSpanner ∧
      reusableStackPrepared.parser = reusableStackParser ∧
      reusableStackPrepared.maskBytes = 1 := by decide +kernel
  obtain ⟨hspanner, hparser, hmask⟩ := htables
  have hgrammar := (prepare_sound reusableStack_prepare).1
  rw [← hspanner, ← hparser, ← hmask, ← hgrammar]

/-! ## The preprocessed path is the full interpreter -/

/-- **The preprocessed parser path equals the full interpreter.**  On every nonempty
stack of parser states and over every interned head, the engine's decision is the
answer of `execute_sequence_head`; and every cell is the classification of its state
and head, which speaks for every stack with that top. -/
theorem sequenceAllowedWithScratch_eq_reference {grammar : ValidatedGrammar}
    {limits : PreparationLimits} {prepared : PreparedGrammar}
    (hprepare : prepare grammar limits = .ok prepared) {sequence : SequenceId}
    {head : List TerminalId} (hsequence : prepared.spanner.sequence sequence = some head) :
    (∀ stack, stack ≠ [] → (∀ q ∈ stack, q < grammar.lalr.stateCount) → ∀ contents,
      (prepared.sequenceAllowedWithScratch stack sequence ⟨contents, .granting⟩).1 =
        match (executeSequenceHead grammar stack head .granting).1 with
        | .ok (some _) => .ok true
        | .ok none => .ok false
        | .error error => .error (mapParserError error)) ∧
    ∀ q < grammar.lalr.stateCount, ∃ cell,
      prepared.parser.classification q sequence = .ok cell ∧
      (classifySequenceHead grammar q head .granting).1 = .ok cell ∧
      ∀ below, (∀ s ∈ below, s < grammar.lalr.stateCount) →
        (cell = .alwaysReadable → ∃ committed,
          (executeSequenceHead grammar (below ++ [q]) head .granting).1 = .ok (some committed)) ∧
        (cell = .rejected →
          (executeSequenceHead grammar (below ++ [q]) head .granting).1 = .ok none) := by
  obtain ⟨rfl, hsound⟩ := prepare_sound hprepare
  obtain ⟨direct, c, rfl, hhead⟩ := hsound.sequence_emittable hsequence
  constructor
  · intro stack hne hstates contents
    have hstack : prepared.grammar.lalr.ValidStack stack := ⟨hne, hstates⟩
    obtain ⟨hreply, -⟩ := (hsound.sequenceAllowedWithScratch_settles hstack hsequence
      ⟨contents, .granting⟩).of_granting rfl
    rw [hreply, PreparedGrammar.headAnswer, readable_eq hstack hhead]
    cases (executeSequenceHead prepared.grammar stack (direct ++ [c]) .granting).1 with
    | error e => rfl
    | ok committed => cases committed <;> rfl
  · intro q hq
    obtain ⟨cell, hcell, decision, hdecision, rfl⟩ := hsound.cells hq hsequence
    refine ⟨_, hcell, ?_, fun below hbelow => ?_⟩
    · rw [classifySequenceHead_eq hq (by simp) hhead, hdecision]
      rfl
    · have hstack : prepared.grammar.lalr.ValidStack (below ++ [q]) := by
        refine ⟨by simp, fun s hs => ?_⟩
        rcases List.mem_append.mp hs with hs | hs
        · exact hbelow s hs
        · exact List.mem_singleton.mp hs ▸ hq
      have hsymbolic := readable_of_symbolic below hq hhead hdecision
      rw [readable_eq hstack hhead] at hsymbolic
      constructor
      · intro hclass
        rw [hclass] at hsymbolic
        obtain ⟨committed, hcommitted, hsome⟩ := map_eq_ok.mp hsymbolic
        obtain ⟨stack, rfl⟩ := Option.isSome_iff_exists.mp hsome
        exact ⟨stack, hcommitted⟩
      · intro hclass
        rw [hclass] at hsymbolic
        obtain ⟨committed, hcommitted, hnone⟩ := map_eq_ok.mp hsymbolic
        cases committed with
        | none => exact hcommitted
        | some stack => cases hnone

/-- A stack whose top must be replayed, and a scratch stack with leftovers. -/
theorem sequenceAllowedWithScratch_reusableStack :
    (reusableStackPrepared.sequenceAllowedWithScratch [0, 1] 0 ⟨[3, 3], .granting⟩).1 =
      match (executeSequenceHead reusableStackGrammar [0, 1] [0] .granting).1 with
      | .ok (some _) => .ok true
      | .ok none => .ok false
      | .error error => .error (mapParserError error) := by
  have hsequence : reusableStackPrepared.spanner.sequence 0 = some [0] := by
    rw [reusableStackPrepared_eq]
    rfl
  exact (sequenceAllowedWithScratch_eq_reference reusableStack_prepare hsequence).1 [0, 1]
    (by decide) (by decide) [3, 3]

end GreatGramma
