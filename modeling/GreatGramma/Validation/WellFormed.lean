import Mathlib.Algebra.BigOperators.Group.List.Basic
import Mathlib.Algebra.GroupWithZero.Nat
import GreatGramma.Core.Validate

/-!
# Well-formed grammars

What `validate` asks of a grammar, said without its loops: which tokens there must be, what must
fit a machine word, what must stay within the limits, and which cells must refer to what.

## The definition

`WellFormed` is a conjunction of six parts, each a structure with named fields, so that later
modules take from it what they use.

* `TokensFormed`: there is an ordinary entry and an EOS entry, and no empty one.
* `Counted`: the counts and the cell products fit `u32`.
* `Within`: every total is within its limit.
* `Shaped`: every table has its declared length.
* `InRange`: every reference is in range.
* `Separated`: the start of the lexer has no label, EOF is no label and is not ignored, and the
  parser accepts at EOF only.

The totals are plain sums here; the source meters the work token by token, and since it only grows,
the last comparison is the one that counts (`tokens_foldlM_eq_ok`).  That a sum is within its limit
says also that it fits the machine word, since the limits do.

## The equivalence

`checkGrammar_eq_ok` says that the checks pass exactly on the well-formed grammars.  Each function
of `Core.Validate` has its own equivalence, and a loop over a table passes just if every cell does.
-/

namespace GreatGramma

open Traversal

/-! ## The definition -/

/-- The bytes that a token counts for. -/
def TokenEntry.byteCount : TokenEntry → ℕ
  | .bytes content => content.length
  | .eos => 0

namespace UnvalidatedGrammar

variable (grammar : UnvalidatedGrammar)

/-- The bytes of all tokens. -/
def tokenBytes : ℕ := (grammar.tokens.map TokenEntry.byteCount).sum

/-- The cells of the transition table. -/
def lexerCells : ℕ := grammar.lexer.stateCount * grammar.lexer.classCount

/-- The cells of the action table. -/
def actionCells : ℕ :=
  grammar.lalr.dimensions.stateCount * grammar.lalr.dimensions.terminalCount

/-- The cells of the goto table. -/
def gotoCells : ℕ :=
  grammar.lalr.dimensions.stateCount * grammar.lalr.dimensions.nonterminalCount

/-- The work of validation without its tokens. -/
def baseWork : ℕ :=
  8 + 256 + grammar.lexer.stateCount + grammar.lexerCells + grammar.actionCells * 2 +
    grammar.gotoCells + grammar.lalr.productions.length + grammar.lalr.ignoredTerminals.length

/-- The work of validation: the entries and bytes that it inspects. -/
def work : ℕ := grammar.baseWork + grammar.tokens.length + grammar.tokenBytes

theorem baseWork_le : grammar.baseWork ≤ grammar.work := by
  unfold work
  omega

/-- The logical size of the tables. -/
def logicalBytes : ℕ :=
  grammar.tokens.length + grammar.tokenBytes + 8 * 4 + 256 * 4 + grammar.lexerCells * 4 +
    grammar.lexer.stateCount * 4 + grammar.actionCells * 12 + grammar.gotoCells * 4 +
    grammar.lalr.productions.length * 8 + grammar.lalr.ignoredTerminals.length * 4

/-- The sizes that the totals are computed from. -/
def declaredSizes : Validate.DeclaredSizes where
  tokenCount := grammar.tokens.length
  tokenBytes := grammar.tokenBytes
  lexerStates := grammar.lexer.stateCount
  lexerCells := grammar.lexerCells
  parserActionCells := grammar.actionCells
  parserGotoCells := grammar.gotoCells
  productionCount := grammar.lalr.productions.length
  ignoredTerminalCount := grammar.lalr.ignoredTerminals.length

/-- The token table: it has an ordinary entry and an EOS entry, and no empty one. -/
structure TokensFormed : Prop where
  ordinary : ∃ bytes, TokenEntry.bytes bytes ∈ grammar.tokens
  eos : TokenEntry.eos ∈ grammar.tokens
  nonempty : TokenEntry.bytes [] ∉ grammar.tokens

/-- The counts and the cell products, with the sum of the parser's, fit `u32`. -/
structure Counted : Prop where
  tokens : grammar.tokens.length < 2 ^ 32
  productions : grammar.lalr.productions.length < 2 ^ 32
  ignoredTerminals : grammar.lalr.ignoredTerminals.length < 2 ^ 32
  lexerCells : grammar.lexerCells < 2 ^ 32
  actionCells : grammar.actionCells < 2 ^ 32
  gotoCells : grammar.gotoCells < 2 ^ 32
  parserCells : grammar.actionCells + grammar.gotoCells < 2 ^ 32

/-- Every total is within its limit. -/
structure Within (limits : ValidationLimits) : Prop where
  tokens : grammar.tokens.length ≤ limits.maxTokens.toNat
  tokenBytes : grammar.tokenBytes ≤ limits.maxTokenBytes.toNat
  dfaStates : grammar.lexer.stateCount ≤ limits.maxDfaStates.toNat
  dfaClasses : grammar.lexer.classCount ≤ limits.maxDfaClasses.toNat
  dfaCells : grammar.lexerCells ≤ limits.maxDfaCells.toNat
  parserStates : grammar.lalr.dimensions.stateCount ≤ limits.maxParserStates.toNat
  terminals : grammar.lalr.dimensions.terminalCount ≤ limits.maxTerminals.toNat
  nonterminals : grammar.lalr.dimensions.nonterminalCount ≤ limits.maxNonterminals.toNat
  productions : grammar.lalr.productions.length ≤ limits.maxProductions.toNat
  parserCells : grammar.actionCells + grammar.gotoCells ≤ limits.maxParserCells.toNat
  logicalBytes : grammar.logicalBytes ≤ limits.maxLogicalBytes.toNat
  work : grammar.work ≤ limits.maxWork.toNat

/-- Every table has its declared length. -/
structure Shaped : Prop where
  byteClasses : grammar.lexer.byteClasses.length = 256
  transitions : grammar.lexer.transitions.length = grammar.lexerCells
  terminals : grammar.lexer.terminals.length = grammar.lexer.stateCount
  actions : grammar.lalr.actions.length = grammar.actionCells
  gotos : grammar.lalr.gotos.length = grammar.gotoCells

/-- Every reference is in range. -/
structure InRange : Prop where
  lexerStart : grammar.lexer.startState < grammar.lexer.stateCount
  parserStart : grammar.lalr.startState < grammar.lalr.dimensions.stateCount
  eof : grammar.lalr.eofTerminal < grammar.lalr.dimensions.terminalCount
  byteClasses : ∀ c ∈ grammar.lexer.byteClasses, c < grammar.lexer.classCount
  transitions : ∀ d, some d ∈ grammar.lexer.transitions → d < grammar.lexer.stateCount
  labels : ∀ t, some t ∈ grammar.lexer.terminals → t < grammar.lalr.dimensions.terminalCount
  shifts : ∀ d, Action.shift d ∈ grammar.lalr.actions → d < grammar.lalr.dimensions.stateCount
  reductions : ∀ p rank, Action.reduce p rank ∈ grammar.lalr.actions →
    p < grammar.lalr.productions.length
  gotos : ∀ d, some d ∈ grammar.lalr.gotos → d < grammar.lalr.dimensions.stateCount
  lhs : ∀ p ∈ grammar.lalr.productions, p.lhs < grammar.lalr.dimensions.nonterminalCount
  ignored : ∀ t ∈ grammar.lalr.ignoredTerminals, t < grammar.lalr.dimensions.terminalCount

/-- The start of the lexer has no label, EOF is no label and is not ignored, and the
parser accepts at EOF only. -/
structure Separated : Prop where
  start : ∀ t, grammar.lexer.terminals[grammar.lexer.startState]? ≠ some (some t)
  labels : some grammar.lalr.eofTerminal ∉ grammar.lexer.terminals
  ignored : grammar.lalr.eofTerminal ∉ grammar.lalr.ignoredTerminals
  accept : ∀ cell, grammar.lalr.actions[cell]? = some .accept →
    cell % grammar.lalr.dimensions.terminalCount = grammar.lalr.eofTerminal

/-- **A well-formed grammar.** -/
structure WellFormed (limits : ValidationLimits) : Prop where
  tokens : grammar.TokensFormed
  counted : grammar.Counted
  within : grammar.Within limits
  shaped : grammar.Shaped
  inRange : grammar.InRange
  separated : grammar.Separated

end UnvalidatedGrammar

namespace Validate

/-! ## Totals -/

/-- A running total in `u64` is the sum, if the sum fits. -/
theorem validationBaseWork_eq_ok {sizes : DeclaredSizes} {total : ℕ} :
    validationBaseWork sizes = .ok total ↔
      8 + 256 + sizes.lexerStates + sizes.lexerCells + sizes.parserActionCells * 2 +
        sizes.parserGotoCells + sizes.productionCount + sizes.ignoredTerminalCount = total ∧
      total < 2 ^ 64 := by
  simp only [validationBaseWork, bind_eq_ok, checkedAdd_eq_ok, checkedMul_eq_ok, and_assoc,
    exists_and_left, exists_eq_left', logicalFixedScalars, byteClassTableLen, logicalActionWork]
  constructor
  · rintro ⟨-, -, -, -, -, -, -, -, hlast, rfl⟩
    exact ⟨by omega, by omega⟩
  · rintro ⟨rfl, hfit⟩
    refine ⟨?_, ?_, ?_, ?_, ?_, ?_, ?_, ?_, ?_, ?_⟩ <;> omega

theorem logicalBytes_eq_ok {sizes : DeclaredSizes} {total : ℕ} :
    logicalBytes sizes = .ok total ↔
      sizes.tokenCount + sizes.tokenBytes + 8 * 4 + 256 * 4 + sizes.lexerCells * 4 +
        sizes.lexerStates * 4 + sizes.parserActionCells * 12 + sizes.parserGotoCells * 4 +
        sizes.productionCount * 8 + sizes.ignoredTerminalCount * 4 = total ∧
      total < 2 ^ 64 := by
  simp only [logicalBytes, bind_eq_ok, checkedAdd_eq_ok, checkedMul_eq_ok, and_assoc,
    exists_and_left, exists_eq_left', logicalFixedScalars, byteClassTableLen, logicalIdBytes,
    logicalActionBytes, logicalProductionBytes]
  constructor
  · intro h
    omega
  · rintro ⟨rfl, hfit⟩
    omega

/-! ## Tokens -/

/-- The token loop is within its limits. -/
def TokenValidation.Within (state : TokenValidation) (limits : ValidationLimits) : Prop :=
  state.totalBytes ≤ limits.maxTokenBytes.toNat ∧ state.work ≤ limits.maxWork.toNat

/-- The token loop after an entry, if no limit is in its way. -/
def TokenValidation.after (state : TokenValidation) : TokenEntry → TokenValidation
  | .bytes content =>
    ⟨true, state.hasEos, state.totalBytes + content.length, state.work + 1 + content.length⟩
  | .eos => ⟨state.hasOrdinary, true, state.totalBytes, state.work + 1⟩

theorem validateTokenEntry_eq_ok {limits : ValidationLimits} {state next : TokenValidation}
    {entry : TokenEntry × ℕ} (h : state.Within limits) :
    validateTokenEntry limits state entry = .ok next ↔
      entry.1 ≠ .bytes [] ∧ state.after entry.1 = next ∧ next.Within limits := by
  have hbytes := limits.maxTokenBytes.toNat_lt
  have hwork := limits.maxWork.toNat_lt
  obtain ⟨hstate, -⟩ := h
  obtain ⟨entry, index⟩ := entry
  cases entry with
  | eos =>
    simp only [validateTokenEntry, bind_eq_ok, checkedAdd_eq_ok, checkLimit_eq_ok, pure_eq_ok]
    constructor
    · rintro ⟨_, ⟨-, rfl⟩, -, hlimit, rfl⟩
      exact ⟨fun heq => (by cases heq), rfl, hstate, hlimit⟩
    · rintro ⟨-, rfl, -, hlimit⟩
      exact ⟨_, ⟨Nat.lt_of_le_of_lt hlimit hwork, rfl⟩, ⟨⟩, hlimit, rfl⟩
  | bytes content =>
    by_cases hempty : content = []
    · subst hempty
      simp only [validateTokenEntry, bind_eq_ok, List.isEmpty_nil, if_true, ne_eq,
        not_true_eq_false,
        false_and, iff_false]
      rintro ⟨_, -, -, -, _, -, herror⟩
      cases herror
    · have hcontent : content.isEmpty = false := List.isEmpty_eq_false_iff.mpr hempty
      simp only [validateTokenEntry, bind_eq_ok, checkedAdd_eq_ok, checkLimit_eq_ok, pure_eq_ok,
        hcontent, Bool.false_eq_true, if_false]
      constructor
      · rintro ⟨_, ⟨-, rfl⟩, -, -, _, ⟨-, rfl⟩, -, hlimit, _, ⟨-, rfl⟩, -, hlimit', rfl⟩
        exact ⟨fun heq => hempty (TokenEntry.bytes.inj heq), rfl, hlimit, hlimit'⟩
      · rintro ⟨-, rfl, hlimit, hlimit'⟩
        simp only [TokenValidation.after] at hlimit hlimit'
        exact ⟨_, ⟨by omega, rfl⟩, ⟨⟩, by omega, _, ⟨by omega, rfl⟩, ⟨⟩, hlimit, _,
          ⟨by omega, rfl⟩, ⟨⟩, hlimit', rfl⟩

theorem TokenValidation.Within.of_after {limits : ValidationLimits} {tokens : List TokenEntry}
    {state : TokenValidation} (h : (tokens.foldl TokenValidation.after state).Within limits) :
    state.Within limits := by
  induction tokens generalizing state with
  | nil => exact h
  | cons entry tokens ih =>
    obtain ⟨hbytes, hwork⟩ := ih h
    cases entry with
    | bytes content =>
      simp only [TokenValidation.after] at hbytes hwork
      exact ⟨by omega, by omega⟩
    | eos =>
      simp only [TokenValidation.after] at hwork
      exact ⟨hbytes, by omega⟩

/-- **The token loop.**  It passes when no entry is empty and its last totals are within
the limits; the totals on the way there are smaller. -/
theorem tokens_foldlM_eq_ok {limits : ValidationLimits} {tokens : List TokenEntry} {index : ℕ}
    {state last : TokenValidation} (h : state.Within limits) :
    (tokens.zipIdx index).foldlM (validateTokenEntry limits) state = .ok last ↔
      TokenEntry.bytes [] ∉ tokens ∧ tokens.foldl TokenValidation.after state = last ∧
        last.Within limits := by
  induction tokens generalizing index state with
  | nil =>
    simp only [List.zipIdx_nil, List.foldlM_nil, pure_eq_ok, List.foldl_nil]
    exact ⟨fun heq => ⟨List.not_mem_nil, heq, heq ▸ h⟩, fun heq => heq.2.1⟩
  | cons entry tokens ih =>
    rw [List.zipIdx_cons, List.foldlM_cons, bind_eq_ok, List.foldl_cons, List.mem_cons, not_or]
    constructor
    · rintro ⟨next, hentry, hrest⟩
      obtain ⟨hne, rfl, hnext⟩ := (validateTokenEntry_eq_ok h).mp hentry
      obtain ⟨hnil, hlast, hwithin⟩ := (ih hnext).mp hrest
      exact ⟨⟨Ne.symm hne, hnil⟩, hlast, hwithin⟩
    · rintro ⟨⟨hne, hnil⟩, rfl, hwithin⟩
      have hnext : (state.after entry).Within limits := hwithin.of_after
      exact ⟨_, (validateTokenEntry_eq_ok h).mpr ⟨Ne.symm hne, rfl, hnext⟩,
        (ih hnext).mpr ⟨hnil, rfl, hwithin⟩⟩

theorem foldl_after (tokens : List TokenEntry) (state : TokenValidation) :
    (tokens.foldl TokenValidation.after state).totalBytes =
        state.totalBytes + (tokens.map TokenEntry.byteCount).sum ∧
      (tokens.foldl TokenValidation.after state).work =
        state.work + tokens.length + (tokens.map TokenEntry.byteCount).sum := by
  induction tokens generalizing state with
  | nil => exact ⟨rfl, rfl⟩
  | cons entry tokens ih =>
    obtain ⟨hbytes, hwork⟩ := ih (state.after entry)
    rw [List.foldl_cons, hbytes, hwork, List.map_cons, List.sum_cons, List.length_cons]
    cases entry <;> simp only [TokenValidation.after, TokenEntry.byteCount] <;> omega

theorem foldl_after_seen (tokens : List TokenEntry) (state : TokenValidation) :
    ((tokens.foldl TokenValidation.after state).hasOrdinary = true ↔
        state.hasOrdinary = true ∨ ∃ content, TokenEntry.bytes content ∈ tokens) ∧
      ((tokens.foldl TokenValidation.after state).hasEos = true ↔
        state.hasEos = true ∨ TokenEntry.eos ∈ tokens) := by
  induction tokens generalizing state with
  | nil => simp
  | cons entry tokens ih =>
    obtain ⟨hordinary, heos⟩ := ih (state.after entry)
    rw [List.foldl_cons, hordinary, heos]
    cases entry with
    | bytes content =>
      refine ⟨⟨fun _ => Or.inr ⟨content, List.mem_cons_self⟩, fun _ => Or.inl rfl⟩, ?_⟩
      simp [TokenValidation.after]
    | eos => simp [TokenValidation.after]

theorem validateTokens_eq_ok {grammar : UnvalidatedGrammar} {limits : ValidationLimits}
    {initialWork total : ℕ} (h : initialWork ≤ limits.maxWork.toNat) :
    validateTokens grammar.tokens initialWork limits = .ok total ↔
      grammar.TokensFormed ∧ grammar.tokenBytes = total ∧
        grammar.tokenBytes ≤ limits.maxTokenBytes.toNat ∧
        initialWork + grammar.tokens.length + grammar.tokenBytes ≤ limits.maxWork.toNat := by
  have hstart : TokenValidation.Within ⟨false, false, 0, initialWork⟩ limits := ⟨Nat.zero_le _, h⟩
  obtain ⟨hbytes, hwork⟩ := foldl_after grammar.tokens ⟨false, false, 0, initialWork⟩
  obtain ⟨hordinary, heos⟩ := foldl_after_seen grammar.tokens ⟨false, false, 0, initialWork⟩
  simp only [Nat.zero_add, Bool.false_eq_true, false_or] at hbytes hordinary heos
  rw [validateTokens, bind_eq_ok]
  simp only [tokens_foldlM_eq_ok hstart, ite_error_eq_ok, pure_eq_ok, Bool.not_eq_true',
    Bool.not_eq_false]
  constructor
  · rintro ⟨_, ⟨hnil, rfl, hwithin⟩, hsome, hend, rfl⟩
    obtain ⟨hlimit, hlimit'⟩ := hwithin
    rw [hbytes] at hlimit
    rw [hwork] at hlimit'
    exact ⟨⟨hordinary.mp hsome, heos.mp hend, hnil⟩, hbytes.symm, hlimit, hlimit'⟩
  · rintro ⟨hformed, rfl, hlimit, hlimit'⟩
    refine ⟨_, ⟨hformed.nonempty, rfl, ?_, ?_⟩, hordinary.mpr hformed.ordinary,
      heos.mpr hformed.eos, hbytes⟩
    · rwa [hbytes]
    · rwa [hwork]

/-! ## Declared sizes -/

theorem validateDeclaredSizes_eq_ok {grammar : UnvalidatedGrammar} {limits : ValidationLimits}
    {sizes : DeclaredSizes} :
    validateDeclaredSizes grammar.tokens grammar.lexer grammar.lalr limits = .ok sizes ↔
      grammar.TokensFormed ∧ grammar.Counted ∧ grammar.Within limits ∧
        grammar.declaredSizes = sizes := by
  simp only [validateDeclaredSizes, ite_error_eq_ok, bind_eq_ok, checkedLen_eq_ok,
    checkedProduct_eq_ok, checkedSum_eq_ok, checkLimit_eq_ok, pure_eq_ok, and_assoc,
    exists_and_left, exists_eq_left', exists_const, validationBaseWork_eq_ok, logicalBytes_eq_ok]
  constructor
  · rintro ⟨-, htokens, htokens', hstates, hclasses, hparser, hterminals, hnonterminals,
      hproductions, hignored, hproductions', hlexer, hlexer', haction, hgoto, hsum, hsum', -, hbase,
      _, hloop, hlogical, hlogical', rfl⟩
    obtain ⟨hformed, rfl, hbytes, hwork⟩ := (validateTokens_eq_ok hbase).mp hloop
    exact ⟨hformed, ⟨htokens, hproductions, hignored, hlexer, haction, hgoto, hsum⟩,
      ⟨htokens', hbytes, hstates, hclasses, hlexer', hparser, hterminals, hnonterminals,
        hproductions', hsum', hlogical', hwork⟩, rfl⟩
  · rintro ⟨hformed, hcounted, hwithin, rfl⟩
    have htokens : ¬grammar.tokens.isEmpty = true := by
      rw [List.isEmpty_iff]
      exact List.ne_nil_of_mem hformed.eos
    have hbase : grammar.baseWork ≤ limits.maxWork.toNat :=
      Nat.le_trans grammar.baseWork_le hwithin.work
    have hloop : validateTokens grammar.tokens grammar.baseWork limits = .ok grammar.tokenBytes :=
      (validateTokens_eq_ok hbase).mpr ⟨hformed, rfl, hwithin.tokenBytes, hwithin.work⟩
    exact ⟨htokens, hcounted.tokens, hwithin.tokens, hwithin.dfaStates, hwithin.dfaClasses,
      hwithin.parserStates, hwithin.terminals, hwithin.nonterminals, hcounted.productions,
      hcounted.ignoredTerminals, hwithin.productions, hcounted.lexerCells, hwithin.dfaCells,
      hcounted.actionCells, hcounted.gotoCells, hcounted.parserCells, hwithin.parserCells,
      Nat.lt_of_le_of_lt hbase limits.maxWork.toNat_lt, hbase, _, hloop,
      Nat.lt_of_le_of_lt hwithin.logicalBytes limits.maxLogicalBytes.toNat_lt,
      hwithin.logicalBytes, rfl⟩

/-! ## Tables

A cell that is absent refers to nothing. -/

theorem validateOptionalId_eq_ok {table : ValidationTable} {kind : IdKind} {count index : ℕ}
    {id : Option ℕ} :
    validateOptionalId table kind count id index = .ok ⟨⟩ ↔ ∀ d, id = some d → d < count := by
  cases id with
  | none => exact ⟨fun _ d hd => (by cases hd), fun _ => rfl⟩
  | some d => simp [validateOptionalId]

theorem checkEach_optionalId_eq_ok {table : ValidationTable} {kind : IdKind} {count : ℕ}
    {ids : List (Option ℕ)} :
    checkEach (validateOptionalId table kind count) ids = .ok ⟨⟩ ↔
      ∀ d, some d ∈ ids → d < count := by
  rw [checkEach_eq_ok_mem (P := fun id => ∀ d, id = some d → d < count)
    fun _ _ => validateOptionalId_eq_ok]
  exact ⟨fun h d hd => h _ hd d rfl, fun h id hid d hd => h d (hd ▸ hid)⟩

theorem validateProductions_eq_ok {productions : List Production} {nonterminalCount : ℕ} :
    validateProductions productions nonterminalCount = .ok ⟨⟩ ↔
      ∀ p ∈ productions, p.lhs < nonterminalCount :=
  checkEach_eq_ok_mem fun _ _ => validateId_eq_ok

theorem validateByteClasses_eq_ok {classes : List ℕ} {classCount : ℕ} :
    validateByteClasses classes classCount = .ok ⟨⟩ ↔ ∀ c ∈ classes, c < classCount := by
  refine checkEach_eq_ok_mem fun byteClass index => ?_
  by_cases h : byteClass < classCount
  · rw [validateByteClass, if_neg (Nat.not_le.mpr h)]
    exact iff_of_true rfl h
  · rw [validateByteClass, if_pos (Nat.not_lt.mp h)]
    split_ifs <;> simp [h]

theorem validateIgnoredTerminals_eq_ok {ignoredTerminals : List TerminalId} {terminalCount : ℕ}
    {eofTerminal : TerminalId} :
    validateIgnoredTerminals ignoredTerminals terminalCount eofTerminal = .ok ⟨⟩ ↔
      (∀ t ∈ ignoredTerminals, t < terminalCount) ∧ eofTerminal ∉ ignoredTerminals := by
  have hone : ∀ t index, validateIgnoredTerminal terminalCount eofTerminal t index = .ok ⟨⟩ ↔
      t < terminalCount ∧ t ≠ eofTerminal := by
    intro t index
    simp [validateIgnoredTerminal, bind_eq_ok]
  rw [validateIgnoredTerminals, checkEach_eq_ok_mem hone]
  constructor
  · intro h
    exact ⟨fun t ht => (h t ht).1, fun heof => (h _ heof).2 rfl⟩
  · rintro ⟨hlt, heof⟩ t ht
    exact ⟨hlt t ht, fun heq => heof (heq ▸ ht)⟩

/-- A label, at a state whose number fits `u32`. -/
theorem validateLexerTerminal_eq_ok {startState terminalCount eofTerminal state : ℕ}
    {terminal : Option TerminalId} (hstate : state < 2 ^ 32) :
    validateLexerTerminal startState terminalCount eofTerminal terminal state = .ok ⟨⟩ ↔
      ∀ t, terminal = some t → t < terminalCount ∧ state ≠ startState ∧ t ≠ eofTerminal := by
  cases terminal with
  | none => exact ⟨fun _ t ht => (by cases ht), fun _ => rfl⟩
  | some t =>
    simp only [validateLexerTerminal, bind_eq_ok, ite_error_eq_ok, validateId_eq_ok,
      indexAsU32_eq_ok, hstate, true_and, exists_and_left, exists_eq_left', exists_const, and_true,
      Option.some.injEq, forall_eq', ne_eq]

theorem validateLexerTerminals_eq_ok {terminals : List (Option TerminalId)}
    {startState terminalCount eofTerminal : ℕ} (hlength : terminals.length < 2 ^ 32) :
    validateLexerTerminals terminals startState terminalCount eofTerminal = .ok ⟨⟩ ↔
      (∀ t, some t ∈ terminals → t < terminalCount) ∧
        (∀ t, terminals[startState]? ≠ some (some t)) ∧ some eofTerminal ∉ terminals := by
  rw [validateLexerTerminals, checkEach_eq_ok]
  have hone : ∀ state cell, terminals[state]? = some cell →
      (validateLexerTerminal startState terminalCount eofTerminal cell state = .ok ⟨⟩ ↔
        ∀ t, cell = some t → t < terminalCount ∧ state ≠ startState ∧ t ≠ eofTerminal) := by
    intro state cell hcell
    have hstate : state < terminals.length := (List.getElem?_eq_some_iff.mp hcell).1
    exact validateLexerTerminal_eq_ok (Nat.lt_trans hstate hlength)
  constructor
  · intro h
    have hcell : ∀ state t, terminals[state]? = some (some t) →
        t < terminalCount ∧ state ≠ startState ∧ t ≠ eofTerminal :=
      fun state t ht => (hone state _ ht).mp (h state _ ht) t rfl
    refine ⟨fun t ht => ?_, fun t ht => (hcell _ t ht).2.1 rfl, fun heof => ?_⟩
    · obtain ⟨state, hstate⟩ := List.mem_iff_getElem?.mp ht
      exact (hcell state t hstate).1
    · obtain ⟨state, hstate⟩ := List.mem_iff_getElem?.mp heof
      exact (hcell state _ hstate).2.2 rfl
  · rintro ⟨hlt, hstart, heof⟩ state cell hcell
    refine (hone state cell hcell).mpr ?_
    rintro t rfl
    refine ⟨hlt t (List.mem_of_getElem? hcell), ?_, ?_⟩
    · rintro rfl
      exact hstart t hcell
    · rintro rfl
      exact heof (List.mem_of_getElem? hcell)

theorem validateAction_eq_ok {width stateCount productionCount eofTerminal index : ℕ}
    {action : Action} (hindex : index < 2 ^ 32) :
    validateAction width stateCount productionCount eofTerminal action index = .ok ⟨⟩ ↔
      (∀ d, action = .shift d → d < stateCount) ∧
        (∀ p rank, action = .reduce p rank → p < productionCount) ∧
        (action = .accept → index % width = eofTerminal) := by
  cases action with
  | error => simp [validateAction]
  | shift destination => simp [validateAction]
  | reduce production rank => simp [validateAction]
  | accept =>
    have hmod : index % width < 2 ^ 32 := Nat.lt_of_le_of_lt (Nat.mod_le _ _) hindex
    by_cases heof : index % width = eofTerminal
    · subst heof
      refine iff_of_true ?_ ⟨fun d h => (by cases h), fun p rank h => (by cases h), fun _ => rfl⟩
      rw [validateAction, bind_eq_ok]
      exact ⟨_, indexAsU32_eq_ok.mpr ⟨hmod, rfl⟩, if_neg (not_not.mpr rfl)⟩
    · -- Whether the row's number fits or not, the cell is refused.
      simp [validateAction, bind_eq_ok, heof]

theorem validateActions_eq_ok {actions : List Action}
    {stateCount terminalCount productionCount eofTerminal : ℕ}
    (hcount : terminalCount < 2 ^ 32) (hlength : actions.length < 2 ^ 32) :
    validateActions actions stateCount terminalCount productionCount eofTerminal = .ok ⟨⟩ ↔
      (∀ d, Action.shift d ∈ actions → d < stateCount) ∧
        (∀ p rank, Action.reduce p rank ∈ actions → p < productionCount) ∧
        (∀ cell, actions[cell]? = some .accept → cell % terminalCount = eofTerminal) := by
  have husize : terminalCount ≤ usizeMax := by
    rw [usizeMax_eq]
    omega
  have hone : ∀ cell action, actions[cell]? = some action →
      (validateAction terminalCount stateCount productionCount eofTerminal action cell = .ok ⟨⟩ ↔
        (∀ d, action = .shift d → d < stateCount) ∧
          (∀ p rank, action = .reduce p rank → p < productionCount) ∧
          (action = .accept → cell % terminalCount = eofTerminal)) := by
    intro cell action haction
    have hcell : cell < actions.length := (List.getElem?_eq_some_iff.mp haction).1
    exact validateAction_eq_ok (Nat.lt_trans hcell hlength)
  simp only [validateActions, bind_eq_ok, countAsUsize_eq_ok, husize, true_and, exists_eq_left',
    checkEach_eq_ok]
  constructor
  · intro h
    refine ⟨fun d hd => ?_, fun p rank hp => ?_, fun cell hcell => ?_⟩
    · obtain ⟨cell, hcell⟩ := List.mem_iff_getElem?.mp hd
      exact ((hone cell _ hcell).mp (h cell _ hcell)).1 d rfl
    · obtain ⟨cell, hcell⟩ := List.mem_iff_getElem?.mp hp
      exact ((hone cell _ hcell).mp (h cell _ hcell)).2.1 p rank rfl
    · exact ((hone cell _ hcell).mp (h cell _ hcell)).2.2 rfl
  · rintro ⟨hshift, hreduce, haccept⟩ cell action hcell
    refine (hone cell action hcell).mpr ⟨?_, ?_, ?_⟩
    · rintro d rfl
      exact hshift d (List.mem_of_getElem? hcell)
    · rintro p rank rfl
      exact hreduce p rank (List.mem_of_getElem? hcell)
    · rintro rfl
      exact haccept cell hcell

/-! ## Ignored terminals -/

/-- The table of the ignored terminals: a one at the listed ones. -/
def ignoredTable (ignoredTerminals : List TerminalId) (terminalCount : ℕ) : List UInt8 :=
  (List.range terminalCount).map fun t => if t ∈ ignoredTerminals then 1 else 0

@[simp] theorem length_ignoredTable (ignoredTerminals : List TerminalId) (terminalCount : ℕ) :
    (ignoredTable ignoredTerminals terminalCount).length = terminalCount := by
  simp [ignoredTable]

theorem getElem?_ignoredTable {ignoredTerminals : List TerminalId} {terminalCount t : ℕ}
    (h : t < terminalCount) :
    (ignoredTable ignoredTerminals terminalCount)[t]? =
      some (if t ∈ ignoredTerminals then 1 else 0) := by
  simp [ignoredTable, h]

/-- Marking writes a one at every listed terminal, if all of them are in the table. -/
theorem foldlM_markIgnoredTerminal {ignoredTerminals : List TerminalId} {table : List UInt8}
    (h : ∀ t ∈ ignoredTerminals, t < table.length) :
    ∃ marked, ignoredTerminals.foldlM markIgnoredTerminal table = .ok marked ∧
      marked.length = table.length ∧
      ∀ t, t < table.length →
        marked[t]? = if t ∈ ignoredTerminals then some 1 else table[t]? := by
  induction ignoredTerminals generalizing table with
  | nil => exact ⟨table, rfl, rfl, fun t _ => (if_neg List.not_mem_nil).symm⟩
  | cons terminal rest ih =>
    have hlength : (table.set terminal 1).length = table.length := List.length_set
    have hrest : ∀ t ∈ rest, t < (table.set terminal 1).length := by
      intro t ht
      rw [hlength]
      exact h t (List.mem_cons_of_mem terminal ht)
    obtain ⟨marked, hmarked, hmarkedLength, hget⟩ := ih hrest
    have hone : markIgnoredTerminal table terminal = .ok (table.set terminal 1) :=
      if_pos (h terminal List.mem_cons_self)
    refine ⟨marked, ?_, hmarkedLength.trans hlength, fun t ht => ?_⟩
    · rw [List.foldlM_cons, hone]
      exact hmarked
    · rw [hget t (hlength.symm ▸ ht), List.getElem?_set]
      by_cases hmem : t ∈ rest
      · rw [if_pos hmem, if_pos (List.mem_cons_of_mem terminal hmem)]
      · by_cases heq : terminal = t
        · subst heq
          simp [hmem, ht]
        · simp [hmem, heq, Ne.symm heq]

theorem buildIgnoredTerminalTable_eq_ok {ignoredTerminals : List TerminalId} {terminalCount : ℕ}
    {granted : Bool} {table : List UInt8} (hcount : terminalCount < 2 ^ 32)
    (h : ∀ t ∈ ignoredTerminals, t < terminalCount) :
    buildIgnoredTerminalTable ignoredTerminals terminalCount granted = .ok table ↔
      granted = true ∧ ignoredTable ignoredTerminals terminalCount = table := by
  have husize : terminalCount ≤ usizeMax := by
    rw [usizeMax_eq]
    omega
  have hin : ∀ t ∈ ignoredTerminals, t < (List.replicate terminalCount (0 : UInt8)).length := by
    rwa [List.length_replicate]
  obtain ⟨marked, hmarked, hlength, hget⟩ := foldlM_markIgnoredTerminal hin
  have htable : marked = ignoredTable ignoredTerminals terminalCount := by
    refine List.ext_getElem? fun t => ?_
    rw [List.length_replicate] at hlength hget
    by_cases ht : t < terminalCount
    · rw [hget t ht, getElem?_ignoredTable ht]
      by_cases hmem : t ∈ ignoredTerminals
      · rw [if_pos hmem, if_pos hmem]
      · simp [hmem, ht]
    · rw [List.getElem?_eq_none (by omega), List.getElem?_eq_none (by simpa using ht)]
  simp only [buildIgnoredTerminalTable, bind_eq_ok, countAsUsize_eq_ok, husize, true_and,
    exists_eq_left', ite_error_eq_ok, hmarked, htable, Bool.not_eq_true', Bool.not_eq_false,
    Except.ok.injEq]

/-! ## The whole grammar -/

/-- **The checks pass exactly on the well-formed grammars.** -/
theorem checkGrammar_eq_ok {grammar : UnvalidatedGrammar} {limits : ValidationLimits}
    {granted : Bool} {table : List UInt8} :
    checkGrammar grammar limits granted = .ok table ↔
      grammar.WellFormed limits ∧ granted = true ∧
        ignoredTable grammar.lalr.ignoredTerminals grammar.lalr.dimensions.terminalCount =
          table := by
  have husize : ∀ {count : ℕ}, count < 2 ^ 32 → count ≤ usizeMax := by
    intro count hcount
    rw [usizeMax_eq]
    omega
  have hterminals := grammar.lalr.terminalCount_lt
  simp only [checkGrammar, bind_eq_ok, validateDeclaredSizes_eq_ok, checkLength_eq_ok,
    countAsUsize_eq_ok, validateId_eq_ok, and_assoc, exists_and_left, exists_eq_left', exists_const]
  constructor
  · rintro ⟨hformed, hcounted, hwithin, hbyteClasses, -, htransitions, -, hlabels, -, hactions, -,
      hgotos, hlexerStart, hparserStart, heof, _, hignored, _, hclasses, _, hdestinations, _,
      hterminal, _, haction, _, hgoto, _, hproduction, htable⟩
    obtain ⟨hignoredLt, hignoredEof⟩ := validateIgnoredTerminals_eq_ok.mp hignored
    obtain ⟨hlabelLt, hstart, hlabelEof⟩ :=
      (validateLexerTerminals_eq_ok (hlabels.symm ▸ grammar.lexer.stateCount_lt)).mp hterminal
    obtain ⟨hshift, hreduce, haccept⟩ :=
      (validateActions_eq_ok hterminals (hactions.symm ▸ hcounted.actionCells)).mp haction
    obtain ⟨hgranted, htable⟩ := (buildIgnoredTerminalTable_eq_ok hterminals hignoredLt).mp htable
    refine ⟨⟨hformed, hcounted, hwithin, ?_, ?_, ?_⟩, hgranted, htable⟩
    · exact ⟨hbyteClasses, htransitions, hlabels, hactions, hgotos⟩
    · exact ⟨hlexerStart, hparserStart, heof, validateByteClasses_eq_ok.mp hclasses,
        checkEach_optionalId_eq_ok.mp hdestinations, hlabelLt, hshift, hreduce,
        checkEach_optionalId_eq_ok.mp hgoto, validateProductions_eq_ok.mp hproduction, hignoredLt⟩
    · exact ⟨hstart, hlabelEof, hignoredEof, haccept⟩
  · rintro ⟨⟨hformed, hcounted, hwithin, hshaped, hinRange, hseparated⟩, hgranted, htable⟩
    have hlabels : grammar.lexer.terminals.length < 2 ^ 32 :=
      hshaped.terminals.symm ▸ grammar.lexer.stateCount_lt
    have hactions : grammar.lalr.actions.length < 2 ^ 32 :=
      hshaped.actions.symm ▸ hcounted.actionCells
    exact ⟨hformed, hcounted, hwithin, hshaped.byteClasses, husize hcounted.lexerCells,
      hshaped.transitions, husize grammar.lexer.stateCount_lt, hshaped.terminals,
      husize hcounted.actionCells, hshaped.actions, husize hcounted.gotoCells, hshaped.gotos,
      hinRange.lexerStart, hinRange.parserStart, hinRange.eof, ⟨⟩,
      validateIgnoredTerminals_eq_ok.mpr ⟨hinRange.ignored, hseparated.ignored⟩, ⟨⟩,
      validateByteClasses_eq_ok.mpr hinRange.byteClasses, ⟨⟩,
      checkEach_optionalId_eq_ok.mpr hinRange.transitions, ⟨⟩,
      (validateLexerTerminals_eq_ok hlabels).mpr
        ⟨hinRange.labels, hseparated.start, hseparated.labels⟩, ⟨⟩,
      (validateActions_eq_ok hterminals hactions).mpr
        ⟨hinRange.shifts, hinRange.reductions, hseparated.accept⟩, ⟨⟩,
      checkEach_optionalId_eq_ok.mpr hinRange.gotos, ⟨⟩,
      validateProductions_eq_ok.mpr hinRange.lhs,
      (buildIgnoredTerminalTable_eq_ok hterminals hinRange.ignored).mpr ⟨hgranted, htable⟩⟩

end Validate
end GreatGramma
