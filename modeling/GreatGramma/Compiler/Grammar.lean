import Mathlib.Logic.Function.Basic
import GreatGramma.Compiler.Ranks

/-!
# The source grammar

`source.rs` and `grammar.rs`.  A source grammar is the text of a Yacc grammar, a regex for each of
its named tokens, and the names of the tokens to be ignored.  `cfgrammar` parses the text;
`parse_source` refuses what the compiler has no use for, and binds the names to the tokens of the
parsed grammar.

## What is not in this repository

`cfgrammar` is not part of this repository: its parser is a parameter, and a parsed grammar is what
the compiler asks of it.  Its storage type is `u32`, so the counts fit.  A parsed grammar has more
rules than the text: `cfgrammar` puts a rule in front of the start rule of the text, and the one
production of that rule is the start production.  What is relied on of the parser is stated where
it is first needed (`YaccGrammar.WellFormed` here, `YaccGrammar.Indexed` in `Compiler.Binding`).

The index of the names, a hash map, is a function from names to entries.  The source never iterates
over it.  Reservations succeed.

## What is refused

The text is searched word by word for declarations that are not supported, before it is parsed;
what `cfgrammar` has parsed of actions, precedences and the like is refused afterwards.

What the rest of the compiler relies on is `parseSource_bound`: the terminals are the named tokens,
all of them and in their order, and an ignored terminal is a named token too.  That binding the
names is exact is the matter of `Compiler.Binding`.
-/

namespace GreatGramma

open Traversal

/-! ## Sources -/

/-- One named lexer terminal compiled as an anchored byte regular expression. -/
structure TerminalSpec where
  name : String
  pattern : String
  priority : UInt32

/-- Owned compiler input. -/
structure SourceGrammar where
  yacc : String
  terminals : List TerminalSpec
  ignoredTerminals : List String

/-- `cfgrammar`'s `Symbol<u32>`. -/
inductive GrammarSymbol where
  | rule (rule : ℕ)
  | token (token : ℕ)

/-- What the compiler asks of `cfgrammar`'s `YaccGrammar<u32>`. -/
structure YaccGrammar where
  tokensLen : ℕ
  rulesLen : ℕ
  prodsLen : ℕ
  eofTokenIdx : ℕ
  tokenName : ℕ → Option String
  prod : ℕ → List GrammarSymbol
  prodToRule : ℕ → NonterminalId
  prodLen : ℕ → ℕ
  /-- `start_prod()`: the production of the rule that stands in front of the grammar's own start
  rule.  The tables accept with it; the compiler never asks for it. -/
  startProd : ℕ
  /-- `action(production).is_some()` -/
  hasAction : ℕ → Bool
  /-- `actiontype(rule).is_some()` -/
  hasActiontype : ℕ → Bool
  /-- `parse_param().is_some()` -/
  hasParseParam : Bool
  /-- `parse_generics().is_some()` -/
  hasParseGenerics : Bool
  /-- `programs().is_some()` -/
  hasPrograms : Bool
  /-- `expect().is_some()` -/
  hasExpect : Bool
  /-- `expectrr().is_some()` -/
  hasExpectrr : Bool
  avoidInsert : ℕ → Bool
  /-- `token_precedence(token).is_some()` -/
  hasTokenPrecedence : ℕ → Bool
  /-- `prod_precedence(production).is_some()` -/
  hasProdPrecedence : ℕ → Bool
  tokensLen_lt : tokensLen < 2 ^ 32
  rulesLen_lt : rulesLen < 2 ^ 32

namespace YaccGrammar

variable (yacc : YaccGrammar)

/-- `iter_tidxs`. -/
def iterTidxs : List ℕ := List.range yacc.tokensLen

/-- `iter_rules`. -/
def iterRules : List ℕ := List.range yacc.rulesLen

/-- `iter_pidxs`. -/
def iterPidxs : List ℕ := List.range yacc.prodsLen

/-- The tokens that have a name. -/
def namedTokens : List ℕ := yacc.iterTidxs.filter fun token => (yacc.tokenName token).isSome

theorem mem_namedTokens {yacc : YaccGrammar} {token : ℕ} :
    token ∈ yacc.namedTokens ↔ token < yacc.tokensLen ∧ (yacc.tokenName token).isSome = true := by
  rw [namedTokens, List.mem_filter, iterTidxs, List.mem_range]

/-- **What is relied on of `cfgrammar`**: EOF is a token, the one without a name, and the
productions are those of its rules. -/
structure WellFormed (yacc : YaccGrammar) : Prop where
  eof_lt : yacc.eofTokenIdx < yacc.tokensLen
  eof_unnamed : yacc.tokenName yacc.eofTokenIdx = none
  prodToRule_lt : ∀ production < yacc.prodsLen, yacc.prodToRule production < yacc.rulesLen

theorem WellFormed.eof_notMem {yacc : YaccGrammar} (h : yacc.WellFormed) :
    yacc.eofTokenIdx ∉ yacc.namedTokens := by
  intro hmem
  have hname := (mem_namedTokens.mp hmem).2
  rw [h.eof_unnamed] at hname
  exact Bool.false_ne_true hname

end YaccGrammar

/-- `ResolvedTerminal`. -/
structure ResolvedTerminal where
  name : String
  pattern : String
  priority : UInt32
  terminal : TerminalId

/-- `ParsedGrammar`. -/
structure ParsedGrammar where
  yacc : YaccGrammar
  terminals : List ResolvedTerminal
  ignored : List TerminalId

/-- `TerminalLookup`. -/
structure TerminalLookup where
  token : ℕ
  spec : Option ℕ
  ignored : Bool
  used : Bool

/-- The lookups of the named tokens, by their names. -/
abbrev TerminalIndex := String → Option TerminalLookup

/-! ## Directives -/

/-- `char::is_whitespace`. -/
def isWhitespace (c : Char) : Bool :=
  (0x9 ≤ c.toNat && c.toNat ≤ 0xD) || c.toNat = 0x20 || c.toNat = 0x85 || c.toNat = 0xA0 ||
    c.toNat = 0x1680 || (0x2000 ≤ c.toNat && c.toNat ≤ 0x200A) || c.toNat = 0x2028 ||
    c.toNat = 0x2029 || c.toNat = 0x202F || c.toNat = 0x205F || c.toNat = 0x3000

/-- `str::split_whitespace`. -/
def splitWhitespace (text : String) : List (List Char) :=
  (text.toList.splitOnP isWhitespace).filter fun word => !word.isEmpty

/-- `DECLARATIONS`. -/
def declarations : List String := ["%left", "%right", "%nonassoc", "%precedence"]

/-- One word of the loop of `reject_unsupported_directives`. -/
def rejectWord (word : List Char) : Except CompileFailure Unit :=
  if word = "%start".toList ∨ word = "%token".toList ∨ word = "%%".toList then .ok ()
  else if word = "%prec".toList ∨
      declarations.any fun declaration => declaration.toList.isPrefixOf word then
    .error (.error (.unsupportedGrammar "precedence declarations"))
  else if word.head? = some '%' then
    .error (.error (.unsupportedGrammar ("Yacc directive " ++ String.ofList word)))
  else .ok ()

/-- `reject_unsupported_directives`. -/
def rejectUnsupportedDirectives (source : String) : Except CompileFailure Unit :=
  (splitWhitespace source).forM rejectWord

/-- The checks of `parse_source` on a parsed grammar. -/
def rejectUnsupportedGrammar (yacc : YaccGrammar) : Except CompileFailure Unit :=
  if yacc.iterPidxs.any yacc.hasAction || yacc.iterRules.any yacc.hasActiontype ||
      yacc.hasParseParam || yacc.hasParseGenerics || yacc.hasPrograms then
    .error (.error (.unsupportedGrammar "semantic actions"))
  else if yacc.hasExpect || yacc.hasExpectrr || yacc.iterTidxs.any yacc.avoidInsert then
    .error (.error (.unsupportedGrammar "Yacc metadata directives"))
  else if yacc.iterTidxs.any yacc.hasTokenPrecedence ||
      yacc.iterPidxs.any yacc.hasProdPrecedence then
    .error (.error (.unsupportedGrammar "precedence declarations"))
  else .ok ()

/-! ## Binding the names -/

/-- One token of the loop that fills the index. -/
def indexToken (yacc : YaccGrammar) (index : TerminalIndex) (token : ℕ) : TerminalIndex :=
  match yacc.tokenName token with
  | none => index
  | some name => Function.update index name (some ⟨token, none, false, false⟩)

/-- One symbol of the loop that marks the tokens in use. -/
def markUsed (yacc : YaccGrammar) (index : TerminalIndex) (symbol : GrammarSymbol) :
    TerminalIndex :=
  match symbol with
  | .rule _ => index
  | .token token =>
    match yacc.tokenName token with
    | none => index
    | some name =>
      match index name with
      | none => index
      | some entry => Function.update index name (some { entry with used := true })

/-- One specification of the loop that binds them. -/
def bindSpec (index : TerminalIndex) (spec : TerminalSpec × ℕ) :
    Except CompileFailure TerminalIndex :=
  let (spec, specIndex) := spec
  match index spec.name with
  | none => .error (.error (.unknownTerminal spec.name))
  | some entry =>
    if entry.spec.isSome then .error (.error (.duplicateTerminal spec.name))
    else .ok (Function.update index spec.name (some { entry with spec := some specIndex }))

/-- `resolve_terminal`. -/
def resolveTerminal (spec : TerminalSpec) (token : ℕ) : ResolvedTerminal where
  name := spec.name
  pattern := spec.pattern
  priority := spec.priority
  terminal := token

/-- One token of the loop that resolves the terminals. -/
def resolveToken (yacc : YaccGrammar) (index : TerminalIndex) (specs : List TerminalSpec)
    (terminals : List ResolvedTerminal) (token : ℕ) :
    Except CompileFailure (List ResolvedTerminal) :=
  match yacc.tokenName token with
  | none => .ok terminals
  | some name =>
    match (index name).bind TerminalLookup.spec with
    | none => .error (.error (.missingTerminal name))
    | some specIndex => do
      let spec ← indexAt specs specIndex
      return terminals ++ [resolveTerminal spec token]

/-- One name of the loop of `resolve_ignored`. -/
def resolveIgnoredName (state : TerminalIndex × List TerminalId) (name : String) :
    Except CompileFailure (TerminalIndex × List TerminalId) :=
  let (index, ignored) := state
  match index name with
  | none => .error (.error (.unknownIgnoredTerminal name))
  | some entry =>
    if entry.ignored then .error (.error (.duplicateIgnoredTerminal name))
    else if entry.used then .error (.error (.ignoredTerminalUsed name))
    else
      .ok (Function.update index name (some { entry with ignored := true }),
        ignored ++ [entry.token])

/-- `resolve_ignored`. -/
def resolveIgnored (index : TerminalIndex) (names : List String) :
    Except CompileFailure (List TerminalId) := do
  let (_, ignored) ← names.foldlM resolveIgnoredName (index, [])
  return ignored

/-- `parse_source`, with the parser of Yacc grammars. -/
def parseSource (new : String → Except (List String) YaccGrammar) (source : SourceGrammar)
    (maximumTerminals : ℕ) : Except CompileFailure ParsedGrammar := do
  rejectUnsupportedDirectives source.yacc
  let yacc ← (new source.yacc).mapError fun messages => .error (.grammarSyntax messages)
  rejectUnsupportedGrammar yacc
  let namedTerminalCount := yacc.namedTokens.length
  if namedTerminalCount > maximumTerminals then
    throw (.error (.tooManyTerminalSpecs namedTerminalCount maximumTerminals))
  else
    let index := yacc.iterTidxs.foldl (indexToken yacc) fun _ => none
    let index := yacc.iterPidxs.foldl
      (fun index production => (yacc.prod production).foldl (markUsed yacc) index) index
    let index ← source.terminals.zipIdx.foldlM bindSpec index
    let terminals ← yacc.iterTidxs.foldlM (resolveToken yacc index source.terminals) []
    let ignored ← resolveIgnored index source.ignoredTerminals
    return { yacc, terminals, ignored }

/-! ## What is bound -/

section
variable {yacc : YaccGrammar} {index : TerminalIndex}

/-- Every lookup is of a token with the name that it is found under. -/
def TerminalIndex.Named (yacc : YaccGrammar) (index : TerminalIndex) : Prop :=
  ∀ name entry, index name = some entry →
    entry.token < yacc.tokensLen ∧ yacc.tokenName entry.token = some name

theorem TerminalIndex.Named.update (h : index.Named yacc) {name : String} {entry : TerminalLookup}
    (hlt : entry.token < yacc.tokensLen) (hname : yacc.tokenName entry.token = some name) :
    TerminalIndex.Named yacc (Function.update index name (some entry)) := by
  intro name' entry' hentry'
  by_cases hsame : name' = name
  · subst hsame
    rw [Function.update_self] at hentry'
    obtain rfl := Option.some_inj.mp hentry'
    exact ⟨hlt, hname⟩
  · rw [Function.update_of_ne hsame] at hentry'
    exact h name' entry' hentry'

theorem markUsed_named (h : index.Named yacc) (symbol : GrammarSymbol) :
    (markUsed yacc index symbol).Named yacc := by
  cases symbol with
  | rule _ => exact h
  | token token =>
    rw [markUsed]
    cases hname : yacc.tokenName token with
    | none => exact h
    | some name =>
      dsimp only
      cases hentry : index name with
      | none => exact h
      | some entry =>
        obtain ⟨hlt, hentry'⟩ := h name entry hentry
        exact h.update hlt hentry'

theorem bindSpec_named (h : index.Named yacc) {spec : TerminalSpec × ℕ} {index' : TerminalIndex}
    (hbind : bindSpec index spec = .ok index') : index'.Named yacc := by
  obtain ⟨spec, specIndex⟩ := spec
  rw [bindSpec] at hbind
  cases hentry : index spec.name with
  | none =>
    rw [hentry] at hbind
    cases hbind
  | some entry =>
    rw [hentry] at hbind
    obtain ⟨-, hbind⟩ := ite_error_eq_ok.mp hbind
    obtain rfl := Except.ok.inj hbind
    obtain ⟨hlt, hname⟩ := h spec.name entry hentry
    exact h.update hlt hname

/-- The index that the loops over the tokens, the productions and the specifications leave. -/
theorem index_named {specs : List (TerminalSpec × ℕ)}
    (hbind : specs.foldlM bindSpec (yacc.iterPidxs.foldl
      (fun index production => (yacc.prod production).foldl (markUsed yacc) index)
      (yacc.iterTidxs.foldl (indexToken yacc) fun _ => none)) = .ok index) :
    index.Named yacc := by
  refine foldlM_ok (I := fun _ (index : TerminalIndex) => index.Named yacc) hbind ?_
    fun _ _ _ _ _ _ h hstep => bindSpec_named h hstep
  refine List.foldlRecOn (motive := TerminalIndex.Named yacc) _ _ ?_ fun index h production _ => ?_
  · refine List.foldlRecOn (motive := TerminalIndex.Named yacc) _ _ ?_ fun index h token ht => ?_
    · exact fun _ _ h => by cases h
    · rw [indexToken]
      cases hname : yacc.tokenName token with
      | none => exact h
      | some name => exact h.update (List.mem_range.mp ht) hname
  · exact List.foldlRecOn (motive := TerminalIndex.Named yacc) _ _ h
      fun index h symbol _ => markUsed_named h symbol

/-- **The terminals are the named tokens**, in their order. -/
theorem resolveToken_terminals {specs : List TerminalSpec} {tokens : List ℕ}
    {terminals : List ResolvedTerminal}
    (h : tokens.foldlM (resolveToken yacc index specs) [] = .ok terminals) :
    terminals.map ResolvedTerminal.terminal =
      tokens.filter fun token => (yacc.tokenName token).isSome := by
  refine foldlM_ok (I := fun done (terminals : List ResolvedTerminal) =>
    terminals.map ResolvedTerminal.terminal =
      done.filter fun token => (yacc.tokenName token).isSome) h rfl ?_
  intro done token after terminals terminals' _ hdone hstep
  rw [resolveToken] at hstep
  rw [List.filter_append, ← hdone]
  cases hname : yacc.tokenName token with
  | none =>
    rw [hname] at hstep
    obtain rfl := Except.ok.inj hstep
    rw [List.filter_cons_of_neg (by rw [hname]; exact Bool.false_ne_true), List.filter_nil,
      List.append_nil]
  | some name =>
    rw [hname] at hstep
    dsimp only at hstep
    cases hspec : (index name).bind TerminalLookup.spec with
    | none =>
      rw [hspec] at hstep
      cases hstep
    | some specIndex =>
      rw [hspec] at hstep
      obtain ⟨spec, -, hstep⟩ := bind_eq_ok.mp hstep
      obtain rfl := Except.ok.inj hstep
      rw [List.filter_cons_of_pos (by rw [hname]; rfl), List.filter_nil, List.map_append]
      rfl

/-- **An ignored terminal is a token with one of the names.** -/
theorem resolveIgnored_tokens {names : List String} {ignored : List TerminalId}
    (hnamed : index.Named yacc) (h : resolveIgnored index names = .ok ignored) :
    List.Forall₂ (fun name token => token < yacc.tokensLen ∧ yacc.tokenName token = some name)
      names ignored := by
  rw [resolveIgnored] at h
  obtain ⟨⟨index', _⟩, hfold, h⟩ := bind_eq_ok.mp h
  obtain rfl := Except.ok.inj h
  refine (foldlM_ok (I := fun done (state : TerminalIndex × List TerminalId) =>
    state.1.Named yacc ∧ List.Forall₂
      (fun name token => token < yacc.tokensLen ∧ yacc.tokenName token = some name) done state.2)
    hfold ⟨hnamed, .nil⟩ ?_).2
  rintro done name after ⟨index, ignored⟩ state' - ⟨hnamed, hdone⟩ hstep
  rw [resolveIgnoredName] at hstep
  cases hentry : index name with
  | none =>
    rw [hentry] at hstep
    cases hstep
  | some entry =>
    rw [hentry] at hstep
    obtain ⟨-, hstep⟩ := ite_error_eq_ok.mp hstep
    obtain ⟨-, hstep⟩ := ite_error_eq_ok.mp hstep
    obtain rfl := Except.ok.inj hstep
    obtain ⟨hlt, hname⟩ := hnamed name entry hentry
    exact ⟨hnamed.update hlt hname, List.rel_append hdone (.cons ⟨hlt, hname⟩ .nil)⟩

/-- A parsed grammar whose terminals are tokens of it. -/
structure ParsedGrammar.Bound (parsed : ParsedGrammar) (source : SourceGrammar) : Prop where
  terminals : parsed.terminals.map ResolvedTerminal.terminal = parsed.yacc.namedTokens
  ignored : List.Forall₂
    (fun name token => token < parsed.yacc.tokensLen ∧ parsed.yacc.tokenName token = some name)
    source.ignoredTerminals parsed.ignored

theorem ParsedGrammar.Bound.ignored_named {parsed : ParsedGrammar} {source : SourceGrammar}
    (h : parsed.Bound source) {t : TerminalId} (ht : t ∈ parsed.ignored) :
    t ∈ parsed.yacc.namedTokens := by
  obtain ⟨i, hi, rfl⟩ := List.mem_iff_getElem.mp ht
  obtain ⟨hlength, hget⟩ := List.forall₂_iff_get.mp h.ignored
  obtain ⟨hlt, hname⟩ := hget i (hlength ▸ hi) hi
  exact YaccGrammar.mem_namedTokens.mpr ⟨hlt, Option.isSome_iff_exists.mpr ⟨_, hname⟩⟩

/-- **What `parse_source` binds.** -/
theorem parseSource_bound {new : String → Except (List String) YaccGrammar}
    {source : SourceGrammar} {maximumTerminals : ℕ} {parsed : ParsedGrammar}
    (h : parseSource new source maximumTerminals = .ok parsed) :
    new source.yacc = .ok parsed.yacc ∧ parsed.Bound source := by
  rw [parseSource] at h
  obtain ⟨_, -, h⟩ := bind_eq_ok.mp h
  obtain ⟨yacc, hnew, h⟩ := bind_eq_ok.mp h
  obtain ⟨_, -, h⟩ := bind_eq_ok.mp h
  obtain ⟨-, h⟩ := ite_error_eq_ok.mp h
  obtain ⟨index, hindex, h⟩ := bind_eq_ok.mp h
  obtain ⟨terminals, hterminals, h⟩ := bind_eq_ok.mp h
  obtain ⟨ignored, hignored, h⟩ := bind_eq_ok.mp h
  obtain rfl := Except.ok.inj h
  exact ⟨mapError_eq_ok.mp hnew, resolveToken_terminals hterminals,
    resolveIgnored_tokens (index_named hindex) hignored⟩

end

end GreatGramma
