import GreatGramma.Compiler.Language
import GreatGramma.Facade.Text

/-!
# The boundary of the native module

What Python hands to the compiler is measured while it is still borrowed: its counts at once, and
its bytes string by string, with a check behind every one of them.  Behind that the compiler adds up
the same bytes and checks the totals, and what both check are the same limits.  So the boundary lets
a source pass just if the compiler does (`preflight_agrees`).

## Running totals

A check behind every string sees the total so far.  The sums saturate, and a saturating sum exceeds
a limit just if the sum does, if the limit is one that can be exceeded (`foldl_saturatingAdd_le`,
`BoundaryLimits.Proper`).  A total only grows, so all of the checks pass if the last one does: the
boundary is told by the totals as well (`preflight_eq_ok`).  Strings that have no UTF-8 encoding
end the preflight with an exception of Python.

## The other side

The compiler checks the totals of the source (`checkSourceLimits_eq_ok`), and those of the tokens in
its normalization of the manifest.  The normalization has errors of other kinds, and it needs a
reservation; only its limits are compared here, and they are exceeded just if the sums exceed them,
whether the reservation is granted or not (`normalizeManifest_limits`).

## The functions of the module

`_compile_yacc` is the preflight, the extraction of its arguments and the compilation, and
`_token_bytes_from_json` is the extraction of a tokenizer file with the same checks around it.  They
are what the facade calls.
-/

namespace GreatGramma

open Reservation Traversal

/-! ## Limits -/

/-- `BoundaryLimits`. -/
structure BoundaryLimits where
  maxJsonBytes : ℕ
  maxVocabSize : ℕ
  maxTokenBytes : ℕ
  maxSourceBytes : ℕ
  maxTerminalSpecs : ℕ
  maxIgnoredTerminals : ℕ
  maxRegexBytes : ℕ

/-- `BoundaryLimits::default`. -/
def BoundaryLimits.default : BoundaryLimits where
  maxJsonBytes := TokenizerJsonLimits.default.maxJsonBytes
  maxVocabSize := TokenizerJsonLimits.default.maxVocabSize
  maxTokenBytes := CompileLimits.default.validation.maxTokenBytes.toNat
  maxSourceBytes := CompileLimits.default.maxSourceBytes
  maxTerminalSpecs := CompileLimits.default.maxTerminalSpecs
  maxIgnoredTerminals := CompileLimits.default.maxIgnoredTerminals
  maxRegexBytes := CompileLimits.default.maxRegexBytes

/-- A `NativeFailure` of the compiler, which has no row and no token. -/
structure CompilerFailure where
  code : String
  message : String

/-- `NativeFailure::into_pyerr`. -/
def CompilerFailure.intoPyerr (failure : CompilerFailure) : List PyObject :=
  [.str failure.code, .str failure.message, .none, .none]

/-- `check_json_input_lengths`. -/
def checkJsonInputLengths (jsonBytes eosCount : ℕ) (limits : BoundaryLimits) :
    Except CompilerFailure Unit :=
  if jsonBytes > limits.maxJsonBytes then
    .error ⟨"tokenizer_compatibility",
      s!"tokenizer JSON has {jsonBytes} bytes, maximum is {limits.maxJsonBytes}"⟩
  else if eosCount > limits.maxVocabSize then
    .error ⟨"tokenizer_compatibility",
      s!"EOS token IDs contain {eosCount} entries, maximum is {limits.maxVocabSize}"⟩
  else .ok ()

/-- What `check_compile_input_lengths` is given. -/
structure CompileLengths where
  sourceBytes : ℕ
  terminalCount : ℕ
  ignoredCount : ℕ
  tokenCount : ℕ
  tokenBytes : ℕ
  regexBytes : ℕ

/-- `check_compile_input_lengths`. -/
def checkCompileInputLengths (lengths : CompileLengths) (limits : BoundaryLimits) :
    Except CompilerFailure Unit :=
  if lengths.sourceBytes > limits.maxSourceBytes then
    .error ⟨"compile_error",
      s!"grammar source has {lengths.sourceBytes} bytes, maximum is {limits.maxSourceBytes}"⟩
  else if lengths.terminalCount > limits.maxTerminalSpecs then
    .error ⟨"compile_error", s!"grammar has {lengths.terminalCount} terminal specifications, " ++
      s!"maximum is {limits.maxTerminalSpecs}"⟩
  else if lengths.ignoredCount > limits.maxIgnoredTerminals then
    .error ⟨"compile_error", s!"grammar has {lengths.ignoredCount} ignored terminals, " ++
      s!"maximum is {limits.maxIgnoredTerminals}"⟩
  else if lengths.regexBytes > limits.maxRegexBytes then
    .error ⟨"compile_error", s!"terminal regexes have {lengths.regexBytes} source bytes, " ++
      s!"maximum is {limits.maxRegexBytes}"⟩
  else if lengths.tokenCount > limits.maxVocabSize then
    .error ⟨"tokenizer_compatibility", s!"the vocabulary has {lengths.tokenCount} entries, " ++
      s!"maximum is {limits.maxVocabSize}"⟩
  else if lengths.tokenBytes > limits.maxTokenBytes then
    .error ⟨"tokenizer_compatibility",
      s!"ordinary token bytes contain {lengths.tokenBytes} bytes, " ++
      s!"maximum is {limits.maxTokenBytes}"⟩
  else .ok ()

/-- **What is within the limits.** -/
@[mk_iff]
structure CompileLengths.Within (lengths : CompileLengths) (limits : BoundaryLimits) : Prop where
  source : lengths.sourceBytes ≤ limits.maxSourceBytes
  terminals : lengths.terminalCount ≤ limits.maxTerminalSpecs
  ignored : lengths.ignoredCount ≤ limits.maxIgnoredTerminals
  regexes : lengths.regexBytes ≤ limits.maxRegexBytes
  tokens : lengths.tokenCount ≤ limits.maxVocabSize
  tokenBytes : lengths.tokenBytes ≤ limits.maxTokenBytes

theorem checkCompileInputLengths_eq_ok {lengths : CompileLengths} {limits : BoundaryLimits} :
    checkCompileInputLengths lengths limits = .ok () ↔ lengths.Within limits := by
  rw [checkCompileInputLengths]
  simp only [ite_error_eq_ok, not_lt, gt_iff_lt, and_true]
  constructor
  · rintro ⟨hsource, hterminals, hignored, hregexes, htokens, hbytes⟩
    exact ⟨hsource, hterminals, hignored, hregexes, htokens, hbytes⟩
  · rintro ⟨hsource, hterminals, hignored, hregexes, htokens, hbytes⟩
    exact ⟨hsource, hterminals, hignored, hregexes, htokens, hbytes⟩

/-- Limits that a saturating sum can exceed. -/
structure BoundaryLimits.Proper (limits : BoundaryLimits) : Prop where
  source : limits.maxSourceBytes < 2 ^ 64 - 1
  regexes : limits.maxRegexBytes < 2 ^ 64 - 1
  tokens : limits.maxTokenBytes < 2 ^ 64 - 1

theorem BoundaryLimits.default_proper : BoundaryLimits.default.Proper :=
  ⟨by decide, by decide, by decide⟩

/-! ## Preflight -/

/-- How the boundary fails: with an exception of the package, or with one of Python. -/
inductive BoundaryFailure where
  | native (failure : CompilerFailure)
  | foreign

/-- The arguments of `_compile_yacc`. -/
structure NativeArguments where
  yacc : PyStr
  terminals : List (PyStr × PyStr × ℤ)
  tokens : List (Option (List UInt8))
  ignored : List PyStr

/-- `to_cow()?.len()`. -/
def cowLength (value : PyStr) : Except BoundaryFailure ℕ :=
  match value.encode with
  | none => .error .foreign
  | some text => .ok text.utf8ByteSize

/-- `preflight_json_input`. -/
def preflightJsonInput (json : PyStr) (eosTokenIds : List ℤ) (limits : BoundaryLimits) :
    Except BoundaryFailure Unit := do
  let jsonBytes ← cowLength json
  (checkJsonInputLengths jsonBytes eosTokenIds.length limits).mapError .native

namespace NativeArguments

variable (arguments : NativeArguments) (limits : BoundaryLimits)

/-- The closure `check` of `preflight_compile_inputs`. -/
def check (sourceBytes tokenBytes regexBytes : ℕ) : Except BoundaryFailure Unit :=
  (checkCompileInputLengths ⟨sourceBytes, arguments.terminals.length, arguments.ignored.length,
    arguments.tokens.length, tokenBytes, regexBytes⟩ limits).mapError .native

/-- One terminal of the loop of `preflight_compile_inputs`. -/
def preflightTerminal (bytes : ℕ × ℕ) (terminal : PyStr × PyStr × ℤ) :
    Except BoundaryFailure (ℕ × ℕ) := do
  let nameBytes ← cowLength terminal.1
  let patternBytes ← cowLength terminal.2.1
  let sourceBytes := saturatingAdd (saturatingAdd bytes.1 nameBytes) patternBytes
  let regexBytes := saturatingAdd bytes.2 patternBytes
  arguments.check limits sourceBytes 0 regexBytes
  return (sourceBytes, regexBytes)

/-- One ignored name of the loop of `preflight_compile_inputs`. -/
def preflightIgnored (regexBytes sourceBytes : ℕ) (name : PyStr) : Except BoundaryFailure ℕ := do
  let nameBytes ← cowLength name
  let sourceBytes := saturatingAdd sourceBytes nameBytes
  arguments.check limits sourceBytes 0 regexBytes
  return sourceBytes

/-- One token of the loop of `preflight_compile_inputs`. -/
def preflightToken (sourceBytes regexBytes tokenBytes : ℕ) (token : Option (List UInt8)) :
    Except BoundaryFailure ℕ :=
  match token with
  | none => .ok tokenBytes
  | some bytes => do
    let tokenBytes := saturatingAdd tokenBytes bytes.length
    arguments.check limits sourceBytes tokenBytes regexBytes
    return tokenBytes

/-- `preflight_compile_inputs`. -/
def preflight : Except BoundaryFailure Unit := do
  arguments.check limits 0 0 0
  let yaccBytes ← cowLength arguments.yacc
  arguments.check limits yaccBytes 0 0
  let bytes ← arguments.terminals.foldlM (arguments.preflightTerminal limits) (yaccBytes, 0)
  let sourceBytes ← arguments.ignored.foldlM (arguments.preflightIgnored limits bytes.2) bytes.1
  let _ ← arguments.tokens.foldlM (arguments.preflightToken limits sourceBytes bytes.2) 0
  return ()

end NativeArguments

/-! ## Totals

Lengths are counted as `u64` and added up by a saturating sum, in a fold. -/

section Saturating

variable {α : Type} {maximum : ℕ}

theorem saturatingAdd_le (hmaximum : maximum < 2 ^ 64 - 1) {a b : ℕ} :
    saturatingAdd a b ≤ maximum ↔ a + b ≤ maximum := by
  rw [saturatingAdd, min_le_iff]
  exact or_iff_left (Nat.not_le.mpr hmaximum)

theorem saturatingAdd_eq (hmaximum : maximum < 2 ^ 64 - 1) {a b : ℕ} (h : a + b ≤ maximum) :
    saturatingAdd a b = a + b :=
  min_eq_left (h.trans hmaximum.le)

/-- **A saturating sum is within a limit** just if the sum is. -/
theorem foldl_saturatingAdd_le (hmaximum : maximum < 2 ^ 64 - 1) (size : α → ℕ) (l : List α)
    (start more : ℕ) :
    l.foldl (fun total x => saturatingAdd total (size x)) start + more ≤ maximum ↔
      start + (l.map size).sum + more ≤ maximum := by
  induction l generalizing start with
  | nil => exact Iff.rfl
  | cons x l ih =>
    rw [List.foldl_cons, ih, List.map_cons, List.sum_cons, ← Nat.add_assoc]
    by_cases h : start + size x ≤ maximum
    · rw [saturatingAdd_eq hmaximum h]
    · have hover := mt (saturatingAdd_le hmaximum).mp h
      exact iff_of_false (by omega) (by omega)

theorem saturatingAdd_assoc (a b c : ℕ) :
    saturatingAdd (saturatingAdd a b) c = saturatingAdd a (b + c) := by
  simp only [saturatingAdd]
  omega

theorem sum_lengthAsU64_le (hmaximum : maximum < 2 ^ 64 - 1) (size : α → ℕ) (l : List α) :
    (l.map fun x => lengthAsU64 (size x)).sum ≤ maximum ↔ (l.map size).sum ≤ maximum := by
  induction l generalizing maximum with
  | nil => exact Iff.rfl
  | cons x l ih =>
    rw [List.map_cons, List.sum_cons, List.map_cons, List.sum_cons, lengthAsU64]
    by_cases h : size x ≤ maximum
    · rw [min_eq_left (h.trans hmaximum.le)]
      have hrest := @ih (maximum - size x) (by omega)
      omega
    · exact iff_of_false (by omega) (by omega)

end Saturating

namespace SourceGrammar

variable (source : SourceGrammar)

/-- The bytes of a source. -/
def sourceBytes : ℕ :=
  source.yacc.utf8ByteSize +
    (source.terminals.map fun terminal =>
      terminal.name.utf8ByteSize + terminal.pattern.utf8ByteSize).sum +
    (source.ignoredTerminals.map String.utf8ByteSize).sum

/-- The bytes of its patterns. -/
def regexBytes : ℕ :=
  (source.terminals.map fun terminal => terminal.pattern.utf8ByteSize).sum

/-- **A source within the limits.** -/
structure Fits (limits : CompileLimits) : Prop where
  terminals : source.terminals.length ≤ limits.maxTerminalSpecs
  ignored : source.ignoredTerminals.length ≤ limits.maxIgnoredTerminals
  bytes : source.sourceBytes ≤ limits.maxSourceBytes
  regexes : source.regexBytes ≤ limits.maxRegexBytes

end SourceGrammar

/-- **The compiler checks totals.** -/
theorem checkSourceLimits_eq_ok {source : SourceGrammar} {limits : CompileLimits}
    (hsource : limits.maxSourceBytes < 2 ^ 64 - 1) (hregexes : limits.maxRegexBytes < 2 ^ 64 - 1) :
    checkSourceLimits source limits = .ok () ↔ source.Fits limits := by
  have hignored := foldl_saturatingAdd_le hsource String.utf8ByteSize source.ignoredTerminals
    (source.terminals.foldl (fun bytes terminal => saturatingAdd bytes
      (terminal.name.utf8ByteSize + terminal.pattern.utf8ByteSize)) source.yacc.utf8ByteSize) 0
  have hterminals := foldl_saturatingAdd_le hsource (fun terminal : TerminalSpec =>
      terminal.name.utf8ByteSize + terminal.pattern.utf8ByteSize) source.terminals
    source.yacc.utf8ByteSize (source.ignoredTerminals.map String.utf8ByteSize).sum
  have hpatterns := foldl_saturatingAdd_le hregexes
    (fun terminal : TerminalSpec => terminal.pattern.utf8ByteSize) source.terminals 0 0
  rw [Nat.add_zero, Nat.add_zero] at hignored
  rw [Nat.add_zero, Nat.add_zero, Nat.zero_add] at hpatterns
  rw [checkSourceLimits]
  simp only [ite_error_eq_ok, not_lt, gt_iff_lt, and_true, saturatingAdd_assoc, hignored,
    hterminals, hpatterns]
  exact ⟨fun h => ⟨h.1, h.2.1, h.2.2.1, h.2.2.2⟩,
    fun h => ⟨h.terminals, h.ignored, h.bytes, h.regexes⟩⟩

/-! ## Both agree -/

/-- The arguments that a source and its tokens are handed over as. -/
def NativeArguments.of (source : SourceGrammar) (tokens : List (Option (List UInt8))) :
    NativeArguments where
  yacc := .ofString source.yacc
  terminals := source.terminals.map fun terminal =>
    (.ofString terminal.name, .ofString terminal.pattern, terminal.priority.toNat)
  tokens := tokens
  ignored := source.ignoredTerminals.map .ofString

/-- The bytes of ordinary tokens. -/
def tokenBytes (tokens : List (Option (List UInt8))) : ℕ :=
  (tokens.map fun token => (token.getD []).length).sum

@[simp] theorem cowLength_ofString (text : String) :
    cowLength (.ofString text) = .ok text.utf8ByteSize := by
  rw [cowLength, PyStr.encode_eq_some.mpr rfl]

namespace NativeArguments

variable {source : SourceGrammar} {tokens : List (Option (List UInt8))} {limits : BoundaryLimits}

theorem check_eq_ok {sourceBytes tokenBytes regexBytes : ℕ} {result : Unit} :
    (of source tokens).check limits sourceBytes tokenBytes regexBytes = .ok result ↔
      CompileLengths.Within ⟨sourceBytes, source.terminals.length, source.ignoredTerminals.length,
        tokens.length, tokenBytes, regexBytes⟩ limits := by
  rw [check, mapError_eq_ok, checkCompileInputLengths_eq_ok]
  simp only [of, List.length_map]

/-- The bytes of terminals, and of their patterns. -/
def terminalBytes (terminals : List TerminalSpec) : ℕ × ℕ :=
  ((terminals.map fun terminal =>
      terminal.name.utf8ByteSize + terminal.pattern.utf8ByteSize).sum,
    (terminals.map fun terminal => terminal.pattern.utf8ByteSize).sum)

theorem terminalBytes_snoc (done : List TerminalSpec) (terminal : TerminalSpec) :
    terminalBytes (done ++ [terminal]) =
      ((terminalBytes done).1 + (terminal.name.utf8ByteSize + terminal.pattern.utf8ByteSize),
        (terminalBytes done).2 + terminal.pattern.utf8ByteSize) := by
  simp only [terminalBytes, List.map_append, List.map_cons, List.map_nil, List.sum_append,
    List.sum_singleton]

/-- **The terminals**: the totals are within the limits. -/
theorem preflightTerminals_eq_ok (hproper : limits.Proper) {yaccBytes : ℕ} {bytes : ℕ × ℕ}
    (hyacc : CompileLengths.Within ⟨yaccBytes, source.terminals.length,
      source.ignoredTerminals.length, tokens.length, 0, 0⟩ limits) :
    (of source tokens).terminals.foldlM ((of source tokens).preflightTerminal limits)
        (yaccBytes, 0) = .ok bytes ↔
      CompileLengths.Within ⟨yaccBytes + (terminalBytes source.terminals).1,
          source.terminals.length, source.ignoredTerminals.length, tokens.length, 0,
          (terminalBytes source.terminals).2⟩ limits ∧
        bytes = (yaccBytes + (terminalBytes source.terminals).1,
          (terminalBytes source.terminals).2) := by
  rw [show (of source tokens).terminals = source.terminals.map _ from rfl, List.foldlM_map]
  refine foldlM_fits _
    (fun done => (yaccBytes + (terminalBytes done).1, (terminalBytes done).2))
    (fun done => CompileLengths.Within ⟨yaccBytes + (terminalBytes done).1,
      source.terminals.length, source.ignoredTerminals.length, tokens.length, 0,
      (terminalBytes done).2⟩ limits) hyacc (fun done terminal h => ?_)
    fun done terminal state h => ?_
  · rw [terminalBytes_snoc] at h
    exact { h with
      source := le_trans (Nat.add_le_add_left (Nat.le_add_right _ _) _) h.source
      regexes := le_trans (Nat.le_add_right _ _) h.regexes }
  · simp only [preflightTerminal, cowLength_ofString, bind_eq_ok, Except.ok.injEq,
      exists_eq_left', check_eq_ok, pure_eq_ok, terminalBytes_snoc, saturatingAdd_assoc,
      CompileLengths.within_iff, saturatingAdd_le hproper.source, saturatingAdd_le hproper.regexes,
      exists_const, Nat.add_assoc]
    refine and_congr_right fun hwithin => ?_
    rw [saturatingAdd_eq hproper.source (by rw [Nat.add_assoc]; exact hwithin.1),
      saturatingAdd_eq hproper.regexes hwithin.2.2.2.1, Nat.add_assoc]
    exact eq_comm

theorem preflightIgnored_eq_ok (hproper : limits.Proper) {start total regexBytes : ℕ}
    (hstart : CompileLengths.Within ⟨start, source.terminals.length,
      source.ignoredTerminals.length, tokens.length, 0, regexBytes⟩ limits) :
    (of source tokens).ignored.foldlM ((of source tokens).preflightIgnored limits regexBytes)
        start = .ok total ↔
      CompileLengths.Within ⟨start + (source.ignoredTerminals.map String.utf8ByteSize).sum,
          source.terminals.length, source.ignoredTerminals.length, tokens.length, 0,
          regexBytes⟩ limits ∧
        total = start + (source.ignoredTerminals.map String.utf8ByteSize).sum := by
  have hsnoc : ∀ (done : List String) (name : String),
      ((done ++ [name]).map String.utf8ByteSize).sum =
        (done.map String.utf8ByteSize).sum + name.utf8ByteSize := by
    intro done name
    rw [List.map_append, List.sum_append, List.map_singleton, List.sum_singleton]
  rw [show (of source tokens).ignored = source.ignoredTerminals.map _ from rfl, List.foldlM_map]
  refine foldlM_fits _ (fun done => start + (done.map String.utf8ByteSize).sum)
    (fun done => CompileLengths.Within ⟨start + (done.map String.utf8ByteSize).sum,
      source.terminals.length, source.ignoredTerminals.length, tokens.length, 0,
      regexBytes⟩ limits) hstart (fun done name h => ?_) fun done name state h => ?_
  · rw [hsnoc, ← Nat.add_assoc] at h
    exact { h with source := le_trans (Nat.le_add_right _ _) h.source }
  · simp only [preflightIgnored, cowLength_ofString, bind_eq_ok, Except.ok.injEq,
      exists_eq_left', check_eq_ok, pure_eq_ok, hsnoc, CompileLengths.within_iff,
      saturatingAdd_le hproper.source, exists_const, Nat.add_assoc]
    refine and_congr_right fun hwithin => ?_
    rw [saturatingAdd_eq hproper.source (by rw [Nat.add_assoc]; exact hwithin.1), Nat.add_assoc]
    exact eq_comm

theorem preflightTokens_eq_ok (hproper : limits.Proper) {sourceBytes regexBytes total : ℕ}
    (hstart : CompileLengths.Within ⟨sourceBytes, source.terminals.length,
      source.ignoredTerminals.length, tokens.length, 0, regexBytes⟩ limits) :
    (of source tokens).tokens.foldlM
        ((of source tokens).preflightToken limits sourceBytes regexBytes) 0 = .ok total ↔
      CompileLengths.Within ⟨sourceBytes, source.terminals.length,
          source.ignoredTerminals.length, tokens.length, tokenBytes tokens, regexBytes⟩ limits ∧
        total = tokenBytes tokens := by
  have hsnoc : ∀ (done : List (Option (List UInt8))) (token : Option (List UInt8)),
      tokenBytes (done ++ [token]) = tokenBytes done + (token.getD []).length := by
    intro done token
    rw [tokenBytes, List.map_append, List.sum_append, List.map_singleton, List.sum_singleton]
    rfl
  refine foldlM_fits ((of source tokens).preflightToken limits sourceBytes regexBytes) tokenBytes
    (fun done => CompileLengths.Within ⟨sourceBytes, source.terminals.length,
      source.ignoredTerminals.length, tokens.length, tokenBytes done, regexBytes⟩ limits) hstart
    (fun done token h => ?_) fun done token state h => ?_
  · rw [hsnoc] at h
    exact { h with tokenBytes := le_trans (Nat.le_add_right _ _) h.tokenBytes }
  · rw [hsnoc]
    cases token with
    | none =>
      rw [preflightToken, Except.ok.injEq, eq_comm]
      exact (and_iff_right h).symm
    | some bytes =>
      simp only [preflightToken, bind_eq_ok, check_eq_ok, pure_eq_ok, CompileLengths.within_iff,
        saturatingAdd_le hproper.tokens, exists_const, Option.getD_some]
      refine and_congr_right fun hwithin => ?_
      rw [saturatingAdd_eq hproper.tokens hwithin.2.2.2.2.2]
      exact eq_comm

/-- **What the boundary lets pass**: the totals are within the limits. -/
theorem preflight_eq_ok (hproper : limits.Proper) :
    (of source tokens).preflight limits = .ok () ↔
      CompileLengths.Within ⟨source.sourceBytes, source.terminals.length,
        source.ignoredTerminals.length, tokens.length, tokenBytes tokens, source.regexBytes⟩
        limits := by
  have hsource : source.sourceBytes = source.yacc.utf8ByteSize +
      (terminalBytes source.terminals).1 +
        (source.ignoredTerminals.map String.utf8ByteSize).sum := rfl
  rw [preflight]
  simp only [bind_eq_ok, check_eq_ok, pure_eq_ok, show (of source tokens).yacc =
    .ofString source.yacc from rfl, cowLength_ofString, Except.ok.injEq, exists_eq_left',
    exists_const, and_true]
  constructor
  · rintro ⟨-, hyacc, bytes, hbytes, total, htotal, tokenTotal, htokens⟩
    obtain ⟨hterminals, rfl⟩ := (preflightTerminals_eq_ok hproper hyacc).mp hbytes
    obtain ⟨hignored, rfl⟩ := (preflightIgnored_eq_ok hproper hterminals).mp htotal
    exact ((preflightTokens_eq_ok hproper hignored).mp htokens).1
  · intro h
    have hignored : CompileLengths.Within ⟨source.sourceBytes, source.terminals.length,
        source.ignoredTerminals.length, tokens.length, 0, source.regexBytes⟩ limits :=
      { h with tokenBytes := Nat.zero_le _ }
    rw [hsource] at hignored
    have hterminals : CompileLengths.Within ⟨source.yacc.utf8ByteSize +
        (terminalBytes source.terminals).1, source.terminals.length,
        source.ignoredTerminals.length, tokens.length, 0, source.regexBytes⟩ limits :=
      { hignored with source := le_trans (Nat.le_add_right _ _) hignored.source }
    have hyacc : CompileLengths.Within ⟨source.yacc.utf8ByteSize, source.terminals.length,
        source.ignoredTerminals.length, tokens.length, 0, 0⟩ limits :=
      { hterminals with
        source := le_trans (Nat.le_add_right _ _) hterminals.source
        regexes := Nat.zero_le _ }
    exact ⟨{ hyacc with source := Nat.zero_le _ }, hyacc, _,
      (preflightTerminals_eq_ok hproper hyacc).mpr ⟨hterminals, rfl⟩, _,
      (preflightIgnored_eq_ok hproper hterminals).mpr ⟨hignored, rfl⟩, _,
      (preflightTokens_eq_ok hproper hignored).mpr ⟨h, rfl⟩⟩

end NativeArguments

/-! ## The manifest -/

/-- The tokens of a manifest: `None` stands for an EOS token. -/
def TokenizerManifest.ofTokens (tokens : List (Option (List UInt8))) : TokenizerManifest where
  tokens := tokens.map fun token =>
    match token with
    | some bytes => .bytes bytes
    | none => .eos

theorem normalizeToken_error {state : NormalizedTokens} {l : List (TokenSpec × ℕ)}
    {failure : CompileFailure} (h : l.foldlM normalizeToken state = .error failure) :
    ∃ index, failure = .error (.tokenizer (.emptyOrdinaryToken index)) := by
  induction l generalizing state with
  | nil => cases h
  | cons token l ih =>
    obtain ⟨token, index⟩ := token
    rw [List.foldlM_cons] at h
    cases hstep : normalizeToken state (token, index) with
    | ok state' =>
      rw [hstep] at h
      exact ih h
    | error failure' =>
      rw [hstep] at h
      cases h
      cases token with
      | eos => cases hstep
      | bytes bytes =>
        rw [normalizeToken] at hstep
        split_ifs at hstep
        cases hstep
        exact ⟨index, rfl⟩

theorem checkValidationLimit_eq {limit : LimitKind} {actual : ℕ} {maximum : UInt64} :
    checkValidationLimit limit actual maximum =
      if actual ≤ maximum.toNat then .ok ()
      else .error (.error (.validation (.limitExceeded limit actual maximum))) := by
  rw [checkValidationLimit]
  split_ifs with hover hle hle
  · exact absurd hle (Nat.not_le.mpr hover)
  · rfl
  · rfl
  · exact absurd (Nat.not_lt.mp hover) hle

/-- **When a manifest exceeds no limit.** -/
theorem normalizeManifest_limits {manifest : TokenizerManifest} {limits : ValidationLimits}
    {granted : Bool} :
    (∀ kind actual maximum, normalizeManifest manifest limits granted ≠
        .error (.error (.validation (.limitExceeded kind actual maximum)))) ↔
      (manifest.tokens ≠ [] → lengthAsU64 manifest.tokens.length ≤ limits.maxTokens.toNat ∧
        manifest.tokens.foldl (fun total token =>
            saturatingAdd total (lengthAsU64 token.entry.byteCount)) 0 ≤
          limits.maxTokenBytes.toNat) := by
  rw [normalizeManifest]
  by_cases hempty : manifest.tokens = []
  · simp [hempty]
  · have hnonempty : manifest.tokens.isEmpty = false := by
      rwa [List.isEmpty_eq_false_iff]
    rw [hnonempty, if_neg Bool.false_ne_true]
    simp only [checkValidationLimit_eq]
    by_cases htokens : lengthAsU64 manifest.tokens.length ≤ limits.maxTokens.toNat
    · by_cases hbytes : manifest.tokens.foldl (fun total token =>
          saturatingAdd total (lengthAsU64 token.entry.byteCount)) 0 ≤ limits.maxTokenBytes.toNat
      · refine iff_of_true (fun kind actual maximum h => ?_) fun _ => ⟨htokens, hbytes⟩
        rw [if_pos htokens, if_pos hbytes] at h
        cases granted with
        | false => cases h
        | true =>
        cases hloop : manifest.tokens.zipIdx.foldlM normalizeToken ⟨false, false, []⟩ with
        | error failure =>
          obtain ⟨index, rfl⟩ := normalizeToken_error hloop
          rw [hloop] at h
          cases h
        | ok state =>
          rw [hloop] at h
          change (if (!state.hasOrdinary) = true then _ else if (!state.hasEos) = true then _
            else _) = _ at h
          split_ifs at h <;> cases h
      · refine iff_of_false (fun h => ?_) fun h => hbytes (h hempty).2
        refine h .tokenBytes (manifest.tokens.foldl (fun total token =>
          saturatingAdd total (lengthAsU64 token.entry.byteCount)) 0) limits.maxTokenBytes ?_
        rw [if_pos htokens, if_neg hbytes]
        rfl
    · refine iff_of_false (fun h => ?_) fun h => htokens (h hempty).1
      refine h .tokens (lengthAsU64 manifest.tokens.length) limits.maxTokens ?_
      rw [if_neg htokens]
      rfl

theorem ofTokens_within (tokens : List (Option (List UInt8))) :
    lengthAsU64 (TokenizerManifest.ofTokens tokens).tokens.length ≤
          CompileLimits.default.validation.maxTokens.toNat ∧
        (TokenizerManifest.ofTokens tokens).tokens.foldl (fun total token =>
            saturatingAdd total (lengthAsU64 token.entry.byteCount)) 0 ≤
          CompileLimits.default.validation.maxTokenBytes.toNat ↔
      tokens.length ≤ BoundaryLimits.default.maxVocabSize ∧
        tokenBytes tokens ≤ BoundaryLimits.default.maxTokenBytes := by
  have hlength : (TokenizerManifest.ofTokens tokens).tokens.length = tokens.length :=
    List.length_map ..
  have hcount : lengthAsU64 tokens.length ≤ CompileLimits.default.validation.maxTokens.toNat ↔
      tokens.length ≤ BoundaryLimits.default.maxVocabSize := by
    rw [lengthAsU64, show CompileLimits.default.validation.maxTokens.toNat = 1000000 from rfl,
      show BoundaryLimits.default.maxVocabSize = 1000000 from rfl]
    omega
  have hbytes : (TokenizerManifest.ofTokens tokens).tokens.foldl (fun total token =>
      saturatingAdd total (lengthAsU64 token.entry.byteCount)) 0 ≤
        CompileLimits.default.validation.maxTokenBytes.toNat ↔
      tokenBytes tokens ≤ BoundaryLimits.default.maxTokenBytes := by
    have hfold := foldl_saturatingAdd_le BoundaryLimits.default_proper.tokens
      (fun token : TokenSpec => lengthAsU64 token.entry.byteCount)
      (TokenizerManifest.ofTokens tokens).tokens 0 0
    rw [Nat.add_zero, Nat.add_zero, Nat.zero_add,
      sum_lengthAsU64_le BoundaryLimits.default_proper.tokens] at hfold
    refine hfold.trans (iff_of_eq (congrArg (· ≤ _) (congrArg List.sum ?_)))
    rw [TokenizerManifest.ofTokens, List.map_map]
    refine List.map_congr_left fun token _ => ?_
    cases token with
    | none => rfl
    | some bytes => rfl
  rw [hlength, hcount, hbytes]

theorem normalizeTokens_ok {l : List (TokenSpec × ℕ)} {state : NormalizedTokens}
    (hne : ∀ token ∈ l, token.1 ≠ .bytes []) :
    ∃ state', l.foldlM normalizeToken state = .ok state' ∧
      ((state.hasOrdinary = true ∨ ∃ bytes index, (.bytes bytes, index) ∈ l) →
        state'.hasOrdinary = true) ∧
      ((state.hasEos = true ∨ ∃ index, (.eos, index) ∈ l) → state'.hasEos = true) := by
  induction l generalizing state with
  | nil =>
    refine ⟨state, rfl, ?_, ?_⟩
    · rintro (h | ⟨bytes, index, h⟩)
      · exact h
      · cases h
    · rintro (h | ⟨index, h⟩)
      · exact h
      · cases h
  | cons token l ih =>
    obtain ⟨token, index⟩ := token
    obtain ⟨hhead, hrest⟩ := List.forall_mem_cons.mp hne
    cases token with
    | bytes bytes =>
      have hbytes : bytes.isEmpty = false := by
        rw [List.isEmpty_eq_false_iff]
        rintro rfl
        exact hhead rfl
      obtain ⟨state', hloop, hordinary, heos⟩ := @ih
        { state with hasOrdinary := true, output := state.output ++ [.bytes bytes] } hrest
      refine ⟨state', ?_, fun _ => hordinary (.inl rfl), fun h => heos ?_⟩
      · rw [List.foldlM_cons, normalizeToken, hbytes, if_neg Bool.false_ne_true]
        exact hloop
      · rcases h with h | ⟨index', h⟩
        · exact .inl h
        · rcases List.mem_cons.mp h with h | h
          · cases h
          · exact .inr ⟨index', h⟩
    | eos =>
      obtain ⟨state', hloop, hordinary, heos⟩ := @ih
        { state with hasEos := true, output := state.output ++ [.eos] } hrest
      refine ⟨state', hloop, fun h => hordinary ?_, fun _ => heos (.inl rfl)⟩
      rcases h with h | ⟨bytes, index', h⟩
      · exact .inl h
      · rcases List.mem_cons.mp h with h | h
        · cases h
        · exact .inr ⟨bytes, index', h⟩

/-- **When a manifest is normalized.** -/
theorem normalizeManifest_exists {manifest : TokenizerManifest} {limits : ValidationLimits}
    (hlimits : lengthAsU64 manifest.tokens.length ≤ limits.maxTokens.toNat ∧
      manifest.tokens.foldl (fun total token =>
          saturatingAdd total (lengthAsU64 token.entry.byteCount)) 0 ≤
        limits.maxTokenBytes.toNat)
    (hempty : TokenSpec.bytes [] ∉ manifest.tokens)
    (hordinary : ∃ bytes, TokenSpec.bytes bytes ∈ manifest.tokens)
    (heos : TokenSpec.eos ∈ manifest.tokens) :
    normalizeManifest manifest limits true = .ok (manifest.tokens.map TokenSpec.entry) := by
  have hindexed : ∀ {token}, token ∈ manifest.tokens →
      ∃ index, (token, index) ∈ manifest.tokens.zipIdx := by
    intro token htoken
    obtain ⟨index, hindex⟩ := List.getElem?_of_mem htoken
    exact ⟨index, List.mem_zipIdx_iff_getElem?.mpr hindex⟩
  obtain ⟨state, hloop, hsome, hends⟩ := @normalizeTokens_ok manifest.tokens.zipIdx
    ⟨false, false, []⟩ fun token htoken h => hempty (h ▸ List.fst_mem_of_mem_zipIdx htoken)
  obtain ⟨bytes, hbytes⟩ := hordinary
  have hnonempty : manifest.tokens.isEmpty = false := by
    rw [List.isEmpty_eq_false_iff]
    exact List.ne_nil_of_mem heos
  have hok : normalizeManifest manifest limits true = .ok state.output := by
    rw [normalizeManifest, hnonempty, if_neg Bool.false_ne_true]
    simp only [checkValidationLimit_eq, if_pos hlimits.1, if_pos hlimits.2, tryReserveExact,
      if_true, hloop, ok_bind, hsome (.inr ⟨bytes, hindexed hbytes⟩), hends (.inr (hindexed heos))]
    rfl
  rw [hok, (normalizeManifest_ok hok).1]

/-- A manifest that exceeds no limit still takes its reservation. -/
theorem normalizeManifest_refused {manifest : TokenizerManifest} {limits : ValidationLimits}
    (hlimits : lengthAsU64 manifest.tokens.length ≤ limits.maxTokens.toNat ∧
      manifest.tokens.foldl (fun total token =>
          saturatingAdd total (lengthAsU64 token.entry.byteCount)) 0 ≤
        limits.maxTokenBytes.toNat)
    (hne : manifest.tokens ≠ []) :
    normalizeManifest manifest limits false =
      .error (.error (.allocationFailure manifest.tokens.length)) := by
  have hnonempty : manifest.tokens.isEmpty = false := List.isEmpty_eq_false_iff.mpr hne
  rw [normalizeManifest, hnonempty, if_neg Bool.false_ne_true]
  simp only [checkValidationLimit_eq, if_pos hlimits.1, if_pos hlimits.2, ok_bind]
  rfl

/-- **The boundary and the compiler agree.**  The boundary checks every count and every running
total, and the compiler checks the totals.  A source and its tokens pass the one just if the
limits of the other do not refuse them. -/
theorem preflight_agrees (source : SourceGrammar) (tokens : List (Option (List UInt8)))
    (granted : Bool) :
    (NativeArguments.of source tokens).preflight .default = .ok () ↔
      checkSourceLimits source .default = .ok () ∧
        ∀ kind actual maximum, normalizeManifest (.ofTokens tokens)
          CompileLimits.default.validation granted ≠
            .error (.error (.validation (.limitExceeded kind actual maximum))) := by
  rw [NativeArguments.preflight_eq_ok BoundaryLimits.default_proper,
    checkSourceLimits_eq_ok (by decide) (by decide), normalizeManifest_limits]
  have hwithin := ofTokens_within tokens
  constructor
  · exact fun h => ⟨⟨h.terminals, h.ignored, h.source, h.regexes⟩,
      fun _ => hwithin.mpr ⟨h.tokens, h.tokenBytes⟩⟩
  · rintro ⟨hfits, hmanifest⟩
    have htokens : tokens.length ≤ BoundaryLimits.default.maxVocabSize ∧
        tokenBytes tokens ≤ BoundaryLimits.default.maxTokenBytes := by
      by_cases hempty : tokens = []
      · subst hempty
        exact ⟨Nat.zero_le _, Nat.zero_le _⟩
      · exact hwithin.mp (hmanifest (by rwa [ne_eq, TokenizerManifest.ofTokens,
          List.map_eq_nil_iff]))
    exact ⟨hfits.bytes, hfits.terminals, hfits.ignored, hfits.regexes, htokens.1, htokens.2⟩

/-! ## The functions of the module -/

section
variable {σ ρ StateID : Type} [DecidableEq StateID]

theorem compile_tokenCount {generators : Generators σ ρ StateID} {source : SourceGrammar}
    {tokenizer : TokenizerManifest} {limits : CompileLimits} {granted : Bool}
    {prepared : PreparedGrammar}
    (h : compile generators source tokenizer limits granted = .ok prepared) :
    prepared.tokenCount = tokenizer.tokens.length := by
  obtain ⟨grammar, validated, hnormalize, hvalidate, hprepare⟩ := compile_ok h
  obtain ⟨rfl, -⟩ := prepare_sound hprepare
  obtain ⟨-, hformed, hparts⟩ := validate_eq_ok.mp hvalidate
  rw [normalize] at hnormalize
  obtain ⟨-, -, hnormalize⟩ := bind_eq_ok.mp hnormalize
  obtain ⟨tokens, htokens, hnormalize⟩ := bind_eq_ok.mp hnormalize
  obtain ⟨parsed, -, hnormalize⟩ := bind_eq_ok.mp hnormalize
  obtain ⟨lalr, -, hnormalize⟩ := bind_eq_ok.mp hnormalize
  obtain ⟨regexes, -, hnormalize⟩ := bind_eq_ok.mp hnormalize
  obtain ⟨lexer, -, hnormalize⟩ := bind_eq_ok.mp hnormalize
  cases hnormalize
  rw [PreparedGrammar.tokenCount, ← hparts]
  change tokens.length = tokenizer.tokens.length
  rw [(normalizeManifest_ok htokens).1, List.length_map]

variable (generators : Generators σ ρ StateID) (display : CompileError → String)

/-- The compilation of `compile_inner`. -/
def compileTokens (source : SourceGrammar) (tokens : List (Option (List UInt8))) (granted : Bool) :
    Except CompilerFailure NativeGrammar :=
  match h : compile generators source (.ofTokens tokens) .default granted with
  | .error (.error error) => .error ⟨"compile_error", display error⟩
  -- `detached` stops a panic
  | .error .panic =>
    .error ⟨"internal_error", "native operation panicked and was stopped at the ABI boundary"⟩
  | .ok prepared => .ok
    { prepared := some prepared
      vocabSize := tokens.length
      compiled := fun found hfound => by
        obtain rfl := Option.some.inj hfound
        obtain ⟨_, validated, -, -, hprepare⟩ := compile_ok h
        refine ⟨⟨validated, _, hprepare⟩, ?_⟩
        rw [compile_tokenCount h]
        exact (List.length_map ..).symm }

/-- `compile_inner`. -/
def compileInner (source : SourceGrammar) (tokens : List (Option (List UInt8)))
    (memory : Memory) : Except CompilerFailure NativeGrammar :=
  if tokens.length > BoundaryLimits.default.maxVocabSize then
    .error ⟨"tokenizer_compatibility",
      s!"the vocabulary exceeds {BoundaryLimits.default.maxVocabSize} entries"⟩
  else if u32TryFrom tokens.length = none then
    .error ⟨"tokenizer_compatibility",
      "the vocabulary is larger than the supported token-ID domain"⟩
  else
    match memory.reserve with
    | (false, _) => .error ⟨"internal_error", "could not reserve terminal specifications"⟩
    | (true, memory) =>
      match memory.reserve with
      | (false, _) => .error ⟨"internal_error", "could not reserve token specifications"⟩
      | (true, memory) => compileTokens generators display source tokens memory.reserve.1

/-- A terminal specification, extracted. -/
def extractTerminal (terminal : PyStr × PyStr × ℤ) : Except BoundaryFailure TerminalSpec :=
  match terminal.1.encode, terminal.2.1.encode with
  | some name, some pattern =>
    if 0 ≤ terminal.2.2 ∧ terminal.2.2 < 2 ^ 32 then
      .ok ⟨name, pattern, UInt32.ofNat terminal.2.2.toNat⟩
    else .error .foreign
  | _, _ => .error .foreign

/-- A string, extracted. -/
def extractString (value : PyStr) : Except BoundaryFailure String :=
  match value.encode with
  | some text => .ok text
  | none => .error .foreign

/-- `_compile_yacc`. -/
def compileYacc (arguments : NativeArguments) (memory : Memory) :
    Except BoundaryFailure NativeGrammar := do
  arguments.preflight .default
  let yacc ← extractString arguments.yacc
  let terminals ← arguments.terminals.mapM extractTerminal
  let ignored ← arguments.ignored.mapM extractString
  (compileInner generators display ⟨yacc, terminals, ignored⟩ arguments.tokens memory).mapError
    .native

variable {generators display}

theorem extractString_ofString (text : String) : extractString (.ofString text) = .ok text := by
  rw [extractString, PyStr.encode_eq_some.mpr rfl]

/-- **What is handed over is extracted.** -/
theorem compileYacc_of {source : SourceGrammar} {tokens : List (Option (List UInt8))}
    {memory : Memory}
    (h : (NativeArguments.of source tokens).preflight .default = .ok ()) :
    compileYacc generators display (.of source tokens) memory =
      (compileInner generators display source tokens memory).mapError .native := by
  have hterminals : (NativeArguments.of source tokens).terminals.mapM extractTerminal =
      .ok source.terminals := by
    rw [mapM_eq_ok, NativeArguments.of, List.forall₂_map_left_iff, List.forall₂_same]
    intro terminal _
    have hpriority : (0 : ℤ) ≤ terminal.priority.toNat ∧
        (terminal.priority.toNat : ℤ) < 2 ^ 32 :=
      ⟨Int.natCast_nonneg _, by exact_mod_cast terminal.priority.toNat_lt⟩
    rw [extractTerminal, PyStr.encode_eq_some.mpr rfl, PyStr.encode_eq_some.mpr rfl]
    simp only [if_pos hpriority, Int.toNat_natCast, UInt32.ofNat_toNat]
  have hignored : (NativeArguments.of source tokens).ignored.mapM extractString =
      .ok source.ignoredTerminals := by
    rw [mapM_eq_ok, NativeArguments.of, List.forall₂_map_left_iff, List.forall₂_same]
    exact fun name _ => extractString_ofString name
  rw [compileYacc, h]
  simp only [ok_bind, hterminals, hignored, show (NativeArguments.of source tokens).yacc =
    .ofString source.yacc from rfl, extractString_ofString]
  rfl

end

/-! ## Token bytes -/

/-- `token_bytes_from_json_inner`. -/
def tokenBytesFromJsonInner (fromStr : String → Except String Json.Value)
    (display : CompileError → String) (json : String) (eosTokenIds : List TokenId) :
    Except CompilerFailure (List (List UInt8)) :=
  match extract fromStr json eosTokenIds .default with
  | .error (.error error) => .error ⟨"tokenizer_compatibility", display error⟩
  | .error .panic =>
    .error ⟨"internal_error", "native operation panicked and was stopped at the ABI boundary"⟩
  | .ok (manifest, _) => .ok (manifest.tokens.map fun token =>
    match token with
    | .bytes bytes => bytes
    | .eos => [])

/-- The bytes of tokens as Python objects, each of which is reserved. -/
def falliblePyBytes : List (List UInt8) → Memory → Except CompilerFailure (List (List UInt8))
  | [], _ => .ok []
  | bytes :: rest, memory =>
    match memory.reserve with
    | (false, _) => .error ⟨"internal_error", "could not allocate Python mask bytes"⟩
    | (true, memory) => (falliblePyBytes rest memory).map fun rest => bytes :: rest

/-- An ID, extracted. -/
def extractU32 (value : ℤ) : Except BoundaryFailure TokenId :=
  if 0 ≤ value ∧ value < 2 ^ 32 then .ok value.toNat else .error .foreign

/-- `_token_bytes_from_json`. -/
def tokenBytesFromJson (fromStr : String → Except String Json.Value)
    (display : CompileError → String) (json : PyStr) (eosTokenIds : List ℤ) (memory : Memory) :
    Except BoundaryFailure (List (List UInt8)) := do
  preflightJsonInput json eosTokenIds .default
  let json ← extractString json
  let eosTokenIds ← eosTokenIds.mapM extractU32
  let tokens ← (tokenBytesFromJsonInner fromStr display json eosTokenIds).mapError .native
  (falliblePyBytes tokens memory).mapError .native

end GreatGramma
