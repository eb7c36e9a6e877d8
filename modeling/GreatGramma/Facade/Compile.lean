import GreatGramma.Facade.Manifest
import GreatGramma.Processor.Call

/-!
# Compiling through the facade

Terminals are checked when they are made.  `compile` then reads the grammar, declares its start
rule, and counts the bytes of every part against what is left of two budgets, before anything
crosses the boundary.

## What comes out

Each loop collects what its elements describe while this is within the budgets, and the source
that comes of both is within the limits of the compiler (`CompileInput.collect_eq_ok`).  So the
boundary lets it pass, and neither the facade nor the boundary refuses a source that the compiler
compiles (`facade_compile_exact`).

## What escapes

The arguments are objects of Python, and two things about them are not checked.  `compile` takes
any object for a sequence that is not a `str` or `bytes`, and finds out in its loop whether it can
be iterated over; and a grammar that is no string is made a path, whatever it is.  An exception
that comes of this is not one of the package, and `compile` does not turn it into one.  It comes
out exactly when the loop gets there: when nothing in front of it is refused
(`facade_raises_foreign`).
-/

namespace GreatGramma

open Reservation Traversal

/-! ## Terminals -/

/-- The fields of a `Terminal`; a name or a pattern is `none` if it is not a string. -/
structure TerminalFields where
  name : Option PyStr
  pattern : Option PyStr
  priority : PyObject

/-- `Terminal.__post_init__`. -/
def TerminalFields.postInit (fields : TerminalFields) : Except GreatGrammaError Unit :=
  if !fields.name.any isRule then
    .error (.new .configurationError "terminal name must be an ASCII grammar identifier")
  else if fields.pattern.isNone then
    .error (.new .configurationError "terminal pattern must be a string")
  else if !fields.priority.exactInt.any fun priority => 0 ≤ priority ∧ priority ≤ 0xFFFFFFFF then
    .error (.new .configurationError "terminal priority must be an unsigned 32-bit integer")
  else .ok ()

/-- `Terminal`. -/
structure Terminal extends TerminalFields where
  checked : toTerminalFields.postInit = .ok ()

/-- What is read of a terminal, whose fields are all there. -/
def Terminal.spec (terminal : Terminal) : PyStr × PyStr × ℤ :=
  (terminal.name.getD [], terminal.pattern.getD [], terminal.priority.exactInt.getD 0)

theorem Terminal.exists_priority (terminal : Terminal) :
    ∃ priority : UInt32, terminal.spec.2.2 = priority.toNat := by
  have h := terminal.checked
  rw [TerminalFields.postInit] at h
  obtain ⟨-, h⟩ := ite_error_eq_ok.mp h
  obtain ⟨-, h⟩ := ite_error_eq_ok.mp h
  obtain ⟨hpriority, -⟩ := ite_error_eq_ok.mp h
  rw [Bool.not_eq_true', Bool.not_eq_false, Option.any_eq_true] at hpriority
  obtain ⟨priority, hint, hrange⟩ := hpriority
  obtain ⟨hlow, hhigh⟩ := of_decide_eq_true hrange
  refine ⟨UInt32.ofNat priority.toNat, ?_⟩
  rw [Terminal.spec, hint, UInt32.toNat_ofNat_of_lt' (by change priority.toNat < 2 ^ 32; omega)]
  exact (Int.toNat_of_nonneg hlow).symm

/-! ## The loops of `compile` -/

/-- `_MAX_TERMINAL_SPECS`. -/
def maxTerminalSpecs : ℕ := 65536

/-- `_MAX_IGNORED_TERMINALS`. -/
def maxIgnoredTerminals : ℕ := 65536

/-- What `compile` has collected of the terminals. -/
structure TerminalParts where
  specs : List (PyStr × PyStr × ℤ)
  sourceBytes : ℕ
  regexBytes : ℕ

/-- One terminal of the first loop of `compile`; it is `none` if it is no `Terminal`. -/
def addTerminal (texts : PythonTexts) (parts : TerminalParts) (terminal : Option Terminal) :
    Except GreatGrammaError TerminalParts :=
  if parts.specs.length ≥ maxTerminalSpecs then
    .error (.new .compileError
      s!"grammar must contain at most {maxTerminalSpecs} terminal specifications")
  else
    match terminal with
    | none =>
      .error (.new .configurationError "terminals must contain only Terminal values")
    | some terminal => do
      let nameBytes ← sourcePartSize texts terminal.spec.1
        ((maxSourceBytes : ℤ) - parts.sourceBytes)
      let patternBytes ← terminalPatternSize texts terminal.spec.2.1
        ((maxSourceBytes : ℤ) - (parts.sourceBytes + nameBytes : ℕ))
        ((maxRegexBytes : ℤ) - parts.regexBytes)
      return ⟨parts.specs ++ [terminal.spec], parts.sourceBytes + nameBytes + patternBytes,
        parts.regexBytes + patternBytes⟩

/-- What `compile` has collected of the ignored names. -/
structure IgnoredParts where
  names : List PyStr
  sourceBytes : ℕ

/-- One name of its second loop; it is `none` if it is not a string. -/
def addIgnored (texts : PythonTexts) (parts : IgnoredParts) (name : Option PyStr) :
    Except GreatGrammaError IgnoredParts :=
  if parts.names.length ≥ maxIgnoredTerminals then
    .error (.new .compileError
      s!"grammar must contain at most {maxIgnoredTerminals} ignored terminals")
  else
    match name.filter isRule with
    | none =>
      .error (.new .configurationError "ignored terminal names must be ASCII grammar identifiers")
    | some name => do
      let nameBytes ← sourcePartSize texts name ((maxSourceBytes : ℤ) - parts.sourceBytes)
      return ⟨parts.names ++ [name], parts.sourceBytes + nameBytes⟩

/-- The specification that a terminal is handed over as. -/
def TerminalSpec.handed (spec : TerminalSpec) : PyStr × PyStr × ℤ :=
  (.ofString spec.name, .ofString spec.pattern, spec.priority.toNat)

/-- A terminal is specified so. -/
def Specifies (terminal : Option Terminal) (spec : TerminalSpec) : Prop :=
  ∃ given, terminal = some given ∧ given.spec = spec.handed

/-- A name is an identifier, and this. -/
def Names (name : Option PyStr) (text : String) : Prop :=
  name = some (.ofString text) ∧ isRule (.ofString text) = true

namespace TerminalParts

/-- With one more terminal. -/
def add (parts : TerminalParts) (spec : TerminalSpec) : TerminalParts :=
  ⟨parts.specs ++ [spec.handed],
    parts.sourceBytes + (spec.name.utf8ByteSize + spec.pattern.utf8ByteSize),
    parts.regexBytes + spec.pattern.utf8ByteSize⟩

/-- Within the budgets. -/
structure Within (parts : TerminalParts) : Prop where
  specs : parts.specs.length ≤ maxTerminalSpecs
  source : parts.sourceBytes ≤ maxSourceBytes
  regexes : parts.regexBytes ≤ maxRegexBytes

theorem Within.of_add {parts : TerminalParts} {spec : TerminalSpec} (h : (parts.add spec).Within) :
    parts.Within := by
  have hspecs := h.specs
  rw [add, List.length_append, List.length_singleton] at hspecs
  exact ⟨by omega, le_trans (Nat.le_add_right _ _) h.source,
    le_trans (Nat.le_add_right _ _) h.regexes⟩

theorem foldl_add (specs : List TerminalSpec) (parts : TerminalParts) :
    specs.foldl add parts =
      ⟨parts.specs ++ specs.map TerminalSpec.handed,
        parts.sourceBytes + (NativeArguments.terminalBytes specs).1,
        parts.regexBytes + (NativeArguments.terminalBytes specs).2⟩ := by
  induction specs generalizing parts with
  | nil =>
    rw [List.foldl_nil, List.map_nil, List.append_nil]
    rfl
  | cons spec specs ih =>
    rw [List.foldl_cons, ih, add]
    simp only [NativeArguments.terminalBytes, List.map_cons, List.sum_cons, List.append_assoc,
      List.singleton_append, Nat.add_assoc]

end TerminalParts

variable {texts : PythonTexts}

/-- **One terminal** is added just if it is specified and within the budgets. -/
theorem addTerminal_eq_ok {parts parts' : TerminalParts} {terminal : Option Terminal}
    (hparts : parts.Within) :
    addTerminal texts parts terminal = .ok parts' ↔
      ∃ spec, Specifies terminal spec ∧ parts' = parts.add spec ∧ parts'.Within := by
  have hsource := hparts.source
  have hregexes := hparts.regexes
  cases terminal with
  | none =>
    rw [addTerminal, ite_error_eq_ok]
    refine ⟨fun h => (by cases h.2), ?_⟩
    rintro ⟨spec, ⟨given, h, -⟩, -⟩
    cases h
  | some terminal =>
    rw [addTerminal, ite_error_eq_ok, not_le]
    constructor
    · rintro ⟨hcount, h⟩
      obtain ⟨nameBytes, hnameSize, h⟩ := bind_eq_ok.mp h
      obtain ⟨patternBytes, hpatternSize, h⟩ := bind_eq_ok.mp h
      obtain ⟨name, hname, rfl, hnameLe⟩ := (sourcePartSize_eq_ok (by omega)).mp hnameSize
      obtain ⟨pattern, hpattern, rfl, hpatternLe, hregexLe⟩ :=
        (terminalPatternSize_eq_ok (by omega) (by omega)).mp hpatternSize
      obtain ⟨priority, hpriority⟩ := terminal.exists_priority
      have hspec : terminal.spec = TerminalSpec.handed ⟨name, pattern, priority⟩ :=
        Prod.ext hname (Prod.ext hpattern hpriority)
      obtain rfl := Except.ok.inj h
      refine ⟨⟨name, pattern, priority⟩, ⟨terminal, rfl, hspec⟩, ?_, ?_, ?_, ?_⟩
      · rw [TerminalParts.add, hspec, Nat.add_assoc]
      · rw [List.length_append, List.length_singleton]
        exact hcount
      · dsimp only
        omega
      · dsimp only
        omega
    · rintro ⟨spec, ⟨given, hgiven, hspec⟩, rfl, hwithin⟩
      obtain rfl := Option.some.inj hgiven
      have hcount := hwithin.specs
      have hsourceLe := hwithin.source
      have hregexLe := hwithin.regexes
      rw [TerminalParts.add, List.length_append, List.length_singleton] at hcount
      dsimp only [TerminalParts.add] at hsourceLe hregexLe
      refine ⟨hcount, bind_eq_ok.mpr ⟨spec.name.utf8ByteSize,
        (sourcePartSize_eq_ok (by omega)).mpr ⟨spec.name, by rw [hspec]; rfl, rfl, by omega⟩,
        bind_eq_ok.mpr ⟨spec.pattern.utf8ByteSize,
          (terminalPatternSize_eq_ok (by omega) (by omega)).mpr
            ⟨spec.pattern, by rw [hspec]; rfl, rfl, by omega, by omega⟩, ?_⟩⟩⟩
      rw [TerminalParts.add, hspec, Nat.add_assoc]
      rfl

namespace IgnoredParts

/-- With one more name. -/
def add (parts : IgnoredParts) (name : String) : IgnoredParts :=
  ⟨parts.names ++ [.ofString name], parts.sourceBytes + name.utf8ByteSize⟩

/-- Within the budget. -/
structure Within (parts : IgnoredParts) : Prop where
  names : parts.names.length ≤ maxIgnoredTerminals
  source : parts.sourceBytes ≤ maxSourceBytes

theorem Within.of_add {parts : IgnoredParts} {name : String} (h : (parts.add name).Within) :
    parts.Within := by
  have hnames := h.names
  rw [add, List.length_append, List.length_singleton] at hnames
  exact ⟨by omega, le_trans (Nat.le_add_right _ _) h.source⟩

theorem foldl_add (names : List String) (parts : IgnoredParts) :
    names.foldl add parts =
      ⟨parts.names ++ names.map PyStr.ofString,
        parts.sourceBytes + (names.map String.utf8ByteSize).sum⟩ := by
  induction names generalizing parts with
  | nil =>
    rw [List.foldl_nil, List.map_nil, List.append_nil]
    rfl
  | cons name names ih =>
    rw [List.foldl_cons, ih, add]
    simp only [List.map_cons, List.sum_cons, List.append_assoc, List.singleton_append,
      Nat.add_assoc]

end IgnoredParts

/-- **One ignored name.** -/
theorem addIgnored_eq_ok {parts parts' : IgnoredParts} {name : Option PyStr}
    (hparts : parts.Within) :
    addIgnored texts parts name = .ok parts' ↔
      ∃ text, Names name text ∧ parts' = parts.add text ∧ parts'.Within := by
  have hsource := hparts.source
  rw [addIgnored, ite_error_eq_ok, not_le]
  cases hname : name.filter isRule with
  | none =>
    refine ⟨fun h => (by cases h.2), ?_⟩
    rintro ⟨text, ⟨rfl, hrule⟩, -⟩
    rw [Option.filter_some, if_pos hrule] at hname
    cases hname
  | some value =>
    obtain ⟨rfl, hrule⟩ := Option.filter_eq_some_iff.mp hname
    constructor
    · rintro ⟨hcount, h⟩
      obtain ⟨nameBytes, hsize, h⟩ := bind_eq_ok.mp h
      obtain ⟨text, rfl, rfl, hle⟩ := (sourcePartSize_eq_ok (by omega)).mp hsize
      obtain rfl := Except.ok.inj h
      refine ⟨text, ⟨rfl, hrule⟩, rfl, ?_, ?_⟩
      · rw [List.length_append, List.length_singleton]
        exact hcount
      · dsimp only
        omega
    · rintro ⟨text, ⟨hvalue, -⟩, rfl, hwithin⟩
      obtain rfl := Option.some.inj hvalue
      have hcount := hwithin.names
      have hle := hwithin.source
      rw [IgnoredParts.add, List.length_append, List.length_singleton] at hcount
      dsimp only [IgnoredParts.add] at hle
      exact ⟨hcount, bind_eq_ok.mpr ⟨text.utf8ByteSize,
        (sourcePartSize_eq_ok (by omega)).mpr ⟨text, rfl, rfl, by omega⟩, rfl⟩⟩

/-- **The terminals** are counted in with what they are specified as. -/
theorem addTerminals_eq_ok {sourceBytes : ℕ} (hsource : sourceBytes ≤ maxSourceBytes)
    {terminals : List (Option Terminal)} {parts : TerminalParts} :
    terminals.foldlM (addTerminal texts) ⟨[], sourceBytes, 0⟩ = .ok parts ↔
      ∃ specs, List.Forall₂ Specifies terminals specs ∧
        parts = ⟨specs.map TerminalSpec.handed,
          sourceBytes + (NativeArguments.terminalBytes specs).1,
          (NativeArguments.terminalBytes specs).2⟩ ∧ parts.Within := by
  rw [@foldlM_collects _ _ _ _ (addTerminal texts) Specifies TerminalParts.add
    TerminalParts.Within (fun _ _ => TerminalParts.Within.of_add) (fun _ _ _ => addTerminal_eq_ok)
    terminals ⟨[], sourceBytes, 0⟩ parts ⟨Nat.zero_le _, hsource, Nat.zero_le _⟩]
  simp only [TerminalParts.foldl_add, List.nil_append, Nat.zero_add]

/-- **The ignored names** are counted in. -/
theorem addIgnoredNames_eq_ok {sourceBytes : ℕ} (hsource : sourceBytes ≤ maxSourceBytes)
    {names : List (Option PyStr)} {parts : IgnoredParts} :
    names.foldlM (addIgnored texts) ⟨[], sourceBytes⟩ = .ok parts ↔
      ∃ read, List.Forall₂ Names names read ∧
        parts = ⟨read.map PyStr.ofString,
          sourceBytes + (read.map String.utf8ByteSize).sum⟩ ∧ parts.Within := by
  rw [@foldlM_collects _ _ _ _ (addIgnored texts) Names IgnoredParts.add IgnoredParts.Within
    (fun _ _ => IgnoredParts.Within.of_add) (fun _ _ _ => addIgnored_eq_ok) names
    ⟨[], sourceBytes⟩ parts ⟨Nat.zero_le _, hsource⟩]
  simp only [IgnoredParts.foldl_add, List.nil_append]

/-! ## `compile` -/

/-- What is given for a sequence: a `str` or `bytes`, or an object to iterate over.  This yields
elements, and then it stops or raises an exception of its own; an object that cannot be iterated
over raises at once. -/
inductive SequenceInput (α : Type) where
  | text
  | iterable (elements : List α) (raises : Bool)

/-- A `for` loop over a sequence. -/
def forEach {α σ : Type} (step : σ → α → Except GreatGrammaError σ) (state : σ)
    (elements : List α) (raises : Bool) : Except Raised σ :=
  match elements.foldlM step state with
  | .error error => .error (.own error)
  | .ok state => if raises then .error .foreign else .ok state

theorem forEach_eq_ok {α σ : Type} {step : σ → α → Except GreatGrammaError σ} {state state' : σ}
    {elements : List α} {raises : Bool} :
    forEach step state elements raises = .ok state' ↔
      elements.foldlM step state = .ok state' ∧ raises = false := by
  rw [forEach]
  cases elements.foldlM step state with
  | error error => exact ⟨fun h => (by cases h), fun h => (by cases h.1)⟩
  | ok found =>
    cases raises with
    | true => exact ⟨fun h => (by cases h), fun h => (by cases h.2)⟩
    | false =>
      refine ⟨fun h => ⟨congrArg Except.ok (Except.ok.inj h), rfl⟩, fun h => ?_⟩
      exact congrArg Except.ok (Except.ok.inj h.1)

/-- **An exception escapes a loop** behind elements that pass. -/
theorem forEach_eq_foreign {α σ : Type} {step : σ → α → Except GreatGrammaError σ} {state : σ}
    {elements : List α} {raises : Bool} :
    forEach step state elements raises = .error .foreign ↔
      (∃ state', elements.foldlM step state = .ok state') ∧ raises = true := by
  rw [forEach]
  cases elements.foldlM step state with
  | error error =>
    refine ⟨fun h => (by cases h), ?_⟩
    rintro ⟨⟨state', h⟩, -⟩
    cases h
  | ok found =>
    cases raises with
    | true => exact iff_of_true rfl ⟨⟨found, rfl⟩, rfl⟩
    | false => exact ⟨fun h => (by cases h), fun h => (by cases h.2)⟩

/-- What `compile` is given: what is no manifest, or no string, is `none`. -/
structure CompileInput where
  grammar : GrammarInput
  startRule : Option PyStr
  terminals : SequenceInput (Option Terminal)
  tokenizer : Option Manifest
  ignoredTerminals : SequenceInput (Option PyStr)

namespace CompileInput

variable (texts) (input : CompileInput)

/-- The text of the source, with its start rule, and its size. -/
def sourceText : Except Raised (PyStr × ℕ) := do
  let read ← grammarText texts input.grammar
  let started ← (withStartRule texts read.1 input.startRule).mapError .own
  if read.2 + started.2 > maxSourceBytes then .error (.own sourceTooLarge)
  else return (started.1, read.2 + started.2)

/-- The part of `compile` that reads and counts the source. -/
def collect (terminals : List (Option Terminal)) (terminalsRaise : Bool) (tokenizer : Manifest)
    (ignoredTerminals : List (Option PyStr)) (ignoredRaise : Bool) :
    Except Raised NativeArguments := do
  let source ← input.sourceText texts
  let parts ← forEach (addTerminal texts) ⟨[], source.2, 0⟩ terminals terminalsRaise
  let ignored ← forEach (addIgnored texts) ⟨[], parts.sourceBytes⟩ ignoredTerminals ignoredRaise
  return ⟨source.1, parts.specs, tokenizer.tokens, ignored.names⟩

/-- The part of `compile` in front of the native module. -/
def arguments : Except Raised (Manifest × NativeArguments) :=
  match input.tokenizer, input.terminals, input.ignoredTerminals with
  | none, _, _ => .error (.own (.new .configurationError "tokenizer must be a TokenizerManifest"))
  | some _, .text, _ =>
    .error (.own (.new .configurationError "terminals must be a sequence of Terminal values"))
  | some _, .iterable _ _, .text =>
    .error (.own (.new .configurationError "ignored_terminals must be a sequence of names"))
  | some tokenizer, .iterable terminals terminalsRaise,
      .iterable ignoredTerminals ignoredRaise =>
    (input.collect texts terminals terminalsRaise tokenizer ignoredTerminals ignoredRaise).map
      fun arguments => (tokenizer, arguments)

/-- The text that is given: that of the grammar, with its start rule declared. -/
def GivesText (yacc : String) : Prop :=
  ∃ text grown, grammarSource texts input.grammar = .ok (PyStr.ofString text) ∧
    withStartRule texts (PyStr.ofString text) input.startRule = .ok (PyStr.ofString yacc, grown)

/-- **The source that is given**: the text of the grammar with its start rule declared, the
terminals and the ignored names. -/
structure Gives (manifest : Manifest) (source : SourceGrammar) : Prop where
  tokenizer : input.tokenizer = some manifest
  yacc : input.GivesText texts source.yacc
  terminals : ∃ elements, input.terminals = .iterable elements false ∧
    List.Forall₂ Specifies elements source.terminals
  ignored : ∃ names, input.ignoredTerminals = .iterable names false ∧
    List.Forall₂ Names names source.ignoredTerminals

/-- **What escapes `compile`**: what reading the grammar raises, or what iterating over the
terminals or the ignored names raises, behind elements that are taken. -/
inductive Escapes : Prop
  | grammar {manifest : Manifest} {terminals : List (Option Terminal)}
      {names : List (Option PyStr)} {terminalsRaise namesRaise : Bool}
      (htokenizer : input.tokenizer = some manifest)
      (hterminals : input.terminals = .iterable terminals terminalsRaise)
      (hnames : input.ignoredTerminals = .iterable names namesRaise)
      (hgrammar : grammarSource texts input.grammar = .error .foreign) : Escapes
  | terminals {manifest : Manifest} {terminals : List (Option Terminal)}
      {names : List (Option PyStr)} {namesRaise : Bool} {yacc : String} {specs : List TerminalSpec}
      (htokenizer : input.tokenizer = some manifest)
      (hterminals : input.terminals = .iterable terminals true)
      (hnames : input.ignoredTerminals = .iterable names namesRaise)
      (hyacc : input.GivesText texts yacc) (hspecs : List.Forall₂ Specifies terminals specs)
      (hlimits : checkSourceLimits ⟨yacc, specs, []⟩ .default = .ok ()) : Escapes
  | ignored {manifest : Manifest} {terminals : List (Option Terminal)}
      {names : List (Option PyStr)} {source : SourceGrammar}
      (htokenizer : input.tokenizer = some manifest)
      (hterminals : input.terminals = .iterable terminals false)
      (hnames : input.ignoredTerminals = .iterable names true)
      (hyacc : input.GivesText texts source.yacc)
      (hspecs : List.Forall₂ Specifies terminals source.terminals)
      (hread : List.Forall₂ Names names source.ignoredTerminals)
      (hlimits : checkSourceLimits source .default = .ok ()) : Escapes

theorem limits_iff (source : SourceGrammar) :
    checkSourceLimits source .default = .ok () ↔ source.Fits .default :=
  checkSourceLimits_eq_ok (by decide) (by decide)

/-- **The text of the source**, if it is within the budget. -/
theorem sourceText_eq_ok {value : PyStr} {size : ℕ} :
    input.sourceText texts = .ok (value, size) ↔
      ∃ yacc, input.GivesText texts yacc ∧ value = PyStr.ofString yacc ∧
        size = yacc.utf8ByteSize ∧ size ≤ maxSourceBytes := by
  constructor
  · intro h
    obtain ⟨⟨read, readBytes⟩, hread, h⟩ := bind_eq_ok.mp h
    obtain ⟨⟨started, grown⟩, hstarted, h⟩ := bind_eq_ok.mp h
    obtain ⟨text, htext, rfl, rfl, -⟩ := grammarText_eq_ok.mp hread
    have hstart := mapError_eq_ok.mp hstarted
    obtain ⟨-, -, -, -, hbytes⟩ := withStartRule_declares hstart
    obtain ⟨yacc, rfl, hyacc⟩ := hbytes text rfl
    obtain ⟨hover, h⟩ := ite_error_eq_ok.mp h
    obtain ⟨rfl, rfl⟩ := Prod.mk.inj (Except.ok.inj h)
    exact ⟨yacc, ⟨text, grown, htext, hstart⟩, rfl, hyacc.symm, Nat.not_lt.mp hover⟩
  · rintro ⟨yacc, ⟨text, grown, htext, hstarted⟩, rfl, rfl, hle⟩
    obtain ⟨-, -, -, -, hbytes⟩ := withStartRule_declares hstarted
    obtain ⟨yacc', hread, hyacc⟩ := hbytes text rfl
    obtain rfl := PyStr.ofString_injective hread
    refine bind_eq_ok.mpr ⟨(.ofString text, text.utf8ByteSize),
      grammarText_eq_ok.mpr ⟨text, htext, rfl, rfl, by omega⟩,
      bind_eq_ok.mpr ⟨(.ofString yacc, grown), mapError_eq_ok.mpr hstarted, ?_⟩⟩
    rw [hyacc] at hle ⊢
    exact ite_error_eq_ok.mpr ⟨Nat.not_lt.mpr hle, rfl⟩

/-- What escapes the text of the source escapes the reader. -/
theorem sourceText_eq_foreign :
    input.sourceText texts = .error .foreign ↔
      grammarSource texts input.grammar = .error .foreign := by
  rw [← grammarText_eq_foreign, sourceText]
  cases grammarText texts input.grammar with
  | error raised =>
    exact ⟨fun h => congrArg Except.error (Except.error.inj h), fun h => h ▸ rfl⟩
  | ok read =>
    refine ⟨fun h => ?_, fun h => (by cases h)⟩
    rw [ok_bind] at h
    cases hstarted : withStartRule texts read.1 input.startRule with
    | error error =>
      rw [hstarted] at h
      cases h
    | ok started =>
      rw [hstarted] at h
      change (if read.2 + started.2 > maxSourceBytes then _ else _) = _ at h
      split_ifs at h <;> cases h

/-- **The terminals that are taken**: they are specified, and the source so far is within the
limits. -/
theorem specs_taken {yacc : String} (hle : yacc.utf8ByteSize ≤ maxSourceBytes)
    {terminals : List (Option Terminal)} {parts : TerminalParts} :
    terminals.foldlM (addTerminal texts) ⟨[], yacc.utf8ByteSize, 0⟩ = .ok parts ↔
      ∃ specs, List.Forall₂ Specifies terminals specs ∧
        checkSourceLimits ⟨yacc, specs, []⟩ .default = .ok () ∧
        parts = ⟨specs.map TerminalSpec.handed,
          yacc.utf8ByteSize + (NativeArguments.terminalBytes specs).1,
          (NativeArguments.terminalBytes specs).2⟩ := by
  rw [addTerminals_eq_ok hle]
  refine exists_congr fun specs => and_congr_right fun _ => ?_
  rw [limits_iff]
  constructor
  · rintro ⟨rfl, hwithin⟩
    exact ⟨⟨(List.length_map _).symm.le.trans hwithin.specs, Nat.zero_le _, hwithin.source,
      hwithin.regexes⟩, rfl⟩
  · rintro ⟨hfits, rfl⟩
    exact ⟨rfl, (List.length_map _).le.trans hfits.terminals, hfits.bytes, hfits.regexes⟩

/-- **The ignored names that are taken**, behind the terminals. -/
theorem names_taken {yacc : String} {specs : List TerminalSpec}
    (hlimits : checkSourceLimits ⟨yacc, specs, []⟩ .default = .ok ())
    {names : List (Option PyStr)} {ignored : IgnoredParts} :
    names.foldlM (addIgnored texts)
        ⟨[], yacc.utf8ByteSize + (NativeArguments.terminalBytes specs).1⟩ = .ok ignored ↔
      ∃ read, List.Forall₂ Names names read ∧
        checkSourceLimits ⟨yacc, specs, read⟩ .default = .ok () ∧
        ignored = ⟨read.map PyStr.ofString, yacc.utf8ByteSize +
          (NativeArguments.terminalBytes specs).1 + (read.map String.utf8ByteSize).sum⟩ := by
  have hfits := (limits_iff _).mp hlimits
  have hbytes : yacc.utf8ByteSize + (NativeArguments.terminalBytes specs).1 ≤ maxSourceBytes :=
    hfits.bytes
  rw [addIgnoredNames_eq_ok hbytes]
  refine exists_congr fun read => and_congr_right fun _ => ?_
  rw [limits_iff]
  constructor
  · rintro ⟨rfl, hwithin⟩
    exact ⟨⟨hfits.terminals, (List.length_map _).symm.le.trans hwithin.names, hwithin.source,
      hfits.regexes⟩, rfl⟩
  · rintro ⟨hfits', rfl⟩
    exact ⟨rfl, (List.length_map _).le.trans hfits'.ignored, hfits'.bytes⟩

/-- The source without its ignored names is within the limits if it is with them. -/
theorem limits_of_names {yacc : String} {specs : List TerminalSpec} {read : List String}
    (h : checkSourceLimits ⟨yacc, specs, read⟩ .default = .ok ()) :
    checkSourceLimits ⟨yacc, specs, []⟩ .default = .ok () := by
  have hfits := (limits_iff _).mp h
  have hbytes := hfits.bytes
  refine (limits_iff _).mpr ⟨hfits.terminals, Nat.zero_le _, ?_, hfits.regexes⟩
  exact le_trans (Nat.add_le_add_left (Nat.zero_le _) _) hbytes

/-- The text of a source that is within the limits. -/
theorem yacc_le {yacc : String} {specs : List TerminalSpec}
    (h : checkSourceLimits ⟨yacc, specs, []⟩ .default = .ok ()) :
    yacc.utf8ByteSize ≤ maxSourceBytes := by
  have hbytes := ((limits_iff _).mp h).bytes
  exact le_trans (Nat.le_add_right _ _) (le_trans (Nat.le_add_right _ _) hbytes)

/-- **What is handed over** is the source that is given, if the compiler's limits allow it. -/
theorem collect_eq_ok {terminals : List (Option Terminal)} {terminalsRaise : Bool}
    {manifest : Manifest} {ignoredTerminals : List (Option PyStr)} {ignoredRaise : Bool}
    {arguments : NativeArguments} :
    input.collect texts terminals terminalsRaise manifest ignoredTerminals ignoredRaise =
        .ok arguments ↔
      terminalsRaise = false ∧ ignoredRaise = false ∧ ∃ source : SourceGrammar,
        input.GivesText texts source.yacc ∧
        List.Forall₂ Specifies terminals source.terminals ∧
        List.Forall₂ Names ignoredTerminals source.ignoredTerminals ∧
        checkSourceLimits source .default = .ok () ∧ arguments = .of source manifest.tokens := by
  constructor
  · intro h
    obtain ⟨⟨value, size⟩, hsource, h⟩ := bind_eq_ok.mp h
    obtain ⟨parts, hparts, h⟩ := bind_eq_ok.mp h
    obtain ⟨ignored, hignored, h⟩ := bind_eq_ok.mp h
    obtain ⟨yacc, hyacc, rfl, rfl, hle⟩ := (input.sourceText_eq_ok texts).mp hsource
    obtain ⟨hparts, hraise⟩ := forEach_eq_ok.mp hparts
    obtain ⟨specs, hspecs, hlimits, rfl⟩ := (specs_taken texts hle).mp hparts
    obtain ⟨hignored, hraise'⟩ := forEach_eq_ok.mp hignored
    obtain ⟨read, hread, hlimits', rfl⟩ := (names_taken texts hlimits).mp hignored
    exact ⟨hraise, hraise', ⟨yacc, specs, read⟩, hyacc, hspecs, hread, hlimits',
      (Except.ok.inj h).symm⟩
  · rintro ⟨rfl, rfl, ⟨yacc, specs, read⟩, hyacc, hspecs, hread, hlimits', rfl⟩
    have hlimits := limits_of_names hlimits'
    have hle := yacc_le hlimits
    exact bind_eq_ok.mpr ⟨(.ofString yacc, yacc.utf8ByteSize),
      (input.sourceText_eq_ok texts).mpr ⟨yacc, hyacc, rfl, rfl, hle⟩,
      bind_eq_ok.mpr ⟨_, forEach_eq_ok.mpr
        ⟨(specs_taken texts hle).mpr ⟨specs, hspecs, hlimits, rfl⟩, rfl⟩,
        bind_eq_ok.mpr ⟨_, forEach_eq_ok.mpr
          ⟨(names_taken texts hlimits).mpr ⟨read, hread, hlimits', rfl⟩, rfl⟩, rfl⟩⟩⟩

/-- **What escapes**, part by part. -/
theorem collect_eq_foreign {terminals : List (Option Terminal)} {terminalsRaise : Bool}
    {manifest : Manifest} {ignoredTerminals : List (Option PyStr)} {ignoredRaise : Bool} :
    input.collect texts terminals terminalsRaise manifest ignoredTerminals ignoredRaise =
        .error .foreign ↔
      grammarSource texts input.grammar = .error .foreign ∨
      (terminalsRaise = true ∧ ∃ yacc specs, input.GivesText texts yacc ∧
        List.Forall₂ Specifies terminals specs ∧
        checkSourceLimits ⟨yacc, specs, []⟩ .default = .ok ()) ∨
      (terminalsRaise = false ∧ ignoredRaise = true ∧ ∃ source : SourceGrammar,
        input.GivesText texts source.yacc ∧
        List.Forall₂ Specifies terminals source.terminals ∧
        List.Forall₂ Names ignoredTerminals source.ignoredTerminals ∧
        checkSourceLimits source .default = .ok ()) := by
  rw [← sourceText_eq_foreign, collect]
  constructor
  · intro h
    rcases bind_eq_error.mp h with hsource | ⟨⟨value, size⟩, hsource, h⟩
    · exact Or.inl hsource
    obtain ⟨yacc, hyacc, rfl, rfl, hle⟩ := (input.sourceText_eq_ok texts).mp hsource
    rcases bind_eq_error.mp h with hparts | ⟨parts, hparts, h⟩
    · obtain ⟨⟨parts, hparts⟩, hraise⟩ := forEach_eq_foreign.mp hparts
      obtain ⟨specs, hspecs, hlimits, -⟩ := (specs_taken texts hle).mp hparts
      exact Or.inr (Or.inl ⟨hraise, yacc, specs, hyacc, hspecs, hlimits⟩)
    obtain ⟨hparts, hraise⟩ := forEach_eq_ok.mp hparts
    obtain ⟨specs, hspecs, hlimits, rfl⟩ := (specs_taken texts hle).mp hparts
    rcases bind_eq_error.mp h with hignored | ⟨ignored, -, h⟩
    · obtain ⟨⟨ignored, hignored⟩, hraise'⟩ := forEach_eq_foreign.mp hignored
      obtain ⟨read, hread, hlimits', -⟩ := (names_taken texts hlimits).mp hignored
      exact Or.inr (Or.inr ⟨hraise, hraise', ⟨yacc, specs, read⟩, hyacc, hspecs, hread, hlimits'⟩)
    · cases h
  · rintro (hsource | ⟨rfl, yacc, specs, hyacc, hspecs, hlimits⟩ |
      ⟨rfl, rfl, ⟨yacc, specs, read⟩, hyacc, hspecs, hread, hlimits'⟩)
    · exact bind_eq_error.mpr (Or.inl hsource)
    · have hle := yacc_le hlimits
      refine bind_eq_error.mpr (Or.inr ⟨(.ofString yacc, yacc.utf8ByteSize),
        (input.sourceText_eq_ok texts).mpr ⟨yacc, hyacc, rfl, rfl, hle⟩, ?_⟩)
      exact bind_eq_error.mpr (Or.inl (forEach_eq_foreign.mpr
        ⟨⟨_, (specs_taken texts hle).mpr ⟨specs, hspecs, hlimits, rfl⟩⟩, rfl⟩))
    · have hlimits := limits_of_names hlimits'
      have hle := yacc_le hlimits
      refine bind_eq_error.mpr (Or.inr ⟨(.ofString yacc, yacc.utf8ByteSize),
        (input.sourceText_eq_ok texts).mpr ⟨yacc, hyacc, rfl, rfl, hle⟩, ?_⟩)
      refine bind_eq_error.mpr (Or.inr ⟨_, forEach_eq_ok.mpr
        ⟨(specs_taken texts hle).mpr ⟨specs, hspecs, hlimits, rfl⟩, rfl⟩, ?_⟩)
      exact bind_eq_error.mpr (Or.inl (forEach_eq_foreign.mpr
        ⟨⟨_, (names_taken texts hlimits).mpr ⟨read, hread, hlimits', rfl⟩⟩, rfl⟩))

theorem arguments_eq_ok {manifest : Manifest} {arguments : NativeArguments} :
    input.arguments texts = .ok (manifest, arguments) ↔
      ∃ source, input.Gives texts manifest source ∧
        checkSourceLimits source .default = .ok () ∧ arguments = .of source manifest.tokens := by
  obtain ⟨grammar, startRule, terminals, tokenizer, ignoredTerminals⟩ := input
  constructor
  · intro h
    cases tokenizer with
    | none => cases h
    | some given =>
      cases terminals with
      | text => cases h
      | iterable terminals terminalsRaise =>
        cases ignoredTerminals with
        | text => cases h
        | iterable ignoredTerminals ignoredRaise =>
          obtain ⟨found, hfound, hpair⟩ := map_eq_ok.mp h
          obtain ⟨rfl, rfl⟩ := Prod.mk.inj hpair
          obtain ⟨rfl, rfl, source, hyacc, hterminals, hignored, hlimits, harguments⟩ :=
            (collect_eq_ok texts _).mp hfound
          exact ⟨source, ⟨rfl, hyacc, ⟨terminals, rfl, hterminals⟩,
            ⟨ignoredTerminals, rfl, hignored⟩⟩, hlimits, harguments⟩
  · rintro ⟨source, ⟨rfl, hyacc, ⟨terminals, rfl, hterminals⟩,
      ⟨ignoredTerminals, rfl, hignored⟩⟩, hlimits, harguments⟩
    exact map_eq_ok.mpr ⟨arguments, (collect_eq_ok texts _).mpr
      ⟨rfl, rfl, source, hyacc, hterminals, hignored, hlimits, harguments⟩, rfl⟩

/-- What escapes in front of the native module. -/
theorem arguments_eq_foreign : input.arguments texts = .error .foreign ↔ input.Escapes texts := by
  constructor
  · intro h
    rcases input with
      ⟨grammar, startRule, _ | ⟨terminals, terminalsRaise⟩, _ | tokenizer, _ | ⟨names, namesRaise⟩⟩
    any_goals cases h
    rcases (collect_eq_foreign texts _).mp (map_eq_error.mp h) with
      hgrammar | ⟨rfl, yacc, specs, hyacc, hspecs, hlimits⟩ |
        ⟨rfl, rfl, source, hyacc, hspecs, hread, hlimits⟩
    · exact .grammar rfl rfl rfl hgrammar
    · exact .terminals rfl rfl rfl hyacc hspecs hlimits
    · exact .ignored rfl rfl rfl hyacc hspecs hread hlimits
  · intro h
    obtain ⟨grammar, startRule, terminals, tokenizer, ignoredTerminals⟩ := input
    cases h with
    | grammar htokenizer hterminals hnames hgrammar =>
      obtain rfl : tokenizer = _ := htokenizer
      obtain rfl : terminals = _ := hterminals
      obtain rfl : ignoredTerminals = _ := hnames
      exact map_eq_error.mpr ((collect_eq_foreign texts _).mpr (Or.inl hgrammar))
    | terminals htokenizer hterminals hnames hyacc hspecs hlimits =>
      obtain rfl : tokenizer = _ := htokenizer
      obtain rfl : terminals = _ := hterminals
      obtain rfl : ignoredTerminals = _ := hnames
      exact map_eq_error.mpr ((collect_eq_foreign texts _).mpr
        (Or.inr (Or.inl ⟨rfl, _, _, hyacc, hspecs, hlimits⟩)))
    | ignored htokenizer hterminals hnames hyacc hspecs hread hlimits =>
      obtain rfl : tokenizer = _ := htokenizer
      obtain rfl : terminals = _ := hterminals
      obtain rfl : ignoredTerminals = _ := hnames
      exact map_eq_error.mpr ((collect_eq_foreign texts _).mpr
        (Or.inr (Or.inr ⟨rfl, rfl, _, hyacc, hspecs, hread, hlimits⟩)))

/-- **The boundary lets pass** what the facade hands over. -/
theorem preflight_handed {manifest : Manifest} {source : SourceGrammar}
    (hlimits : checkSourceLimits source .default = .ok ()) :
    (NativeArguments.of source manifest.tokens).preflight .default = .ok () := by
  have hfits := (checkSourceLimits_eq_ok (by decide) (by decide)).mp hlimits
  exact (NativeArguments.preflight_eq_ok BoundaryLimits.default_proper).mpr
    ⟨hfits.bytes, hfits.terminals, hfits.ignored, hfits.regexes,
      manifest.length_tokens.le.trans manifest.wellFormed.length_le, manifest.wellFormed.bytes_le⟩

end CompileInput

section
variable {σ ρ StateID : Type} [DecidableEq StateID]
variable (generators : Generators σ ρ StateID) (display : CompileError → String)

/-- `compile`. -/
def CompileInput.compile (texts : PythonTexts) (input : CompileInput) (memory : Memory) :
    Except Raised CompiledGrammar :=
  match input.arguments texts with
  | .error raised => .error raised
  | .ok (manifest, arguments) =>
    match compileYacc generators display arguments memory with
    | .error (.native failure) => .error (.own (fromNative failure.intoPyerr none))
    | .error .foreign => .error .foreign
    | .ok native => .ok ⟨native, manifest.ids⟩

variable {generators display}

/-- The compiler compiles no source that its limits refuse. -/
theorem checkSourceLimits_of_compileInner {source : SourceGrammar}
    {tokens : List (Option (List UInt8))} {memory : Memory} {native : NativeGrammar}
    (h : compileInner generators display source tokens memory = .ok native) :
    checkSourceLimits source .default = .ok () := by
  have hcompile : ∃ granted, compileTokens generators display source tokens granted =
      .ok native := by
    rw [compileInner] at h
    obtain ⟨-, h⟩ := ite_error_eq_ok.mp h
    obtain ⟨-, h⟩ := ite_error_eq_ok.mp h
    split at h
    · cases h
    · split at h
      · cases h
      · exact ⟨_, h⟩
  obtain ⟨granted, h⟩ := hcompile
  rw [compileTokens] at h
  split at h
  · cases h
  · cases h
  · rename_i prepared hprepared
    obtain ⟨grammar, validated, hnormalize, -, -⟩ := compile_ok hprepared
    exact (bind_eq_ok.mp hnormalize).choose_spec.1

/-- **What is compiled**: the source that is given, by the compiler alone. -/
theorem CompileInput.compile_of_gives {texts : PythonTexts} {input : CompileInput}
    {manifest : Manifest} {source : SourceGrammar} (memory : Memory)
    (hgives : input.Gives texts manifest source)
    (hlimits : checkSourceLimits source .default = .ok ()) :
    input.compile generators display texts memory =
      ((compileInner generators display source manifest.tokens memory).mapError fun failure =>
        .own (fromNative failure.intoPyerr none)).map fun native => ⟨native, manifest.ids⟩ := by
  rw [CompileInput.compile,
    (arguments_eq_ok texts input).mpr ⟨source, hgives, hlimits, rfl⟩]
  dsimp only
  rw [compileYacc_of (preflight_handed hlimits)]
  cases compileInner generators display source manifest.tokens memory with
  | error failure => rfl
  | ok native => rfl

/-- **The facade compiles what the compiler compiles.**  No check of the facade or of the
boundary refuses a source that the compiler compiles, and `compile` returns what comes of the
source it is given. -/
theorem facade_compile_exact (texts : PythonTexts) (input : CompileInput) (memory : Memory)
    (compiled : CompiledGrammar) :
    input.compile generators display texts memory = .ok compiled ↔
      ∃ manifest source, input.Gives texts manifest source ∧
        compileInner generators display source manifest.tokens memory = .ok compiled.native ∧
        compiled.eosTokenIds = manifest.ids := by
  constructor
  · intro h
    cases harguments : input.arguments texts with
    | error error =>
      rw [CompileInput.compile, harguments] at h
      cases h
    | ok found =>
      obtain ⟨manifest, arguments⟩ := found
      obtain ⟨source, hgives, hlimits, rfl⟩ :=
        (CompileInput.arguments_eq_ok texts input).mp harguments
      rw [CompileInput.compile_of_gives memory hgives hlimits] at h
      cases hinner : compileInner generators display source manifest.tokens memory with
      | error failure =>
        rw [hinner] at h
        cases h
      | ok native =>
        rw [hinner] at h
        obtain rfl := Except.ok.inj h
        exact ⟨manifest, source, hgives, hinner, rfl⟩
  · rintro ⟨manifest, source, hgives, hinner, hids⟩
    rw [CompileInput.compile_of_gives memory hgives (checkSourceLimits_of_compileInner hinner),
      hinner, ← hids]
    rfl

/-- **What escapes is not the package's doing.**  `compile` raises an exception that is not of the
package exactly when it passes one on, from reading the grammar or from iterating over its
arguments; what it refuses itself, and what the native module reports, is told. -/
theorem facade_raises_foreign (texts : PythonTexts) (input : CompileInput) (memory : Memory) :
    input.compile generators display texts memory = .error .foreign ↔ input.Escapes texts := by
  rw [← CompileInput.arguments_eq_foreign]
  cases harguments : input.arguments texts with
  | error raised =>
    rw [CompileInput.compile, harguments]
    exact ⟨fun h => congrArg Except.error (Except.error.inj h),
      fun h => congrArg Except.error (Except.error.inj h)⟩
  | ok found =>
    refine ⟨fun h => ?_, fun h => (by cases h)⟩
    obtain ⟨manifest, arguments⟩ := found
    obtain ⟨source, hgives, hlimits, rfl⟩ :=
      (CompileInput.arguments_eq_ok texts input).mp harguments
    rw [CompileInput.compile_of_gives memory hgives hlimits] at h
    cases hinner : compileInner generators display source manifest.tokens memory with
    | error failure =>
      rw [hinner] at h
      cases h
    | ok native =>
      rw [hinner] at h
      cases h

end

end GreatGramma
