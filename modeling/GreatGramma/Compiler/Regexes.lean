import GreatGramma.Compiler.Grammar
import GreatGramma.Compiler.LexerDfa
import GreatGramma.Compiler.RegexProfile

/-!
# Compiling the regexes

`compile_regexes`.  Every terminal is registered as a lexeme of `llguidance`'s `LexerSpec`;
terminals with the same regex share one.  The specification is then made into a `RegexVec`, whose
start state must leave every lexeme possible, and the terminals of a shared lexeme are collapsed to
the one of the smallest priority.

## The specification

`llguidance` is not part of this repository; what is called of the specification is a parameter, as
the vector is.  Methods that change it return the one that is there afterwards.  Registration
searches through the lexemes that are there for one with the same regex, which the fuel of the
specification does not see, so the work of these scans is counted beside the fuel.  Reservations
succeed.

## What matters of the result

Two things of the result matter to the tables: its aliases are terminals that were registered, and,
as nullable ones are refused, its start state accepts nothing (`compileRegexes_ok`).  The second
rests on what is assumed of the specification: a lexeme keeps its regex when others are added, a
start state accepts none of its lexemes when none is nullable, and setting limits changes no state
(`LexerSpec.WellFormed`).  What the labels mean is not spoken of here (`Compiler.Lexemes`).
-/

namespace GreatGramma

open Traversal

/-- What the compiler calls of `llguidance`'s `LexerSpec`, and of the vector that it makes. -/
structure LexerSpec (σ ρ StateID : Type) where
  /-- `LexerSpec::new()`, with Unicode and UTF-8 turned off -/
  new : Except String σ
  /-- `setup_lexeme_class(RegexAst::NoMatch)` -/
  setupLexemeClass : σ → Except String σ
  cost : σ → ℕ
  /-- `lexemes.len()` -/
  lexemesLen : σ → ℕ
  /-- `add_greedy_lexeme(name, RegexAst::Regex(pattern), false, None, usize::MAX)` -/
  addGreedyLexeme : σ → String → String → Except String (σ × ℕ)
  isNullable : σ → ℕ → Bool
  /-- `to_regex_vec`, with the fuel of the limits -/
  toRegexVec : σ → ℕ → Except String ρ
  totalFuelSpent : ρ → ℕ
  initialState : ρ → List ℕ → ρ × StateID
  /-- `state_desc(state).possible` -/
  possible : ρ → StateID → List ℕ

/-! ## Registration -/

/-- `check_regex_fuel`. -/
def checkRegexFuel (required maximum : ℕ) : Except CompileFailure Unit :=
  if required > maximum then .error (.error (.compilerWorkLimit required maximum)) else .ok ()

/-- `internal_regex_error`. -/
def internalRegexError (message : String) : CompileFailure :=
  .error (.invalidRegex "<lexer>" message)

/-- `saturating_add`, in `u64` or `usize`. -/
def saturatingAdd (a b : ℕ) : ℕ := min (a + b) (2 ^ 64 - 1)

/-- The terminal as its regex is labelled with it. -/
def ResolvedTerminal.label (terminal : ResolvedTerminal) : TerminalMeta :=
  ⟨terminal.name, terminal.priority, terminal.terminal⟩

/-- The specification while the terminals are registered, with the lexeme of each. -/
structure Registered (σ : Type) where
  spec : σ
  bindings : List (ℕ × TerminalMeta)
  scanCost : ℕ

section
variable {σ ρ StateID : Type} (lexers : LexerSpec σ ρ StateID)

/-- One terminal of the loop of `compile_regexes`. -/
def registerTerminal (lookSetIsEmpty : String → Option Bool) (maxFuel : ℕ)
    (registered : Registered σ) (terminal : ResolvedTerminal) :
    Except CompileFailure (Registered σ) :=
  match unsupportedFeature lookSetIsEmpty terminal.pattern with
  | some feature => .error (.error (.unsupportedRegex terminal.name feature))
  | none => do
    let scanCost := saturatingAdd registered.scanCost (lexers.lexemesLen registered.spec)
    checkRegexFuel (saturatingAdd scanCost (lexers.cost registered.spec)) maxFuel
    let (spec, index) ← (lexers.addGreedyLexeme registered.spec terminal.name
      terminal.pattern).mapError fun message => .error (.invalidRegex terminal.name message)
    checkRegexFuel (saturatingAdd scanCost (lexers.cost spec)) maxFuel
    if lexers.isNullable spec index then throw (.error (.nullableTerminal terminal.name))
    else
      return { spec, scanCost, bindings := registered.bindings ++ [(index, terminal.label)] }

/-- One binding of the loop that groups the terminals by their lexemes. -/
def groupBinding (aliases : List (List TerminalMeta)) (binding : ℕ × TerminalMeta) :
    Except CompileFailure (List (List TerminalMeta)) := do
  let group ← indexAt aliases binding.1
  return aliases.set binding.1 (group ++ [binding.2])

/-- The lexemes that have a terminal, as a lexeme set lists them. -/
def selectedLexemes (count : ℕ) (bindings : List (ℕ × TerminalMeta)) : List ℕ :=
  (List.range count).filter fun index => bindings.any fun binding => binding.1 == index

/-- One lexeme of the loop that looks for terminals that match nothing. -/
def checkPossible (possible : List ℕ) (aliases : List (List TerminalMeta)) (index : ℕ) :
    Except CompileFailure Unit :=
  if index ∈ possible then .ok ()
  else do
    let group ← indexAt aliases index
    match group.head? with
    | none => throw .panic
    | some terminal => throw (.error (.unmatchableTerminal terminal.name))

/-- How a failure to make the vector is reported. -/
def regexVecFailure (maxFuel : ℕ) (message : String) : CompileFailure :=
  if "fuel exhausted when checking relevance of lexemes".toList.isPrefixOf message.toList then
    .error (.compilerWorkLimit (saturatingAdd maxFuel 1) maxFuel)
  else internalRegexError message

/-- `compile_regexes`. -/
def compileRegexes (lookSetIsEmpty : String → Option Bool) (terminals : List ResolvedTerminal)
    (maxFuel maxOutputBytes : ℕ) : Except CompileFailure (CompiledRegexes ρ StateID) := do
  let spec ← lexers.new.mapError internalRegexError
  let spec ← (lexers.setupLexemeClass spec).mapError internalRegexError
  checkRegexFuel (lexers.cost spec) maxFuel
  let registered ← terminals.foldlM (registerTerminal lexers lookSetIsEmpty maxFuel) ⟨spec, [], 0⟩
  let spec := registered.spec
  let aliases ← registered.bindings.foldlM groupBinding
    (List.replicate (lexers.lexemesLen spec) [])
  let selected := selectedLexemes (lexers.lexemesLen spec) registered.bindings
  let registrationAndSpecFuel := saturatingAdd registered.scanCost (lexers.cost spec)
  checkRegexFuel registrationAndSpecFuel maxFuel
  let regexes ← (lexers.toRegexVec spec (maxFuel - registrationAndSpecFuel)).mapError
    (regexVecFailure maxFuel)
  checkRegexFuel (saturatingAdd registered.scanCost (lexers.totalFuelSpent regexes)) maxFuel
  let (regexes, start) := lexers.initialState regexes selected
  selected.forM (checkPossible (lexers.possible regexes start) aliases)
  let aliases ← collapseAliases aliases
  return { regexes, start, aliases, maxOutputBytes }

end

/-! ## What the start state accepts -/

/-- **What is relied on of `llguidance`.**  Lexemes are added to those that are there, and the
regex of a lexeme does not change; a start state accepts none of its lexemes when none of them
is nullable; and the limits of a vector are not part of its states. -/
structure LexerSpec.WellFormed {σ ρ StateID : Type} (lexers : LexerSpec σ ρ StateID)
    (engine : RegexVec ρ StateID) : Prop where
  lexeme_lt : ∀ spec name pattern spec' index,
    lexers.addGreedyLexeme spec name pattern = .ok (spec', index) →
      lexers.lexemesLen spec ≤ lexers.lexemesLen spec' ∧ index < lexers.lexemesLen spec'
  nullable_stable : ∀ spec name pattern spec' index,
    lexers.addGreedyLexeme spec name pattern = .ok (spec', index) →
      ∀ earlier < lexers.lexemesLen spec,
        lexers.isNullable spec' earlier = lexers.isNullable spec earlier
  start_accepting : ∀ spec fuel regexes selected,
    lexers.toRegexVec spec fuel = .ok regexes →
      (∀ index ∈ selected, lexers.isNullable spec index = false) →
        engine.greedyAccepting (lexers.initialState regexes selected).1
          (lexers.initialState regexes selected).2 = []
  setMaxStates_accepting : ∀ regexes states state,
    engine.greedyAccepting (engine.setMaxStates regexes states) state =
      engine.greedyAccepting regexes state
  setFuel_accepting : ∀ regexes fuel state,
    engine.greedyAccepting (engine.setFuel regexes fuel) state =
      engine.greedyAccepting regexes state

section
variable {σ ρ StateID : Type} {lexers : LexerSpec σ ρ StateID} {engine : RegexVec ρ StateID}
  {lookSetIsEmpty : String → Option Bool} {maxFuel maxOutputBytes : ℕ}

/-- The terminals `done` are registered, each with a lexeme that is not nullable. -/
structure Registered.Holds (lexers : LexerSpec σ ρ StateID) (done : List ResolvedTerminal)
    (registered : Registered σ) : Prop where
  labels : registered.bindings.map Prod.snd = done.map ResolvedTerminal.label
  lexemes : ∀ binding ∈ registered.bindings, binding.1 < lexers.lexemesLen registered.spec ∧
    lexers.isNullable registered.spec binding.1 = false

/-- **One terminal more is registered.** -/
theorem registerTerminal_holds (hlexers : lexers.WellFormed engine)
    {registered registered' : Registered σ} {done : List ResolvedTerminal}
    {terminal : ResolvedTerminal} (h : registered.Holds lexers done)
    (hstep : registerTerminal lexers lookSetIsEmpty maxFuel registered terminal = .ok registered') :
    registered'.Holds lexers (done ++ [terminal]) := by
  unfold registerTerminal at hstep
  split at hstep
  · cases hstep
  obtain ⟨_, -, hstep⟩ := bind_eq_ok.mp hstep
  obtain ⟨⟨spec, index⟩, hadd, hstep⟩ := bind_eq_ok.mp hstep
  obtain ⟨_, -, hstep⟩ := bind_eq_ok.mp hstep
  obtain ⟨hnullable, hstep⟩ := ite_error_eq_ok.mp hstep
  obtain rfl := Except.ok.inj hstep
  have hadd' := mapError_eq_ok.mp hadd
  obtain ⟨hgrow, hindex⟩ := hlexers.lexeme_lt _ _ _ _ _ hadd'
  refine ⟨?_, fun binding hbinding => ?_⟩
  · rw [List.map_append, List.map_append, h.labels]
    rfl
  · rcases List.mem_append.mp hbinding with hearlier | hlast
    · obtain ⟨hlt, hfalse⟩ := h.lexemes binding hearlier
      refine ⟨hlt.trans_le hgrow, ?_⟩
      rw [hlexers.nullable_stable _ _ _ _ _ hadd' _ hlt, hfalse]
    · rw [List.mem_singleton.mp hlast]
      exact ⟨hindex, Bool.not_eq_true _ ▸ hnullable⟩

theorem mem_selectedLexemes {count index : ℕ} {bindings : List (ℕ × TerminalMeta)}
    (h : index ∈ selectedLexemes count bindings) : ∃ binding ∈ bindings, binding.1 = index := by
  obtain ⟨binding, hbinding, heq⟩ := List.any_eq_true.mp (List.mem_filter.mp h).2
  exact ⟨binding, hbinding, beq_iff_eq.mp heq⟩

theorem groupBinding_mem {bindings : List (ℕ × TerminalMeta)} {count : ℕ}
    {aliases : List (List TerminalMeta)}
    (h : bindings.foldlM groupBinding (List.replicate count []) = .ok aliases) :
    ∀ group ∈ aliases, ∀ terminal ∈ group, terminal ∈ bindings.map Prod.snd := by
  refine foldlM_ok (I := fun done (aliases : List (List TerminalMeta)) =>
    ∀ group ∈ aliases, ∀ terminal ∈ group, terminal ∈ done.map Prod.snd) h ?_ ?_
  · intro group hgroup terminal hterminal
    rw [List.eq_of_mem_replicate hgroup] at hterminal
    exact absurd hterminal List.not_mem_nil
  · intro done binding after aliases aliases' _ hdone hstep group hgroup terminal hterminal
    obtain ⟨found, hfound, hstep⟩ := bind_eq_ok.mp hstep
    obtain rfl := Except.ok.inj hstep
    have hmem := List.mem_of_getElem? (indexAt_eq_ok.mp hfound)
    rw [List.map_append, List.mem_append]
    rcases List.mem_or_eq_of_mem_set hgroup with hold | rfl
    · exact Or.inl (hdone group hold terminal hterminal)
    · rcases List.mem_append.mp hterminal with hold | hnew
      · exact Or.inl (hdone found hmem terminal hold)
      · exact Or.inr (by rw [List.mem_singleton.mp hnew]; exact List.mem_singleton_self _)

theorem collapseGroup_mem {group : List TerminalMeta} {winner : TerminalMeta}
    (h : collapseGroup group = .ok (some winner)) : winner ∈ group := by
  unfold collapseGroup at h
  split at h
  · cases h
  · obtain ⟨found, hfound, h⟩ := bind_eq_ok.mp h
    dsimp only at h
    split at h
    · cases h
    · rw [← Option.some_inj.mp (Except.ok.inj h)]
      exact List.mem_of_getElem? (indexAt_eq_ok.mp hfound)

theorem collapseAliases_mem {aliases : List (List TerminalMeta)}
    {collapsed : List (Option TerminalMeta)} (h : collapseAliases aliases = .ok collapsed) :
    ∀ winner, some winner ∈ collapsed → ∃ group ∈ aliases, winner ∈ group := by
  refine foldlM_ok (I := fun done (collapsed : List (Option TerminalMeta)) =>
    ∀ winner, some winner ∈ collapsed → ∃ group ∈ done, winner ∈ group) h ?_ ?_
  · exact fun winner hmem => absurd hmem List.not_mem_nil
  · intro done group after collapsed collapsed' _ hdone hstep winner hmem
    obtain ⟨found, hfound, hstep⟩ := bind_eq_ok.mp hstep
    obtain rfl := Except.ok.inj hstep
    rcases List.mem_append.mp hmem with hold | hnew
    · obtain ⟨group', hgroup', hwinner⟩ := hdone winner hold
      exact ⟨group', List.mem_append_left _ hgroup', hwinner⟩
    · rw [← List.mem_singleton.mp hnew] at hfound
      exact ⟨group, List.mem_append_right done (List.mem_singleton_self group),
        collapseGroup_mem hfound⟩

/-- **What `compile_regexes` returns.**  The aliases are terminals that it was given, and the
start state accepts none of them, whatever limits the vector gets. -/
theorem compileRegexes_ok (hlexers : lexers.WellFormed engine) {terminals : List ResolvedTerminal}
    {compiled : CompiledRegexes ρ StateID}
    (h : compileRegexes lexers lookSetIsEmpty terminals maxFuel maxOutputBytes = .ok compiled) :
    (∀ winner, some winner ∈ compiled.aliases →
      winner.terminal ∈ terminals.map ResolvedTerminal.terminal) ∧
    ∀ states work, engine.greedyAccepting (limitedRegexes engine compiled.regexes states work)
      compiled.start = [] := by
  rw [compileRegexes] at h
  obtain ⟨_, -, h⟩ := bind_eq_ok.mp h
  obtain ⟨spec, -, h⟩ := bind_eq_ok.mp h
  obtain ⟨_, -, h⟩ := bind_eq_ok.mp h
  obtain ⟨registered, hregister, h⟩ := bind_eq_ok.mp h
  obtain ⟨aliases, hgroup, h⟩ := bind_eq_ok.mp h
  obtain ⟨_, -, h⟩ := bind_eq_ok.mp h
  obtain ⟨regexes, hvec, h⟩ := bind_eq_ok.mp h
  obtain ⟨_, -, h⟩ := bind_eq_ok.mp h
  obtain ⟨_, -, h⟩ := bind_eq_ok.mp h
  obtain ⟨collapsed, hcollapse, h⟩ := bind_eq_ok.mp h
  obtain rfl := Except.ok.inj h
  have hholds : registered.Holds lexers terminals := by
    refine foldlM_ok (I := fun done (registered : Registered σ) => registered.Holds lexers done)
      hregister ⟨rfl, fun binding hbinding => absurd hbinding List.not_mem_nil⟩ ?_
    exact fun _ _ _ _ _ _ hdone hstep => registerTerminal_holds hlexers hdone hstep
  refine ⟨fun winner hwinner => ?_, fun states work => ?_⟩
  · obtain ⟨group, hmem, hgroup'⟩ := collapseAliases_mem hcollapse winner hwinner
    have hlabel := groupBinding_mem hgroup group hmem winner hgroup'
    rw [hholds.labels] at hlabel
    obtain ⟨terminal, hterminal, rfl⟩ := List.mem_map.mp hlabel
    exact List.mem_map_of_mem hterminal
  · rw [limitedRegexes, hlexers.setFuel_accepting, hlexers.setMaxStates_accepting]
    refine hlexers.start_accepting _ _ _ _ (mapError_eq_ok.mp hvec) fun index hindex => ?_
    obtain ⟨binding, hbinding, rfl⟩ := mem_selectedLexemes hindex
    exact (hholds.lexemes binding hbinding).2

end

end GreatGramma
