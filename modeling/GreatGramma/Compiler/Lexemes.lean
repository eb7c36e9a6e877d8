import GreatGramma.Compiler.Pipeline

/-!
# What the compiled lexer labels

The labels of the exported table are numbers of terminals.  What they mean is said by the patterns
of the terminals: a word has the label of the terminal that matches it, and where several do, of
the one with the smallest priority (`PatternLabel`).

## Three choices

On the way to the table three things are chosen from, and each choice keeps that reading.

1. Terminals with one pattern share a lexeme, and the lexeme gets the smallest of them
   (`collapse_aliases`).
2. A state of the vector accepts the lexemes that match what led to it.
3. Of those the smallest gives the label (`resolve_label`).

Ties are refused on the way, so the smallest is unique.  The order in which `resolve_label` reads
the lexemes may make it refuse, but where it finds a label it is this one (`resolveLabel_run`).

## What is assumed

`llguidance` is assumed to do what it documents (`LexerSpec.Means`): a lexeme matches what its
pattern matches, and a vector is an automaton that accepts the selected lexemes that match.  What a
pattern matches is a parameter, so nothing here depends on the syntax of patterns.  A terminal
whose lexeme is not possible in the start state is refused, and one that is nullable as well; the
empty word is never labelled.
-/

namespace GreatGramma

open RunningMinimum Traversal

/-! ## The choices

What goes through is a reading by a running minimum, without the work that it takes. -/

theorem collapseGroup_ok {group : List TerminalMeta} {winner : Option TerminalMeta}
    (h : collapseGroup group = .ok winner) :
    (group = [] ∧ winner = none) ∨
      ∃ m, winner = some m ∧ UniqueMinimum TerminalMeta.key m group := by
  by_cases hne : group = []
  · subst hne
    exact Or.inl ⟨rfl, (Except.ok.inj h).symm⟩
  obtain ⟨hlt, hle, -⟩ := (List.minIdxOn_eq_iff hne).mp
    (rfl : group.minIdxOn TerminalMeta.priority hne = _)
  unfold collapseGroup at h
  rw [List.minIdxOn?_eq_some_minIdxOn hne] at h
  generalize group.minIdxOn TerminalMeta.priority hne = winnerIndex at hlt hle h
  obtain ⟨found, hfound, h⟩ := bind_eq_ok.mp h
  obtain rfl : group[winnerIndex] = found :=
    Option.some.inj ((List.getElem?_eq_getElem hlt).symm.trans (indexAt_eq_ok.mp hfound))
  dsimp only at h
  split at h
  · cases h
  · rename_i hnone
    refine Or.inr ⟨_, (Except.ok.inj h).symm, .of_getElem hlt (fun z hz => ?_)
      fun j hj hne' hkey => ?_⟩
    · obtain ⟨j, hj, rfl⟩ := List.getElem_of_mem hz
      exact UInt32.le_iff_toNat_le.mp (hle j hj)
    · refine List.find?_eq_none.mp hnone (group[j], j)
        (List.mk_mem_zipIdx_iff_getElem?.mpr (List.getElem?_eq_getElem hj)) ?_
      exact decide_eq_true ⟨hne', UInt32.toNat_inj.mp hkey⟩

theorem collapseAliases_ok {aliases : List (List TerminalMeta)}
    {collapsed : List (Option TerminalMeta)} (h : collapseAliases aliases = .ok collapsed) :
    List.Forall₂ (fun group winner => collapseGroup group = .ok winner) aliases collapsed := by
  refine foldlM_ok (I := fun done (collapsed : List (Option TerminalMeta)) =>
    List.Forall₂ (fun group winner => collapseGroup group = .ok winner) done collapsed) h .nil ?_
  intro done group after collapsed collapsed' _ hdone hstep
  obtain ⟨winner, hwinner, hstep⟩ := bind_eq_ok.mp hstep
  obtain rfl := Except.ok.inj hstep
  exact List.rel_append hdone (.cons hwinner .nil)

theorem resolveLabelStep_ok {aliases : List (Option TerminalMeta)} {maximumWork : ℕ}
    {state state' : ℕ × Option TerminalMeta} {index : ℕ}
    (h : resolveLabelStep aliases maximumWork state index = .ok state') :
    ((aliases[index]?).join = none ∧ state'.2 = state.2) ∨
      ∃ terminal, (aliases[index]?).join = some terminal ∧
        step TerminalMeta.key state.2 terminal = .ok state'.2 := by
  obtain ⟨work, winner⟩ := state
  obtain ⟨entry, hentry, h⟩ := bind_eq_ok.mp h
  rw [indexAt_eq_ok.mp hentry]
  cases entry with
  | none =>
    obtain rfl := Except.ok.inj h
    exact Or.inl ⟨rfl, rfl⟩
  | some terminal =>
    refine Or.inr ⟨terminal, rfl, ?_⟩
    obtain ⟨_, -, h⟩ := bind_eq_ok.mp h
    cases winner with
    | none =>
      obtain rfl := Except.ok.inj h
      rfl
    | some previous =>
      dsimp only at h ⊢
      rw [step]
      split_ifs at h with hlt heq
      · obtain rfl := Except.ok.inj h
        exact if_pos (UInt32.lt_iff_toNat_lt.mp hlt)
      · obtain rfl := Except.ok.inj h
        have hlt' : ¬ terminal.key < previous.key := mt UInt32.lt_iff_toNat_lt.mpr hlt
        have heq' : terminal.key ≠ previous.key := mt UInt32.toNat_inj.mp heq
        rw [if_neg hlt', if_neg heq']

/-- **A label that is found** is the one of a reading of the accepting terminals. -/
theorem resolveLabel_run {aliases : List (Option TerminalMeta)} {accepting : List ℕ}
    {work work' maximumWork : ℕ} {label : Option TerminalId}
    (h : resolveLabel aliases accepting work maximumWork = .ok (work', label)) :
    ∃ winner, run TerminalMeta.key (acceptingTerminals aliases accepting) = .ok winner ∧
      label = winner.map TerminalMeta.terminal := by
  obtain ⟨⟨work'', winner⟩, hloop, h⟩ := bind_eq_ok.mp h
  obtain ⟨rfl, rfl⟩ := Prod.mk.inj (Except.ok.inj h)
  refine ⟨winner, ?_, rfl⟩
  refine foldlM_ok (I := fun done (state : ℕ × Option TerminalMeta) =>
    run TerminalMeta.key (acceptingTerminals aliases done) = .ok state.2) hloop rfl ?_
  intro done index after state state' _ hdone hstep
  rw [acceptingTerminals, List.filterMap_append, List.filterMap_cons, List.filterMap_nil]
  rcases resolveLabelStep_ok hstep with ⟨hnone, hsame⟩ | ⟨terminal, hsome, hread⟩
  · rw [hnone, List.append_nil, hsame]
    exact hdone
  · rw [hsome, run, List.foldlM_append]
    refine bind_eq_ok.mpr ⟨state.2, hdone, ?_⟩
    rw [List.foldlM_cons, hread]
    rfl

theorem groupBinding_iff {bindings : List (ℕ × TerminalMeta)} {count : ℕ}
    {aliases : List (List TerminalMeta)}
    (h : bindings.foldlM groupBinding (List.replicate count []) = .ok aliases) {i : ℕ}
    {m : TerminalMeta} :
    (i, m) ∈ bindings ↔ ∃ group, aliases[i]? = some group ∧ m ∈ group := by
  refine foldlM_ok (I := fun done (aliases : List (List TerminalMeta)) =>
    ((i, m) ∈ done ↔ ∃ group, aliases[i]? = some group ∧ m ∈ group)) h ?_ ?_
  · refine ⟨fun hmem => absurd hmem List.not_mem_nil, fun ⟨group, hgroup, hm⟩ => ?_⟩
    rw [List.eq_of_mem_replicate (List.mem_of_getElem? hgroup)] at hm
    exact absurd hm List.not_mem_nil
  · rintro done ⟨j, m'⟩ after aliases aliases' - hdone hstep
    obtain ⟨found, hfound, hstep⟩ := bind_eq_ok.mp hstep
    obtain rfl := Except.ok.inj hstep
    have hget := indexAt_eq_ok.mp hfound
    dsimp only at hget ⊢
    rw [List.mem_append, List.mem_singleton, hdone, List.getElem?_set]
    split_ifs with hsame hlt
    · subst hsame
      rw [hget]
      constructor
      · rintro (⟨group, hgroup, hm⟩ | heq)
        · obtain rfl := Option.some.inj hgroup
          exact ⟨_, rfl, List.mem_append_left _ hm⟩
        · rw [(Prod.mk.inj heq).2]
          exact ⟨_, rfl, List.mem_append_right _ (List.mem_singleton_self _)⟩
      · rintro ⟨group, hgroup, hm⟩
        obtain rfl := Option.some.inj hgroup
        rcases List.mem_append.mp hm with hold | hnew
        · exact Or.inl ⟨found, rfl, hold⟩
        · exact Or.inr (by rw [List.mem_singleton.mp hnew])
    · exact absurd (List.getElem?_eq_some_iff.mp hget).1 (hsame ▸ hlt)
    · refine or_iff_left fun heq => hsame (Prod.mk.inj heq).1.symm

/-! ## Lexemes -/

/-- **The label of a word by patterns**: the terminal that matches it, of those the one with the
smallest priority. -/
def PatternLabel (Matches : String → List UInt8 → Prop) (terminals : List ResolvedTerminal)
    (word : List UInt8) (t : TerminalId) : Prop :=
  ∃ terminal ∈ terminals, terminal.terminal = t ∧ Matches terminal.pattern word ∧
    ∀ other ∈ terminals, Matches other.pattern word → other.terminal ≠ t →
      terminal.priority < other.priority

theorem PatternLabel.unique {Matches : String → List UInt8 → Prop}
    {terminals : List ResolvedTerminal} {word : List UInt8} {t t' : TerminalId}
    (h : PatternLabel Matches terminals word t) (h' : PatternLabel Matches terminals word t') :
    t = t' := by
  obtain ⟨terminal, hmem, rfl, hmatches, hleast⟩ := h
  obtain ⟨terminal', hmem', rfl, hmatches', hleast'⟩ := h'
  by_contra hne
  have hlt := hleast terminal' hmem' hmatches' fun heq => hne heq.symm
  exact absurd hlt (UInt32.lt_asymm (hleast' terminal hmem hmatches hne))

/-- **What is relied on of `llguidance`'s lexers**: a lexeme matches what the pattern that it was
added for matches, and keeps doing so; and from a start state in which all selected lexemes
are possible the vector is an automaton, dead where nothing can match, that accepts the
selected lexemes that match what has been read. -/
structure LexerSpec.Means {σ ρ StateID : Type} (lexers : LexerSpec σ ρ StateID)
    (engine : RegexVec ρ StateID) (Matches : String → List UInt8 → Prop)
    (Lexeme : σ → ℕ → List UInt8 → Prop) : Prop where
  added : ∀ spec name pattern spec' index,
    lexers.addGreedyLexeme spec name pattern = .ok (spec', index) →
      ∀ word, Lexeme spec' index word ↔ Matches pattern word
  kept : ∀ spec name pattern spec' index,
    lexers.addGreedyLexeme spec name pattern = .ok (spec', index) →
      ∀ earlier < lexers.lexemesLen spec,
        ∀ word, Lexeme spec' earlier word ↔ Lexeme spec earlier word
  automaton : ∀ spec fuel regexes selected, lexers.toRegexVec spec fuel = .ok regexes →
    selected ≠ [] → (∀ index ∈ selected, index < lexers.lexemesLen spec ∧
      index ∈ lexers.possible (lexers.initialState regexes selected).1
        (lexers.initialState regexes selected).2) →
    ∃ (automaton : RegexAutomaton StateID) (Knows : ρ → StateID → Prop),
      (∀ compiled : CompiledRegexes ρ StateID,
        compiled.regexes = (lexers.initialState regexes selected).1 →
        compiled.start = (lexers.initialState regexes selected).2 →
          engine.Deterministic compiled automaton Knows) ∧
      (∀ s, engine.isDead s = true → automaton.accepting s = []) ∧
      ∀ (word : List UInt8) (index : ℕ),
        index ∈ automaton.accepting
            (word.foldl automaton.step (lexers.initialState regexes selected).2) ↔
          index ∈ selected ∧ Lexeme spec index word

section
variable {σ ρ StateID : Type} {lexers : LexerSpec σ ρ StateID} {engine : RegexVec ρ StateID}
  {Matches : String → List UInt8 → Prop} {Lexeme : σ → ℕ → List UInt8 → Prop}
  {lookSetIsEmpty : String → Option Bool} {maxFuel maxOutputBytes : ℕ}
  {terminals : List ResolvedTerminal}

/-- A binding of a terminal to a lexeme that matches what the terminal does. -/
structure Binding.Means (lexers : LexerSpec σ ρ StateID) (Matches : String → List UInt8 → Prop)
    (Lexeme : σ → ℕ → List UInt8 → Prop) (spec : σ) (terminal : ResolvedTerminal)
    (binding : ℕ × TerminalMeta) : Prop where
  label : binding.2 = terminal.label
  lexeme_lt : binding.1 < lexers.lexemesLen spec
  lexeme : ∀ word, Lexeme spec binding.1 word ↔ Matches terminal.pattern word

/-- **One terminal more is registered.** -/
theorem registerTerminal_means (hlexers : lexers.WellFormed engine)
    (hmeans : lexers.Means engine Matches Lexeme) {registered registered' : Registered σ}
    {done : List ResolvedTerminal} {terminal : ResolvedTerminal}
    (h : List.Forall₂ (Binding.Means lexers Matches Lexeme registered.spec) done
      registered.bindings)
    (hstep : registerTerminal lexers lookSetIsEmpty maxFuel registered terminal = .ok registered') :
    List.Forall₂ (Binding.Means lexers Matches Lexeme registered'.spec) (done ++ [terminal])
      registered'.bindings := by
  unfold registerTerminal at hstep
  split at hstep
  · cases hstep
  obtain ⟨_, -, hstep⟩ := bind_eq_ok.mp hstep
  obtain ⟨⟨spec, index⟩, hadd, hstep⟩ := bind_eq_ok.mp hstep
  obtain ⟨_, -, hstep⟩ := bind_eq_ok.mp hstep
  obtain ⟨-, hstep⟩ := ite_error_eq_ok.mp hstep
  obtain rfl := Except.ok.inj hstep
  have hadd' := mapError_eq_ok.mp hadd
  obtain ⟨hgrow, hindex⟩ := hlexers.lexeme_lt _ _ _ _ _ hadd'
  refine List.rel_append (h.imp fun earlier binding hold => ?_)
    (.cons ⟨rfl, hindex, hmeans.added _ _ _ _ _ hadd'⟩ .nil)
  refine ⟨hold.label, hold.lexeme_lt.trans_le hgrow, fun word => ?_⟩
  rw [hmeans.kept _ _ _ _ _ hadd' _ hold.lexeme_lt, hold.lexeme]

theorem selectedLexemes_mem {count : ℕ} {bindings : List (ℕ × TerminalMeta)}
    {binding : ℕ × TerminalMeta} (h : binding ∈ bindings) (hlt : binding.1 < count) :
    binding.1 ∈ selectedLexemes count bindings :=
  List.mem_filter.mpr
    ⟨List.mem_range.mpr hlt, List.any_eq_true.mpr ⟨binding, h, beq_self_eq_true _⟩⟩

/-- **The aliases mean what the terminals do**: those of the lexemes that match a word are the
smallest of the terminals that match it with them. -/
structure AliasesMean (Matches : String → List UInt8 → Prop) (terminals : List ResolvedTerminal)
    (aliases : List (Option TerminalMeta)) (accepting : List ℕ) (word : List UInt8) : Prop where
  sound : ∀ m ∈ acceptingTerminals aliases accepting,
    ∃ terminal ∈ terminals, terminal.label = m ∧ Matches terminal.pattern word
  complete : ∀ terminal ∈ terminals, Matches terminal.pattern word →
    ∃ m ∈ acceptingTerminals aliases accepting, m.key ≤ terminal.label.key ∧
      (terminal.label.key = m.key → terminal.label = m)

/-- **The label of a word**, from what its accepting terminals mean. -/
theorem AliasesMean.label_iff {aliases : List (Option TerminalMeta)} {accepting : List ℕ}
    {word : List UInt8} (h : AliasesMean Matches terminals aliases accepting word)
    {label : Option TerminalId} (hlabel : LabelOf aliases accepting label) (t : TerminalId) :
    label = some t ↔ PatternLabel Matches terminals word t := by
  obtain ⟨work, hresolve⟩ := hlabel
  obtain ⟨winner, hrun, rfl⟩ := resolveLabel_run hresolve
  have hsound : ∀ m, UniqueMinimum TerminalMeta.key m (acceptingTerminals aliases accepting) →
      PatternLabel Matches terminals word m.terminal := by
    intro m hm
    obtain ⟨terminal, hmem, rfl, hmatches⟩ := h.sound m hm.mem
    refine ⟨terminal, hmem, rfl, hmatches, fun other hother hmatches' hne => ?_⟩
    obtain ⟨least, hleast, hle, hsame⟩ := h.complete other hother hmatches'
    refine UInt32.lt_iff_toNat_lt.mpr
      (lt_of_le_of_ne ((hm.le least hleast).trans hle) fun heq => ?_)
    -- a terminal with the priority of the winner is its own alias, and that is the winner
    have hkey : least.key = terminal.label.key :=
      le_antisymm (hle.trans_eq heq.symm) (hm.le least hleast)
    have hother' := hsame (heq.symm.trans hkey.symm)
    exact hne (congrArg TerminalMeta.terminal (hother'.trans (hm.eq_of_key hleast hkey)))
  rcases run_ok hrun with ⟨hnil, rfl⟩ | ⟨m, rfl, hm⟩
  · refine ⟨fun hnone => (by cases hnone), fun hpattern => ?_⟩
    obtain ⟨terminal, hmem, -, hmatches, -⟩ := hpattern
    obtain ⟨m, hm, -⟩ := h.complete terminal hmem hmatches
    rw [hnil] at hm
    exact absurd hm List.not_mem_nil
  · constructor
    · intro hsome
      obtain rfl := Option.some.inj hsome
      exact hsound m hm
    · intro hpattern
      rw [hpattern.unique (hsound m hm)]
      rfl

theorem checkPossible_mem {possible : List ℕ} {groups : List (List TerminalMeta)} {index : ℕ}
    (h : checkPossible possible groups index = .ok ()) : index ∈ possible := by
  rw [checkPossible] at h
  by_contra hnot
  rw [if_neg hnot] at h
  obtain ⟨group, -, h⟩ := bind_eq_ok.mp h
  split at h <;> cases h

/-- **The aliases of the compiled regexes mean what the terminals do**, in every state of the
automaton behind the vector. -/
theorem compileRegexes_means (hlexers : lexers.WellFormed engine)
    (hmeans : lexers.Means engine Matches Lexeme) (hne : terminals ≠ [])
    {compiled : CompiledRegexes ρ StateID}
    (h : compileRegexes lexers lookSetIsEmpty terminals maxFuel maxOutputBytes = .ok compiled) :
    ∃ (automaton : RegexAutomaton StateID) (Knows : ρ → StateID → Prop),
      engine.Deterministic compiled automaton Knows ∧
      (∀ s, engine.isDead s = true → automaton.accepting s = []) ∧
      ∀ word : List UInt8, AliasesMean Matches terminals compiled.aliases
        (automaton.accepting (word.foldl automaton.step compiled.start)) word := by
  rw [compileRegexes] at h
  obtain ⟨spec, -, h⟩ := bind_eq_ok.mp h
  obtain ⟨spec', -, h⟩ := bind_eq_ok.mp h
  obtain ⟨_, -, h⟩ := bind_eq_ok.mp h
  obtain ⟨registered, hregister, h⟩ := bind_eq_ok.mp h
  obtain ⟨groups, hgroup, h⟩ := bind_eq_ok.mp h
  obtain ⟨_, -, h⟩ := bind_eq_ok.mp h
  obtain ⟨regexes, hvec, h⟩ := bind_eq_ok.mp h
  obtain ⟨_, -, h⟩ := bind_eq_ok.mp h
  obtain ⟨_, hpossible, h⟩ := bind_eq_ok.mp h
  obtain ⟨collapsed, hcollapse, h⟩ := bind_eq_ok.mp h
  obtain rfl := Except.ok.inj h
  have hbound : List.Forall₂ (Binding.Means lexers Matches Lexeme registered.spec) terminals
      registered.bindings :=
    foldlM_ok (I := fun done (registered : Registered σ) =>
      List.Forall₂ (Binding.Means lexers Matches Lexeme registered.spec) done registered.bindings)
      hregister .nil
      fun _ _ _ _ _ _ hdone hstep => registerTerminal_means hlexers hmeans hdone hstep
  have hselected : ∀ binding ∈ registered.bindings, binding.1 ∈
      selectedLexemes (lexers.lexemesLen registered.spec) registered.bindings := by
    intro binding hbinding
    obtain ⟨terminal, -, hmeans⟩ := exists_of_mem_forall₂_right hbound hbinding
    exact selectedLexemes_mem hbinding hmeans.lexeme_lt
  have hcollapsed := collapseAliases_ok hcollapse
  have hnonempty :
      selectedLexemes (lexers.lexemesLen registered.spec) registered.bindings ≠ [] := by
    obtain ⟨terminal, hterminal⟩ := List.exists_mem_of_ne_nil _ hne
    obtain ⟨binding, hbinding, -⟩ := exists_of_mem_forall₂ hbound hterminal
    exact List.ne_nil_of_mem (hselected binding hbinding)
  obtain ⟨automaton, Knows, hdeterministic, hdead, haccepting⟩ :=
    hmeans.automaton _ _ _ _ (mapError_eq_ok.mp hvec) hnonempty fun index hindex =>
      ⟨List.mem_range.mp (List.mem_filter.mp hindex).1,
        checkPossible_mem (forM_eq_ok.mp hpossible index hindex)⟩
  refine ⟨automaton, Knows, hdeterministic _ rfl rfl, hdead, fun word => ⟨fun m hm => ?_,
    fun terminal hterminal hmatches => ?_⟩⟩
  · -- an alias is the smallest of its group, and the group has been bound
    obtain ⟨index, hindex, halias⟩ := List.mem_filterMap.mp hm
    obtain ⟨group, hget, hwinner⟩ :=
      getElem?_of_forall₂_right hcollapsed (Option.join_eq_some_iff.mp halias)
    rcases collapseGroup_ok hwinner with ⟨-, hnone⟩ | ⟨_, hsome, hleast⟩
    · cases hnone
    · obtain rfl := Option.some.inj hsome
      obtain ⟨terminal, hterminal, hbinding⟩ := exists_of_mem_forall₂_right hbound
        ((groupBinding_iff hgroup).mpr ⟨group, hget, hleast.mem⟩)
      exact ⟨terminal, hterminal, hbinding.label.symm,
        (hbinding.lexeme word).mp ((haccepting word index).mp hindex).2⟩
  · obtain ⟨⟨index, m⟩, hmem, hbinding⟩ := exists_of_mem_forall₂ hbound hterminal
    obtain ⟨group, hget, hm⟩ := (groupBinding_iff hgroup).mp hmem
    obtain ⟨winner, halias, hwinner⟩ := getElem?_of_forall₂ hcollapsed hget
    have hlabel : m = terminal.label := hbinding.label
    subst hlabel
    rcases collapseGroup_ok hwinner with ⟨rfl, -⟩ | ⟨least, rfl, hleast⟩
    · exact absurd hm List.not_mem_nil
    · refine ⟨least, List.mem_filterMap.mpr ⟨index, (haccepting word index).mpr
        ⟨hselected _ hmem, (hbinding.lexeme word).mpr hmatches⟩, ?_⟩, hleast.le _ hm,
          fun hkey => hleast.eq_of_key hm hkey⟩
      exact Option.join_eq_some_iff.mpr halias

theorem not_accepts_of_nil [DecidableEq StateID] (hlexers : lexers.WellFormed engine)
    {compiled : CompiledRegexes ρ StateID}
    (hcompiled : compileRegexes lexers lookSetIsEmpty [] maxFuel maxOutputBytes = .ok compiled)
    {maximumStates maximumWork : ℕ} {maximumCells : UInt64} {lexer : LexerDfa}
    (hlexer : buildLexerDfa engine compiled maximumStates maximumCells maximumWork = .ok lexer)
    (word : List UInt8) (t : TerminalId) : ¬ lexer.dfa.Accepts word t := by
  rintro ⟨q, -, hlabel⟩
  have hlabel' : lexer.terminals[q]? = some (some t) := Option.join_eq_some_iff.mp hlabel
  obtain ⟨winner, hwinner, -⟩ :=
    (buildLexerDfa_shaped hlexer).1.terminals_mem t (List.mem_of_getElem? hlabel')
  exact absurd ((compileRegexes_ok hlexers hcompiled).1 winner hwinner) List.not_mem_nil

/-- **The compiled lexer labels by patterns and priorities**: a word that is not empty is accepted
with the terminal that its pattern label is. -/
theorem compiled_accepts_iff [DecidableEq StateID] (hlexers : lexers.WellFormed engine)
    (hmeans : lexers.Means engine Matches Lexeme) {compiled : CompiledRegexes ρ StateID}
    (hcompiled : compileRegexes lexers lookSetIsEmpty terminals maxFuel maxOutputBytes =
      .ok compiled)
    {maximumStates maximumWork : ℕ} {maximumCells : UInt64} {lexer : LexerDfa}
    (hlexer : buildLexerDfa engine compiled maximumStates maximumCells maximumWork = .ok lexer)
    (word : List UInt8) (t : TerminalId) :
    lexer.dfa.Accepts word t ↔ PatternLabel Matches terminals word t := by
  by_cases hne : terminals = []
  · subst hne
    exact iff_of_false (not_accepts_of_nil hlexers hcompiled hlexer word t)
      fun ⟨_, hmem, _⟩ => absurd hmem List.not_mem_nil
  obtain ⟨automaton, Knows, hengine, hdead, hmean⟩ :=
    compileRegexes_means hlexers hmeans hne hcompiled
  obtain ⟨states, hnumbers, -, -, -, hlabels⟩ := buildLexerDfa_numbers hengine hlexer
  have hwalk : (automaton.lives engine compiled).walk compiled.start word =
      if engine.isDead (word.foldl automaton.step compiled.start) then none
      else some (word.foldl automaton.step compiled.start) :=
    LabelledDfa.walk_live hengine.dead hengine.start_live word
  rw [LabelledDfa.Accepts]
  rcases hnumbers.walk hnumbers.start word with ⟨hlive, hstuck⟩ | ⟨d, s, hlive, hd, hs⟩
  · -- a dead state accepts nothing
    have hend : engine.isDead (word.foldl automaton.step compiled.start) = true := by
      by_contra hnot
      rw [if_neg hnot] at hwalk
      cases hwalk.symm.trans hlive
    rw [hstuck]
    refine iff_of_false (fun h => ?_) (fun h => ?_)
    · obtain ⟨q, hq, -⟩ := h
      cases hq
    · obtain ⟨terminal, hmem, -, hmatches, -⟩ := h
      obtain ⟨m, hm, -⟩ := (hmean _).complete terminal hmem hmatches
      rw [hdead _ hend] at hm
      exact absurd hm List.not_mem_nil
  · have hs' : word.foldl automaton.step compiled.start = s := by
      have hlive' := hwalk.symm.trans hlive
      split_ifs at hlive'
      exact Option.some.inj hlive'
    obtain ⟨label, hlabel, hof⟩ := hlabels d s hs
    rw [hd, ← (hmean word).label_iff (hs' ▸ hof) t]
    constructor
    · rintro ⟨q, hq, hl⟩
      obtain rfl := Option.some.inj hq
      have hl' : (lexer.terminals[d]?).join = some t := hl
      rw [hlabel] at hl'
      exact hl'
    · rintro rfl
      refine ⟨d, rfl, ?_⟩
      show (lexer.terminals[d]?).join = some t
      rw [hlabel]
      rfl

end

end GreatGramma
