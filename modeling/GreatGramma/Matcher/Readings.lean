import GreatGramma.Engine.Answers
import GreatGramma.Library.LookAhead
import GreatGramma.Matcher.Masks
import GreatGramma.Matcher.Replay

/-!
# A row as a filtered reader

Under the assumption that is documented for parser tables, no execution from the start state
fails, so a row is the reader of `Library.LookAhead`: the scanner is the transducer, the parser is
the consumer, and the look-ahead filter of the engine is viability.

## The assumption

It speaks of executing terminals other than EOF from the start state, with EOF behind them or
without: such an execution reports no fault of the table.  A row whose stack the parser has
reached from the start state is therefore one whose executions never fail (`Reached`,
`TableAssumption.parse_ne_fault`); and those are the only rows that there are.  The assumption
follows from an invariant of stacks that is kept by the table (`TableAssumption.of_invariant`),
which is how it is shown of a concrete table and of the compiled ones.

## The reader

A token is taken if the parser takes what it emits together with some terminal that could come
next.  In the words of the library that is a chunk that is read and leaves the transducer with a
head that the consumer takes.  `Sound.advanceRow_ordinary` and `Sound.advanceRow_eos` say it of
one token: an ordinary token is taken as the reader takes its bytes, an EOS token where the input
may end.  The rest of what is known of the reader comes from the library.
-/

namespace GreatGramma

open ShiftReduce Traversal

/-! ## The assumption -/

namespace ValidatedGrammar

variable (grammar : ValidatedGrammar)

/-- The assumption about parser tables: executing terminals other than EOF from the start
state never fails, with EOF behind them or without. -/
def TableAssumption : Prop :=
  ∀ terminals, grammar.lalr.Emittable terminals → ∀ e,
    (executeTerminals grammar [grammar.lalr.startState] terminals .granting).1 ≠ .error e ∧
      (executeTerminals grammar [grammar.lalr.startState]
        (terminals ++ [grammar.lalr.eofTerminal]) .granting).1 ≠ .error e

/-- A stack that the parser reaches from the start state. -/
def Reached (stack : List ParserStateId) : Prop :=
  ∃ terminals, grammar.lalr.Emittable terminals ∧
    grammar.lalr.table.parse [grammar.lalr.startState] terminals = .live stack

variable {grammar} {stack stack' : List ParserStateId} {terminals : List TerminalId}

theorem reached_start : grammar.Reached [grammar.lalr.startState] :=
  ⟨[], fun _ ht => absurd ht List.not_mem_nil, rfl⟩

theorem Reached.parse (h : grammar.Reached stack) (hterminals : grammar.lalr.Emittable terminals)
    (hparse : grammar.lalr.table.parse stack terminals = .live stack') :
    grammar.Reached stack' := by
  obtain ⟨before, hbefore, hlive⟩ := h
  refine ⟨before ++ terminals, hbefore.append hterminals, ?_⟩
  rw [Table.parse_append, hlive]
  exact hparse

theorem Reached.validStack (h : grammar.Reached stack) : grammar.lalr.ValidStack stack := by
  obtain ⟨before, -, hlive⟩ := h
  exact validStack_start.parse hlive

/-- **No table fault** where the assumption speaks. -/
theorem TableAssumption.parse_ne_fault (h : grammar.TableAssumption)
    (hstack : grammar.Reached stack)
    (hterminals : grammar.lalr.Emittable terminals)
    (f : Fault ParserStateId TerminalId ProductionId) :
    grammar.lalr.table.parse stack terminals ≠ .fault f ∧
      grammar.lalr.table.parse stack (terminals ++ [grammar.lalr.eofTerminal]) ≠ .fault f := by
  obtain ⟨before, hbefore, hlive⟩ := hstack
  have hall := hbefore.append hterminals
  obtain ⟨hordinary, hend⟩ := h _ hall (grammar.lalr.faultError f)
  rw [executeTerminals_eq validStack_start hall.valid, Table.parse_append, hlive] at hordinary
  rw [executeTerminals_eq validStack_start hall.snoc_eof, List.append_assoc, Table.parse_append,
    hlive] at hend
  dsimp only at hordinary hend
  constructor
  · intro hfault
    rw [hfault] at hordinary
    exact hordinary rfl
  · intro hfault
    rw [hfault] at hend
    exact hend rfl

/-- **The assumption holds of a table** whose stacks, as far as terminals other than EOF
lead, meet no fault. -/
theorem TableAssumption.of_invariant {P : List ParserStateId → Prop}
    (hstart : P [grammar.lalr.startState])
    (hstep : ∀ stack t, P stack → grammar.lalr.Emittable [t] →
      (∀ f, grammar.lalr.table.parse stack [t] ≠ .fault f) ∧
        ∀ stack', grammar.lalr.table.parse stack [t] = .live stack' → P stack')
    (hend : ∀ stack, P stack → ∀ f,
      grammar.lalr.table.parse stack [grammar.lalr.eofTerminal] ≠ .fault f) :
    grammar.TableAssumption := by
  -- along a run the invariant holds, so neither its steps nor its end can fail
  have hrun : ∀ terminals stack, P stack → grammar.lalr.Emittable terminals →
      (∀ f, grammar.lalr.table.parse stack terminals ≠ .fault f) ∧
        ∀ stack', grammar.lalr.table.parse stack terminals = .live stack' → P stack' := by
    intro terminals
    induction terminals with
    | nil =>
      intro stack hstack _
      exact ⟨fun f h => (by cases h), fun stack' h => (by cases h; exact hstack)⟩
    | cons t terminals ih =>
      intro stack hstack hterminals
      obtain ⟨hone, hnext⟩ := hstep stack t hstack fun t' ht' =>
        hterminals t' (List.mem_cons.mpr (Or.inl (List.mem_singleton.mp ht')))
      have hsplit := grammar.lalr.table.parse_append stack [t] terminals
      rw [List.singleton_append] at hsplit
      rw [hsplit]
      cases hparse : grammar.lalr.table.parse stack [t] with
      | live stack₁ =>
        exact ih stack₁ (hnext stack₁ hparse) fun t' ht' =>
          hterminals t' (List.mem_cons_of_mem t ht')
      | fault f => exact absurd hparse (hone f)
      | _ => exact ⟨fun f h => (by cases h), fun stack' h => (by cases h)⟩
  intro terminals hterminals e
  obtain ⟨hnofault, hlive⟩ := hrun terminals _ hstart hterminals
  rw [executeTerminals_eq validStack_start hterminals.valid,
    executeTerminals_eq validStack_start hterminals.snoc_eof]
  constructor
  · cases hparse : grammar.lalr.table.parse [grammar.lalr.startState] terminals with
    | accepted rest =>
      exact absurd hparse (ValidatedLalr.parse_ne_accepted validStack_start hterminals)
    | fault f => exact absurd hparse (hnofault f)
    | _ => exact fun h => by cases h
  · cases hparse : grammar.lalr.table.parse [grammar.lalr.startState]
        (terminals ++ [grammar.lalr.eofTerminal]) with
    | accepted rest =>
      obtain rfl := ValidatedLalr.accepted_eof validStack_start hterminals hparse
      exact fun h => by cases h
    | fault f =>
      rw [Table.parse_append] at hparse
      cases hbefore : grammar.lalr.table.parse [grammar.lalr.startState] terminals with
      | live stack =>
        rw [hbefore] at hparse
        exact absurd hparse (hend stack (hlive stack hbefore) f)
      | fault f' => exact absurd hbefore (hnofault f')
      | rejected =>
        rw [hbefore] at hparse
        cases hparse
      | accepted rest =>
        rw [hbefore] at hparse
        cases hparse
    | _ => exact fun h => by cases h

/-- The table of the lists of `a` satisfies it: the parser has three stacks. -/
theorem tableAssumption_reusableStack : reusableStackGrammar.TableAssumption := by
  have hvalid : ∀ stack ∈ [[0], [0, 1], [0, 2, 3]], reusableStackGrammar.lalr.ValidStack stack := by
    decide
  have hread : ∀ stack ∈ [[0], [0, 1], [0, 2, 3]], ∃ stack' ∈ [[0], [0, 1], [0, 2, 3]],
      (executeTerminals reusableStackGrammar stack [0] .granting).1 =
        .ok (some (.continue stack')) := by
    decide +kernel
  have hend : ∀ stack ∈ [[0], [0, 1], [0, 2, 3]],
      (executeTerminals reusableStackGrammar stack [1] .granting).1.toOption ≠ none := by
    decide +kernel
  have hzero : reusableStackGrammar.lalr.ValidTerminals [0] := fun t ht => by
    rw [List.mem_singleton.mp ht]
    decide
  have hone : reusableStackGrammar.lalr.ValidTerminals [1] := fun t ht => by
    rw [List.mem_singleton.mp ht]
    decide
  refine TableAssumption.of_invariant (P := (· ∈ [[0], [0, 1], [0, 2, 3]])) (by decide) ?_ ?_
  · intro stack t hstack ht
    obtain ⟨hlt, hne⟩ : t < 2 ∧ t ≠ 1 := ht t (List.mem_singleton_self t)
    obtain rfl : t = 0 :=
      Nat.lt_one_iff.mp (Nat.lt_of_le_of_ne (Nat.le_of_lt_succ hlt) hne)
    obtain ⟨stack', hstack', hexecute⟩ := hread stack hstack
    have hlive := (executeTerminals_continue_iff (hvalid stack hstack) hzero).mp hexecute
    rw [hlive]
    exact ⟨fun f h => (by cases h), fun stack₁ h => (by cases h; exact hstack')⟩
  · intro stack hstack f hfault
    have hexecute := executeTerminals_eq (hvalid stack hstack) hone
    have hfault' : reusableStackGrammar.lalr.table.parse stack [1] = .fault f := hfault
    rw [hfault'] at hexecute
    exact hend stack hstack (by rw [hexecute]; rfl)

/-! ## The reader -/

variable (grammar) in
/-- The lexer in front of the parser. -/
def lookAhead : LookAhead LexerState UInt8 TerminalId (List ParserStateId) where
  scanner := grammar.scanner
  act stack t :=
    match grammar.lalr.table.parse stack [t] with
    | .live stack' => some stack'
    | _ => none

theorem act_eq_some {t : TerminalId} :
    grammar.lookAhead.act stack t = some stack' ↔
      grammar.lalr.table.parse stack [t] = .live stack' := by
  have hact : grammar.lookAhead.act stack t =
      match grammar.lalr.table.parse stack [t] with
      | .live stack' => some stack'
      | _ => none := rfl
  rw [hact]
  cases grammar.lalr.table.parse stack [t] with
  | live stack₁ =>
    constructor <;> intro h <;> cases h <;> rfl
  | _ => exact ⟨fun h => (by cases h), fun h => (by cases h)⟩

theorem readable_singleton_iff {t : TerminalId} (hstack : grammar.lalr.ValidStack stack)
    (ht : grammar.lalr.Emittable [t]) :
    grammar.lalr.readable stack [t] = .ok true ↔ (grammar.lookAhead.act stack t).isSome := by
  rw [Option.isSome_iff_exists]
  simp only [act_eq_some]
  unfold ValidatedLalr.readable
  cases hparse : grammar.lalr.table.parse stack [t] with
  | live stack₁ => exact ⟨fun _ => ⟨stack₁, rfl⟩, fun _ => rfl⟩
  | accepted rest => exact absurd hparse (ValidatedLalr.parse_ne_accepted hstack ht)
  | _ => exact ⟨fun h => (by cases h), fun ⟨_, h⟩ => (by cases h)⟩

theorem foldlM_act :
    terminals.foldlM grammar.lookAhead.act stack = some stack' ↔
      grammar.lalr.table.parse stack terminals = .live stack' := by
  induction terminals generalizing stack with
  | nil => exact ⟨fun h => congrArg _ (Option.some.inj h), fun h => (by cases h; rfl)⟩
  | cons t terminals ih =>
    have hsplit := grammar.lalr.table.parse_append stack [t] terminals
    rw [List.singleton_append] at hsplit
    rw [List.foldlM_cons, Option.bind_eq_bind, Option.bind_eq_some_iff, hsplit]
    constructor
    · rintro ⟨mid, hact, hrest⟩
      rw [act_eq_some.mp hact]
      exact ih.mp hrest
    · intro h
      cases hone : grammar.lalr.table.parse stack [t] with
      | live mid =>
        rw [hone] at h
        exact ⟨mid, act_eq_some.mpr hone, ih.mpr h⟩
      | rejected => rw [hone] at h; cases h
      | accepted rest => rw [hone] at h; cases h
      | fault f => rw [hone] at h; cases h

theorem reads_iff {lexer lexer' : LexerState} {bytes : List UInt8} :
    grammar.lookAhead.Reads (lexer, stack) bytes (lexer', stack') ↔
      ∃ emitted, grammar.scanner.run lexer bytes = some (lexer', emitted) ∧
        grammar.lalr.table.parse stack emitted = .live stack' ∧
        grammar.lookAhead.Viable (lexer', stack') := by
  simp only [LookAhead.Reads, foldlM_act]
  rfl

/-- The parser can stop here: it accepts at EOF. -/
def AcceptsEof (grammar : ValidatedGrammar) (stack : List ParserStateId) : Prop :=
  grammar.lalr.table.parse stack [grammar.lalr.eofTerminal] = .accepted []

theorem finishes_iff {lexer : LexerState} (hstack : grammar.lalr.ValidStack stack) :
    grammar.lookAhead.Finishes grammar.AcceptsEof (lexer, stack) ↔
      ∃ label, grammar.scanner.flush lexer = some label ∧
        grammar.lalr.table.parse stack (label.toList ++ [grammar.lalr.eofTerminal]) =
          .accepted [] := by
  constructor
  · rintro ⟨label, stack', hflush, hact, haccept⟩
    refine ⟨label, hflush, ?_⟩
    rw [Table.parse_append, foldlM_act.mp hact]
    exact haccept
  · rintro ⟨label, hflush, hparse⟩
    rw [Table.parse_append] at hparse
    have hlabel := scanner_flush_emittable hflush
    cases hlive : grammar.lalr.table.parse stack label.toList with
    | live stack' =>
      rw [hlive] at hparse
      exact ⟨label, stack', hflush, foldlM_act.mpr hlive, hparse⟩
    | accepted rest => exact absurd hlive (ValidatedLalr.parse_ne_accepted hstack hlabel)
    | rejected =>
      rw [hlive] at hparse
      cases hparse
    | fault f =>
      rw [hlive] at hparse
      cases hparse

end ValidatedGrammar

/-! ## One token -/

namespace PreparedGrammar

variable {prepared : PreparedGrammar} {lexer : LexerState} {stack : List ParserStateId}
  {token : TokenId} {bytes : List UInt8} {result : AdvanceResult} {status' : MatcherStatus}

theorem Sound.bucketAnswer_ne_error (hsound : prepared.Sound)
    (htable : prepared.grammar.TableAssumption) (hlexer : lexer.Valid prepared.grammar.lexer)
    (hstack : prepared.grammar.Reached stack) {bucket : InverseBucket}
    (hbucket : bucket ∈ prepared.inverseRow lexer) (e : EngineError) :
    prepared.bucketAnswer stack bucket ≠ .error e := by
  intro h
  obtain ⟨-, head, f, hhead, hfault⟩ := hsound.bucketAnswer_error hlexer hbucket h
  obtain ⟨-, -, -, hemittable⟩ := hsound.sequence_emittable hhead
  exact (htable.parse_ne_fault hstack hemittable f).1 hfault

/-- **An ordinary token is allowed** when the parser can take what it emits and some head
of the lexer state after it. -/
theorem Sound.tokenAnswer_iff_reads (hsound : prepared.Sound)
    (htable : prepared.grammar.TableAssumption) (hlexer : lexer.Valid prepared.grammar.lexer)
    (hstack : prepared.grammar.Reached stack)
    (htoken : prepared.grammar.token token = some (.bytes bytes)) :
    prepared.tokenAnswer lexer stack token = .ok true ↔
      ∃ c, prepared.grammar.lookAhead.Reads (lexer, stack) bytes c := by
  rw [hsound.tokenAnswer_eq_true hlexer fun _ hbucket _ e =>
    hsound.bucketAnswer_ne_error htable hlexer hstack hbucket e]
  constructor
  · rintro ⟨head, ⟨bytes', lexer', emitted, c, hbytes, hrun, hhead, rfl⟩, hreadable⟩
    rw [htoken] at hbytes
    cases hbytes
    have hemitted := ValidatedGrammar.scanner_run_emittable hrun
    obtain ⟨stack', hlive, hnext⟩ := parse_of_readable hstack.validStack hemitted hreadable
    have hstack' := hstack.parse hemitted hlive
    refine ⟨(lexer', stack'), emitted, hrun, ValidatedGrammar.foldlM_act.mpr hlive, c, hhead, ?_⟩
    exact (ValidatedGrammar.readable_singleton_iff hstack'.validStack
      (ValidatedGrammar.scanner_head_emittable hhead)).mp hnext
  · rintro ⟨⟨lexer', stack'⟩, emitted, hrun, hact, c, hhead, htaken⟩
    have hlive := ValidatedGrammar.foldlM_act.mp hact
    have hstack' := hstack.parse (ValidatedGrammar.scanner_run_emittable hrun) hlive
    refine ⟨emitted ++ [c], ⟨bytes, lexer', emitted, c, htoken, hrun, hhead, rfl⟩, ?_⟩
    rw [readable_append, hlive]
    exact (ValidatedGrammar.readable_singleton_iff hstack'.validStack
      (ValidatedGrammar.scanner_head_emittable hhead)).mpr htaken

/-- **A row takes an ordinary token** as the reader takes its bytes. -/
theorem Sound.advanceRow_ordinary (hsound : prepared.Sound)
    (htable : prepared.grammar.TableAssumption) (hlexer : lexer.Valid prepared.grammar.lexer)
    (hstack : prepared.grammar.Reached stack)
    (htoken : prepared.grammar.token token = some (.bytes bytes)) :
    prepared.advanceRow ⟨.running lexer, stack⟩ token = .ok (result, status') ↔
      ∃ c, prepared.grammar.lookAhead.Reads (lexer, stack) bytes c ∧ result = .continue ∧
        status' = ⟨.running c.1, c.2⟩ := by
  have hlt : token < prepared.grammar.tokenCount :=
    prepared.grammar.token_isSome.mp (by rw [htoken]; rfl)
  have hallowed := hsound.tokenAnswer_iff_reads htable hlexer hstack htoken
  have heffect : prepared.effectOf lexer token = (prepared.grammar.scanner.run lexer bytes).map
      fun out => .continue out.1 out.2 := by
    rw [effectOf, htoken, Option.bind_some, ValidatedGrammar.tokenEffect]
  rw [advanceRow_running hlt, rowAfter, heffect]
  constructor
  · intro h
    cases hrun : prepared.grammar.scanner.run lexer bytes with
    | none =>
      rw [hrun] at h
      cases h
    | some out =>
      obtain ⟨lexer', emitted⟩ := out
      rw [hrun] at h
      dsimp only [Option.map_some] at h
      cases hanswer : prepared.tokenAnswer lexer stack token with
      | error e =>
        rw [hanswer] at h
        cases h
      | ok allowed =>
        rw [hanswer] at h
        cases allowed with
        | false => cases h
        | true =>
          cases h
          obtain ⟨⟨lexer₁, stack₁⟩, hreads⟩ := hallowed.mp hanswer
          obtain ⟨emitted₁, hrun₁, hlive, -⟩ := ValidatedGrammar.reads_iff.mp hreads
          rw [hrun] at hrun₁
          cases hrun₁
          have hafter : prepared.stackAfter stack emitted = stack₁ := by rw [stackAfter, hlive]
          exact ⟨(lexer', stack₁), hreads, rfl, by rw [hafter]⟩
  · rintro ⟨⟨lexer', stack'⟩, hreads, rfl, rfl⟩
    obtain ⟨emitted, hrun, hlive, -⟩ := ValidatedGrammar.reads_iff.mp hreads
    have hafter : prepared.stackAfter stack emitted = stack' := by rw [stackAfter, hlive]
    simp only [hrun, Option.map_some, hallowed.mpr ⟨_, hreads⟩, hafter]
    rfl

theorem eosAnswer_iff {emitted : List TerminalId}
    (hstack : prepared.grammar.lalr.ValidStack stack)
    (hemitted : prepared.grammar.lalr.Emittable emitted) :
    prepared.eosAnswer stack emitted = .ok true ↔
      prepared.grammar.lalr.table.parse stack (emitted ++ [prepared.grammar.lalr.eofTerminal]) =
        .accepted [] :=
  (eosAnswer_eq_true hstack hemitted).trans
    (ValidatedGrammar.executeTerminals_accepted_iff hstack hemitted.snoc_eof)

/-- **A row takes an EOS token** where the input may end. -/
theorem advanceRow_eos (hstack : prepared.grammar.Reached stack)
    (htoken : prepared.grammar.token token = some .eos) :
    prepared.advanceRow ⟨.running lexer, stack⟩ token = .ok (result, status') ↔
      prepared.grammar.lookAhead.Finishes prepared.grammar.AcceptsEof (lexer, stack) ∧
        result = .accepted ∧ status' = .empty := by
  have hlt : token < prepared.grammar.tokenCount :=
    prepared.grammar.token_isSome.mp (by rw [htoken]; rfl)
  have heffect : prepared.effectOf lexer token = (prepared.grammar.scanner.flush lexer).map
      fun label => .finished label.toList prepared.grammar.lalr.eofTerminal := by
    rw [effectOf, htoken, Option.bind_some, ValidatedGrammar.tokenEffect]
  rw [advanceRow_running hlt, rowAfter, heffect, ValidatedGrammar.finishes_iff hstack.validStack]
  constructor
  · intro h
    cases hflush : prepared.grammar.scanner.flush lexer with
    | none =>
      rw [hflush] at h
      cases h
    | some label =>
      rw [hflush] at h
      dsimp only [Option.map_some] at h
      cases hanswer : prepared.eosAnswer stack label.toList with
      | error e =>
        rw [hanswer] at h
        cases h
      | ok accepted =>
        rw [hanswer] at h
        cases accepted with
        | false => cases h
        | true =>
          cases h
          exact ⟨⟨label, rfl, (eosAnswer_iff hstack.validStack
            (ValidatedGrammar.scanner_flush_emittable hflush)).mp hanswer⟩, rfl, rfl⟩
  · rintro ⟨⟨label, hflush, hparse⟩, rfl, rfl⟩
    have hanswer := (eosAnswer_iff hstack.validStack
      (ValidatedGrammar.scanner_flush_emittable hflush)).mpr hparse
    simp only [hflush, Option.map_some, hanswer]
    rfl

end PreparedGrammar
end GreatGramma
