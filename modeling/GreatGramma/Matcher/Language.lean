import GreatGramma.Compiler.Boundary
import GreatGramma.Matcher.Readings

/-!
# The language of a matcher

Which inputs a fresh row accepts, and what of the input a row depends on.

## Language exactness

A row reads token by token and filters after every token; the specification lexes and parses the
whole input at once.  They agree under the assumption that is documented for parser tables, since
a filter admits whatever can still be accepted (`Library.LookAhead`): a row that takes the tokens
one by one and then accepts at an EOS token has read an input that is lexed to its end and
accepted in front of EOF, and every such input is read so (`language_exact`).  The first direction
needs that the filter lets nothing through that the execution then refuses; the second that it
blocks nothing of an accepted input, at any of the places where tokens end.

## Tokenization

For the same reason it does not matter where tokens end.  Two sequences of tokens with the same
bytes are taken both or neither, and when they are, both leave the row in one lexer state and on
one stack, so the matchers after them answer alike from then on (`tokenization_independent`).
This is about any running row of any reachable matcher, and not only about fresh ones: what is
known of its stack is that the parser has reached it (`Reachable.reached`).
-/

namespace GreatGramma

open Reservation ShiftReduce Traversal

/-! ## Words

The whole input is scanned and flushed, and this is what folding the lexer over its bytes does. -/

namespace ValidatedGrammar

variable (grammar : ValidatedGrammar)

/-- The bytes of ordinary tokens, token by token. -/
def Spells (tokens : List TokenId) (words : List (List UInt8)) : Prop :=
  List.Forall₂ (fun token word => grammar.token token = some (.bytes word)) tokens words

variable {grammar} {tokens : List TokenId} {bytes : List UInt8}

theorem spells_of_spelling (h : grammar.spelling tokens = some bytes) :
    ∃ words, grammar.Spells tokens words ∧ words.flatten = bytes ∧ ∀ word ∈ words, word ≠ [] := by
  induction tokens generalizing bytes with
  | nil =>
    cases h
    exact ⟨[], List.Forall₂.nil, rfl, fun word hword => absurd hword List.not_mem_nil⟩
  | cons token tokens ih =>
    rw [spelling] at h
    split at h
    · rename_i word hword
      obtain ⟨rest, hrest, rfl⟩ := Option.map_eq_some_iff.mp h
      obtain ⟨words, hwords, rfl, hne⟩ := ih hrest
      refine ⟨word :: words, List.Forall₂.cons hword hwords, rfl, fun word' hword' => ?_⟩
      rcases List.mem_cons.mp hword' with rfl | hlater
      · rintro rfl
        exact grammar.bytes_ne_nil (List.mem_of_getElem? hword)
      · exact hne word' hlater
    · cases h

variable (grammar) in
/-- The terminals of a whole input from a state: those of a run of the scanner, and what it
flushes at the end. -/
def Scans (state : LexerState) (bytes : List UInt8) (emitted : List TerminalId) : Prop :=
  ∃ state' em label, grammar.scanner.run state bytes = some (state', em) ∧
    grammar.scanner.flush state' = some label ∧ emitted = em ++ label.toList

section
variable {state state' : LexerState} {byte : UInt8} {emitted : List TerminalId}

theorem scans_nil : grammar.Scans state [] emitted ↔
    ∃ label, grammar.scanner.flush state = some label ∧ emitted = label.toList := by
  constructor
  · rintro ⟨_, _, label, hrun, hflush, rfl⟩
    cases hrun
    exact ⟨label, hflush, rfl⟩
  · rintro ⟨label, hflush, rfl⟩
    exact ⟨state, [], label, rfl, hflush, rfl⟩

theorem scans_cons {e : Option TerminalId}
    (hstep : grammar.scanner.step state byte = some (state', e)) :
    grammar.Scans state (byte :: bytes) emitted ↔
      ∃ rest, grammar.Scans state' bytes rest ∧ e.toList ++ rest = emitted := by
  simp only [Scans, Transducer.run_cons, hstep, Option.some.injEq, Prod.mk.injEq]
  constructor
  · rintro ⟨last, _, label, ⟨_, _, em, ⟨rfl, rfl⟩, hrun, rfl⟩, hflush, rfl⟩
    exact ⟨em ++ label.toList, ⟨last, em, label, hrun, hflush, rfl⟩,
      (List.append_assoc _ _ _).symm⟩
  · rintro ⟨_, ⟨last, em, label, hrun, hflush, rfl⟩, rfl⟩
    exact ⟨last, e.toList ++ em, label, ⟨state', e, em, ⟨rfl, rfl⟩, hrun, rfl⟩, hflush,
      (List.append_assoc _ _ _).symm⟩

theorem not_scans_cons (hstep : grammar.scanner.step state byte = none) :
    ¬ grammar.Scans state (byte :: bytes) emitted := by
  rintro ⟨_, _, _, hrun, -⟩
  rw [Transducer.run_cons] at hrun
  obtain ⟨_, _, _, hsome, -⟩ := hrun
  rw [hstep] at hsome
  cases hsome

/-- At the end of the input the lexer emits what the scanner flushes. -/
theorem foldLexerSteps_nil_eq_ok (hvalid : state.Valid grammar.lexer) :
    foldLexerSteps grammar state [] = .ok emitted ↔ grammar.Scans state [] emitted := by
  rw [scans_nil]
  rcases lexerStep_eos_cases grammar hvalid with
    ⟨rfl, h⟩ | ⟨source, t, rfl, -, h⟩ | ⟨source, rfl, -, h⟩
  all_goals
    simp only [foldLexerSteps, scanner, h]
    constructor
  · intro hok
    cases hok
    exact ⟨none, rfl, rfl⟩
  · rintro ⟨_, hflush, rfl⟩
    cases hflush
    rfl
  · intro hok
    cases hok
    exact ⟨some t, rfl, rfl⟩
  · rintro ⟨_, hflush, rfl⟩
    cases hflush
    rfl
  · intro hok
    cases hok
  · rintro ⟨_, hflush, -⟩
    cases hflush

/-- **Folding the lexer over the whole input is running the scanner and flushing it.** -/
theorem foldLexerSteps_eq_ok (hvalid : state.Valid grammar.lexer) :
    foldLexerSteps grammar state bytes = .ok emitted ↔ grammar.Scans state bytes emitted := by
  induction bytes generalizing state emitted with
  | nil => exact foldLexerSteps_nil_eq_ok hvalid
  | cons byte bytes ih =>
    have hgoes : ∀ d e, d < grammar.lexer.stateCount →
        lexerStep grammar state (.byte byte) = .ok (.continue (.dfa d) e) →
        (foldLexerSteps grammar state (byte :: bytes) = .ok emitted ↔
          grammar.Scans state (byte :: bytes) emitted) := by
      intro d e hd hstep
      rw [foldLexerSteps_continue hstep, map_eq_ok, scans_cons (scanner_step_eq.mpr hstep)]
      exact exists_congr fun rest => and_congr_left' (@ih (.dfa d) rest hd)
    have hstops : ∀ error, lexerStep grammar state (.byte byte) = .error error →
        (foldLexerSteps grammar state (byte :: bytes) = .ok emitted ↔
          grammar.Scans state (byte :: bytes) emitted) := by
      intro error herror
      have hnone : grammar.scanner.step state byte = none := by simp only [scanner, herror]
      rw [foldLexerSteps_error herror]
      exact iff_of_false (fun h => by cases h) (not_scans_cons hnone)
    rcases lexerStep_byte_cases grammar hvalid byte with
      ⟨d, hd, h⟩ | ⟨d, source, t, hd, -, -, h⟩ | h | ⟨source, h⟩
    · exact hgoes d none hd h
    · exact hgoes d (some t) hd h
    · exact hstops _ h
    · exact hstops _ h

end

end ValidatedGrammar

/-! ## A sequence of tokens

From one token (`Matcher.Readings`) to a sequence of them, in both directions. -/

namespace PreparedGrammar

variable {prepared : PreparedGrammar}

theorem respondAll_append (states : List MatcherStatus) (xs ys : List Call) :
    prepared.respondAll states (xs ++ ys) =
      ((prepared.respondAll states xs).1 ++
          (prepared.respondAll (prepared.respondAll states xs).2 ys).1,
        (prepared.respondAll (prepared.respondAll states xs).2 ys).2) := by
  induction xs generalizing states with
  | nil => rfl
  | cons c xs ih =>
    rw [List.cons_append]
    simp only [respondAll, ih, List.cons_append]

theorem length_respondAll (states : List MatcherStatus) (calls : List Call) :
    (prepared.respondAll states calls).1.length = calls.length := by
  induction calls generalizing states with
  | nil => rfl
  | cons c calls ih =>
    simp only [respondAll, List.length_cons, ih]

variable {states : List MatcherStatus} {row : ℕ} {lexer : LexerState}
  {stack : List ParserStateId} {tokens : List TokenId} {words : List (List UInt8)}

theorem reached_of_feeds {grammar : ValidatedGrammar} {c c' : LexerState × List ParserStateId}
    (h : grammar.lookAhead.Feeds c words c') (hlexer : c.1.Valid grammar.lexer)
    (hstack : grammar.Reached c.2) : c'.1.Valid grammar.lexer ∧ grammar.Reached c'.2 := by
  induction words generalizing c with
  | nil =>
    obtain rfl : c' = c := h
    exact ⟨hlexer, hstack⟩
  | cons word words ih =>
    obtain ⟨⟨lexer₁, stack₁⟩, hread, hrest⟩ := h
    obtain ⟨emitted, hrun, hlive, -⟩ := ValidatedGrammar.reads_iff.mp hread
    exact ih hrest (ValidatedGrammar.scanner_run_valid hlexer hrun)
      (hstack.parse (ValidatedGrammar.scanner_run_emittable hrun) hlive)

/-- **Tokens that the reader takes are taken by the row**, one by one. -/
theorem Sound.respondAll_feeds (hsound : prepared.Sound)
    (htable : prepared.grammar.TableAssumption) (hlexer : lexer.Valid prepared.grammar.lexer)
    (hstack : prepared.grammar.Reached stack)
    (hrow : states[row]? = some ⟨.running lexer, stack⟩)
    (hwords : prepared.grammar.Spells tokens words) {c : LexerState × List ParserStateId}
    (h : prepared.grammar.lookAhead.Feeds (lexer, stack) words c) :
    prepared.respondAll states (tokens.map (.advance row)) =
      (tokens.map fun _ => ⟨.ok (.result .continue), []⟩, states.set row ⟨.running c.1, c.2⟩) := by
  induction hwords generalizing states lexer stack with
  | nil =>
    obtain rfl : c = (lexer, stack) := h
    obtain ⟨hlt, hget⟩ := List.getElem?_eq_some_iff.mp hrow
    refine Prod.ext rfl ?_
    show states = states.set row _
    rw [← hget, List.set_getElem_self]
  | @cons token word tokens words htoken _ ih =>
    obtain ⟨⟨lexer₁, stack₁⟩, hread, hrest⟩ := h
    have hadvance := (hsound.advanceRow_ordinary htable hlexer hstack htoken).mpr
      ⟨_, hread, rfl, rfl⟩
    obtain ⟨emitted, hrun, hlive, -⟩ := ValidatedGrammar.reads_iff.mp hread
    have hlexer₁ := ValidatedGrammar.scanner_run_valid hlexer hrun
    have hstack₁ := hstack.parse (ValidatedGrammar.scanner_run_emittable hrun) hlive
    have hlt : row < states.length := (List.getElem?_eq_some_iff.mp hrow).1
    have hrow₁ : (states.set row ⟨.running lexer₁, stack₁⟩)[row]? =
        some ⟨.running lexer₁, stack₁⟩ := List.getElem?_set_self hlt
    have htail := ih hlexer₁ hstack₁ hrow₁ hrest
    rw [List.set_set] at htail
    simp only [List.map_cons, respondAll, respond, hrow, hadvance, htail]

/-- **Tokens that the row takes are taken by the reader.** -/
theorem Sound.feeds_of_respondAll (hsound : prepared.Sound)
    (htable : prepared.grammar.TableAssumption) (hlexer : lexer.Valid prepared.grammar.lexer)
    (hstack : prepared.grammar.Reached stack)
    (hrow : states[row]? = some ⟨.running lexer, stack⟩)
    (hwords : prepared.grammar.Spells tokens words)
    (h : ∀ reply ∈ (prepared.respondAll states (tokens.map (.advance row))).1,
      ∃ value, reply.value = .ok value) :
    ∃ c, prepared.grammar.lookAhead.Feeds (lexer, stack) words c := by
  induction hwords generalizing states lexer stack with
  | nil => exact ⟨_, rfl⟩
  | @cons token word tokens words htoken _ ih =>
    rw [List.map_cons] at h
    simp only [respondAll, List.forall_mem_cons, respond, hrow] at h
    obtain ⟨hfirst, hlater⟩ := h
    cases hadvance : prepared.advanceRow ⟨.running lexer, stack⟩ token with
    | error e =>
      rw [hadvance] at hfirst
      obtain ⟨value, hvalue⟩ := hfirst
      cases hvalue
    | ok entry =>
      obtain ⟨result, status'⟩ := entry
      rw [hadvance] at hlater
      obtain ⟨⟨lexer₁, stack₁⟩, hread, -, rfl⟩ :=
        (hsound.advanceRow_ordinary htable hlexer hstack htoken).mp hadvance
      obtain ⟨emitted, hrun, hlive, -⟩ := ValidatedGrammar.reads_iff.mp hread
      have hlt : row < states.length := (List.getElem?_eq_some_iff.mp hrow).1
      obtain ⟨c, hfeeds⟩ := ih (ValidatedGrammar.scanner_run_valid hlexer hrun)
        (hstack.parse (ValidatedGrammar.scanner_run_emittable hrun) hlive)
        (List.getElem?_set_self hlt) hlater
      exact ⟨c, _, hread, hfeeds⟩

/-- **Tokens and the end**: the row accepts when the reader takes the tokens and may stop
behind them. -/
theorem Sound.respondAll_accepted_iff (hsound : prepared.Sound)
    (htable : prepared.grammar.TableAssumption) (hlexer : lexer.Valid prepared.grammar.lexer)
    (hstack : prepared.grammar.Reached stack)
    (hrow : states[row]? = some ⟨.running lexer, stack⟩)
    (hwords : prepared.grammar.Spells tokens words) {eos : TokenId}
    (heos : prepared.grammar.token eos = some .eos) :
    (prepared.respondAll states (tokens.map (.advance row) ++ [.advance row eos])).1.map
          Reply.value =
        (tokens.map fun _ => .ok (.result .continue)) ++ [.ok (.result .accepted)] ↔
      ∃ c, prepared.grammar.lookAhead.Feeds (lexer, stack) words c ∧
        prepared.grammar.lookAhead.Finishes prepared.grammar.AcceptsEof c := by
  rw [respondAll_append, List.map_append]
  have hlt : row < states.length := (List.getElem?_eq_some_iff.mp hrow).1
  -- behind the tokens the row is where the reader is
  have hlast : ∀ c, prepared.grammar.lookAhead.Feeds (lexer, stack) words c →
      ((prepared.respondAll (prepared.respondAll states (tokens.map (.advance row))).2
          [.advance row eos]).1.map Reply.value = [.ok (.result .accepted)] ↔
        prepared.grammar.lookAhead.Finishes prepared.grammar.AcceptsEof c) := by
    rintro ⟨lexer', stack'⟩ hfeeds
    obtain ⟨-, hstack'⟩ := reached_of_feeds hfeeds hlexer hstack
    have hrow' : (states.set row ⟨.running lexer', stack'⟩)[row]? =
        some ⟨.running lexer', stack'⟩ := List.getElem?_set_self hlt
    rw [hsound.respondAll_feeds htable hlexer hstack hrow hwords hfeeds]
    simp only [respondAll, respond, hrow', List.map_cons, List.map_nil, List.cons.injEq, and_true]
    constructor
    · intro h
      cases hadvance : prepared.advanceRow ⟨.running lexer', stack'⟩ eos with
      | error e =>
        rw [hadvance] at h
        cases h
      | ok entry =>
        obtain ⟨result, status'⟩ := entry
        exact ((advanceRow_eos hstack' heos).mp hadvance).1
    · intro hfinish
      rw [(advanceRow_eos hstack' heos).mpr ⟨hfinish, rfl, rfl⟩]
  constructor
  · intro h
    have hlength : ((prepared.respondAll states (tokens.map (.advance row))).1.map
        Reply.value).length =
        (tokens.map fun _ => (.ok (.result .continue) : Except EngineError Value)).length := by
      simp only [List.length_map, length_respondAll]
    obtain ⟨hordinary, hend⟩ := List.append_inj h hlength
    obtain ⟨c, hfeeds⟩ := hsound.feeds_of_respondAll htable hlexer hstack hrow hwords
      fun reply hreply => by
        have hvalue := List.mem_map_of_mem (f := Reply.value) hreply
        rw [hordinary] at hvalue
        obtain ⟨_, -, hok⟩ := List.mem_map.mp hvalue
        exact ⟨_, hok.symm⟩
    exact ⟨c, hfeeds, (hlast c hfeeds).mp hend⟩
  · rintro ⟨c, hfeeds, hfinish⟩
    have hordinary : (prepared.respondAll states (tokens.map (.advance row))).1.map Reply.value =
        tokens.map fun _ => .ok (.result .continue) := by
      rw [hsound.respondAll_feeds htable hlexer hstack hrow hwords hfeeds, List.map_map]
      rfl
    rw [hordinary, (hlast c hfeeds).mpr hfinish]

end PreparedGrammar

/-! ## The language -/

namespace ValidatedGrammar

variable {grammar : ValidatedGrammar}

/-- **Finishing, said at once**: the whole input is lexed, and what the lexer emits is
accepted in front of EOF. -/
theorem accepts_iff {bytes : List UInt8} :
    (∃ state' stack' em, grammar.scanner.run .start bytes = some (state', em) ∧
        em.foldlM grammar.lookAhead.act [grammar.lalr.startState] = some stack' ∧
        grammar.lookAhead.Finishes grammar.AcceptsEof (state', stack')) ↔
      ∃ emitted, foldLexerSteps grammar .start bytes = .ok emitted ∧
        (executeTerminals grammar [grammar.lalr.startState]
          (emitted ++ [grammar.lalr.eofTerminal]) .granting).1 = .ok (some .accepted) := by
  have hstart : LexerState.start.Valid grammar.lexer := trivial
  simp only [foldLexerSteps_eq_ok hstart, foldlM_act]
  constructor
  · rintro ⟨state', stack', em, hrun, hlive, hfinish⟩
    have hem := scanner_run_emittable hrun
    obtain ⟨label, hflush, hparse⟩ := (finishes_iff (validStack_start.parse hlive)).mp hfinish
    refine ⟨em ++ label.toList, ⟨state', em, label, hrun, hflush, rfl⟩, ?_⟩
    rw [executeTerminals_accepted_iff validStack_start
      (hem.append (scanner_flush_emittable hflush)).snoc_eof, List.append_assoc,
      Table.parse_append, hlive]
    exact hparse
  · rintro ⟨_, ⟨state', em, label, hrun, hflush, rfl⟩, haccepted⟩
    have hem := scanner_run_emittable hrun
    rw [executeTerminals_accepted_iff validStack_start
      (hem.append (scanner_flush_emittable hflush)).snoc_eof, List.append_assoc,
      Table.parse_append] at haccepted
    cases hlive : grammar.lalr.table.parse [grammar.lalr.startState] em with
    | live stack' =>
      rw [hlive] at haccepted
      exact ⟨state', stack', em, hrun, hlive,
        (finishes_iff (validStack_start.parse hlive)).mpr ⟨label, hflush, haccepted⟩⟩
    | accepted rest =>
      exact absurd hlive (ValidatedLalr.parse_ne_accepted validStack_start hem)
    | rejected =>
      rw [hlive] at haccepted
      cases haccepted
    | fault f =>
      rw [hlive] at haccepted
      cases haccepted

end ValidatedGrammar

namespace Matcher

variable {matcher : Matcher}

/-- **Language exactness.**  A fresh row takes ordinary tokens one by one and then
accepts at an EOS token exactly when the whole input, which is the concatenation of the
tokens' bytes, is lexed to its end and the terminals emitted are accepted in front of
EOF: the filter after every token blocks nothing of an accepted input. -/
theorem language_exact {grammar : ValidatedGrammar} {limits : PreparationLimits}
    {prepared : PreparedGrammar} {rows : ℕ} {memory₀ memory₁ : Memory}
    (hprepare : prepare grammar limits = .ok prepared)
    (hmatcher : prepared.intoMatcher rows memory₀ = (.ok matcher, memory₁))
    (htable : grammar.TableAssumption) {row : ℕ} (hrow : row < rows) {tokens : List TokenId}
    {bytes : List UInt8} (htokens : grammar.spelling tokens = some bytes) {eos : TokenId}
    (heos : grammar.token eos = some .eos) :
    (matcher.run .granting (tokens.map (.advance row) ++ [.advance row eos])).1.map Reply.value =
        (tokens.map fun _ => .ok (.result .continue)) ++ [.ok (.result .accepted)] ↔
      ∃ emitted, foldLexerSteps grammar .start bytes = .ok emitted ∧
        (executeTerminals grammar [grammar.lalr.startState]
          (emitted ++ [grammar.lalr.eofTerminal]) .granting).1 = .ok (some .accepted) := by
  obtain ⟨rfl, hsound⟩ := prepare_sound hprepare
  obtain ⟨-, rfl⟩ := eq_fresh hmatcher
  obtain ⟨_, -, -, hrun, -⟩ := (fresh_invariant hsound rows).run_granting
    (tokens.map (.advance row) ++ [.advance row eos])
  have hfirst : (fresh prepared rows).states[row]? =
      some ⟨.running .start, [prepared.grammar.lalr.startState]⟩ := by
    rw [fresh, List.getElem?_replicate_of_lt hrow]
    rfl
  obtain ⟨words, hwords, rfl, hne⟩ := ValidatedGrammar.spells_of_spelling htokens
  have hstart : LexerState.start.Valid prepared.grammar.lexer := trivial
  rw [hrun]
  exact (hsound.respondAll_accepted_iff htable hstart ValidatedGrammar.reached_start hfirst
    hwords heos).trans ((LookAhead.exists_feeds_finishes_iff
      (ValidatedGrammar.scanner_late prepared.grammar) hne).trans ValidatedGrammar.accepts_iff)

/-- A row of the lists of `a` that reads `aa` and the end. -/
theorem language_exact_reusableStack :
    (reusableStackMatcher.run .granting ([0, 0].map (.advance 1) ++ [.advance 1 1])).1.map
        Reply.value =
      [.ok (.result .continue), .ok (.result .continue), .ok (.result .accepted)] :=
  (language_exact reusableStack_prepare (intoMatcher_granting (by decide))
    ValidatedGrammar.tableAssumption_reusableStack (by decide : 1 < 2)
    (by decide : reusableStackGrammar.spelling [0, 0] = some [97, 97])
    (by decide : reusableStackGrammar.token 1 = some .eos)).mpr
      ⟨[0, 0], by decide +kernel, by decide +kernel⟩

/-! ## Tokenization -/

theorem Reachable.replays (h : matcher.Reachable) {row : ℕ} {status : MatcherStatus}
    (hrow : matcher.states[row]? = some status) :
    ∃ tokens, matcher.prepared.grammar.Replays tokens status := by
  induction h generalizing status with
  | fresh hprepare hmatcher =>
    obtain ⟨-, rfl⟩ := eq_fresh hmatcher
    obtain rfl := List.eq_of_mem_replicate (List.mem_of_getElem? hrow)
    exact ⟨[], ValidatedGrammar.replays_nil⟩
  | @call matcher memory c h ih =>
    have hm := h.invariant
    have hlength : (matcher.call memory c).2.1.states.length = matcher.states.length :=
      hm.run_length memory [c]
    have hlt : row < matcher.states.length := by
      rw [← hlength]
      exact (List.getElem?_eq_some_iff.mp hrow).1
    have hbefore := List.getElem?_eq_getElem hlt
    obtain ⟨tokens, htokens⟩ := ih hbefore
    obtain ⟨status', hrow', hreplays⟩ := hm.call_replays memory c hbefore htokens
    obtain rfl := Option.some_inj.mp (hrow.symm.trans hrow')
    rw [(hm.call_answered memory c).prepared]
    exact ⟨_, hreplays⟩

/-- **The stack of a running row** is one that the parser reaches. -/
theorem Reachable.reached (h : matcher.Reachable) {row : ℕ} {lexer : LexerState}
    {stack : List ParserStateId} (hrow : matcher.states[row]? = some ⟨.running lexer, stack⟩) :
    matcher.prepared.grammar.Reached stack := by
  obtain ⟨tokens, emitted, hreads, hexecute⟩ := h.replays hrow
  exact ⟨emitted, hreads.emittable,
    (ValidatedGrammar.executeTerminals_continue_iff ValidatedGrammar.validStack_start
      hreads.emittable.valid).mp hexecute⟩

/-- Every call succeeded. -/
def AllOk (replies : List Reply) : Prop := ∀ reply ∈ replies, ∃ value, reply.value = .ok value

/-- **What a sequence of ordinary tokens does to a running row**: it is taken when the
reader takes it, and then the row is where the reader is. -/
theorem Invariant.run_tokens (hm : matcher.Invariant)
    (htable : matcher.prepared.grammar.TableAssumption) {row : ℕ} {lexer : LexerState}
    {stack : List ParserStateId} (hrow : matcher.states[row]? = some ⟨.running lexer, stack⟩)
    (hstack : matcher.prepared.grammar.Reached stack) {tokens : List TokenId}
    {words : List (List UInt8)} (hwords : matcher.prepared.grammar.Spells tokens words) :
    ∃ matcher', matcher'.Invariant ∧ matcher'.prepared = matcher.prepared ∧
      (matcher.run .granting (tokens.map (.advance row))).2.1 = matcher' ∧
      (AllOk (matcher.run .granting (tokens.map (.advance row))).1 ↔
        ∃ c, matcher.prepared.grammar.lookAhead.Feeds (lexer, stack) words c) ∧
      ∀ c, matcher.prepared.grammar.lookAhead.Feeds (lexer, stack) words c →
        matcher'.states = matcher.states.set row ⟨.running c.1, c.2⟩ := by
  have hlexer : lexer.Valid matcher.prepared.grammar.lexer :=
    (hm.rows _ (List.mem_of_getElem? hrow)).1
  obtain ⟨matcher', hm', hprepared, hrun, hstates⟩ := hm.run_granting (tokens.map (.advance row))
  have hafter := fun c => @PreparedGrammar.Sound.respondAll_feeds _ _ _ _ _ _ _ hm.sound htable
    hlexer hstack hrow hwords c
  refine ⟨matcher', hm', hprepared, by rw [hrun], ?_, fun c hfeeds => ?_⟩
  · rw [hrun]
    constructor
    · exact hm.sound.feeds_of_respondAll htable hlexer hstack hrow hwords
    · rintro ⟨c, hfeeds⟩ reply hreply
      rw [hafter c hfeeds] at hreply
      obtain ⟨_, -, rfl⟩ := List.mem_map.mp hreply
      exact ⟨_, rfl⟩
  · rw [hstates, hafter c hfeeds]

/-- **Tokenization independence.**  Two sequences of ordinary tokens with the same bytes do
the same to a running row: either both are taken token by token or neither is, and when
they are, both leave the row in one lexer state and on one stack, and the matchers after
them answer alike from then on. -/
theorem tokenization_independent (hreachable : matcher.Reachable)
    (htable : matcher.prepared.grammar.TableAssumption) {row : ℕ} {lexer : LexerState}
    {stack : List ParserStateId} (hrow : matcher.states[row]? = some ⟨.running lexer, stack⟩)
    {xs ys : List TokenId} {bytes : List UInt8}
    (hxs : matcher.prepared.grammar.spelling xs = some bytes)
    (hys : matcher.prepared.grammar.spelling ys = some bytes) :
    (AllOk (matcher.run .granting (xs.map (.advance row))).1 ↔
        AllOk (matcher.run .granting (ys.map (.advance row))).1) ∧
      (AllOk (matcher.run .granting (xs.map (.advance row))).1 →
        (∃ lexer' stack',
          (matcher.run .granting (xs.map (.advance row))).2.1.states[row]? =
              some ⟨.running lexer', stack'⟩ ∧
            (matcher.run .granting (ys.map (.advance row))).2.1.states[row]? =
              some ⟨.running lexer', stack'⟩) ∧
        ∀ calls,
          ((matcher.run .granting (xs.map (.advance row))).2.1.run .granting calls).1 =
            ((matcher.run .granting (ys.map (.advance row))).2.1.run .granting calls).1) := by
  have hm := hreachable.invariant
  have hstack := hreachable.reached hrow
  have hlt : row < matcher.states.length := (List.getElem?_eq_some_iff.mp hrow).1
  obtain ⟨words, hwords, rfl, hne⟩ := ValidatedGrammar.spells_of_spelling hxs
  obtain ⟨words', hwords', hflatten, hne'⟩ := ValidatedGrammar.spells_of_spelling hys
  have hsame : ∀ c, matcher.prepared.grammar.lookAhead.Feeds (lexer, stack) words c ↔
      matcher.prepared.grammar.lookAhead.Feeds (lexer, stack) words' c := fun c =>
    LookAhead.feeds_congr (ValidatedGrammar.scanner_late _) hflatten.symm hne hne'
  obtain ⟨matcher₁, hm₁, hprepared₁, hafter₁, hok₁, hstates₁⟩ :=
    hm.run_tokens htable hrow hstack hwords
  obtain ⟨matcher₂, hm₂, hprepared₂, hafter₂, hok₂, hstates₂⟩ :=
    hm.run_tokens htable hrow hstack hwords'
  refine ⟨hok₁.trans ((exists_congr hsame).trans hok₂.symm), fun hok => ?_⟩
  obtain ⟨c, hfeeds⟩ := hok₁.mp hok
  rw [hafter₁, hafter₂]
  have hstates : matcher₁.states = matcher₂.states :=
    (hstates₁ c hfeeds).trans (hstates₂ c ((hsame c).mp hfeeds)).symm
  have hrow₁ : matcher₁.states[row]? = some ⟨.running c.1, c.2⟩ := by
    rw [hstates₁ c hfeeds]
    exact List.getElem?_set_self hlt
  refine ⟨⟨c.1, c.2, hrow₁, hstates ▸ hrow₁⟩, fun calls => ?_⟩
  obtain ⟨_, -, -, hrun₁, -⟩ := hm₁.run_granting calls
  obtain ⟨_, -, -, hrun₂, -⟩ := hm₂.run_granting calls
  rw [hrun₁, hrun₂, hprepared₁, hprepared₂, hstates]

/-- The lists of `a`, with a token for two of them. -/
def reusableStackPairs : ValidatedGrammar :=
  { reusableStackGrammar with
    tokens := [.bytes [97], .eos, .bytes [97, 97]]
    tokens_length_lt := by decide
    hasOrdinary := ⟨[97], by decide⟩
    hasEos := by decide
    bytes_ne_nil := by decide }

/-- The lists of `a`, with a token for two of them, prepared. -/
def reusableStackPairsPrepared : PreparedGrammar :=
  (prepare reusableStackPairs reusableStackLimits).toOption.get (by decide +kernel)

/-- A row takes `a` and `a` as it takes `aa`, and has the same mask after them. -/
theorem tokenization_independent_reusableStack :
    ((((fresh reusableStackPairsPrepared 1).run .granting ([0, 0].map (.advance 0))).2.1).run
        .granting [.mask 0 [0]]).1 =
      ((((fresh reusableStackPairsPrepared 1).run .granting ([2].map (.advance 0))).2.1).run
        .granting [.mask 0 [0]]).1 := by
  have hprepare : prepare reusableStackPairs reusableStackLimits = .ok reusableStackPairsPrepared :=
    eq_ok_get _ _
  have hgrammar : reusableStackPairsPrepared.grammar = reusableStackPairs :=
    (prepare_sound hprepare).1
  have hmatcher : reusableStackPairsPrepared.intoMatcher 1 .granting =
      (.ok (fresh reusableStackPairsPrepared 1), .granting) := intoMatcher_granting one_ne_zero
  have hrow : (fresh reusableStackPairsPrepared 1).states[0]? =
      some ⟨.running .start, [reusableStackPairsPrepared.grammar.lalr.startState]⟩ := rfl
  have htable : reusableStackPairsPrepared.grammar.TableAssumption := by
    rw [hgrammar]
    exact ValidatedGrammar.tableAssumption_reusableStack
  have hsingles : reusableStackPairsPrepared.grammar.spelling [0, 0] = some [97, 97] := by
    rw [hgrammar]
    decide
  have hpair : reusableStackPairsPrepared.grammar.spelling [2] = some [97, 97] := by
    rw [hgrammar]
    decide
  -- the only step that looks into the prepared tables
  have hvalues : ((fresh reusableStackPairsPrepared 1).run .granting
      ([0, 0].map (.advance 0))).1.map Reply.value =
        [.ok (.result .continue), .ok (.result .continue)] := by
    decide +kernel
  refine ((tokenization_independent (.fresh hprepare hmatcher) htable hrow hsingles hpair).2
    fun reply hreply => ?_).2 [.mask 0 [0]]
  have hvalue : reply.value ∈ [.ok (.result .continue), .ok (.result .continue)] :=
    hvalues ▸ List.mem_map_of_mem hreply
  simp only [List.mem_cons, List.not_mem_nil, or_false, or_self] at hvalue
  exact ⟨_, hvalue⟩

end Matcher
end GreatGramma
