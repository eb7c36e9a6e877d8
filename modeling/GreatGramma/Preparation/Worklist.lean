import Mathlib.Logic.Relation
import GreatGramma.Preparation.Order

/-!
# Reachable labels, each fact once

Two more readings of the singleton terminals, which `Preparation.Singletons` shows to be the heads
of the scanner.  One says what they are in terms of the DFA, and the other how they are found.

## As a graph

The heads of a lexer state are the labels of the DFA states that byte transitions lead to
(`head_iff_leads`).  A DFA state leads to itself, since the lexeme may end where it stands.
Logical start is not the start of the DFA: nothing has been read there, so a first transition has
to be taken, and logical start does not lead to the DFA start unless a cycle comes back to it.

## As a worklist

A fact is marked when it is queued, so the queue never holds a fact twice (`Facts.Once`).  The
loop takes the facts up in the order of the queue, and stops behind the last.  The loop of the
source runs until its cursor is behind the queue; here it is also given up after a number of
turns, and reports what it took up (`propagateFactsWithin`).  When the loop of the source succeeds
there is a number of turns after which it ended by itself, having taken up what was left of the
queue and nothing else (`propagateFactsFrom_taken`).
-/

namespace GreatGramma

open Relation Traversal

/-! ## Reachable labels -/

/-- A byte leads from one DFA state to the other. -/
def ValidatedLexer.Edge (lexer : ValidatedLexer) (source destination : DfaStateId) : Prop :=
  ∃ byte, lexer.transition source byte = some (some destination)

/-- Transitions lead from a source to a DFA state: any number of them from a DFA state,
at least one from logical start. -/
def LexerState.Leads (lexer : ValidatedLexer) (destination : DfaStateId) : LexerState → Prop
  | .start => TransGen lexer.Edge lexer.startState destination
  | .dfa source => ReflTransGen lexer.Edge source destination

section
variable {grammar : ValidatedGrammar}

theorem scanner_silent_start {byte : UInt8} {state : LexerState} :
    grammar.scanner.step .start byte = some (state, none) ↔
      ∃ d, grammar.lexer.transition grammar.lexer.startState byte = some (some d) ∧
        state = .dfa d := by
  rw [ValidatedGrammar.scanner_step_eq]
  simp only [lexerStep, byteStep, beginLexeme]
  cases grammar.lexer.transition grammar.lexer.startState byte with
  | none => simp
  | some destination => cases destination <;> simp [eq_comm]

theorem scanner_silent_dfa {source : DfaStateId} {byte : UInt8} {state : LexerState} :
    grammar.scanner.step (.dfa source) byte = some (state, none) ↔
      ∃ d, grammar.lexer.transition source byte = some (some d) ∧ state = .dfa d := by
  rw [ValidatedGrammar.scanner_step_eq]
  simp only [lexerStep, byteStep, finishOrRejectResidual, beginLexeme]
  cases grammar.lexer.transition source byte with
  | none => simp
  | some destination =>
    cases destination with
    | some d => simp [eq_comm]
    | none =>
      -- the byte ends the lexeme, and what begins the next one is not silent
      simp only [Option.some.injEq, reduceCtorEq, false_and, exists_false, iff_false]
      split
      · simp
      · simp
      · split <;> simp

/-- **Heads are reachable labels.** -/
theorem head_iff_leads {state : LexerState} {c : TerminalId} :
    grammar.scanner.Head state c ↔
      ∃ d, state.Leads grammar.lexer d ∧ grammar.lexer.terminal d = some (some c) := by
  constructor
  · intro h
    refine h.induction (P := fun state c => ∃ d, state.Leads grammar.lexer d ∧
      grammar.lexer.terminal d = some (some c)) ?_ ?_
    · intro state c hflush
      cases state with
      | start =>
        have hsilent : grammar.scanner.flush .start = some none := rfl
        rw [hsilent] at hflush
        cases hflush
      | dfa source =>
        obtain ⟨t, heq, hterminal⟩ := ValidatedGrammar.scanner_flush_dfa.mp hflush
        cases heq
        exact ⟨source, ReflTransGen.refl, hterminal⟩
    · rintro state byte state' c hstep ⟨d, hleads, hterminal⟩
      refine ⟨d, ?_, hterminal⟩
      cases state with
      | start =>
        obtain ⟨mid, htransition, rfl⟩ := scanner_silent_start.mp hstep
        exact TransGen.head' ⟨byte, htransition⟩ hleads
      | dfa source =>
        obtain ⟨mid, htransition, rfl⟩ := scanner_silent_dfa.mp hstep
        exact ReflTransGen.head ⟨byte, htransition⟩ hleads
  · rintro ⟨d, hleads, hterminal⟩
    have hdfa : ∀ source, ReflTransGen grammar.lexer.Edge source d →
        grammar.scanner.Head (.dfa source) c := by
      intro source hpath
      induction hpath using ReflTransGen.head_induction_on with
      | refl =>
        exact Transducer.Head.of_flush
          (ValidatedGrammar.scanner_flush_dfa.mpr ⟨c, rfl, hterminal⟩)
      | head hedge _ ih =>
        obtain ⟨byte, htransition⟩ := hedge
        exact ih.of_step (scanner_silent_dfa.mpr ⟨_, htransition, rfl⟩)
    cases state with
    | start =>
      obtain ⟨mid, ⟨byte, htransition⟩, hpath⟩ := TransGen.head'_iff.mp hleads
      exact (hdfa mid hpath).of_step (scanner_silent_start.mpr ⟨mid, htransition, rfl⟩)
    | dfa source => exact hdfa source hleads

/-! ## Each fact once -/

/-- Nothing is queued twice, and what is queued is marked. -/
structure Facts.Once (terminalCount : ℕ) (known : Facts) : Prop where
  nodup : known.facts.Nodup
  marked : ∀ fact ∈ known.facts,
    known.seen[fact.source * terminalCount + fact.terminal]? = some 1

theorem addFact_once {known known' : Facts} {source terminalCount : ℕ} {terminal : TerminalId}
    (hknown : known.Once terminalCount)
    (h : addFact known source terminal terminalCount = .ok known') :
    known'.Once terminalCount ∧ known.facts <+: known'.facts := by
  obtain ⟨-, index, present, hindex, hpresent, ⟨-, rfl⟩ | ⟨rfl, rfl⟩⟩ := addFact_cases h
  · exact ⟨hknown, List.prefix_refl _⟩
  · obtain rfl := factIndex_ok hindex
    obtain ⟨hlt, -⟩ := List.getElem?_eq_some_iff.mp hpresent
    refine ⟨⟨?_, fun fact hfact => ?_⟩, List.prefix_append _ _⟩
    · refine List.nodup_append.mpr
        ⟨hknown.nodup, List.pairwise_singleton _ _, fun fact hfact new hnew heq => ?_⟩
      -- the cell of a queued fact holds a mark
      have hmark := hknown.marked fact hfact
      rw [heq, List.mem_singleton.mp hnew, hpresent] at hmark
      cases hmark
    · by_cases hcell : source * terminalCount + terminal =
          fact.source * terminalCount + fact.terminal
      · rw [← hcell, List.getElem?_set_self hlt]
      · rw [List.getElem?_set_ne hcell]
        rcases List.mem_append.mp hfact with hfact | hfact
        · exact hknown.marked fact hfact
        · rw [List.mem_singleton.mp hfact] at hcell
          exact absurd rfl hcell

theorem scanLabel_once {lexerSource : LexerState} {source terminalCount : ℕ}
    {known known' : Facts} (hknown : known.Once terminalCount)
    (h : scanLabel grammar lexerSource source terminalCount known = .ok known') :
    known'.Once terminalCount := by
  unfold scanLabel at h
  split at h
  · cases h
    exact hknown
  · split at h
    · exact (addFact_once hknown h).1
    · cases h
      exact hknown

theorem scanByte_once {lexerSource : LexerState} {byte source terminalCount : ℕ}
    {scan scan' : Scan} {destinations destinations' : List ℕ}
    (hscan : scan.known.Once terminalCount)
    (h : scanByte grammar lexerSource byte source terminalCount scan destinations =
      .ok (scan', destinations')) : scan'.known.Once terminalCount := by
  unfold scanByte at h
  split_ifs at h
  split at h
  · obtain ⟨known, hadd, h⟩ := bind_eq_ok.mp h
    cases h
    exact (addFact_once hscan hadd).1
  · split at h
    · obtain ⟨work, -, h⟩ := bind_eq_ok.mp h
      split_ifs at h
      · cases h
        exact hscan
      · obtain ⟨predecessors, -, h⟩ := bind_eq_ok.mp h
        cases h
        exact hscan
    · cases h
  all_goals
    cases h
    try exact hscan

theorem scanSources_once {sourceCount terminalCount : ℕ} {scan scan' : Scan}
    (hscan : scan.known.Once terminalCount)
    (h : scanSources grammar sourceCount terminalCount scan = .ok scan') :
    scan'.known.Once terminalCount := by
  refine foldlM_range_ok (I := fun _ (s : Scan) => s.known.Once terminalCount) h hscan ?_
  intro source s s' _ hs hstep
  unfold scanSource at hstep
  split at hstep
  · simp only [bind_eq_ok] at hstep
    obtain ⟨known, hlabel, ⟨last, destinations⟩, hbytes, hstep⟩ := hstep
    cases hstep
    refine foldlM_range_ok
      (I := fun _ (p : Scan × List ℕ) => p.1.known.Once terminalCount) hbytes
      (scanLabel_once hs hlabel) ?_
    rintro byte ⟨p, ds⟩ ⟨p', ds'⟩ - hp hbyte
    exact scanByte_once hp hbyte
  · cases hstep

theorem propagateFact_once {predecessors : List (List ℕ)} {known known' : Facts} {fact : Fact}
    {terminalCount : ℕ} {work work' : WorkBudget} (hknown : known.Once terminalCount)
    (h : propagateFact predecessors known fact terminalCount work = .ok (known', work')) :
    known'.Once terminalCount ∧ known.facts <+: known'.facts := by
  unfold propagateFact at h
  split at h
  · simp only [bind_eq_ok] at h
    obtain ⟨_, -, last, hfold, h⟩ := h
    cases h
    refine foldlM_range_ok
      (I := fun _ (s : Facts) => s.Once terminalCount ∧ known.facts <+: s.facts) hfold
      ⟨hknown, List.prefix_refl _⟩ ?_
    rintro i s s' - ⟨hs, hleading⟩ hstep
    unfold propagatePredecessor at hstep
    split at hstep
    · cases hstep
    · obtain ⟨honce, hmore⟩ := addFact_once hs hstep
      exact ⟨honce, hleading.trans hmore⟩
  · cases h

/-- The loop of `propagate_facts`, given up after so many turns, with the facts it took
up in their order. -/
def propagateFactsWithin (predecessors : List (List ℕ)) (terminalCount : ℕ) :
    ℕ → Facts → WorkBudget → ℕ →
      Option (List Fact × Except PreparationError (Facts × WorkBudget))
  | 0, _, _, _ => none
  | turns + 1, known, work, cursor =>
    if hcursor : cursor < known.facts.length then
      match propagateFact predecessors known known.facts[cursor] terminalCount work with
      | .error error => some ([known.facts[cursor]], .error error)
      | .ok (known', work) =>
        (propagateFactsWithin predecessors terminalCount turns known' work (cursor + 1)).map
          fun (taken, reply) => (known.facts[cursor] :: taken, reply)
    else some ([], .ok (known, work))

/-- **The worklist stops**, and when it succeeds it has taken up what was left of the
queue, nothing twice. -/
theorem propagateFactsFrom_taken {predecessors : List (List ℕ)} {terminalCount : ℕ}
    {known known' : Facts} {work work' : WorkBudget} {cursor : ℕ}
    (hknown : known.Once terminalCount)
    (h : propagateFactsFrom predecessors terminalCount known work cursor = .ok (known', work')) :
    known'.Once terminalCount ∧ known.facts <+: known'.facts ∧
      ∃ turns, propagateFactsWithin predecessors terminalCount turns known work cursor =
        some (known'.facts.drop cursor, .ok (known', work')) := by
  induction known, work, cursor using
    propagateFactsFrom.induct predecessors terminalCount with
  | case1 known work cursor hcursor error hstep =>
    rw [propagateFactsFrom_eq, dif_pos hcursor, hstep] at h
    cases h
  | case2 known work cursor hcursor known₁ work₁ hstep ih =>
    rw [propagateFactsFrom_eq, dif_pos hcursor, hstep] at h
    obtain ⟨hknown₁, hleading₁⟩ := propagateFact_once hknown hstep
    obtain ⟨hknown', hleading, turns, hturns⟩ := ih hknown₁ h
    have hall := hleading₁.trans hleading
    have hlt : cursor < known'.facts.length := Nat.lt_of_lt_of_le hcursor hall.length_le
    have hfact : known'.facts[cursor] = known.facts[cursor] := by
      have hget := prefix_getElem? hall hcursor
      rw [List.getElem?_eq_getElem hcursor, List.getElem?_eq_getElem hlt] at hget
      exact Option.some.inj hget
    refine ⟨hknown', hall, turns + 1, ?_⟩
    rw [propagateFactsWithin, dif_pos hcursor, hstep]
    simp only [hturns, Option.map_some]
    rw [List.drop_eq_getElem_cons hlt, hfact]
  | case3 known work cursor hcursor =>
    rw [propagateFactsFrom_eq, dif_neg hcursor] at h
    cases h
    refine ⟨hknown, List.prefix_refl _, 1, ?_⟩
    rw [propagateFactsWithin, dif_neg hcursor, List.drop_eq_nil_of_le (Nat.not_lt.mp hcursor)]

end
end GreatGramma
