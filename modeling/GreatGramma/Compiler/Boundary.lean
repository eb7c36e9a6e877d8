import GreatGramma.Compiler.Ranks
import GreatGramma.Core.Lexer
import GreatGramma.Engine.Heads
import GreatGramma.Library.MaximalMunch

/-!
# The one-byte boundary protocol

A lexer that cuts by longest match has to come back when it has read past the end of the longest
lexeme: the bytes behind the last label that it saw are read again.  This lexer never comes back.
It emits when a byte has no transition, and reads that one byte once more.

## Why one byte is enough

The two agree if a lexeme that has been seen is never lost again by reading on.  The compiler lets
a DFA through only if `reject_multi_byte_fallback` finds no transition from a labelled state to an
unlabelled one, and that is the condition: along a run the labels begin somewhere and do not end
before the run does.  When the run cannot go on, the state where it stopped is either labelled,
and the lexeme is the whole of what was read, or no state before it was, and maximal munch is
stuck there as well.

## What is compared

Maximal munch is defined over an arbitrary DFA, with no mention of the protocol
(`Library.MaximalMunch`).  The DFA of the tables is an instance, and what comes of folding
`lexer_step` over an input, with the flush at its end, is compared with it: the same terminals
come out, and the fold fails exactly where maximal munch gets stuck
(`boundary_protocol_maximalMunch`).  The induction is on the input, over all positions of the
lexer between and inside of lexemes (`foldLexerSteps_eq`).
-/

namespace GreatGramma

open Traversal

/-! ## The check

A loop over the labelled states and, for each, over the byte classes.  What it lets through is
read off both loops at once. -/

/-- The inner loop of `reject_multi_byte_fallback`, at one class of one labelled state. -/
def rejectFallbackClass (labels : List (Option TerminalId)) (transitions : List (Option DfaStateId))
    (representatives : List UInt8) (source : DfaStateId) (entry : UInt8 × ℕ) :
    Except CompileFailure Unit := do
  let (byte, byteClass) := entry
  match ← indexAt transitions (source * representatives.length + byteClass) with
  | none => return ()
  | some destination =>
    match ← indexAt labels destination with
    | none => throw (.error (.unsupportedLexerBoundary source byte))
    | some _ => return ()

/-- `reject_multi_byte_fallback`. -/
def rejectMultiByteFallback (labels : List (Option TerminalId))
    (transitions : List (Option DfaStateId)) (representatives : List UInt8) :
    Except CompileFailure Unit :=
  (List.range labels.length).foldlM
    (fun _ source => do
      match ← indexAt labels source with
      | none => return ()
      | some _ =>
        representatives.zipIdx.foldlM
          (fun _ entry => rejectFallbackClass labels transitions representatives source entry) ())
    ()

/-- **What the check lets through**: a transition from a labelled state leads to a
labelled state. -/
theorem rejectMultiByteFallback_ok {labels : List (Option TerminalId)}
    {transitions : List (Option DfaStateId)} {representatives : List UInt8}
    (h : rejectMultiByteFallback labels transitions representatives = .ok ())
    {source d : DfaStateId}
    {byteClass : ℕ} {t : TerminalId} (hlabel : labels[source]? = some (some t))
    (hclass : byteClass < representatives.length)
    (hcell : transitions[source * representatives.length + byteClass]? = some (some d)) :
    ∃ t', labels[d]? = some (some t') := by
  have hsources := foldlM_ok (I := fun done (_ : Unit) => ∀ source ∈ done, ∀ t,
    labels[source]? = some (some t) → ∀ byteClass < representatives.length, ∀ d,
    transitions[source * representatives.length + byteClass]? = some (some d) →
      ∃ t', labels[d]? = some (some t')) h (fun source hmem => absurd hmem List.not_mem_nil) ?_
  · obtain ⟨hlt, -⟩ := List.getElem?_eq_some_iff.mp hlabel
    exact hsources source (List.mem_range.mpr hlt) t hlabel byteClass hclass d hcell
  · rintro done source _ ⟨⟩ ⟨⟩ - hdone hbody source' hmem t hlabel byteClass hclass d hcell
    rcases List.mem_append.mp hmem with hearlier | hlast
    · exact hdone source' hearlier t hlabel byteClass hclass d hcell
    obtain rfl := List.mem_singleton.mp hlast
    simp only [bind_eq_ok, indexAt_eq_ok] at hbody
    obtain ⟨label, hlabel', hbody⟩ := hbody
    obtain rfl := Option.some_inj.mp (hlabel.symm.trans hlabel')
    have hclasses := foldlM_ok (I := fun done (_ : Unit) => ∀ entry ∈ done, ∀ d,
      transitions[source' * representatives.length + entry.2]? = some (some d) →
        ∃ t', labels[d]? = some (some t')) hbody
      (fun entry hmem => absurd hmem List.not_mem_nil) ?_
    · have hentry : (representatives[byteClass], byteClass) ∈ representatives.zipIdx :=
        List.mk_mem_zipIdx_iff_getElem?.mpr (List.getElem?_eq_getElem hclass)
      exact hclasses _ hentry d hcell
    · rintro done ⟨byte, byteClass'⟩ _ ⟨⟩ ⟨⟩ - hdone hbody entry hmem d hcell
      rcases List.mem_append.mp hmem with hearlier | hlast
      · exact hdone entry hearlier d hcell
      obtain rfl := List.mem_singleton.mp hlast
      simp only [rejectFallbackClass, bind_eq_ok, indexAt_eq_ok] at hbody
      obtain ⟨destination, hdestination, hbody⟩ := hbody
      obtain rfl := Option.some_inj.mp (hcell.symm.trans hdestination)
      simp only [bind_eq_ok, indexAt_eq_ok] at hbody
      obtain ⟨label, hlabel, hbody⟩ := hbody
      cases label with
      | none => cases hbody
      | some t' => exact ⟨t', hlabel⟩

/-! ## The fold

The steps of the lexer, with what they emit collected in front of what the rest of the input
emits.  A step either continues the lexeme, or ends it and begins the next one with the same byte.
-/

/-- Folds `lexer_step` over bytes and then the end of the sequence: the terminals
emitted, or the first error. -/
def foldLexerSteps (grammar : ValidatedGrammar) :
    LexerState → List UInt8 → Except LexerError (List TerminalId)
  | state, [] =>
    match lexerStep grammar state .eos with
    | .error error => .error error
    | .ok (.continue _ emitted) => .ok emitted.toList
    | .ok (.finished terminal _) => .ok terminal.toList
  | state, byte :: bytes =>
    match lexerStep grammar state (.byte byte) with
    | .error error => .error error
    | .ok (.continue state emitted) =>
      (foldLexerSteps grammar state bytes).map fun terminals => emitted.toList ++ terminals
    | .ok (.finished terminal _) => .ok terminal.toList

namespace ValidatedLexer

variable (lexer : ValidatedLexer)

/-- The DFA of the tables. -/
def dfa : LabelledDfa DfaStateId UInt8 TerminalId where
  start := lexer.startState
  step q byte := (lexer.transition q byte).join
  label q := (lexer.terminal q).join

variable {lexer}

theorem dfa_step_eq {q d : DfaStateId} {byte : UInt8} :
    lexer.dfa.step q byte = some d ↔ lexer.transition q byte = some (some d) :=
  Option.join_eq_some_iff

theorem dfa_label_eq {q : DfaStateId} {t : TerminalId} :
    lexer.dfa.label q = some t ↔ lexer.terminal q = some (some t) :=
  Option.join_eq_some_iff

theorem dfa_start_unlabelled : lexer.dfa.label lexer.dfa.start = none := by
  obtain ⟨label, hlabel, hcell⟩ := lexer.terminal_eq lexer.startState_lt
  rw [lexer.startState_unlabelled] at hcell
  obtain rfl := Option.some_inj.mp hcell
  simp only [dfa, hlabel, Option.join_some]

theorem transition_cell {q d : DfaStateId} {byte : UInt8}
    (h : lexer.transition q byte = some (some d)) :
    q < lexer.stateCount ∧
      lexer.transitions[q * lexer.classCount + lexer.byteClass byte]? = some (some d) := by
  have hq : q < lexer.stateCount := by
    by_contra hge
    simp only [transition, stateIndex, if_pos (Nat.not_lt.mp hge), Option.bind_eq_bind,
      Option.bind_none, reduceCtorEq] at h
  obtain ⟨hmul, hadd, -⟩ := checked_cell hq (lexer.byteClass_lt byte) lexer.cells_lt
  simp only [transition, stateIndex, if_neg (Nat.not_le.mpr hq), hmul, hadd, Option.bind_eq_bind,
    Option.bind_some] at h
  exact ⟨hq, h⟩

/-- **The check closes the labels.** -/
theorem dfa_closed {representatives : List UInt8}
    (hlength : representatives.length = lexer.classCount)
    (hpass : rejectMultiByteFallback lexer.terminals lexer.transitions representatives = .ok ()) :
    lexer.dfa.Closed := by
  intro q byte d hstep hlabelled
  obtain ⟨t, ht⟩ := Option.isSome_iff_exists.mp hlabelled
  obtain ⟨hq, hcell⟩ := transition_cell (dfa_step_eq.mp hstep)
  obtain ⟨label, hlabel, hterminals⟩ := lexer.terminal_eq hq
  rw [dfa_label_eq.mp ht] at hlabel
  obtain rfl := Option.some_inj.mp hlabel
  have hd := lexer.transitions_lt d (List.mem_of_getElem? hcell)
  rw [← hlength] at hcell
  obtain ⟨t', ht'⟩ := rejectMultiByteFallback_ok hpass hterminals.symm
    (hlength ▸ lexer.byteClass_lt byte) hcell
  obtain ⟨label', hlabel', hterminals'⟩ := lexer.terminal_eq hd
  rw [ht'] at hterminals'
  obtain rfl := Option.some_inj.mp hterminals'
  rw [dfa_label_eq.mpr hlabel']
  rfl

end ValidatedLexer

/-- Where a lexer state stands between and inside lexemes. -/
def LexerState.position : LexerState → Option DfaStateId
  | .start => none
  | .dfa q => some q

theorem beginLexeme_eq (lexer : ValidatedLexer) (byte : UInt8) (emitted : Option TerminalId) :
    match lexer.dfa.step lexer.dfa.start byte with
    | none => ∃ error, beginLexeme lexer byte emitted = .error error
    | some d => d < lexer.stateCount ∧ beginLexeme lexer byte emitted =
        .ok (.continue (.dfa d) emitted) := by
  rcases beginLexeme_cases lexer byte emitted with herr | ⟨d, hd, htransition, hok⟩
  · have hnone : lexer.dfa.step lexer.dfa.start byte = none := by
      rw [Option.eq_none_iff_forall_ne_some]
      intro d hd
      have htransition : lexer.transition lexer.startState byte = some (some d) :=
        ValidatedLexer.dfa_step_eq.mp hd
      simp only [beginLexeme, htransition, reduceCtorEq] at herr
    rw [hnone]
    exact ⟨_, herr⟩
  · rw [show lexer.dfa.step lexer.dfa.start byte = some d from
      ValidatedLexer.dfa_step_eq.mpr htransition]
    exact ⟨hd, hok⟩

section
variable {grammar : ValidatedGrammar} {state state' : LexerState} {byte : UInt8}
  {bytes : List UInt8} {emitted : Option TerminalId}

theorem foldLexerSteps_continue
    (h : lexerStep grammar state (.byte byte) = .ok (.continue state' emitted)) :
    foldLexerSteps grammar state (byte :: bytes) =
      (foldLexerSteps grammar state' bytes).map (emitted.toList ++ ·) := by
  simp only [foldLexerSteps, h]

theorem foldLexerSteps_error {error : LexerError}
    (h : lexerStep grammar state (.byte byte) = .error error) :
    foldLexerSteps grammar state (byte :: bytes) = .error error := by
  simp only [foldLexerSteps, h]

/-- A byte that begins a lexeme, after whatever it emits of the last one. -/
theorem foldLexerSteps_begin
    (hstep : lexerStep grammar state (.byte byte) = beginLexeme grammar.lexer byte emitted)
    (hrest : ∀ d < grammar.lexer.stateCount, (foldLexerSteps grammar (.dfa d) bytes).toOption =
      grammar.lexer.dfa.eager (some d) bytes) :
    (foldLexerSteps grammar state (byte :: bytes)).toOption =
      ((grammar.lexer.dfa.step grammar.lexer.dfa.start byte).bind fun d =>
        grammar.lexer.dfa.eager (some d) bytes).map (emitted.toList ++ ·) := by
  have hbegin := beginLexeme_eq grammar.lexer byte emitted
  cases hd : grammar.lexer.dfa.step grammar.lexer.dfa.start byte with
  | none =>
    rw [hd] at hbegin
    obtain ⟨error, herror⟩ := hbegin
    rw [foldLexerSteps_error (hstep.trans herror)]
    rfl
  | some d =>
    rw [hd] at hbegin
    obtain ⟨hlt, hok⟩ := hbegin
    rw [foldLexerSteps_continue (hstep.trans hok), toOption_map, hrest d hlt, Option.bind_some]

/-- At the end of the input a lexeme that stands open is emitted, if it has a label. -/
theorem foldLexerSteps_nil_eq (hvalid : state.Valid grammar.lexer) :
    (foldLexerSteps grammar state []).toOption = grammar.lexer.dfa.eager state.position [] := by
  rcases lexerStep_eos_cases grammar hvalid with ⟨rfl, h⟩ | ⟨q, t, rfl, ht, h⟩ | ⟨q, rfl, ht, h⟩
  · rfl
  · simp only [foldLexerSteps, h, LexerState.position, LabelledDfa.eager,
      ValidatedLexer.dfa_label_eq.mpr ht]
    rfl
  · have hnone : grammar.lexer.dfa.label q = none := by
      simp only [ValidatedLexer.dfa, ht, Option.join_some]
    simp only [foldLexerSteps, h, LexerState.position, LabelledDfa.eager, hnone]
    rfl

end

/-- **The fold cuts without coming back.** -/
theorem foldLexerSteps_eq {grammar : ValidatedGrammar} {state : LexerState} (bytes : List UInt8)
    (hvalid : state.Valid grammar.lexer) :
    (foldLexerSteps grammar state bytes).toOption =
      grammar.lexer.dfa.eager state.position bytes := by
  induction bytes generalizing state with
  | nil => exact foldLexerSteps_nil_eq hvalid
  | cons byte bytes ih =>
    have hrest : ∀ d < grammar.lexer.stateCount,
        (foldLexerSteps grammar (.dfa d) bytes).toOption =
          grammar.lexer.dfa.eager (some d) bytes := fun d hd => @ih (.dfa d) hd
    cases state with
    | start =>
      have hstep :
          lexerStep grammar .start (.byte byte) = beginLexeme grammar.lexer byte none := rfl
      rw [foldLexerSteps_begin hstep hrest]
      exact Option.map_id'
    | dfa q =>
      obtain ⟨destination, htransition, hlt⟩ := grammar.lexer.transition_eq hvalid byte
      cases destination with
      | some d =>
        have hstep : lexerStep grammar (.dfa q) (.byte byte) = .ok (.continue (.dfa d) none) := by
          simp only [lexerStep, byteStep, htransition]
        rw [foldLexerSteps_continue hstep, toOption_map, hrest d (hlt d rfl)]
        simp only [LexerState.position, LabelledDfa.eager,
          ValidatedLexer.dfa_step_eq.mpr htransition]
        exact Option.map_id'
      | none =>
        have hstuck : grammar.lexer.dfa.step q byte = none := by
          simp only [ValidatedLexer.dfa, htransition, Option.join_some]
        obtain ⟨label, hlabel, -⟩ := grammar.lexer.terminal_eq hvalid
        cases label with
        | none =>
          have hnone : grammar.lexer.dfa.label q = none := by
            simp only [ValidatedLexer.dfa, hlabel, Option.join_some]
          simp only [foldLexerSteps, lexerStep, byteStep, htransition, finishOrRejectResidual,
            hlabel, LexerState.position, LabelledDfa.eager, hstuck, hnone]
          rfl
        | some t =>
          have hstep : lexerStep grammar (.dfa q) (.byte byte) =
              beginLexeme grammar.lexer byte (some t) := by
            simp only [lexerStep, byteStep, htransition, finishOrRejectResidual, hlabel]
          rw [foldLexerSteps_begin hstep hrest]
          simp only [LexerState.position, LabelledDfa.eager, hstuck,
            ValidatedLexer.dfa_label_eq.mpr hlabel]
          rfl

/-- **The one-byte boundary protocol is exact maximal munch** on every DFA that the
compiler lets through.  The fold of `lexer_step` over any bytes and the end of the
sequence emits what maximal munch cuts them into, and it is refused exactly where maximal
munch gets stuck. -/
theorem boundary_protocol_maximalMunch {grammar : ValidatedGrammar} {representatives : List UInt8}
    (hlength : representatives.length = grammar.lexer.classCount)
    (hpass : rejectMultiByteFallback grammar.lexer.terminals grammar.lexer.transitions
      representatives = .ok ()) (bytes : List UInt8) :
    (∀ terminals, foldLexerSteps grammar .start bytes = .ok terminals ↔
      grammar.lexer.dfa.Munch bytes terminals) ∧
    ((∃ error, foldLexerSteps grammar .start bytes = .error error) ↔
      grammar.lexer.dfa.Stuck bytes) := by
  have hclosed := ValidatedLexer.dfa_closed hlength hpass
  have hstart : grammar.lexer.dfa.label grammar.lexer.dfa.start = none :=
    ValidatedLexer.dfa_start_unlabelled
  have hfold : (foldLexerSteps grammar .start bytes).toOption =
      grammar.lexer.dfa.eager none bytes :=
    @foldLexerSteps_eq grammar .start bytes trivial
  constructor
  · intro terminals
    rw [← LabelledDfa.eager_some_iff hclosed hstart, ← hfold]
    cases foldLexerSteps grammar .start bytes with
    | error error => exact ⟨fun h => (by cases h), fun h => (by cases h)⟩
    | ok found => exact ⟨fun h => (by cases h; rfl), fun h => (by cases h; rfl)⟩
  · rw [← LabelledDfa.eager_none_iff hclosed hstart, ← hfold]
    cases foldLexerSteps grammar .start bytes with
    | error error => exact ⟨fun _ => rfl, fun _ => ⟨error, rfl⟩⟩
    | ok found => exact ⟨fun ⟨_, h⟩ => (by cases h), fun h => (by cases h)⟩

theorem boundary_protocol_maximalMunch_reusableStack :
    reusableStackGrammar.lexer.dfa.Munch [97, 97] [0, 0] ∧
      reusableStackGrammar.lexer.dfa.Stuck [97, 98] := by
  have hpass : rejectMultiByteFallback reusableStackGrammar.lexer.terminals
      reusableStackGrammar.lexer.transitions [0, 97] = .ok () := by decide +kernel
  exact ⟨((boundary_protocol_maximalMunch rfl hpass [97, 97]).1 [0, 0]).mp (by decide +kernel),
    (boundary_protocol_maximalMunch rfl hpass [97, 98]).2.mp
      ⟨.cannotBeginLexeme 98, by decide +kernel⟩⟩

end GreatGramma
