import GreatGramma.Matcher.Lookups

/-!
# When prepared data is called corrupt

Some twenty places of the engine give up with `CorruptPreparedData`, most of them at a
lookup that cannot fail (`Matcher.Lookups`).  What remains of them on a reachable matcher
is one cause: the parser itself meets a fault of its table, that is, a stack that is too
short for a reduction, a goto that is missing, or a reduction that does not make progress.

## What a call executes

The engine runs the parser over two kinds of terminal sequences.  It replays the head of a
bucket whose cell is `dependent`, to decide whether the bucket is readable; and at an EOS
token it runs over what the lexer flushes, followed by the EOF.  (It also runs over the
terminals an allowed token emits, but those are known to go through.)  `TokenRun` and
`MaskRun` say which of these runs a decision about a token and the mask of a row come to,
in the order in which the engine tries them: a bucket is looked at only when the buckets
before it have been decided, an EOS token only when all buckets have.

`Executes` lifts this to calls.  A call that works on several rows comes to a row only when
it has done with the rows before it, and a fused call comes to the masks only when every
row has advanced, and computes them on the rows that it has just staged.  So the row and
the terminals of an execution are those the call is at, not some row and some terminals of
the matcher.

## The theorem

A reply that calls the data corrupt comes from an execution of the call that meets a fault
(`Sound.executes_of_respond`), and everything that is looked up on the way is there.  The
rows answer for the calls (`Invariant.call_answered`), so only the errors of `Engine.Rows`
are looked at here.
-/

namespace GreatGramma

open Reservation ShiftReduce Traversal

/-! ## Table faults -/

/-- What an incomplete or cyclic table makes the parser report. -/
def ParserError.IsTableFault : ParserError → Prop
  | .stackUnderflow _ _ _ => True
  | .missingGoto _ _ _ => True
  | .invalidReductionProgress _ _ => True
  | _ => False

namespace PreparedGrammar

variable (prepared : PreparedGrammar)

/-- Executing the terminals on the stack meets a fault of the table. -/
def Breaks (stack : List ParserStateId) (terminals : List TerminalId) : Prop :=
  ∃ error, error.IsTableFault ∧
    (executeTerminals prepared.grammar stack terminals .granting).1 = .error error

/-! ## Executions -/

/-- The cell of the bucket under the top of the stack is dependent, so its head is
replayed. -/
def Replays (stack : List ParserStateId) (bucket : InverseBucket) (head : List TerminalId) : Prop :=
  ∃ top, stack.getLast? = some top ∧
    prepared.parser.classification top bucket.sequence = .ok .dependent ∧
    prepared.spanner.sequence bucket.sequence = some head

/-- **The runs of a decision about a token**: over the head of a bucket of the token, the
buckets before having refused it, or over what the token flushes and the EOF. -/
inductive TokenRun (status : MatcherStatus) (token : TokenId) : List TerminalId → Prop
  | head {lexer : LexerState} {i : ℕ} {bucket : InverseBucket} {head : List TerminalId}
      (hphase : status.phase = .running lexer)
      (hbucket : (prepared.inverseRow lexer)[i]? = some bucket) (htoken : token ∈ bucket.tokens)
      (hbefore : ∀ j < i, ∀ earlier, (prepared.inverseRow lexer)[j]? = some earlier →
        token ∈ earlier.tokens → prepared.bucketAnswer status.parserStack earlier = .ok false)
      (hreplays : prepared.Replays status.parserStack bucket head) : TokenRun status token head
  | flush {lexer : LexerState} {emitted : List TerminalId} {eof : TerminalId}
      (hphase : status.phase = .running lexer) (htoken : token < prepared.tokenCount)
      (hexecution : prepared.spanner.tokenExecution lexer token =
        .ok (some (.finished emitted eof))) : TokenRun status token (emitted ++ [eof])

/-- **The runs of a mask**: over the head of a bucket, the buckets before being decided, or
over what an EOS token flushes, all buckets and the EOS tokens before being decided. -/
inductive MaskRun (status : MatcherStatus) : List TerminalId → Prop
  | head {lexer : LexerState} {i : ℕ} {bucket : InverseBucket} {head : List TerminalId}
      (hphase : status.phase = .running lexer)
      (hbucket : (prepared.inverseRow lexer)[i]? = some bucket)
      (hbefore : ∀ j < i, ∀ earlier, (prepared.inverseRow lexer)[j]? = some earlier →
        ∃ answer, prepared.bucketAnswer status.parserStack earlier = .ok answer)
      (hreplays : prepared.Replays status.parserStack bucket head) : MaskRun status head
  | flush {lexer : LexerState} {token : TokenId} {emitted : List TerminalId} {eof : TerminalId}
      (hphase : status.phase = .running lexer) (htoken : token < prepared.tokenCount)
      (hbuckets : ∀ bucket ∈ prepared.inverseRow lexer,
        ∃ answer, prepared.bucketAnswer status.parserStack bucket = .ok answer)
      (hbefore : ∀ earlier < token,
        ∃ answer, prepared.eosTokenAnswer lexer status.parserStack earlier = .ok answer)
      (hexecution : prepared.spanner.tokenExecution lexer token =
        .ok (some (.finished emitted eof))) : MaskRun status (emitted ++ [eof])

/-- **What a call executes**: the terminals over which it runs the parser, and the row on
whose stack it does. -/
inductive Executes (states : List MatcherStatus) :
    Call → MatcherStatus → List TerminalId → Prop
  | allows {row : ℕ} {token : TokenId} {status : MatcherStatus} {terminals : List TerminalId}
      (hrow : states[row]? = some status) (hrun : prepared.TokenRun status token terminals) :
      Executes states (.allows row token) status terminals
  | advance {row : ℕ} {token : TokenId} {status : MatcherStatus} {terminals : List TerminalId}
      (hrow : states[row]? = some status) (hrun : prepared.TokenRun status token terminals) :
      Executes states (.advance row token) status terminals
  | batch {tokens : List TokenId} {row : ℕ} {token : TokenId} {status : MatcherStatus}
      {terminals : List TerminalId} (htokens : tokens.length = states.length)
      (hrow : states[row]? = some status) (htoken : tokens[row]? = some token)
      (hbefore : ∀ earlier < row, ∃ status token entry, states[earlier]? = some status ∧
        tokens[earlier]? = some token ∧ prepared.advanceRow status token = .ok entry)
      (hrun : prepared.TokenRun status token terminals) :
      Executes states (.advanceBatch tokens) status terminals
  | active {c : Call} {tokens : List (Option TokenId)} {row : ℕ} {token : TokenId}
      {status : MatcherStatus} {terminals : List TerminalId} (reportRejectedRow : Bool)
      (hc : c.activeTokens = some tokens) (htokens : tokens.length = states.length)
      (hrow : states[row]? = some status) (htoken : tokens[row]? = some (some token))
      (hbefore : ∀ earlier < row, ∃ status active entry, states[earlier]? = some status ∧
        tokens[earlier]? = some active ∧
        prepared.advanceActiveRow reportRejectedRow earlier status active = .ok entry)
      (hrun : prepared.TokenRun status token terminals) : Executes states c status terminals
  | mask {row : ℕ} {output : List UInt8} {status : MatcherStatus} {terminals : List TerminalId}
      (hrow : states[row]? = some status) (hrun : prepared.MaskRun status terminals) :
      Executes states (.mask row output) status terminals
  | masks {row : ℕ} {output : List UInt8} {status : MatcherStatus} {terminals : List TerminalId}
      (hrow : states[row]? = some status)
      (hbefore : ∀ earlier < row, ∃ status tokens, states[earlier]? = some status ∧
        prepared.maskRow prepared.maskBytes status = .ok tokens)
      (hrun : prepared.MaskRun status terminals) :
      Executes states (.masks output) status terminals
  | successor {c : Call} {tokens : List (Option TokenId)} {output : List UInt8} {row : ℕ}
      {staged : List (Option AdvanceResult × MatcherStatus)} {status : MatcherStatus}
      {terminals : List TerminalId} {reportRejectedRow : Bool}
      (hc : c.activeTokens = some tokens) (hbuffer : c.buffer = some output)
      (htokens : tokens.length = states.length)
      (hstaged : prepared.advanceActiveRows reportRejectedRow states tokens = .ok staged)
      (hrow : (staged.map Prod.snd)[row]? = some status)
      (hbefore : ∀ earlier < row, ∃ status tokens, (staged.map Prod.snd)[earlier]? = some status ∧
        prepared.successorMask status = .ok tokens)
      (hrun : prepared.MaskRun status terminals) : Executes states c status terminals

variable {prepared} {lexer : LexerState} {stack : List ParserStateId} {e : EngineError}

/-- A fault of the table is one that the reference interpreter reports. -/
theorem breaks_of_fault {terminals : List TerminalId}
    {f : Fault ParserStateId TerminalId ProductionId}
    (hstack : prepared.grammar.lalr.ValidStack stack)
    (hterminals : prepared.grammar.lalr.ValidTerminals terminals)
    (h : prepared.grammar.lalr.table.parse stack terminals = .fault f) :
    prepared.Breaks stack terminals := by
  refine ⟨prepared.grammar.lalr.faultError f, ?_, ?_⟩
  · cases f with
    | emptyStack => exact absurd h (Table.parse_ne_emptyStack _ hstack.1)
    | _ => trivial
  · rw [executeTerminals_eq hstack hterminals, h]
    rfl

/-! ## One row -/

/-- **A bucket that fails is replayed, and breaks.**  The other cells speak for every stack
with the top, so no run over their head fails. -/
theorem Sound.replays_of_bucket (hsound : prepared.Sound)
    (hlexer : lexer.Valid prepared.grammar.lexer) (hstack : prepared.grammar.lalr.ValidStack stack)
    {bucket : InverseBucket} (hbucket : bucket ∈ prepared.inverseRow lexer)
    (h : prepared.bucketAnswer stack bucket = .error e) :
    ∃ head, prepared.Replays stack bucket head ∧ prepared.Breaks stack head := by
  obtain ⟨-, head, f, hhead, hfault⟩ := hsound.bucketAnswer_error hlexer hbucket h
  obtain ⟨-, -, -, hemittable⟩ := hsound.sequence_emittable hhead
  obtain ⟨below, top, rfl⟩ := List.eq_nil_or_concat stack |>.resolve_left hstack.1
  rw [List.concat_eq_append] at hstack hfault ⊢
  have htop : top < prepared.grammar.lalr.stateCount := hstack.2 top (by simp)
  obtain ⟨cell, hcell, decision, hdecision, rfl⟩ := hsound.cells htop hhead
  have hsymbolic := readable_of_symbolic below htop hemittable hdecision
  have hnot : ∀ answer, prepared.grammar.lalr.readable (below ++ [top]) head ≠ .ok answer := by
    intro answer hanswer
    rw [ValidatedLalr.readable, hfault] at hanswer
    cases hanswer
  refine ⟨head, ⟨top, List.getLast?_concat, ?_, hhead⟩,
    breaks_of_fault hstack hemittable.valid hfault⟩
  rw [hcell]
  cases hclass : classifyDecision decision with
  | dependent => rfl
  | alwaysReadable =>
    rw [hclass] at hsymbolic
    exact absurd hsymbolic (hnot true)
  | rejected =>
    rw [hclass] at hsymbolic
    exact absurd hsymbolic (hnot false)

/-- An EOS token that fails breaks the parser over the flush and the EOF. -/
theorem breaks_of_eos {emitted : List TerminalId} (hstack : prepared.grammar.lalr.ValidStack stack)
    (hemitted : prepared.grammar.lalr.Emittable emitted)
    (h : prepared.eosAnswer stack emitted = .error e) :
    prepared.Breaks stack (emitted ++ [prepared.grammar.lalr.eofTerminal]) := by
  obtain ⟨-, f, hfault⟩ := eosAnswer_error.mp h
  exact breaks_of_fault hstack hemitted.snoc_eof hfault

/-- **A token whose answer is an error.** -/
theorem Sound.tokenRun_of_rowAfter (hsound : prepared.Sound)
    (hlexer : lexer.Valid prepared.grammar.lexer) (hstack : prepared.grammar.lalr.ValidStack stack)
    {token : TokenId} (htoken : token < prepared.grammar.tokenCount)
    (h : prepared.rowAfter lexer stack token = .error e) :
    ∃ terminals, prepared.TokenRun ⟨.running lexer, stack⟩ token terminals ∧
      prepared.Breaks stack terminals := by
  unfold rowAfter at h
  cases heffect : prepared.effectOf lexer token with
  | none =>
    rw [heffect] at h
    cases h
  | some execution =>
    rw [heffect] at h
    cases execution with
    | «continue» lexer' emitted =>
      obtain ⟨i, bucket, hbucket, hin, hanswer, hbefore⟩ :=
        tokenAnswer_error (map_eq_error.mp h)
      obtain ⟨head, hreplays, hbreaks⟩ :=
        hsound.replays_of_bucket hlexer hstack (List.mem_of_getElem? hbucket) hanswer
      exact ⟨head, .head rfl hbucket hin hbefore hreplays, hbreaks⟩
    | finished emitted eof =>
      obtain ⟨rfl, hemitted⟩ := effectOf_finished heffect
      have hexecution := hsound.tokenExecution_effectOf hlexer htoken
      rw [heffect] at hexecution
      exact ⟨_, .flush rfl htoken hexecution, breaks_of_eos hstack hemitted (map_eq_error.mp h)⟩

/-- **A mask that cannot be computed.** -/
theorem Sound.maskRun_of_maskTokens (hsound : prepared.Sound)
    (hlexer : lexer.Valid prepared.grammar.lexer) (hstack : prepared.grammar.lalr.ValidStack stack)
    (h : prepared.maskTokens lexer stack = .error e) :
    ∃ terminals, prepared.MaskRun ⟨.running lexer, stack⟩ terminals ∧
      prepared.Breaks stack terminals := by
  rcases maskTokens_error h with
    ⟨i, bucket, hbucket, hanswer, hbefore⟩ | ⟨hbuckets, token, htoken, hanswer, hbefore⟩
  · obtain ⟨head, hreplays, hbreaks⟩ :=
      hsound.replays_of_bucket hlexer hstack (List.mem_of_getElem? hbucket) hanswer
    exact ⟨head, .head rfl hbucket hbefore hreplays, hbreaks⟩
  · have hexecution := hsound.tokenExecution_effectOf hlexer htoken
    unfold eosTokenAnswer at hanswer
    split at hanswer
    · rename_i emitted eof heffect
      obtain ⟨rfl, hemitted⟩ := effectOf_finished heffect
      rw [heffect] at hexecution
      exact ⟨_, .flush rfl htoken hbuckets hbefore hexecution,
        breaks_of_eos hstack hemitted hanswer⟩
    · cases hanswer

variable {status : MatcherStatus} {token : TokenId}

theorem Sound.tokenRun_of_advanceRow (hsound : prepared.Sound)
    (hstatus : status.Valid prepared.grammar)
    (h : prepared.advanceRow status token = .error .corruptPreparedData) :
    ∃ terminals, prepared.TokenRun status token terminals ∧
      prepared.Breaks status.parserStack terminals := by
  obtain ⟨phase, stack⟩ := status
  cases phase with
  | accepted => cases h
  | running lexer =>
    obtain ⟨hlexer, hstack⟩ := hstatus
    simp only [advanceRow] at h
    by_cases htoken : token ≥ prepared.grammar.tokenCount
    · rw [if_pos htoken] at h
      cases h
    · rw [if_neg htoken] at h
      split at h
      · rename_i hrow
        exact hsound.tokenRun_of_rowAfter hlexer hstack (Nat.not_le.mp htoken) hrow
      · cases h
      · cases h

theorem Sound.tokenRun_of_allowsRow (hsound : prepared.Sound)
    (hstatus : status.Valid prepared.grammar)
    (h : prepared.allowsRow status token = .error .corruptPreparedData) :
    ∃ terminals, prepared.TokenRun status token terminals ∧
      prepared.Breaks status.parserStack terminals := by
  obtain ⟨phase, stack⟩ := status
  cases phase with
  | accepted => cases h
  | running lexer =>
    obtain ⟨hlexer, hstack⟩ := hstatus
    simp only [allowsRow] at h
    by_cases htoken : token ≥ prepared.grammar.tokenCount
    · rw [if_pos htoken] at h
      cases h
    · rw [if_neg htoken] at h
      exact hsound.tokenRun_of_rowAfter hlexer hstack (Nat.not_le.mp htoken) (map_eq_error.mp h)

theorem Sound.maskRun_of_maskRow (hsound : prepared.Sound)
    (hstatus : status.Valid prepared.grammar) {length : ℕ}
    (h : prepared.maskRow length status = .error .corruptPreparedData) :
    ∃ terminals, prepared.MaskRun status terminals ∧
      prepared.Breaks status.parserStack terminals := by
  obtain ⟨phase, stack⟩ := status
  cases phase with
  | accepted => cases h
  | running lexer =>
    obtain ⟨hlexer, hstack⟩ := hstatus
    simp only [maskRow] at h
    by_cases hlength : length < prepared.maskBytes
    · rw [if_pos hlength] at h
      cases h
    · rw [if_neg hlength] at h
      split at h
      · rename_i hmask
        exact hsound.maskRun_of_maskTokens hlexer hstack hmask
      · cases h
      · cases h

/-- A row of a batch in which accepted rows have no token. -/
theorem Sound.tokenRun_of_advanceActiveRow (hsound : prepared.Sound)
    (hstatus : status.Valid prepared.grammar) {reportRejectedRow : Bool} {row : ℕ}
    {active : Option TokenId}
    (h : prepared.advanceActiveRow reportRejectedRow row status active =
      .error .corruptPreparedData) :
    ∃ token terminals, active = some token ∧ prepared.TokenRun status token terminals ∧
      prepared.Breaks status.parserStack terminals := by
  cases active with
  | none =>
    obtain ⟨phase, stack⟩ := status
    cases phase <;> cases h
  | some token =>
    have hadvance : prepared.advanceRow status token = .error .corruptPreparedData := by
      obtain ⟨phase, stack⟩ := status
      cases phase with
      | accepted => cases h
      | running lexer =>
        simp only [advanceActiveRow] at h
        split at h
        · cases h
        · split_ifs at h <;> cases h
        · cases h
          assumption
    obtain ⟨terminals, hrun, hbreaks⟩ := hsound.tokenRun_of_advanceRow hstatus hadvance
    exact ⟨token, terminals, rfl, hrun, hbreaks⟩

/-- The mask of a successor row. -/
theorem Sound.maskRun_of_successorMask (hsound : prepared.Sound)
    (hstatus : status.Valid prepared.grammar)
    (h : prepared.successorMask status = .error .corruptPreparedData) :
    ∃ terminals, prepared.MaskRun status terminals ∧
      prepared.Breaks status.parserStack terminals := by
  unfold successorMask at h
  split at h
  · cases h
  · exact hsound.maskRun_of_maskRow hstatus h

/-! ## Calls -/

variable {states : List MatcherStatus}

variable (prepared) in
/-- The row that a call stages for some row. -/
def Stages (states : List MatcherStatus) (c : Call) (status' : MatcherStatus) : Prop :=
  ∃ (row : ℕ) (status : MatcherStatus) (token : TokenId) (result : AdvanceResult),
    states[row]? = some status ∧ c.tokenFor row = some token ∧
      prepared.advanceRow status token = .ok (result, status')

/-- **The row of an execution** is a committed one, or one that the call has just staged. -/
theorem Executes.row {c : Call} {terminals : List TerminalId}
    (h : prepared.Executes states c status terminals) :
    status ∈ states ∨ prepared.Stages states c status := by
  cases h with
  | allows hrow _ => exact Or.inl (List.mem_of_getElem? hrow)
  | advance hrow _ => exact Or.inl (List.mem_of_getElem? hrow)
  | batch _ hrow _ _ _ => exact Or.inl (List.mem_of_getElem? hrow)
  | active _ _ _ hrow _ _ _ => exact Or.inl (List.mem_of_getElem? hrow)
  | mask hrow _ => exact Or.inl (List.mem_of_getElem? hrow)
  | masks hrow _ _ => exact Or.inl (List.mem_of_getElem? hrow)
  | @successor c tokens output row staged status terminals _ hc _ htokens hstaged hrow _ hrun =>
    obtain ⟨hlength, hentries⟩ := (advanceActiveRows_eq_ok htokens).mp hstaged
    obtain ⟨hmap, hstatus⟩ := List.getElem?_eq_some_iff.mp hrow
    have hrow' : row < staged.length := by rwa [List.length_map] at hmap
    have hlt : row < states.length := hlength ▸ hrow'
    have htoken : row < tokens.length := htokens.symm ▸ hlt
    rw [List.getElem_map] at hstatus
    rcases advanceActiveRow_eq_ok.mp (hentries row hlt htoken hrow') with
      ⟨-, -, hentry⟩ | ⟨token, result, status', hsome, hentry, hadvance⟩
    · -- an accepted row has no mask
      rw [hentry] at hstatus
      subst hstatus
      cases hrun with
      | head hphase => cases hphase
      | flush hphase => cases hphase
    · rw [hentry] at hstatus
      subst hstatus
      refine Or.inr ⟨row, states[row], token, result, List.getElem?_eq_getElem hlt, ?_, hadvance⟩
      rw [Call.tokenFor_active hc, List.getElem?_eq_getElem htoken, hsome]
      rfl

theorem Executes.run {c : Call} {terminals : List TerminalId}
    (h : prepared.Executes states c status terminals) :
    (∃ token, prepared.TokenRun status token terminals) ∨ prepared.MaskRun status terminals := by
  cases h with
  | allows _ hrun => exact Or.inl ⟨_, hrun⟩
  | advance _ hrun => exact Or.inl ⟨_, hrun⟩
  | batch _ _ _ _ hrun => exact Or.inl ⟨_, hrun⟩
  | active _ _ _ _ _ _ hrun => exact Or.inl ⟨_, hrun⟩
  | mask _ hrun => exact Or.inr hrun
  | masks _ _ hrun => exact Or.inr hrun
  | successor _ _ _ _ _ _ hrun => exact Or.inr hrun

/-- **The terminals of an execution** are those of a head, or those of a flush and the EOF. -/
theorem Sound.terminals_of_executes (hsound : prepared.Sound)
    (hstatus : status.Valid prepared.grammar) {c : Call} {terminals : List TerminalId}
    (h : prepared.Executes states c status terminals) :
    prepared.grammar.lalr.Emittable terminals ∨ ∃ emitted,
      prepared.grammar.lalr.Emittable emitted ∧
      terminals = emitted ++ [prepared.grammar.lalr.eofTerminal] := by
  have hhead : ∀ {bucket : InverseBucket}, prepared.Replays status.parserStack bucket terminals →
      prepared.grammar.lalr.Emittable terminals := by
    rintro bucket ⟨top, -, -, hsequence⟩
    obtain ⟨-, -, -, hemittable⟩ := hsound.sequence_emittable hsequence
    exact hemittable
  have hflush : ∀ {lexer : LexerState} {token : TokenId} {emitted : List TerminalId}
      {eof : TerminalId}, status.phase = .running lexer → token < prepared.tokenCount →
      prepared.spanner.tokenExecution lexer token = .ok (some (.finished emitted eof)) →
      eof = prepared.grammar.lalr.eofTerminal ∧ prepared.grammar.lalr.Emittable emitted := by
    intro lexer token emitted eof hphase htoken hexecution
    obtain ⟨phase, stack⟩ := status
    obtain rfl : phase = .running lexer := hphase
    rw [hsound.tokenExecution_effectOf hstatus.1 htoken, Except.ok.injEq] at hexecution
    exact effectOf_finished hexecution
  rcases h.run with ⟨token, hrun⟩ | hrun
  · cases hrun with
    | head _ _ _ _ hreplays => exact Or.inl (hhead hreplays)
    | flush hphase htoken hexecution =>
      obtain ⟨rfl, hemitted⟩ := hflush hphase htoken hexecution
      exact Or.inr ⟨_, hemitted, rfl⟩
  · cases hrun with
    | head _ _ _ hreplays => exact Or.inl (hhead hreplays)
    | flush hphase htoken _ _ hexecution =>
      obtain ⟨rfl, hemitted⟩ := hflush hphase htoken hexecution
      exact Or.inr ⟨_, hemitted, rfl⟩

/-- **A batch in which accepted rows have no token.** -/
theorem Sound.executes_of_advanceActiveRows (hsound : prepared.Sound)
    (hstates : ∀ status ∈ states, status.Valid prepared.grammar) {reportRejectedRow : Bool}
    {c : Call} {tokens : List (Option TokenId)} (hc : c.activeTokens = some tokens)
    (htokens : tokens.length = states.length)
    (h : prepared.advanceActiveRows reportRejectedRow states tokens =
      .error .corruptPreparedData) :
    ∃ status terminals, prepared.Executes states c status terminals ∧
      prepared.Breaks status.parserStack terminals := by
  obtain ⟨row, hrow, htoken, herror, hbefore⟩ := (advanceActiveRows_eq_error htokens).mp h
  obtain ⟨token, terminals, hactive, hrun, hbreaks⟩ :=
    hsound.tokenRun_of_advanceActiveRow (hstates _ (List.getElem_mem hrow)) herror
  refine ⟨_, terminals, .active reportRejectedRow hc htokens (List.getElem?_eq_getElem hrow) ?_ ?_
    hrun, hbreaks⟩
  · rw [List.getElem?_eq_getElem htoken, hactive]
  · intro earlier hearlier
    have hrow' : earlier < states.length := Nat.lt_trans hearlier hrow
    have htoken' : earlier < tokens.length := Nat.lt_trans hearlier htoken
    obtain ⟨entry, hentry⟩ := hbefore earlier hrow' htoken' hearlier
    exact ⟨_, _, entry, List.getElem?_eq_getElem hrow', List.getElem?_eq_getElem htoken', hentry⟩

/-- **The fused call**: an execution for a row that advances, or, when all rows have
advanced, for the mask of a successor. -/
theorem Sound.executes_of_fused (hsound : prepared.Sound)
    (hstates : ∀ status ∈ states, status.Valid prepared.grammar)
    (hfits : states.length * prepared.maskBytes ≤ usizeMax) {reportRejectedRow : Bool}
    {tokens : List (Option TokenId)} {output : List UInt8} {c : Call}
    (hc : c.activeTokens = some tokens) (hbuffer : c.buffer = some output)
    (h : prepared.advanceAndMaskRows reportRejectedRow states tokens output.length =
      .error .corruptPreparedData) :
    ∃ status terminals, prepared.Executes states c status terminals ∧
      prepared.Breaks status.parserStack terminals := by
  have hmul : checkedMul states.length prepared.maskBytes =
      some (states.length * prepared.maskBytes) := checkedMul_eq_some.mpr ⟨hfits, rfl⟩
  have htokens : tokens.length = states.length := by
    by_contra hne
    simp only [advanceAndMaskRows, ne_eq, hne, not_false_eq_true, if_true] at h
    cases h
  have hlength : states.length * prepared.maskBytes ≤ output.length := by
    by_contra hshort
    simp only [advanceAndMaskRows, ne_eq, htokens, not_true_eq_false, if_false, hmul,
      if_pos (Nat.not_le.mp hshort)] at h
    cases h
  rcases (advanceAndMaskRows_eq_error htokens hfits hlength).mp h with
    hrows | ⟨staged, hstaged, hmask⟩
  · exact hsound.executes_of_advanceActiveRows hstates hc htokens hrows
  · obtain ⟨row, status, hrow, herror, hbefore⟩ := exists_first_of_mapM_error hmask
    obtain ⟨hlength', hentries⟩ := (advanceActiveRows_eq_ok htokens).mp hstaged
    have hvalid : status.Valid prepared.grammar := by
      rw [List.getElem?_map] at hrow
      obtain ⟨entry, hentry, rfl⟩ := Option.map_eq_some_iff.mp hrow
      obtain ⟨hrow', rfl⟩ := List.getElem?_eq_some_iff.mp hentry
      have hlt : row < states.length := hlength' ▸ hrow'
      exact hsound.advanceActiveRow_valid (hstates _ (List.getElem_mem hlt))
        (hentries row hlt (htokens.symm ▸ hlt) hrow')
    obtain ⟨terminals, hrun, hbreaks⟩ := hsound.maskRun_of_successorMask hvalid herror
    exact ⟨status, terminals, .successor hc hbuffer htokens hstaged hrow hbefore hrun, hbreaks⟩

/-- **A reply that calls the prepared data corrupt** comes from an execution of the call. -/
theorem Sound.executes_of_respond (hsound : prepared.Sound)
    (hstates : ∀ status ∈ states, status.Valid prepared.grammar)
    (hfits : states.length * prepared.maskBytes ≤ usizeMax) {c : Call}
    (h : (prepared.respond states c).1.value = .error .corruptPreparedData) :
    ∃ status terminals, prepared.Executes states c status terminals ∧
      prepared.Breaks status.parserStack terminals := by
  have hmul : checkedMul states.length prepared.maskBytes =
      some (states.length * prepared.maskBytes) := checkedMul_eq_some.mpr ⟨hfits, rfl⟩
  cases c with
  | isCompleted row =>
    simp only [respond] at h
    split at h <;> cases h
  | mask row output =>
    simp only [respond] at h
    split at h
    · cases h
    · rename_i status hrow
      split at h <;> cases h
      rename_i hmask
      obtain ⟨terminals, hrun, hbreaks⟩ :=
        hsound.maskRun_of_maskRow (hstates _ (List.mem_of_getElem? hrow)) hmask
      exact ⟨status, terminals, .mask hrow hrun, hbreaks⟩
  | masks output =>
    simp only [respond, hmul] at h
    split_ifs at h with hshort
    · cases h
    · split at h <;> cases h
      rename_i hmask
      obtain ⟨row, status, hrow, herror, hbefore⟩ := exists_first_of_mapM_error hmask
      obtain ⟨terminals, hrun, hbreaks⟩ :=
        hsound.maskRun_of_maskRow (hstates _ (List.mem_of_getElem? hrow)) herror
      exact ⟨status, terminals, .masks hrow hbefore hrun, hbreaks⟩
  | allows row token =>
    simp only [respond] at h
    split at h
    · cases h
    · rename_i status hrow
      obtain ⟨terminals, hrun, hbreaks⟩ :=
        hsound.tokenRun_of_allowsRow (hstates _ (List.mem_of_getElem? hrow)) (map_eq_error.mp h)
      exact ⟨status, terminals, .allows hrow hrun, hbreaks⟩
  | advance row token =>
    simp only [respond] at h
    split at h
    · cases h
    · rename_i status hrow
      split at h <;> cases h
      rename_i hadvance
      obtain ⟨terminals, hrun, hbreaks⟩ :=
        hsound.tokenRun_of_advanceRow (hstates _ (List.mem_of_getElem? hrow)) hadvance
      exact ⟨status, terminals, .advance hrow hrun, hbreaks⟩
  | advanceBatch tokens =>
    simp only [respond] at h
    split_ifs at h with htokens
    · cases h
    · split at h <;> cases h
      rename_i hrows
      have hlength := not_not.mp htokens
      obtain ⟨row, hrow, htoken, herror, hbefore⟩ := (advanceRows_eq_error hlength).mp hrows
      obtain ⟨terminals, hrun, hbreaks⟩ :=
        hsound.tokenRun_of_advanceRow (hstates _ (List.getElem_mem hrow)) herror
      refine ⟨_, terminals, .batch hlength (List.getElem?_eq_getElem hrow)
        (List.getElem?_eq_getElem htoken) ?_ hrun, hbreaks⟩
      intro earlier hearlier
      have hrow' := Nat.lt_trans hearlier hrow
      have htoken' := Nat.lt_trans hearlier htoken
      obtain ⟨entry, hentry⟩ := hbefore earlier hrow' htoken' hearlier
      exact ⟨_, _, entry, List.getElem?_eq_getElem hrow', List.getElem?_eq_getElem htoken', hentry⟩
  | advanceActive tokens =>
    simp only [respond] at h
    split_ifs at h with htokens
    · cases h
    · split at h <;> cases h
      rename_i hrows
      exact hsound.executes_of_advanceActiveRows hstates rfl (not_not.mp htokens) hrows
  | advanceActiveAndMasks tokens output =>
    simp only [respond] at h
    split at h <;> cases h
    rename_i hfused
    exact hsound.executes_of_fused hstates hfits rfl rfl hfused
  | advanceActiveAndMasksNoResult tokens output =>
    simp only [respond] at h
    split at h <;> cases h
    rename_i hfused
    exact hsound.executes_of_fused hstates hfits rfl rfl hfused

end PreparedGrammar

namespace Matcher

variable {matcher : Matcher}

/-- **Corrupt prepared data is a broken parser table.**  A call on a reachable matcher
whose masks fit in memory reports corrupt prepared data only if it runs the parser, for the
row it is at, over a head with a dependent cell or over an EOS flush, and the reference
interpreter underflows the stack there, misses a goto or fails the progress check.  Nothing
else gives up so: whatever the call indexes is in range, and whatever it looks up for a
committed row or for one it has just staged is there and agrees. -/
theorem corrupt_only_on_table_fault (hreachable : matcher.Reachable)
    (hfits : matcher.states.length * matcher.prepared.maskBytes ≤ usizeMax) (memory : Memory)
    (c : Call) :
    ((matcher.call memory c).1.value = .error .corruptPreparedData →
      ∃ status terminals,
        (status ∈ matcher.states ∨ matcher.prepared.Stages matcher.states c status) ∧
        matcher.prepared.Executes matcher.states c status terminals ∧
        matcher.prepared.Breaks status.parserStack terminals) ∧
    matcher.Slots ∧
    ∀ status, status ∈ matcher.states ∨ matcher.prepared.Stages matcher.states c status →
      ∀ lexer, status.phase = .running lexer →
        matcher.prepared.Lookups lexer status.parserStack := by
  have hm := hreachable.invariant
  refine ⟨fun h => ?_, hm.slots hfits, fun status hstatus lexer hphase => ?_⟩
  · rcases (hm.call_answered memory c).answer with
      ⟨hrespond, -⟩ | ⟨-, ⟨requested, hrefused⟩, -⟩
    · have hvalue : (matcher.call memory c).1.value =
          (matcher.prepared.respond matcher.states c).1.value :=
        congrArg (fun out => out.1.value) hrespond
      obtain ⟨status, terminals, hexecutes, hbreaks⟩ :=
        hm.sound.executes_of_respond hm.rows hfits (hvalue.symm.trans h)
      exact ⟨status, terminals, hexecutes.row, hexecutes, hbreaks⟩
    · rw [hrefused] at h
      cases h
  · have hvalid : status.Valid matcher.prepared.grammar := by
      rcases hstatus with hcommitted | ⟨row, before, token, result, hrow, -, hadvance⟩
      · exact hm.rows status hcommitted
      · exact hm.sound.advanceRow_valid (hm.rows _ (List.mem_of_getElem? hrow)) hadvance
    obtain ⟨phase, stack⟩ := status
    obtain rfl : phase = .running lexer := hphase
    exact hm.sound.lookups hvalid.1 hvalid.2

/-- The lists of `a`, with a second rule that no goto takes up: reading a third `a`
reduces to a nonterminal that the start state does not know. -/
def missingGotoGrammar : ValidatedGrammar :=
  { reusableStackGrammar with
    lalr := { reusableStackLalr with
      dimensions := ⟨4, 2, 2⟩
      gotos := [some 2, none, none, none, none, none, none, none]
      productions := [⟨0, 1⟩, ⟨1, 2⟩]
      gotoCells_lt := by decide
      gotos_length := by decide
      gotos_lt := by simp
      lhs_lt := by decide } }

/-- It can be prepared: no cell needs the goto. -/
def missingGotoPrepared : PreparedGrammar :=
  (prepare missingGotoGrammar reusableStackLimits).toOption.get (by decide +kernel)

/-- One row that has read `aa`. -/
def missingGotoMatcher : Matcher :=
  ((fresh missingGotoPrepared 1).run .granting [.advance 0 0, .advance 0 0]).2.1

theorem corrupt_only_on_table_fault_missingGoto :
    ∃ status terminals,
      (status ∈ missingGotoMatcher.states ∨
        missingGotoMatcher.prepared.Stages missingGotoMatcher.states (.mask 0 [0]) status) ∧
      missingGotoMatcher.prepared.Executes missingGotoMatcher.states (.mask 0 [0]) status
        terminals ∧
      missingGotoMatcher.prepared.Breaks status.parserStack terminals := by
  have hprepare : prepare missingGotoGrammar reusableStackLimits = .ok missingGotoPrepared :=
    eq_ok_get _ _
  have hmatcher : missingGotoPrepared.intoMatcher 1 .granting =
      (.ok (fresh missingGotoPrepared 1), .granting) := intoMatcher_granting one_ne_zero
  have hreachable : missingGotoMatcher.Reachable :=
    Reachable.run (.fresh hprepare hmatcher) .granting [.advance 0 0, .advance 0 0]
  -- one evaluation for both, since the tables are computed on the way
  obtain ⟨hfits, hcorrupt⟩ :
      missingGotoMatcher.states.length * missingGotoMatcher.prepared.maskBytes ≤ usizeMax ∧
        (missingGotoMatcher.call .granting (.mask 0 [0])).1.value =
          .error .corruptPreparedData := by
    decide +kernel
  exact (corrupt_only_on_table_fault hreachable hfits .granting (.mask 0 [0])).1 hcorrupt

end Matcher
end GreatGramma
