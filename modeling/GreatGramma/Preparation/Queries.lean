import GreatGramma.Engine.Heads
import GreatGramma.Preparation.Worklist

/-!
# What the spanner answers

The public queries of a prepared spanner, against `execute_token` and `lexer_step`: what the three
modules before this one say about the tables is read off the tables here, by the functions that
the engine reads them with.

## The queries

* `singleton_terminals` lists the terminals that silent bytes lead to from a source.
* `sequence` numbers the heads that some token realizes from some source, and nothing else.
* `inverse_buckets` and `inverse_tokens` list the tokens that realize a head from a source.

All lists increase.  A query of the buckets looks for the head first and for a bucket of the row
second, and takes the first that it finds.  That this is the right one rests on both being
distinct (`Preparation.Order`): the one bucket that is found holds all tokens of the head
(`inverseTokens_eq`).

## Two ways to the same lists

What is stated of the answers names no table.  A token *realizes* a head from a source if
`execute_token` leads on and a singleton terminal of the state that it leads to continues what it
emits; a terminal is a singleton of a source if the lexer yields it at the end of an input that
emits nothing before (`prepareSpanner_buckets_exact`, `prepareSpanner_singletons_exact`).  The
second statement has another half, about the loop and not about its result: the worklist stops,
and it takes up the facts that are true, each of them once, and no other.
-/

namespace GreatGramma

open Traversal

namespace PreparedSpanner

variable {grammar : ValidatedGrammar} {spanner : PreparedSpanner}

theorem Exact.singletonTerminals_eq (hexact : spanner.Exact grammar) {source : LexerState}
    (hvalid : source.Valid grammar.lexer) :
    ∃ row, spanner.singletonTerminals source = .ok row ∧ row ∈ spanner.sequences.singletons ∧
      ∀ c, c ∈ row ↔ grammar.scanner.Head source c := by
  obtain ⟨row, hrow, hmem⟩ := hexact.singletons hvalid
  refine ⟨row, ?_, List.mem_of_getElem? hrow, hmem⟩
  simp only [singletonTerminals, querySource, hexact.tokens.sources, sourceIndexForCount_eq hvalid,
    hrow]

theorem Exact.inverseBuckets_eq (hexact : spanner.Exact grammar) {source : LexerState}
    (hvalid : source.Valid grammar.lexer) :
    ∃ row, spanner.inverseBuckets source = .ok row ∧ row ∈ spanner.inverse ∧
      RowExact grammar spanner.sequences.sequences source row := by
  obtain ⟨row, hrow, hlists⟩ := hexact.rows hvalid
  refine ⟨row, ?_, List.mem_of_getElem? hrow, hlists⟩
  simp only [inverseBuckets, querySource, hexact.tokens.sources, sourceIndexForCount_eq hvalid,
    hrow]

/-- Buckets are found for sources of the tables only. -/
theorem Exact.valid_of_inverseBuckets (hexact : spanner.Exact grammar) {source : LexerState}
    {row : List InverseBucket} (h : spanner.inverseBuckets source = .ok row) :
    source.Valid grammar.lexer := by
  unfold inverseBuckets querySource at h
  rw [hexact.tokens.sources] at h
  cases source with
  | start => exact trivial
  | dfa state =>
    split at h
    · cases h
    · rename_i hindex
      split at hindex
      · rename_i index hsome
        obtain ⟨hadd, hlt⟩ := Option.filter_eq_some_iff.mp hsome
        obtain ⟨-, rfl⟩ := checkedAdd_eq_some.mp hadd
        exact Nat.lt_of_succ_lt_succ (of_decide_eq_true hlt)
      · cases hindex

/-- **The query for the tokens of a head.**  Heads are distinct and so are the heads of a
row, so the one bucket found holds all tokens that realize the head. -/
theorem inverseTokens_eq (spanner : PreparedSpanner) (hexact : spanner.Exact grammar)
    (hordered : spanner.Ordered grammar)
    {source : LexerState} (hvalid : source.Valid grammar.lexer) {sequence : SequenceId}
    {head : List TerminalId} (hsequence : spanner.sequence sequence = some head) :
    ∃ tokens, spanner.inverseTokens source sequence = .ok tokens ∧ tokens.Pairwise (· < ·) ∧
      ∀ t, t ∈ tokens ↔ grammar.Realizes source t head := by
  obtain ⟨row, hrow, hmem, hsound, hlists⟩ := hexact.inverseBuckets_eq hvalid
  have hsorted := hordered.rows row hmem
  have hknown : (spanner.sequences.sequence sequence).isNone = false := by
    have hsome : spanner.sequences.sequence sequence = some head := hsequence
    rw [hsome]
    rfl
  -- a bucket of this head has this number
  have hnumber : ∀ (i : ℕ) (bucket : InverseBucket), row[i]? = some bucket →
      spanner.sequences.sequences[bucket.sequence]? = some head → bucket.sequence = sequence := by
    intro i bucket hbucket hhead
    have hlt := (hsound i bucket hbucket).2
    exact (List.getElem?_inj hlt hordered.heads).mp (hhead.trans hsequence.symm)
  cases hindex : bucketIndex row sequence with
  | none =>
    refine ⟨[], ?_, List.Pairwise.nil,
      fun t => ⟨fun ht => absurd ht List.not_mem_nil, fun ht => ?_⟩⟩
    · simp only [inverseTokens, hknown, Bool.false_eq_true, if_false, hrow, hindex]
    · obtain ⟨i, bucket, hbucket, hhead, -⟩ := (hlists head t).mpr ht
      have hno := List.findIdx?_eq_none_iff.mp hindex bucket (List.mem_of_getElem? hbucket)
      rw [hnumber i bucket hbucket hhead, beq_self_eq_true] at hno
      cases hno
  | some index =>
    obtain ⟨hlt, hfound, -⟩ := List.findIdx?_eq_some_iff_getElem.mp hindex
    have hentry := List.getElem?_eq_getElem hlt
    have hsame : row[index].sequence = sequence := beq_iff_eq.mp hfound
    refine ⟨row[index].tokens, ?_, hsorted.tokens _ (List.getElem_mem hlt), fun t => ?_⟩
    · simp only [inverseTokens, hknown, Bool.false_eq_true, if_false, hrow, hindex, hentry]
    · rw [← hlists head t]
      constructor
      · intro ht
        exact ⟨index, row[index], hentry, hsame ▸ hsequence, ht⟩
      · rintro ⟨i, bucket, hbucket, hhead, ht⟩
        have hi : i = index := by
          obtain ⟨hi, hget⟩ := List.getElem?_eq_some_iff.mp hbucket
          have hdistinct := hsorted.distinct
          rw [List.nodup_iff_injective_get] at hdistinct
          have hcell : (row.map InverseBucket.sequence).get ⟨i, by rwa [List.length_map]⟩ =
              (row.map InverseBucket.sequence).get ⟨index, by rwa [List.length_map]⟩ := by
            simp only [List.get_eq_getElem, List.getElem_map, hget, hsame]
            exact hnumber i bucket hbucket hhead
          exact congrArg Fin.val (hdistinct hcell)
        subst hi
        rw [hentry] at hbucket
        exact Option.some.inj hbucket ▸ ht

end PreparedSpanner

section
variable {grammar : ValidatedGrammar} {limits : PreparationLimits} {spanner : PreparedSpanner}

/-- From `source` the token realizes `head`: `execute_token` leads on, and one of the
singleton terminals of the state it leads to continues what it emits. -/
def PreparedSpanner.TokenRealizes (spanner : PreparedSpanner) (grammar : ValidatedGrammar)
    (source : LexerState) (token : TokenId) (head : List TerminalId) : Prop :=
  ∃ state em c singles, executeToken grammar source token = .ok (some (.continue state em)) ∧
    spanner.singletonTerminals state = .ok singles ∧ c ∈ singles ∧ head = em ++ [c]

theorem PreparedSpanner.Exact.tokenRealizes_iff (hexact : spanner.Exact grammar)
    {source : LexerState} {token : TokenId} {head : List TerminalId}
    (hvalid : source.Valid grammar.lexer) :
    spanner.TokenRealizes grammar source token head ↔ grammar.Realizes source token head := by
  constructor
  · rintro ⟨state, em, c, singles, hexecute, hsingles, hc, rfl⟩
    obtain ⟨bytes, hentry, hrun⟩ := (ValidatedGrammar.executeToken_continue_iff hvalid).mp hexecute
    obtain ⟨row, hrow, -, hmem⟩ :=
      hexact.singletonTerminals_eq (ValidatedGrammar.scanner_run_valid hvalid hrun)
    rw [hrow] at hsingles
    cases hsingles
    exact ⟨bytes, state, em, c, hentry, hrun, (hmem c).mp hc, rfl⟩
  · rintro ⟨bytes, state, em, c, hentry, hrun, hhead, rfl⟩
    obtain ⟨row, hrow, -, hmem⟩ :=
      hexact.singletonTerminals_eq (ValidatedGrammar.scanner_run_valid hvalid hrun)
    exact ⟨state, em, c, row, (ValidatedGrammar.executeToken_continue_iff hvalid).mpr
      ⟨bytes, hentry, hrun⟩, hrow, (hmem c).mpr hhead, rfl⟩

theorem prepareSpanner_exact (h : prepareSpanner grammar limits = .ok spanner) :
    spanner.Exact grammar ∧ spanner.Ordered grammar := by
  simp only [prepareSpanner, bind_eq_ok] at h
  obtain ⟨⟨spanner', work⟩, hbudget, h⟩ := h
  cases h
  obtain ⟨_, _, _, -, -, -, hordered⟩ := prepareSpannerWithBudget_stages hbudget
  exact ⟨prepareSpannerWithBudget_exact hbudget, hordered⟩

/-- **The inverse buckets are exact.**  The interned heads are distinct, and they are the
heads that some token realizes from some source.  Under a head the tokens that realize it
from the source are listed in increasing order, and no EOS token is in any bucket. -/
theorem prepareSpanner_buckets_exact (h : prepareSpanner grammar limits = .ok spanner) :
    (∀ i j head, spanner.sequence i = some head → spanner.sequence j = some head → i = j) ∧
    (∀ head, (∃ sequence, spanner.sequence sequence = some head) ↔
      ∃ source token, source.Valid grammar.lexer ∧
        spanner.TokenRealizes grammar source token head) ∧
    (∀ source sequence head, source.Valid grammar.lexer →
      spanner.sequence sequence = some head →
      ∃ tokens, spanner.inverseTokens source sequence = .ok tokens ∧ tokens.Pairwise (· < ·) ∧
        ∀ t, t ∈ tokens ↔ (∃ bytes, grammar.token t = some (.bytes bytes)) ∧
          spanner.TokenRealizes grammar source t head) ∧
    ∀ source row bucket t, spanner.inverseBuckets source = .ok row → bucket ∈ row →
      t ∈ bucket.tokens → grammar.token t ≠ some .eos := by
  obtain ⟨hexact, hordered⟩ := prepareSpanner_exact h
  refine ⟨?_, ?_, ?_, ?_⟩
  · intro i j head hi hj
    have hlt := (List.getElem?_eq_some_iff.mp hi).1
    exact (List.getElem?_inj hlt hordered.heads).mp (hi.trans hj.symm)
  · intro head
    constructor
    · rintro ⟨sequence, hsequence⟩
      obtain ⟨source, token, hvalid, hrealizes⟩ :=
        hordered.interned head (List.mem_of_getElem? hsequence)
      exact ⟨source, token, hvalid, (hexact.tokenRealizes_iff hvalid).mpr hrealizes⟩
    · rintro ⟨source, token, hvalid, hrealizes⟩
      obtain ⟨row, -, -, -, hlists⟩ := hexact.inverseBuckets_eq hvalid
      obtain ⟨i, bucket, -, hhead, -⟩ :=
        (hlists head token).mpr ((hexact.tokenRealizes_iff hvalid).mp hrealizes)
      exact ⟨bucket.sequence, hhead⟩
  · intro source sequence head hvalid hsequence
    obtain ⟨tokens, htokens, hsorted, hmem⟩ :=
      spanner.inverseTokens_eq hexact hordered hvalid hsequence
    refine ⟨tokens, htokens, hsorted, fun t => ?_⟩
    rw [hmem t, hexact.tokenRealizes_iff hvalid]
    constructor
    · intro hrealizes
      obtain ⟨bytes, _, _, _, hentry, -⟩ := id hrealizes
      exact ⟨⟨bytes, hentry⟩, hrealizes⟩
    · exact And.right
  · intro source row bucket t hrow hbucket ht heos
    have hvalid := hexact.valid_of_inverseBuckets hrow
    obtain ⟨row', hrow', -, hsound, hlists⟩ := hexact.inverseBuckets_eq hvalid
    rw [hrow] at hrow'
    cases hrow'
    obtain ⟨i, hi, hget⟩ := List.getElem_of_mem hbucket
    have hentry : row[i]? = some bucket := hget ▸ List.getElem?_eq_getElem hi
    obtain ⟨bytes, _, _, _, hbytes, -⟩ := (hlists _ t).mp
      ⟨i, bucket, hentry, List.getElem?_eq_getElem (hsound i bucket hentry).2, ht⟩
    rw [heos] at hbytes
    cases hbytes

theorem prepareSpanner_of_prepare {prepared : PreparedGrammar}
    (h : prepare grammar limits = .ok prepared) :
    prepareSpanner grammar limits = .ok prepared.spanner := by
  simp only [prepare, bind_eq_ok] at h
  obtain ⟨⟨spanner, work⟩, hspanner, ⟨parser, _⟩, -, h⟩ := h
  split at h <;> try contradiction
  cases h
  simp only [prepareSpanner, bind_eq_ok]
  exact ⟨_, hspanner, rfl⟩
end

/-- One token, `a`, realizes the head `a` from logical start. -/
theorem prepareSpanner_buckets_exact_reusableStack :
    ∃ tokens, reusableStackPrepared.spanner.inverseTokens .start 0 = .ok tokens ∧
      tokens.Pairwise (· < ·) ∧
      ∀ t, t ∈ tokens ↔ (∃ bytes, reusableStackGrammar.token t = some (.bytes bytes)) ∧
        reusableStackPrepared.spanner.TokenRealizes reusableStackGrammar .start t [0] := by
  have hsequence : reusableStackPrepared.spanner.sequence 0 = some [0] := by
    rw [reusableStackPrepared_eq]
    rfl
  exact (prepareSpanner_buckets_exact
    (prepareSpanner_of_prepare reusableStack_prepare)).2.2.1 .start 0 [0] trivial hsequence

section
variable {grammar : ValidatedGrammar} {limits : PreparationLimits} {spanner : PreparedSpanner}

/-- The worklist of a preparation, from what the scan leaves: it stops, and takes up
exactly the facts that are true, each of them once. -/
theorem buildSingletons_worklist {work work' : WorkBudget} {table : SequenceTable}
    (h : buildSingletons grammar limits work = .ok (work', table)) :
    ∃ charged scan turns taken known rest,
      work.charge (grammar.sources * 256) = .ok charged ∧
      scanSources grammar grammar.sources grammar.lalr.terminalCount
        ⟨⟨List.replicate (grammar.sources * grammar.lalr.terminalCount) 0, []⟩,
          List.replicate grammar.sources [], charged⟩ = .ok scan ∧
      propagateFactsWithin scan.predecessors grammar.lalr.terminalCount turns scan.known scan.work
        0 = some (taken, .ok (known, rest)) ∧
      collectAllSingletons known.seen grammar.sources grammar.lalr.terminalCount rest =
        .ok (work', table.singletons) ∧
      taken.Nodup ∧ ∀ fact, fact ∈ taken ↔ fact.source < grammar.sources ∧
        grammar.scanner.Head (.ofIndex fact.source) fact.terminal := by
  simp only [buildSingletons, sourceCount_eq, bind_eq_ok] at h
  obtain ⟨_, hsources, factCells, hcells, byteSteps, hsteps, charged, hcharged, scan, hscan,
    ⟨known, rest⟩, hknown, ⟨_, singletons⟩, hsingletons, h⟩ := h
  cases hsources
  cases h
  obtain ⟨-, rfl⟩ := checkedMul_eq_some.mp (checkItems_ok hcells)
  obtain ⟨-, rfl⟩ := checkedMul_eq_some.mp (checkItems_ok hsteps)
  have honce : Facts.Once grammar.lalr.terminalCount
      ⟨List.replicate (grammar.sources * grammar.lalr.terminalCount) 0, []⟩ :=
    ⟨List.nodup_nil, fun fact hfact => absurd hfact List.not_mem_nil⟩
  obtain ⟨hlast, -, turns, hturns⟩ := propagateFactsFrom_taken (scanSources_once honce hscan) hknown
  rw [List.drop_zero] at hturns
  obtain ⟨hsound, hcovers⟩ := scanSources_ok ⟨.empty, .empty⟩ hscan
  obtain ⟨hknown', hleading, hclosed⟩ := propagateFactsFrom_ok hsound.predecessors hsound.known
    (fun i hi => absurd hi (Nat.not_lt_zero i)) hknown
  refine ⟨charged, scan, turns, known.facts, known, rest, hcharged, hscan, hturns, hsingletons,
    hlast.nodup, fun fact => ⟨hknown'.head fact, ?_⟩⟩
  rintro ⟨hsource, hhead⟩
  have hmem := Facts.mem_of_head hcovers hleading hclosed (LexerState.ofIndex_valid hsource) hhead
  rwa [LexerState.index_ofIndex] at hmem

/-- **The singleton fixpoint is exact.**  The singleton terminals of a source are listed in
increasing order.  They are those that the lexer yields at the end of the input after
bytes that emit nothing, which are the labels that transitions lead to.  The worklist
behind them stops, having taken up every true fact once and nothing else. -/
theorem prepareSpanner_singletons_exact (h : prepareSpanner grammar limits = .ok spanner) :
    (∀ source : LexerState, source.Valid grammar.lexer →
      ∃ row, spanner.singletonTerminals source = .ok row ∧ row.Pairwise (· < ·) ∧
        (∀ c, c ∈ row ↔ ∃ bytes state, grammar.scanner.run source bytes = some (state, []) ∧
          grammar.scanner.flush state = some (some c)) ∧
        ∀ c, c ∈ row ↔ ∃ d, source.Leads grammar.lexer d ∧
          grammar.lexer.terminal d = some (some c)) ∧
    ∃ work charged scan turns taken known rest work' tokens,
      prepareTokenTable grammar limits (WorkBudget.new limits) = .ok (work, tokens) ∧
      work.charge (grammar.sources * 256) = .ok charged ∧
      scanSources grammar grammar.sources grammar.lalr.terminalCount
        ⟨⟨List.replicate (grammar.sources * grammar.lalr.terminalCount) 0, []⟩,
          List.replicate grammar.sources [], charged⟩ = .ok scan ∧
      propagateFactsWithin scan.predecessors grammar.lalr.terminalCount turns scan.known scan.work
        0 = some (taken, .ok (known, rest)) ∧
      collectAllSingletons known.seen grammar.sources grammar.lalr.terminalCount rest =
        .ok (work', spanner.sequences.singletons) ∧
      taken.Nodup ∧ ∀ fact, fact ∈ taken ↔ fact.source < grammar.sources ∧
        grammar.scanner.Head (.ofIndex fact.source) fact.terminal := by
  obtain ⟨hexact, hordered⟩ := prepareSpanner_exact h
  constructor
  · intro source hvalid
    obtain ⟨row, hrow, hlisted, hmem⟩ := hexact.singletonTerminals_eq hvalid
    refine ⟨row, hrow, hordered.singletons row hlisted, hmem, fun c => ?_⟩
    rw [hmem c, head_iff_leads]
  · simp only [prepareSpanner, bind_eq_ok] at h
    obtain ⟨⟨spanner', work''⟩, hbudget, h⟩ := h
    cases h
    obtain ⟨work, work', start, htokens, hsingletons, hsame, -⟩ :=
      prepareSpannerWithBudget_stages hbudget
    obtain ⟨charged, scan, turns, taken, known, rest, hcharged, hscan, hturns, hcollect, hnodup,
      hfacts⟩ := buildSingletons_worklist hsingletons
    exact ⟨work, charged, scan, turns, taken, known, rest, work', _, htokens, hcharged, hscan,
      hturns, hsame ▸ hcollect, hnodup, hfacts⟩

end

/-- From logical start one byte leads to the label `a`. -/
theorem prepareSpanner_singletons_exact_reusableStack :
    ∃ row, reusableStackPrepared.spanner.singletonTerminals .start = .ok row ∧
      row.Pairwise (· < ·) ∧
      (∀ c, c ∈ row ↔ ∃ bytes state,
        reusableStackGrammar.scanner.run .start bytes = some (state, []) ∧
          reusableStackGrammar.scanner.flush state = some (some c)) ∧
      ∀ c, c ∈ row ↔ ∃ d, LexerState.start.Leads reusableStackGrammar.lexer d ∧
        reusableStackGrammar.lexer.terminal d = some (some c) :=
  (prepareSpanner_singletons_exact (prepareSpanner_of_prepare reusableStack_prepare)).1 .start
    trivial

end GreatGramma
