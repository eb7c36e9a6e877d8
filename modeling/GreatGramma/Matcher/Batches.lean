import GreatGramma.Engine.Runs

/-!
# Batches are pointwise

The batch calls write all rows into one staging vector and swap it in at the end.  Seen from
outside there is no vector: every row does what a matcher with that row alone would do, and if
some row cannot, the first such row speaks for the batch and nothing changes.

## Rows alone

The law compares a batch with matchers that have one row each.  These are real matchers, with
staging slots and a scratch stack of their own, and anything may be left in these: the law holds
for all leftovers, so it says in passing that they do not matter.  What a row does alone is the
public `advance` on row `0`; in `advance_active` an accepted row without a token does nothing
alone, an accepted row with one and a running row without one are errors.

## The law

`Pointwise` has a part for success and one for failure.  A batch succeeds just if every row does
alone, its replies are theirs, and each of its rows is the row that is left alone.  Otherwise the
error is that of the first row that fails alone, and the rows are what they were.  Both methods
follow it (`Invariant.advanceBatch_pointwise`, `Invariant.advanceActive_pointwise`), and it has a
consequence that names no matcher at all: equal rows with equal tokens end equal, whatever the
rest of their batches is (`Pointwise.row_congr`).
-/

namespace GreatGramma

open Reservation Traversal

namespace Matcher

variable (matcher : Matcher)

/-- A matcher with one row, and anything in its buffers. -/
def alone (status slot : MatcherStatus) (scratch : List ParserStateId) : Matcher :=
  ⟨matcher.prepared, [status], [slot], scratch⟩

/-- What a row and its token do alone: the reply, and the rows after it. -/
def advanceAlone (slot : MatcherStatus) (scratch : List ParserStateId) (tokens : List TokenId)
    (row : ℕ) : Except EngineError AdvanceResult × List MatcherStatus :=
  match matcher.states[row]?, tokens[row]? with
  | some status, some token =>
    let out := (matcher.alone status slot scratch).advance 0 token .granting
    (out.1, out.2.1.states)
  | _, _ => (.error (.invalidRow row matcher.states.length), [])

/-- What a row does alone when accepted rows have no token. -/
def advanceActiveAlone (slot : MatcherStatus) (scratch : List ParserStateId)
    (tokens : List (Option TokenId)) (row : ℕ) :
    Except EngineError (Option AdvanceResult) × List MatcherStatus :=
  match matcher.states[row]?, tokens[row]? with
  | some status, some (some token) =>
    let out := (matcher.alone status slot scratch).advance 0 token .granting
    (out.1.map some, out.2.1.states)
  | some status, some none =>
    match status.phase with
    | .accepted => (.ok none, [status])
    | .running _ => (.error (.missingRunningToken row), [status])
  | _, none => (.error (.invalidRow row matcher.states.length), [])
  | none, _ => (.error (.invalidRow row matcher.states.length), [])

/-- **The law of a batch**, for the replies and rows `alone row` of its rows. -/
structure Pointwise {α : Type} (alone : ℕ → Except EngineError α × List MatcherStatus)
    (out : Except EngineError (List α) × Matcher × Memory) : Prop where
  ok : ∀ results, out.1 = .ok results ↔ results.length = matcher.states.length ∧
    ∀ row, ∀ hrow : row < results.length, (alone row).1 = .ok results[row]
  rows : ∀ results, out.1 = .ok results → out.2.1.states.length = matcher.states.length ∧
    ∀ row, ∀ hrow : row < out.2.1.states.length, (alone row).2 = [out.2.1.states[row]]
  error : ∀ e, out.1 = .error e → out.2.1.states = matcher.states ∧
    ∃ row < matcher.states.length, (alone row).1 = .error e ∧
      ∀ row' < row, ∃ result, (alone row').1 = .ok result

variable {matcher}

/-- The law of a batch, for a batch that goes through its rows. -/
theorem pointwise_of {α γ : Type} {matcher' : Matcher} {rows : List γ}
    {step : γ → Except EngineError (α × MatcherStatus)}
    {alone : ℕ → Except EngineError α × List MatcherStatus}
    (hrows : rows.length = matcher.states.length)
    (halone : ∀ row, ∀ hrow : row < rows.length,
      (alone row).1 = (step rows[row]).map Prod.fst ∧
        ∀ entry, step rows[row] = .ok entry → (alone row).2 = [entry.2])
    (hkeep : ∀ e, rows.mapM step = .error e → matcher'.states = matcher.states)
    (hcommit : ∀ entries, rows.mapM step = .ok entries →
      matcher'.states = entries.map Prod.snd) :
    matcher.Pointwise alone ((rows.mapM step).map (List.map Prod.fst), matcher', .granting) := by
  cases hstaged : rows.mapM step with
  | error e =>
    obtain ⟨row, hrow, hfail, hbefore⟩ := mapM_eq_error.mp hstaged
    have hthis : (alone row).1 = .error e := by
      rw [(halone row hrow).1, hfail]
      rfl
    refine ⟨fun results => ⟨fun h => (by cases h), fun ⟨hlength, hresults⟩ => ?_⟩,
      fun results h => (by cases h), fun e' h => ?_⟩
    · have hother := hresults row (hlength.trans hrows.symm ▸ hrow)
      rw [hthis] at hother
      cases hother
    · cases h
      refine ⟨hkeep e hstaged, row, hrows ▸ hrow, hthis, fun row' hlt => ?_⟩
      have hrow' := Nat.lt_trans hlt hrow
      obtain ⟨entry, hentry⟩ := hbefore row' hrow' hlt
      exact ⟨entry.1, by rw [(halone row' hrow').1, hentry]; rfl⟩
  | ok entries =>
    obtain ⟨hlength, hsteps⟩ := mapM_eq_ok_get.mp hstaged
    have hstates := hcommit entries hstaged
    have hresult : ∀ row, ∀ hrow : row < entries.length, (alone row).1 = .ok entries[row].1 := by
      intro row hrow
      have hlt : row < rows.length := hlength ▸ hrow
      rw [(halone row hlt).1, hsteps row hlt hrow]
      rfl
    refine ⟨fun results => ⟨fun h => ?_, fun ⟨hresults, hall⟩ => ?_⟩, fun results _ => ?_,
      fun e h => (by cases h)⟩
    · cases h
      refine ⟨by rw [List.length_map, hlength, hrows], fun row hrow => ?_⟩
      rw [List.getElem_map]
      exact hresult row (by rwa [List.length_map] at hrow)
    · have hsame : (entries.map Prod.fst).length = results.length := by
        rw [List.length_map, hlength, hrows, hresults]
      refine congrArg Except.ok (List.ext_getElem hsame fun row hrow hrow' => ?_)
      have hthis := hall row hrow'
      rw [hresult row (by rwa [List.length_map] at hrow)] at hthis
      rw [List.getElem_map]
      exact Except.ok.inj hthis
    · refine ⟨by rw [hstates, List.length_map, hlength, hrows], fun row hrow => ?_⟩
      simp only [hstates, List.getElem_map]
      rw [hstates, List.length_map] at hrow
      have hlt : row < rows.length := hlength ▸ hrow
      exact (halone row hlt).2 _ (hsteps row hlt hrow)

theorem Pointwise.row {α : Type} {alone : ℕ → Except EngineError α × List MatcherStatus}
    {out : Except EngineError (List α) × Matcher × Memory} {results : List α} {row : ℕ}
    (h : matcher.Pointwise alone out) (hok : out.1 = .ok results)
    (hrow : row < matcher.states.length) :
    ∃ result status, results[row]? = some result ∧ out.2.1.states[row]? = some status ∧
      alone row = (.ok result, [status]) := by
  obtain ⟨hlength, hresults⟩ := (h.ok results).mp hok
  obtain ⟨hstates, hrows⟩ := h.rows results hok
  have hresult : row < results.length := hlength.symm ▸ hrow
  have hstatus : row < out.2.1.states.length := hstates.symm ▸ hrow
  exact ⟨_, _, List.getElem?_eq_getElem hresult, List.getElem?_eq_getElem hstatus,
    Prod.ext (hresults row hresult) (hrows row hstatus)⟩

/-! ## Rows alone -/

theorem Invariant.alone (hm : matcher.Invariant) {status : MatcherStatus}
    (hstatus : status ∈ matcher.states) (slot : MatcherStatus) (scratch : List ParserStateId) :
    (matcher.alone status slot scratch).Invariant := by
  refine ⟨hm.sound, rfl, fun status' hstatus' => ?_⟩
  rw [List.mem_singleton.mp hstatus']
  exact hm.rows status hstatus

theorem Invariant.alone_advance (hm : matcher.Invariant) {status : MatcherStatus}
    (hstatus : status ∈ matcher.states) (slot : MatcherStatus) (scratch : List ParserStateId)
    (token : TokenId) :
    ((matcher.alone status slot scratch).advance 0 token .granting).1 =
        (matcher.prepared.advanceRow status token).map Prod.fst ∧
      ∀ entry, matcher.prepared.advanceRow status token = .ok entry →
        ((matcher.alone status slot scratch).advance 0 token .granting).2.1.states = [entry.2] := by
  have hrow : (matcher.alone status slot scratch).states[0]? = some status := rfl
  obtain ⟨matcher', -, -, hadvance, hstates⟩ :=
    (hm.alone hstatus slot scratch).advance_granting hrow token
  rw [hadvance]
  refine ⟨rfl, fun entry hentry => ?_⟩
  have hsame : (matcher.alone status slot scratch).prepared.advanceRow status token = .ok entry :=
    hentry
  rw [hsame] at hstates
  exact hstates

/-- **`advance_batch`** follows the law of a batch. -/
theorem Invariant.advanceBatch_pointwise (hm : matcher.Invariant) (slot : MatcherStatus)
    (scratch : List ParserStateId) {tokens : List TokenId}
    (htokens : tokens.length = matcher.states.length) :
    matcher.Pointwise (matcher.advanceAlone slot scratch tokens)
      (matcher.advanceBatch tokens .granting) := by
  obtain ⟨matcher', -, -, hadvance, hstates⟩ := hm.advanceBatch_granting htokens
  have hlength : (matcher.states.zip tokens).length = matcher.states.length := by
    rw [List.length_zip, htokens, Nat.min_self]
  rw [hadvance]
  refine pointwise_of hlength (fun row hrow => ?_) (fun e he => ?_) (fun entries hentries => ?_)
  · have hstatus : row < matcher.states.length := hlength ▸ hrow
    have htoken : row < tokens.length := htokens.symm ▸ hstatus
    rw [List.getElem_zip]
    simp only [advanceAlone, List.getElem?_eq_getElem hstatus, List.getElem?_eq_getElem htoken]
    exact hm.alone_advance (List.getElem_mem hstatus) slot scratch tokens[row]
  · rw [hstates, PreparedGrammar.advanceRows, he]
  · rw [hstates, PreparedGrammar.advanceRows, hentries]

theorem Invariant.advanceActiveAlone_eq (hm : matcher.Invariant) (slot : MatcherStatus)
    (scratch : List ParserStateId) {tokens : List (Option TokenId)} {row : ℕ}
    (hstatus : row < matcher.states.length) (htoken : row < tokens.length) :
    (matcher.advanceActiveAlone slot scratch tokens row).1 =
        (matcher.prepared.advanceActiveRow false row matcher.states[row] tokens[row]).map Prod.fst ∧
      ∀ entry, matcher.prepared.advanceActiveRow false row matcher.states[row] tokens[row] =
        .ok entry → (matcher.advanceActiveAlone slot scratch tokens row).2 = [entry.2] := by
  have hmem := List.getElem_mem hstatus
  simp only [advanceActiveAlone, List.getElem?_eq_getElem hstatus,
    List.getElem?_eq_getElem htoken]
  cases tokens[row] with
  | some token =>
    obtain ⟨hreply, hrows⟩ := hm.alone_advance hmem slot scratch token
    rw [matcher.prepared.advanceActiveRow_some]
    dsimp only
    rw [hreply]
    refine ⟨?_, fun entry hentry => ?_⟩
    · cases matcher.prepared.advanceRow matcher.states[row] token <;> rfl
    · obtain ⟨entry', hentry', rfl⟩ := map_eq_ok.mp hentry
      exact hrows entry' hentry'
  | none =>
    cases hphase : matcher.states[row].phase with
    | accepted =>
      simp only [PreparedGrammar.advanceActiveRow, hphase]
      refine ⟨rfl, fun entry hentry => ?_⟩
      cases hentry
      exact congrArg (fun status => [status]) ((hm.rows _ hmem).eq_empty hphase)
    | running lexer =>
      simp only [PreparedGrammar.advanceActiveRow, hphase]
      exact ⟨rfl, fun entry hentry => by cases hentry⟩

/-- **`advance_active`** follows it too. -/
theorem Invariant.advanceActive_pointwise (hm : matcher.Invariant) (slot : MatcherStatus)
    (scratch : List ParserStateId) {tokens : List (Option TokenId)}
    (htokens : tokens.length = matcher.states.length) :
    matcher.Pointwise (matcher.advanceActiveAlone slot scratch tokens)
      (matcher.advanceActive tokens .granting) := by
  obtain ⟨matcher', -, -, hadvance, hstates⟩ := hm.advanceActive_granting htokens
  have hlength : (matcher.states.zip tokens).zipIdx.length = matcher.states.length := by
    rw [List.length_zipIdx, List.length_zip, htokens, Nat.min_self]
  rw [hadvance]
  refine pointwise_of hlength (fun row hrow => ?_) (fun e he => ?_) (fun entries hentries => ?_)
  · have hstatus : row < matcher.states.length := hlength ▸ hrow
    have htoken : row < tokens.length := htokens.symm ▸ hstatus
    rw [getElem_zip_zipIdx hrow hstatus htoken]
    exact hm.advanceActiveAlone_eq slot scratch hstatus htoken
  · rw [hstates, PreparedGrammar.advanceActiveRows, he]
  · rw [hstates, PreparedGrammar.advanceActiveRows, hentries]

theorem advanceAlone_congr {other : Matcher} (hprepared : other.prepared = matcher.prepared)
    {row : ℕ} {status : MatcherStatus} (hrow : matcher.states[row]? = some status)
    (hrow' : other.states[row]? = some status) (slot : MatcherStatus)
    (scratch : List ParserStateId) :
    (∀ (tokens tokens' : List TokenId) (token : TokenId), tokens[row]? = some token →
      tokens'[row]? = some token →
      other.advanceAlone slot scratch tokens' row = matcher.advanceAlone slot scratch tokens row) ∧
    ∀ (tokens tokens' : List (Option TokenId)) (token : Option TokenId),
      tokens[row]? = some token → tokens'[row]? = some token →
      other.advanceActiveAlone slot scratch tokens' row =
        matcher.advanceActiveAlone slot scratch tokens row := by
  constructor
  · intro tokens tokens' token htoken htoken'
    simp only [advanceAlone, hrow, hrow', htoken, htoken', alone, hprepared]
  · intro tokens tokens' token htoken htoken'
    cases token <;>
      simp only [advanceActiveAlone, hrow, hrow', htoken, htoken', alone, hprepared]

/-- Equal rows of two batches that succeed end equal. -/
theorem Pointwise.row_congr {α : Type}
    {alone alone' : ℕ → Except EngineError α × List MatcherStatus}
    {out out' : Except EngineError (List α) × Matcher × Memory} {other : Matcher}
    {results results' : List α} {row : ℕ} (h : matcher.Pointwise alone out)
    (h' : other.Pointwise alone' out') (hok : out.1 = .ok results) (hok' : out'.1 = .ok results')
    (hrow : row < matcher.states.length) (hrow' : row < other.states.length)
    (hsame : alone' row = alone row) :
    results[row]? = results'[row]? ∧ out.2.1.states[row]? = out'.2.1.states[row]? := by
  obtain ⟨result, status, hresult, hstatus, halone⟩ := h.row hok hrow
  obtain ⟨result', status', hresult', hstatus', halone'⟩ := h'.row hok' hrow'
  rw [halone', halone] at hsame
  cases hsame
  exact ⟨hresult.trans hresult'.symm, hstatus.trans hstatus'.symm⟩

/-- A batch of another length fails and changes nothing. -/
theorem advanceBatch_mismatch {tokens : List TokenId}
    (htokens : tokens.length ≠ matcher.states.length) :
    (matcher.advanceBatch tokens .granting).1 =
        .error (.batchSizeMismatch matcher.states.length tokens.length) ∧
      (matcher.advanceBatch tokens .granting).2.1.states = matcher.states := by
  simp only [advanceBatch, ne_eq, htokens, not_false_eq_true, if_true, and_self]

theorem advanceActive_mismatch {tokens : List (Option TokenId)}
    (htokens : tokens.length ≠ matcher.states.length) :
    (matcher.advanceActive tokens .granting).1 =
        .error (.batchSizeMismatch matcher.states.length tokens.length) ∧
      (matcher.advanceActive tokens .granting).2.1.states = matcher.states := by
  simp only [advanceActive, ne_eq, htokens, not_false_eq_true, if_true, and_self]

theorem length_of_advanceBatch {tokens : List TokenId} {results : List AdvanceResult}
    (h : (matcher.advanceBatch tokens .granting).1 = .ok results) :
    tokens.length = matcher.states.length := by
  by_contra htokens
  rw [(advanceBatch_mismatch htokens).1] at h
  cases h

theorem length_of_advanceActive {tokens : List (Option TokenId)}
    {results : List (Option AdvanceResult)}
    (h : (matcher.advanceActive tokens .granting).1 = .ok results) :
    tokens.length = matcher.states.length := by
  by_contra htokens
  rw [(advanceActive_mismatch htokens).1] at h
  cases h

/-- **Batch advancement is the atomic pointwise lifting of single-row advancement.**
Whatever is left in the buffers of the single rows, `advance_batch` follows the law of a
batch, and so does `advance_active`, in which an accepted row must have no token and a
running row must have one.  A batch of another length fails and changes nothing.  Hence
rows do not influence one another: equal rows with equal tokens end equal, whatever the
rest of the batch is. -/
theorem batches_pointwise (h : matcher.Reachable) (slot : MatcherStatus)
    (scratch : List ParserStateId) :
    (∀ tokens, tokens.length = matcher.states.length →
      matcher.Pointwise (matcher.advanceAlone slot scratch tokens)
        (matcher.advanceBatch tokens .granting)) ∧
    (∀ tokens, tokens.length = matcher.states.length →
      matcher.Pointwise (matcher.advanceActiveAlone slot scratch tokens)
        (matcher.advanceActive tokens .granting) ∧
      ∀ (row : ℕ) (status : MatcherStatus) (token : TokenId), matcher.states[row]? = some status →
        status.phase = .accepted → tokens[row]? = some (some token) →
        (matcher.advanceActiveAlone slot scratch tokens row).1 = .error .completed) ∧
    (∀ tokens, tokens.length ≠ matcher.states.length →
      (matcher.advanceBatch tokens .granting).1 =
        .error (.batchSizeMismatch matcher.states.length tokens.length) ∧
      (matcher.advanceBatch tokens .granting).2.1.states = matcher.states) ∧
    (∀ tokens, tokens.length ≠ matcher.states.length →
      (matcher.advanceActive tokens .granting).1 =
        .error (.batchSizeMismatch matcher.states.length tokens.length) ∧
      (matcher.advanceActive tokens .granting).2.1.states = matcher.states) ∧
    ∀ other : Matcher, other.Reachable → other.prepared = matcher.prepared →
      ∀ (row : ℕ) (status : MatcherStatus), matcher.states[row]? = some status →
        other.states[row]? = some status →
        (∀ tokens tokens' results results' token, tokens[row]? = some token →
          tokens'[row]? = some token →
          (matcher.advanceBatch tokens .granting).1 = .ok results →
          (other.advanceBatch tokens' .granting).1 = .ok results' →
          results[row]? = results'[row]? ∧
            (matcher.advanceBatch tokens .granting).2.1.states[row]? =
              (other.advanceBatch tokens' .granting).2.1.states[row]?) ∧
        ∀ tokens tokens' results results' token, tokens[row]? = some token →
          tokens'[row]? = some token →
          (matcher.advanceActive tokens .granting).1 = .ok results →
          (other.advanceActive tokens' .granting).1 = .ok results' →
          results[row]? = results'[row]? ∧
            (matcher.advanceActive tokens .granting).2.1.states[row]? =
              (other.advanceActive tokens' .granting).2.1.states[row]? := by
  have hm := h.invariant
  refine ⟨fun tokens htokens => hm.advanceBatch_pointwise slot scratch htokens,
    fun tokens htokens => ⟨hm.advanceActive_pointwise slot scratch htokens, ?_⟩,
    fun tokens => advanceBatch_mismatch, fun tokens => advanceActive_mismatch, ?_⟩
  · intro row status token hrow hphase htoken
    obtain ⟨hreply, -⟩ := hm.alone_advance (List.mem_of_getElem? hrow) slot scratch token
    simp only [advanceActiveAlone, hrow, htoken, hreply, PreparedGrammar.advanceRow, hphase]
    rfl
  · intro other hother hprepared row status hrow hrow'
    obtain ⟨hbatch, hactive⟩ := advanceAlone_congr hprepared hrow hrow' slot scratch
    obtain ⟨hlt, -⟩ := List.getElem?_eq_some_iff.mp hrow
    obtain ⟨hlt', -⟩ := List.getElem?_eq_some_iff.mp hrow'
    constructor
    · intro tokens tokens' results results' token htoken htoken' hok hok'
      exact (hm.advanceBatch_pointwise slot scratch (length_of_advanceBatch hok)).row_congr
        (hother.invariant.advanceBatch_pointwise slot scratch (length_of_advanceBatch hok'))
        hok hok' hlt hlt' (hbatch tokens tokens' token htoken htoken')
    · intro tokens tokens' results results' token htoken htoken' hok hok'
      exact (hm.advanceActive_pointwise slot scratch (length_of_advanceActive hok)).row_congr
        (hother.invariant.advanceActive_pointwise slot scratch (length_of_advanceActive hok'))
        hok hok' hlt hlt' (hactive tokens tokens' token htoken htoken')

/-- A batch in which the second row has no token to take, with leftovers everywhere. -/
theorem batches_pointwise_reusableStack :
    reusableStackMatcher.Pointwise (reusableStackMatcher.advanceAlone .empty [7] [0, 1])
        (reusableStackMatcher.advanceBatch [0, 1] .granting) ∧
      reusableStackMatcher.Pointwise
        (reusableStackMatcher.advanceActiveAlone .empty [7] [some 0, none])
        (reusableStackMatcher.advanceActive [some 0, none] .granting) :=
  have h := batches_pointwise reusableStackMatcher_reachable .empty [7]
  ⟨h.1 [0, 1] rfl, (h.2.1 [some 0, none] rfl).1⟩

end Matcher
end GreatGramma
