import GreatGramma.Engine.RowExecution

/-!
# Staging rows and writing their masks

The loops of the matcher over its rows.  There are two: one computes the successors of the rows,
and the other writes masks.  Both write into memory that is kept from call to call, and both end
at the first row that fails.

## Slots

A transition is written into the staging slots from the first row on, so after some rows the slots
hold the successors of these rows, and leftovers behind them (`Staged`).  The stack of a slot is
recycled: the successor is written over whatever stack the slot held.  The loop never reads what it
has not written, and that is why a finished staging pass is the list of the successors
(`Staged.eq`), whatever the slots held before.

The three loops that stage rows differ in which rows take a token and in whether they keep a
vector of results.  What each leaves is the same statement over other arguments (`StagedResults`,
`StagedResults.push`).

## Slices

The masks are written into the slices of one buffer, so after some rows the buffer holds their
masks, and zeros behind them.  An accepted row has no mask and leaves its slice as it is, which is
zeros (`packMasks_blank`).  A row is filled into the slice that is cut out of the buffer and put
back; the two lemmas about this (`packMasks_slice`, `packMasks_concat`) are all that the loops use
of where a slice is.
-/

namespace GreatGramma

open Reservation ShiftReduce Traversal

/-! ## Successors of valid rows

Row by row, before the loops: a row that takes a token is a row of the tables again. -/

namespace PreparedGrammar

variable {prepared : PreparedGrammar}

theorem Sound.rowAfter_valid (hsound : prepared.Sound) {lexer : LexerState}
    {stack : List ParserStateId} {token : TokenId} {status : MatcherStatus}
    (hlexer : lexer.Valid prepared.grammar.lexer) (hstack : prepared.grammar.lalr.ValidStack stack)
    (h : prepared.rowAfter lexer stack token = .ok (some status)) :
    status.Valid prepared.grammar := by
  unfold rowAfter at h
  cases heffect : prepared.effectOf lexer token with
  | none =>
    rw [heffect] at h
    cases h
  | some execution =>
    rw [heffect] at h
    cases execution with
    | «continue» lexer' emitted =>
      obtain ⟨allowed, hallowed, hstatus⟩ := map_eq_ok.mp h
      cases allowed with
      | false => cases hstatus
      | true =>
        cases hstatus
        have hlive := hsound.parse_of_tokenAnswer hlexer hstack heffect hallowed
        rcases effectOf_cases heffect with ⟨_, _, _, -, hrun, heq⟩ | ⟨_, _, _, heq⟩ <;> cases heq
        exact ⟨ValidatedGrammar.scanner_run_valid hlexer hrun, hstack.parse hlive⟩
    | finished emitted eof =>
      obtain ⟨accepted, -, hstatus⟩ := map_eq_ok.mp h
      cases accepted with
      | false => cases hstatus
      | true =>
        cases hstatus
        rfl

/-- **Advancing keeps rows valid.** -/
theorem Sound.advanceRow_valid (hsound : prepared.Sound) {status status' : MatcherStatus}
    {token : TokenId} {result : AdvanceResult} (hstatus : status.Valid prepared.grammar)
    (h : prepared.advanceRow status token = .ok (result, status')) :
    status'.Valid prepared.grammar := by
  obtain ⟨phase, stack⟩ := status
  cases phase with
  | accepted => cases h
  | running lexer =>
    obtain ⟨hlexer, hstack⟩ := hstatus
    simp only [advanceRow] at h
    split_ifs at h with htoken
    split at h <;> try contradiction
    rename_i hrow
    cases h
    exact hsound.rowAfter_valid hlexer hstack hrow

theorem Sound.advanceActiveRow_valid (hsound : prepared.Sound) {status status' : MatcherStatus}
    {token : Option TokenId} {reportRejectedRow : Bool} {row : ℕ} {result : Option AdvanceResult}
    (hstatus : status.Valid prepared.grammar)
    (h : prepared.advanceActiveRow reportRejectedRow row status token = .ok (result, status')) :
    status'.Valid prepared.grammar := by
  unfold advanceActiveRow at h
  split at h
  · cases h
    rfl
  · cases h
  · cases h
  · split at h
    · rename_i hadvance
      cases h
      exact hsound.advanceRow_valid hstatus hadvance
    · split_ifs at h
    · cases h

end PreparedGrammar

/-! ## Staging -/

/-- The first slots hold these rows. -/
def Staged (rows : ℕ) (written : List MatcherStatus) (slots : List MatcherStatus) : Prop :=
  slots.length = rows ∧ slots.take written.length = written

/-- Writing the next slot. -/
theorem Staged.set {rows : ℕ} {written slots : List MatcherStatus}
    (h : Staged rows written slots) (hrow : written.length < rows) (status : MatcherStatus) :
    Staged rows (written ++ [status]) (slots.set written.length status) := by
  obtain ⟨hlength, htake⟩ := h
  have hslot : written.length < (slots.set written.length status).length := by
    rw [List.length_set, hlength]
    exact hrow
  refine ⟨by rw [List.length_set, hlength], ?_⟩
  rw [List.length_append, List.length_singleton, List.take_succ_eq_append_getElem hslot,
    List.take_set_of_le (Nat.le_refl _), htake, List.getElem_set_self]

/-- **A finished pass leaves nothing of what the slots held.** -/
theorem Staged.eq {rows : ℕ} {written slots : List MatcherStatus} (h : Staged rows written slots)
    (hrows : written.length = rows) : slots = written := by
  obtain ⟨hlength, htake⟩ := h
  rw [← htake, List.take_of_length_le (by omega)]

section
variable {prepared : PreparedGrammar}

variable (prepared) in
theorem nextStatusAt_length (status : MatcherStatus) (row : ℕ) (token : TokenId)
    (staging : Staging) :
    (nextStatusAt prepared status row token staging).2.rows.length = staging.rows.length := by
  unfold nextStatusAt
  split
  · rfl
  · exact List.length_set

theorem nextStatusAt_settles (hsound : prepared.Sound) {status : MatcherStatus} {row : ℕ}
    (staging : Staging) (hstatus : status.Valid prepared.grammar)
    (hrow : row < staging.rows.length) (token : TokenId) :
    Settles staging
      (fun reply written => match prepared.advanceRow status token with
        | .error e => reply = .error e
        | .ok (result, status') =>
          reply = .ok result ∧ written.rows = staging.rows.set row status')
      (nextStatusAt prepared status row token staging) := by
  have hnext := hsound.nextStatusInto_settles hstatus token (staging.rows[row], staging.memory)
  simp only [nextStatusAt, List.getElem?_eq_getElem hrow]
  generalize prepared.nextStatusInto status token (staging.rows[row], staging.memory) = out at hnext
  cases hnext with
  | refused hs he => exact .refused hs he
  | @done reply written h hs =>
    refine .done ?_ hs
    cases hadvance : prepared.advanceRow status token with
    | error e =>
      rw [hadvance] at h
      exact h
    | ok out =>
      rw [hadvance] at h
      obtain ⟨hreply, hwritten⟩ := h
      exact ⟨hreply, by rw [← hwritten]⟩

/-- What a pass leaves when it ends: the results, and the successors in the slots. -/
def StagedResults {α : Type} (rows : ℕ) (successors : List (α × MatcherStatus))
    (staged : List α × Staging) : Prop :=
  staged.1 = successors.map Prod.fst ∧ Staged rows (successors.map Prod.snd) staged.2.rows

/-- One more row. -/
theorem StagedResults.push {α : Type} {rows : ℕ} {successors : List (α × MatcherStatus)}
    {results : List α} {staging written : Staging} {entry : α × MatcherStatus}
    (h : StagedResults rows successors (results, staging)) (hrow : successors.length < rows)
    (hwritten : written.rows = staging.rows.set successors.length entry.2) :
    StagedResults rows (successors ++ [entry]) (results ++ [entry.1], written) := by
  obtain ⟨hresults, hslots⟩ := h
  constructor
  · rw [List.map_append, List.map_singleton, ← hresults]
  · have hset := hslots.set (by rwa [List.length_map]) entry.2
    rw [List.length_map, ← hwritten] at hset
    rw [List.map_append]
    exact hset

variable (prepared) in
theorem stageBatchRow_length (states : List MatcherStatus) (tokens : List TokenId) (row : ℕ)
    (staged : List AdvanceResult × Staging) :
    (stageBatchRow prepared states tokens row staged).2.2.rows.length =
      staged.2.rows.length := by
  unfold stageBatchRow
  cases tokens[row]? with
  | none => rfl
  | some token =>
    cases states[row]? with
    | none => rfl
    | some status =>
      have hnext := nextStatusAt_length prepared status row token staged.2
      dsimp only
      split <;> rename_i hout <;> rw [hout] at hnext <;> exact hnext

variable (prepared) in
theorem scan_stageBatchRow_length (states : List MatcherStatus) (tokens : List TokenId) (n : ℕ)
    (staged : List AdvanceResult × Staging) :
    (scan n (stageBatchRow prepared states tokens) staged).2.2.rows.length =
      staged.2.rows.length :=
  scan_keeps
    (P := fun (s : List AdvanceResult × Staging) => s.2.rows.length = staged.2.rows.length)
    (fun row s hs => (stageBatchRow_length prepared states tokens row s).trans hs) n rfl

variable (prepared) in
theorem stageBatch_length (states : List MatcherStatus) (tokens : List TokenId)
    (staged : List AdvanceResult × Staging) :
    (stageBatch prepared states tokens staged).2.2.rows.length = staged.2.rows.length :=
  scan_stageBatchRow_length prepared states tokens states.length staged

/-- **Staging a batch** is advancing its rows. -/
theorem stageBatch_settles (hsound : prepared.Sound) {states : List MatcherStatus}
    {tokens : List TokenId} (staging : Staging)
    (hstates : ∀ status ∈ states, status.Valid prepared.grammar)
    (htokens : tokens.length = states.length) (hstaging : staging.rows.length = states.length) :
    Settles (([], staging) : List AdvanceResult × Staging)
      (Mirrors (StagedResults states.length) (fun _ => True) (prepared.advanceRows states tokens))
      (stageBatch prepared states tokens ([], staging)) := by
  have hlength : (states.zip tokens).length = states.length := by
    rw [List.length_zip, htokens, Nat.min_self]
  refine scan_mapM hlength (fun entry => prepared.advanceRow entry.1 entry.2)
    (StagedResults states.length) (fun _ => True) ([], staging) ⟨rfl, hstaging, rfl⟩ ?_
  rintro i hi rows ⟨results, slots⟩ rfl hstaged
  have hstate : rows.length < states.length := hlength ▸ hi
  have htoken : rows.length < tokens.length := htokens ▸ hstate
  have hslots : slots.rows.length = states.length := hstaged.2.1
  have hnext := nextStatusAt_settles hsound slots (hstates _ (List.getElem_mem hstate))
    (hslots.symm ▸ hstate) tokens[rows.length]
  simp only [stageBatchRow, List.getElem?_eq_getElem htoken, List.getElem?_eq_getElem hstate,
    List.getElem_zip]
  generalize nextStatusAt prepared states[rows.length] rows.length tokens[rows.length] slots = out
    at hnext
  cases hnext with
  | refused hs he => exact .refused hs he
  | @done reply written h hs =>
    cases hadvance : prepared.advanceRow states[rows.length] tokens[rows.length] with
    | error e =>
      rw [hadvance] at h
      subst h
      exact .done ⟨rfl, trivial⟩ hs
    | ok entry =>
      rw [hadvance] at h
      obtain ⟨rfl, hwritten⟩ := h
      exact .done ⟨rfl, hstaged.push hstate hwritten⟩ hs

variable (prepared) in
theorem stageActiveRow_length (states : List MatcherStatus) (tokens : List (Option TokenId))
    (reportRejectedRow : Bool) (row : ℕ) (staging : Staging) :
    (stageActiveRow prepared states tokens reportRejectedRow row staging).2.rows.length =
      staging.rows.length := by
  unfold stageActiveRow
  cases states[row]? with
  | none => rfl
  | some status =>
    cases tokens[row]? with
    | none => rfl
    | some token =>
      dsimp only
      cases status.phase with
      | accepted =>
        cases token with
        | some token => rfl
        | none =>
          unfold setStagingAccepted
          cases staging.rows[row]? with
          | none => rfl
          | some destination => exact List.length_set
      | running lexer =>
        cases token with
        | none => rfl
        | some token =>
          have hnext := nextStatusAt_length prepared status row token staging
          dsimp only
          generalize nextStatusAt prepared status row token staging = out at hnext
          obtain ⟨reply, written⟩ := out
          cases reply with
          | ok result => exact hnext
          | error e =>
            cases e with
            | constraintViolation rejected => cases reportRejectedRow <;> exact hnext
            | _ => exact hnext

theorem stageActiveRow_settles (hsound : prepared.Sound) {states : List MatcherStatus}
    {tokens : List (Option TokenId)} (staging : Staging) {row : ℕ}
    (hstates : ∀ status ∈ states, status.Valid prepared.grammar)
    (hstate : row < states.length) (htoken : row < tokens.length)
    (hrow : row < staging.rows.length) (reportRejectedRow : Bool) :
    Settles staging
      (fun reply written =>
        match prepared.advanceActiveRow reportRejectedRow row states[row] tokens[row] with
        | .error e => reply = .error e
        | .ok (result, status') =>
          reply = .ok result ∧ written.rows = staging.rows.set row status')
      (stageActiveRow prepared states tokens reportRejectedRow row staging) := by
  have hnext := nextStatusAt_settles hsound staging (hstates _ (List.getElem_mem hstate)) hrow
  unfold stageActiveRow PreparedGrammar.advanceActiveRow
  rw [List.getElem?_eq_getElem hstate, List.getElem?_eq_getElem htoken]
  dsimp only
  cases hphase : states[row].phase with
  | accepted =>
    cases tokens[row] with
    | some token => exact .here rfl
    | none =>
      simp only [setStagingAccepted, List.getElem?_eq_getElem hrow]
      exact .done ⟨rfl, rfl⟩ (.refl _)
  | running lexer =>
    cases tokens[row] with
    | none => exact .here rfl
    | some token =>
      have hone := hnext token
      dsimp only
      generalize nextStatusAt prepared states[row] row token staging = out at hone
      cases hone with
      | refused hs he =>
        obtain ⟨requested, rfl⟩ := he
        exact .refused hs ⟨requested, rfl⟩
      | @done reply written h hs =>
        cases hadvance : prepared.advanceRow states[row] token with
        | ok entry =>
          rw [hadvance] at h
          obtain ⟨rfl, hwritten⟩ := h
          exact .done ⟨rfl, hwritten⟩ hs
        | error e =>
          rw [hadvance] at h
          subst h
          cases e with
          | constraintViolation rejected => cases reportRejectedRow <;> exact .done rfl hs
          | _ => exact .done rfl hs

/-- The rows of a batch in which accepted rows have no token, one by one. -/
theorem getElem_zip_zipIdx {states : List MatcherStatus} {tokens : List (Option TokenId)} {i : ℕ}
    (hi : i < (states.zip tokens).zipIdx.length) (hstate : i < states.length)
    (htoken : i < tokens.length) :
    (states.zip tokens).zipIdx[i] = ((states[i], tokens[i]), i) := by
  rw [List.getElem_zipIdx, List.getElem_zip, Nat.zero_add]

variable (prepared) in
theorem scan_stageActiveRowWithResult_length (states : List MatcherStatus)
    (tokens : List (Option TokenId)) (reportRejectedRow : Bool) (n : ℕ)
    (staged : List (Option AdvanceResult) × Staging) :
    (scan n (stageActiveRowWithResult prepared states tokens reportRejectedRow)
      staged).2.2.rows.length = staged.2.rows.length := by
  refine scan_keeps
    (P := fun (s : List (Option AdvanceResult) × Staging) =>
      s.2.rows.length = staged.2.rows.length) ?_ n rfl
  rintro row ⟨results, slots⟩ hslots
  have hone := stageActiveRow_length prepared states tokens reportRejectedRow row slots
  unfold stageActiveRowWithResult
  split <;> rename_i hout <;> rw [hout] at hone <;> exact hone.trans hslots

variable (prepared) in
theorem stageActiveWithResults_length (states : List MatcherStatus)
    (tokens : List (Option TokenId)) (reportRejectedRow : Bool)
    (staged : List (Option AdvanceResult) × Staging) :
    (stageActiveWithResults prepared states tokens reportRejectedRow staged).2.2.rows.length =
      staged.2.rows.length :=
  scan_stageActiveRowWithResult_length prepared states tokens reportRejectedRow states.length
    staged

variable (prepared) in
theorem scan_stageActiveRowWithoutResult_length (states : List MatcherStatus)
    (tokens : List (Option TokenId)) (reportRejectedRow : Bool) (n : ℕ) (staging : Staging) :
    (scan n (stageActiveRowWithoutResult prepared states tokens reportRejectedRow)
      staging).2.rows.length = staging.rows.length := by
  refine scan_keeps (P := fun (s : Staging) => s.rows.length = staging.rows.length) ?_ n rfl
  intro row slots hslots
  have hone := stageActiveRow_length prepared states tokens reportRejectedRow row slots
  unfold stageActiveRowWithoutResult
  split <;> rename_i hout <;> rw [hout] at hone <;> exact hone.trans hslots

variable (prepared) in
theorem stageActiveWithoutResults_length (states : List MatcherStatus)
    (tokens : List (Option TokenId)) (reportRejectedRow : Bool) (staging : Staging) :
    (stageActiveWithoutResults prepared states tokens reportRejectedRow staging).2.rows.length =
      staging.rows.length :=
  scan_stageActiveRowWithoutResult_length prepared states tokens reportRejectedRow states.length
    staging

/-- **Staging the running rows**, with a vector of results. -/
theorem stageActiveWithResults_settles (hsound : prepared.Sound) {states : List MatcherStatus}
    {tokens : List (Option TokenId)} (staging : Staging) (reportRejectedRow : Bool)
    (hstates : ∀ status ∈ states, status.Valid prepared.grammar)
    (htokens : tokens.length = states.length) (hstaging : staging.rows.length = states.length) :
    Settles (([], staging) : List (Option AdvanceResult) × Staging)
      (Mirrors (StagedResults states.length) (fun _ => True)
        (prepared.advanceActiveRows reportRejectedRow states tokens))
      (stageActiveWithResults prepared states tokens reportRejectedRow ([], staging)) := by
  have hlength : (states.zip tokens).zipIdx.length = states.length := by
    rw [List.length_zipIdx, List.length_zip, htokens, Nat.min_self]
  refine scan_mapM hlength
    (fun entry => prepared.advanceActiveRow reportRejectedRow entry.2 entry.1.1 entry.1.2)
    (StagedResults states.length) (fun _ => True) ([], staging) ⟨rfl, hstaging, rfl⟩ ?_
  rintro i hi rows ⟨results, slots⟩ rfl hstaged
  have hstate : rows.length < states.length := hlength ▸ hi
  have htoken : rows.length < tokens.length := htokens ▸ hstate
  have hslots : slots.rows.length = states.length := hstaged.2.1
  have hone := stageActiveRow_settles hsound slots hstates hstate htoken
    (hslots.symm ▸ hstate) reportRejectedRow
  rw [getElem_zip_zipIdx hi hstate htoken]
  simp only [stageActiveRowWithResult]
  generalize stageActiveRow prepared states tokens reportRejectedRow rows.length slots = out
    at hone
  cases hone with
  | refused hs he => exact .refused hs he
  | @done reply written h hs =>
    cases hadvance : prepared.advanceActiveRow reportRejectedRow rows.length states[rows.length]
        tokens[rows.length] with
    | error e =>
      rw [hadvance] at h
      subst h
      exact .done ⟨rfl, trivial⟩ hs
    | ok entry =>
      rw [hadvance] at h
      obtain ⟨rfl, hwritten⟩ := h
      exact .done ⟨rfl, hstaged.push hstate hwritten⟩ hs

/-- **Staging the running rows**, without one. -/
theorem stageActiveWithoutResults_settles (hsound : prepared.Sound) {states : List MatcherStatus}
    {tokens : List (Option TokenId)} (staging : Staging) (reportRejectedRow : Bool)
    (hstates : ∀ status ∈ states, status.Valid prepared.grammar)
    (htokens : tokens.length = states.length) (hstaging : staging.rows.length = states.length) :
    Settles staging
      (Mirrors (fun successors staged =>
          Staged states.length (successors.map Prod.snd) staged.rows)
        (fun _ => True) (prepared.advanceActiveRows reportRejectedRow states tokens))
      (stageActiveWithoutResults prepared states tokens reportRejectedRow staging) := by
  have hlength : (states.zip tokens).zipIdx.length = states.length := by
    rw [List.length_zipIdx, List.length_zip, htokens, Nat.min_self]
  refine scan_mapM hlength
    (fun entry => prepared.advanceActiveRow reportRejectedRow entry.2 entry.1.1 entry.1.2)
    (fun successors staged => Staged states.length (successors.map Prod.snd) staged.rows)
    (fun _ => True) staging ⟨hstaging, rfl⟩ ?_
  rintro i hi rows slots rfl hstaged
  have hstate : rows.length < states.length := hlength ▸ hi
  have htoken : rows.length < tokens.length := htokens ▸ hstate
  have hone := stageActiveRow_settles hsound slots hstates hstate htoken
    (hstaged.1.symm ▸ hstate) reportRejectedRow
  rw [getElem_zip_zipIdx hi hstate htoken]
  simp only [stageActiveRowWithoutResult]
  generalize stageActiveRow prepared states tokens reportRejectedRow rows.length slots = out
    at hone
  cases hone with
  | refused hs he => exact .refused hs he
  | @done reply written h hs =>
    cases hadvance : prepared.advanceActiveRow reportRejectedRow rows.length states[rows.length]
        tokens[rows.length] with
    | error e =>
      rw [hadvance] at h
      subst h
      exact .done ⟨rfl, trivial⟩ hs
    | ok entry =>
      rw [hadvance] at h
      obtain ⟨rfl, hwritten⟩ := h
      have hnext : StagedResults states.length (rows ++ [entry]) (_, written) :=
        StagedResults.push ⟨rfl, hstaged⟩ hstate hwritten
      exact .done ⟨rfl, hnext.2⟩ hs

end

/-! ## Masks of rows

Lengths first, since a buffer of the wrong size is refused before anything is written. -/

namespace PreparedGrammar

variable {prepared : PreparedGrammar}

@[simp] theorem length_packMask (length : ℕ) (tokens : List TokenId) :
    (packMask length tokens).length = length := by
  rw [packMask, PackedBits.length_foldl_insert, List.length_replicate]

theorem length_packed (masks : List (List TokenId)) :
    ((masks.map (packMask prepared.maskBytes)).flatten).length =
      masks.length * prepared.maskBytes := by
  induction masks with
  | nil => rw [List.map_nil, List.flatten_nil, List.length_nil, List.length_nil, Nat.zero_mul]
  | cons tokens masks ih =>
    rw [List.map_cons, List.flatten_cons, List.length_append, length_packMask, ih,
      List.length_cons, Nat.succ_mul, Nat.add_comm]

theorem length_packMasks {length : ℕ} {masks : List (List TokenId)}
    (h : masks.length * prepared.maskBytes ≤ length) :
    (prepared.packMasks length masks).length = length := by
  rw [packMasks, List.length_append, length_packed, List.length_replicate,
    Nat.add_sub_cancel' h]

theorem packMasks_nil (length : ℕ) : prepared.packMasks length [] = List.replicate length 0 := by
  rw [packMasks, List.map_nil, List.flatten_nil, List.nil_append, List.length_nil, Nat.zero_mul,
    Nat.sub_zero]

/-- **The slice of the next row**, cut out of the buffer. -/
theorem packMasks_slice {length : ℕ} {masks : List (List TokenId)}
    (h : masks.length * prepared.maskBytes + prepared.maskBytes ≤ length) :
    ((prepared.packMasks length masks).take
      (masks.length * prepared.maskBytes + prepared.maskBytes)).drop
        (masks.length * prepared.maskBytes) = List.replicate prepared.maskBytes 0 := by
  have hroom : prepared.maskBytes ≤ length - masks.length * prepared.maskBytes := by omega
  rw [packMasks, ← length_packed, List.take_length_add_append, List.drop_left, List.take_replicate,
    length_packed, Nat.min_eq_left hroom]

/-- **The slice of the next row**, put back. -/
theorem packMasks_concat (length : ℕ) (masks : List (List TokenId)) (tokens : List TokenId) :
    prepared.packMasks length (masks ++ [tokens]) =
      (prepared.packMasks length masks).take (masks.length * prepared.maskBytes) ++
        packMask prepared.maskBytes tokens ++
        (prepared.packMasks length masks).drop
          (masks.length * prepared.maskBytes + prepared.maskBytes) := by
  have hrest : length - (masks.length + 1) * prepared.maskBytes =
      length - masks.length * prepared.maskBytes - prepared.maskBytes := by
    rw [Nat.succ_mul]
    omega
  unfold packMasks
  rw [List.map_append, List.flatten_append, List.length_append, List.length_singleton, hrest,
    List.map_singleton, List.flatten_singleton, ← length_packed masks, List.take_left,
    List.drop_length_add_append, List.drop_replicate]

/-- A row without a mask leaves its slice as it is. -/
theorem packMasks_blank {length : ℕ} {masks : List (List TokenId)}
    (h : masks.length * prepared.maskBytes + prepared.maskBytes ≤ length) :
    prepared.packMasks length (masks ++ [[]]) = prepared.packMasks length masks := by
  have htake : (prepared.packMasks length masks).take (masks.length * prepared.maskBytes) =
      ((prepared.packMasks length masks).take
        (masks.length * prepared.maskBytes + prepared.maskBytes)).take
          (masks.length * prepared.maskBytes) := by
    rw [List.take_take, Nat.min_eq_left (Nat.le_add_right _ _)]
  rw [packMasks_concat, packMask, List.foldl_nil, ← packMasks_slice h, htake,
    List.take_append_drop, List.take_append_drop]

/-- **The mask of the next row**, written into its slice. -/
theorem fillRowSlice_settles (hsound : prepared.Sound) {status : MatcherStatus} {rows length : ℕ}
    {masks : List (List TokenId)} {buffers : MaskBuffers}
    (hstatus : status.Valid prepared.grammar) (hrow : masks.length < rows)
    (hfit : rows * prepared.maskBytes ≤ usizeMax) (hlength : rows * prepared.maskBytes ≤ length)
    (hbuffers : buffers.output = prepared.packMasks length masks) :
    Settles buffers
      (Mirrors
        (fun tokens written => written.output = prepared.packMasks length (masks ++ [tokens]))
        (fun written => written.output.length = length)
        (prepared.maskRow prepared.maskBytes status))
      (fillRowSlice prepared status masks.length buffers) := by
  have hstop : masks.length * prepared.maskBytes + prepared.maskBytes ≤
      rows * prepared.maskBytes := by
    rw [← Nat.succ_mul]
    exact Nat.mul_le_mul_right _ hrow
  have hroom := Nat.le_trans hstop hlength
  have hmul : checkedMul masks.length prepared.maskBytes =
      some (masks.length * prepared.maskBytes) := checkedMul_eq_some.mpr ⟨by omega, rfl⟩
  have hadd : checkedAdd (masks.length * prepared.maskBytes) prepared.maskBytes =
      some (masks.length * prepared.maskBytes + prepared.maskBytes) :=
    checkedAdd_eq_some.mpr ⟨by omega, rfl⟩
  have houtput : buffers.output.length = length := by
    rw [hbuffers, length_packMasks (by omega)]
  have hmask := hsound.fillMaskWithScratch_settles hstatus
    ⟨List.replicate prepared.maskBytes 0, buffers.scratch⟩
  rw [List.length_replicate] at hmask
  simp only [fillRowSlice, hmul, hadd, gt_iff_lt, houtput, if_neg (Nat.not_lt.mpr hroom)]
  simp only [hbuffers, packMasks_slice hroom]
  generalize prepared.fillMaskWithScratch status
    ⟨List.replicate prepared.maskBytes 0, buffers.scratch⟩ = out at hmask
  cases hmask with
  | refused hs he => exact .refused hs he
  | @done reply written h hs =>
    obtain ⟨hwritten, hreply⟩ := h
    refine .done ?_ hs
    cases hrow : prepared.maskRow prepared.maskBytes status with
    | error e =>
      rw [hrow] at hreply
      refine ⟨hreply, ?_⟩
      dsimp only
      rw [List.length_append, List.length_append, hwritten, List.length_take, List.length_drop,
        length_packMasks (by omega)]
      omega
    | ok tokens =>
      rw [hrow] at hreply
      obtain ⟨rfl, houtput'⟩ := hreply
      refine ⟨rfl, ?_⟩
      dsimp only
      rw [packMasks_concat, houtput', packMask]

/-- **The masks of all rows.** -/
theorem fillAllMasks_settles (hsound : prepared.Sound) {states : List MatcherStatus} {length : ℕ}
    (buffers : MaskBuffers) (hstates : ∀ status ∈ states, status.Valid prepared.grammar)
    (hfit : states.length * prepared.maskBytes ≤ usizeMax)
    (hlength : states.length * prepared.maskBytes ≤ length)
    (hbuffers : buffers.output = List.replicate length 0) :
    Settles buffers
      (Mirrors (fun masks written => written.output = prepared.packMasks length masks)
        (fun written => written.output.length = length)
        (states.mapM (prepared.maskRow prepared.maskBytes)))
      (fillAllMasks prepared states buffers) := by
  refine scan_mapM rfl (prepared.maskRow prepared.maskBytes)
    (fun masks written => written.output = prepared.packMasks length masks)
    (fun written => written.output.length = length) buffers
    (hbuffers.trans (packMasks_nil length).symm) ?_
  rintro i hi masks written rfl hmasks
  simp only [fillMaskRow, List.getElem?_eq_getElem hi]
  exact fillRowSlice_settles hsound (hstates _ (List.getElem_mem hi)) hi hfit hlength hmasks

/-- **The masks of all successor rows.** -/
theorem fillStagedMasks_settles (hsound : prepared.Sound) {staging : List MatcherStatus}
    {length : ℕ} (buffers : MaskBuffers)
    (hstaging : ∀ status ∈ staging, status.Valid prepared.grammar)
    (hfit : staging.length * prepared.maskBytes ≤ usizeMax)
    (hlength : staging.length * prepared.maskBytes ≤ length)
    (hbuffers : buffers.output = List.replicate length 0) :
    Settles buffers
      (Mirrors (fun masks written => written.output = prepared.packMasks length masks)
        (fun written => written.output.length = length) (staging.mapM prepared.successorMask))
      (fillStagedMasks prepared staging buffers) := by
  refine scan_mapM rfl prepared.successorMask
    (fun masks written => written.output = prepared.packMasks length masks)
    (fun written => written.output.length = length) buffers
    (hbuffers.trans (packMasks_nil length).symm) ?_
  rintro i hi masks written rfl hmasks
  simp only [fillStagedMaskRow, List.getElem?_eq_getElem hi, successorMask]
  cases hphase : staging[masks.length].phase with
  | running lexer =>
    exact fillRowSlice_settles hsound (hstaging _ (List.getElem_mem hi)) hi hfit hlength hmasks
  | accepted =>
    have hslice : masks.length * prepared.maskBytes + prepared.maskBytes ≤ length := by
      rw [← Nat.succ_mul]
      exact Nat.le_trans (Nat.mul_le_mul_right _ hi) hlength
    exact .here ⟨rfl, hmasks.trans (packMasks_blank hslice).symm⟩

end PreparedGrammar
end GreatGramma
