import GreatGramma.Engine.Staging

/-!
# What a call can do to the rows

A call either leaves every row as it is or commits.  `Commits` lists the three ways to commit,
with everything that made them possible, and `respond_cases` says that there is no other.  All
later theorems about runs go through it, so none of them looks at how a call computes its answer.

## Row by row

The ways to commit differ in how they name the rows.  `advance` has one row and one token,
`advance_batch` a token for every row, and `advance_active`, like the two fused calls, a token for
just the rows that are still running.  Seen from a row they are the same: `tokenFor` is the token
that a call has for a row, and a row that has a token advances by it while every other row stays
(`Commits.row`).

## Batches

A batch is the pointwise advance of its rows, or it fails with its first row that fails
(`advanceRows_eq_ok`, `advanceRows_eq_error`).  A batch in which accepted rows have no token is
the same over other arguments; an accepted row with a token and a running row without one are
errors, so when it succeeds each row is in one of two cases (`advanceActiveRow_eq_ok`).  Reporting
the number of a row changes an error and nothing else.
-/

namespace GreatGramma

open Reservation ShiftReduce Traversal

namespace Call

/-- The calls that only ask. -/
def IsQuery : Call → Prop
  | .isCompleted _ => True
  | .mask _ _ => True
  | .masks _ => True
  | .allows _ _ => True
  | _ => False

instance (c : Call) : Decidable c.IsQuery := by
  unfold IsQuery
  cases c <;> infer_instance

/-- The tokens of a batch in which accepted rows have none. -/
def activeTokens : Call → Option (List (Option TokenId))
  | .advanceActive tokens => some tokens
  | .advanceActiveAndMasks tokens _ => some tokens
  | .advanceActiveAndMasksNoResult tokens _ => some tokens
  | _ => none

/-- The token that a call has for a row. -/
def tokenFor (row : ℕ) : Call → Option TokenId
  | .advance row' token => if row' = row then some token else none
  | .advanceBatch tokens => tokens[row]?
  | .advanceActive tokens => tokens[row]?.join
  | .advanceActiveAndMasks tokens _ => tokens[row]?.join
  | .advanceActiveAndMasksNoResult tokens _ => tokens[row]?.join
  | _ => none

theorem tokenFor_active {c : Call} {tokens : List (Option TokenId)}
    (h : c.activeTokens = some tokens) (row : ℕ) : c.tokenFor row = tokens[row]?.join := by
  cases c <;> cases h <;> rfl

end Call

namespace PreparedGrammar

variable {prepared : PreparedGrammar}

variable (prepared) in
/-- **The ways to commit.** -/
inductive Commits (states : List MatcherStatus) : Call → List MatcherStatus → Prop
  | advance {row : ℕ} {token : TokenId} {status status' : MatcherStatus} {result : AdvanceResult}
      (hrow : states[row]? = some status)
      (h : prepared.advanceRow status token = .ok (result, status')) :
      Commits states (.advance row token) (states.set row status')
  | batch {tokens : List TokenId} {staged : List (AdvanceResult × MatcherStatus)}
      (htokens : tokens.length = states.length)
      (h : prepared.advanceRows states tokens = .ok staged) :
      Commits states (.advanceBatch tokens) (staged.map Prod.snd)
  | active {c : Call} {tokens : List (Option TokenId)} {reportRejectedRow : Bool}
      {staged : List (Option AdvanceResult × MatcherStatus)} (hc : c.activeTokens = some tokens)
      (htokens : tokens.length = states.length)
      (h : prepared.advanceActiveRows reportRejectedRow states tokens = .ok staged) :
      Commits states c (staged.map Prod.snd)

/-! ## The cases of a call -/

theorem advanceAndMaskRows_eq_ok {states : List MatcherStatus} {tokens : List (Option TokenId)}
    {reportRejectedRow : Bool} {length : ℕ}
    {staged : List (Option AdvanceResult × MatcherStatus)} {masks : List (List TokenId)} :
    prepared.advanceAndMaskRows reportRejectedRow states tokens length = .ok (staged, masks) ↔
      tokens.length = states.length ∧ states.length * prepared.maskBytes ≤ usizeMax ∧
      states.length * prepared.maskBytes ≤ length ∧
      prepared.advanceActiveRows reportRejectedRow states tokens = .ok staged ∧
      (staged.map Prod.snd).mapM prepared.successorMask = .ok masks := by
  unfold advanceAndMaskRows
  by_cases htokens : tokens.length = states.length
  · rw [if_neg (not_not_intro htokens)]
    by_cases hfit : states.length * prepared.maskBytes ≤ usizeMax
    · rw [checkedMul_eq_some.mpr ⟨hfit, rfl⟩]
      dsimp only
      by_cases hlength : length < states.length * prepared.maskBytes
      · rw [if_pos hlength]
        exact ⟨fun h => (by cases h), fun h => absurd h.2.2.1 (Nat.not_le.mpr hlength)⟩
      · rw [if_neg hlength]
        constructor
        · intro h
          split at h
          · cases h
          · rename_i hstaged
            split at h
            · cases h
            · rename_i hmasks
              cases h
              exact ⟨htokens, hfit, Nat.not_lt.mp hlength, hstaged, hmasks⟩
        · rintro ⟨-, -, -, hstaged, hmasks⟩
          simp only [hstaged, hmasks]
    · have hnone : checkedMul states.length prepared.maskBytes = none := by
        cases hmul : checkedMul states.length prepared.maskBytes with
        | none => rfl
        | some required => exact absurd (checkedMul_eq_some.mp hmul).1 hfit
      rw [hnone]
      exact ⟨fun h => (by cases h), fun h => absurd h.2.1 hfit⟩
  · rw [if_pos htokens]
    exact ⟨fun h => (by cases h), fun h => absurd h.1 htokens⟩

theorem advanceAndMaskRows_eq_error {states : List MatcherStatus}
    {tokens : List (Option TokenId)} {reportRejectedRow : Bool} {length : ℕ} {e : EngineError}
    (htokens : tokens.length = states.length)
    (hfit : states.length * prepared.maskBytes ≤ usizeMax)
    (hlength : states.length * prepared.maskBytes ≤ length) :
    prepared.advanceAndMaskRows reportRejectedRow states tokens length = .error e ↔
      prepared.advanceActiveRows reportRejectedRow states tokens = .error e ∨
      ∃ staged, prepared.advanceActiveRows reportRejectedRow states tokens = .ok staged ∧
        (staged.map Prod.snd).mapM prepared.successorMask = .error e := by
  have hmul : checkedMul states.length prepared.maskBytes =
      some (states.length * prepared.maskBytes) := checkedMul_eq_some.mpr ⟨hfit, rfl⟩
  simp only [advanceAndMaskRows, ne_eq, htokens, not_true_eq_false, if_false, hmul,
    if_neg (Nat.not_lt.mpr hlength)]
  cases prepared.advanceActiveRows reportRejectedRow states tokens with
  | error e' =>
    constructor
    · intro h
      cases h
      exact Or.inl rfl
    · rintro (h | ⟨_, h, -⟩)
      · cases h
        rfl
      · cases h
  | ok staged =>
    dsimp only
    cases hmasks : (staged.map Prod.snd).mapM prepared.successorMask with
    | error e' =>
      constructor
      · intro h
        cases h
        exact Or.inr ⟨staged, rfl, hmasks⟩
      · rintro (h | ⟨staged', h, h'⟩)
        · cases h
        · cases h
          rw [hmasks] at h'
          cases h'
          rfl
    | ok masks =>
      constructor
      · intro h
        cases h
      · rintro (h | ⟨staged', h, h'⟩)
        · cases h
        · cases h
          rw [hmasks] at h'
          cases h'

variable (prepared) in
/-- **The cases of a call**: it changes nothing, being a query or failing, or it
succeeds and commits. -/
theorem respond_cases (states : List MatcherStatus) (c : Call) :
    ((prepared.respond states c).2 = states ∧
      (c.IsQuery ∨ ∃ e, (prepared.respond states c).1.value = .error e)) ∨
    (¬ c.IsQuery ∧ (∃ v, (prepared.respond states c).1.value = .ok v) ∧
      prepared.Commits states c (prepared.respond states c).2) := by
  cases c with
  | isCompleted row =>
    refine Or.inl ⟨?_, Or.inl trivial⟩
    simp only [respond]
    split <;> rfl
  | mask row output =>
    refine Or.inl ⟨?_, Or.inl trivial⟩
    simp only [respond]
    split
    · rfl
    · split <;> rfl
  | masks output =>
    refine Or.inl ⟨?_, Or.inl trivial⟩
    simp only [respond]
    split
    · rfl
    · split_ifs
      · rfl
      · split <;> rfl
  | allows row token =>
    refine Or.inl ⟨?_, Or.inl trivial⟩
    simp only [respond]
    split <;> rfl
  | advance row token =>
    simp only [respond]
    split
    · exact Or.inl ⟨rfl, Or.inr ⟨_, rfl⟩⟩
    · rename_i status hrow
      split
      · exact Or.inl ⟨rfl, Or.inr ⟨_, rfl⟩⟩
      · rename_i hadvance
        exact Or.inr ⟨id, ⟨_, rfl⟩, .advance hrow hadvance⟩
  | advanceBatch tokens =>
    simp only [respond]
    split_ifs with htokens
    · exact Or.inl ⟨rfl, Or.inr ⟨_, rfl⟩⟩
    · split
      · exact Or.inl ⟨rfl, Or.inr ⟨_, rfl⟩⟩
      · rename_i hstaged
        exact Or.inr ⟨id, ⟨_, rfl⟩, .batch (not_not.mp htokens) hstaged⟩
  | advanceActive tokens =>
    simp only [respond]
    split_ifs with htokens
    · exact Or.inl ⟨rfl, Or.inr ⟨_, rfl⟩⟩
    · split
      · exact Or.inl ⟨rfl, Or.inr ⟨_, rfl⟩⟩
      · rename_i hstaged
        exact Or.inr ⟨id, ⟨_, rfl⟩, .active rfl (not_not.mp htokens) hstaged⟩
  | advanceActiveAndMasks tokens output =>
    simp only [respond]
    split
    · exact Or.inl ⟨rfl, Or.inr ⟨_, rfl⟩⟩
    · rename_i hstaged
      obtain ⟨htokens, -, -, hadvance, -⟩ := advanceAndMaskRows_eq_ok.mp hstaged
      exact Or.inr ⟨id, ⟨_, rfl⟩, .active rfl htokens hadvance⟩
  | advanceActiveAndMasksNoResult tokens output =>
    simp only [respond]
    split
    · exact Or.inl ⟨rfl, Or.inr ⟨_, rfl⟩⟩
    · rename_i hstaged
      obtain ⟨htokens, -, -, hadvance, -⟩ := advanceAndMaskRows_eq_ok.mp hstaged
      exact Or.inr ⟨id, ⟨_, rfl⟩, .active rfl htokens hadvance⟩

/-! ## Batches, row by row -/

/-- **A batch is the pointwise advance of its rows.** -/
theorem advanceRows_eq_ok {states : List MatcherStatus} {tokens : List TokenId}
    {staged : List (AdvanceResult × MatcherStatus)} (htokens : tokens.length = states.length) :
    prepared.advanceRows states tokens = .ok staged ↔ staged.length = states.length ∧
      ∀ row, ∀ hrow : row < states.length, ∀ htoken : row < tokens.length,
        ∀ hstaged : row < staged.length,
        prepared.advanceRow states[row] tokens[row] = .ok staged[row] := by
  have hlength : (states.zip tokens).length = states.length := by
    rw [List.length_zip, htokens, Nat.min_self]
  rw [advanceRows, mapM_eq_ok_get]
  simp only [List.getElem_zip]
  constructor
  · rintro ⟨hstaged, h⟩
    exact ⟨hstaged.trans hlength, fun row hrow _ => h row (hlength.symm ▸ hrow)⟩
  · rintro ⟨hstaged, h⟩
    refine ⟨hstaged.trans hlength.symm, fun row hrow => ?_⟩
    have hlt : row < states.length := hlength ▸ hrow
    exact h row hlt (htokens.symm ▸ hlt)

/-- **A batch fails with its first row that fails.** -/
theorem advanceRows_eq_error {states : List MatcherStatus} {tokens : List TokenId}
    {e : EngineError} (htokens : tokens.length = states.length) :
    prepared.advanceRows states tokens = .error e ↔
      ∃ row, ∃ hrow : row < states.length, ∃ htoken : row < tokens.length,
        prepared.advanceRow states[row] tokens[row] = .error e ∧
        ∀ row', ∀ hrow' : row' < states.length, ∀ htoken' : row' < tokens.length, row' < row →
          ∃ entry, prepared.advanceRow states[row'] tokens[row'] = .ok entry := by
  have hlength : (states.zip tokens).length = states.length := by
    rw [List.length_zip, htokens, Nat.min_self]
  rw [advanceRows, mapM_eq_error]
  simp only [List.getElem_zip]
  constructor
  · rintro ⟨row, hrow, herror, hbefore⟩
    have hlt : row < states.length := hlength ▸ hrow
    exact ⟨row, hlt, htokens.symm ▸ hlt, herror,
      fun row' hrow' _ => hbefore row' (hlength.symm ▸ hrow')⟩
  · rintro ⟨row, hrow, _, herror, hbefore⟩
    refine ⟨row, hlength.symm ▸ hrow, herror, fun row' hrow' => ?_⟩
    have hlt : row' < states.length := hlength ▸ hrow'
    exact hbefore row' hlt (htokens.symm ▸ hlt)

/-- **So is a batch in which accepted rows have no token.** -/
theorem advanceActiveRows_eq_ok {states : List MatcherStatus} {tokens : List (Option TokenId)}
    {reportRejectedRow : Bool} {staged : List (Option AdvanceResult × MatcherStatus)}
    (htokens : tokens.length = states.length) :
    prepared.advanceActiveRows reportRejectedRow states tokens = .ok staged ↔
      staged.length = states.length ∧
      ∀ row, ∀ hrow : row < states.length, ∀ htoken : row < tokens.length,
        ∀ hstaged : row < staged.length,
        prepared.advanceActiveRow reportRejectedRow row states[row] tokens[row] =
          .ok staged[row] := by
  have hlength : (states.zip tokens).zipIdx.length = states.length := by
    rw [List.length_zipIdx, List.length_zip, htokens, Nat.min_self]
  rw [advanceActiveRows, mapM_eq_ok_get]
  simp only [List.getElem_zipIdx, List.getElem_zip, Nat.zero_add]
  constructor
  · rintro ⟨hstaged, h⟩
    exact ⟨hstaged.trans hlength, fun row hrow _ => h row (hlength.symm ▸ hrow)⟩
  · rintro ⟨hstaged, h⟩
    refine ⟨hstaged.trans hlength.symm, fun row hrow => ?_⟩
    have hlt : row < states.length := hlength ▸ hrow
    exact h row hlt (htokens.symm ▸ hlt)

theorem advanceActiveRows_eq_error {states : List MatcherStatus} {tokens : List (Option TokenId)}
    {reportRejectedRow : Bool} {e : EngineError} (htokens : tokens.length = states.length) :
    prepared.advanceActiveRows reportRejectedRow states tokens = .error e ↔
      ∃ row, ∃ hrow : row < states.length, ∃ htoken : row < tokens.length,
        prepared.advanceActiveRow reportRejectedRow row states[row] tokens[row] = .error e ∧
        ∀ row', ∀ hrow' : row' < states.length, ∀ htoken' : row' < tokens.length, row' < row →
          ∃ entry, prepared.advanceActiveRow reportRejectedRow row' states[row'] tokens[row'] =
            .ok entry := by
  have hlength : (states.zip tokens).zipIdx.length = states.length := by
    rw [List.length_zipIdx, List.length_zip, htokens, Nat.min_self]
  rw [advanceActiveRows, mapM_eq_error]
  simp only [List.getElem_zipIdx, List.getElem_zip, Nat.zero_add]
  constructor
  · rintro ⟨row, hrow, herror, hbefore⟩
    have hlt : row < states.length := hlength ▸ hrow
    exact ⟨row, hlt, htokens.symm ▸ hlt, herror,
      fun row' hrow' _ => hbefore row' (hlength.symm ▸ hrow')⟩
  · rintro ⟨row, hrow, _, herror, hbefore⟩
    refine ⟨row, hlength.symm ▸ hrow, herror, fun row' hrow' => ?_⟩
    have hlt : row' < states.length := hlength ▸ hrow'
    exact hbefore row' hlt (htokens.symm ▸ hlt)

end PreparedGrammar

/-- A rejected token, reported with its row. -/
def EngineError.atRow (row : ℕ) : EngineError → EngineError
  | .constraintViolation token => .batchConstraintViolation row token
  | e => e

namespace PreparedGrammar

variable {prepared : PreparedGrammar}

variable (prepared) in
/-- **Reporting the row changes the report alone.** -/
theorem advanceActiveRow_report (row : ℕ) (status : MatcherStatus) (token : Option TokenId) :
    prepared.advanceActiveRow true row status token =
      (prepared.advanceActiveRow false row status token).mapError (EngineError.atRow row) := by
  obtain ⟨phase, stack⟩ := status
  cases phase with
  | accepted => cases token <;> rfl
  | running lexer =>
    cases token with
    | none => rfl
    | some token =>
      simp only [advanceActiveRow]
      cases prepared.advanceRow ⟨.running lexer, stack⟩ token with
      | ok entry => rfl
      | error e => cases e <;> rfl

variable (prepared) in
theorem advanceActiveRow_some (row : ℕ) (status : MatcherStatus) (token : TokenId) :
    prepared.advanceActiveRow false row status (some token) =
      (prepared.advanceRow status token).map fun entry => (some entry.1, entry.2) := by
  obtain ⟨phase, stack⟩ := status
  cases phase with
  | accepted => rfl
  | running lexer =>
    simp only [advanceActiveRow]
    cases prepared.advanceRow ⟨.running lexer, stack⟩ token with
    | ok entry => rfl
    | error e => cases e <;> rfl

/-- **The cases of a row in such a batch**: an accepted row without a token stays, and
a running row with one advances. -/
theorem advanceActiveRow_eq_ok {status : MatcherStatus} {token : Option TokenId}
    {reportRejectedRow : Bool} {row : ℕ} {entry : Option AdvanceResult × MatcherStatus} :
    prepared.advanceActiveRow reportRejectedRow row status token = .ok entry ↔
      (status.phase = .accepted ∧ token = none ∧ entry = (none, .empty)) ∨
      ∃ t result status', token = some t ∧ entry = (some result, status') ∧
        prepared.advanceRow status t = .ok (result, status') := by
  obtain ⟨phase, stack⟩ := status
  cases phase with
  | accepted =>
    cases token with
    | none =>
      constructor
      · intro h
        cases h
        exact Or.inl ⟨rfl, rfl, rfl⟩
      · rintro (⟨-, -, rfl⟩ | ⟨_, _, _, h, -⟩)
        · rfl
        · cases h
    | some t =>
      constructor
      · intro h
        cases h
      · rintro (⟨-, h, -⟩ | ⟨_, _, _, -, -, h⟩)
        · cases h
        · cases h
  | running lexer =>
    cases token with
    | none =>
      constructor
      · intro h
        cases h
      · rintro (⟨h, -, -⟩ | ⟨_, _, _, h, -⟩)
        · cases h
        · cases h
    | some t =>
      simp only [advanceActiveRow]
      constructor
      · intro h
        split at h
        · rename_i result status' hadvance
          cases h
          exact Or.inr ⟨t, result, status', rfl, rfl, hadvance⟩
        · split_ifs at h
        · cases h
      · rintro (⟨h, -, -⟩ | ⟨_, _, _, h, rfl, hadvance⟩)
        · cases h
        · cases h
          simp only [hadvance]

/-! ## Commits, row by row -/

theorem Commits.length {states states' : List MatcherStatus} {c : Call}
    (h : prepared.Commits states c states') : states'.length = states.length := by
  cases h with
  | advance hrow h => exact List.length_set
  | batch htokens h => rw [List.length_map, ((advanceRows_eq_ok htokens).mp h).1]
  | active hc htokens h => rw [List.length_map, ((advanceActiveRows_eq_ok htokens).mp h).1]

/-- **A commit, row by row**: a row that has a token advances by it, every other row
stays. -/
theorem Commits.row {states states' : List MatcherStatus} {c : Call}
    (h : prepared.Commits states c states')
    (hstates : ∀ status ∈ states, status.Valid prepared.grammar) {row : ℕ} {status : MatcherStatus}
    (hrow : states[row]? = some status) :
    ∃ status', states'[row]? = some status' ∧
      match c.tokenFor row with
      | none => status' = status
      | some token => ∃ result, prepared.advanceRow status token = .ok (result, status') := by
  obtain ⟨hlt, rfl⟩ := List.getElem?_eq_some_iff.mp hrow
  cases h with
  | @advance row' token status₁ status' result hrow' h =>
    rw [List.getElem?_set]
    by_cases hsame : row' = row
    · subst hsame
      rw [hrow] at hrow'
      cases hrow'
      simp only [Call.tokenFor, if_true]
      rw [if_pos hlt]
      exact ⟨status', rfl, result, h⟩
    · simp only [Call.tokenFor, if_neg hsame]
      exact ⟨_, hrow, rfl⟩
  | @batch tokens staged htokens h =>
    obtain ⟨hlength, hrows⟩ := (advanceRows_eq_ok htokens).mp h
    have htoken : row < tokens.length := htokens ▸ hlt
    have hstaged : row < staged.length := hlength ▸ hlt
    refine ⟨staged[row].2, ?_, ?_⟩
    · rw [List.getElem?_map, List.getElem?_eq_getElem hstaged, Option.map_some]
    · simp only [Call.tokenFor, List.getElem?_eq_getElem htoken]
      exact ⟨staged[row].1, hrows row hlt htoken hstaged⟩
  | @active _ tokens _ staged hc htokens h =>
    obtain ⟨hlength, hrows⟩ := (advanceActiveRows_eq_ok htokens).mp h
    have htoken : row < tokens.length := htokens ▸ hlt
    have hstaged : row < staged.length := hlength ▸ hlt
    refine ⟨staged[row].2, ?_, ?_⟩
    · rw [List.getElem?_map, List.getElem?_eq_getElem hstaged, Option.map_some]
    · rw [Call.tokenFor_active hc, List.getElem?_eq_getElem htoken, Option.join_some]
      rcases advanceActiveRow_eq_ok.mp (hrows row hlt htoken hstaged) with
        ⟨hphase, hnone, hentry⟩ | ⟨token, result, status', htoken', hentry, hadvance⟩
      · rw [hnone, hentry]
        exact ((hstates _ (List.getElem_mem hlt)).eq_empty hphase).symm
      · rw [htoken', hentry]
        exact ⟨result, hadvance⟩

/-- **Commits keep rows valid.** -/
theorem Sound.commits_valid (hsound : prepared.Sound) {states states' : List MatcherStatus}
    {c : Call} (hstates : ∀ status ∈ states, status.Valid prepared.grammar)
    (h : prepared.Commits states c states') :
    ∀ status ∈ states', status.Valid prepared.grammar := by
  intro status hstatus
  obtain ⟨row, hrow, rfl⟩ := List.mem_iff_getElem.mp hstatus
  have hlt : row < states.length := h.length ▸ hrow
  have hvalid := hstates _ (List.getElem_mem hlt)
  obtain ⟨status', hstatus', hstep⟩ := h.row hstates (List.getElem?_eq_getElem hlt)
  rw [List.getElem?_eq_getElem hrow] at hstatus'
  cases hstatus'
  cases htoken : c.tokenFor row with
  | none =>
    rw [htoken] at hstep
    exact hstep ▸ hvalid
  | some token =>
    rw [htoken] at hstep
    obtain ⟨result, hadvance⟩ := hstep
    exact hsound.advanceRow_valid hvalid hadvance

theorem respond_length (states : List MatcherStatus) (c : Call) :
    (prepared.respond states c).2.length = states.length := by
  rcases prepared.respond_cases states c with ⟨h, -⟩ | ⟨-, -, h⟩
  · rw [h]
  · exact h.length

theorem Sound.respond_valid (hsound : prepared.Sound) {states : List MatcherStatus}
    (hstates : ∀ status ∈ states, status.Valid prepared.grammar) (c : Call) :
    ∀ status ∈ (prepared.respond states c).2, status.Valid prepared.grammar := by
  rcases prepared.respond_cases states c with ⟨h, -⟩ | ⟨-, -, h⟩
  · rw [h]
    exact hstates
  · exact hsound.commits_valid hstates h

end PreparedGrammar
end GreatGramma
