import GreatGramma.Matcher.Corruption
import GreatGramma.Native.Sessions

/-!
# How a session fails

A session that is only ever given tokens whose bits its masks showed does not meet an error of
its own making.  This module says what remains, and ties every failure to its cause in the call
that failed, so that a batch that merely gives up would not do.

## The core call

A call on the batch makes one call on the matcher: `masks` for the initial masks, and
`advance_active_and_masks_no_result` for a step.  The rows answer for it or a reservation of the
call was refused (`Matcher.Invariant.call_answered`), and the memory that the call leaves tells
which.  When the rows answer with an error, no row has refused its token, since every token may
come next (`Tracks.advanceActiveRow_ok`).  So it is the mask of a row that fails, and there are two
ways (`Sound.maskRow_error`).  The row is stuck: the tokens behind it have not ended, and no token
goes on with them.  Or the data is called corrupt, and then an execution of the call meets a fault
of the tables (`Sound.executes_of_respond`).

## The call on the batch

Around the core call two more things can happen.  The masks are copied into a Python object, which
takes one more reservation; and padding may find that no row runs any more.  `Fails` lists the four
causes, and `Ends` sets them against the calls that succeed: those were granted every reservation,
and leave some row that has not ended.
-/

namespace GreatGramma

open Reservation ShiftReduce Traversal

/-- **Stuck tokens**: they have not ended, and no token goes on with them. -/
def ValidatedGrammar.Stuck (grammar : ValidatedGrammar) (pad : Option TokenId)
    (generated : List TokenId) : Prop :=
  ¬ grammar.Ended pad generated ∧ ∀ token, ¬ grammar.Continues pad generated token

namespace PreparedGrammar

variable {prepared : PreparedGrammar}

/-- **What the mask of a running row fails with**: its tokens are stuck, or the data is called
corrupt. -/
theorem Sound.maskRow_error (hsound : prepared.Sound) {status : MatcherStatus}
    (hstatus : status.Valid prepared.grammar) (hphase : status.phase ≠ .accepted)
    {pad : Option TokenId} {generated : List TokenId}
    (hfollows : prepared.grammar.Follows pad generated status) {e : EngineError}
    (h : prepared.maskRow prepared.maskBytes status = .error e) :
    e = .corruptPreparedData ∨ (e = .noValidToken ∧ prepared.grammar.Stuck pad generated) := by
  obtain ⟨phase, stack⟩ := status
  cases phase with
  | accepted => exact absurd rfl hphase
  | running lexer =>
    have hvalid : lexer.Valid prepared.grammar.lexer ∧ prepared.grammar.lalr.ValidStack stack :=
      hstatus
    simp only [maskRow, if_neg (Nat.lt_irrefl prepared.maskBytes)] at h
    cases hmask : prepared.maskTokens lexer stack with
    | error e' =>
      rw [hmask] at h
      obtain rfl := Except.error.inj h
      exact Or.inl (hsound.maskTokens_corrupt hvalid.1 hmask)
    | ok found =>
      rw [hmask] at h
      cases found with
      | nil =>
        refine Or.inr ⟨(Except.error.inj h).symm, ValidatedGrammar.not_ended_of_replays hfollows,
          fun token hcontinues => ?_⟩
        have hmem := (hsound.mem_mask hvalid.1 hvalid.2 hmask).mpr
          ((ValidatedGrammar.continues_running hfollows).mp hcontinues)
        exact absurd hmem List.not_mem_nil
      | cons token found => cases h

end PreparedGrammar

/-- **A core call that succeeds** was granted every reservation. -/
theorem Matcher.Invariant.call_grants {matcher : Matcher} (hm : matcher.Invariant)
    {memory : Memory} {c : Call} {v : Value}
    (h : (matcher.call memory c).1.value = .ok v) :
    Grants memory (matcher.call memory c).2.2 := by
  rcases (hm.call_answered memory c).answer with ⟨-, hgrants⟩ | ⟨-, ⟨requested, hrefused⟩, -⟩
  · exact hgrants
  · rw [h] at hrefused
    cases hrefused

namespace NativeBatch

variable {batch : NativeBatch} {histories next : List (List TokenId)} {tokens : List TokenId}
  {c : Call} {memory memory' : Memory} {failure : NativeFailure}

/-! ## Causes -/

/-- **Why a call on a batch fails.**  The batch makes the core call `c`, the rows are to go on with
`next`, and the allocator is left with `memory'`. -/
inductive Fails (batch : NativeBatch) (c : Call) (next : List (List TokenId))
    (memory memory' : Memory) (failure : NativeFailure) : Prop
  | refused (hcode : failure.code = .internalError)
      (hrefused : Reservation.Refuses memory memory') : Fails batch c next memory memory' failure
  | broken {status : MatcherStatus} {terminals : List TerminalId}
      (hcode : failure.code = .internalError)
      (hexecutes : batch.matcher.prepared.Executes batch.matcher.states c status terminals)
      (hbreaks : batch.matcher.prepared.Breaks status.parserStack terminals) :
      Fails batch c next memory memory' failure
  | stuck {generated : List TokenId} (hcode : failure.code = .noValidToken)
      (hmem : generated ∈ next)
      (hstuck : batch.matcher.prepared.grammar.Stuck batch.padTokenId generated) :
      Fails batch c next memory memory' failure
  | ended (hcode : failure.code = .sequenceCompleted)
      (hended : ∀ generated ∈ next,
        batch.matcher.prepared.grammar.Ended batch.padTokenId generated) :
      Fails batch c next memory memory' failure

/-- **How a call on a batch ends.** -/
inductive Ends {α : Type} (batch : NativeBatch) (c : Call) (next : List (List TokenId))
    (memory memory' : Memory) : Except NativeFailure α → Prop
  | ok {result : α} (hgrants : Grants memory memory')
      (hruns : ∃ generated ∈ next,
        ¬ batch.matcher.prepared.grammar.Ended batch.padTokenId generated) :
      Ends batch c next memory memory' (.ok result)
  | error {failure : NativeFailure} (h : batch.Fails c next memory memory' failure) :
      Ends batch c next memory memory' (.error failure)

/-- The masks are handed over by one more reservation. -/
theorem Ends.finish {result : Except NativeFailure Unit}
    (h : batch.Ends c next memory memory' result) (batch' : NativeBatch) :
    batch.Ends c next memory (batch'.finishBatchCall result memory').2.2
      (batch'.finishBatchCall result memory').1 := by
  cases h with
  | error h => exact .error h
  | ok hgrants hruns =>
    simp only [finishBatchCall]
    rcases hreserve : memory'.reserve with ⟨answer, memory''⟩
    cases answer with
    | true => exact .ok (hgrants.trans (reserve_true hreserve)) hruns
    | false => exact .error (.refused rfl (hgrants.refuses (reserve_false hreserve)))

/-- **A core call that fails**, when no row refuses its token. -/
theorem Tracks.fails_of_call (h : batch.Tracks histories) {e : EngineError}
    (herror : (batch.matcher.call memory c).1.value = .error e)
    (hrows : (batch.matcher.prepared.respond batch.matcher.states c).1.value = .error e →
      e = .corruptPreparedData ∨ (e = .noValidToken ∧ ∃ generated ∈ next,
        batch.matcher.prepared.grammar.Stuck batch.padTokenId generated)) :
    batch.Fails c next memory (batch.matcher.call memory c).2.2 (mapEngineError e) := by
  have hm := h.invariant.matcher
  rcases (hm.call_answered memory c).answer with
    ⟨hrespond, -⟩ | ⟨hrefuses, ⟨requested, hrefused⟩, -⟩
  · have hvalue : (batch.matcher.call memory c).1.value =
        (batch.matcher.prepared.respond batch.matcher.states c).1.value :=
      congrArg (fun out => out.1.value) hrespond
    rw [hvalue] at herror
    rcases hrows herror with rfl | ⟨rfl, generated, hmem, hstuck⟩
    · obtain ⟨status, terminals, hexecutes, hbreaks⟩ :=
        hm.sound.executes_of_respond hm.rows h.invariant.fits herror
      exact .broken rfl hexecutes hbreaks
    · exact .stuck rfl hmem hstuck
  · rw [herror] at hrefused
    obtain rfl := Except.error.inj hrefused
    exact .refused rfl hrefuses

/-! ## The initial masks -/

/-- Before anything was generated, every row runs. -/
theorem Tracks.running_of_nil (h : batch.Tracks histories)
    (hnil : ∀ generated ∈ histories, generated = []) {row : ℕ} {status : MatcherStatus}
    (hrow : batch.matcher.states[row]? = some status) :
    status.phase ≠ .accepted ∧ [] ∈ histories ∧
      batch.matcher.prepared.grammar.Follows batch.padTokenId [] status := by
  have hlt := (List.getElem?_eq_some_iff.mp hrow).1
  have hgenerated := List.getElem?_eq_getElem (l := histories) (h.length.symm ▸ hlt)
  have hfollows := h.follows row status _ hrow hgenerated
  have hmem := List.mem_of_getElem? hgenerated
  rw [hnil _ hmem] at hfollows hmem
  refine ⟨fun haccepted => ?_, hmem, hfollows⟩
  exact ValidatedGrammar.not_ended_of_spelling rfl (hfollows.ended_iff.mpr haccepted)

/-- The masks of all rows fail for a row that is stuck, or for corrupt data. -/
theorem Tracks.masks_rows (h : batch.Tracks histories)
    (hnil : ∀ generated ∈ histories, generated = []) {e : EngineError}
    (herror : (batch.matcher.prepared.respond batch.matcher.states
      (.masks batch.maskBuffer)).1.value = .error e) :
    e = .corruptPreparedData ∨ (e = .noValidToken ∧ ∃ generated ∈ histories,
      batch.matcher.prepared.grammar.Stuck batch.padTokenId generated) := by
  have hb := h.invariant
  have hmul : checkedMul batch.matcher.states.length batch.matcher.prepared.maskBytes =
      some (batch.matcher.states.length * batch.matcher.prepared.maskBytes) :=
    checkedMul_eq_some.mpr ⟨hb.fits, rfl⟩
  have hroom : ¬ batch.maskBuffer.length <
      batch.matcher.states.length * batch.matcher.prepared.maskBytes :=
    Nat.not_lt.mpr (Nat.le_of_eq hb.buffer.symm)
  simp only [PreparedGrammar.respond, hmul, if_neg hroom] at herror
  cases hfound : batch.matcher.states.mapM
      (batch.matcher.prepared.maskRow batch.matcher.prepared.maskBytes) with
  | ok masks =>
    rw [hfound] at herror
    cases herror
  | error e' =>
    rw [hfound] at herror
    obtain rfl := Except.error.inj herror
    obtain ⟨row, status, hrow, hmask, -⟩ := exists_first_of_mapM_error hfound
    obtain ⟨hphase, hmem, hfollows⟩ := h.running_of_nil hnil hrow
    rcases hb.matcher.sound.maskRow_error (hb.matcher.rows _ (List.mem_of_getElem? hrow)) hphase
      hfollows hmask with he | ⟨he, hstuck⟩
    · exact Or.inl he
    · exact Or.inr ⟨he, _, hmem, hstuck⟩

/-- **Before anything was generated.** -/
theorem Tracks.initialMasks_ends (h : batch.Tracks histories) (hlive : batch.poisoned = false)
    (hne : histories ≠ []) (hnil : ∀ generated ∈ histories, generated = []) (memory : Memory) :
    batch.Ends (.masks batch.maskBuffer) histories memory (batch.initialMasks memory).2.2
      (batch.initialMasks memory).1 := by
  have hm := h.invariant.matcher
  have hinner : batch.Ends (.masks batch.maskBuffer) histories memory
      (batch.initialMasksInner memory).2.2 (batch.initialMasksInner memory).1 := by
    unfold initialMasksInner ensureLive
    rw [hlive, if_neg Bool.false_ne_true]
    dsimp only
    have hgrants := @Matcher.Invariant.call_grants _ hm memory (.masks batch.maskBuffer)
    have hfails := fun e => @Tracks.fails_of_call _ _ histories (.masks batch.maskBuffer) memory h e
    simp only [Matcher.call] at hgrants hfails
    generalize batch.matcher.masks batch.maskBuffer memory = out at hgrants hfails
    obtain ⟨reply, written, matcher, memory'⟩ := out
    cases reply with
    | error e => exact .error (hfails e rfl fun herror => h.masks_rows hnil herror)
    | ok _ =>
      obtain ⟨generated, hmem⟩ := List.exists_mem_of_ne_nil _ hne
      obtain ⟨row, hgenerated⟩ := List.mem_iff_getElem?.mp hmem
      obtain ⟨status, hstatus, -, -⟩ := h.row hgenerated
      obtain ⟨hphase, hmem, hfollows⟩ := h.running_of_nil hnil hstatus
      exact .ok (hgrants rfl) ⟨_, hmem, fun hended => hphase (hfollows.ended_iff.mp hended)⟩
  exact hinner.finish (batch.initialMasksInner memory).2.1

/-! ## Steps -/

/-- **What a row that may take its token does**: the token passes, and the row follows it. -/
theorem Tracks.advanceActiveRow_ok (h : batch.Tracks histories) (hmasks : batch.matcher.Live)
    {row : ℕ} {status : MatcherStatus} {generated : List TokenId} {token : TokenId}
    (hstatus : batch.matcher.states[row]? = some status)
    (hgenerated : histories[row]? = some generated)
    (hcontinues : batch.matcher.prepared.grammar.Continues batch.padTokenId generated token) :
    batch.Passes status token ∧ ∃ entry,
      batch.matcher.prepared.advanceActiveRow true row status
        (if status.phase = .accepted then none else some token) = .ok entry ∧
      batch.matcher.prepared.grammar.Follows batch.padTokenId (generated ++ [token]) entry.2 := by
  have hm := h.invariant.matcher
  have hfollows := h.follows row status generated hstatus hgenerated
  obtain ⟨phase, stack⟩ := status
  cases phase with
  | accepted =>
    have hpad := (ValidatedGrammar.continues_ended hfollows).mp hcontinues
    have hended : batch.matcher.prepared.grammar.Ended batch.padTokenId generated := hfollows
    exact ⟨⟨h.invariant.pad token hpad, fun _ => hpad⟩, _, rfl, hended.snoc hpad⟩
  | running lexer =>
    obtain ⟨hlexer, hstack⟩ : lexer.Valid batch.matcher.prepared.grammar.lexer ∧
        batch.matcher.prepared.grammar.lalr.ValidStack stack :=
      hm.rows _ (List.mem_of_getElem? hstatus)
    have hreply := (hm.maskOf_eq hstatus).1
    rw [hmasks row _ hstatus fun hphase => by cases hphase] at hreply
    obtain ⟨mask, hfound, -⟩ := map_eq_ok.mp hreply.symm
    obtain ⟨-, htokens, -⟩ := PreparedGrammar.maskRow_running.mp hfound
    have hmem := (hm.sound.mem_mask hlexer hstack htokens).mpr
      ((ValidatedGrammar.continues_running hfollows).mp hcontinues)
    obtain ⟨result, status', hadvance⟩ := hm.sound.advanceRow_of_mem_mask hlexer htokens hmem
    refine ⟨⟨hm.sound.lt_of_mem_mask hlexer htokens hmem, fun hphase => by cases hphase⟩,
      (some result, status'), ?_, (hm.sound.advanceRow_follows (hm.rows _
        (List.mem_of_getElem? hstatus)) hfollows hadvance).2⟩
    exact PreparedGrammar.advanceActiveRow_eq_ok.mpr (Or.inr ⟨token, result, status', rfl, rfl,
      hadvance⟩)

section
variable (h : batch.Tracks histories) (hmasks : batch.matcher.Live)
  (hlength : tokens.length = histories.length)
  (hcontinues : ∀ (row : ℕ) generated token, histories[row]? = some generated →
    tokens[row]? = some token →
      batch.matcher.prepared.grammar.Continues batch.padTokenId generated token)
include h hmasks hlength hcontinues

/-- The core call of such a step fails for a row that is stuck behind its token, or for corrupt
data: no row refuses its token. -/
theorem Tracks.step_rows {e : EngineError}
    (herror : (batch.matcher.prepared.respond batch.matcher.states
      (.advanceActiveAndMasksNoResult (batch.activeFor tokens) batch.maskBuffer)).1.value =
        .error e) :
    e = .corruptPreparedData ∨ (e = .noValidToken ∧
      ∃ generated ∈ appendColumn histories tokens,
        batch.matcher.prepared.grammar.Stuck batch.padTokenId generated) := by
  have hb := h.invariant
  have hactive := activeFor_length (hlength.trans h.length)
  have hfused : batch.matcher.prepared.advanceAndMaskRows true batch.matcher.states
      (batch.activeFor tokens) batch.maskBuffer.length = .error e := by
    simp only [PreparedGrammar.respond] at herror
    cases hfused : batch.matcher.prepared.advanceAndMaskRows true batch.matcher.states
        (batch.activeFor tokens) batch.maskBuffer.length with
    | error e' =>
      rw [hfused] at herror
      obtain rfl := Except.error.inj herror
      rfl
    | ok staged =>
      rw [hfused] at herror
      cases herror
  -- the rows, with what they become
  have hrow : ∀ (row : ℕ) (hrow : row < batch.matcher.states.length)
      (hslot : row < (batch.activeFor tokens).length), ∃ entry,
        batch.matcher.prepared.advanceActiveRow true row batch.matcher.states[row]
          (batch.activeFor tokens)[row] = .ok entry ∧
        ∃ generated ∈ appendColumn histories tokens,
          batch.matcher.prepared.grammar.Follows batch.padTokenId generated entry.2 := by
    intro row hrow hslot
    have hstatus := List.getElem?_eq_getElem hrow
    have hgenerated := List.getElem?_eq_getElem (l := histories) (h.length.symm ▸ hrow)
    have htoken := List.getElem?_eq_getElem (l := tokens) (hlength.trans h.length ▸ hrow)
    obtain ⟨-, entry, hok, hfollows⟩ := h.advanceActiveRow_ok hmasks hstatus hgenerated
      (hcontinues row _ _ hgenerated htoken)
    have hentry := getElem?_activeFor hstatus htoken
    rw [List.getElem?_eq_getElem hslot, Option.some.injEq] at hentry
    refine ⟨entry, hentry ▸ hok, _, List.mem_of_getElem? (getElem?_appendColumn.mpr
      ⟨_, _, hgenerated, htoken, rfl⟩), hfollows⟩
  rcases (PreparedGrammar.advanceAndMaskRows_eq_error hactive hb.fits
    (Nat.le_of_eq hb.buffer.symm)).mp hfused with hstuck | ⟨staged, hstaged, hdead⟩
  · obtain ⟨row, hlt, hslot, hfail, -⟩ :=
      (PreparedGrammar.advanceActiveRows_eq_error hactive).mp hstuck
    obtain ⟨entry, hok, -⟩ := hrow row hlt hslot
    rw [hok] at hfail
    cases hfail
  · obtain ⟨row, hstagedRow, hfail, -⟩ := mapM_eq_error.mp hdead
    rw [List.length_map] at hstagedRow
    rw [List.getElem_map] at hfail
    obtain ⟨hcount, hentries⟩ := (PreparedGrammar.advanceActiveRows_eq_ok hactive).mp hstaged
    have hlt := hcount ▸ hstagedRow
    have hslot := hactive.symm ▸ hlt
    obtain ⟨entry, hok, generated, hmem, hfollows⟩ := hrow row hlt hslot
    have hentry := hentries row hlt hslot hstagedRow
    obtain rfl : entry = staged[row] := Except.ok.inj (hok.symm.trans hentry)
    have hvalid := hb.matcher.sound.advanceActiveRow_valid
      (hb.matcher.rows _ (List.getElem_mem hlt)) hentry
    unfold PreparedGrammar.successorMask at hfail
    split at hfail
    · cases hfail
    · rename_i hphase
      have hrunning : (staged[row].2).phase ≠ .accepted := by
        rw [hphase]
        exact fun h => by cases h
      rcases hb.matcher.sound.maskRow_error hvalid hrunning hfollows hfail with he | ⟨he, hstuck⟩
      · exact Or.inl he
      · exact Or.inr ⟨he, generated, hmem, hstuck⟩

/-- **Up to the core call**, a step of tokens that may come next is the core call. -/
theorem Tracks.advanceInner_eq (hlive : batch.poisoned = false) (memory : Memory) :
    ∃ batch', batch.advanceInner tokens memory =
      ((batch.matcher.advanceActiveAndMasksNoResult (batch.activeFor tokens) batch.maskBuffer
          memory).1.mapError mapEngineError, batch',
        (batch.matcher.advanceActiveAndMasksNoResult (batch.activeFor tokens) batch.maskBuffer
          memory).2.2.2) := by
  have hb := h.invariant
  have htokens : tokens.length = batch.matcher.rowCount := hlength.trans h.length
  have hensure : batch.ensureLive = .ok () := by
    rw [ensureLive, hlive, if_neg Bool.false_ne_true]
  have hmul : checkedMul batch.matcher.rowCount batch.matcher.maskBytes =
      some (batch.matcher.states.length * batch.matcher.maskBytes) :=
    checkedMul_eq_some.mpr ⟨hb.fits, rfl⟩
  rw [advanceInner, hensure]
  dsimp only
  rw [if_neg (not_not_intro htokens)]
  rcases stageTokens_cases hb.active htokens with
    ⟨hstage, -⟩ | ⟨_, _, -, -, row, status, token, hstatus, htoken, hstuck⟩
  · rw [hstage]
    dsimp only
    rw [commitTokens, hmul]
    dsimp only
    rw [if_neg (not_not_intro hb.buffer)]
    exact ⟨_, rfl⟩
  · have hlt := (List.getElem?_eq_some_iff.mp htoken).1
    have hgenerated := List.getElem?_eq_getElem (l := histories) (hlength ▸ hlt)
    exact absurd (h.advanceActiveRow_ok hmasks hstatus hgenerated
      (hcontinues row _ token hgenerated htoken)).1 hstuck

/-- **A step of tokens that may come next.** -/
theorem Tracks.advanceAndMasks_ends (hlive : batch.poisoned = false) (memory : Memory) :
    batch.Ends (.advanceActiveAndMasksNoResult (batch.activeFor tokens) batch.maskBuffer)
      (appendColumn histories tokens) memory (batch.advanceAndMasks tokens memory).2.2
      (batch.advanceAndMasks tokens memory).1 := by
  have hm := h.invariant.matcher
  obtain ⟨reply, batch', memory', hstep, hb', hsession, hcases⟩ :=
    h.invariant.advanceAndMasksInner_cases tokens memory
  obtain ⟨committed', hcore⟩ := h.advanceInner_eq hmasks hlength hcontinues hlive memory
  have hgrants := @Matcher.Invariant.call_grants _ hm memory
    (.advanceActiveAndMasksNoResult (batch.activeFor tokens) batch.maskBuffer)
  have hfails := fun e => @Tracks.fails_of_call _ _ (appendColumn histories tokens)
    (.advanceActiveAndMasksNoResult (batch.activeFor tokens) batch.maskBuffer) memory h e
  simp only [Matcher.call] at hgrants hfails
  have hinner : batch.Ends (.advanceActiveAndMasksNoResult (batch.activeFor tokens)
      batch.maskBuffer) (appendColumn histories tokens) memory memory' reply := by
    rw [advanceAndMasksInner, hcore] at hstep
    generalize batch.matcher.advanceActiveAndMasksNoResult (batch.activeFor tokens)
      batch.maskBuffer memory = out at hgrants hfails hstep hcore
    obtain ⟨coreReply, written, matcher, memory''⟩ := out
    cases coreReply with
    | error e =>
      obtain ⟨rfl, hpair⟩ := Prod.mk.inj hstep
      obtain ⟨-, rfl⟩ := Prod.mk.inj hpair
      exact .error (hfails e rfl (h.step_rows hmasks hlength hcontinues))
    | ok _ =>
      obtain ⟨-, hpair⟩ := Prod.mk.inj hstep
      obtain ⟨-, rfl⟩ := Prod.mk.inj hpair
      rcases hcases with ⟨-, ⟨e, hinner⟩, -⟩ | ⟨-, ⟨committed, hcommitted, hmatcher⟩, hends⟩
      · rw [hcore] at hinner
        cases hinner
      obtain ⟨-, -, htracks⟩ := h.commit hcommitted hb' hsession hmatcher
      rcases hends with ⟨rfl, hserved⟩ | ⟨⟨e, rfl, hcode⟩, hnone⟩
      · refine .ok (hgrants rfl) ?_
        obtain ⟨row, status, hstatus, hphase⟩ := hserved.runs
        have hlt := (List.getElem?_eq_some_iff.mp hstatus).1
        have hgenerated := List.getElem?_eq_getElem (l := appendColumn histories tokens)
          (htracks.length.symm ▸ hlt)
        have hfollows := htracks.follows row _ _ hstatus hgenerated
        rw [hsession.prepared, hsession.pad] at hfollows
        exact ⟨_, List.mem_of_getElem? hgenerated,
          fun hended => hphase (hfollows.ended_iff.mp hended)⟩
      · refine .error (.ended hcode fun generated hmem => ?_)
        obtain ⟨row, hgenerated⟩ := List.mem_iff_getElem?.mp hmem
        obtain ⟨status, hstatus, -, hfollows⟩ := htracks.row hgenerated
        rw [hsession.prepared, hsession.pad] at hfollows
        exact hfollows.ended_iff.mpr (not_runs.mp hnone row _ hstatus)
  rw [NativeBatch.advanceAndMasks, hstep]
  exact hinner.finish batch'

end

end NativeBatch
end GreatGramma
