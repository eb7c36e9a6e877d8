import GreatGramma.Library.RowSlices
import GreatGramma.Native.Batch
import GreatGramma.Matcher.FailClosed
import GreatGramma.Matcher.Fused

/-!
# One step of a native batch

What each part of `advance_and_masks_inner` does to the batch, said once, so that no later proof
opens a step again.

## The parts

1. The scan passes or stops at a row it does not like.  If it passes, the slots hold the tokens of
   the running rows, whatever was in them before (`stageTokens_cases`).
2. The core call commits every row or none (`Invariant.noResult_cases`).
3. Behind it the accepted rows are padded, which touches the mask buffer only, and fails exactly
   when no row runs any more (`Invariant.padAccepted_cases`).

`advanceAndMasksInner_cases` puts the three together: a step that does not commit leaves every row
as it was, and a step that commits succeeds exactly when a row still runs.

## Invariants of the scans

Both scans go through the rows and write as they go, so each has an invariant that speaks of the
rows it has passed and of those it has not: `StagesTo` for the slots of the tokens, `PadsTo` for
the mask buffer and the count.  Each has three lemmas: how it starts, what one row adds, and what
it says behind the last row.

## What Python sees

The public methods poison the batch at most (`call_inner`), so what holds of every reachable batch
is shown of the inner ones.  What a session is, its prepared tables, its number of rows and its pad
token, is changed by no call (`SameSession`).
-/

namespace GreatGramma

open Reservation ShiftReduce Traversal

/-! ## The core call -/

namespace Matcher

variable {matcher : Matcher}

theorem isCompleted_eq {row : ℕ} {status : MatcherStatus}
    (hrow : matcher.states[row]? = some status) :
    matcher.isCompleted row = .ok (decide (status.phase = .accepted)) := by
  simp only [isCompleted, state, hrow]

/-- `masks` writes the buffer and the scratch stack, and nothing else. -/
theorem masks_keeps (matcher : Matcher) (output : List UInt8) (memory : Memory) :
    (matcher.masks output memory).2.2.1.states = matcher.states ∧
      (matcher.masks output memory).2.1.length = output.length := by
  have hclear : (Mask.clear output).length = output.length := List.length_replicate
  unfold masks
  dsimp only
  cases checkedMul matcher.states.length matcher.prepared.maskBytes with
  | none => exact ⟨rfl, hclear⟩
  | some required =>
    dsimp only
    split_ifs
    · exact ⟨rfl, hclear⟩
    · have hlength := (fillAllMasks_length matcher.prepared matcher.states
        ⟨Mask.clear output, ⟨matcher.scratch, memory⟩⟩).trans hclear
      generalize fillAllMasks matcher.prepared matcher.states
        ⟨Mask.clear output, ⟨matcher.scratch, memory⟩⟩ = out at hlength
      obtain ⟨reply, buffers⟩ := out
      cases reply with
      | error e => exact ⟨rfl, List.length_replicate.trans hlength⟩
      | ok _ => exact ⟨rfl, hlength⟩

/-- **How the core call of a step ends**, whatever the allocator does. -/
theorem Invariant.noResult_cases (hm : matcher.Invariant) (tokens : List (Option TokenId))
    (output : List UInt8) (memory : Memory) :
    ∃ reply written matcher' memory',
      matcher.advanceActiveAndMasksNoResult tokens output memory =
        (reply, written, matcher', memory') ∧
      matcher'.Invariant ∧ matcher'.prepared = matcher.prepared ∧
      matcher'.states.length = matcher.states.length ∧ written.length = output.length ∧
      ((∃ e, reply = .error e ∧ matcher'.states = matcher.states ∧
          (memory = .granting → matcher.prepared.advanceAndMaskRows true matcher.states tokens
            output.length = .error e)) ∨
        (reply = .ok () ∧ matcher.FusedCommit tokens output written matcher' ∧ matcher'.Live ∧
          matcher.prepared.Commits matcher.states (.advanceActive tokens) matcher'.states)) := by
  have hkeep := hm.call memory (.advanceActiveAndMasksNoResult tokens output)
  have hanswered := hm.call_answered memory (.advanceActiveAndMasksNoResult tokens output)
  have hclosed := fun e => matcher.call_closed memory (e := e)
    (c := .advanceActiveAndMasksNoResult tokens output) rfl id
  simp only [Matcher.call] at hkeep hanswered hclosed
  generalize matcher.advanceActiveAndMasksNoResult tokens output memory = out
    at hkeep hanswered hclosed
  obtain ⟨reply, written, matcher', memory'⟩ := out
  obtain ⟨hprepared, hstaging, hanswer⟩ := hanswered
  dsimp only at hkeep hprepared hstaging hanswer hclosed
  have hrows : matcher'.states.length = matcher.states.length := hkeep.staging.symm.trans hstaging
  refine ⟨reply, written, matcher', memory', rfl, hkeep, hprepared, hrows, ?_⟩
  rcases hanswer with ⟨hrespond, -⟩ | ⟨hrefused, ⟨requested, hreply⟩, hstates⟩
  · simp only [PreparedGrammar.respond] at hrespond
    cases hfused : matcher.prepared.advanceAndMaskRows true matcher.states tokens output.length with
    | error e =>
      rw [hfused] at hrespond
      have hreply : reply = .error e := map_eq_error.mp (congrArg (fun out => out.1.value) hrespond)
      have hwritten := hclosed e (by rw [hreply]; rfl)
      refine ⟨by rw [hwritten, List.length_replicate], Or.inl ⟨e, hreply, ?_, fun _ => rfl⟩⟩
      exact congrArg Prod.snd hrespond
    | ok out =>
      obtain ⟨staged, masks⟩ := out
      rw [hfused] at hrespond
      have hreply : reply = .ok () := by
        obtain ⟨_, hreply, -⟩ := map_eq_ok.mp (congrArg (fun out => out.1.value) hrespond)
        exact hreply
      have hwritten : written = matcher.prepared.packMasks output.length masks :=
        congrArg (fun out => out.1.written) hrespond
      have hstates : matcher'.states = staged.map Prod.snd := congrArg Prod.snd hrespond
      obtain ⟨htokens, -, hbuffer, hstaged, hmasks⟩ :=
        PreparedGrammar.advanceAndMaskRows_eq_ok.mp hfused
      have hplain := (advanceActiveRows_report htokens).mp hstaged
      have hcommit := hm.fusedCommit htokens hbuffer hplain hmasks hkeep hprepared hstates
      rw [← hwritten] at hcommit
      refine ⟨hcommit.length, Or.inr ⟨hreply, hcommit, hkeep.live_iff.mpr ⟨masks, ?_⟩, ?_⟩⟩
      · rw [hstates, hprepared]
        exact hmasks
      · rw [hstates]
        exact .active rfl htokens hplain
  · have hreply' : reply = .error (.allocationFailure requested) := map_eq_error.mp hreply
    have hwritten := hclosed _ hreply
    refine ⟨by rw [hwritten, List.length_replicate], Or.inl ⟨_, hreply', hstates, ?_⟩⟩
    exact fun hgranting => absurd hgranting hrefused.ne_granting

end Matcher

/-! ## The invariant -/

namespace NativeBatch

/-- **What holds of every reachable batch.** -/
structure Invariant (batch : NativeBatch) : Prop where
  matcher : batch.matcher.Invariant
  active : batch.activeTokens.length = batch.matcher.states.length
  buffer : batch.maskBuffer.length = batch.matcher.states.length * batch.matcher.maskBytes
  fits : batch.matcher.states.length * batch.matcher.maskBytes ≤ usizeMax
  pad : ∀ pad, batch.padTokenId = some pad → pad < batch.matcher.tokenCount
  unpadded : batch.padTokenId = none → batch.matcher.states.length = 1

/-- Some row still runs. -/
def Runs (batch : NativeBatch) : Prop :=
  ∃ (row : ℕ) (status : MatcherStatus), batch.matcher.states[row]? = some status ∧
    status.phase ≠ .accepted

variable {batch : NativeBatch}

theorem not_runs : ¬ batch.Runs ↔ ∀ (row : ℕ) (status : MatcherStatus),
    batch.matcher.states[row]? = some status → status.phase = .accepted := by
  simp only [Runs, not_exists, not_and, not_not]

/-! ## The scan -/

/-- The scan lets a token pass. -/
def Passes (batch : NativeBatch) (status : MatcherStatus) (token : TokenId) : Prop :=
  token < batch.matcher.tokenCount ∧ (status.phase = .accepted → batch.padTokenId = some token)

/-- What the scan leaves in `active_tokens`: the tokens of the running rows. -/
def activeFor (batch : NativeBatch) (tokens : List TokenId) : List (Option TokenId) :=
  (batch.matcher.states.zip tokens).map fun entry =>
    if entry.1.phase = .accepted then none else some entry.2

theorem activeFor_length {tokens : List TokenId}
    (htokens : tokens.length = batch.matcher.states.length) :
    (batch.activeFor tokens).length = batch.matcher.states.length := by
  rw [activeFor, List.length_map, List.length_zip, htokens, Nat.min_self]

theorem getElem?_activeFor {tokens : List TokenId} {row : ℕ} {status : MatcherStatus}
    {token : TokenId} (hrow : batch.matcher.states[row]? = some status)
    (htoken : tokens[row]? = some token) :
    (batch.activeFor tokens)[row]? =
      some (if status.phase = .accepted then none else some token) := by
  have hentry : (batch.matcher.states.zip tokens)[row]? = some (status, token) :=
    List.getElem?_zip_eq_some.mpr ⟨hrow, htoken⟩
  rw [activeFor, List.getElem?_map, hentry, Option.map_some]

/-- One row of the scan. -/
theorem stageToken_cases {tokens : List TokenId} {row : ℕ} {status : MatcherStatus}
    {token : TokenId} {activeTokens : List (Option TokenId)}
    (hrow : batch.matcher.states[row]? = some status) (htoken : tokens[row]? = some token)
    (hslot : row < activeTokens.length) :
    (batch.Passes status token ∧ batch.stageToken tokens row activeTokens =
        (.ok (), activeTokens.set row (if status.phase = .accepted then none else some token))) ∨
      (¬ batch.Passes status token ∧
        ∃ e, batch.stageToken tokens row activeTokens = (.error e, activeTokens)) := by
  unfold stageToken Passes
  simp only [htoken]
  by_cases hrange : token ≥ batch.matcher.tokenCount
  · rw [if_pos hrange]
    exact Or.inr ⟨fun h => Nat.not_lt.mpr hrange h.1, _, rfl⟩
  have hlt := Nat.not_le.mp hrange
  rw [if_neg hrange, Matcher.isCompleted_eq hrow]
  by_cases hphase : status.phase = .accepted
  · simp only [hphase, decide_true, if_true, true_implies]
    by_cases hpad : batch.padTokenId = some token
    · rw [if_pos hpad, setActive, if_pos hslot]
      exact Or.inl ⟨⟨hlt, hpad⟩, rfl⟩
    · rw [if_neg hpad]
      exact Or.inr ⟨fun h => hpad h.2, _, rfl⟩
  · simp only [hphase, decide_false, if_false]
    rw [setActive, if_pos hslot]
    exact Or.inl ⟨⟨hlt, fun h => h.elim⟩, rfl⟩

/-- The scan of the tokens, before row `i`: the tokens it has passed are in their slots, and
the later slots hold leftovers. -/
structure StagesTo (batch : NativeBatch) (tokens : List TokenId) (i : ℕ)
    (activeTokens : List (Option TokenId)) : Prop where
  length : activeTokens.length = batch.matcher.states.length
  slots : ∀ row < i, activeTokens[row]? = (batch.activeFor tokens)[row]?
  passes : ∀ row < i, ∀ (status : MatcherStatus) (token : TokenId),
    batch.matcher.states[row]? = some status → tokens[row]? = some token →
    batch.Passes status token

theorem StagesTo.start {tokens : List TokenId}
    (hactive : batch.activeTokens.length = batch.matcher.states.length) :
    batch.StagesTo tokens 0 batch.activeTokens :=
  ⟨hactive, fun row hrow => absurd hrow (Nat.not_lt_zero row),
    fun row hrow => absurd hrow (Nat.not_lt_zero row)⟩

theorem StagesTo.set {tokens : List TokenId} {row : ℕ} {activeTokens : List (Option TokenId)}
    {status : MatcherStatus} {token : TokenId} (h : batch.StagesTo tokens row activeTokens)
    (hstatus : batch.matcher.states[row]? = some status) (htoken : tokens[row]? = some token)
    (hpass : batch.Passes status token) :
    batch.StagesTo tokens (row + 1)
      (activeTokens.set row (if status.phase = .accepted then none else some token)) := by
  have hslot : row < activeTokens.length := by
    rw [h.length]
    exact (List.getElem?_eq_some_iff.mp hstatus).1
  refine ⟨by rw [List.length_set, h.length], ?_, ?_⟩
  · refine Nat.forall_lt_succ_right.mpr ⟨fun row' hlt => ?_, ?_⟩
    · rw [List.getElem?_set_ne (Nat.ne_of_gt hlt), h.slots row' hlt]
    · rw [List.getElem?_set_self hslot, getElem?_activeFor hstatus htoken]
  · refine Nat.forall_lt_succ_right.mpr ⟨h.passes, fun status' token' hstatus' htoken' => ?_⟩
    obtain rfl : status = status' := Option.some.inj (hstatus.symm.trans hstatus')
    obtain rfl : token = token' := Option.some.inj (htoken.symm.trans htoken')
    exact hpass

theorem StagesTo.finish {tokens : List TokenId} {activeTokens : List (Option TokenId)}
    (htokens : tokens.length = batch.matcher.states.length)
    (h : batch.StagesTo tokens tokens.length activeTokens) :
    activeTokens = batch.activeFor tokens ∧
      ∀ (row : ℕ) (status : MatcherStatus) (token : TokenId),
        batch.matcher.states[row]? = some status → tokens[row]? = some token →
        batch.Passes status token := by
  refine ⟨List.ext_getElem? fun row => ?_, fun row status token hstatus htoken => ?_⟩
  · by_cases hrow : row < tokens.length
    · exact h.slots row hrow
    · have hlength := h.length
      rw [List.getElem?_eq_none (by omega),
        List.getElem?_eq_none (by rw [activeFor_length htokens]; omega)]
  · exact h.passes row (List.getElem?_eq_some_iff.mp htoken).1 status token hstatus htoken

/-- **The scan** fills `active_tokens`, whatever was in it, or it stops at a token that
does not pass. -/
theorem stageTokens_cases (hactive : batch.activeTokens.length = batch.matcher.states.length)
    {tokens : List TokenId} (htokens : tokens.length = batch.matcher.states.length) :
    (batch.stageTokens tokens = (.ok (), { batch with activeTokens := batch.activeFor tokens }) ∧
        ∀ (row : ℕ) (status : MatcherStatus) (token : TokenId),
          batch.matcher.states[row]? = some status → tokens[row]? = some token →
          batch.Passes status token) ∨
      ∃ e activeTokens, batch.stageTokens tokens = (.error e, { batch with activeTokens }) ∧
        activeTokens.length = batch.matcher.states.length ∧
        ∃ (row : ℕ) (status : MatcherStatus) (token : TokenId),
          batch.matcher.states[row]? = some status ∧ tokens[row]? = some token ∧
          ¬ batch.Passes status token := by
  have hscan := @scan_ends _ _ tokens.length (batch.stageToken tokens) (batch.StagesTo tokens)
    (fun reply activeTokens => activeTokens.length = batch.matcher.states.length ∧
      ((reply = .ok () ∧ activeTokens = batch.activeFor tokens ∧
          ∀ (row : ℕ) (status : MatcherStatus) (token : TokenId),
            batch.matcher.states[row]? = some status → tokens[row]? = some token →
            batch.Passes status token) ∨
        (∃ e, reply = .error e) ∧ ∃ (row : ℕ) (status : MatcherStatus) (token : TokenId),
          batch.matcher.states[row]? = some status ∧ tokens[row]? = some token ∧
          ¬ batch.Passes status token))
    batch.activeTokens (StagesTo.start hactive) ?_ ?_
  · unfold stageTokens
    generalize scan tokens.length (batch.stageToken tokens) batch.activeTokens = out at hscan
    obtain ⟨reply, activeTokens⟩ := out
    obtain ⟨hlength, ⟨rfl, rfl, hpass⟩ | ⟨⟨e, rfl⟩, hstuck⟩⟩ := hscan
    · exact Or.inl ⟨rfl, hpass⟩
    · exact Or.inr ⟨e, activeTokens, rfl, hlength, hstuck⟩
  · intro row activeTokens hrow h reply activeTokens' hbody
    have hstatus := List.getElem?_eq_getElem (htokens ▸ hrow)
    have htoken := List.getElem?_eq_getElem hrow
    have hslot : row < activeTokens.length := by
      rw [h.length]
      omega
    rcases stageToken_cases hstatus htoken hslot with ⟨hpass, hset⟩ | ⟨hstuck, e, hstop⟩
    · obtain ⟨rfl, rfl⟩ := Prod.mk.inj (hset.symm.trans hbody)
      exact Or.inl ⟨rfl, h.set hstatus htoken hpass⟩
    · obtain ⟨rfl, rfl⟩ := Prod.mk.inj (hstop.symm.trans hbody)
      exact Or.inr ⟨e, rfl, h.length, Or.inr ⟨⟨e, rfl⟩, row, _, _, hstatus, htoken, hstuck⟩⟩
  · intro activeTokens h
    exact ⟨h.length, Or.inl ⟨rfl, StagesTo.finish htokens h⟩⟩

/-! ## Padding

An accepted row gets the mask of the pad token, byte by byte within its own slice. -/

/-- The mask of an accepted row: the pad token alone. -/
def padMask (batch : NativeBatch) (pad : TokenId) : List UInt8 :=
  PackedBits.insert (List.replicate batch.matcher.maskBytes 0) pad

/-- The row of the mask buffer that belongs to a row of the batch. -/
def rowMask (batch : NativeBatch) (row : ℕ) : List UInt8 :=
  RowSlices.slice batch.maskBuffer batch.matcher.maskBytes row

/-- A row of a padded buffer: the mask of a running row stays, an accepted row has the
pad token. -/
def PaddedRow (batch : NativeBatch) (buffer : List UInt8) (row : ℕ) (status : MatcherStatus) :
    Prop :=
  match status.phase with
  | .running _ => RowSlices.slice buffer batch.matcher.maskBytes row = batch.rowMask row
  | .accepted => ∃ pad, batch.padTokenId = some pad ∧
      RowSlices.slice buffer batch.matcher.maskBytes row = batch.padMask pad

theorem Invariant.pad_byte_lt (hb : batch.Invariant) {pad : TokenId}
    (hpad : batch.padTokenId = some pad) {bytes : List UInt8}
    (hbytes : bytes.length = batch.matcher.maskBytes) : pad / 8 < bytes.length :=
  hb.matcher.sound.byte_lt (hb.pad pad hpad) (Nat.le_of_eq hbytes.symm)

theorem Invariant.padMask_length (pad : TokenId) :
    (batch.padMask pad).length = batch.matcher.maskBytes := by
  rw [padMask, PackedBits.length_insert, List.length_replicate]

theorem setPackedBit_eq {output : List UInt8} {token : TokenId} (h : token / 8 < output.length) :
    setPackedBit output token = (.ok (), PackedBits.insert output token) := by
  simp only [setPackedBit, PackedBits.insert, List.getElem?_eq_getElem h, Option.getD_some]

theorem Invariant.row_offsets (hb : batch.Invariant) {row : ℕ}
    (hrow : row < batch.matcher.states.length) :
    checkedMul row batch.matcher.maskBytes = some (row * batch.matcher.maskBytes) ∧
      checkedAdd (row * batch.matcher.maskBytes) batch.matcher.maskBytes =
        some (row * batch.matcher.maskBytes + batch.matcher.maskBytes) := by
  have hin : row * batch.matcher.maskBytes + batch.matcher.maskBytes ≤
      batch.matcher.states.length * batch.matcher.maskBytes := RowSlices.row_le hrow
  have hfits := hb.fits
  exact ⟨checkedMul_eq_some.mpr ⟨by omega, rfl⟩, checkedAdd_eq_some.mpr ⟨by omega, rfl⟩⟩

theorem Invariant.padRow_cases (hb : batch.Invariant) {row : ℕ} {status : MatcherStatus}
    (hrow : batch.matcher.states[row]? = some status) {running : ℕ} {buffer : List UInt8}
    (hlength : buffer.length = batch.matcher.states.length * batch.matcher.maskBytes)
    (hzero : status.phase = .accepted → RowSlices.slice buffer batch.matcher.maskBytes row =
      List.replicate batch.matcher.maskBytes 0) :
    (status.phase ≠ .accepted ∧
        batch.padRow row (running, buffer) = (.ok (), running + 1, buffer)) ∨
      (status.phase = .accepted ∧ ∃ pad, batch.padTokenId = some pad ∧
        batch.padRow row (running, buffer) = (.ok (), running,
          RowSlices.write buffer batch.matcher.maskBytes row (batch.padMask pad))) ∨
      (status.phase = .accepted ∧ batch.padTokenId = none ∧ ∃ e, e.code = .sequenceCompleted ∧
        batch.padRow row (running, buffer) = (.error e, running, buffer)) := by
  obtain ⟨hlt, -⟩ := List.getElem?_eq_some_iff.mp hrow
  unfold padRow
  rw [Matcher.isCompleted_eq hrow]
  by_cases hphase : status.phase = .accepted
  · simp only [hphase, decide_true]
    cases hpad : batch.padTokenId with
    | none => exact Or.inr (Or.inr ⟨trivial, rfl, _, rfl, rfl⟩)
    | some pad =>
      obtain ⟨hstart, hstop⟩ := hb.row_offsets hlt
      have hin : row * batch.matcher.maskBytes + batch.matcher.maskBytes ≤
          batch.matcher.states.length * batch.matcher.maskBytes := RowSlices.row_le hlt
      have hroom : ¬ row * batch.matcher.maskBytes + batch.matcher.maskBytes > buffer.length := by
        omega
      have hslice : (buffer.take (row * batch.matcher.maskBytes + batch.matcher.maskBytes)).drop
          (row * batch.matcher.maskBytes) = List.replicate batch.matcher.maskBytes 0 := by
        rw [List.drop_take, Nat.add_sub_cancel_left]
        exact hzero hphase
      have hbyte : pad / 8 < (List.replicate batch.matcher.maskBytes (0 : UInt8)).length :=
        hb.pad_byte_lt hpad List.length_replicate
      simp only [hstart, hstop, if_neg hroom, hslice, setPackedBit_eq hbyte]
      exact Or.inr (Or.inl ⟨trivial, pad, rfl, rfl⟩)
  · simp only [hphase, decide_false]
    exact Or.inl ⟨hphase, trivial⟩

/-- The scan behind the core call, before row `i`: the rows it has passed are padded, the
later ones are as the core left them, and nothing is counted as long as it has passed
accepted rows only. -/
structure PadsTo (batch : NativeBatch) (i : ℕ) (padded : ℕ × List UInt8) : Prop where
  length : padded.2.length = batch.maskBuffer.length
  later : ∀ row ≥ i, RowSlices.slice padded.2 batch.matcher.maskBytes row = batch.rowMask row
  running : padded.1 = 0 ↔ ∀ row < i, ∀ status, batch.matcher.states[row]? = some status →
    status.phase = .accepted
  rows : ∀ row < i, ∀ status, batch.matcher.states[row]? = some status →
    batch.PaddedRow padded.2 row status

theorem PadsTo.start : batch.PadsTo 0 (0, batch.maskBuffer) where
  length := rfl
  later row _ := rfl
  running := by simp
  rows row hrow := absurd hrow (Nat.not_lt_zero row)

section
variable {row running : ℕ} {buffer : List UInt8} {status : MatcherStatus}

theorem PadsTo.count (h : batch.PadsTo row (running, buffer))
    (hstatus : batch.matcher.states[row]? = some status) (hphase : status.phase ≠ .accepted) :
    batch.PadsTo (row + 1) (running + 1, buffer) where
  length := h.length
  later row' hrow' := h.later row' (by omega)
  running := by
    refine iff_of_false (Nat.succ_ne_zero running) fun hall => ?_
    exact hphase (hall row (Nat.lt_succ_self row) status hstatus)
  rows := by
    refine Nat.forall_lt_succ_right.mpr ⟨h.rows, fun status' hstatus' => ?_⟩
    obtain rfl : status = status' := Option.some.inj (hstatus.symm.trans hstatus')
    unfold PaddedRow
    split
    · exact h.later row (Nat.le_refl row)
    · rename_i haccepted
      exact absurd haccepted hphase

theorem PadsTo.write (h : batch.PadsTo row (running, buffer))
    (hsize : buffer.length = batch.matcher.states.length * batch.matcher.maskBytes)
    (hstatus : batch.matcher.states[row]? = some status) (hphase : status.phase = .accepted)
    {pad : TokenId} (hpad : batch.padTokenId = some pad) :
    batch.PadsTo (row + 1)
      (running, RowSlices.write buffer batch.matcher.maskBytes row (batch.padMask pad)) := by
  obtain ⟨hrow, -⟩ := List.getElem?_eq_some_iff.mp hstatus
  have hwidth : (batch.padMask pad).length = batch.matcher.maskBytes :=
    Invariant.padMask_length pad
  have hroom : row * batch.matcher.maskBytes + batch.matcher.maskBytes ≤ buffer.length := by
    rw [hsize]
    exact RowSlices.row_le hrow
  refine ⟨(RowSlices.length_write hroom hwidth).trans h.length, fun row' hrow' => ?_, ?_, ?_⟩
  · show RowSlices.slice (RowSlices.write _ _ _ _) _ row' = batch.rowMask row'
    rw [RowSlices.slice_write_of_ne hroom hwidth (by omega)]
    exact h.later row' (by omega)
  · refine h.running.trans (Iff.trans ?_ Nat.forall_lt_succ_right.symm)
    refine (and_iff_left fun status' hstatus' => ?_).symm
    obtain rfl : status = status' := Option.some.inj (hstatus.symm.trans hstatus')
    exact hphase
  · refine Nat.forall_lt_succ_right.mpr ⟨fun row' hlt status' hstatus' => ?_, ?_⟩
    · have hthis := h.rows row' hlt status' hstatus'
      unfold PaddedRow at hthis ⊢
      rw [RowSlices.slice_write_of_ne hroom hwidth (Nat.ne_of_lt hlt)]
      exact hthis
    · intro status' hstatus'
      obtain rfl : status = status' := Option.some.inj (hstatus.symm.trans hstatus')
      unfold PaddedRow
      rw [hphase]
      exact ⟨pad, hpad, RowSlices.slice_write_self hroom hwidth⟩

/-- Behind the last row nothing is counted exactly when no row runs. -/
theorem PadsTo.finish {padded : ℕ × List UInt8}
    (h : batch.PadsTo batch.matcher.states.length padded) :
    (padded.1 = 0 ↔ ¬ batch.Runs) ∧ ∀ (row : ℕ) (status : MatcherStatus),
      batch.matcher.states[row]? = some status → batch.PaddedRow padded.2 row status := by
  refine ⟨h.running.trans (Iff.trans ⟨fun hall row status hstatus => ?_,
    fun hall row _ status hstatus => hall row status hstatus⟩ not_runs.symm),
    fun row status hstatus => ?_⟩
  · exact hall row (List.getElem?_eq_some_iff.mp hstatus).1 status hstatus
  · exact h.rows row (List.getElem?_eq_some_iff.mp hstatus).1 status hstatus

/-- Only a batch of one row has no pad token. -/
theorem Invariant.not_runs_of_unpadded (hb : batch.Invariant) (hpad : batch.padTokenId = none)
    (hstatus : batch.matcher.states[row]? = some status) (hphase : status.phase = .accepted) :
    ¬ batch.Runs := by
  have hone := hb.unpadded hpad
  refine not_runs.mpr fun row' status' hstatus' => ?_
  obtain ⟨hlt, -⟩ := List.getElem?_eq_some_iff.mp hstatus
  obtain ⟨hlt', -⟩ := List.getElem?_eq_some_iff.mp hstatus'
  obtain rfl : row = row' := by omega
  obtain rfl : status = status' := Option.some.inj (hstatus.symm.trans hstatus')
  exact hphase

end

/-- **Padding** touches the mask buffer only, and fails exactly when no row runs. -/
theorem Invariant.padAccepted_cases (hb : batch.Invariant)
    (hzero : ∀ (row : ℕ) (status : MatcherStatus), batch.matcher.states[row]? = some status →
      status.phase = .accepted → batch.rowMask row = List.replicate batch.matcher.maskBytes 0) :
    ∃ reply maskBuffer, batch.padAccepted = (reply, { batch with maskBuffer }) ∧
      maskBuffer.length = batch.maskBuffer.length ∧
      ((reply = .ok () ∧ batch.Runs ∧ ∀ (row : ℕ) (status : MatcherStatus),
          batch.matcher.states[row]? = some status → batch.PaddedRow maskBuffer row status) ∨
        (∃ e, reply = .error e ∧ e.code = .sequenceCompleted) ∧ ¬ batch.Runs) := by
  have hscan := @scan_ends _ _ batch.matcher.rowCount batch.padRow batch.PadsTo
    (fun reply padded => padded.2.length = batch.maskBuffer.length ∧
      ((reply = .ok () ∧ (padded.1 = 0 ↔ ¬ batch.Runs) ∧ ∀ (row : ℕ) (status : MatcherStatus),
          batch.matcher.states[row]? = some status → batch.PaddedRow padded.2 row status) ∨
        (∃ e, reply = .error e ∧ e.code = .sequenceCompleted) ∧ ¬ batch.Runs))
    (0, batch.maskBuffer) PadsTo.start ?_ ?_
  · unfold padAccepted
    generalize scan batch.matcher.rowCount batch.padRow (0, batch.maskBuffer) = out at hscan
    obtain ⟨reply, running, maskBuffer⟩ := out
    obtain ⟨hlength, ⟨rfl, hrunning, hpadded⟩ | ⟨⟨e, rfl, hcode⟩, hnone⟩⟩ := hscan
    · dsimp only at hrunning hpadded hlength ⊢
      by_cases hzero' : running = 0
      · rw [if_pos hzero']
        exact ⟨_, maskBuffer, rfl, hlength, Or.inr ⟨⟨_, rfl, rfl⟩, hrunning.mp hzero'⟩⟩
      · rw [if_neg hzero']
        refine ⟨_, maskBuffer, rfl, hlength, Or.inl ⟨rfl, ?_, hpadded⟩⟩
        exact not_not.mp fun h => hzero' (hrunning.mpr h)
    · exact ⟨_, maskBuffer, rfl, hlength, Or.inr ⟨⟨e, rfl, hcode⟩, hnone⟩⟩
  · rintro row ⟨running, buffer⟩ hrow h reply padded' hbody
    have hstatus := List.getElem?_eq_getElem (l := batch.matcher.states) hrow
    have hsize : buffer.length = batch.matcher.states.length * batch.matcher.maskBytes :=
      h.length.trans hb.buffer
    rcases @padRow_cases _ hb row _ hstatus running _ hsize
      (fun haccepted => (h.later row (Nat.le_refl row)).trans (hzero row _ hstatus haccepted)) with
      ⟨hphase, hcount⟩ | ⟨hphase, pad, hpad, hwrite⟩ | ⟨hphase, hpad, e, hcode, hstop⟩
    · obtain ⟨rfl, rfl⟩ := Prod.mk.inj (hcount.symm.trans hbody)
      exact Or.inl ⟨rfl, h.count hstatus hphase⟩
    · obtain ⟨rfl, rfl⟩ := Prod.mk.inj (hwrite.symm.trans hbody)
      exact Or.inl ⟨rfl, h.write hsize hstatus hphase hpad⟩
    · obtain ⟨rfl, rfl⟩ := Prod.mk.inj (hstop.symm.trans hbody)
      exact Or.inr ⟨e, rfl, h.length,
        Or.inr ⟨⟨e, rfl, hcode⟩, hb.not_runs_of_unpadded hpad hstatus hphase⟩⟩
  · intro padded h
    exact ⟨h.length, Or.inl ⟨rfl, PadsTo.finish h⟩⟩

/-! ## The step -/

/-- **A step committed**: every token passed the scan, the core advanced the running rows
by their tokens, and it left their masks in the buffer. -/
structure Committed (batch : NativeBatch) (tokens : List TokenId) (batch' : NativeBatch) :
    Prop where
  live : batch.poisoned = false
  length : tokens.length = batch.matcher.states.length
  passes : ∀ (row : ℕ) (status : MatcherStatus) (token : TokenId),
    batch.matcher.states[row]? = some status → tokens[row]? = some token →
    batch.Passes status token
  rows : batch.matcher.prepared.Commits batch.matcher.states
    (.advanceActive (batch.activeFor tokens)) batch'.matcher.states
  masks : batch.matcher.FusedCommit (batch.activeFor tokens) batch.maskBuffer batch'.maskBuffer
    batch'.matcher
  running : batch'.matcher.Live

/-- A step that has everything it needs, and still cannot commit. -/
def Refuses (batch : NativeBatch) (tokens : List TokenId) : Prop :=
  batch.poisoned = true ∨ tokens.length ≠ batch.matcher.states.length ∨
    (∃ (row : ℕ) (status : MatcherStatus) (token : TokenId),
      batch.matcher.states[row]? = some status ∧ tokens[row]? = some token ∧
      ¬ batch.Passes status token) ∨
    ∃ e, batch.matcher.prepared.advanceAndMaskRows true batch.matcher.states
      (batch.activeFor tokens) batch.maskBuffer.length = .error e

/-- What no call on a batch changes. -/
structure SameSession (batch batch' : NativeBatch) : Prop where
  prepared : batch'.matcher.prepared = batch.matcher.prepared
  rows : batch'.matcher.states.length = batch.matcher.states.length
  pad : batch'.padTokenId = batch.padTokenId

theorem SameSession.refl (batch : NativeBatch) : batch.SameSession batch := ⟨rfl, rfl, rfl⟩

theorem SameSession.trans {batch' batch'' : NativeBatch} (h : batch.SameSession batch')
    (h' : batch'.SameSession batch'') : batch.SameSession batch'' :=
  ⟨h'.prepared.trans h.prepared, h'.rows.trans h.rows, h'.pad.trans h.pad⟩

theorem Invariant.of_session (hb : batch.Invariant) {batch' : NativeBatch}
    (hm : batch'.matcher.Invariant) (hsession : batch.SameSession batch')
    (hactive : batch'.activeTokens.length = batch.activeTokens.length)
    (hbuffer : batch'.maskBuffer.length = batch.maskBuffer.length) : batch'.Invariant := by
  obtain ⟨hprepared, hrows, hpad⟩ := hsession
  have hwidth : batch'.matcher.maskBytes = batch.matcher.maskBytes :=
    congrArg PreparedGrammar.maskBytes hprepared
  refine ⟨hm, ?_, ?_, ?_, fun pad h => ?_, fun h => ?_⟩
  · rw [hactive, hrows, hb.active]
  · rw [hbuffer, hrows, hwidth, hb.buffer]
  · rw [hrows, hwidth]
    exact hb.fits
  · rw [Matcher.tokenCount, hprepared]
    exact hb.pad pad (hpad ▸ h)
  · rw [hrows]
    exact hb.unpadded (hpad ▸ h)

theorem Invariant.commitTokens_cases (hb : batch.Invariant) (memory : Memory) :
    ∃ reply matcher maskBuffer memory',
      batch.commitTokens memory = (reply, { batch with matcher, maskBuffer }, memory') ∧
      matcher.Invariant ∧ matcher.prepared = batch.matcher.prepared ∧
      matcher.states.length = batch.matcher.states.length ∧
      maskBuffer.length = batch.maskBuffer.length ∧
      (((∃ e, reply = .error e) ∧ matcher.states = batch.matcher.states ∧
          (memory = .granting → ∃ e, batch.matcher.prepared.advanceAndMaskRows true
            batch.matcher.states batch.activeTokens batch.maskBuffer.length = .error e)) ∨
        (reply = .ok () ∧
          batch.matcher.FusedCommit batch.activeTokens batch.maskBuffer maskBuffer matcher ∧
          matcher.Live ∧ batch.matcher.prepared.Commits batch.matcher.states
            (.advanceActive batch.activeTokens) matcher.states)) := by
  have hmul : checkedMul batch.matcher.rowCount batch.matcher.maskBytes =
      some (batch.matcher.states.length * batch.matcher.maskBytes) :=
    checkedMul_eq_some.mpr ⟨hb.fits, rfl⟩
  unfold commitTokens
  rw [hmul]
  dsimp only
  rw [if_neg (not_not_intro hb.buffer)]
  obtain ⟨reply, written, matcher, memory', hcall, hm, hprepared, hrows, hlength, hcases⟩ :=
    hb.matcher.noResult_cases batch.activeTokens batch.maskBuffer memory
  rw [hcall]
  refine ⟨_, matcher, written, memory', rfl, hm, hprepared, hrows, hlength, ?_⟩
  rcases hcases with ⟨e, rfl, hstates, hgranting⟩ | ⟨rfl, hcommit, hlive, hrows'⟩
  · exact Or.inl ⟨⟨_, rfl⟩, hstates, fun h => ⟨e, hgranting h⟩⟩
  · exact Or.inr ⟨rfl, hcommit, hlive, hrows'⟩

/-- **A step up to the core call**: it commits, or every row is as it was. -/
theorem Invariant.advanceInner_cases (hb : batch.Invariant) (tokens : List TokenId)
    (memory : Memory) :
    ∃ reply batch' memory', batch.advanceInner tokens memory = (reply, batch', memory') ∧
      batch'.Invariant ∧ batch.SameSession batch' ∧
      (((∃ e, reply = .error e) ∧ batch'.matcher.states = batch.matcher.states ∧
          (memory = .granting → batch.Refuses tokens)) ∨
        (reply = .ok () ∧ batch.Committed tokens batch')) := by
  unfold advanceInner ensureLive
  by_cases hpoisoned : batch.poisoned = true
  · rw [if_pos hpoisoned]
    exact ⟨_, batch, memory, rfl, hb, .refl batch, Or.inl ⟨⟨_, rfl⟩, rfl, fun _ => .inl hpoisoned⟩⟩
  rw [if_neg hpoisoned]
  by_cases htokens : tokens.length = batch.matcher.rowCount
  · dsimp only
    rw [if_neg (not_not_intro htokens)]
    rcases stageTokens_cases hb.active htokens with
      ⟨hstage, hpasses⟩ | ⟨e, activeTokens, hstage, hlength, hstuck⟩
    · rw [hstage]
      dsimp only
      have hstaged : ({ batch with activeTokens := batch.activeFor tokens } :
          NativeBatch).Invariant :=
        hb.of_session hb.matcher ⟨rfl, rfl, rfl⟩
          ((activeFor_length htokens).trans hb.active.symm) rfl
      obtain ⟨reply, matcher, maskBuffer, memory', hcommit, hm, hprepared, hrows, hbuffer,
          hcases⟩ :=
        hstaged.commitTokens_cases memory
      have hsession : batch.SameSession
          ⟨matcher, batch.padTokenId, batch.activeFor tokens, maskBuffer, batch.poisoned⟩ :=
        ⟨hprepared, hrows, rfl⟩
      refine ⟨_, _, _, hcommit, hb.of_session hm hsession
        ((activeFor_length htokens).trans hb.active.symm) hbuffer, hsession, ?_⟩
      rcases hcases with ⟨herror, hstates, hgranting⟩ | ⟨rfl, hmasks, hlive, hcommits⟩
      · exact Or.inl ⟨herror, hstates, fun h => .inr (.inr (.inr (hgranting h)))⟩
      · exact Or.inr ⟨rfl, Bool.eq_false_iff.mpr hpoisoned, htokens, hpasses, hcommits, hmasks,
          hlive⟩
    · rw [hstage]
      refine ⟨_, _, memory, rfl, hb.of_session hb.matcher ⟨rfl, rfl, rfl⟩
        (hlength.trans hb.active.symm) rfl, ⟨rfl, rfl, rfl⟩, Or.inl ⟨⟨e, rfl⟩, rfl, fun _ => ?_⟩⟩
      exact .inr (.inr (.inl hstuck))
  · dsimp only
    rw [if_pos htokens]
    exact ⟨_, batch, memory, rfl, hb, .refl batch,
      Or.inl ⟨⟨_, rfl⟩, rfl, fun _ => .inr (.inl htokens)⟩⟩

/-- **What a step that succeeds answers**: some row runs, every running row has the mask of
its state, and every accepted row has the pad token and nothing else. -/
structure Served (batch : NativeBatch) : Prop where
  runs : batch.Runs
  running : ∀ (row : ℕ) (status : MatcherStatus), batch.matcher.states[row]? = some status →
    status.phase ≠ .accepted →
    (batch.matcher.maskOf row).1 = .ok () ∧ batch.rowMask row = (batch.matcher.maskOf row).2
  accepted : ∀ (row : ℕ) (status : MatcherStatus), batch.matcher.states[row]? = some status →
    status.phase = .accepted → ∃ pad, batch.padTokenId = some pad ∧
      ∀ token, PackedBits.bit (batch.rowMask row) token = decide (token = pad)

theorem Invariant.bit_padMask (hb : batch.Invariant) {pad : TokenId}
    (hpad : batch.padTokenId = some pad) (token : TokenId) :
    PackedBits.bit (batch.padMask pad) token = decide (token = pad) := by
  have hbyte : pad / 8 < (List.replicate batch.matcher.maskBytes (0 : UInt8)).length :=
    hb.pad_byte_lt hpad List.length_replicate
  rw [padMask, PackedBits.bit_insert hbyte, PackedBits.bit_zero, Bool.false_or]
  exact decide_eq_decide.mpr eq_comm

/-- **Padding, behind a step that committed**: it serves the masks, or no row runs. -/
theorem Committed.padAccepted_cases {tokens : List TokenId} {batch' : NativeBatch}
    (h : batch.Committed tokens batch') (hb' : batch'.Invariant)
    (hsession : batch.SameSession batch') :
    ∃ reply batch'', batch'.padAccepted = (reply, batch'') ∧ batch''.Invariant ∧
      batch'.SameSession batch'' ∧ batch''.matcher = batch'.matcher ∧
      ((reply = .ok () ∧ batch''.Served) ∨
        (∃ e, reply = .error e ∧ e.code = .sequenceCompleted) ∧ ¬ batch''.Runs) := by
  have hwidth : batch.matcher.maskBytes = batch'.matcher.maskBytes :=
    congrArg PreparedGrammar.maskBytes hsession.prepared.symm
  obtain ⟨reply, maskBuffer, hpad, hlength, hcases⟩ := hb'.padAccepted_cases
    fun row status hrow hphase => by
      have hzero := h.masks.accepted row status hrow hphase
      rw [hwidth] at hzero
      exact hzero
  have hb'' : ({ batch' with maskBuffer } : NativeBatch).Invariant :=
    hb'.of_session hb'.matcher ⟨rfl, rfl, rfl⟩ rfl hlength
  refine ⟨reply, _, hpad, hb'', ⟨rfl, rfl, rfl⟩, rfl, ?_⟩
  rcases hcases with ⟨rfl, hruns, hpadded⟩ | ⟨herror, hnone⟩
  · refine Or.inl ⟨rfl, hruns, fun row status hrow hphase => ?_, fun row status hrow hphase => ?_⟩
    · refine ⟨h.running row status hrow hphase, ?_⟩
      have hrunning := h.masks.running row status hrow hphase
      rw [hwidth] at hrunning
      have hthis := hpadded row status hrow
      unfold PaddedRow at hthis
      split at hthis
      · exact hthis.trans hrunning
      · rename_i haccepted
        exact absurd haccepted hphase
    · have hthis := hpadded row status hrow
      unfold PaddedRow at hthis
      rw [hphase] at hthis
      obtain ⟨pad, hpad, hslice⟩ := hthis
      refine ⟨pad, hpad, fun token => ?_⟩
      rw [rowMask, hslice]
      exact hb'.bit_padMask hpad token
  · exact Or.inr ⟨herror, hnone⟩

/-- **A step.**  It fails and every row is as it was, or it commits; and then it succeeds
exactly when a row still runs. -/
theorem Invariant.advanceAndMasksInner_cases (hb : batch.Invariant) (tokens : List TokenId)
    (memory : Memory) :
    ∃ reply batch' memory', batch.advanceAndMasksInner tokens memory = (reply, batch', memory') ∧
      batch'.Invariant ∧ batch.SameSession batch' ∧
      (((∃ e, reply = .error e) ∧ (∃ e, (batch.advanceInner tokens memory).1 = .error e) ∧
          batch'.matcher.states = batch.matcher.states ∧
          (memory = .granting → batch.Refuses tokens)) ∨
        ((batch.advanceInner tokens memory).1 = .ok () ∧
          (∃ committed, batch.Committed tokens committed ∧
            batch'.matcher = committed.matcher) ∧
          ((reply = .ok () ∧ batch'.Served) ∨
            (∃ e, reply = .error e ∧ e.code = .sequenceCompleted) ∧ ¬ batch'.Runs))) := by
  obtain ⟨reply, committed, memory', hinner, hcommitted, hsession, hcases⟩ :=
    hb.advanceInner_cases tokens memory
  unfold advanceAndMasksInner
  rw [hinner]
  rcases hcases with ⟨⟨e, rfl⟩, hstates, hrefuses⟩ | ⟨rfl, hstep⟩
  · exact ⟨_, committed, memory', rfl, hcommitted, hsession,
      Or.inl ⟨⟨e, rfl⟩, ⟨e, rfl⟩, hstates, hrefuses⟩⟩
  · obtain ⟨reply, batch', hpad, hb', hsession', hmatcher, hends⟩ :=
      hstep.padAccepted_cases hcommitted hsession
    dsimp only
    rw [hpad]
    exact ⟨reply, batch', memory', rfl, hb', hsession.trans hsession',
      Or.inr ⟨rfl, ⟨committed, hstep, hmatcher⟩, hends⟩⟩

/-! ## The rows of a step

A commit, read row by row. -/

/-- **A step that commits, row by row**: an accepted row stays, and a running row advances
by its token. -/
theorem Committed.row {tokens : List TokenId} {batch' : NativeBatch}
    (h : batch.Committed tokens batch') (hb : batch.Invariant) {row : ℕ} {status : MatcherStatus}
    (hrow : batch.matcher.states[row]? = some status) :
    ∃ status' token, batch'.matcher.states[row]? = some status' ∧ tokens[row]? = some token ∧
      ((status.phase = .accepted ∧ status' = status) ∨
        (status.phase ≠ .accepted ∧ ∃ result,
          batch.matcher.prepared.advanceRow status token = .ok (result, status'))) := by
  obtain ⟨hlt, -⟩ := List.getElem?_eq_some_iff.mp hrow
  have htoken := List.getElem?_eq_getElem (l := tokens) (h.length.symm ▸ hlt)
  obtain ⟨status', hrow', hstep⟩ := h.rows.row hb.matcher.rows hrow
  refine ⟨status', _, hrow', htoken, ?_⟩
  rw [Call.tokenFor, getElem?_activeFor hrow htoken, Option.join_some] at hstep
  by_cases hphase : status.phase = .accepted
  · rw [if_pos hphase] at hstep
    exact Or.inl ⟨hphase, hstep⟩
  · rw [if_neg hphase] at hstep
    exact Or.inr ⟨hphase, hstep⟩

/-! ## Reachable batches -/

/-- The initial masks change no row. -/
theorem Invariant.initialMasksInner (hb : batch.Invariant) (memory : Memory) :
    (batch.initialMasksInner memory).2.1.Invariant ∧
      batch.SameSession (batch.initialMasksInner memory).2.1 ∧
      (batch.initialMasksInner memory).2.1.matcher.states = batch.matcher.states := by
  have hkeep := hb.matcher.call memory (.masks batch.maskBuffer)
  have hprepared := (hb.matcher.call_answered memory (.masks batch.maskBuffer)).prepared
  obtain ⟨hstates, hlength⟩ := batch.matcher.masks_keeps batch.maskBuffer memory
  simp only [Matcher.call] at hkeep hprepared
  unfold NativeBatch.initialMasksInner
  cases batch.ensureLive with
  | error e => exact ⟨hb, .refl batch, rfl⟩
  | ok _ =>
    dsimp only
    generalize batch.matcher.masks batch.maskBuffer memory = out
      at hkeep hprepared hlength hstates
    obtain ⟨reply, written, matcher, memory'⟩ := out
    have hsession : batch.SameSession { batch with matcher, maskBuffer := written } :=
      ⟨hprepared, congrArg List.length hstates, rfl⟩
    exact ⟨hb.of_session hkeep hsession rfl hlength, hsession, hstates⟩

end NativeBatch

/-- The Rust method behind a call. -/
def NativeCall.inner : NativeCall → NativeCall
  | .initialMasks => .initialMasksInner
  | .advanceAndMasks tokens => .advanceAndMasksInner tokens
  | c => c

namespace NativeBatch

variable {batch : NativeBatch}

theorem finishBatchCall_keeps (batch : NativeBatch) (result : Except NativeFailure Unit)
    (memory : Memory) :
    ∃ poisoned, (batch.finishBatchCall result memory).2.1 = { batch with poisoned } := by
  unfold finishBatchCall
  cases result with
  | error e => exact ⟨_, rfl⟩
  | ok _ =>
    rcases memory.reserve with ⟨answer, memory'⟩
    cases answer with
    | false => exact ⟨true, rfl⟩
    | true => exact ⟨batch.poisoned, rfl⟩

theorem Invariant.poison (hb : batch.Invariant) (poisoned : Bool) :
    ({ batch with poisoned } : NativeBatch).Invariant :=
  hb.of_session hb.matcher ⟨rfl, rfl, rfl⟩ rfl rfl

/-- **What Python sees is what Rust does**, up to the poison. -/
theorem call_inner (batch : NativeBatch) (memory : Memory) (c : NativeCall) :
    ∃ poisoned, (batch.call memory c).1 = { (batch.call memory c.inner).1 with poisoned } := by
  cases c with
  | initialMasksInner => exact ⟨_, rfl⟩
  | advanceAndMasksInner tokens => exact ⟨_, rfl⟩
  | initialMasks =>
    simp only [NativeBatch.call, NativeCall.inner, initialMasks]
    exact finishBatchCall_keeps _ _ _
  | advanceAndMasks tokens =>
    simp only [NativeBatch.call, NativeCall.inner, advanceAndMasks]
    exact finishBatchCall_keeps _ _ _

theorem Invariant.call_of_inner (hb : batch.Invariant) (memory : Memory) (c : NativeCall) :
    (batch.call memory c.inner).1.Invariant ∧ batch.SameSession (batch.call memory c.inner).1 := by
  have hinitial := hb.initialMasksInner memory
  have hstep : ∀ tokens, (batch.advanceAndMasksInner tokens memory).2.1.Invariant ∧
      batch.SameSession (batch.advanceAndMasksInner tokens memory).2.1 := by
    intro tokens
    obtain ⟨reply, batch', memory', hstep, hb', hsession, -⟩ :=
      hb.advanceAndMasksInner_cases tokens memory
    rw [hstep]
    exact ⟨hb', hsession⟩
  cases c with
  | initialMasksInner => exact ⟨hinitial.1, hinitial.2.1⟩
  | initialMasks => exact ⟨hinitial.1, hinitial.2.1⟩
  | advanceAndMasksInner tokens => exact hstep tokens
  | advanceAndMasks tokens => exact hstep tokens

/-- **Calls keep the invariant**, and the session. -/
theorem Invariant.call (hb : batch.Invariant) (memory : Memory) (c : NativeCall) :
    (batch.call memory c).1.Invariant ∧ batch.SameSession (batch.call memory c).1 := by
  obtain ⟨hinner, hprepared, hrows, hpad⟩ := hb.call_of_inner memory c
  obtain ⟨poisoned, hcall⟩ := batch.call_inner memory c
  rw [hcall]
  exact ⟨hinner.poison poisoned, hprepared, hrows, hpad⟩

/-- A grammar that has not been taken gives out a batch when the checks pass and the
allocator grants everything. -/
theorem newBatchInner_granting {grammar : NativeGrammar} {prepared : PreparedGrammar}
    {rows packedBytes : ℕ} {padTokenId : Option TokenId}
    (hcheck : grammar.checkBatch rows padTokenId = .ok ()) (hrows : rows ≠ 0)
    (hprepared : grammar.prepared = some prepared)
    (hmul : checkedMul rows prepared.maskBytes = some packedBytes)
    (hbound : packedBytes ≤ maxPackedMaskBytes) :
    (grammar.newBatchInner rows padTokenId .granting).1 =
      .ok ⟨.fresh prepared rows, padTokenId, List.replicate rows none,
        List.replicate packedBytes 0, false⟩ := by
  have hzeroed : zeroedBytes packedBytes .granting =
      (.ok (List.replicate packedBytes 0), .granting) := by
    simp only [zeroedBytes, if_neg (Nat.not_lt.mpr hbound), reserve_granting]
  simp only [NativeGrammar.newBatchInner, hcheck, hprepared, hmul,
    if_neg (Nat.not_lt.mpr hbound), reserve_granting, hzeroed,
    Matcher.intoMatcher_granting hrows]

/-- **A batch that a grammar gives out**: a fresh matcher, and buffers of its size. -/
theorem eq_newBatch {grammar : NativeGrammar} {rows : ℕ} {padTokenId : Option TokenId}
    {memory : Memory} (h : (grammar.newBatchInner rows padTokenId memory).1 = .ok batch) :
    ∃ prepared, grammar.prepared = some prepared ∧ batch.Invariant ∧
      batch.matcher = .fresh prepared rows ∧ batch.padTokenId = padTokenId := by
  unfold NativeGrammar.newBatchInner at h
  have hcheck : grammar.checkBatch rows padTokenId = .ok () → rows ≠ 0 ∧
      (padTokenId = none → rows = 1) ∧ ∀ pad, padTokenId = some pad → pad < grammar.vocabSize := by
    unfold NativeGrammar.checkBatch
    intro hok
    split_ifs at hok with hrows hmax hpadded
    refine ⟨hrows, fun hnone => ?_, fun pad hpad => ?_⟩
    · by_contra hmany
      exact hpadded ⟨by omega, hnone⟩
    · rw [hpad] at hok
      dsimp only at hok
      split_ifs at hok with hrange
      exact Nat.not_le.mp hrange
  split at h
  · cases h
  rename_i hchecked
  obtain ⟨hrows, hunpadded, hpad⟩ := hcheck hchecked
  split at h
  · cases h
  rename_i prepared hprepared
  obtain ⟨⟨source, limits, hprepare⟩, hvocab⟩ := grammar.compiled prepared hprepared
  split at h
  · cases h
  rename_i packedBytes hmul
  obtain ⟨hfit, rfl⟩ := checkedMul_eq_some.mp hmul
  split at h
  · cases h
  split at h
  · cases h
  split at h
  · cases h
  rename_i maskBuffer memory₂ hzeroed
  split at h
  · cases h
  rename_i matcher memory₃ hmatcher
  obtain ⟨-, rfl⟩ := Matcher.eq_fresh hmatcher
  cases h
  have hbuffer : maskBuffer = List.replicate (rows * prepared.maskBytes) 0 := by
    unfold zeroedBytes at hzeroed
    split_ifs at hzeroed
    split at hzeroed
    · cases hzeroed
    · cases hzeroed
      rfl
  have hlength : (Matcher.fresh prepared rows).states.length = rows := List.length_replicate
  refine ⟨prepared, hprepared, ⟨Matcher.fresh_invariant (prepare_sound hprepare).2 rows, ?_, ?_, ?_,
    fun pad hsome => ?_, fun hnone => ?_⟩, rfl, rfl⟩
  · rw [hlength, List.length_replicate]
  · rw [hbuffer, hlength, List.length_replicate]
    rfl
  · rw [hlength]
    exact hfit
  · exact (hpad pad hsome).trans_eq hvocab
  · rw [hlength]
    exact hunpadded hnone

/-- **Reachable batches keep the invariant.** -/
theorem Reachable.invariant (h : batch.Reachable) : batch.Invariant := by
  induction h with
  | fresh hnew =>
    obtain ⟨-, -, hb, -⟩ := eq_newBatch hnew
    exact hb
  | call memory c _ ih => exact (ih.call memory c).1

end NativeBatch
end GreatGramma
