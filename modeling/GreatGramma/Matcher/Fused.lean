import GreatGramma.Matcher.Batches

/-!
# The fused calls

`advance_active_and_masks` and its variant without results advance a batch and write the masks of
the rows it leads to, and commit only if every running row has a mask.  They are `advance_active`
followed by `mask`, row by row: the same rows, the same bytes, and the error of whichever would
fail first.

## One call or two

To say this, the two sides are put beside each other.  The unfused side advances, and then asks
the matcher that it leads to for the mask of every row, in a buffer of the size of a slice
(`maskOf`).  The fused call succeeds just if the batch does and every running row of its successor
has a mask; it then leaves the rows of the batch and writes just these masks, with zeros in the
slices of accepted rows and behind the rows (`FusedCommit`).

If it fails, the rows are what they were, and there are two causes in this order: the first row
that cannot take its token (`FirstStuck`), and the first running row of the successor without a
mask (`FirstDead`).  The variant without results names the row of the first kind.  Both variants
follow one law with other values and other reports (`Fused`).

## No dead ends

A running row without a mask is a dead end, from which nothing can be generated.  A fused call
commits none (`Invariant.call_live`), so a run of fused calls that commits anything leaves a mask
to every running row (`Invariant.run_live`).
-/

namespace GreatGramma

open Reservation Traversal

namespace Matcher

variable (matcher : Matcher)

/-- The mask of a row, in a buffer of the size it needs. -/
def maskOf (row : ℕ) : Except EngineError Unit × List UInt8 :=
  let out := matcher.mask row (List.replicate matcher.maskBytes 0) .granting
  (out.1, out.2.1)

/-- Every running row has a mask. -/
def Live : Prop :=
  ∀ (row : ℕ) (status : MatcherStatus), matcher.states[row]? = some status →
    status.phase ≠ .accepted → (matcher.maskOf row).1 = .ok ()

/-- The first running row without a mask, and why it has none. -/
def FirstDead (e : EngineError) : Prop :=
  ∃ (row : ℕ) (status : MatcherStatus), matcher.states[row]? = some status ∧
    status.phase ≠ .accepted ∧ (matcher.maskOf row).1 = .error e ∧
    ∀ row' < row, ∀ status', matcher.states[row']? = some status' →
      status'.phase ≠ .accepted → (matcher.maskOf row').1 = .ok ()

/-- The first row that cannot take its token, and why. -/
def FirstStuck (slot : MatcherStatus) (scratch : List ParserStateId)
    (tokens : List (Option TokenId)) (row : ℕ) (e : EngineError) : Prop :=
  row < matcher.states.length ∧
    (matcher.advanceActiveAlone slot scratch tokens row).1 = .error e ∧
    ∀ row' < row, ∃ result, (matcher.advanceActiveAlone slot scratch tokens row').1 = .ok result

/-- What a fused call that commits leaves behind: the rows of the unfused call, and in
the buffer the masks that `mask` then writes. -/
structure FusedCommit (tokens : List (Option TokenId)) (output written : List UInt8)
    (matcher' : Matcher) : Prop where
  rows : matcher'.states = (matcher.advanceActive tokens .granting).2.1.states
  length : written.length = output.length
  running : ∀ (row : ℕ) (status : MatcherStatus), matcher'.states[row]? = some status →
    status.phase ≠ .accepted →
    (written.drop (row * matcher.maskBytes)).take matcher.maskBytes = (matcher'.maskOf row).2
  accepted : ∀ (row : ℕ) (status : MatcherStatus), matcher'.states[row]? = some status →
    status.phase = .accepted →
    (written.drop (row * matcher.maskBytes)).take matcher.maskBytes =
      List.replicate matcher.maskBytes 0
  rest : written.drop (matcher.states.length * matcher.maskBytes) =
    List.replicate (output.length - matcher.states.length * matcher.maskBytes) 0

/-- **The law of a fused call**: what it replies, where `value` is what it makes of the
results of the unfused call and `report` names the error of a row, what it writes, and
what it leaves behind. -/
structure Fused {α : Type} (slot : MatcherStatus) (scratch : List ParserStateId)
    (tokens : List (Option TokenId)) (output : List UInt8)
    (value : List (Option AdvanceResult) → α) (report : ℕ → EngineError → EngineError)
    (out : Except EngineError α × List UInt8 × Matcher × Memory) : Prop where
  ok : ∀ v, out.1 = .ok v ↔
    ∃ results, (matcher.advanceActive tokens .granting).1 = .ok results ∧ v = value results ∧
      (matcher.advanceActive tokens .granting).2.1.Live
  commit : ∀ v, out.1 = .ok v → matcher.FusedCommit tokens output out.2.1 out.2.2.1
  error : ∀ e, out.1 = .error e → out.2.2.1.states = matcher.states ∧
    out.2.1 = Mask.clear output ∧
    ((∃ row e', matcher.FirstStuck slot scratch tokens row e' ∧ e = report row e') ∨
      (∃ results, (matcher.advanceActive tokens .granting).1 = .ok results) ∧
        (matcher.advanceActive tokens .granting).2.1.FirstDead e)

variable {matcher}

/-! ## Masks of rows -/

theorem Invariant.maskOf_eq (hm : matcher.Invariant) {row : ℕ} {status : MatcherStatus}
    (hrow : matcher.states[row]? = some status) :
    (matcher.maskOf row).1 =
        (matcher.prepared.maskRow matcher.prepared.maskBytes status).map (fun _ => ()) ∧
      ∀ tokens, matcher.prepared.maskRow matcher.prepared.maskBytes status = .ok tokens →
        (matcher.maskOf row).2 = PreparedGrammar.packMask matcher.prepared.maskBytes tokens := by
  obtain ⟨matcher', -, -, hmask, -⟩ :=
    hm.mask_granting hrow (List.replicate matcher.maskBytes 0)
  rw [List.length_replicate] at hmask
  unfold maskOf
  rw [hmask]
  refine ⟨rfl, fun tokens htokens => ?_⟩
  dsimp only [maskBytes]
  rw [htokens]

theorem Invariant.successorMask_eq (hm : matcher.Invariant) {row : ℕ} {status : MatcherStatus}
    (hrow : matcher.states[row]? = some status) :
    (status.phase = .accepted ∧ matcher.prepared.successorMask status = .ok []) ∨
    (status.phase ≠ .accepted ∧
      (matcher.maskOf row).1 = (matcher.prepared.successorMask status).map (fun _ => ()) ∧
      ∀ tokens, matcher.prepared.successorMask status = .ok tokens →
        (matcher.maskOf row).2 = PreparedGrammar.packMask matcher.prepared.maskBytes tokens) := by
  have hmask := hm.maskOf_eq hrow
  cases hphase : status.phase with
  | accepted =>
    refine Or.inl ⟨rfl, ?_⟩
    simp only [PreparedGrammar.successorMask, hphase]
  | running lexer =>
    refine Or.inr ⟨fun h => (by cases h), ?_⟩
    simp only [PreparedGrammar.successorMask, hphase]
    exact hmask

theorem Invariant.maskOf_ok_iff (hm : matcher.Invariant) {row : ℕ} {status : MatcherStatus}
    (hrow : matcher.states[row]? = some status) :
    (status.phase ≠ .accepted → (matcher.maskOf row).1 = .ok ()) ↔
      ∃ tokens, matcher.prepared.successorMask status = .ok tokens := by
  rcases hm.successorMask_eq hrow with ⟨hphase, hmask⟩ | ⟨hphase, hmask, -⟩
  · exact ⟨fun _ => ⟨[], hmask⟩, fun _ h => absurd hphase h⟩
  · rw [hmask]
    constructor
    · intro h
      obtain ⟨tokens, htokens, -⟩ := map_eq_ok.mp (h hphase)
      exact ⟨tokens, htokens⟩
    · rintro ⟨tokens, htokens⟩ -
      rw [htokens]
      rfl

/-- **Every running row has a mask** exactly when the masks of all rows can be
written. -/
theorem Invariant.live_iff (hm : matcher.Invariant) :
    matcher.Live ↔ ∃ masks, matcher.states.mapM matcher.prepared.successorMask = .ok masks := by
  constructor
  · intro hlive
    cases hmasks : matcher.states.mapM matcher.prepared.successorMask with
    | ok masks => exact ⟨masks, rfl⟩
    | error e =>
      obtain ⟨row, status, hrow, hfail, -⟩ := exists_first_of_mapM_error hmasks
      obtain ⟨tokens, htokens⟩ := (hm.maskOf_ok_iff hrow).mp (hlive row status hrow)
      rw [htokens] at hfail
      cases hfail
  · rintro ⟨masks, hmasks⟩ row status hrow hphase
    obtain ⟨hlength, hall⟩ := mapM_eq_ok_get.mp hmasks
    obtain ⟨hlt, rfl⟩ := List.getElem?_eq_some_iff.mp hrow
    exact (hm.maskOf_ok_iff hrow).mpr ⟨_, hall row hlt (hlength.symm ▸ hlt)⟩ hphase

theorem Invariant.firstDead_of (hm : matcher.Invariant) {e : EngineError}
    (h : matcher.states.mapM matcher.prepared.successorMask = .error e) : matcher.FirstDead e := by
  obtain ⟨row, status, hrow, hfail, hbefore⟩ := exists_first_of_mapM_error h
  rcases hm.successorMask_eq hrow with ⟨-, hmask⟩ | ⟨hphase, hmask, -⟩
  · rw [hmask] at hfail
    cases hfail
  · refine ⟨row, status, hrow, hphase, ?_, fun row' hrow' status' hstatus' => ?_⟩
    · rw [hmask, hfail]
      rfl
    · obtain ⟨earlier, tokens, hearlier, htokens⟩ := hbefore row' hrow'
      obtain rfl := Option.some.inj (hearlier.symm.trans hstatus')
      exact (hm.maskOf_ok_iff hstatus').mpr ⟨tokens, htokens⟩

/-! ## Slices

The buffer of a batch is read row by row, with the bytes behind the rows. -/

theorem packMasks_row (prepared : PreparedGrammar) {masks : List (List TokenId)} {row : ℕ}
    (hrow : row < masks.length) (length : ℕ) :
    ((prepared.packMasks length masks).drop (row * prepared.maskBytes)).take prepared.maskBytes =
      PreparedGrammar.packMask prepared.maskBytes masks[row] := by
  have hbefore : row * prepared.maskBytes =
      ((masks.take row).map (PreparedGrammar.packMask prepared.maskBytes)).flatten.length := by
    rw [PreparedGrammar.length_packed, List.length_take, Nat.min_eq_left (Nat.le_of_lt hrow)]
  have hparts : (masks.map (PreparedGrammar.packMask prepared.maskBytes)).flatten =
      ((masks.take row).map (PreparedGrammar.packMask prepared.maskBytes)).flatten ++
        (PreparedGrammar.packMask prepared.maskBytes masks[row] ++
          ((masks.drop (row + 1)).map (PreparedGrammar.packMask prepared.maskBytes)).flatten) := by
    conv_lhs => rw [← List.take_append_drop row masks, ← List.getElem_cons_drop hrow]
    rw [List.map_append, List.flatten_append, List.map_cons, List.flatten_cons]
  rw [PreparedGrammar.packMasks, hparts, List.append_assoc, hbefore, List.drop_left,
    List.append_assoc, List.take_left' (PreparedGrammar.length_packMask _ _)]

theorem packMasks_rest {prepared : PreparedGrammar} {masks : List (List TokenId)} (length : ℕ) :
    (prepared.packMasks length masks).drop (masks.length * prepared.maskBytes) =
      List.replicate (length - masks.length * prepared.maskBytes) 0 := by
  rw [PreparedGrammar.packMasks, ← PreparedGrammar.length_packed, List.drop_left]

/-! ## The fused calls -/

theorem Invariant.advanceActive_ok (hm : matcher.Invariant) {tokens : List (Option TokenId)}
    {staged : List (Option AdvanceResult × MatcherStatus)}
    (htokens : tokens.length = matcher.states.length)
    (hstaged : matcher.prepared.advanceActiveRows false matcher.states tokens = .ok staged) :
    ∃ matcher', matcher'.Invariant ∧ matcher'.prepared = matcher.prepared ∧
      matcher.advanceActive tokens .granting = (.ok (staged.map Prod.fst), matcher', .granting) ∧
      matcher'.states = staged.map Prod.snd := by
  obtain ⟨matcher', hm', hprepared, hadvance, hstates⟩ := hm.advanceActive_granting htokens
  rw [hstaged] at hadvance hstates
  exact ⟨matcher', hm', hprepared, hadvance, hstates⟩

theorem advanceActiveRows_report {prepared : PreparedGrammar} {states : List MatcherStatus}
    {tokens : List (Option TokenId)} {staged : List (Option AdvanceResult × MatcherStatus)}
    (htokens : tokens.length = states.length) :
    prepared.advanceActiveRows true states tokens = .ok staged ↔
      prepared.advanceActiveRows false states tokens = .ok staged := by
  rw [PreparedGrammar.advanceActiveRows_eq_ok htokens,
    PreparedGrammar.advanceActiveRows_eq_ok htokens]
  simp only [PreparedGrammar.advanceActiveRow_report, mapError_eq_ok]

theorem Invariant.firstStuck_of (hm : matcher.Invariant) (slot : MatcherStatus)
    (scratch : List ParserStateId) {tokens : List (Option TokenId)} {e : EngineError}
    (htokens : tokens.length = matcher.states.length) :
    (matcher.prepared.advanceActiveRows false matcher.states tokens = .error e →
      ∃ row, matcher.FirstStuck slot scratch tokens row e) ∧
    (matcher.prepared.advanceActiveRows true matcher.states tokens = .error e →
      ∃ row e', matcher.FirstStuck slot scratch tokens row e' ∧ e = e'.atRow row) := by
  have hbefore : ∀ reportRejectedRow row,
      (∀ row', ∀ hrow' : row' < matcher.states.length, ∀ htoken' : row' < tokens.length,
        row' < row → ∃ entry, matcher.prepared.advanceActiveRow reportRejectedRow row'
          matcher.states[row'] tokens[row'] = .ok entry) →
      ∀ row' < row, row < matcher.states.length →
        ∃ result, (matcher.advanceActiveAlone slot scratch tokens row').1 = .ok result := by
    intro reportRejectedRow row hall row' hlt hrow
    have hrow' := Nat.lt_trans hlt hrow
    have htoken' : row' < tokens.length := htokens.symm ▸ hrow'
    obtain ⟨entry, hentry⟩ := hall row' hrow' htoken' hlt
    rw [(hm.advanceActiveAlone_eq slot scratch hrow' htoken').1]
    cases reportRejectedRow with
    | false => exact ⟨entry.1, by rw [hentry]; rfl⟩
    | true =>
      rw [PreparedGrammar.advanceActiveRow_report, mapError_eq_ok] at hentry
      exact ⟨entry.1, by rw [hentry]; rfl⟩
  constructor
  · intro h
    obtain ⟨row, hrow, htoken, hfail, hall⟩ :=
      (PreparedGrammar.advanceActiveRows_eq_error htokens).mp h
    refine ⟨row, hrow, ?_, fun row' hlt => hbefore false row hall row' hlt hrow⟩
    rw [(hm.advanceActiveAlone_eq slot scratch hrow htoken).1, hfail]
    rfl
  · intro h
    obtain ⟨row, hrow, htoken, hfail, hall⟩ :=
      (PreparedGrammar.advanceActiveRows_eq_error htokens).mp h
    rw [PreparedGrammar.advanceActiveRow_report] at hfail
    cases hplain : matcher.prepared.advanceActiveRow false row matcher.states[row] tokens[row] with
    | ok entry =>
      rw [hplain] at hfail
      cases hfail
    | error e' =>
      rw [hplain] at hfail
      refine ⟨row, e', ⟨hrow, ?_, fun row' hlt => hbefore true row hall row' hlt hrow⟩, ?_⟩
      · rw [(hm.advanceActiveAlone_eq slot scratch hrow htoken).1, hplain]
        rfl
      · cases hfail
        rfl

/-- **What a fused call commits.** -/
theorem Invariant.fusedCommit (hm : matcher.Invariant) {tokens : List (Option TokenId)}
    {output : List UInt8} {staged : List (Option AdvanceResult × MatcherStatus)}
    {masks : List (List TokenId)} {matcher' : Matcher}
    (htokens : tokens.length = matcher.states.length)
    (hbuffer : matcher.states.length * matcher.maskBytes ≤ output.length)
    (hstaged : matcher.prepared.advanceActiveRows false matcher.states tokens = .ok staged)
    (hmasks : (staged.map Prod.snd).mapM matcher.prepared.successorMask = .ok masks)
    (hm' : matcher'.Invariant) (hprepared : matcher'.prepared = matcher.prepared)
    (hstates : matcher'.states = staged.map Prod.snd) :
    matcher.FusedCommit tokens output (matcher.prepared.packMasks output.length masks)
      matcher' := by
  obtain ⟨plain, -, -, hplain, hrows⟩ := hm.advanceActive_ok htokens hstaged
  obtain ⟨hcount, hall⟩ := mapM_eq_ok_get.mp hmasks
  have hlength : masks.length = matcher.states.length := by
    rw [hcount, List.length_map, ((PreparedGrammar.advanceActiveRows_eq_ok htokens).mp hstaged).1]
  have hmask : ∀ (row : ℕ) (status : MatcherStatus), matcher'.states[row]? = some status →
      ∃ hrow : row < masks.length, matcher.prepared.successorMask status = .ok masks[row] := by
    intro row status hrow
    rw [hstates] at hrow
    obtain ⟨hlt, rfl⟩ := List.getElem?_eq_some_iff.mp hrow
    exact ⟨hcount.symm ▸ hlt, hall row hlt (hcount.symm ▸ hlt)⟩
  refine ⟨?_, PreparedGrammar.length_packMasks (hlength.symm ▸ hbuffer), ?_, ?_, ?_⟩
  · rw [hplain, hstates]
    exact hrows.symm
  · intro row status hrow hphase
    obtain ⟨hlt, hthis⟩ := hmask row status hrow
    rcases hm'.successorMask_eq hrow with ⟨haccepted, -⟩ | ⟨-, -, hwritten⟩
    · exact absurd haccepted hphase
    · rw [hprepared] at hwritten
      rw [hwritten masks[row] hthis]
      exact packMasks_row matcher.prepared hlt output.length
  · intro row status hrow hphase
    obtain ⟨hlt, hthis⟩ := hmask row status hrow
    rcases hm'.successorMask_eq hrow with ⟨-, hempty⟩ | ⟨hrunning, -⟩
    · rw [hprepared, hthis] at hempty
      have hslice := packMasks_row matcher.prepared hlt output.length
      rw [Except.ok.inj hempty] at hslice
      exact hslice
    · exact absurd hphase hrunning
  · rw [← hlength]
    exact packMasks_rest output.length

theorem Invariant.firstDead_of_staged (hm : matcher.Invariant) {tokens : List (Option TokenId)}
    {staged : List (Option AdvanceResult × MatcherStatus)} {e : EngineError}
    (htokens : tokens.length = matcher.states.length)
    (hstaged : matcher.prepared.advanceActiveRows false matcher.states tokens = .ok staged)
    (hmasks : (staged.map Prod.snd).mapM matcher.prepared.successorMask = .error e) :
    (∃ results, (matcher.advanceActive tokens .granting).1 = .ok results) ∧
      (matcher.advanceActive tokens .granting).2.1.FirstDead e := by
  obtain ⟨plain, hplain, hprepared, hadvance, hrows⟩ := hm.advanceActive_ok htokens hstaged
  rw [hadvance]
  refine ⟨⟨_, rfl⟩, hplain.firstDead_of ?_⟩
  rw [hrows, hprepared]
  exact hmasks

/-- **When a fused call commits.** -/
theorem Invariant.fused_ok_iff (hm : matcher.Invariant) {tokens : List (Option TokenId)}
    {results : List (Option AdvanceResult)} (htokens : tokens.length = matcher.states.length) :
    (∃ staged masks, matcher.prepared.advanceActiveRows false matcher.states tokens = .ok staged ∧
      (staged.map Prod.snd).mapM matcher.prepared.successorMask = .ok masks ∧
      staged.map Prod.fst = results) ↔
    (matcher.advanceActive tokens .granting).1 = .ok results ∧
      (matcher.advanceActive tokens .granting).2.1.Live := by
  constructor
  · rintro ⟨staged, masks, hstaged, hmasks, rfl⟩
    obtain ⟨plain, hplain, hprepared, hadvance, hrows⟩ := hm.advanceActive_ok htokens hstaged
    rw [hadvance]
    refine ⟨rfl, hplain.live_iff.mpr ⟨masks, ?_⟩⟩
    rw [hrows, hprepared]
    exact hmasks
  · rintro ⟨hresults, hlive⟩
    obtain ⟨plain, hplain, hprepared, hadvance, hrows⟩ := hm.advanceActive_granting htokens
    rw [hadvance] at hresults hlive
    obtain ⟨staged, hstaged, rfl⟩ := map_eq_ok.mp hresults
    obtain ⟨masks, hmasks⟩ := hplain.live_iff.mp hlive
    rw [hrows, hprepared, hstaged] at hmasks
    exact ⟨staged, masks, hstaged, hmasks, rfl⟩

/-- The law of a fused call, from what the rows answer. -/
theorem Invariant.fused_of (hm : matcher.Invariant) (slot : MatcherStatus)
    (scratch : List ParserStateId) {α : Type} {value : List (Option AdvanceResult) → α}
    {report : ℕ → EngineError → EngineError} (reportRejectedRow : Bool)
    {tokens : List (Option TokenId)} {output written : List UInt8} {reply : Except EngineError α}
    {matcher' : Matcher} (htokens : tokens.length = matcher.states.length)
    (hbuffer : matcher.states.length * matcher.maskBytes ≤ output.length)
    (houtput : output.length ≤ usizeMax)
    (hreport : ∀ e, matcher.prepared.advanceActiveRows reportRejectedRow matcher.states tokens =
      .error e → ∃ row e', matcher.FirstStuck slot scratch tokens row e' ∧ e = report row e')
    (hstaged : ∀ staged,
      matcher.prepared.advanceActiveRows reportRejectedRow matcher.states tokens = .ok staged ↔
        matcher.prepared.advanceActiveRows false matcher.states tokens = .ok staged)
    (hm' : matcher'.Invariant) (hprepared : matcher'.prepared = matcher.prepared)
    (hfail : ∀ e, matcher.prepared.advanceAndMaskRows reportRejectedRow matcher.states tokens
      output.length = .error e →
        reply = .error e ∧ written = Mask.clear output ∧ matcher'.states = matcher.states)
    (hcommit : ∀ staged masks, matcher.prepared.advanceAndMaskRows reportRejectedRow
      matcher.states tokens output.length = .ok (staged, masks) →
        reply = .ok (value (staged.map Prod.fst)) ∧
        written = matcher.prepared.packMasks output.length masks ∧
        matcher'.states = staged.map Prod.snd) :
    matcher.Fused slot scratch tokens output value report
      (reply, written, matcher', .granting) := by
  have hfit := hbuffer.trans houtput
  cases hfused : matcher.prepared.advanceAndMaskRows reportRejectedRow matcher.states tokens
      output.length with
  | error e =>
    obtain ⟨rfl, rfl, hstates⟩ := hfail e hfused
    have hwhy := (PreparedGrammar.advanceAndMaskRows_eq_error htokens hfit hbuffer).mp hfused
    refine ⟨fun v => ⟨fun h => (by cases h), ?_⟩, fun v h => (by cases h), fun e' h => ?_⟩
    · rintro ⟨results, hresults, -, hlive⟩
      obtain ⟨staged, masks, hok, hmasks, -⟩ := (hm.fused_ok_iff htokens).mpr ⟨hresults, hlive⟩
      have hboth := PreparedGrammar.advanceAndMaskRows_eq_ok.mpr
        ⟨htokens, hfit, hbuffer, (hstaged staged).mpr hok, hmasks⟩
      rw [hfused] at hboth
      cases hboth
    · cases h
      refine ⟨hstates, rfl, ?_⟩
      rcases hwhy with hstuck | ⟨staged, hok, hdead⟩
      · exact Or.inl (hreport e hstuck)
      · exact Or.inr (hm.firstDead_of_staged htokens ((hstaged staged).mp hok) hdead)
  | ok out =>
    obtain ⟨staged, masks⟩ := out
    obtain ⟨rfl, rfl, hstates⟩ := hcommit staged masks hfused
    obtain ⟨-, -, -, hok, hmasks⟩ := PreparedGrammar.advanceAndMaskRows_eq_ok.mp hfused
    rw [hstaged] at hok
    obtain ⟨hresults, hlive⟩ := (hm.fused_ok_iff htokens).mp ⟨staged, masks, hok, hmasks, rfl⟩
    refine ⟨fun v => ⟨fun h => ?_, ?_⟩, fun v _ => ?_, fun e h => (by cases h)⟩
    · cases h
      exact ⟨_, hresults, rfl, hlive⟩
    · rintro ⟨results, hother, rfl, -⟩
      rw [hresults] at hother
      rw [Except.ok.inj hother]
    · exact hm.fusedCommit htokens hbuffer hok hmasks hm' hprepared hstates

/-- **`advance_active_and_masks`** follows the law, with the error as it is. -/
theorem Invariant.advanceActiveAndMasks_fused (hm : matcher.Invariant) (slot : MatcherStatus)
    (scratch : List ParserStateId) {tokens : List (Option TokenId)} {output : List UInt8}
    (htokens : tokens.length = matcher.states.length)
    (hbuffer : matcher.states.length * matcher.maskBytes ≤ output.length)
    (houtput : output.length ≤ usizeMax) :
    matcher.Fused slot scratch tokens output id (fun _ e => e)
      (matcher.advanceActiveAndMasks tokens output .granting) := by
  obtain ⟨matcher', hm', hprepared, h⟩ := hm.advanceActiveAndMasks_granting tokens output
  have hmemory : (matcher.advanceActiveAndMasks tokens output .granting).2.2.2 = .granting := by
    split at h <;> rw [h.1]
  have hmatcher : (matcher.advanceActiveAndMasks tokens output .granting).2.2.1 = matcher' := by
    split at h <;> rw [h.1]
  generalize matcher.advanceActiveAndMasks tokens output .granting = out at h hmemory hmatcher
  obtain ⟨reply, written, matcher₁, memory⟩ := out
  obtain rfl : memory = .granting := hmemory
  obtain rfl : matcher₁ = matcher' := hmatcher
  refine hm.fused_of slot scratch false htokens hbuffer houtput ?_
    (fun _ => Iff.rfl) hm' hprepared ?_ ?_
  · intro e he
    obtain ⟨row, hrow⟩ := (hm.firstStuck_of slot scratch htokens).1 he
    exact ⟨row, e, hrow, rfl⟩
  · intro e he
    rw [he] at h
    obtain ⟨hout, hstates⟩ := h
    cases hout
    exact ⟨rfl, rfl, hstates⟩
  · intro staged masks hok
    rw [hok] at h
    obtain ⟨hout, hstates⟩ := h
    cases hout
    exact ⟨rfl, rfl, hstates⟩

/-- **`advance_active_and_masks_no_result`** follows it too, and names the row. -/
theorem Invariant.advanceActiveAndMasksNoResult_fused (hm : matcher.Invariant)
    (slot : MatcherStatus) (scratch : List ParserStateId) {tokens : List (Option TokenId)}
    {output : List UInt8} (htokens : tokens.length = matcher.states.length)
    (hbuffer : matcher.states.length * matcher.maskBytes ≤ output.length)
    (houtput : output.length ≤ usizeMax) :
    matcher.Fused slot scratch tokens output (fun _ => ()) EngineError.atRow
      (matcher.advanceActiveAndMasksNoResult tokens output .granting) := by
  obtain ⟨matcher', hm', hprepared, h⟩ := hm.advanceActiveAndMasksNoResult_granting tokens output
  have hmemory : (matcher.advanceActiveAndMasksNoResult tokens output .granting).2.2.2 =
      .granting := by
    split at h <;> rw [h.1]
  have hmatcher : (matcher.advanceActiveAndMasksNoResult tokens output .granting).2.2.1 =
      matcher' := by
    split at h <;> rw [h.1]
  generalize matcher.advanceActiveAndMasksNoResult tokens output .granting = out
    at h hmemory hmatcher
  obtain ⟨reply, written, matcher₁, memory⟩ := out
  obtain rfl : memory = .granting := hmemory
  obtain rfl : matcher₁ = matcher' := hmatcher
  refine hm.fused_of slot scratch true htokens hbuffer houtput
    (fun e => (hm.firstStuck_of slot scratch htokens).2)
    (fun _ => advanceActiveRows_report htokens) hm' hprepared ?_ ?_
  · intro e he
    rw [he] at h
    obtain ⟨hout, hstates⟩ := h
    cases hout
    exact ⟨rfl, rfl, hstates⟩
  · intro staged masks hok
    rw [hok] at h
    obtain ⟨hout, hstates⟩ := h
    cases hout
    exact ⟨rfl, rfl, hstates⟩

/-! ## Runs of fused calls -/

end Matcher

/-- The fused calls. -/
def Call.IsFused : Call → Prop
  | .advanceActiveAndMasks _ _ => True
  | .advanceActiveAndMasksNoResult _ _ => True
  | _ => False

namespace Matcher

variable {matcher : Matcher}

/-- **A fused call commits no dead end.** -/
theorem Invariant.call_live (hm : matcher.Invariant) {c : Call} (hc : c.IsFused) :
    (matcher.call .granting c).2.1.states = matcher.states ∨
      (matcher.call .granting c).2.1.Live := by
  obtain ⟨matcher', hm', hprepared, hcall, hstates⟩ := hm.call_granting c
  rw [hcall]
  have hfused : ∀ tokens length reportRejectedRow staged masks,
      matcher.prepared.advanceAndMaskRows reportRejectedRow matcher.states tokens length =
        .ok (staged, masks) → matcher'.states = staged.map Prod.snd → matcher'.Live := by
    intro tokens length reportRejectedRow staged masks hok hrows
    obtain ⟨-, -, -, -, hmasks⟩ := PreparedGrammar.advanceAndMaskRows_eq_ok.mp hok
    refine hm'.live_iff.mpr ⟨masks, ?_⟩
    rw [hrows, hprepared]
    exact hmasks
  cases c with
  | advanceActiveAndMasks tokens output =>
    simp only [PreparedGrammar.respond] at hstates
    split at hstates
    · exact Or.inl hstates
    · rename_i hok
      exact Or.inr (hfused _ _ _ _ _ hok hstates)
  | advanceActiveAndMasksNoResult tokens output =>
    simp only [PreparedGrammar.respond] at hstates
    split at hstates
    · exact Or.inl hstates
    · rename_i hok
      exact Or.inr (hfused _ _ _ _ _ hok hstates)
  | _ => exact absurd hc id

/-- Whether every running row has a mask depends on the rows alone. -/
theorem Invariant.live_congr (hm : matcher.Invariant) {other : Matcher} (hother : other.Invariant)
    (hprepared : other.prepared = matcher.prepared) (hstates : other.states = matcher.states)
    (h : matcher.Live) : other.Live := by
  rw [hother.live_iff, hprepared, hstates]
  exact hm.live_iff.mp h

/-- **Runs of fused calls commit no dead ends.** -/
theorem Invariant.run_live (hm : matcher.Invariant) {calls : List Call}
    (hcalls : ∀ c ∈ calls, c.IsFused) :
    (matcher.run .granting calls).2.1.states = matcher.states ∨
      (matcher.run .granting calls).2.1.Live := by
  induction calls generalizing matcher with
  | nil => exact Or.inl rfl
  | cons c calls ih =>
    obtain ⟨matcher₁, hm₁, hprepared₁, hcall, hstates₁⟩ := hm.call_granting c
    have hone := hm.call_live (hcalls c List.mem_cons_self)
    have hrest := ih hm₁ (fun c' hc' => hcalls c' (List.mem_cons_of_mem c hc'))
    obtain ⟨matcher₂, hm₂, hprepared₂, hrun, hstates₂⟩ := hm₁.run_granting calls
    rw [Matcher.run, hcall]
    rw [hcall] at hone
    dsimp only at hone ⊢
    rw [hrun] at hrest ⊢
    dsimp only at hrest ⊢
    rcases hrest with hsame | hlive
    · rcases hone with hkept | hlive
      · exact Or.inl (hsame.trans hkept)
      · exact Or.inr (hm₁.live_congr hm₂ hprepared₂ hsame hlive)
    · exact Or.inr hlive

/-- **The fused call is advance followed by masks, and never commits a dead end.**
Both variants succeed exactly when `advance_active` does and every running row of its
successor has a mask; they then leave its rows and write those masks, and zeros in the
slices of accepted rows and behind the rows.  Otherwise nothing changes, and the error
is that of the first row that cannot take its token, the variant without results naming
the row, or of the first running row without a mask.  So a run of fused calls that
commits anything leaves a mask to every running row. -/
theorem fused_eq_advance_then_masks (h : matcher.Reachable) (slot : MatcherStatus)
    (scratch : List ParserStateId) :
    (∀ (tokens : List (Option TokenId)) (output : List UInt8),
      tokens.length = matcher.states.length →
      matcher.states.length * matcher.maskBytes ≤ output.length → output.length ≤ usizeMax →
      matcher.Fused slot scratch tokens output (fun _ => ()) EngineError.atRow
          (matcher.advanceActiveAndMasksNoResult tokens output .granting) ∧
        matcher.Fused slot scratch tokens output id (fun _ e => e)
          (matcher.advanceActiveAndMasks tokens output .granting)) ∧
    ∀ calls : List Call, (∀ c ∈ calls, c.IsFused) →
      (matcher.run .granting calls).2.1.states = matcher.states ∨
        (matcher.run .granting calls).2.1.Live := by
  have hm := h.invariant
  refine ⟨fun tokens output htokens hbuffer houtput => ⟨?_, ?_⟩, fun calls hcalls => ?_⟩
  · exact hm.advanceActiveAndMasksNoResult_fused slot scratch htokens hbuffer houtput
  · exact hm.advanceActiveAndMasks_fused slot scratch htokens hbuffer houtput
  · exact hm.run_live hcalls

/-- One row takes an `a`, the other a token that it cannot take. -/
theorem fused_eq_advance_then_masks_reusableStack :
    reusableStackMatcher.Fused .empty [7] [some 0, some 1] [0, 0, 255] (fun _ => ())
        EngineError.atRow
        (reusableStackMatcher.advanceActiveAndMasksNoResult [some 0, some 1] [0, 0, 255]
          .granting) ∧
      ((reusableStackMatcher.run .granting
          [.advanceActiveAndMasks [some 0, some 0] [0, 0]]).2.1.states =
            reusableStackMatcher.states ∨
        (reusableStackMatcher.run .granting
          [.advanceActiveAndMasks [some 0, some 0] [0, 0]]).2.1.Live) := by
  have h := fused_eq_advance_then_masks reusableStackMatcher_reachable .empty [7]
  have hbuffer : reusableStackMatcher.states.length * reusableStackMatcher.maskBytes ≤
      ([0, 0, 255] : List UInt8).length := by
    rw [reusableStackMatcher_eq]
    decide
  exact ⟨(h.1 [some 0, some 1] [0, 0, 255] rfl hbuffer (by norm_num [usizeMax])).1,
    h.2 [.advanceActiveAndMasks [some 0, some 0] [0, 0]]
      (List.forall_mem_singleton.mpr trivial)⟩

end Matcher
end GreatGramma
