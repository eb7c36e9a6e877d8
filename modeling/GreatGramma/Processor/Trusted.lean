import GreatGramma.Processor.History

/-!
# Trusted callers

`_trusted_fixed_append` saves a processor the comparison of whole rows: it takes the shape of the
rows and their last column, and keeps no rows itself.

## The promise

`Appends` is what a processor trusts its caller with: arrays whose rows are the last accepted ones
and one token more.  It speaks of the call that is made and of what was accepted before.  It says
nothing of arrays with another number of rows, which both modes refuse alike, nor of the scores.

## The two modes

For such callers both modes are the same processor: every call returns the same, or fails in the
same way at the same row, and leaves the same batch behind (`trusted_replies`).  The two keep
different fields, so the simulation relates a processor to itself with the rows forgotten
(`trusting`).  The first phase is the only one that looks at the mode.  Where rows extend their
history the last column says it all (`extendedTokens_eq_checkTokens`), so both read the same tokens
there and refuse the same ones.

## Runs

The promise is about rows that were accepted, and a trusting processor does not keep them.  So it is
stated of the processor that compares (`AppendsAll`), which keeps the rows of every call that
succeeds and of no other (`KeepsRows.call`).  A call that fails therefore leaves the promise as it
was: the caller may make the same call again, and the two modes still agree on it.
-/

namespace GreatGramma

open Reservation Traversal

theorem Rectangular.head_length {rows : List (List ℤ)} {width : ℕ} (h : Rectangular rows width) :
    (rows.head?.getD []).length = width := by
  obtain ⟨row, rest, rfl⟩ := List.exists_cons_of_ne_nil h.nonempty
  exact h.width row List.mem_cons_self

/-- What a call has read, without the rows, behind the first call. -/
def Checked.trusting (checked : Checked) (started : Bool) : Checked :=
  if started then { checked with parsedRows := none } else checked

namespace LogitsProcessor

/-- The processor, trusting its caller from now on. -/
abbrev trusting (processor : LogitsProcessor) : LogitsProcessor :=
  { processor with trustedFixedAppend := true, previous := none }

/-- The rows of a direct processor are those of its width. -/
def KeepsRows (processor : LogitsProcessor) : Prop :=
  processor.trustedFixedAppend = false ∧
    ∀ previousWidth, processor.previousWidth = some previousWidth →
      ∃ (rows : List (List ℤ)) (width : ℕ), processor.previous = some rows ∧
        Rectangular rows width ∧ rows.length = processor.prompt.length ∧
        previousWidth = (width : ℤ)

/-- **What a caller is trusted with**: arrays, whose rows extend the last that were accepted. -/
def Appends (processor : LogitsProcessor) (input : InputIds) : Prop :=
  ∃ rows width, Rectangular rows width ∧ input = .ofRows rows ∧
    ∀ previous, processor.previous = some previous → rows.length = previous.length →
      rows.map List.dropLast = previous

variable {processor : LogitsProcessor}

/-! ## The first phase -/

theorem readRows_ofRows {rows : List (List ℤ)} {width : ℕ} (h : Rectangular rows width)
    (hfull : ¬ (processor.trustedFixedAppend ∧ processor.previousWidth ≠ none)) :
    processor.readRows (.ofRows rows) = .ok (some rows, (rows.length : ℤ), (width : ℤ)) := by
  have hrows : parseRows "input_ids" (.ofRows rows) = .ok rows :=
    parseRows_eq_ok.mpr ⟨rfl, width, h⟩
  rw [readRows, if_neg hfull, InputIds.ofRows, hrows, Except.map, h.head_length]

theorem readRows_ofRows_trusted {rows : List (List ℤ)} {width : ℕ} (h : Rectangular rows width)
    (htrusted : processor.trustedFixedAppend = true) (hstarted : processor.previousWidth ≠ none) :
    processor.readRows (.ofRows rows) = .ok (none, (rows.length : ℤ), (width : ℤ)) := by
  have hlength : 0 < rows.length := List.length_pos_iff.mpr h.nonempty
  have hshape : inputShape (InputIds.ofRows rows).shape = .ok ((rows.length : ℤ), (width : ℤ)) := by
    rw [InputIds.ofRows, h.head_length]
    have hpos : ¬ ((rows.length : ℤ) ≤ 0 ∨ (width : ℤ) ≤ 0) := by
      have := h.pos
      omega
    exact if_neg hpos
  rw [readRows, if_pos ⟨htrusted, hstarted⟩, hshape]
  rfl

/-- **Where rows extend their history**, the last column says it all. -/
theorem extendedTokens_eq_checkTokens {position : ℤ} {rowIndex : ℕ} {rows : List (List ℤ)}
    (hne : ∀ row ∈ rows, row ≠ []) :
    processor.extendedTokens position rowIndex (rows.map List.dropLast) rows =
      processor.trusting.checkTokens position rowIndex
        (rows.map fun row => row.getLast?.getD 0) := by
  induction rows generalizing rowIndex with
  | nil => rfl
  | cons row rows ih =>
    obtain ⟨hrow, hrest⟩ := List.forall_mem_cons.mp hne
    have hlength : row.length = row.dropLast.length + 1 := by
      have := List.length_pos_iff.mpr hrow
      rw [List.length_dropLast]
      omega
    rw [List.map_cons, List.map_cons, extendedTokens,
      if_neg (fun h => h.elim (fun h => h hlength) fun h => h rfl),
      List.getLast?_eq_some_getLast hrow, checkTokens, Option.getD_some]
    dsimp only
    rw [ih hrest]
    rfl

theorem checkArguments_trusting {rows : List (List ℤ)} {width : ℕ} (h : Rectangular rows width)
    (hdirect : processor.trustedFixedAppend = false) (scoresShape : RawRow) :
    processor.trusting.checkArguments (.ofRows rows) scoresShape =
      (processor.checkArguments (.ofRows rows) scoresShape).map
        fun checked => checked.trusting processor.previousWidth.isSome := by
  have hread := @readRows_ofRows processor rows width h
    fun hfull => by rw [hdirect] at hfull; cases hfull.1
  obtain ⟨parsed, hread', hparsed⟩ : ∃ parsed,
      processor.trusting.readRows (.ofRows rows) =
        .ok (parsed, (rows.length : ℤ), (width : ℤ)) ∧
      ∀ scoreVocab, Checked.mk parsed rows.length width scoreVocab =
        (Checked.mk (some rows) rows.length width scoreVocab).trusting
          processor.previousWidth.isSome := by
    cases hwidth : processor.previousWidth with
    | none => exact ⟨_, readRows_ofRows h fun hfull => hfull.2 hwidth, fun _ => rfl⟩
    | some previousWidth =>
      exact ⟨_, readRows_ofRows_trusted h rfl (by rw [hwidth]; exact Option.some_ne_none _),
        fun _ => rfl⟩
  rw [checkArguments, checkArguments, hread, hread']
  dsimp only [trusting]
  by_cases hpoisoned : processor.poisoned = true
  · simp only [if_pos hpoisoned, Except.map]
  simp only [if_neg hpoisoned]
  cases scoreShape scoresShape with
  | error raised => rfl
  | ok shape =>
    dsimp only
    by_cases hcount : (rows.length : ℤ) ≠ processor.prompt.length
    · simp only [if_pos hcount, Except.map]
    simp only [if_neg hcount]
    by_cases hscores : shape.1 ≠ processor.prompt.length ∨ shape.2 < processor.vocabSize
    · simp only [if_pos hscores, Except.map]
    simp only [if_neg hscores]
    by_cases hvocab : processor.scoreVocabSize ≠ none ∧ processor.scoreVocabSize ≠ some shape.2
    · simp only [if_pos hvocab, Except.map]
    · simp only [if_neg hvocab, Except.map, hparsed]

theorem planCall_trusting {rows : List (List ℤ)} {width : ℕ} (hkeeps : processor.KeepsRows)
    (hrect : Rectangular rows width)
    (hextends : ∀ previous, processor.previous = some previous → rows.length = previous.length →
      rows.map List.dropLast = previous) {checked : Checked}
    (hparsed : checked.parsedRows = some rows) (hrows : checked.rowCount = rows.length)
    (hcount : checked.rowCount = processor.prompt.length)
    (hposition : checked.position = (width : ℕ)) :
    processor.trusting.planCall (.ofRows rows)
        (checked.trusting processor.previousWidth.isSome) =
      processor.planCall (.ofRows rows) checked := by
  obtain ⟨parsedRows, rowCount, position, scoreVocab⟩ := checked
  obtain rfl : parsedRows = some rows := hparsed
  obtain rfl : rowCount = rows.length := hrows
  obtain rfl : position = (width : ℕ) := hposition
  cases hwidth : processor.previousWidth with
  | none =>
    rw [planCall, planCall, hwidth]
    rfl
  | some previousWidth =>
    obtain ⟨previous, before, hprevious, hbefore, hlength, rfl⟩ := hkeeps.2 previousWidth hwidth
    have hsame : rows.length = previous.length := by
      rw [hlength]
      exact Int.ofNat.inj hcount
    obtain rfl := hextends previous hprevious hsame
    have hne : ∀ row ∈ rows, row ≠ [] := fun row hrow =>
      List.ne_nil_of_length_pos (hrect.width row hrow ▸ hrect.pos)
    have hnext : width = before + 1 := by
      obtain ⟨row, hrow⟩ := List.exists_mem_of_ne_nil _ hrect.nonempty
      have hrowWidth := hrect.width row hrow
      have hbeforeWidth := hbefore.width _ (List.mem_map_of_mem hrow)
      have := hrect.pos
      rw [List.length_dropLast] at hbeforeWidth
      omega
    have hlast : lastTokens (InputIds.ofRows rows).lastColumn rows.length =
        .ok (rows.map fun row => row.getLast?.getD 0) := by
      rw [lastTokens_eq_ok, InputIds.ofRows, List.map_map, List.length_map]
      exact ⟨rfl, rfl⟩
    have hwidths : ¬ (width : ℤ) ≠ (before : ℤ) + 1 := by
      rw [hnext]
      exact fun h => h (Nat.cast_succ before)
    have hchecked : (Checked.mk (some rows) rows.length width scoreVocab).trusting
        (some (before : ℤ)).isSome = ⟨none, rows.length, width, scoreVocab⟩ := rfl
    have htrusted : processor.trusting.previousWidth = some (before : ℤ) := hwidth
    rw [hchecked, planCall, htrusted]
    dsimp only
    rw [if_pos rfl, if_neg hwidths, hlast]
    dsimp only
    rw [← extendedTokens_eq_checkTokens hne, planCall, hwidth]
    dsimp only
    rw [hkeeps.1, if_neg Bool.false_ne_true, hprevious]

/-- **The first phase is the same.** -/
theorem prepareCall_trusting {input : InputIds} (hkeeps : processor.KeepsRows)
    (happends : processor.Appends input) (scoresShape : RawRow) :
    processor.trusting.prepareCall input scoresShape =
      (processor.prepareCall input scoresShape).map fun prepared =>
        (prepared.1.trusting processor.previousWidth.isSome, prepared.2) := by
  obtain ⟨rows, width, hrect, rfl, hextends⟩ := happends
  rw [prepareCall, prepareCall, checkArguments_trusting hrect hkeeps.1]
  cases hchecked : processor.checkArguments (.ofRows rows) scoresShape with
  | error raised => rfl
  | ok checked =>
    obtain ⟨-, hcount, hread, -, -⟩ := checkArguments_eq_ok hchecked
    rw [readRows_ofRows hrect fun hfull => by rw [hkeeps.1] at hfull; cases hfull.1] at hread
    obtain ⟨hparsed, hpair⟩ := Prod.mk.inj (Except.ok.inj hread)
    obtain ⟨hrows, hposition⟩ := Prod.mk.inj hpair
    have hplan := planCall_trusting hkeeps hrect hextends hparsed.symm hrows.symm hcount
      hposition.symm
    dsimp only [Except.map]
    rw [hplan]
    cases processor.planCall (.ofRows rows) checked <;> rfl

/-! ## Calls -/

theorem prepareCall_parsed {input : InputIds} {scoresShape : RawRow} {checked : Checked}
    {plan : Plan} (hdirect : processor.trustedFixedAppend = false)
    (h : processor.prepareCall input scoresShape = .ok (checked, plan)) :
    ∃ (rows : List (List ℤ)) (width : ℕ), checked.parsedRows = some rows ∧
      Rectangular rows width ∧ rows.length = processor.prompt.length ∧
      checked.position = (width : ℤ) := by
  rw [prepareCall] at h
  cases hchecked : processor.checkArguments input scoresShape with
  | error raised =>
    rw [hchecked] at h
    cases h
  | ok checked' =>
    rw [hchecked] at h
    obtain ⟨plan', -, hpair⟩ := map_eq_ok.mp h
    obtain ⟨rfl, rfl⟩ := Prod.mk.inj hpair
    obtain ⟨-, hcount, hread, -, -⟩ := checkArguments_eq_ok hchecked
    obtain ⟨rows, width, -, hrect, hparsed, hrows, hposition⟩ :=
      readRows_parsed (fun hfull => by rw [hdirect] at hfull; cases hfull.1) hread
    exact ⟨rows, width, hparsed, hrect, Int.ofNat.inj (hrows.symm.trans hcount), hposition⟩

theorem serve_processor (processor : LogitsProcessor) (plan : Plan) (position : ℤ)
    (memory : Memory) :
    ∃ reply batch poisoned memory', processor.serve plan position memory =
      (reply, { processor with batch, poisoned }, memory') := by
  rw [serve]
  rcases processor.nativeCall plan memory with ⟨reply, batch, memory'⟩
  cases reply with
  | error failure => exact ⟨_, _, _, _, rfl⟩
  | ok packed => exact ⟨_, _, processor.poisoned, _, rfl⟩

theorem serve_trusting (plan : Plan) (position : ℤ) (memory : Memory) :
    processor.trusting.serve plan position memory =
      ((processor.serve plan position memory).1,
        (processor.serve plan position memory).2.1.trusting,
        (processor.serve plan position memory).2.2) := by
  have hcall : processor.trusting.nativeCall plan memory = processor.nativeCall plan memory := by
    cases plan <;> rfl
  rw [serve, serve, hcall]
  rcases processor.nativeCall plan memory with ⟨reply, batch, memory'⟩
  cases reply <;> rfl

theorem finish_trusting {S R : Type} (masker : Masker S R) (scores : Scores S) {checked : Checked}
    (hdirect : processor.trustedFixedAppend = false) (hparsed : checked.parsedRows ≠ none)
    (started : Bool) (packed : List UInt8) :
    processor.trusting.finish masker scores (checked.trusting started) packed =
      ((processor.finish masker scores checked packed).1,
        (processor.finish masker scores checked packed).2.trusting) := by
  obtain ⟨parsedRows, rowCount, position, scoreVocab⟩ := checked
  obtain ⟨rows, rfl⟩ := Option.ne_none_iff_exists'.mp hparsed
  have hchecked : ∃ parsed, (Checked.mk (some rows) rowCount position scoreVocab).trusting started =
      ⟨parsed, rowCount, position, scoreVocab⟩ := by
    cases started <;> exact ⟨_, rfl⟩
  obtain ⟨parsed, hchecked⟩ := hchecked
  rw [hchecked, finish, finish]
  dsimp only
  cases masker scores.values packed rowCount.toNat processor.vocabSize with
  | error failure => rfl
  | ok result =>
    dsimp only
    rw [if_pos rfl, hdirect, if_neg Bool.false_ne_true]

/-- **A call is the same**, and so is what it leaves behind. -/
theorem callLocked_trusting {S R : Type} (masker : Masker S R) {input : InputIds}
    (hkeeps : processor.KeepsRows) (happends : processor.Appends input) (scores : Scores S)
    (memory : Memory) :
    processor.trusting.callLocked masker input scores memory =
      ((processor.callLocked masker input scores memory).1,
        (processor.callLocked masker input scores memory).2.1.trusting,
        (processor.callLocked masker input scores memory).2.2) := by
  rw [callLocked, callLocked, prepareCall_trusting hkeeps happends]
  cases hprepare : processor.prepareCall input scores.shape with
  | error raised => rfl
  | ok prepared =>
    obtain ⟨checked, plan⟩ := prepared
    obtain ⟨rows, _, hparsed, -⟩ := prepareCall_parsed hkeeps.1 hprepare
    have hposition : ∀ started, (checked.trusting started).position = checked.position := by
      intro started
      cases started with
      | true => rfl
      | false => rfl
    obtain ⟨reply, batch, poisoned, memory', hserve⟩ :=
      processor.serve_processor plan checked.position memory
    dsimp only [Except.map]
    rw [hposition, serve_trusting, hserve]
    cases reply with
    | error raised => rfl
    | ok packed =>
      dsimp only
      have hfinish := @finish_trusting { processor with batch, poisoned } S R masker scores checked
        hkeeps.1 (by rw [hparsed]; exact Option.some_ne_none _) processor.previousWidth.isSome
        packed
      rw [hfinish]

/-- **The rows are kept**: a call replaces them by its own, or leaves them. -/
theorem KeepsRows.call {S R : Type} (h : processor.KeepsRows) (masker : Masker S R)
    (input : InputIds) (scores : Scores S) (memory : Memory) :
    (processor.callLocked masker input scores memory).2.1.KeepsRows := by
  rw [callLocked]
  cases hprepare : processor.prepareCall input scores.shape with
  | error raised => exact h
  | ok prepared =>
    obtain ⟨checked, plan⟩ := prepared
    obtain ⟨rows, width, hparsed, hrect, hcount, hposition⟩ := prepareCall_parsed h.1 hprepare
    obtain ⟨reply, batch, poisoned, memory', hserve⟩ :=
      processor.serve_processor plan checked.position memory
    dsimp only
    rw [hserve]
    cases reply with
    | error raised => exact h
    | ok packed =>
      dsimp only
      rw [finish]
      cases masker scores.values packed checked.rowCount.toNat processor.vocabSize with
      | error failure => exact h
      | ok result =>
        dsimp only
        rw [h.1, if_neg Bool.false_ne_true, hparsed]
        refine ⟨rfl, fun previousWidth hwidth => ⟨rows, width, rfl, hrect, hcount, ?_⟩⟩
        exact (Option.some.inj hwidth).symm.trans hposition

/-! ## Runs -/

section Runs

variable {S R : Type} (masker : Masker S R)

/-- What the calls of a run return or raise. -/
def replies (processor : LogitsProcessor) (memory : Memory) :
    List (InputIds × Scores S) → List (Except Raised R)
  | [] => []
  | (input, scores) :: calls =>
    match processor.callLocked masker input scores memory with
    | (reply, processor, memory) => reply :: replies processor memory calls

/-- The caller of a run appends at every call. -/
def AppendsAll (processor : LogitsProcessor) (memory : Memory) :
    List (InputIds × Scores S) → Prop
  | [] => True
  | (input, scores) :: calls =>
    processor.Appends input ∧
      AppendsAll (processor.callLocked masker input scores memory).2.1
        (processor.callLocked masker input scores memory).2.2 calls

theorem KeepsRows.replies (h : processor.KeepsRows) {memory : Memory}
    {calls : List (InputIds × Scores S)} (happends : processor.AppendsAll masker memory calls) :
    processor.trusting.replies masker memory calls = processor.replies masker memory calls ∧
      processor.trusting.run masker memory calls =
        ((processor.run masker memory calls).1.trusting,
          (processor.run masker memory calls).2) := by
  induction calls generalizing processor memory with
  | nil => exact ⟨rfl, rfl⟩
  | cons call calls ih =>
    obtain ⟨input, scores⟩ := call
    obtain ⟨hinput, hrest⟩ := happends
    obtain ⟨hreplies, hrun⟩ := ih (h.call masker input scores memory) hrest
    rw [LogitsProcessor.replies, LogitsProcessor.replies, LogitsProcessor.run, LogitsProcessor.run,
      callLocked_trusting masker h hinput]
    exact ⟨congrArg _ hreplies, hrun⟩

end Runs

theorem init_trusting {native : NativeGrammar} {prompt : RawArray} {pad : Option TokenId}
    {memory : Memory}
    (hinit : (LogitsProcessor.init native prompt pad false memory).1 = .ok processor) :
    (LogitsProcessor.init native prompt pad true memory).1 = .ok processor.trusting := by
  rw [LogitsProcessor.init] at hinit ⊢
  cases hrows : parseRows "prompt" prompt with
  | error raised =>
    rw [hrows] at hinit
    cases hinit
  | ok rows =>
    rw [hrows] at hinit
    dsimp only at hinit ⊢
    cases hcheck : checkPrompt native.vocabSize rows with
    | error e =>
      rw [hcheck] at hinit
      cases hinit
    | ok _ =>
      rw [hcheck] at hinit
      dsimp only at hinit ⊢
      cases hnew : native.newBatchInner rows.length pad memory with
      | mk reply rest =>
        obtain ⟨native', memory'⟩ := rest
        rw [hnew] at hinit
        cases reply with
        | error failure => cases hinit
        | ok batch =>
          obtain rfl := Except.ok.inj hinit
          rfl

/-- **Trust costs nothing**: for a caller that only appends, a processor that trusts it answers as
one that compares all rows, call by call, and the batches stay the same. -/
theorem trusted_replies {S R : Type} {native : NativeGrammar} {prompt : RawArray}
    {pad : Option TokenId} {memory : Memory}
    (hinit : (LogitsProcessor.init native prompt pad false memory).1 = .ok processor)
    (masker : Masker S R) {memory' : Memory} {calls : List (InputIds × Scores S)}
    (happends : processor.AppendsAll masker memory' calls) :
    ∃ trusted, (LogitsProcessor.init native prompt pad true memory).1 = .ok trusted ∧
      trusted.replies masker memory' calls = processor.replies masker memory' calls ∧
      (trusted.run masker memory' calls).1.batch =
        (processor.run masker memory' calls).1.batch := by
  obtain ⟨width, prepared, -, -, -, -, hdirect, -, hfresh, -⟩ := init_consistent hinit
  have hkeeps : processor.KeepsRows :=
    ⟨hdirect, fun previousWidth h => by rw [hfresh] at h; cases h⟩
  obtain ⟨hreplies, hrun⟩ := hkeeps.replies masker happends
  exact ⟨processor.trusting, init_trusting hinit, hreplies, by rw [hrun]⟩

theorem appends_ofRows {rows : List (List ℤ)} {width : ℕ} (hrect : Rectangular rows width)
    (h : processor.previous.all fun previous => rows.map List.dropLast = previous) :
    processor.Appends (.ofRows rows) := by
  refine ⟨rows, width, hrect, rfl, fun previous hprevious _ => ?_⟩
  rw [hprevious] at h
  exact of_decide_eq_true h

/-- The prompt, and two columns behind it; the first row ends with the second of them. -/
def reusableStackColumns : List (InputIds × Scores Unit) :=
  [(.ofRows [[1, 1], [0, 1]], .ofShape 2 2), (.ofRows [[1, 1, 0], [0, 1, 0]], .ofShape 2 2),
    (.ofRows [[1, 1, 0, 1], [0, 1, 0, 0]], .ofShape 2 2)]

theorem reusableStackColumns_appends :
    reusableStackProcessor.AppendsAll plainMasker .granting reusableStackColumns := by
  refine ⟨appends_ofRows ⟨List.cons_ne_nil _ _, two_pos, by decide⟩ rfl,
    appends_ofRows ⟨List.cons_ne_nil _ _, three_pos, by decide⟩ ?_,
    appends_ofRows ⟨List.cons_ne_nil _ _, four_pos, by decide⟩ ?_, trivial⟩
  · rw [reusableStackProcessor, reusableStackBatch_eq]
    decide +kernel
  · rw [reusableStackProcessor, reusableStackBatch_eq]
    decide +kernel

/-- Both modes serve the columns. -/
theorem trusted_replies_reusableStack :
    ∃ trusted, (LogitsProcessor.init reusableStackNative (.ofRows [[1, 1], [0, 1]]) (some 0) true
        .granting).1 = .ok trusted ∧
      trusted.replies plainMasker .granting reusableStackColumns =
        [.ok [1, 1], .ok [3, 3], .ok [1, 3]] := by
  obtain ⟨trusted, hinit, hreplies, -⟩ :=
    trusted_replies reusableStackProcessor_init plainMasker reusableStackColumns_appends
  refine ⟨trusted, hinit, hreplies.trans ?_⟩
  rw [reusableStackProcessor, reusableStackBatch_eq]
  decide +kernel

end LogitsProcessor
end GreatGramma
