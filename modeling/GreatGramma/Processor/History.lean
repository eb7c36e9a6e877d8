import GreatGramma.Native.Atomic
import GreatGramma.Processor.Call
import Mathlib.Data.List.Chain

/-!
# What a processor answers

A processor keeps the rows of its last call that succeeded, and its batch keeps the statuses of
rows.  `Consistent` says that both are about the same: the prompt, and what was generated behind it,
the same number of tokens for every row.

## One call

A call that passes its checks repeats the prompt, if it is the first, or adds a column to its
history (`Consistent.prepareCall_ok`).  The native call then serves the masks behind that column,
and the history is committed once they are applied.  Every call keeps the processor consistent, or
ends the session, when the processor or its batch is poisoned or no row runs any more; and a
session that is over stays over (`Consistent.call_cases`, `Over.call`).

## Runs

So in direct use nothing but the arguments decides what a call that succeeds returns.  Its rows are
the prompt and some tokens behind each row of it, and the masks that are applied are those of these
tokens (`direct_session`), whatever was called before and whatever failed.  Two processors of one
grammar and one prompt that succeed on the same arguments return the same (`direct_answers_agree`).

Processors are made by `__init__`, and the grammar of the facade hands out just those
(`logitsProcessor_ok`): what it checks of the pad token is checked again by the batch.
-/

namespace GreatGramma

open Reservation Traversal

/-! ## Rows and columns

Rows and what was generated behind them determine each other, since the prompt is known. -/

/-- The prompt, and what was generated behind it. -/
def extendRows (prompt : List (List ℤ)) (histories : List (List TokenId)) : List (List ℤ) :=
  List.zipWith (fun row generated => row ++ generated.map Nat.cast) prompt histories

/-- One more column. -/
def addColumn (rows : List (List ℤ)) (column : List TokenId) : List (List ℤ) :=
  List.zipWith (fun row (token : TokenId) => row ++ [(token : ℤ)]) rows column

theorem extendRows_appendColumn (prompt : List (List ℤ)) (histories : List (List TokenId))
    (column : List TokenId) :
    extendRows prompt (appendColumn histories column) =
      addColumn (extendRows prompt histories) column := by
  induction prompt generalizing histories column with
  | nil => rfl
  | cons row prompt ih =>
    cases histories with
    | nil => rfl
    | cons generated histories =>
      cases column with
      | nil => rfl
      | cons token column =>
        show (row ++ (generated ++ [token]).map Nat.cast) :: extendRows prompt
            (appendColumn histories column) = (row ++ generated.map Nat.cast ++ [(token : ℤ)]) ::
          addColumn (extendRows prompt histories) column
        rw [ih, List.map_append, List.append_assoc]
        rfl

theorem extendRows_nil {prompt : List (List ℤ)} {histories : List (List TokenId)}
    (hcount : histories.length = prompt.length) (hnil : ∀ generated ∈ histories, generated = []) :
    extendRows prompt histories = prompt := by
  induction prompt generalizing histories with
  | nil => rfl
  | cons row prompt ih =>
    cases histories with
    | nil => cases hcount
    | cons generated histories =>
      obtain ⟨rfl, hrest⟩ := List.forall_mem_cons.mp hnil
      show (row ++ []) :: extendRows prompt histories = row :: prompt
      rw [ih (Nat.succ.inj hcount) hrest, List.append_nil]

/-- What was generated can be read off the rows. -/
theorem extendRows_injective {prompt : List (List ℤ)} {histories histories' : List (List TokenId)}
    (hcount : histories.length = prompt.length) (hcount' : histories'.length = prompt.length)
    (h : extendRows prompt histories = extendRows prompt histories') : histories = histories' := by
  induction prompt generalizing histories histories' with
  | nil => rw [List.length_eq_zero_iff.mp hcount, List.length_eq_zero_iff.mp hcount']
  | cons row prompt ih =>
    cases histories with
    | nil => cases hcount
    | cons generated histories =>
      cases histories' with
      | nil => cases hcount'
      | cons generated' histories' =>
        obtain ⟨hrow, hrest⟩ := List.cons.inj h
        rw [ih (Nat.succ.inj hcount) (Nat.succ.inj hcount') hrest,
          List.map_injective_iff.mpr Nat.cast_injective (List.append_cancel_left hrow)]

theorem length_extendRows {prompt : List (List ℤ)} {histories : List (List TokenId)}
    (hcount : histories.length = prompt.length) :
    (extendRows prompt histories).length = prompt.length := by
  rw [extendRows, List.length_zipWith, hcount, Nat.min_self]

theorem Rectangular.extendRows {prompt : List (List ℤ)} {width columns : ℕ}
    {histories : List (List TokenId)} (h : Rectangular prompt width)
    (hcount : histories.length = prompt.length)
    (hcolumns : ∀ generated ∈ histories, generated.length = columns) :
    Rectangular (extendRows prompt histories) (width + columns) := by
  refine ⟨fun hnil => h.nonempty ?_, Nat.add_pos_left h.pos _, fun row hrow => ?_⟩
  · rw [← List.length_eq_zero_iff, ← length_extendRows hcount, hnil, List.length_nil]
  · obtain ⟨i, hi⟩ := List.mem_iff_getElem?.mp hrow
    obtain ⟨before, generated, hbefore, hgenerated, rfl⟩ := List.getElem?_zipWith_eq_some.mp hi
    rw [List.length_append, List.length_map, h.width _ (List.mem_of_getElem? hbefore),
      hcolumns _ (List.mem_of_getElem? hgenerated)]

theorem appendColumn_columns {histories : List (List TokenId)} {column : List TokenId}
    {columns : ℕ} (hcolumns : ∀ generated ∈ histories, generated.length = columns) :
    ∀ generated ∈ appendColumn histories column, generated.length = columns + 1 := by
  intro generated hmem
  obtain ⟨row, hrow⟩ := List.mem_iff_getElem?.mp hmem
  obtain ⟨before, token, hbefore, -, rfl⟩ := getElem?_appendColumn.mp hrow
  rw [List.length_append, hcolumns before (List.mem_of_getElem? hbefore), List.length_singleton]

/-- **One column more**, of tokens that may come next. -/
def Extends (grammar : ValidatedGrammar) (pad : Option TokenId)
    (histories histories' : List (List TokenId)) : Prop :=
  ∃ column : List TokenId, column.length = histories.length ∧
    (∀ (row : ℕ) generated token, histories[row]? = some generated → column[row]? = some token →
      grammar.Continues pad generated token) ∧
    histories' = appendColumn histories column

theorem length_appendColumn {histories : List (List TokenId)} {column : List TokenId}
    (hlength : column.length = histories.length) :
    (appendColumn histories column).length = histories.length := by
  rw [appendColumn, List.length_zipWith, hlength, Nat.min_self]

namespace LogitsProcessor

variable {processor : LogitsProcessor}

/-! ## The checks of a call -/

theorem outsideVocabulary_eq_false {vocabSize : ℕ} {token : ℤ} :
    outsideVocabulary vocabSize token = false ↔ 0 ≤ token ∧ token < vocabSize := by
  rw [outsideVocabulary, decide_eq_false_iff_not, not_or, not_lt, ge_iff_le, not_le]

theorem checkToken_eq_ok {position token : ℤ} {rowIndex : ℕ} {id : TokenId} :
    processor.checkToken position rowIndex token = .ok id ↔
      token = (id : ℤ) ∧ id < processor.vocabSize := by
  rw [checkToken]
  cases hout : outsideVocabulary processor.vocabSize token with
  | true =>
    refine iff_of_false (fun h => by cases h) ?_
    rintro ⟨rfl, hlt⟩
    rw [outsideVocabulary_eq_false.mpr ⟨Int.natCast_nonneg id, Int.ofNat_lt.mpr hlt⟩] at hout
    cases hout
  | false =>
    obtain ⟨hnonneg, hlt⟩ := outsideVocabulary_eq_false.mp hout
    rw [if_neg Bool.false_ne_true, Except.ok.injEq]
    constructor
    · rintro rfl
      exact ⟨(Int.toNat_of_nonneg hnonneg).symm, (Int.toNat_lt hnonneg).mpr hlt⟩
    · rintro ⟨rfl, -⟩
      exact Int.toNat_natCast id

theorem checkTokens_eq_ok {position : ℤ} {rowIndex : ℕ} {tokens : List ℤ} {ids : List TokenId} :
    processor.checkTokens position rowIndex tokens = .ok ids ↔
      tokens = ids.map Nat.cast ∧ ∀ id ∈ ids, id < processor.vocabSize := by
  induction tokens generalizing rowIndex ids with
  | nil =>
    rw [checkTokens, Except.ok.injEq, eq_comm (a := []) (b := ids.map _), List.map_eq_nil_iff,
      eq_comm]
    refine (and_iff_left_of_imp ?_).symm
    rintro rfl id hid
    exact absurd hid List.not_mem_nil
  | cons token tokens ih =>
    rw [checkTokens]
    constructor
    · intro h
      split at h
      · cases h
      · rename_i id hid
        split at h
        · cases h
        · rename_i rest hrest
          obtain rfl := Except.ok.inj h
          obtain ⟨rfl, hlt⟩ := checkToken_eq_ok.mp hid
          obtain ⟨rfl, hall⟩ := ih.mp hrest
          exact ⟨rfl, List.forall_mem_cons.mpr ⟨hlt, hall⟩⟩
    · rintro ⟨htokens, hall⟩
      cases ids with
      | nil => cases htokens
      | cons id ids =>
        obtain ⟨rfl, hrest⟩ := List.cons.inj htokens
        obtain ⟨hlt, hall⟩ := List.forall_mem_cons.mp hall
        rw [checkToken_eq_ok.mpr ⟨rfl, hlt⟩, ih.mpr ⟨hrest, hall⟩]

/-- **Rows that extend their history by a column** of tokens of the vocabulary. -/
theorem extendedTokens_eq_ok {position : ℤ} {rowIndex : ℕ} {previous current : List (List ℤ)}
    {ids : List TokenId} :
    processor.extendedTokens position rowIndex previous current = .ok ids ↔
      ids.length = previous.length ∧ current = addColumn previous ids ∧
        ∀ id ∈ ids, id < processor.vocabSize := by
  induction previous generalizing rowIndex current ids with
  | nil =>
    cases current with
    | nil =>
      rw [extendedTokens, Except.ok.injEq]
      constructor
      · rintro rfl
        exact ⟨rfl, rfl, fun id hid => absurd hid List.not_mem_nil⟩
      · rintro ⟨hlength, -⟩
        exact (List.length_eq_zero_iff.mp hlength).symm
    | cons row current =>
      refine iff_of_false (fun h => by cases h) ?_
      rintro ⟨-, h, -⟩
      cases h
  | cons row previous ih =>
    cases current with
    | nil =>
      refine iff_of_false (fun h => by cases h) ?_
      rintro ⟨hlength, h, -⟩
      cases ids with
      | nil => cases hlength
      | cons id ids => cases h
    | cons currentRow current =>
      rw [extendedTokens]
      constructor
      · intro h
        split_ifs at h with hextends
        rw [not_or, not_not, not_not] at hextends
        obtain ⟨hlength, hdrop⟩ := hextends
        split at h
        · cases h
        · rename_i token htoken
          have hrow : currentRow = row ++ [token] := by
            rw [← hdrop]
            exact (List.dropLast_append_getLast?  _ htoken).symm
          split at h
          · cases h
          · rename_i id hid
            split at h
            · cases h
            · rename_i rest hrest
              obtain rfl := Except.ok.inj h
              obtain ⟨rfl, hlt⟩ := checkToken_eq_ok.mp hid
              obtain ⟨hcount, rfl, hall⟩ := ih.mp hrest
              exact ⟨congrArg Nat.succ hcount, by rw [hrow]; rfl,
                List.forall_mem_cons.mpr ⟨hlt, hall⟩⟩
      · rintro ⟨hlength, hcurrent, hall⟩
        cases ids with
        | nil => cases hlength
        | cons id ids =>
          obtain ⟨rfl, hrest⟩ := List.cons.inj hcurrent
          obtain ⟨hlt, hall⟩ := List.forall_mem_cons.mp hall
          have hextends : ¬ ((row ++ [(id : ℤ)]).length ≠ row.length + 1 ∨
              (row ++ [(id : ℤ)]).dropLast ≠ row) := by
            rw [List.dropLast_concat, List.length_append, List.length_singleton]
            exact fun h => h.elim (fun h => h rfl) fun h => h rfl
          rw [if_neg hextends, List.getLast?_concat]
          dsimp only
          rw [checkToken_eq_ok.mpr ⟨rfl, hlt⟩,
            ih.mpr ⟨Nat.succ.inj hlength, hrest, hall⟩]

/-- **What passes the checks**: the processor is not poisoned, and the number of rows and the
shape of the scores are as they were. -/
theorem checkArguments_eq_ok {input : InputIds} {scoresShape : RawRow} {checked : Checked}
    (h : processor.checkArguments input scoresShape = .ok checked) :
    processor.poisoned = false ∧ checked.rowCount = processor.prompt.length ∧
      processor.readRows input =
        .ok (checked.parsedRows, checked.rowCount, checked.position) ∧
      scoreShape scoresShape = .ok ((processor.prompt.length : ℤ), checked.scoreVocab) ∧
      (processor.vocabSize : ℤ) ≤ checked.scoreVocab := by
  rw [checkArguments] at h
  split_ifs at h with hpoisoned
  cases hread : processor.readRows input with
  | error e =>
    rw [hread] at h
    cases h
  | ok read =>
    obtain ⟨parsedRows, rowCount, position⟩ := read
    rw [hread] at h
    dsimp only at h
    cases hshape : scoreShape scoresShape with
    | error e =>
      rw [hshape] at h
      cases h
    | ok shape =>
      obtain ⟨scoreRows, scoreVocab⟩ := shape
      rw [hshape] at h
      dsimp only at h
      split_ifs at h with hcount hscores hwidth
      obtain rfl := Except.ok.inj h
      rw [not_or, not_not, not_lt] at hscores
      exact ⟨Bool.eq_false_iff.mpr hpoisoned, not_not.mp hcount, rfl,
        by rw [hscores.1], hscores.2⟩

theorem readRows_parsed {input : InputIds} {parsedRows : Option (List (List ℤ))}
    {rowCount position : ℤ}
    (hfull : ¬ (processor.trustedFixedAppend ∧ processor.previousWidth ≠ none))
    (h : processor.readRows input = .ok (parsedRows, rowCount, position)) :
    ∃ rows width, input.value = .ofRows rows ∧ Rectangular rows width ∧ parsedRows = some rows ∧
      rowCount = rows.length ∧ position = (width : ℤ) := by
  rw [readRows, if_neg hfull] at h
  obtain ⟨rows, hrows, hread⟩ := map_eq_ok.mp h
  obtain ⟨hvalue, width, hrect⟩ := parseRows_eq_ok.mp hrows
  obtain ⟨rfl, hrest⟩ := Prod.mk.inj hread
  obtain ⟨rfl, rfl⟩ := Prod.mk.inj hrest
  refine ⟨rows, width, hvalue, hrect, rfl, rfl, ?_⟩
  obtain ⟨row, rest, rfl⟩ := List.exists_cons_of_ne_nil hrect.nonempty
  exact congrArg Nat.cast (hrect.width row List.mem_cons_self)

/-! ## The session of a processor -/

/-- **The rows of a processor and of its batch are the same**: the prompt, and the same number
of tokens behind each row of it. -/
structure Consistent (processor : LogitsProcessor) (width columns : ℕ)
    (histories : List (List TokenId)) : Prop where
  prompt : Rectangular processor.prompt width
  count : histories.length = processor.prompt.length
  lengths : ∀ generated ∈ histories, generated.length = columns
  tracks : processor.batch.Tracks histories
  vocab : processor.vocabSize = processor.batch.matcher.tokenCount
  fresh : processor.previousWidth = none → columns = 0
  started : ∀ previousWidth, processor.previousWidth = some previousWidth →
    previousWidth = (width + columns : ℕ) ∧ (processor.trustedFixedAppend = false →
      processor.previous = some (extendRows processor.prompt histories))

/-- The session is over: no call succeeds any more. -/
structure Over (processor : LogitsProcessor) : Prop where
  invariant : processor.batch.Invariant
  dead : processor.poisoned = true ∨
    (processor.previousWidth ≠ none ∧ processor.batch.Spent)

/-- What no call changes. -/
structure SameUse (processor processor' : LogitsProcessor) : Prop where
  prompt : processor'.prompt = processor.prompt
  vocab : processor'.vocabSize = processor.vocabSize
  trusted : processor'.trustedFixedAppend = processor.trustedFixedAppend
  session : processor.batch.SameSession processor'.batch

theorem SameUse.refl (processor : LogitsProcessor) : processor.SameUse processor :=
  ⟨rfl, rfl, rfl, .refl _⟩

theorem SameUse.trans {processor' processor'' : LogitsProcessor} (h : processor.SameUse processor')
    (h' : processor'.SameUse processor'') : processor.SameUse processor'' :=
  ⟨h'.prompt.trans h.prompt, h'.vocab.trans h.vocab, h'.trusted.trans h.trusted,
    h.session.trans h'.session⟩

/-- The masks that a processor is served. -/
def Serves (processor : LogitsProcessor) (histories : List (List TokenId))
    (packed : List UInt8) : Prop :=
  Shows processor.batch.matcher.prepared.grammar processor.batch.padTokenId
    processor.batch.matcher.maskBytes histories packed

/-- **The column that a call adds**: none at the first, and then one of tokens that may come
next. -/
inductive Adds (processor : LogitsProcessor) (histories : List (List TokenId)) :
    List (List TokenId) → Prop
  | first (h : processor.previousWidth = none) : Adds processor histories histories
  | next (histories' : List (List TokenId)) (h : processor.previousWidth ≠ none)
      (hextends : Extends processor.batch.matcher.prepared.grammar processor.batch.padTokenId
        histories histories') : Adds processor histories histories'

variable {width columns : ℕ} {histories : List (List TokenId)}

theorem lastTokens_eq_ok {lastColumn : Option RawRow} {rows : ℤ} {tokens : List ℤ} :
    lastTokens lastColumn rows = .ok tokens ↔
      lastColumn = some (.sequence (tokens.map .int)) ∧ tokens.length = rows := by
  match lastColumn with
  | none => exact iff_of_false (fun h => by cases h) fun h => by cases h.1
  | some .other => exact iff_of_false (fun h => by cases h) fun h => by cases h.1
  | some (.sequence objects) =>
    rw [lastTokens, Option.some.injEq, RawRow.sequence.injEq, ← PyObject.mapM_exactInt]
    cases objects.mapM PyObject.exactInt with
    | none => exact iff_of_false (fun h => by cases h) fun h => by cases h.1
    | some values =>
      dsimp only
      rw [Option.some.injEq]
      split_ifs with hlength
      · refine iff_of_false (fun h => by cases h) ?_
        rintro ⟨rfl, h⟩
        exact hlength h
      · rw [Except.ok.injEq]
        exact (and_iff_left_of_imp fun h => h ▸ not_not.mp hlength).symm

/-- **The first phase of a call that passes it**: the prompt is repeated, or a column is
added. -/
theorem Consistent.prepareCall_ok (h : processor.Consistent width columns histories)
    {input : InputIds} {scoresShape : RawRow} {checked : Checked} {plan : Plan}
    (hok : processor.prepareCall input scoresShape = .ok (checked, plan)) :
    processor.poisoned = false ∧ checked.rowCount = processor.prompt.length ∧
      ((processor.previousWidth = none ∧ plan = .initialMasks ∧ checked.position = (width : ℕ) ∧
          checked.parsedRows = some processor.prompt ∧ input.value = .ofRows processor.prompt) ∨
        ∃ column, processor.previousWidth ≠ none ∧ plan = .advance column ∧
          column.length = histories.length ∧ checked.position = (width + (columns + 1) : ℕ) ∧
          (processor.trustedFixedAppend = false →
            checked.parsedRows =
                some (extendRows processor.prompt (appendColumn histories column)) ∧
              input.value =
                .ofRows (extendRows processor.prompt (appendColumn histories column)))) := by
  rw [prepareCall] at hok
  cases hchecked : processor.checkArguments input scoresShape with
  | error raised =>
    rw [hchecked] at hok
    cases hok
  | ok checked' =>
    rw [hchecked] at hok
    obtain ⟨plan', hplan, hpair⟩ := map_eq_ok.mp hok
    obtain ⟨rfl, rfl⟩ := Prod.mk.inj hpair
    obtain ⟨hlive, hcount, hread, -, -⟩ := checkArguments_eq_ok hchecked
    refine ⟨hlive, hcount, ?_⟩
    rw [planCall] at hplan
    cases hwidth : processor.previousWidth with
    | none =>
      rw [hwidth] at hplan
      dsimp only at hplan
      split_ifs at hplan with hprompt
      obtain rfl := Except.ok.inj hplan
      obtain ⟨rows, rowsWidth, hvalue, hrect, hparsed, -, hposition⟩ :=
        readRows_parsed (fun hfull => hfull.2 hwidth) hread
      obtain rfl : rows = processor.prompt :=
        Option.some.inj (hparsed.symm.trans (not_not.mp hprompt))
      obtain ⟨row, hrow⟩ := List.exists_mem_of_ne_nil _ hrect.nonempty
      have hsame : rowsWidth = width := (hrect.width row hrow).symm.trans (h.prompt.width row hrow)
      exact Or.inl ⟨rfl, rfl, hsame ▸ hposition, not_not.mp hprompt, hvalue⟩
    | some previousWidth =>
      obtain ⟨rfl, hprevious⟩ := h.started previousWidth hwidth
      rw [hwidth] at hplan
      dsimp only at hplan
      cases htrusted : processor.trustedFixedAppend with
      | true =>
        rw [htrusted, if_pos rfl] at hplan
        split_ifs at hplan with hposition
        cases hlast : lastTokens input.lastColumn checked'.rowCount with
        | error raised =>
          rw [hlast] at hplan
          cases hplan
        | ok tokens =>
          rw [hlast] at hplan
          obtain ⟨column, hcolumn, rfl⟩ := map_eq_ok.mp hplan
          obtain ⟨rfl, -⟩ := checkTokens_eq_ok.mp hcolumn
          obtain ⟨-, hlength⟩ := lastTokens_eq_ok.mp hlast
          rw [List.length_map, hcount, ← h.count] at hlength
          refine Or.inr ⟨column, Option.some_ne_none _, rfl, Int.ofNat.inj hlength, ?_, fun h => ?_⟩
          · rw [not_not.mp hposition]
            push_cast
            ring
          · cases h
      | false =>
        rw [htrusted, if_neg Bool.false_ne_true, hprevious htrusted] at hplan
        obtain ⟨rows, rowsWidth, hvalue, hrect, hparsed, -, hposition⟩ :=
          readRows_parsed (fun hfull => by rw [htrusted] at hfull; cases hfull.1) hread
        rw [hparsed] at hplan
        obtain ⟨column, hcolumn, rfl⟩ := map_eq_ok.mp hplan
        obtain ⟨hlength, rfl, -⟩ := extendedTokens_eq_ok.mp hcolumn
        rw [length_extendRows h.count, ← h.count] at hlength
        rw [← extendRows_appendColumn] at hvalue hrect hparsed
        refine Or.inr ⟨column, Option.some_ne_none _, rfl, hlength, ?_, fun _ => ⟨hparsed, hvalue⟩⟩
        have hrect' := h.prompt.extendRows ((length_appendColumn hlength).trans h.count)
          (appendColumn_columns h.lengths)
        obtain ⟨row, hrow⟩ := List.exists_mem_of_ne_nil _ hrect.nonempty
        rw [hposition, ← hrect.width row hrow, hrect'.width row hrow]

theorem Consistent.of_batch (h : processor.Consistent width columns histories)
    {batch : NativeBatch} (htracks : batch.Tracks histories)
    (hsession : processor.batch.SameSession batch) (poisoned : Bool) :
    ({ processor with batch, poisoned } : LogitsProcessor).Consistent width columns histories :=
  ⟨h.prompt, h.count, h.lengths, htracks,
    h.vocab.trans (congrArg PreparedGrammar.tokenCount hsession.prepared.symm), h.fresh, h.started⟩

/-- **The second phase**: the masks behind the column of the call, or the session is over, or
nothing was added. -/
theorem Consistent.serve_cases (h : processor.Consistent width columns histories)
    {plan : Plan} {histories' : List (List TokenId)}
    (hplan : (plan = .initialMasks ∧ processor.previousWidth = none ∧ histories' = histories) ∨
      ∃ column, plan = .advance column ∧ processor.previousWidth ≠ none ∧
        column.length = histories.length ∧ histories' = appendColumn histories column)
    (position : ℤ) (memory : Memory) :
    ∃ reply batch poisoned memory', processor.serve plan position memory =
        (reply, { processor with batch, poisoned }, memory') ∧
      processor.batch.SameSession batch ∧
      ((∃ packed, reply = .ok packed ∧ poisoned = processor.poisoned ∧ batch.Tracks histories' ∧
          batch.poisoned = false ∧ batch.matcher.Live ∧ processor.Adds histories histories' ∧
          processor.Serves histories' packed) ∨
        ∃ raised, reply = .error raised ∧ (batch.Tracks histories ∨
          (processor.previousWidth ≠ none ∧ batch.Spent ∧ batch.Invariant))) := by
  rcases hplan with ⟨rfl, hfresh, rfl⟩ | ⟨column, rfl, hstarted, hlength, rfl⟩
  · obtain ⟨reply, batch, memory', hcall, hsession, htracks, hcases⟩ :=
      h.tracks.initialMasks_cases memory
    rw [serve, nativeCall, hcall]
    rcases hcases with ⟨packed, rfl, hlive, hmasks, hshows⟩ | ⟨e, rfl, -⟩
    · exact ⟨_, batch, processor.poisoned, memory', rfl, hsession, Or.inl ⟨packed, rfl, rfl,
        htracks, hlive, hmasks, .first hfresh, hshows⟩⟩
    · exact ⟨_, batch, _, memory', rfl, hsession, Or.inr ⟨_, rfl, Or.inl htracks⟩⟩
  · obtain ⟨reply, batch, memory', hcall, hsession, hb, hcases⟩ :=
      h.tracks.advanceAndMasks_cases column memory
    rw [serve, nativeCall, hcall]
    rcases hcases with ⟨packed, rfl, -, hcontinues, htracks, hlive, -, hmasks, hshows⟩ |
      ⟨e, rfl, hends⟩
    · exact ⟨_, batch, processor.poisoned, memory', rfl, hsession, Or.inl ⟨packed, rfl, rfl,
        htracks, hlive, hmasks, .next _ hstarted ⟨column, hlength, hcontinues, rfl⟩, hshows⟩⟩
    · refine ⟨_, batch, _, memory', rfl, hsession, Or.inr ⟨_, rfl, ?_⟩⟩
      rcases hends with hspent | ⟨-, htracks, -, -⟩
      · exact Or.inr ⟨hstarted, hspent, hb⟩
      · exact Or.inl htracks

section Finish

variable {S R : Type} {masker : Masker S R} {scores : Scores S} {checked : Checked}
  {packed : List UInt8}

theorem finish_error {failure : MaskFailure}
    (hcount : checked.rowCount = processor.prompt.length)
    (h : masker scores.values packed processor.prompt.length processor.vocabSize =
      .error failure) :
    processor.finish masker scores checked packed =
      (.error (failure.raised checked.position), { processor with poisoned := true }) := by
  rw [finish, hcount, Int.toNat_natCast, h]

/-- **The third phase**: the history is committed once the masks are applied. -/
theorem finish_ok {rows : List (List ℤ)} {result : R}
    (hcount : checked.rowCount = processor.prompt.length)
    (hrows : processor.trustedFixedAppend = false → checked.parsedRows = some rows)
    (h : masker scores.values packed processor.prompt.length processor.vocabSize = .ok result) :
    ∃ processor', processor.finish masker scores checked packed = (.ok result, processor') ∧
      processor.SameUse processor' ∧ processor'.batch = processor.batch ∧
      processor'.poisoned = processor.poisoned ∧
      processor'.previousWidth = some checked.position ∧
      (processor.trustedFixedAppend = false → processor'.previous = some rows) ∧
      processor'.scoreVocabSize = some checked.scoreVocab := by
  rw [finish, hcount, Int.toNat_natCast, h]
  dsimp only
  by_cases htrusted : processor.trustedFixedAppend = true
  · rw [if_pos htrusted]
    exact ⟨_, rfl, ⟨rfl, rfl, rfl, .refl _⟩, rfl, rfl, rfl,
      fun h => absurd htrusted (Bool.eq_false_iff.mp h), rfl⟩
  · rw [if_neg htrusted, hrows (Bool.eq_false_iff.mpr htrusted)]
    exact ⟨_, rfl, ⟨rfl, rfl, rfl, .refl _⟩, rfl, rfl, rfl, fun _ => rfl, rfl⟩

end Finish

theorem Consistent.commit (h : processor.Consistent width columns histories)
    {processor' : LogitsProcessor} {batch : NativeBatch} {position : ℤ} {columns' : ℕ}
    {histories' : List (List TokenId)} (htracks : batch.Tracks histories')
    (hsession : processor.batch.SameSession batch)
    (hcount : histories'.length = processor.prompt.length)
    (hlengths : ∀ generated ∈ histories', generated.length = columns')
    (hposition : position = (width + columns' : ℕ))
    (hsame : ({ processor with batch } : LogitsProcessor).SameUse processor')
    (hbatch : processor'.batch = batch) (hwidth : processor'.previousWidth = some position)
    (hprevious : processor.trustedFixedAppend = false →
      processor'.previous = some (extendRows processor.prompt histories')) :
    processor'.Consistent width columns' histories' := by
  refine ⟨hsame.prompt ▸ h.prompt, hcount.trans (congrArg List.length hsame.prompt.symm),
    hlengths, hbatch ▸ htracks, ?_, fun h => ?_, fun previousWidth h' => ?_⟩
  · rw [hsame.vocab, hbatch]
    exact h.vocab.trans (congrArg PreparedGrammar.tokenCount hsession.prepared.symm)
  · rw [hwidth] at h
    cases h
  · rw [hwidth, Option.some.injEq] at h'
    refine ⟨h'.symm.trans hposition, fun htrusted => ?_⟩
    rw [hsame.prompt]
    exact hprevious (hsame.trusted.symm.trans htrusted)

/-- **A call**: it adds a column and applies the masks behind it, or it fails.  Then it added
nothing, or the session is over. -/
theorem Consistent.call_cases {S R : Type} (h : processor.Consistent width columns histories)
    (masker : Masker S R) (input : InputIds) (scores : Scores S) (memory : Memory) :
    ∃ reply processor' memory',
      processor.callLocked masker input scores memory = (reply, processor', memory') ∧
      processor.SameUse processor' ∧
      ((∃ result columns' histories' packed, reply = .ok result ∧
          processor.Adds histories histories' ∧ processor'.Consistent width columns' histories' ∧
          (processor.trustedFixedAppend = false →
            input.value = .ofRows (extendRows processor.prompt histories')) ∧
          processor.Serves histories' packed ∧
          masker scores.values packed processor.prompt.length processor.vocabSize = .ok result ∧
          processor'.previousWidth ≠ none ∧ processor'.poisoned = false ∧
          processor'.batch.poisoned = false ∧ processor'.batch.matcher.Live) ∨
        ∃ raised, reply = .error raised ∧
          (processor'.Over ∨ (processor'.Consistent width columns histories ∧
            processor'.previousWidth = processor.previousWidth))) := by
  rw [callLocked]
  cases hprepare : processor.prepareCall input scores.shape with
  | error raised =>
    exact ⟨_, processor, memory, rfl, .refl processor, Or.inr ⟨raised, rfl, Or.inr ⟨h, rfl⟩⟩⟩
  | ok prepared =>
    obtain ⟨checked, plan⟩ := prepared
    dsimp only
    obtain ⟨hpoisoned, hcount, hplan⟩ := h.prepareCall_ok hprepare
    -- the histories behind the call, and the rows that it was given
    obtain ⟨columns', histories', hserve, hposition, hcount', hlengths, hrows⟩ :
        ∃ columns' histories', ((plan = .initialMasks ∧ processor.previousWidth = none ∧
            histories' = histories) ∨ ∃ column, plan = .advance column ∧
              processor.previousWidth ≠ none ∧ column.length = histories.length ∧
              histories' = appendColumn histories column) ∧
          checked.position = (width + columns' : ℕ) ∧
          histories'.length = processor.prompt.length ∧
          (∀ generated ∈ histories', generated.length = columns') ∧
          (processor.trustedFixedAppend = false →
            checked.parsedRows = some (extendRows processor.prompt histories') ∧
              input.value = .ofRows (extendRows processor.prompt histories')) := by
      rcases hplan with ⟨hfresh, rfl, hposition, hparsed, hvalue⟩ |
        ⟨column, hstarted, rfl, hlength, hposition, hrows⟩
      · have hzero := h.fresh hfresh
        have hnil : ∀ generated ∈ histories, generated = [] := fun generated hmem =>
          List.length_eq_zero_iff.mp ((h.lengths generated hmem).trans hzero)
        refine ⟨columns, histories, Or.inl ⟨rfl, hfresh, rfl⟩, by rw [hzero]; exact hposition,
          h.count, h.lengths, fun _ => ?_⟩
        rw [extendRows_nil h.count hnil]
        exact ⟨hparsed, hvalue⟩
      · exact ⟨columns + 1, _, Or.inr ⟨column, rfl, hstarted, hlength, rfl⟩, hposition,
          (length_appendColumn hlength).trans h.count, appendColumn_columns h.lengths, hrows⟩
    obtain ⟨reply, batch, poisoned, memory', hcall, hsession, hcases⟩ :=
      h.serve_cases hserve checked.position memory
    have huse : processor.SameUse { processor with batch, poisoned } := ⟨rfl, rfl, rfl, hsession⟩
    rw [hcall]
    rcases hcases with ⟨packed, rfl, rfl, htracks, hlive, hmasks, hadds, hserves⟩ |
      ⟨raised, rfl, hends⟩
    · dsimp only
      cases hmask : masker scores.values packed processor.prompt.length processor.vocabSize with
      | error failure =>
        have hfinish := @finish_error { processor with batch } S R masker scores checked packed
          failure hcount hmask
        rw [hfinish]
        exact ⟨_, _, memory', rfl, ⟨rfl, rfl, rfl, hsession⟩,
          Or.inr ⟨_, rfl, Or.inl ⟨htracks.invariant, Or.inl rfl⟩⟩⟩
      | ok result =>
        obtain ⟨processor', hfinish, hsame, hbatch, hpoison, hwidth, hprevious, -⟩ :=
          @finish_ok { processor with batch } S R masker scores checked packed _ result hcount
            (fun h => (hrows h).1) hmask
        rw [hfinish]
        refine ⟨_, processor', memory', rfl, huse.trans hsame, Or.inl ⟨result, columns',
          histories', packed, rfl, hadds, ?_, fun h => (hrows h).2, hserves, hmask, ?_,
          hpoison.trans hpoisoned, hbatch ▸ hlive, hbatch ▸ hmasks⟩⟩
        · exact h.commit htracks hsession hcount' hlengths hposition hsame hbatch hwidth hprevious
        · rw [hwidth]
          exact Option.some_ne_none _
    · refine ⟨_, _, memory', rfl, huse, Or.inr ⟨raised, rfl, ?_⟩⟩
      rcases hends with htracks | ⟨hstarted, hspent, hb⟩
      · exact Or.inr ⟨h.of_batch htracks hsession _, rfl⟩
      · exact Or.inl ⟨hb, Or.inr ⟨hstarted, hspent⟩⟩

/-! ## Runs -/

/-- **A session that is over stays over**: every call fails. -/
theorem Over.call {S R : Type} (h : processor.Over) (masker : Masker S R) (input : InputIds)
    (scores : Scores S) (memory : Memory) :
    ∃ raised processor' memory',
      processor.callLocked masker input scores memory = (.error raised, processor', memory') ∧
      processor.SameUse processor' ∧ processor'.Over := by
  rw [callLocked]
  cases hprepare : processor.prepareCall input scores.shape with
  | error raised => exact ⟨raised, processor, memory, rfl, .refl processor, h⟩
  | ok prepared =>
    obtain ⟨checked, plan⟩ := prepared
    dsimp only
    rw [prepareCall] at hprepare
    cases hchecked : processor.checkArguments input scores.shape with
    | error raised =>
      rw [hchecked] at hprepare
      cases hprepare
    | ok checked' =>
      rw [hchecked] at hprepare
      obtain ⟨plan', hplan, hpair⟩ := map_eq_ok.mp hprepare
      obtain ⟨rfl, rfl⟩ := Prod.mk.inj hpair
      have hlive := (checkArguments_eq_ok hchecked).1
      rcases h.dead with hpoisoned | ⟨hstarted, hspent⟩
      · rw [hlive] at hpoisoned
        cases hpoisoned
      -- a call behind the first is a step, and the batch takes none
      obtain ⟨column, rfl⟩ : ∃ column, plan' = .advance column := by
        obtain ⟨previousWidth, hwidth⟩ := Option.ne_none_iff_exists'.mp hstarted
        rw [planCall, hwidth] at hplan
        dsimp only at hplan
        split_ifs at hplan
        · split at hplan
          · cases hplan
          · obtain ⟨column, -, rfl⟩ := map_eq_ok.mp hplan
            exact ⟨column, rfl⟩
        · split at hplan
          · obtain ⟨column, -, rfl⟩ := map_eq_ok.mp hplan
            exact ⟨column, rfl⟩
          · cases hplan
      obtain ⟨e, batch, memory', hstep, hspent'⟩ :=
        h.invariant.advanceAndMasks_spent hspent column memory
      have hkeeps := h.invariant.call memory (.advanceAndMasks column)
      rw [NativeBatch.call, hstep] at hkeeps
      rw [serve, nativeCall, hstep]
      exact ⟨_, _, _, rfl, ⟨rfl, rfl, rfl, hkeeps.2⟩, hkeeps.1, Or.inr ⟨hstarted, hspent'⟩⟩

/-- **A new processor**: nothing was generated. -/
theorem init_consistent {native : NativeGrammar} {prompt : RawArray} {pad : Option TokenId}
    {trusted : Bool} {memory : Memory}
    (h : (LogitsProcessor.init native prompt pad trusted memory).1 = .ok processor) :
    ∃ width prepared, native.prepared = some prepared ∧ prompt = .ofRows processor.prompt ∧
      processor.batch.matcher.prepared = prepared ∧ processor.batch.padTokenId = pad ∧
      processor.trustedFixedAppend = trusted ∧ processor.poisoned = false ∧
      processor.previousWidth = none ∧ processor.scoreVocabSize = none ∧
      processor.batch.poisoned = false ∧
      processor.Consistent width 0 (List.replicate processor.prompt.length []) := by
  rw [LogitsProcessor.init] at h
  cases hrows : parseRows "prompt" prompt with
  | error raised =>
    rw [hrows] at h
    cases h
  | ok rows =>
    obtain ⟨hprompt, width, hrect⟩ := parseRows_eq_ok.mp hrows
    rw [hrows] at h
    dsimp only at h
    cases hcheck : checkPrompt native.vocabSize rows with
    | error e =>
      rw [hcheck] at h
      cases h
    | ok _ =>
      rw [hcheck] at h
      dsimp only at h
      cases hnew : native.newBatchInner rows.length pad memory with
      | mk reply rest =>
        obtain ⟨native', memory'⟩ := rest
        rw [hnew] at h
        cases reply with
        | error failure => cases h
        | ok batch =>
          obtain rfl := Except.ok.inj h
          obtain ⟨prepared, hprepared, hb, hfresh, hpad⟩ :=
            NativeBatch.eq_newBatch (congrArg Prod.fst hnew)
          have hlive := NativeBatch.newBatch_live (congrArg Prod.fst hnew)
          refine ⟨width, prepared, hprepared, hprompt, congrArg Matcher.prepared hfresh, hpad, rfl,
            rfl, rfl, rfl, hlive, hrect, List.length_replicate, fun generated hmem => ?_,
            ⟨hb, ?_, ?_⟩, ?_,
            fun _ => rfl, fun previousWidth h => by cases h⟩
          · rw [List.eq_of_mem_replicate hmem, List.length_nil]
          · rw [hfresh, Matcher.fresh, List.length_replicate, List.length_replicate]
          · intro row status generated hstatus hgenerated
            rw [List.eq_of_mem_replicate (List.mem_of_getElem? hgenerated)]
            rw [hfresh, Matcher.fresh] at hstatus ⊢
            rw [List.eq_of_mem_replicate (List.mem_of_getElem? hstatus)]
            exact ValidatedGrammar.follows_nil
          · rw [hfresh]
            exact (native.compiled prepared hprepared).2

/-- **Processors come from compiled grammars**: `logits_processor` hands out just those that are
made of its native grammar, as a batch asks of the pad token what it asks itself. -/
theorem logitsProcessor_ok {compiled : CompiledGrammar} {prompt : RawArray} {trusted : Bool}
    {memory : Memory} :
    (∃ pad, (compiled.logitsProcessor prompt pad trusted memory).1 = .ok processor) ↔
      ∃ pad, (LogitsProcessor.init compiled.native prompt pad trusted memory).1 =
        .ok processor := by
  constructor
  · rintro ⟨pad, h⟩
    cases pad with
    | none => exact ⟨none, h⟩
    | int pad =>
      rw [CompiledGrammar.logitsProcessor] at h
      split_ifs at h
      exact ⟨some pad.toNat, h⟩
    | _ => cases h
  · rintro ⟨pad, h⟩
    cases pad with
    | none => exact ⟨.none, h⟩
    | some pad =>
      obtain ⟨_, prepared, hprepared, -, hbatch, hpad, -, -, -, -, -, hconsistent⟩ :=
        init_consistent h
      have hlt : pad < compiled.native.vocabSize := by
        rw [(compiled.native.compiled prepared hprepared).2, ← hbatch]
        exact hconsistent.tracks.invariant.pad pad hpad
      refine ⟨.int pad, ?_⟩
      rw [CompiledGrammar.logitsProcessor, if_neg]
      · exact h
      · rw [outsideVocabulary_eq_false.mpr ⟨Int.natCast_nonneg pad, Int.ofNat_lt.mpr hlt⟩]
        exact Bool.false_ne_true

/-- **Runs end in a session**, or behind it. -/
theorem Consistent.run {S R : Type} (h : processor.Consistent width columns histories)
    (masker : Masker S R) (memory : Memory) (calls : List (InputIds × Scores S)) :
    processor.SameUse (processor.run masker memory calls).1 ∧
      ((processor.run masker memory calls).1.Over ∨
        ∃ columns' histories', (processor.run masker memory calls).1.Consistent width columns'
          histories') := by
  suffices hruns : ∀ calls (processor : LogitsProcessor) memory, (processor.Over ∨
      ∃ columns histories, processor.Consistent width columns histories) →
      processor.SameUse (processor.run masker memory calls).1 ∧
        ((processor.run masker memory calls).1.Over ∨
          ∃ columns histories, (processor.run masker memory calls).1.Consistent width columns
            histories) from
    hruns calls processor memory (Or.inr ⟨columns, histories, h⟩)
  intro calls
  induction calls with
  | nil => exact fun processor memory h => ⟨.refl processor, h⟩
  | cons call calls ih =>
    intro processor memory h
    obtain ⟨input, scores⟩ := call
    obtain ⟨reply, processor', memory', hcall, hsame, h'⟩ :
        ∃ reply processor' memory',
          processor.callLocked masker input scores memory = (reply, processor', memory') ∧
          processor.SameUse processor' ∧ (processor'.Over ∨
            ∃ columns histories, processor'.Consistent width columns histories) := by
      rcases h with hover | ⟨columns, histories, h⟩
      · obtain ⟨raised, processor', memory', hcall, hsame, hover'⟩ :=
          hover.call masker input scores memory
        exact ⟨_, processor', memory', hcall, hsame, Or.inl hover'⟩
      · obtain ⟨reply, processor', memory', hcall, hsame, hcases⟩ :=
          h.call_cases masker input scores memory
        refine ⟨reply, processor', memory', hcall, hsame, ?_⟩
        rcases hcases with ⟨_, columns', histories', _, -, -, h', -⟩ | ⟨_, -, hover | ⟨h', -⟩⟩
        · exact Or.inr ⟨columns', histories', h'⟩
        · exact Or.inl hover
        · exact Or.inr ⟨columns, histories, h'⟩
    rw [LogitsProcessor.run, hcall]
    obtain ⟨hrest, hend⟩ := ih processor' memory' h'
    exact ⟨hsame.trans hrest, hend⟩

/-! ## Answers -/

section Answers

variable {S R : Type} (masker : Masker S R)

/-- The calls of a run that succeed, with what they return. -/
def answers (processor : LogitsProcessor) (memory : Memory) :
    List (InputIds × Scores S) → List ((InputIds × Scores S) × R)
  | [] => []
  | (input, scores) :: calls =>
    match processor.callLocked masker input scores memory with
    | (.error _, processor, memory) => answers processor memory calls
    | (.ok result, processor, memory) =>
      ((input, scores), result) :: answers processor memory calls

variable {masker}

theorem Over.answers_eq (h : processor.Over) (memory : Memory)
    (calls : List (InputIds × Scores S)) : processor.answers masker memory calls = [] := by
  induction calls generalizing processor memory with
  | nil => rfl
  | cons call calls ih =>
    obtain ⟨input, scores⟩ := call
    obtain ⟨raised, processor', memory', hcall, -, h'⟩ := h.call masker input scores memory
    rw [answers, hcall]
    exact ih h' memory'

/-- What a call that succeeds returns behind what was generated. -/
structure Answer (grammar : ValidatedGrammar) (pad : Option TokenId) (maskBytes : ℕ)
    (prompt : List (List ℤ)) (vocabSize : ℕ) (masker : Masker S R)
    (answer : (InputIds × Scores S) × R) (histories : List (List TokenId)) : Prop where
  count : histories.length = prompt.length
  rows : answer.1.1.value = .ofRows (extendRows prompt histories)
  masks : ∃ packed, Shows grammar pad maskBytes histories packed ∧
    masker answer.1.2.values packed prompt.length vocabSize = .ok answer.2

variable (masker) in
/-- The answers from one state of a session on. -/
theorem Consistent.answers_session (h : processor.Consistent width columns histories)
    (hdirect : processor.trustedFixedAppend = false) (memory : Memory)
    (calls : List (InputIds × Scores S)) :
    ∃ session : List (List (List TokenId)),
      List.Forall₂ (Answer processor.batch.matcher.prepared.grammar processor.batch.padTokenId
        processor.batch.matcher.maskBytes processor.prompt processor.vocabSize masker)
        (processor.answers masker memory calls) session ∧
      session.IsChain
        (Extends processor.batch.matcher.prepared.grammar processor.batch.padTokenId) ∧
      ∀ first ∈ session.head?, processor.Adds histories first := by
  induction calls generalizing processor memory columns histories with
  | nil => exact ⟨[], .nil, .nil, fun first h => by cases h⟩
  | cons call calls ih =>
    obtain ⟨input, scores⟩ := call
    obtain ⟨reply, processor', memory', hcall, hsame, hcases⟩ :=
      h.call_cases masker input scores memory
    have hgrammar : processor'.batch.matcher.prepared.grammar =
        processor.batch.matcher.prepared.grammar :=
      congrArg PreparedGrammar.grammar hsame.session.prepared
    have hbytes : processor'.batch.matcher.maskBytes = processor.batch.matcher.maskBytes :=
      congrArg PreparedGrammar.maskBytes hsame.session.prepared
    have hdirect' := hsame.trusted.trans hdirect
    rw [answers, hcall]
    rcases hcases with ⟨result, columns', histories', packed, rfl, hadds, h', hvalue, hserves,
      hmask, hstarted, -⟩ | ⟨raised, rfl, hover | ⟨h', hwidth⟩⟩
    · obtain ⟨session, hanswers, hchain, hfirst⟩ := ih h' hdirect' memory'
      rw [hgrammar, hsame.session.pad, hbytes, hsame.prompt, hsame.vocab] at hanswers
      rw [hgrammar, hsame.session.pad] at hchain
      refine ⟨histories' :: session, .cons ⟨?_, hvalue hdirect, packed, hserves, hmask⟩ hanswers,
        ?_, fun first hhead => ?_⟩
      · rw [h'.count, hsame.prompt]
      · refine List.isChain_cons.mpr ⟨fun next hnext => ?_, hchain⟩
        cases hfirst next hnext with
        | first hnone => exact absurd hnone hstarted
        | next _ _ hextends =>
          rwa [hgrammar, hsame.session.pad] at hextends
      · obtain rfl := Option.some.inj hhead
        exact hadds
    · dsimp only
      rw [hover.answers_eq]
      exact ⟨[], .nil, .nil, fun first h => by cases h⟩
    · obtain ⟨session, hanswers, hchain, hfirst⟩ := ih h' hdirect' memory'
      rw [hgrammar, hsame.session.pad, hbytes, hsame.prompt, hsame.vocab] at hanswers
      rw [hgrammar, hsame.session.pad] at hchain
      refine ⟨session, hanswers, hchain, fun first hhead => ?_⟩
      cases hfirst first hhead with
      | first hnone => exact .first (hwidth.symm.trans hnone)
      | next _ hstarted hextends =>
        rw [hgrammar, hsame.session.pad] at hextends
        exact .next first (hwidth ▸ hstarted) hextends

/-- **A call of a direct run that succeeds** answers its rows. -/
theorem answer_of_run {native : NativeGrammar} {prompt : RawArray} {pad : Option TokenId}
    {memory : Memory}
    (hinit : (LogitsProcessor.init native prompt pad false memory).1 = .ok processor)
    {memory' : Memory} {calls : List (InputIds × Scores S)} {input : InputIds}
    {scores : Scores S} {memory'' : Memory} {result : R}
    (hok : ((processor.run masker memory' calls).1.callLocked masker input scores memory'').1 =
      .ok result) :
    ∃ prepared histories, native.prepared = some prepared ∧
      prompt = .ofRows processor.prompt ∧
      Answer prepared.grammar pad prepared.maskBytes processor.prompt prepared.tokenCount masker
        ((input, scores), result) histories := by
  obtain ⟨width, prepared, hprepared, hprompt, rfl, rfl, hdirect, -, -, -, -, h⟩ :=
    init_consistent hinit
  obtain ⟨hsame, hends⟩ := h.run masker memory' calls
  have hgrammar := congrArg PreparedGrammar.grammar hsame.session.prepared
  have hbytes := congrArg PreparedGrammar.maskBytes hsame.session.prepared
  rcases hends with hover | ⟨columns, histories, h'⟩
  · obtain ⟨raised, _, _, hcall, -⟩ := hover.call masker input scores memory''
    rw [hcall] at hok
    cases hok
  · obtain ⟨reply, _, _, hcall, hsame', hcases⟩ := h'.call_cases masker input scores memory''
    rw [hcall] at hok
    rcases hcases with ⟨result', columns', histories', packed, rfl, -, h'', hvalue, hserves, hmask,
      -⟩ | ⟨raised, rfl, -⟩
    · obtain rfl := Except.ok.inj hok
      refine ⟨_, histories', hprepared, hprompt, ?_, ?_, packed, ?_, ?_⟩
      · rw [h''.count, hsame'.prompt, hsame.prompt]
      · rw [← hsame.prompt]
        exact hvalue (hsame.trusted.trans hdirect)
      · rw [Serves, hgrammar, hsame.session.pad] at hserves
        rwa [← hbytes]
      · rw [hsame.prompt, hsame.vocab, h.vocab] at hmask
        exact hmask
    · cases hok

end Answers

/-- A masker that gives out the masks. -/
def plainMasker : Masker Unit (List UInt8) := fun _ packed _ _ => .ok packed

/-- Two rows behind prompts of two tokens. -/
def reusableStackProcessor : LogitsProcessor :=
  ⟨[[1, 1], [0, 1]], none, 2, false, none, none, false, reusableStackBatch⟩

theorem reusableStackProcessor_init :
    (LogitsProcessor.init reusableStackNative (.ofRows [[1, 1], [0, 1]]) (some 0) false
      .granting).1 = .ok reusableStackProcessor := by
  have hrows : parseRows "prompt" (.ofRows [[1, 1], [0, 1]]) = .ok [[1, 1], [0, 1]] :=
    parseRows_eq_ok.mpr ⟨rfl, 2, List.cons_ne_nil _ _, two_pos, by decide⟩
  have hcheck : checkPrompt reusableStackNative.vocabSize [[1, 1], [0, 1]] = .ok () := rfl
  rw [LogitsProcessor.init, hrows]
  dsimp only
  rw [hcheck]
  have hnew := reusableStackBatch_new
  cases hbatch : reusableStackNative.newBatchInner 2 (some 0) .granting with
  | mk reply rest =>
    rw [hbatch] at hnew
    obtain rfl : reply = .ok reusableStackBatch := hnew
    rfl

/-- The prompt, the prompt again, and a column behind it. -/
def reusableStackCalls : List (InputIds × Scores Unit) :=
  [(.ofRows [[1, 1], [0, 1]], .ofShape 2 2),
    (.ofRows [[1, 1], [0, 1]], .ofShape 2 2),
    (.ofRows [[1, 1, 0], [0, 1, 0]], .ofShape 2 2)]

variable {S R : Type} {native : NativeGrammar} {prompt : RawArray} {pad : Option TokenId}
  {memory : Memory}

/-- **Direct use is one session.**  The calls of a run that succeed, whatever calls failed in
between, were given the prompt and then one column more each time, of tokens that may come next,
and they return what the masker makes of the masks behind their rows. -/
theorem direct_session
    (hinit : (LogitsProcessor.init native prompt pad false memory).1 = .ok processor)
    (masker : Masker S R) (memory' : Memory) (calls : List (InputIds × Scores S)) :
    ∃ prepared session, native.prepared = some prepared ∧ prompt = .ofRows processor.prompt ∧
      List.Forall₂ (Answer prepared.grammar pad prepared.maskBytes processor.prompt
        prepared.tokenCount masker) (processor.answers masker memory' calls) session ∧
      session.IsChain (Extends prepared.grammar pad) ∧
      ∀ first ∈ session.head?, first = List.replicate processor.prompt.length [] := by
  obtain ⟨width, prepared, hprepared, hprompt, rfl, rfl, hdirect, -, hfresh, -, -, h⟩ :=
    init_consistent hinit
  obtain ⟨session, hanswers, hchain, hfirst⟩ :=
    h.answers_session masker hdirect memory' calls
  rw [h.vocab] at hanswers
  refine ⟨_, session, hprepared, hprompt, hanswers, hchain, fun first hhead => ?_⟩
  cases hfirst first hhead with
  | first => rfl
  | next _ hstarted => exact absurd hfresh hstarted

/-- Three calls, the second of them without a column. -/
theorem direct_session_reusableStack :
    (reusableStackProcessor.answers plainMasker .granting reusableStackCalls).map Prod.snd =
        [[1, 1], [3, 3]] ∧
      ∃ session, List.Forall₂ (Answer reusableStackPrepared.grammar (some 0)
        reusableStackPrepared.maskBytes [[1, 1], [0, 1]] reusableStackPrepared.tokenCount
        plainMasker) (reusableStackProcessor.answers plainMasker .granting reusableStackCalls)
        session := by
  constructor
  · rw [reusableStackProcessor, reusableStackBatch_eq]
    decide +kernel
  · obtain ⟨prepared, session, hprepared, -, hanswers, -⟩ :=
      direct_session reusableStackProcessor_init plainMasker .granting reusableStackCalls
    obtain rfl := Option.some.inj hprepared
    exact ⟨session, hanswers⟩

/-- **Direct use depends on nothing else.**  Two processors of one grammar, one prompt and one
pad that succeed on the same rows and scores return the same, whatever they were called with
before. -/
theorem direct_answers_agree {native' : NativeGrammar} {processor' : LogitsProcessor}
    {memory₁ memory₁' : Memory}
    (hinit : (LogitsProcessor.init native prompt pad false memory).1 = .ok processor)
    (hinit' : (LogitsProcessor.init native' prompt pad false memory₁).1 = .ok processor')
    (hnative : native'.prepared = native.prepared) (masker : Masker S R) {memory' : Memory}
    {calls calls' : List (InputIds × Scores S)} {input input' : InputIds}
    {scores scores' : Scores S} (hinput : input'.value = input.value)
    (hscores : scores'.values = scores.values) {memory₂ memory₂' : Memory} {result result' : R}
    (hok : ((processor.run masker memory' calls).1.callLocked masker input scores memory₂).1 =
      .ok result)
    (hok' : ((processor'.run masker memory₁' calls').1.callLocked masker input' scores'
      memory₂').1 = .ok result') : result' = result := by
  obtain ⟨prepared, histories, hprepared, hprompt, hanswer⟩ := answer_of_run hinit hok
  obtain ⟨prepared', histories', hprepared', hprompt', hanswer'⟩ := answer_of_run hinit' hok'
  obtain rfl : prepared' = prepared := by
    rw [hprepared', hprepared] at hnative
    exact Option.some.inj hnative
  have hrows : processor'.prompt = processor.prompt :=
    RawArray.ofRows_injective (hprompt'.symm.trans hprompt)
  rw [hrows] at hanswer'
  obtain ⟨packed, hshows, hmask⟩ := hanswer.masks
  obtain ⟨packed', hshows', hmask'⟩ := hanswer'.masks
  have hhistories : histories' = histories := by
    refine extendRows_injective hanswer'.count hanswer.count (RawArray.ofRows_injective ?_)
    exact hanswer'.rows.symm.trans (hinput.trans hanswer.rows)
  rw [hhistories] at hshows'
  dsimp only at hmask hmask'
  rw [hscores, hshows'.unique hshows, hmask] at hmask'
  exact (Except.ok.inj hmask').symm

/-- A refused call makes no difference. -/
theorem direct_answers_agree_reusableStack :
    ∃ result result',
      ((reusableStackProcessor.run plainMasker .granting (reusableStackCalls.take 1)).1.callLocked
        plainMasker (.ofRows [[1, 1, 0], [0, 1, 0]]) (.ofShape 2 2) .granting).1 = .ok result ∧
      ((reusableStackProcessor.run plainMasker .granting (reusableStackCalls.take 2)).1.callLocked
        plainMasker (.ofRows [[1, 1, 0], [0, 1, 0]]) (.ofShape 2 2) .granting).1 = .ok result' ∧
      result' = result := by
  have hok : ((reusableStackProcessor.run plainMasker .granting
      (reusableStackCalls.take 1)).1.callLocked plainMasker (.ofRows [[1, 1, 0], [0, 1, 0]])
        (.ofShape 2 2) .granting).1 = .ok [3, 3] := by
    rw [reusableStackProcessor, reusableStackBatch_eq]
    decide +kernel
  have hok' : ((reusableStackProcessor.run plainMasker .granting
      (reusableStackCalls.take 2)).1.callLocked plainMasker (.ofRows [[1, 1, 0], [0, 1, 0]])
        (.ofShape 2 2) .granting).1 = .ok [3, 3] := by
    rw [reusableStackProcessor, reusableStackBatch_eq]
    decide +kernel
  exact ⟨_, _, hok, hok', direct_answers_agree reusableStackProcessor_init
    reusableStackProcessor_init rfl plainMasker rfl rfl hok hok'⟩

end LogitsProcessor
end GreatGramma
