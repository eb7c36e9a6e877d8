import GreatGramma.Library.FirstError
import GreatGramma.Native.Batch

/-!
# Objects and exceptions of the Python package

What the package is handed are Python objects, of which it looks at little: whether something is a
sequence, whether an entry is exactly an `int`, what its `shape` is.

## Arrays

Arrays come with three views that need not agree, the nested lists of `tolist`, the `shape` and the
last column; each function below takes the view that it reads.  `_rows` is exact: it takes the
rectangular arrays of integers, and no others (`parseRows_eq_ok`).  A `bool` is not an integer here,
though Python has it for one, since the source compares types.

## Exceptions

The exceptions of the package have a type, a message and a place.  Those of the native module are
tuples of four objects, and `from_native` makes public exceptions of them, with one for tuples that
are not what they should be.  The failures of the model cross the boundary whole
(`fromNative_intoPyerr`).  An exception that is not of the package is only told apart from these
(`Raised`): nothing in the package looks into it.
-/

namespace GreatGramma

open Traversal

/-! ## Objects -/

/-- A Python object, as far as its type is looked at. -/
inductive PyObject where
  | none
  | bool (value : Bool)
  | int (value : ℤ)
  | str (value : String)
  | other
  deriving DecidableEq

namespace PyObject

/-- `type(value) is int`. -/
def exactInt : PyObject → Option ℤ
  | .int value => some value
  | _ => Option.none

/-- `value if isinstance(value, int) else None`. -/
def asInt : PyObject → Option ℤ
  | .int value => some value
  | .bool value => some value.toNat
  | _ => Option.none

theorem exactInt_eq_some {object : PyObject} {value : ℤ} :
    object.exactInt = some value ↔ object = .int value := by
  cases object <;> simp [exactInt]

/-- Objects that are all exactly integers. -/
theorem mapM_exactInt {objects : List PyObject} {values : List ℤ} :
    objects.mapM exactInt = some values ↔ objects = values.map .int := by
  induction objects generalizing values with
  | nil =>
    rw [List.mapM_nil, eq_comm (a := []), List.map_eq_nil_iff]
    exact ⟨fun h => (Option.some.inj h).symm, fun h => by rw [h]; rfl⟩
  | cons object objects ih =>
    rw [List.mapM_cons]
    constructor
    · intro h
      obtain ⟨value, hvalue, h⟩ := Option.bind_eq_some_iff.mp h
      obtain ⟨rest, hrest, h⟩ := Option.bind_eq_some_iff.mp h
      obtain rfl := Option.some.inj h
      rw [exactInt_eq_some.mp hvalue, ih.mp hrest, List.map_cons]
    · intro h
      cases values with
      | nil => cases h
      | cons value values =>
        obtain ⟨rfl, hrest⟩ := List.cons.inj h
        rw [ih.mpr hrest]
        rfl

end PyObject

/-- What should be a row: a sequence other than a string, or not. -/
inductive RawRow where
  | sequence (values : List PyObject)
  | other

/-- What should be an array: a sequence other than a string, something else, or an object whose
`tolist` raises. -/
inductive RawArray where
  | sequence (rows : List RawRow)
  | other
  | raises

/-! ## Exceptions -/

/-- The public exceptions. -/
inductive ErrorType where
  | compileError
  | tokenizerCompatibilityError
  | configurationError
  | sequenceDiscontinuityError
  | constraintViolationError
  | noValidTokenError
  | sequenceCompletedError
  | internalError
  deriving DecidableEq

/-- `GreatGrammaError`, raised without a code of its own. -/
structure GreatGrammaError where
  type : ErrorType
  message : String
  row : Option ℤ
  token : Option ℤ
  position : Option ℤ
  deriving DecidableEq

namespace GreatGrammaError

/-- An exception without a place. -/
def new (type : ErrorType) (message : String) : GreatGrammaError :=
  ⟨type, message, none, none, none⟩

end GreatGrammaError

/-- What a call raises: a public exception, or one of somebody else. -/
inductive Raised where
  | own (error : GreatGrammaError)
  | foreign
  deriving DecidableEq

/-- The code of a native failure. -/
def NativeCode.text : NativeCode → String
  | .configurationError => "configuration_error"
  | .sequenceDiscontinuity => "sequence_discontinuity"
  | .constraintViolation => "constraint_violation"
  | .sequenceCompleted => "sequence_completed"
  | .noValidToken => "no_valid_token"
  | .internalError => "internal_error"

/-- `NativeFailure::into_pyerr`: the arguments of the native exception. -/
def NativeFailure.intoPyerr (failure : NativeFailure) : List PyObject :=
  [.str failure.code.text, .str failure.message,
    failure.row.elim .none fun row => .int row,
    failure.token.elim .none fun token => .int token]

/-- `_ERROR_TYPES`. -/
def errorTypes : List (String × ErrorType) :=
  [("compile_error", .compileError),
    ("tokenizer_compatibility", .tokenizerCompatibilityError),
    ("configuration_error", .configurationError),
    ("sequence_discontinuity", .sequenceDiscontinuityError),
    ("constraint_violation", .constraintViolationError),
    ("no_valid_token", .noValidTokenError),
    ("sequence_completed", .sequenceCompletedError),
    ("internal_error", .internalError)]

/-- `from_native`. -/
def fromNative (args : List PyObject) (position : Option ℤ) : GreatGrammaError :=
  match args with
  | [code, message, row, token] =>
    match code, message with
    | .str code, .str message =>
      ⟨(errorTypes.lookup code).getD .internalError, message, row.asInt, token.asInt, position⟩
    | _, _ =>
      { GreatGrammaError.new .internalError "native error contained invalid metadata" with
        position }
  | _ =>
    { GreatGrammaError.new .internalError "native error did not follow the private error ABI" with
      position }

/-- The exception of a native code. -/
def NativeCode.errorType : NativeCode → ErrorType
  | .configurationError => .configurationError
  | .sequenceDiscontinuity => .sequenceDiscontinuityError
  | .constraintViolation => .constraintViolationError
  | .sequenceCompleted => .sequenceCompletedError
  | .noValidToken => .noValidTokenError
  | .internalError => .internalError

/-- **Native failures cross the boundary whole**: the exception has the type of their code, and
their message, row and token. -/
theorem fromNative_intoPyerr (failure : NativeFailure) (position : Option ℤ) :
    fromNative failure.intoPyerr position =
      ⟨failure.code.errorType, failure.message, failure.row.map Nat.cast,
        failure.token.map Nat.cast, position⟩ := by
  obtain ⟨code, message, row, token⟩ := failure
  have htype : (errorTypes.lookup code.text).getD .internalError = code.errorType := by
    cases code <;> decide +kernel
  have hint : ∀ value : Option ℕ,
      (value.elim PyObject.none fun value => .int value).asInt = value.map Nat.cast := by
    intro value
    cases value <;> rfl
  rw [NativeFailure.intoPyerr, fromNative]
  dsimp only
  rw [htype, hint row, hint token]

/-! ## Arrays -/

/-- One row of `_rows`. -/
def rowValues (label : String) (rowIndex : ℕ) (width : Option ℕ) :
    RawRow → Except GreatGrammaError (List ℤ)
  | .other =>
    .error { GreatGrammaError.new .configurationError
      s!"{label} row {rowIndex} is not an integer sequence" with row := some rowIndex }
  | .sequence values =>
    match values.mapM PyObject.exactInt with
    | none | some [] =>
      .error { GreatGrammaError.new .configurationError
        s!"{label} row {rowIndex} must contain integers" with row := some rowIndex }
    | some row =>
      if width ≠ none ∧ width ≠ some row.length then
        .error { GreatGrammaError.new .configurationError
          s!"{label} rows must have one fixed padded width" with row := some rowIndex }
      else .ok row

/-- The rows from one index on, behind a row of the given width. -/
def rowsFrom (label : String) : ℕ → Option ℕ → List RawRow → Except GreatGrammaError (List (List ℤ))
  | _, _, [] => .ok []
  | rowIndex, width, rawRow :: rest =>
    match rowValues label rowIndex width rawRow with
    | .error error => .error error
    | .ok row =>
      match rowsFrom label (rowIndex + 1) (some row.length) rest with
      | .error error => .error error
      | .ok rows => .ok (row :: rows)

/-- `_rows`. -/
def parseRows (label : String) : RawArray → Except Raised (List (List ℤ))
  | .raises => .error .foreign
  | .other | .sequence [] =>
    .error (.own (.new .configurationError
      s!"{label} must be a nonempty two-dimensional integer array"))
  | .sequence (row :: rows) => (rowsFrom label 0 none (row :: rows)).mapError .own

/-- `_score_shape`. -/
def scoreShape : RawRow → Except Raised (ℤ × ℤ)
  | .sequence [rows, width] =>
    match rows.exactInt, width.exactInt with
    | some rows, some width => .ok (rows, width)
    | _, _ =>
      .error (.own (.new .configurationError "scores must be a two-dimensional array"))
  | _ => .error (.own (.new .configurationError "scores must be a two-dimensional array"))

/-- `_input_shape`. -/
def inputShape : RawRow → Except Raised (ℤ × ℤ)
  | .sequence [rows, width] =>
    match rows.exactInt, width.exactInt with
    | some rows, some width =>
      if rows ≤ 0 ∨ width ≤ 0 then
        .error (.own (.new .configurationError
          "input_ids must be a nonempty two-dimensional integer array"))
      else .ok (rows, width)
    | _, _ =>
      .error (.own (.new .configurationError
        "input_ids must be a nonempty two-dimensional integer array"))
  | _ =>
    .error (.own (.new .configurationError
      "input_ids must be a nonempty two-dimensional integer array"))

/-- `_last_tokens`, of the last column, where that can be read. -/
def lastTokens (lastColumn : Option RawRow) (rows : ℤ) : Except Raised (List ℤ) :=
  match lastColumn with
  | none =>
    .error (.own (.new .configurationError "input_ids must expose its final token column"))
  | some .other =>
    .error (.own (.new .configurationError "input_ids final column must contain integers"))
  | some (.sequence values) =>
    match values.mapM PyObject.exactInt with
    | none =>
      .error (.own (.new .configurationError
        "input_ids final column must contain one integer per row"))
    | some tokens =>
      if tokens.length ≠ rows then
        .error (.own (.new .configurationError
          "input_ids final column must contain one integer per row"))
      else .ok tokens

/-- Rows of integers, as nested lists. -/
def RawArray.ofRows (rows : List (List ℤ)) : RawArray :=
  .sequence (rows.map fun row => .sequence (row.map .int))

theorem RawArray.ofRows_injective {rows rows' : List (List ℤ)}
    (h : RawArray.ofRows rows = .ofRows rows') : rows = rows' := by
  have hint : Function.Injective PyObject.int := fun _ _ => PyObject.int.inj
  refine List.map_injective_iff.mpr (fun row row' hrow => ?_) (RawArray.sequence.inj h)
  exact List.map_injective_iff.mpr hint (RawRow.sequence.inj hrow)

/-- Some rows, of one width, which is not zero. -/
structure Rectangular (rows : List (List ℤ)) (width : ℕ) : Prop where
  nonempty : rows ≠ []
  pos : 0 < width
  width : ∀ row ∈ rows, row.length = width

/-- A row of integers, of the width of those before it. -/
theorem rowValues_eq_ok {label : String} {rowIndex : ℕ} {width : Option ℕ} {rawRow : RawRow}
    {row : List ℤ} :
    rowValues label rowIndex width rawRow = .ok row ↔
      rawRow = .sequence (row.map .int) ∧ row ≠ [] ∧ ∀ w, width = some w → row.length = w := by
  cases rawRow with
  | other => exact iff_of_false (fun h => by cases h) fun h => by cases h.1
  | sequence objects =>
    rw [rowValues]
    cases hvalues : objects.mapM PyObject.exactInt with
    | none =>
      refine iff_of_false (fun h => by cases h) fun h => ?_
      rw [PyObject.mapM_exactInt.mpr (RawRow.sequence.inj h.1)] at hvalues
      cases hvalues
    | some values =>
      have hobjects := PyObject.mapM_exactInt.mp hvalues
      have hsame : RawRow.sequence objects = .sequence (row.map .int) ↔ values = row := by
        rw [RawRow.sequence.injEq, ← PyObject.mapM_exactInt, hvalues, Option.some.injEq]
      rw [hsame]
      cases values with
      | nil => exact iff_of_false (fun h => by cases h) fun h => h.2.1 h.1.symm
      | cons value values =>
        dsimp only
        split_ifs with hwidth
        · refine iff_of_false (fun h => by cases h) ?_
          rintro ⟨rfl, -, hall⟩
          obtain ⟨w, hw⟩ := Option.ne_none_iff_exists'.mp hwidth.1
          exact hwidth.2 (by rw [hw, hall w hw])
        · constructor
          · intro h
            obtain rfl := Except.ok.inj h
            refine ⟨rfl, List.cons_ne_nil _ _, fun w hw => ?_⟩
            by_contra hne
            refine hwidth ⟨by rw [hw]; exact Option.some_ne_none w, fun hsame => hne ?_⟩
            exact (Option.some.inj (hw.symm.trans hsame)).symm
          · rintro ⟨rfl, -⟩
            rfl

/-- The rows behind a row of a width. -/
theorem rowsFrom_eq_ok {label : String} {rowIndex width : ℕ} {raws : List RawRow}
    {rows : List (List ℤ)} (hpos : 0 < width) :
    rowsFrom label rowIndex (some width) raws = .ok rows ↔
      raws = rows.map (fun row => .sequence (row.map .int)) ∧ ∀ row ∈ rows, row.length = width := by
  induction raws generalizing rowIndex rows with
  | nil =>
    rw [rowsFrom, Except.ok.injEq, eq_comm (a := []) (b := rows.map _), List.map_eq_nil_iff,
      eq_comm]
    refine (and_iff_left_of_imp ?_).symm
    rintro rfl row hrow
    exact absurd hrow List.not_mem_nil
  | cons raw raws ih =>
    rw [rowsFrom]
    constructor
    · intro h
      cases hrow : rowValues label rowIndex (some width) raw with
      | error e =>
        rw [hrow] at h
        cases h
      | ok row =>
        obtain ⟨rfl, -, hwidth⟩ := rowValues_eq_ok.mp hrow
        rw [hrow] at h
        dsimp only at h
        rw [hwidth width rfl] at h
        cases hrest : rowsFrom label (rowIndex + 1) (some width) raws with
        | error e =>
          rw [hrest] at h
          cases h
        | ok rest =>
          rw [hrest] at h
          obtain rfl := Except.ok.inj h
          obtain ⟨rfl, hall⟩ := ih.mp hrest
          exact ⟨rfl, List.forall_mem_cons.mpr ⟨hwidth width rfl, hall⟩⟩
    · rintro ⟨hraws, hall⟩
      cases rows with
      | nil => cases hraws
      | cons row rest =>
        obtain ⟨rfl, hrest⟩ := List.cons.inj hraws
        obtain ⟨hrow, hall⟩ := List.forall_mem_cons.mp hall
        have hne : row ≠ [] := List.ne_nil_of_length_pos (hrow ▸ hpos)
        have hfirst : rowValues label rowIndex (some width) (.sequence (row.map .int)) = .ok row :=
          rowValues_eq_ok.mpr ⟨rfl, hne, fun w hw => hrow.trans (Option.some.inj hw)⟩
        rw [hfirst]
        dsimp only
        rw [hrow, ih.mpr ⟨hrest, hall⟩]

/-- **`_rows` takes the rectangular arrays of integers**, and no others. -/
theorem parseRows_eq_ok {label : String} {raw : RawArray} {rows : List (List ℤ)} :
    parseRows label raw = .ok rows ↔ raw = .ofRows rows ∧ ∃ width, Rectangular rows width := by
  have hempty : ∀ raw : RawArray, (∀ rows, raw ≠ .ofRows rows) ∨ raw = .sequence [] →
      ¬ (raw = .ofRows rows ∧ ∃ width, Rectangular rows width) := by
    rintro raw hraw ⟨rfl, width, hrows⟩
    rcases hraw with hnot | hnil
    · exact hnot rows rfl
    · exact hrows.nonempty (List.map_eq_nil_iff.mp (RawArray.sequence.inj hnil))
  match raw with
  | .raises =>
    exact iff_of_false (fun h => by cases h) (hempty _ (Or.inl fun rows h => by cases h))
  | .other =>
    exact iff_of_false (fun h => by cases h) (hempty _ (Or.inl fun rows h => by cases h))
  | .sequence [] => exact iff_of_false (fun h => by cases h) (hempty _ (Or.inr rfl))
  | .sequence (rawRow :: rest) =>
    rw [parseRows, mapError_eq_ok, rowsFrom, RawArray.ofRows, RawArray.sequence.injEq]
    constructor
    · intro h
      cases hrow : rowValues label 0 none rawRow with
      | error e =>
        rw [hrow] at h
        cases h
      | ok row =>
        obtain ⟨rfl, hne, -⟩ := rowValues_eq_ok.mp hrow
        have hpos := List.length_pos_iff.mpr hne
        rw [hrow] at h
        dsimp only at h
        cases hrest : rowsFrom label (0 + 1) (some row.length) rest with
        | error e =>
          rw [hrest] at h
          cases h
        | ok others =>
          rw [hrest] at h
          obtain rfl := Except.ok.inj h
          obtain ⟨rfl, hall⟩ := (rowsFrom_eq_ok hpos).mp hrest
          exact ⟨rfl, row.length, List.cons_ne_nil _ _, hpos, List.forall_mem_cons.mpr ⟨rfl, hall⟩⟩
    · rintro ⟨hraws, width, -, hpos, hall⟩
      cases rows with
      | nil => cases hraws
      | cons row others =>
        obtain ⟨rfl, hrest⟩ := List.cons.inj hraws
        obtain ⟨hrow, hall⟩ := List.forall_mem_cons.mp hall
        have hne : row ≠ [] := List.ne_nil_of_length_pos (hrow ▸ hpos)
        have hfirst : rowValues label 0 none (.sequence (row.map .int)) = .ok row :=
          rowValues_eq_ok.mpr ⟨rfl, hne, fun w hw => by cases hw⟩
        rw [hfirst]
        dsimp only
        rw [hrow, (rowsFrom_eq_ok hpos).mpr ⟨hrest, hall⟩]

end GreatGramma
