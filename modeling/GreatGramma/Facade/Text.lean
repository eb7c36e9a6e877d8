import GreatGramma.Compiler.Grammar
import GreatGramma.Processor.Objects

/-!
# Texts of the Python package

A Python string is a list of code points, and those of them that are lone surrogates have no UTF-8
encoding.

## Counting bytes

The facade of the compiler counts the bytes of a text in chunks, and stops when the budget of its
caller is exceeded; so counting a text is telling whether it is one of at most so many bytes
(`boundedUtf8Size_eq_some`).  Encoding is additive, so it does not matter where the chunks end.  A
chunk that has no encoding is told apart from one that is too large, and both are refused.

## Reading a grammar

A grammar is a string or a path.  What opening or reading a file raises is reported as an error of
the package if it is an `OSError` or a `UnicodeError`, and escapes if it is anything else; and what
is neither a string nor a path escapes as well, since `Path` is called in front of the `try`
(`grammarText_eq_foreign`).

## The start rule

The text of a grammar need not declare its start rule: then a line that declares it is put in
front.  Either way the text declares it once (`withStartRule_declares`), if the reader of
declarations is the one of the facade, which goes by the lines of `str.splitlines`.
-/

namespace GreatGramma

open Traversal

/-! ## Strings -/

/-- A code point of a string. -/
inductive CodePoint where
  | char (character : Char)
  | surrogate (code : Fin 0x800)
  deriving DecidableEq

/-- The character of a code point, unless it is a surrogate. -/
def CodePoint.scalar : CodePoint → Option Char
  | .char character => some character
  | .surrogate _ => none

/-- `str`. -/
abbrev PyStr : Type := List CodePoint

/-- The string of a text. -/
def PyStr.ofString (text : String) : PyStr := text.toList.map .char

/-- The text of a string, unless it has lone surrogates. -/
def PyStr.encode (value : PyStr) : Option String :=
  (value.mapM CodePoint.scalar).map String.ofList

/-- What Python says in its own exceptions: `encode` of a chunk that has no encoding, `decode`
of bytes that are none, and `repr`. -/
structure PythonTexts where
  encodeError : PyStr → String
  decodeError : List UInt8 → String
  repr : PyStr → String

namespace PyStr

theorem mapM_scalar {value : PyStr} {characters : List Char} :
    value.mapM CodePoint.scalar = some characters ↔ value = characters.map .char := by
  induction value generalizing characters with
  | nil =>
    rw [List.mapM_nil, eq_comm (a := []), List.map_eq_nil_iff]
    exact ⟨fun h => (Option.some.inj h).symm, fun h => by rw [h]; rfl⟩
  | cons point value ih =>
    rw [List.mapM_cons]
    constructor
    · intro h
      obtain ⟨character, hpoint, h⟩ := Option.bind_eq_some_iff.mp h
      obtain ⟨rest, hrest, h⟩ := Option.bind_eq_some_iff.mp h
      obtain rfl := Option.some.inj h
      cases point with
      | surrogate code => cases hpoint
      | char head =>
        obtain rfl := Option.some.inj hpoint
        rw [ih.mp hrest]
        rfl
    · intro h
      cases characters with
      | nil => cases h
      | cons head characters =>
        obtain ⟨rfl, hrest⟩ := List.cons.inj h
        rw [ih.mpr hrest]
        rfl

theorem encode_eq_some {value : PyStr} {text : String} :
    value.encode = some text ↔ value = ofString text := by
  rw [encode, Option.map_eq_some_iff]
  constructor
  · rintro ⟨characters, h, rfl⟩
    rw [mapM_scalar.mp h, ofString, String.toList_ofList]
  · intro h
    exact ⟨text.toList, mapM_scalar.mpr h, String.ofList_toList⟩

theorem ofString_injective {text text' : String} (h : ofString text = ofString text') :
    text = text' :=
  Option.some.inj ((encode_eq_some.mpr rfl).symm.trans (encode_eq_some.mpr h))

theorem ofString_append (text text' : String) :
    ofString (text ++ text') = ofString text ++ ofString text' := by
  rw [ofString, String.toList_append, List.map_append]
  rfl

theorem append_eq_ofString {value value' : PyStr} {text : String} :
    value ++ value' = ofString text ↔
      ∃ first second, value = ofString first ∧ value' = ofString second ∧
        text = first ++ second := by
  constructor
  · intro h
    obtain ⟨first, second, hsplit, hfirst, hsecond⟩ := List.map_eq_append_iff.mp h.symm
    refine ⟨.ofList first, .ofList second, ?_, ?_, ?_⟩
    · rw [ofString, String.toList_ofList, hfirst]
    · rw [ofString, String.toList_ofList, hsecond]
    · rw [← String.ofList_append, ← hsplit, String.ofList_toList]
  · rintro ⟨first, second, rfl, rfl, rfl⟩
    exact (ofString_append first second).symm

theorem nil_eq_ofString {text : String} : ([] : PyStr) = ofString text ↔ text = "" := by
  constructor
  · intro h
    exact (@ofString_injective "" text h).symm
  · rintro rfl
    rfl

end PyStr

/-! ## Counting bytes -/

/-- `_UTF8_CHUNK_CHARACTERS`. -/
def utf8ChunkCharacters : ℕ := 1024 * 1024

/-- The loop of `_bounded_utf8_size` over the starts of chunks; it raises for a chunk that has
no encoding. -/
def boundedFrom (chunkCharacters : ℕ) (value : PyStr) (maximum : ℤ) :
    ℕ → List ℕ → Except PyStr (Option ℕ)
  | total, [] => .ok (some total)
  | total, start :: starts =>
    let chunk : PyStr := (value.drop start).take chunkCharacters
    match chunk.encode with
    | none => .error chunk
    | some text =>
      if ((total + text.utf8ByteSize : ℕ) : ℤ) > maximum then .ok none
      else boundedFrom chunkCharacters value maximum (total + text.utf8ByteSize) starts

/-- `range(0, length, step)`. -/
def rangeStarts (length step : ℕ) : List ℕ := List.range' 0 ((length + step - 1) / step) step

/-- `_bounded_utf8_size`. -/
def boundedUtf8Size (value : PyStr) (maximum : ℤ) : Except PyStr (Option ℕ) :=
  boundedFrom utf8ChunkCharacters value maximum 0 (rangeStarts value.length utf8ChunkCharacters)

theorem boundedFrom_eq_some {chunkCharacters : ℕ} {value : PyStr} {maximum : ℤ}
    {count start total size : ℕ} (htotal : (total : ℤ) ≤ maximum)
    (hcount : value.length ≤ start + count * chunkCharacters) :
    boundedFrom chunkCharacters value maximum total (List.range' start count chunkCharacters) =
        .ok (some size) ↔
      ∃ text, value.drop start = PyStr.ofString text ∧ size = total + text.utf8ByteSize ∧
        (size : ℤ) ≤ maximum := by
  induction count generalizing start total with
  | zero =>
    rw [Nat.zero_mul, Nat.add_zero] at hcount
    rw [List.range'_zero, boundedFrom, List.drop_eq_nil_of_le hcount]
    constructor
    · intro h
      cases h
      exact ⟨"", rfl, rfl, htotal⟩
    · rintro ⟨text, htext, rfl, -⟩
      rw [PyStr.nil_eq_ofString.mp htext]
      rfl
  | succ count ih =>
    have hnext : value.length ≤ start + chunkCharacters + count * chunkCharacters := by
      rw [Nat.succ_mul] at hcount
      omega
    have hdrop : value.drop start =
        (value.drop start).take chunkCharacters ++ value.drop (start + chunkCharacters) := by
      rw [← List.drop_drop, List.take_append_drop]
    rw [List.range'_succ, boundedFrom]
    cases hencode : PyStr.encode ((value.drop start).take chunkCharacters) with
    | none =>
      refine ⟨(fun h => by cases h), ?_⟩
      rintro ⟨text, htext, -⟩
      rw [hdrop] at htext
      obtain ⟨first, -, hfirst, -⟩ := PyStr.append_eq_ofString.mp htext
      rw [PyStr.encode_eq_some.mpr hfirst] at hencode
      cases hencode
    | some first =>
      have hfirst := PyStr.encode_eq_some.mp hencode
      have hsplit : ∀ text, value.drop start = PyStr.ofString text ↔
          ∃ second, value.drop (start + chunkCharacters) = PyStr.ofString second ∧
            text = first ++ second := by
        intro text
        rw [hdrop, PyStr.append_eq_ofString]
        constructor
        · rintro ⟨first', second, hfirst', hsecond, rfl⟩
          rw [PyStr.ofString_injective (hfirst.symm.trans hfirst')]
          exact ⟨second, hsecond, rfl⟩
        · rintro ⟨second, hsecond, rfl⟩
          exact ⟨first, second, hfirst, hsecond, rfl⟩
      simp only [hsplit]
      split_ifs with hover
      · refine ⟨(fun h => by cases h), ?_⟩
        rintro ⟨text, ⟨second, -, rfl⟩, rfl, hle⟩
        rw [String.utf8ByteSize_append] at hle
        omega
      · rw [ih (Int.not_lt.mp hover) hnext]
        constructor
        · rintro ⟨second, hsecond, rfl, hle⟩
          refine ⟨first ++ second, ⟨second, hsecond, rfl⟩, ?_, hle⟩
          rw [String.utf8ByteSize_append, Nat.add_assoc]
        · rintro ⟨text, ⟨second, hsecond, rfl⟩, rfl, hle⟩
          refine ⟨second, hsecond, ?_, hle⟩
          rw [String.utf8ByteSize_append, Nat.add_assoc]

/-- **Counting bytes**: the string is a text of so many bytes, and of at most `maximum`. -/
theorem boundedUtf8Size_eq_some {value : PyStr} {maximum : ℤ} (hmaximum : 0 ≤ maximum) {size : ℕ} :
    boundedUtf8Size value maximum = .ok (some size) ↔
      ∃ text, value = PyStr.ofString text ∧ size = text.utf8ByteSize ∧ (size : ℤ) ≤ maximum := by
  have hchunk : 0 < utf8ChunkCharacters := by decide
  have hcount : value.length ≤
      0 + (value.length + utf8ChunkCharacters - 1) / utf8ChunkCharacters * utf8ChunkCharacters := by
    have hdiv := Nat.div_add_mod (value.length + utf8ChunkCharacters - 1) utf8ChunkCharacters
    have hmod := Nat.mod_lt (value.length + utf8ChunkCharacters - 1) hchunk
    rw [Nat.mul_comm] at hdiv
    omega
  rw [boundedUtf8Size, rangeStarts, boundedFrom_eq_some hmaximum hcount]
  simp only [List.drop_zero, Nat.zero_add]

/-! ## Parts of a source -/

/-- `_MAX_SOURCE_BYTES`. -/
def maxSourceBytes : ℕ := 64 * 1024 * 1024

/-- `_MAX_REGEX_BYTES`. -/
def maxRegexBytes : ℕ := 16 * 1024 * 1024

/-- The refusal of a source that is too large. -/
def sourceTooLarge : GreatGrammaError :=
  .new .compileError s!"aggregate grammar source must contain at most {maxSourceBytes} bytes"

/-- What `_source_part_size` makes of a count. -/
def sourcePartCounted (texts : PythonTexts) :
    Except PyStr (Option ℕ) → Except GreatGrammaError ℕ
  | .error chunk =>
    .error (.new .compileError s!"grammar source is not valid UTF-8: {texts.encodeError chunk}")
  | .ok none => .error sourceTooLarge
  | .ok (some size) => .ok size

/-- `_source_part_size`. -/
def sourcePartSize (texts : PythonTexts) (value : PyStr) (remaining : ℤ) :
    Except GreatGrammaError ℕ :=
  sourcePartCounted texts (boundedUtf8Size value remaining)

/-- What `_terminal_pattern_size` makes of a count. -/
def terminalPatternCounted (texts : PythonTexts) (sourceRemaining regexRemaining : ℤ) :
    Except PyStr (Option ℕ) → Except GreatGrammaError ℕ
  | .error chunk =>
    .error (.new .compileError
      s!"terminal regex source is not valid UTF-8: {texts.encodeError chunk}")
  | .ok (some size) => .ok size
  | .ok none =>
    if sourceRemaining ≤ regexRemaining then .error sourceTooLarge
    else
      .error (.new .compileError
        s!"terminal regexes must contain at most {maxRegexBytes} source bytes")

/-- `_terminal_pattern_size`. -/
def terminalPatternSize (texts : PythonTexts) (value : PyStr)
    (sourceRemaining regexRemaining : ℤ) : Except GreatGrammaError ℕ :=
  terminalPatternCounted texts sourceRemaining regexRemaining
    (boundedUtf8Size value (min sourceRemaining regexRemaining))

variable {texts : PythonTexts}

theorem sourcePartSize_eq_ok {value : PyStr} {remaining : ℤ} (hremaining : 0 ≤ remaining)
    {size : ℕ} : sourcePartSize texts value remaining = .ok size ↔
      ∃ text, value = PyStr.ofString text ∧ size = text.utf8ByteSize ∧ (size : ℤ) ≤ remaining := by
  rw [← boundedUtf8Size_eq_some hremaining, sourcePartSize]
  generalize boundedUtf8Size value remaining = counted
  rcases counted with chunk | (_ | size')
  · exact ⟨(fun h => by cases h), fun h => by cases h⟩
  · exact ⟨(fun h => by cases h), fun h => by cases h⟩
  · exact ⟨(fun h => by rw [Except.ok.inj h]), fun h => by cases h; rfl⟩

theorem terminalPatternSize_eq_ok {value : PyStr} {sourceRemaining regexRemaining : ℤ}
    (hsource : 0 ≤ sourceRemaining) (hregex : 0 ≤ regexRemaining) {size : ℕ} :
    terminalPatternSize texts value sourceRemaining regexRemaining = .ok size ↔
      ∃ text, value = PyStr.ofString text ∧ size = text.utf8ByteSize ∧
        (size : ℤ) ≤ sourceRemaining ∧ (size : ℤ) ≤ regexRemaining := by
  simp only [← le_min_iff]
  rw [← boundedUtf8Size_eq_some (le_min hsource hregex), terminalPatternSize]
  generalize boundedUtf8Size value (min sourceRemaining regexRemaining) = counted
  rcases counted with chunk | (_ | size')
  · exact ⟨(fun h => by cases h), fun h => by cases h⟩
  · refine ⟨fun h => ?_, fun h => by cases h⟩
    rw [terminalPatternCounted] at h
    split_ifs at h
  · exact ⟨(fun h => by rw [Except.ok.inj h]), fun h => by cases h; rfl⟩

/-- What opening or reading a file raises: an `OSError` or a `UnicodeError`, which are reported, or
something else, such as the `ValueError` of a name with a null character. -/
inductive ReadFailure where
  | reported (error : String)
  | other

/-- What the facade is given for a grammar: a string, a path, of which it gets the first bytes or
an exception, or an object of which `Path` makes no path. -/
inductive GrammarInput where
  | text (value : PyStr)
  | path (read : ℕ → Except ReadFailure (List UInt8))
  | noPath

/-- `bytes.decode("utf-8")`. -/
def decodeUtf8 (bytes : List UInt8) : Option String := String.fromUTF8? ⟨bytes.toArray⟩

/-- What `_grammar_text` makes of the bytes of a file. -/
def decodedSource (texts : PythonTexts) (bytes : List UInt8) : Except GreatGrammaError PyStr :=
  if bytes.length > maxSourceBytes then .error sourceTooLarge
  else
    match decodeUtf8 bytes with
    | none =>
      .error (.new .compileError s!"could not read grammar path: {texts.decodeError bytes}")
    | some text => .ok (.ofString text)

/-- The source of a grammar.  `Path` is called in front of the `try`, and this catches an `OSError`
and a `UnicodeError` only. -/
def grammarSource (texts : PythonTexts) : GrammarInput → Except Raised PyStr
  | .text value => .ok value
  | .noPath => .error .foreign
  | .path read =>
    match read (maxSourceBytes + 1) with
    | .error (.reported error) =>
      .error (.own (.new .compileError s!"could not read grammar path: {error}"))
    | .error .other => .error .foreign
    | .ok bytes => (decodedSource texts bytes).mapError .own

/-- `_grammar_text`. -/
def grammarText (texts : PythonTexts) (grammar : GrammarInput) : Except Raised (PyStr × ℕ) := do
  let source ← grammarSource texts grammar
  let size ← (sourcePartSize texts source maxSourceBytes).mapError .own
  return (source, size)

theorem grammarText_eq_ok {grammar : GrammarInput} {source : PyStr} {size : ℕ} :
    grammarText texts grammar = .ok (source, size) ↔
      ∃ text, grammarSource texts grammar = .ok (PyStr.ofString text) ∧
        source = PyStr.ofString text ∧ size = text.utf8ByteSize ∧ size ≤ maxSourceBytes := by
  rw [grammarText, bind_eq_ok]
  constructor
  · rintro ⟨found, hfound, h⟩
    obtain ⟨size', hsize, h⟩ := bind_eq_ok.mp h
    obtain ⟨rfl, rfl⟩ := Prod.mk.inj (Except.ok.inj h)
    obtain ⟨text, rfl, rfl, hle⟩ :=
      (sourcePartSize_eq_ok (Int.natCast_nonneg _)).mp (mapError_eq_ok.mp hsize)
    exact ⟨text, hfound, rfl, rfl, Int.ofNat_le.mp hle⟩
  · rintro ⟨text, hfound, rfl, rfl, hle⟩
    refine ⟨PyStr.ofString text, hfound, bind_eq_ok.mpr ⟨text.utf8ByteSize, ?_, rfl⟩⟩
    exact mapError_eq_ok.mpr ((sourcePartSize_eq_ok (Int.natCast_nonneg _)).mpr
      ⟨text, rfl, rfl, Int.ofNat_le.mpr hle⟩)

/-- **What escapes the reader** escapes where the source is taken: a size that is refused is. -/
theorem grammarText_eq_foreign {grammar : GrammarInput} :
    grammarText texts grammar = .error .foreign ↔
      grammarSource texts grammar = .error .foreign := by
  rw [grammarText]
  cases grammarSource texts grammar with
  | error raised =>
    exact ⟨fun h => congrArg Except.error (Except.error.inj h), fun h => h ▸ rfl⟩
  | ok source =>
    refine ⟨fun h => ?_, fun h => (by cases h)⟩
    rw [ok_bind] at h
    cases hsize : sourcePartSize texts source maxSourceBytes with
    | error error =>
      rw [hsize] at h
      cases h
    | ok size =>
      rw [hsize] at h
      cases h

/-! ## The start rule -/

/-- Where `str.splitlines` ends a line, but for `\r\n`. -/
def CodePoint.isLineBreak : CodePoint → Bool
  | .char character =>
    (0xA ≤ character.toNat && character.toNat ≤ 0xD) ||
      (0x1C ≤ character.toNat && character.toNat ≤ 0x1E) || character.toNat = 0x85 ||
      character.toNat = 0x2028 || character.toNat = 0x2029
  | .surrogate _ => false

/-- `str.isspace` of one code point. -/
def CodePoint.isSpace : CodePoint → Bool
  | .char character => isWhitespace character || (0x1C ≤ character.toNat && character.toNat ≤ 0x1F)
  | .surrogate _ => false

/-- The loop of `str.splitlines`, with the line so far. -/
def splitLinesFrom (line : PyStr) : PyStr → List PyStr
  | [] => if line.isEmpty then [] else [line]
  | .char '\r' :: .char '\n' :: rest => line :: splitLinesFrom [] rest
  | point :: rest =>
    if point.isLineBreak then line :: splitLinesFrom [] rest
    else splitLinesFrom (line ++ [point]) rest

/-- `str.splitlines`. -/
def splitLines (source : PyStr) : List PyStr := splitLinesFrom [] source

/-- `str.strip`. -/
def strip (line : PyStr) : PyStr :=
  ((line.dropWhile CodePoint.isSpace).reverse.dropWhile CodePoint.isSpace).reverse

/-- `str.split`. -/
def fieldsOf (line : PyStr) : List PyStr :=
  (line.splitOnP CodePoint.isSpace).filter fun field => !field.isEmpty

/-- Letters and the underscore. -/
def CodePoint.startsIdentifier : CodePoint → Bool
  | .char character => character.isAlpha || character = '_'
  | .surrogate _ => false

/-- Letters, digits and the underscore. -/
def CodePoint.inIdentifier : CodePoint → Bool
  | .char character => character.isAlphanum || character = '_'
  | .surrogate _ => false

/-- `_RULE.fullmatch`. -/
def isRule : PyStr → Bool
  | [] => false
  | head :: tail => head.startsIdentifier && tail.all CodePoint.inIdentifier

/-- `%start`. -/
def startDirective : PyStr := .ofString "%start"

/-- One line of the loop of `_with_start_rule`. -/
def declareStart (declared : List PyStr) (line : PyStr) : Except GreatGrammaError (List PyStr) :=
  let fields := fieldsOf (strip line)
  if fields.head? = some startDirective then
    match fields with
    | [_, rule] => .ok (declared ++ [rule])
    | _ =>
      .error (.new .compileError "the %start declaration must contain exactly one rule")
  else .ok declared

/-- The rules that a source declares to start with. -/
def declaredStarts (source : PyStr) : Except GreatGrammaError (List PyStr) :=
  (splitLines source).foldlM declareStart []

/-- `_with_start_rule`; the rule is `none` if it is not a string. -/
def withStartRule (texts : PythonTexts) (source : PyStr) (startRule : Option PyStr) :
    Except GreatGrammaError (PyStr × ℕ) :=
  match startRule with
  | none => .error (.new .configurationError "start_rule must be an ASCII grammar identifier")
  | some startRule =>
    if !isRule startRule then
      .error (.new .configurationError "start_rule must be an ASCII grammar identifier")
    else
      match declaredStarts source with
      | .error error => .error error
      | .ok [] =>
        let line : PyStr := .ofString "%start " ++ startRule ++ .ofString "\n"
        .ok (line ++ source, line.length)
      | .ok [declared] =>
        if declared ≠ startRule then
          .error (.new .configurationError
            s!"grammar declares start rule {texts.repr declared}, not {texts.repr startRule}")
        else .ok (source, 0)
      | .ok _ => .error (.new .compileError "the grammar contains multiple %start declarations")

/-- Code points of an identifier are visible ASCII characters. -/
theorem inIdentifier_char {point : CodePoint} (h : point.inIdentifier = true) :
    ∃ character, point = .char character ∧ 0x30 ≤ character.toNat ∧ character.toNat ≤ 0x7A := by
  cases point with
  | surrogate code => cases h
  | char character =>
    refine ⟨character, rfl, ?_⟩
    have hrange : ∀ low high : Char, low.val ≤ character.val ∧ character.val ≤ high.val →
        low.toNat ≤ character.toNat ∧ character.toNat ≤ high.toNat := fun low high hrange =>
      ⟨UInt32.le_iff_toNat_le.mp hrange.1, UInt32.le_iff_toNat_le.mp hrange.2⟩
    rcases (Bool.or_eq_true_iff ..).mp h with halphanum | hunderscore
    · rcases (Bool.or_eq_true_iff ..).mp halphanum with halpha | hdigit
      · rcases (Bool.or_eq_true_iff ..).mp halpha with hupper | hlower
        · obtain ⟨hlow, hhigh⟩ := hrange 'A' 'Z' (of_decide_eq_true hupper)
          exact ⟨le_trans (by decide) hlow, le_trans hhigh (by decide)⟩
        · obtain ⟨hlow, hhigh⟩ := (Bool.and_eq_true_iff ..).mp hlower
          obtain ⟨hlow, hhigh⟩ := hrange 'a' 'z' ⟨of_decide_eq_true hlow, of_decide_eq_true hhigh⟩
          exact ⟨le_trans (by decide) hlow, le_trans hhigh (by decide)⟩
      · obtain ⟨hlow, hhigh⟩ := (Bool.and_eq_true_iff ..).mp hdigit
        obtain ⟨hlow, hhigh⟩ := hrange '0' '9' ⟨of_decide_eq_true hlow, of_decide_eq_true hhigh⟩
        exact ⟨hlow, le_trans hhigh (by decide)⟩
    · obtain rfl := of_decide_eq_true hunderscore
      exact ⟨by decide, by decide⟩

theorem inIdentifier_not_space {point : CodePoint} (h : point.inIdentifier = true) :
    point.isSpace = false := by
  obtain ⟨character, rfl, hlow, hhigh⟩ := inIdentifier_char h
  simp only [CodePoint.isSpace, isWhitespace, Bool.or_eq_false_iff, Bool.and_eq_false_iff,
    decide_eq_false_iff_not]
  omega

theorem isSpace_of_isLineBreak {point : CodePoint} (h : point.isLineBreak = true) :
    point.isSpace = true := by
  cases point with
  | surrogate code => cases h
  | char character =>
    simp only [CodePoint.isLineBreak, Bool.or_eq_true, Bool.and_eq_true, decide_eq_true_eq] at h
    simp only [CodePoint.isSpace, isWhitespace, Bool.or_eq_true, Bool.and_eq_true,
      decide_eq_true_eq]
    omega

theorem startsIdentifier_in {point : CodePoint} (h : point.startsIdentifier = true) :
    point.inIdentifier = true := by
  cases point with
  | surrogate code => cases h
  | char character =>
    rw [CodePoint.startsIdentifier, Bool.or_eq_true] at h
    rw [CodePoint.inIdentifier, Bool.or_eq_true]
    exact h.imp_left fun halpha => (Bool.or_eq_true_iff ..).mpr (Or.inl halpha)

/-- An identifier is not empty, and of the code points of identifiers. -/
theorem isRule_mem {rule : PyStr} (h : isRule rule = true) :
    rule ≠ [] ∧ ∀ point ∈ rule, point.inIdentifier = true := by
  cases rule with
  | nil => cases h
  | cons head tail =>
    rw [isRule, Bool.and_eq_true, List.all_eq_true] at h
    refine ⟨List.cons_ne_nil head tail, fun point hpoint => ?_⟩
    rcases List.mem_cons.mp hpoint with rfl | htail
    · exact startsIdentifier_in h.1
    · exact h.2 point htail

/-- An identifier is a text of as many bytes as code points. -/
theorem exists_text_of_inIdentifier {rule : PyStr}
    (h : ∀ point ∈ rule, point.inIdentifier = true) :
    ∃ text, rule = PyStr.ofString text ∧ text.utf8ByteSize = rule.length := by
  induction rule with
  | nil => exact ⟨"", rfl, rfl⟩
  | cons point rule ih =>
    obtain ⟨character, rfl, -, hhigh⟩ := inIdentifier_char (h _ (List.mem_cons_self ..))
    obtain ⟨text, rfl, hsize⟩ := ih fun point hpoint => h point (List.mem_cons_of_mem _ hpoint)
    have hone : character.utf8Size = 1 := by
      rw [Char.utf8Size_eq_one_iff, UInt32.le_iff_toNat_le]
      exact le_trans hhigh (by decide)
    refine ⟨String.singleton character ++ text, ?_, ?_⟩
    · rw [PyStr.ofString_append]
      simp only [PyStr.ofString, String.toList_singleton, List.map_cons, List.map_nil,
        List.singleton_append]
    · rw [String.utf8ByteSize_append, String.utf8ByteSize_singleton, hone, hsize, List.length_cons,
        Nat.add_comm]

/-- A line without breaks is split off. -/
theorem splitLinesFrom_line {body : PyStr} (h : ∀ point ∈ body, point.isLineBreak = false)
    (line rest : PyStr) :
    splitLinesFrom line (body ++ .char '\n' :: rest) =
      (line ++ body) :: splitLinesFrom [] rest := by
  induction body generalizing line with
  | nil =>
    rw [List.nil_append, List.append_nil, splitLinesFrom, if_pos (by decide)]
    rintro rest' ⟨⟩
  | cons point body ih =>
    have hpoint := h point (List.mem_cons_self ..)
    rw [List.cons_append, splitLinesFrom, if_neg (Bool.eq_false_iff.mp hpoint),
      ih fun point hmem => h point (List.mem_cons_of_mem _ hmem)]
    · rw [List.append_assoc, List.singleton_append]
    · rintro rest' rfl -
      exact absurd hpoint (by decide)

/-- Nothing is stripped off a line between code points that are no spaces. -/
theorem strip_eq_self {line : PyStr} (hhead : ∀ point ∈ line.head?, point.isSpace = false)
    (hlast : ∀ point ∈ line.getLast?, point.isSpace = false) : strip line = line := by
  have hdrop : ∀ {points : PyStr}, (∀ point ∈ points.head?, point.isSpace = false) →
      points.dropWhile CodePoint.isSpace = points := by
    intro points hpoints
    cases points with
    | nil => rfl
    | cons point points =>
      rw [List.dropWhile_cons_of_neg]
      exact Bool.eq_false_iff.mp (hpoints point rfl)
  rw [strip, hdrop hhead, hdrop, List.reverse_reverse]
  intro point hpoint
  rw [List.head?_reverse] at hpoint
  exact hlast point hpoint

/-- Rules are declared after the ones that were. -/
theorem foldlM_declareStart (lines : List PyStr) (declared : List PyStr) :
    lines.foldlM declareStart declared =
      (lines.foldlM declareStart []).map (declared ++ ·) := by
  have hone : ∀ line declared,
      declareStart declared line = (declareStart [] line).map (declared ++ ·) := by
    intro line declared
    simp only [declareStart]
    split
    · split
      · rfl
      · rfl
    · rw [Except.map, List.append_nil]
  induction lines generalizing declared with
  | nil =>
    rw [List.foldlM_nil, List.foldlM_nil]
    exact congrArg Except.ok (List.append_nil declared).symm
  | cons line lines ih =>
    rw [List.foldlM_cons, List.foldlM_cons, hone line declared]
    cases declareStart [] line with
    | error error => rfl
    | ok found =>
      change lines.foldlM declareStart (declared ++ found) =
        (lines.foldlM declareStart found).map (declared ++ ·)
      rw [ih (declared ++ found), ih found]
      cases lines.foldlM declareStart [] with
      | error error => rfl
      | ok rest => exact congrArg Except.ok (List.append_assoc ..)

/-- The line that declares a rule. -/
def startLine (rule : PyStr) : PyStr := .ofString "%start " ++ rule

/-- **The line declares its rule**, and what is declared behind it is declared. -/
theorem declaredStarts_line {rule : PyStr} (h : isRule rule = true) (source : PyStr) :
    declaredStarts (startLine rule ++ .ofString "\n" ++ source) =
      (declaredStarts source).map ([rule] ++ ·) := by
  obtain ⟨hne, hmem⟩ := isRule_mem h
  have hspace : ∀ point ∈ rule, point.isSpace = false := fun point hpoint =>
    inIdentifier_not_space (hmem point hpoint)
  have hsplit : startLine rule = startDirective ++ .char ' ' :: rule := rfl
  have hbreak : ∀ point ∈ startLine rule, point.isLineBreak = false := by
    intro point hpoint
    rcases List.mem_append.mp hpoint with hdirective | hrule
    · exact (by decide : ∀ point ∈ PyStr.ofString "%start ", point.isLineBreak = false) point
        hdirective
    · exact Bool.eq_false_iff.mpr fun hbreak =>
        Bool.eq_false_iff.mp (hspace point hrule) (isSpace_of_isLineBreak hbreak)
  have hstrip : strip (startLine rule) = startLine rule := by
    refine strip_eq_self (fun point hpoint => ?_) fun point hpoint => ?_
    · obtain rfl := Option.mem_some.mp (show point ∈ some (CodePoint.char '%') from hpoint)
      decide
    · rw [startLine, List.getLast?_append_of_ne_nil _ hne] at hpoint
      exact hspace point (List.mem_of_getLast? hpoint)
  have hfields : fieldsOf (strip (startLine rule)) = [startDirective, rule] := by
    rw [hstrip, fieldsOf, hsplit, List.splitOnP_append_cons_of_forall_mem (by decide) _ (by decide),
      List.splitOnP_eq_singleton hspace]
    have hrule : rule.isEmpty = false := by rwa [List.isEmpty_eq_false_iff]
    simp only [List.filter_cons, hrule, List.filter_nil]
    rfl
  have hdeclare : declareStart [] (startLine rule) = .ok [rule] := by
    simp only [declareStart, hfields, List.head?_cons, if_true, List.nil_append]
  rw [declaredStarts, splitLines, List.append_assoc,
    show PyStr.ofString "\n" ++ source = .char '\n' :: source from rfl,
    splitLinesFrom_line hbreak, List.nil_append, List.foldlM_cons, hdeclare]
  exact foldlM_declareStart _ [rule]

/-- **The text declares its start rule once**, by its own line or by the one in front, and the
size of the line is counted. -/
theorem withStartRule_declares {source source' : PyStr} {startRule : Option PyStr} {grown : ℕ}
    (h : withStartRule texts source startRule = .ok (source', grown)) :
    ∃ rule, startRule = some rule ∧ isRule rule = true ∧ declaredStarts source' = .ok [rule] ∧
      ∀ text, source = PyStr.ofString text →
        ∃ text', source' = PyStr.ofString text' ∧
          text'.utf8ByteSize = text.utf8ByteSize + grown := by
  cases startRule with
  | none => cases h
  | some rule =>
    rw [withStartRule] at h
    split_ifs at h with hrule
    have hisRule : isRule rule = true := by simpa using hrule
    refine ⟨rule, rfl, hisRule, ?_⟩
    cases hdeclared : declaredStarts source with
    | error error =>
      rw [hdeclared] at h
      cases h
    | ok declared =>
      rw [hdeclared] at h
      rcases declared with _ | ⟨found, _ | ⟨second, rest⟩⟩
      · obtain ⟨rfl, rfl⟩ := Prod.mk.inj (Except.ok.inj h)
        refine ⟨?_, ?_⟩
        · refine (declaredStarts_line hisRule source).trans ?_
          rw [hdeclared]
          rfl
        · rintro text rfl
          obtain ⟨name, rfl, hsize⟩ := exists_text_of_inIdentifier (isRule_mem hisRule).2
          refine ⟨"%start " ++ name ++ "\n" ++ text, ?_, ?_⟩
          · rw [PyStr.ofString_append, PyStr.ofString_append, PyStr.ofString_append]
          · have hdirective : (PyStr.ofString "%start ").length = "%start ".utf8ByteSize := by
              decide
            have hnewline : (PyStr.ofString "\n").length = "\n".utf8ByteSize := by decide
            rw [String.utf8ByteSize_append, String.utf8ByteSize_append, String.utf8ByteSize_append,
              List.length_append, List.length_append, hdirective, hnewline, ← hsize, Nat.add_comm]
      · simp only at h
        split_ifs at h with hsame
        obtain ⟨rfl, rfl⟩ := Prod.mk.inj (Except.ok.inj h)
        obtain rfl := not_not.mp hsame
        exact ⟨hdeclared, fun text htext => ⟨text, htext, rfl⟩⟩
      · cases h

/-- **A second start rule is not put in front.** -/
theorem withStartRule_idempotent {source source' : PyStr} {startRule : Option PyStr} {grown : ℕ}
    (h : withStartRule texts source startRule = .ok (source', grown)) :
    withStartRule texts source' startRule = .ok (source', 0) := by
  obtain ⟨rule, rfl, hrule, hdeclared, -⟩ := withStartRule_declares h
  rw [withStartRule, hrule, hdeclared]
  simp only [Bool.not_true, Bool.false_eq_true, if_false, ne_eq, not_true_eq_false]

end GreatGramma
