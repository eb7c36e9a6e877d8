import GreatGramma.Compiler.Ranks

/-!
# Extraction of a tokenizer file

`tokenizer_json.rs`.  The strict profile of a tokenizer file has a model with a vocabulary, a
ByteLevel decoder, and added tokens.  Extraction puts the vocabulary into a dense list by IDs,
merges the added tokens into it, and turns every entry into the end of sequence or into bytes.

## The file

Parsing the JSON text is `serde_json`'s and stands as a parameter; a value is what it parses to.  A
map lists its entries in the order in which `serde_json` iterates over them.  Fields are read with a
check of their kind.  What the profile does not admit is refused with a reason of its own: other
models, other decoders and unknown fields of the decoder, added tokens that are special and no EOS,
and vocabularies with gaps.

## Budgets

Four limits are carried along in a budget, with the work and the decoded bytes so far.  The counts
saturate, the work at the largest `u64` and the bytes at the largest `usize`.  Work is charged in
front of what it is charged for, as in the source, so that a refusal comes before any output.

## Bytes

The inverse of the ByteLevel alphabet is a table over code points, made of the bytes in their order.
A piece is gone through twice: the first loop counts what it decodes to, and the second writes it.
Every byte has to be the piece of some token by itself.  Reservations succeed.
-/

namespace GreatGramma

/-! ## JSON values -/

namespace Json

/-- `serde_json::Number`. -/
inductive Number where
  | posInt (value : UInt64)
  | negInt (value : Int64)
  | float (bits : UInt64)

/-- `serde_json::Value`. -/
inductive Value where
  | null
  | bool (value : Bool)
  | number (value : Number)
  | string (value : String)
  | array (values : List Value)
  | object (map : List (String × Value))

namespace Value

def asObject : Value → Option (List (String × Value))
  | object map => some map
  | _ => none

def asArray : Value → Option (List Value)
  | array values => some values
  | _ => none

def asStr : Value → Option String
  | string value => some value
  | _ => none

def asBool : Value → Option Bool
  | bool value => some value
  | _ => none

def asU64 : Value → Option ℕ
  | number (.posInt value) => some value.toNat
  | _ => none

end Value

end Json

/-! ## Budgets -/

/-- Finite parsing and extraction budgets for the strict tokenizer.json profile. -/
structure TokenizerJsonLimits where
  maxJsonBytes : ℕ
  maxVocabSize : ℕ
  maxDecodedTokenBytes : ℕ
  maxWork : ℕ

/-- `TokenizerJsonLimits::default`. -/
def TokenizerJsonLimits.default : TokenizerJsonLimits where
  maxJsonBytes := 64 * 1024 * 1024
  maxVocabSize := 1000000
  maxDecodedTokenBytes := 64 * 1024 * 1024
  maxWork := 256 * 1024 * 1024

def tokenizerError (error : TokenizerError) : CompileFailure := .error (.tokenizer error)

def incompatible (reason : IncompatibleReason) : CompileFailure :=
  tokenizerError (.incompatibleJson reason)

structure ExtractionBudget where
  limits : TokenizerJsonLimits
  work : ℕ
  decodedBytes : ℕ

/-- `ExtractionBudget::new`. -/
def ExtractionBudget.new (limits : TokenizerJsonLimits) : ExtractionBudget := ⟨limits, 0, 0⟩

/-- `ExtractionBudget::charge_work`: it saturates at the largest `u64`. -/
def ExtractionBudget.chargeWork (budget : ExtractionBudget) (amount : ℕ) :
    Except CompileFailure ExtractionBudget :=
  let work := min (budget.work + amount) (2 ^ 64 - 1)
  if work > budget.limits.maxWork then
    .error (tokenizerError (.workLimit work budget.limits.maxWork))
  else .ok { budget with work }

/-- `ExtractionBudget::charge_decoded_bytes`: it saturates at the largest `usize`. -/
def ExtractionBudget.chargeDecodedBytes (budget : ExtractionBudget) (bytes : ℕ) :
    Except CompileFailure ExtractionBudget :=
  let decodedBytes := min (budget.decodedBytes + bytes) usizeMax
  if decodedBytes > budget.limits.maxDecodedTokenBytes then
    .error (tokenizerError
      (.decodedOutputTooLarge decodedBytes budget.limits.maxDecodedTokenBytes))
  else .ok { budget with decodedBytes }

/-- `check_vocab_size`. -/
def checkVocabSize (actual maximum : ℕ) : Except CompileFailure Unit :=
  if actual > maximum then .error (incompatible (.vocabularyExceeds actual maximum)) else .ok ()

/-! ## Fields -/

/-- `object`. -/
def object (value : Json.Value) (label : String) :
    Except CompileFailure (List (String × Json.Value)) :=
  match value.asObject with
  | none => .error (incompatible (.notAnObject label))
  | some map => .ok map

/-- `string_field`. -/
def stringField (object : List (String × Json.Value)) (field label : String) :
    Except CompileFailure String :=
  match (object.lookup field).bind Json.Value.asStr with
  | none => .error (incompatible (.notAString label field))
  | some value => .ok value

/-- The fields that a ByteLevel decoder may have. -/
def allowedDecoderFields : List String := ["type", "add_prefix_space", "trim_offsets", "use_regex"]

/-- `validate_decoder`. -/
def validateDecoder (value : Option Json.Value) (budget : ExtractionBudget) :
    Except CompileFailure ExtractionBudget :=
  match value with
  | none => .error (incompatible .missingDecoder)
  | some value => do
    let decoder ← object value "decoder"
    let budget ← budget.chargeWork decoder.length
    let type ← stringField decoder "type" "decoder"
    if type ≠ "ByteLevel" then throw (incompatible .notByteLevel)
    else
      match decoder.find? fun (field, _) => !allowedDecoderFields.contains field with
      | some (field, _) => throw (incompatible (.unknownDecoderField field))
      | none => return budget

/-! ## The vocabulary -/

/-- A vocabulary entry. -/
structure Entry where
  piece : String
  special : Bool
  deriving DecidableEq

/-- One pair of the loop of `build_dense` that places the pieces.  The size saturates, so
the largest ID would be out of range; a vector of that size is never granted. -/
def placePiece (output : List (Option Entry)) (pair : ℕ × String) :
    Except CompileFailure (List (Option Entry)) := do
  let (id, piece) := pair
  match ← indexAt output id with
  | some _ => throw (incompatible (.duplicateId id))
  | none => return output.set id (some ⟨piece, false⟩)

/-- `build_dense`. -/
def buildDense (pairs : List (ℕ × String)) (budget : ExtractionBudget) :
    Except CompileFailure (ExtractionBudget × List (Option Entry)) := do
  let budget ← budget.chargeWork pairs.length
  let size := (pairs.map fun (id, _) => min (id + 1) usizeMax).max?.getD 0
  checkVocabSize size budget.limits.maxVocabSize
  let output ← pairs.foldlM placePiece (List.replicate size none)
  return (budget, output)

/-- One entry of the loop of `object_vocabulary`. -/
def vocabularyPair (state : ExtractionBudget × List (ℕ × String)) (entry : String × Json.Value) :
    Except CompileFailure (ExtractionBudget × List (ℕ × String)) := do
  let (budget, pairs) := state
  let (piece, id) := entry
  let budget ← budget.chargeWork (min (piece.utf8ByteSize + 1) (2 ^ 64 - 1))
  match id.asU64 with
  | none => throw (incompatible (.invalidId piece))
  | some id => return (budget, pairs ++ [(id, piece)])

/-- `object_vocabulary`. -/
def objectVocabulary (model : List (String × Json.Value)) (budget : ExtractionBudget) :
    Except CompileFailure (ExtractionBudget × List (Option Entry)) :=
  match model.lookup "vocab" with
  | none => .error (incompatible .noVocabulary)
  | some vocab => do
    let vocab ← object vocab "model.vocab"
    checkVocabSize vocab.length budget.limits.maxVocabSize
    let (budget, pairs) ← vocab.foldlM vocabularyPair (budget, [])
    buildDense pairs budget

/-- One item of the loop of `unigram_vocabulary`. -/
def unigramItem (state : ExtractionBudget × List (Option Entry)) (item : Json.Value × ℕ) :
    Except CompileFailure (ExtractionBudget × List (Option Entry)) := do
  let (budget, output) := state
  let (item, id) := item
  let budget ← budget.chargeWork 1
  match item.asArray with
  | none => throw (incompatible (.unigramItemNotAnArray id))
  | some pair =>
    match pair.head?.bind Json.Value.asStr with
    | none => throw (incompatible (.unigramItemNoPiece id))
    | some piece =>
      let budget ← budget.chargeWork piece.utf8ByteSize
      return (budget, output ++ [some ⟨piece, false⟩])

/-- `unigram_vocabulary`. -/
def unigramVocabulary (model : List (String × Json.Value)) (budget : ExtractionBudget) :
    Except CompileFailure (ExtractionBudget × List (Option Entry)) :=
  match (model.lookup "vocab").bind Json.Value.asArray with
  | none => .error (incompatible .unigramNotAnArray)
  | some vocab => do
    checkVocabSize vocab.length budget.limits.maxVocabSize
    vocab.zipIdx.foldlM unigramItem (budget, [])

/-- The vocabulary of the model, by its type. -/
def modelVocabulary (modelType : String) (model : List (String × Json.Value))
    (budget : ExtractionBudget) :
    Except CompileFailure (ExtractionBudget × List (Option Entry)) :=
  if modelType = "BPE" ∨ modelType = "WordPiece" ∨ modelType = "WordLevel" then
    objectVocabulary model budget
  else if modelType = "Unigram" then unigramVocabulary model budget
  else .error (incompatible (.modelType modelType))

/-! ## The end of sequence -/

structure EosSet where
  membership : List Bool
  ids : List TokenId

/-- One ID of the loop of `EosSet::new` that marks the members. -/
def markEos (membership : List Bool) (id : TokenId) : Except CompileFailure (List Bool) := do
  if ← indexAt membership id then throw (incompatible .duplicateEos)
  else return membership.set id true

/-- One slot of the loop of `EosSet::new` that lists the members. -/
def listEos (sorted : List TokenId) (slot : Bool × ℕ) : Except CompileFailure (List TokenId) :=
  let (present, id) := slot
  if present then
    match u32TryFrom id with
    | none => .error (incompatible .eosExceedsLimit)
    | some id => .ok (sorted ++ [id])
  else .ok sorted

/-- `EosSet::new`. -/
def EosSet.new (ids : List TokenId) (budget : ExtractionBudget) :
    Except CompileFailure (ExtractionBudget × EosSet) :=
  if ids.length > budget.limits.maxVocabSize then
    .error (incompatible (.eosCount ids.length budget.limits.maxVocabSize))
  else do
    let budget ← budget.chargeWork ids.length
    let maximumId := ids.max?.getD usizeMax
    if maximumId ≥ budget.limits.maxVocabSize then throw (incompatible .eosExceedsLimit)
    else
      let length := min (maximumId + 1) usizeMax
      let budget ← budget.chargeWork ids.length
      let membership ← ids.foldlM markEos (List.replicate length false)
      let budget ← budget.chargeWork length
      let sorted ← membership.zipIdx.foldlM listEos []
      return (budget, ⟨membership, sorted⟩)

/-- `EosSet::contains`. -/
def EosSet.contains (eos : EosSet) (id : ℕ) : Bool := (eos.membership[id]?).getD false

/-! ## Added tokens -/

/-- One token of the loop of `merge_added_tokens`. -/
def mergeAddedToken (eos : EosSet) (state : ExtractionBudget × List (Option Entry))
    (token : Json.Value) : Except CompileFailure (ExtractionBudget × List (Option Entry)) := do
  let (budget, entries) := state
  let token ← object token "added token"
  match (token.lookup "id").bind Json.Value.asU64 with
  | none => throw (incompatible .addedInvalidId)
  | some id =>
    if id ≥ budget.limits.maxVocabSize then throw (incompatible (.addedTooLarge id))
    else
      let piece ← stringField token "content" "added token"
      let budget ← budget.chargeWork piece.utf8ByteSize
      match (token.lookup "special").bind Json.Value.asBool with
      | none => throw (incompatible (.addedNoSpecial id))
      | some special =>
        if special ∧ !eos.contains id then throw (incompatible (.nonEosSpecial id))
        else
          let entries :=
            if entries.length ≤ id then
              entries ++ List.replicate (min (id + 1) usizeMax - entries.length) none
            else entries
          match ← indexAt entries id with
          | some existing =>
            if existing.piece ≠ piece then throw (incompatible (.addedConflict id))
            else
              return (budget,
                entries.set id (some { existing with special := existing.special || special }))
          | none => return (budget, entries.set id (some ⟨piece, special⟩))

/-- `merge_added_tokens`. -/
def mergeAddedTokens (value : Option Json.Value) (entries : List (Option Entry)) (eos : EosSet)
    (budget : ExtractionBudget) :
    Except CompileFailure (ExtractionBudget × List (Option Entry)) :=
  match value with
  | none => .ok (budget, entries)
  | some value =>
    match value.asArray with
    | none => .error (incompatible .addedNotAnArray)
    | some added => do
      let budget ← budget.chargeWork added.length
      added.foldlM (mergeAddedToken eos) (budget, entries)

/-! ## Bytes -/

/-- `is_direct_byte`. -/
def isDirectByte (byte : ℕ) : Bool :=
  (byte ≥ 0x21 && byte ≤ 0x7e) || (byte ≥ 0xa1 && byte ≤ 0xac) || byte ≥ 0xae

/-- One byte of the loop of `build_byte_level_inverse`. -/
def inverseEntry (state : List ℕ × ℕ) (byte : ℕ) : List ℕ × ℕ :=
  let (output, replacement) := state
  if isDirectByte byte then (output.set byte byte, replacement)
  else (output.set (256 + replacement) byte, replacement + 1)

/-- `build_byte_level_inverse`: the byte of every code point of the alphabet, and
`UNMAPPED_BYTE` elsewhere. -/
def byteLevelInverse : List ℕ :=
  ((List.range 256).foldl inverseEntry (List.replicate 324 256, 0)).1

/-- `inverse_byte_level`. -/
def inverseByteLevel (character : Char) : Option UInt8 :=
  match byteLevelInverse[character.toNat]? with
  | none => none
  | some byte => if byte < 256 then some (UInt8.ofNat byte) else none

/-- One character of the first loop of `decode_byte_level`. -/
def countCharacter (state : ExtractionBudget × ℕ × Bool) (character : Char) :
    Except CompileFailure (ExtractionBudget × ℕ × Bool) := do
  let (budget, decodedLength, allMapped) := state
  let budget ← budget.chargeWork 1
  return (budget, min (decodedLength + 1) usizeMax,
    allMapped && (inverseByteLevel character).isSome)

/-- One character of the second loop of `decode_byte_level`. -/
def pushCharacter (state : ExtractionBudget × List UInt8) (character : Char) :
    Except CompileFailure (ExtractionBudget × List UInt8) := do
  let (budget, output) := state
  let budget ← budget.chargeWork 1
  return (budget, output ++ (inverseByteLevel character).toList)

/-- `decode_byte_level`. -/
def decodeByteLevel (piece : String) (budget : ExtractionBudget) :
    Except CompileFailure (ExtractionBudget × List UInt8) := do
  let (budget, decodedLength, allMapped) ← piece.toList.foldlM countCharacter (budget, 0, true)
  let outputLength := if allMapped then decodedLength else piece.utf8ByteSize
  let budget ← budget.chargeDecodedBytes outputLength
  if allMapped then piece.toList.foldlM pushCharacter (budget, [])
  else
    let budget ← budget.chargeWork piece.utf8ByteSize
    return (budget, piece.toUTF8.data.toList)

/-! ## Extraction -/

/-- One exact normalized model-token entry. -/
inductive TokenSpec where
  | bytes (bytes : List UInt8)
  | eos
  deriving DecidableEq

/-- Exact token-local bytes supplied by a tokenizer compatibility layer. -/
structure TokenizerManifest where
  tokens : List TokenSpec

/-- Auditable description of an accepted tokenizer.json byte profile. -/
structure CompatibilityReport where
  modelType : String
  decoderType : String
  vocabSize : ℕ
  eosTokenIds : List TokenId

/-- The tokens so far, and the bytes that have a token of their own. -/
structure Tokens where
  budget : ExtractionBudget
  tokens : List TokenSpec
  singleton : List Bool

/-- One entry of the loop of `extract`. -/
def extractEntry (eos : EosSet) (state : Tokens) (entry : Option Entry × ℕ) :
    Except CompileFailure Tokens := do
  let (entry, id) := entry
  let budget ← state.budget.chargeWork 1
  match entry with
  | none => throw (incompatible (.missingId id))
  | some entry =>
    if entry.special ∧ !eos.contains id then throw (incompatible (.nonEosSpecial id))
    else if eos.contains id then return { state with budget, tokens := state.tokens ++ [.eos] }
    else
      let (budget, bytes) ← decodeByteLevel entry.piece budget
      match bytes with
      | [] => throw (tokenizerError (.emptyOrdinaryToken id))
      | [byte] =>
        return ⟨budget, state.tokens ++ [.bytes [byte]], state.singleton.set byte.toNat true⟩
      | bytes => return { state with budget, tokens := state.tokens ++ [.bytes bytes] }

/-- One ID of the loop of `extract` over the EOS list. -/
def checkEosId (entries : List (Option Entry)) (budget : ExtractionBudget) (id : TokenId) :
    Except CompileFailure ExtractionBudget := do
  let budget ← budget.chargeWork 1
  if id ≥ entries.length then throw (incompatible .eosOutside) else return budget

/-- `extract`, from the entries on. -/
def extractTokens (modelType : String) (entries : List (Option Entry)) (eos : EosSet)
    (budget : ExtractionBudget) : Except CompileFailure (TokenizerManifest × CompatibilityReport) :=
  if entries.isEmpty ∨ entries.length > budget.limits.maxVocabSize then
    .error (incompatible (.vocabularySize entries.length budget.limits.maxVocabSize))
  else do
    let budget ← eos.ids.foldlM (checkEosId entries) budget
    let extracted ←
      entries.zipIdx.foldlM (extractEntry eos) ⟨budget, [], List.replicate 256 false⟩
    let _ ← extracted.budget.chargeWork 256
    match extracted.singleton.zipIdx.find? fun (covered, _) => !covered with
    | some (_, byte) => throw (tokenizerError (.missingSingletonByte (UInt8.ofNat byte)))
    | none =>
      return (⟨extracted.tokens⟩, ⟨modelType, "ByteLevel", extracted.tokens.length, eos.ids⟩)

/-- `extract`, on a parsed file. -/
def extractRoot (root : Json.Value) (eosTokenIds : List TokenId) (budget : ExtractionBudget) :
    Except CompileFailure (TokenizerManifest × CompatibilityReport) := do
  let root ← object root "top-level value"
  let budget ← validateDecoder (root.lookup "decoder") budget
  match root.lookup "model" with
  | none => throw (incompatible .missingModel)
  | some model =>
    let model ← object model "model"
    let modelType ← stringField model "type" "model"
    let (budget, entries) ← modelVocabulary modelType model budget
    let (budget, eos) ← EosSet.new eosTokenIds budget
    let (budget, entries) ← mergeAddedTokens (root.lookup "added_tokens") entries eos budget
    extractTokens modelType entries eos budget

/-- `extract`; `fromStr` parses the text, or says why it cannot. -/
def extract (fromStr : String → Except String Json.Value) (json : String)
    (eosTokenIds : List TokenId) (limits : TokenizerJsonLimits) :
    Except CompileFailure (TokenizerManifest × CompatibilityReport) :=
  if json.utf8ByteSize > limits.maxJsonBytes then
    .error (tokenizerError (.jsonTooLarge json.utf8ByteSize limits.maxJsonBytes))
  else if eosTokenIds.isEmpty then .error (tokenizerError .missingEos)
  else do
    let budget ← (ExtractionBudget.new limits).chargeWork json.utf8ByteSize
    match fromStr json with
    | .error message => throw (tokenizerError (.invalidJson message))
    | .ok root => extractRoot root eosTokenIds budget

end GreatGramma
