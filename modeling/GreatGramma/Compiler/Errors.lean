import GreatGramma.Core.TokenStep
import GreatGramma.Core.Validate

/-!
# Compile errors

`error.rs` of the compiler: what a function of the compiler can fail with, with the data that the
error carries.  An error of validation or of preparation is wrapped as it is.

## Reasons

The reasons of `IncompatibleJson` are a type of their own here, where the source has texts: which
reason it is matters to what is proved of extraction, and how it is put does not.  A reason carries
what its text would show, such as the ID or the field that is wrong.

## Panics

The source also panics, where it indexes outside of a vector or unwraps what may be missing.  A
panic is a way to fail that is not an error, and a function of the compiler fails with one of the
two (`CompileFailure`).  So a theorem that says which errors a function returns says also that it
does not panic, and a place of the source that could panic is modelled by a failure rather than by
a default that the source does not have.
-/

namespace GreatGramma

/-- What is wrong with a tokenizer file. -/
inductive IncompatibleReason where
  | notAnObject (label : String)
  | notAString (label field : String)
  | missingModel
  | modelType (other : String)
  | vocabularySize (size maximum : ℕ)
  | eosOutside
  | missingId (id : ℕ)
  | nonEosSpecial (id : ℕ)
  | eosCount (count maximum : ℕ)
  | eosExceedsLimit
  | duplicateEos
  | missingDecoder
  | notByteLevel
  | unknownDecoderField (field : String)
  | noVocabulary
  | invalidId (piece : String)
  | unigramNotAnArray
  | unigramItemNotAnArray (id : ℕ)
  | unigramItemNoPiece (id : ℕ)
  | duplicateId (id : ℕ)
  | addedNotAnArray
  | addedInvalidId
  | addedTooLarge (id : ℕ)
  | addedNoSpecial (id : ℕ)
  | addedConflict (id : ℕ)
  | vocabularyExceeds (actual maximum : ℕ)
  deriving DecidableEq

/-- Exact tokenizer-manifest failures, distinct from grammar compilation. -/
inductive TokenizerError where
  | emptyManifest
  | emptyOrdinaryToken (token : ℕ)
  | missingOrdinaryToken
  | missingEos
  | jsonTooLarge (bytes maximum : ℕ)
  | decodedOutputTooLarge (bytes maximum : ℕ)
  | workLimit (required maximum : ℕ)
  | invalidJson (message : String)
  | incompatibleJson (reason : IncompatibleReason)
  | missingSingletonByte (byte : UInt8)
  deriving DecidableEq

/-- Fail-closed compiler diagnostics. -/
inductive CompileError where
  | tokenizer (error : TokenizerError)
  | grammarSyntax (messages : List String)
  | unsupportedGrammar (feature : String)
  | grammarTable (message : String)
  | grammarConflict (shiftReduce reduceReduce : ℕ)
  | sourceTooLarge (bytes maximum : ℕ)
  | tooManyTerminalSpecs (count maximum : ℕ)
  | tooManyIgnoredTerminals (count maximum : ℕ)
  | regexSourceTooLarge (bytes maximum : ℕ)
  | regexOutputLimit (required maximum : ℕ)
  | missingTerminal (name : String)
  | unknownTerminal (name : String)
  | duplicateTerminal (name : String)
  | unknownIgnoredTerminal (name : String)
  | duplicateIgnoredTerminal (name : String)
  | ignoredTerminalUsed (name : String)
  | unsupportedRegex (name feature : String)
  | invalidRegex (name message : String)
  | nullableTerminal (name : String)
  | unmatchableTerminal (name : String)
  | ambiguousPriority (first second : String) (priority : UInt32)
  | tooManyDfaStates (required maximum : ℕ)
  | unsupportedLexerBoundary (state : ℕ) (byte : UInt8)
  | tooManyParserCells (required maximum : ℕ)
  | tooManyParserStates (required maximum : ℕ)
  | grammarTooLarge (terminals nonterminals productions : ℕ)
  | compilerWorkLimit (required maximum : ℕ)
  | allocationFailure (requested : ℕ)
  | noReductionProgressWitness
  | validation (error : ValidationError)
  | preparation (error : PreparationError)
  deriving DecidableEq

/-- How a compiler function fails: with an error, or by a panic. -/
inductive CompileFailure where
  | error (error : CompileError)
  | panic
  deriving DecidableEq

end GreatGramma
