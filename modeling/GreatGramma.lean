import GreatGramma.Library.Reservation
import GreatGramma.Library.Traversal
import GreatGramma.Library.FirstError
import GreatGramma.Library.PackedBits
import GreatGramma.Library.RowSlices
import GreatGramma.Library.ShiftReduce
import GreatGramma.Library.Transducer
import GreatGramma.Library.LookAhead
import GreatGramma.Library.TopologicalOrder
import GreatGramma.Library.MaximalMunch
import GreatGramma.Core.Normalized
import GreatGramma.Core.Validate
import GreatGramma.Core.Lexer
import GreatGramma.Core.Lalr
import GreatGramma.Core.LalrReference
import GreatGramma.Core.TokenStep
import GreatGramma.Core.Sequence
import GreatGramma.Core.Spanner
import GreatGramma.Core.Preprocess
import GreatGramma.Core.Engine
import GreatGramma.Native.Batch
import GreatGramma.Parser.Automaton
import GreatGramma.Parser.Heads
import GreatGramma.Parser.Termination
import GreatGramma.Lexer.Scanner
import GreatGramma.Validation.Closure
import GreatGramma.Validation.WellFormed
import GreatGramma.Validation.Validate
import GreatGramma.Preparation.Tokens
import GreatGramma.Preparation.Singletons
import GreatGramma.Preparation.Buckets
import GreatGramma.Preparation.Order
import GreatGramma.Preparation.Worklist
import GreatGramma.Preparation.Classification
import GreatGramma.Compiler.Ranks
import GreatGramma.Compiler.Dag
import GreatGramma.Compiler.Condense
import GreatGramma.Compiler.Cells
import GreatGramma.Engine.Heads
import GreatGramma.Compiler.Progress
import GreatGramma.Compiler.Boundary
import GreatGramma.Preparation.Queries
import GreatGramma.Engine.Rows
import GreatGramma.Engine.RowExecution
import GreatGramma.Engine.Answers
import GreatGramma.Engine.Staging
import GreatGramma.Engine.Commits
import GreatGramma.Engine.Refinement
import GreatGramma.Engine.Runs
import GreatGramma.Matcher.Replay
import GreatGramma.Matcher.Batches
import GreatGramma.Matcher.Fused
import GreatGramma.Matcher.Unobservable
import GreatGramma.Matcher.FailClosed
import GreatGramma.Matcher.Masks
import GreatGramma.Matcher.Readings
import GreatGramma.Matcher.Language
import GreatGramma.Matcher.Corruption
import GreatGramma.Native.Steps
import GreatGramma.Native.Atomic
import GreatGramma.Native.Padding
import GreatGramma.Native.Scores
import GreatGramma.Library.RunningMinimum
import GreatGramma.Compiler.Labels
import GreatGramma.Library.Metering
import GreatGramma.Library.FinishingOrder
import GreatGramma.Compiler.Budget
import GreatGramma.Compiler.Components
import GreatGramma.Library.StrictWalks
import GreatGramma.Compiler.Exact
import GreatGramma.Preparation.SymbolicWork
import GreatGramma.Preparation.Thresholds
import GreatGramma.Compiler.TokenizerJson
import GreatGramma.Compiler.Extraction
import GreatGramma.Compiler.ExtractionLimits
import GreatGramma.Library.Numbering
import GreatGramma.Compiler.LexerDfa
import GreatGramma.Compiler.Simulation
import GreatGramma.Compiler.RegexProfile
import GreatGramma.Library.Confinement
import GreatGramma.Validation.Resources
import GreatGramma.Compiler.Grammar
import GreatGramma.Compiler.Lower
import GreatGramma.Compiler.Regexes
import GreatGramma.Compiler.Normalize
import GreatGramma.Parser.Composition
import GreatGramma.Engine.Composition
import GreatGramma.Library.TableRuns
import GreatGramma.Library.ItemAutomaton
import GreatGramma.Compiler.Tables
import GreatGramma.Compiler.Pipeline
import GreatGramma.Compiler.Binding
import GreatGramma.Compiler.Lexemes
import GreatGramma.Compiler.Language
import GreatGramma.Native.Sessions
import GreatGramma.Native.Failures
import GreatGramma.Processor.Objects
import GreatGramma.Processor.Call
import GreatGramma.Processor.History
import GreatGramma.Processor.Trusted
import GreatGramma.Processor.Masking
import GreatGramma.Processor.Generate
import GreatGramma.Library.TryLock
import GreatGramma.Processor.Concurrency
import GreatGramma.Facade.Text
import GreatGramma.Facade.Boundary
import GreatGramma.Facade.Manifest
import GreatGramma.Facade.Tokenizers
import GreatGramma.Facade.Compile
