import StepLang.Calendar
import StepLang.CommandLine
import StepLang.CommandLine.Console
import StepLang.CommandLine.Output
import StepLang.CommandLine.Request
import StepLang.Config
import StepLang.Csv.Reader
import StepLang.Csv.Writer
import StepLang.DataStep.Execution
import StepLang.DataStep.Input
import StepLang.DataStep.Plan
import StepLang.Dataset
import StepLang.Dataset.Frequency
import StepLang.Dataset.Order
import StepLang.Dataset.Row
import StepLang.Dataset.Summary
import StepLang.Error
import StepLang.Evaluation
import StepLang.Evaluation.Operator
import StepLang.FileTree
import StepLang.Function
import StepLang.Function.Character
import StepLang.Function.Numeric
import StepLang.Function.Statistic
import StepLang.Json.Document
import StepLang.Json.Numeral
import StepLang.Json.Reader
import StepLang.Json.Writer
import StepLang.Listing
import StepLang.Log
import StepLang.Main
import StepLang.NameMap
import StepLang.Number.Decimal
import StepLang.Number.Parts
import StepLang.Number.Reading
import StepLang.Parser
import StepLang.Parser.Cursor
import StepLang.Parser.Expression
import StepLang.Parser.Names
import StepLang.Parser.Procedure
import StepLang.Parser.Setting
import StepLang.Parser.StepStatement
import StepLang.Pdv
import StepLang.Proofs.Arithmetic
import StepLang.Proofs.Calendar
import StepLang.Proofs.CheckedCalls
import StepLang.Proofs.Comparison
import StepLang.Proofs.Csv
import StepLang.Proofs.DataStep.Accounting
import StepLang.Proofs.DataStep.ArrayElements
import StepLang.Proofs.DataStep.Contexts
import StepLang.Proofs.DataStep.Copying
import StepLang.Proofs.DataStep.CountedLoops
import StepLang.Proofs.DataStep.DataLines
import StepLang.Proofs.DataStep.Declaration
import StepLang.Proofs.DataStep.DeclaredLengths
import StepLang.Proofs.DataStep.Faults
import StepLang.Proofs.DataStep.FixedTable
import StepLang.Proofs.DataStep.Fragment
import StepLang.Proofs.DataStep.History
import StepLang.Proofs.DataStep.InStream
import StepLang.Proofs.DataStep.InputRows
import StepLang.Proofs.DataStep.Isolation
import StepLang.Proofs.DataStep.JoinedRows
import StepLang.Proofs.DataStep.Kinds
import StepLang.Proofs.DataStep.LoadOrder
import StepLang.Proofs.DataStep.LoopLimit
import StepLang.Proofs.DataStep.Marks
import StepLang.Proofs.DataStep.MatchMerge
import StepLang.Proofs.DataStep.MergeLoop
import StepLang.Proofs.DataStep.NestedElse
import StepLang.Proofs.DataStep.Passes
import StepLang.Proofs.DataStep.Reach
import StepLang.Proofs.DataStep.Rectangular
import StepLang.Proofs.DataStep.Simulation
import StepLang.Proofs.Dataset
import StepLang.Proofs.DatasetGrowth
import StepLang.Proofs.DateFunctions
import StepLang.Proofs.DuplicateKeys
import StepLang.Proofs.Excerpts
import StepLang.Proofs.FileTree
import StepLang.Proofs.Frequencies
import StepLang.Proofs.Json.RoundTrip
import StepLang.Proofs.Json.Texts
import StepLang.Proofs.NumberCounts
import StepLang.Proofs.NumberOrder
import StepLang.Proofs.NumberPacking
import StepLang.Proofs.NumberRounding
import StepLang.Proofs.NumberedNames
import StepLang.Proofs.Parser.Completeness
import StepLang.Proofs.Parser.Composed
import StepLang.Proofs.Parser.Diagnostics
import StepLang.Proofs.Parser.Endings
import StepLang.Proofs.Parser.Expressions
import StepLang.Proofs.Parser.Finishing
import StepLang.Proofs.Parser.Frame
import StepLang.Proofs.Parser.InStream
import StepLang.Proofs.Parser.NumberedRanges
import StepLang.Proofs.Parser.Parted
import StepLang.Proofs.Parser.PartedExpressions
import StepLang.Proofs.Parser.PartedProcedures
import StepLang.Proofs.Parser.PartedPrograms
import StepLang.Proofs.Parser.PartedStatements
import StepLang.Proofs.Parser.Passes
import StepLang.Proofs.Parser.Printing
import StepLang.Proofs.Parser.Programs
import StepLang.Proofs.Parser.Progress
import StepLang.Proofs.Parser.Recovery
import StepLang.Proofs.Parser.StatementEndings
import StepLang.Proofs.Parser.StatementProgress
import StepLang.Proofs.Parser.Statements
import StepLang.Proofs.Parser.StepEnds
import StepLang.Proofs.Parser.StepScope
import StepLang.Proofs.Parser.WellFormed
import StepLang.Proofs.PdvUpdates
import StepLang.Proofs.RowOrder
import StepLang.Proofs.ScannedNumbers
import StepLang.Proofs.Session.Changes
import StepLang.Proofs.Session.Copying
import StepLang.Proofs.Session.Environment
import StepLang.Proofs.Session.ErrorStages
import StepLang.Proofs.Session.Failure
import StepLang.Proofs.Session.InStream
import StepLang.Proofs.Session.MacroNumbers
import StepLang.Proofs.Session.NestedElse
import StepLang.Proofs.Session.Sorting
import StepLang.Proofs.Session.Storing
import StepLang.Proofs.Session.Work
import StepLang.Proofs.Sorting
import StepLang.Proofs.StableSort
import StepLang.Proofs.Storage.Csv
import StepLang.Proofs.Storage.Json
import StepLang.Proofs.Summary
import StepLang.Proofs.Table
import StepLang.Proofs.TableUpdates
import StepLang.Proofs.Text.Letters
import StepLang.Proofs.Text.Search
import StepLang.Proofs.Text.Utf8
import StepLang.Proofs.Token.Gaps
import StepLang.Proofs.Token.InStream
import StepLang.Proofs.Token.NumberText
import StepLang.Proofs.Token.Numerals
import StepLang.Proofs.Token.PartedWords
import StepLang.Proofs.Token.Places
import StepLang.Proofs.Token.Tails
import StepLang.Proofs.Token.TextLiterals
import StepLang.Proofs.Token.Tiling
import StepLang.Proofs.WholeCounts
import StepLang.Proofs.WholeNumbers
import StepLang.Proofs.WholeParts
import StepLang.Session
import StepLang.Session.Execution
import StepLang.Session.Procedure
import StepLang.Sorting
import StepLang.Sorting.Merge
import StepLang.Sorting.Pivot
import StepLang.Sorting.Run
import StepLang.Sorting.Small
import StepLang.Storage
import StepLang.Storage.Csv
import StepLang.Storage.Json
import StepLang.Syntax.Expression
import StepLang.Syntax.Statement
import StepLang.Text.Blank
import StepLang.Text.CaseMap
import StepLang.Text.CaseTable
import StepLang.Text.Letters
import StepLang.Text.Lines
import StepLang.Text.Utf8
import StepLang.Token
import StepLang.Token.Scanner
import StepLang.Value
import StepLang.Variables
