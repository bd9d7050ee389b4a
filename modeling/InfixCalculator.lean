import InfixCalculator.Arithmetic
import InfixCalculator.Batch.Evaluate
import InfixCalculator.Batch.Load
import InfixCalculator.Batch.Print
import InfixCalculator.Batch.ResultFile
import InfixCalculator.Batch.ResultFormat
import InfixCalculator.Calculation
import InfixCalculator.CommandLine.Arguments
import InfixCalculator.CommandLine.RecordLayout
import InfixCalculator.CommandLine.Run
import InfixCalculator.Conversion
import InfixCalculator.Csv.Read
import InfixCalculator.Csv.Write
import InfixCalculator.Evaluation
import InfixCalculator.Failure
import InfixCalculator.Failure.Described
import InfixCalculator.Folder
import InfixCalculator.Format.Brace
import InfixCalculator.Format.Concern
import InfixCalculator.Format.FieldSpec
import InfixCalculator.Format.Percent
import InfixCalculator.Journal
import InfixCalculator.Json.Basic
import InfixCalculator.Json.Print
import InfixCalculator.Json.Read
import InfixCalculator.Main
import InfixCalculator.Number.Binary64
import InfixCalculator.Number.Digits
import InfixCalculator.Number.Format
import InfixCalculator.Number.Numeral
import InfixCalculator.Number.Rounding
import InfixCalculator.Number.Shortest
import InfixCalculator.Number.Written
import InfixCalculator.Operator
import InfixCalculator.Settings
import InfixCalculator.Template
import InfixCalculator.Text.Blank
import InfixCalculator.Text.DecimalDigit
import InfixCalculator.Text.Hexadecimal
import InfixCalculator.Text.Lines
import InfixCalculator.Text.LowerCase
import InfixCalculator.Text.Printable
import InfixCalculator.Text.Quoted
import InfixCalculator.Text.Utf8
import InfixCalculator.Text.WordCharacter
import InfixCalculator.Token.Basic
import InfixCalculator.Token.Classify
import InfixCalculator.Token.Scan
import InfixCalculator.Proofs.Steps
import InfixCalculator.Proofs.Scanning
import InfixCalculator.Proofs.Grammar
import InfixCalculator.Proofs.Literals
import InfixCalculator.Proofs.Relocation
import InfixCalculator.Proofs.Formulas
import InfixCalculator.Proofs.Context
import InfixCalculator.Proofs.Accounts
import InfixCalculator.Proofs.Depth
import InfixCalculator.Proofs.Endings
import InfixCalculator.Proofs.Nesting
import InfixCalculator.Proofs.Release
import InfixCalculator.Proofs.Order
import InfixCalculator.Proofs.Respelling
import InfixCalculator.Proofs.Output
import InfixCalculator.Proofs.Substitution
import InfixCalculator.Proofs.Strictness
import InfixCalculator.Proofs.Columns
import InfixCalculator.Proofs.Forest
import InfixCalculator.Proofs.Derivation
import InfixCalculator.Proofs.Rows
import InfixCalculator.Proofs.Templates
import InfixCalculator.Proofs.ExitCodes
import InfixCalculator.Proofs.Refusals
import InfixCalculator.Proofs.Groups
import InfixCalculator.Proofs.Infix
import InfixCalculator.Proofs.Rewriting
import InfixCalculator.Proofs.Blanks
import InfixCalculator.Proofs.Partition
import InfixCalculator.Proofs.Doubles
import InfixCalculator.Proofs.Nearest
import InfixCalculator.Proofs.Classification
import InfixCalculator.Proofs.Sources
import InfixCalculator.Proofs.Exactness
import InfixCalculator.Proofs.WholeNumbers
import InfixCalculator.Proofs.Encoding
import InfixCalculator.Proofs.TextFiles
import InfixCalculator.Proofs.Records
import InfixCalculator.Proofs.NumberTexts
import InfixCalculator.Proofs.SavedResults
import InfixCalculator.Proofs.WrittenNumbers
import InfixCalculator.Proofs.Escapes
import InfixCalculator.Proofs.Dumps
import InfixCalculator.Proofs.Waiting
import InfixCalculator.Proofs.TemplateParts
import InfixCalculator.Proofs.Validation
