import ArithAsm.Main
import ArithAsm.Proofs.Result
import ArithAsm.Proofs.Decimal
import ArithAsm.Proofs.Runes
import ArithAsm.Proofs.Position
import ArithAsm.Proofs.Lines
import ArithAsm.Proofs.Evaluation
import ArithAsm.Proofs.Lexing
import ArithAsm.Proofs.LexerCalls
import ArithAsm.Proofs.Pushback
import ArithAsm.Proofs.Spelling
import ArithAsm.Proofs.Grammar
import ArithAsm.Proofs.Parsing
import ArithAsm.Proofs.Descent
import ArithAsm.Proofs.Trailing
import ArithAsm.Proofs.Printing
import ArithAsm.Proofs.Execution
import ArithAsm.Proofs.Lowering.Stack
import ArithAsm.Proofs.Lowering.X86
import ArithAsm.Proofs.Lowering.AArch64
import ArithAsm.Proofs.Decoding
import ArithAsm.Proofs.Listing
import ArithAsm.Proofs.Distinct
import ArithAsm.Proofs.Compilation
import ArithAsm.Proofs.Diagnostics
import ArithAsm.Proofs.CommandLine
import ArithAsm.Proofs.Verdict
import ArithAsm.Proofs.Configuration
import ArithAsm.Proofs.Scheduling
import ArithAsm.Proofs.Delivery
import ArithAsm.Proofs.Reporting
import ArithAsm.Proofs.Viability
import ArithAsm.Proofs.Traversal
import ArithAsm.Proofs.Layout
import ArithAsm.Proofs.Unlocated
import ArithAsm.Proofs.LexicalErrors
import ArithAsm.Proofs.CheckedNumbers
import ArithAsm.Proofs.ParserCalls
import ArithAsm.Proofs.StackDiscipline
import ArithAsm.Proofs.StackDepth
import ArithAsm.Proofs.CleanFailure
import ArithAsm.Proofs.SignChains
import ArithAsm.Proofs.SExpressions
import ArithAsm.Proofs.Validation
import ArithAsm.Proofs.Selection
import ArithAsm.Proofs.Terminator
import ArithAsm.Proofs.Lowering.Context
import ArithAsm.Proofs.Encoding
import ArithAsm.Proofs.Escapes
import ArithAsm.Proofs.Footprint
