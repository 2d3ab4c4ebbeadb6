import EcmaFold.CommandLine.Directory
import EcmaFold.CommandLine.Run
import EcmaFold.Compile
import EcmaFold.Descent.Program
import EcmaFold.Lexer.Scanner
import EcmaFold.Main
import EcmaFold.Program
import EcmaFold.Repl.Dialogue
import EcmaFold.Settings
import EcmaFold.Tree.Dump
import EcmaFold.Tree.Layout
import EcmaFold.Proofs.Ambiguity
import EcmaFold.Proofs.AtomicRules
import EcmaFold.Proofs.Composition
import EcmaFold.Proofs.DistinctDumps
import EcmaFold.Proofs.EndOfInput
import EcmaFold.Proofs.ExpressionStatement
import EcmaFold.Proofs.Identifiers
import EcmaFold.Proofs.LayoutIndependence
import EcmaFold.Proofs.LineProbe
import EcmaFold.Proofs.Literals
import EcmaFold.Proofs.LongestPart
import EcmaFold.Proofs.Lowering.Arithmetic
import EcmaFold.Proofs.Lowering.Placeholders
import EcmaFold.Proofs.Lowering.Statements
import EcmaFold.Proofs.Lowering.Typed
import EcmaFold.Proofs.Lowering.Words
import EcmaFold.Proofs.NewPairing
import EcmaFold.Proofs.Numbers
import EcmaFold.Proofs.OperatorChain
import EcmaFold.Proofs.Positions
import EcmaFold.Proofs.Printing
import EcmaFold.Proofs.Radix
import EcmaFold.Proofs.Rejection
import EcmaFold.Proofs.RoundTrip
import EcmaFold.Proofs.SameLine
import EcmaFold.Proofs.Spans
import EcmaFold.Proofs.Termination
import EcmaFold.Proofs.TokenSequence
import EcmaFold.Proofs.Unclosed
import EcmaFold.Proofs.WholeWords
