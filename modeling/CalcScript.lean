import CalcScript.FileTree
import CalcScript.Main
import CalcScript.Proofs.Completeness
import CalcScript.Proofs.Callees
import CalcScript.Proofs.Depth
import CalcScript.Proofs.Equations
import CalcScript.Proofs.Extension
import CalcScript.Proofs.Grammar
import CalcScript.Proofs.Hosting
import CalcScript.Proofs.Integers
import CalcScript.Proofs.Isolation
import CalcScript.Proofs.Joining
import CalcScript.Proofs.Jumps
import CalcScript.Proofs.Layout
import CalcScript.Proofs.Lexemes
import CalcScript.Proofs.Moving
import CalcScript.Proofs.Names
import CalcScript.Proofs.Orderly
import CalcScript.Proofs.Printing
import CalcScript.Proofs.Reachable
import CalcScript.Proofs.Reporting
import CalcScript.Proofs.Requests
import CalcScript.Proofs.RoundTrip
import CalcScript.Proofs.Safety
import CalcScript.Proofs.SourceOrder
import CalcScript.Proofs.Termination
import CalcScript.Proofs.Throughout
import CalcScript.Proofs.Tokenizing
import CalcScript.Proofs.Tracing
import CalcScript.Proofs.Viable
import CalcScript.Proofs.FreshStart
import CalcScript.Proofs.Entries
import CalcScript.Proofs.Height
import CalcScript.Proofs.Literals
import CalcScript.Proofs.OperatorRuns
import CalcScript.Proofs.Nearest
import CalcScript.Proofs.BlankSource
import CalcScript.Proofs.SoleExpression
import CalcScript.Proofs.NestingLimit
import CalcScript.Proofs.Escapes
import CalcScript.Proofs.Turns
import CalcScript.Proofs.ComparisonChains
import CalcScript.Proofs.Room
import CalcScript.Proofs.ElseIf
import CalcScript.Proofs.CompoundAssignment
import CalcScript.Proofs.IntegerLiterals
import CalcScript.Proofs.Comparisons
import CalcScript.Proofs.FunctionEquality
import CalcScript.Proofs.InputOrder
import CalcScript.Proofs.JoinedLines
import CalcScript.Proofs.Conversation
import CalcScript.Proofs.Carets
import CalcScript.Proofs.DisplayedFloats
import CalcScript.Proofs.FiniteResults
import CalcScript.Proofs.Listing
import CalcScript.Proofs.NestedScopes
