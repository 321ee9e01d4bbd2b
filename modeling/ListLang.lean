import ListLang.Arena
import ListLang.Command
import ListLang.Main
import ListLang.Proofs.AppendOnly
import ListLang.Proofs.ArithmeticTyping
import ListLang.Proofs.BlamedParenthesis
import ListLang.Proofs.Calculation
import ListLang.Proofs.CellEvaluation
import ListLang.Proofs.Cells
import ListLang.Proofs.CommandContract
import ListLang.Proofs.Concatenation
import ListLang.Proofs.DeadArguments
import ListLang.Proofs.Decomposition
import ListLang.Proofs.DepthLimit
import ListLang.Proofs.DepthNeutral
import ListLang.Proofs.Display
import ListLang.Proofs.DocumentedFailures
import ListLang.Proofs.ExactArithmetic
import ListLang.Proofs.FaithfulJournal
import ListLang.Proofs.FlagReading
import ListLang.Proofs.Flattening
import ListLang.Proofs.FlooredRemainder
import ListLang.Proofs.Formatting
import ListLang.Proofs.IntegerNumerals
import ListLang.Proofs.LexicalErrors
import ListLang.Proofs.LineEnds
import ListLang.Proofs.NumericLiterals
import ListLang.Proofs.Observation
import ListLang.Proofs.Outline
import ListLang.Proofs.Overlay
import ListLang.Proofs.Overriding
import ListLang.Proofs.Places
import ListLang.Proofs.QuotedLists
import ListLang.Proofs.QuotedText
import ListLang.Proofs.Reparsing
import ListLang.Proofs.Rounding
import ListLang.Proofs.Shadowing
import ListLang.Proofs.Termination
import ListLang.Proofs.TraceLines
import ListLang.Proofs.TreeBuilding
import ListLang.RunId
import ListLang.Value.Cell
import ListLang.Value.Datum
