import ColonLisp.Arena
import ColonLisp.Command
import ColonLisp.Command.Folder
import ColonLisp.Command.Request
import ColonLisp.Environment
import ColonLisp.Evaluation
import ColonLisp.Fault
import ColonLisp.Json
import ColonLisp.Json.Reader
import ColonLisp.Json.Writer
import ColonLisp.Main
import ColonLisp.Node
import ColonLisp.Node.Json
import ColonLisp.Node.Printer
import ColonLisp.Node.Reader
import ColonLisp.Position
import ColonLisp.Proofs.Balance
import ColonLisp.Proofs.CommandLine
import ColonLisp.Proofs.Deeds
import ColonLisp.Proofs.EarliestFault
import ColonLisp.Proofs.Echoes
import ColonLisp.Proofs.Escapes
import ColonLisp.Proofs.Frame
import ColonLisp.Proofs.Grammar
import ColonLisp.Proofs.Invariant
import ColonLisp.Proofs.JsonRoundTrip
import ColonLisp.Proofs.JsonText
import ColonLisp.Proofs.LexicalGrammar
import ColonLisp.Proofs.Lexing
import ColonLisp.Proofs.Lines
import ColonLisp.Proofs.LongestMatch
import ColonLisp.Proofs.Lookahead
import ColonLisp.Proofs.Names
import ColonLisp.Proofs.NumeralGrammar
import ColonLisp.Proofs.Numerals
import ColonLisp.Proofs.Pairing
import ColonLisp.Proofs.Pieces
import ColonLisp.Proofs.Places
import ColonLisp.Proofs.Progress
import ColonLisp.Proofs.Quoting
import ColonLisp.Proofs.Rereading
import ColonLisp.Proofs.RoundTrip
import ColonLisp.Proofs.RunningOut
import ColonLisp.Proofs.ScopeStack
import ColonLisp.Proofs.Scoping
import ColonLisp.Proofs.Spacing
import ColonLisp.Proofs.Stages
import ColonLisp.Proofs.Strictness
import ColonLisp.Proofs.Truncation
import ColonLisp.Proofs.Values
import ColonLisp.Proofs.Visibility
import ColonLisp.Session
import ColonLisp.Sink
import ColonLisp.Text.Alphanumeric
import ColonLisp.Text.Blank
import ColonLisp.Text.Quoted
import ColonLisp.Text.Ranges
import ColonLisp.Token
import ColonLisp.Token.Json
import ColonLisp.Token.Lexer
import ColonLisp.Token.Numeral
