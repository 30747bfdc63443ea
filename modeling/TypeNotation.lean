import TypeNotation.Basic
import TypeNotation.Command
import TypeNotation.Diagnostic
import TypeNotation.Diagnostic.Render
import TypeNotation.Fault
import TypeNotation.Grammar.Read
import TypeNotation.Grammar.Tree
import TypeNotation.Json
import TypeNotation.Json.Numeral
import TypeNotation.Json.Read
import TypeNotation.Json.Scalar
import TypeNotation.Lexeme
import TypeNotation.Main
import TypeNotation.Parser
import TypeNotation.Prompt
import TypeNotation.Proofs.Grammar.Clear
import TypeNotation.Proofs.Grammar.Complete
import TypeNotation.Proofs.Grammar.Cutoff
import TypeNotation.Proofs.Grammar.Exact
import TypeNotation.Proofs.Grammar.Extend
import TypeNotation.Proofs.Grammar.Free
import TypeNotation.Proofs.Grammar.Printable
import TypeNotation.Proofs.Grammar.Stop
import TypeNotation.Proofs.Grammar.Unambiguous
import TypeNotation.Proofs.Grammar.Written
import TypeNotation.Proofs.Json.Decodes
import TypeNotation.Proofs.Json.Depth
import TypeNotation.Proofs.Json.Exact
import TypeNotation.Proofs.Json.Grammar
import TypeNotation.Proofs.Json.Judge
import TypeNotation.Proofs.Json.Lexical
import TypeNotation.Proofs.Json.Rearranged
import TypeNotation.Proofs.Json.Strings
import TypeNotation.Proofs.Json.Style
import TypeNotation.Proofs.Lexeme.Cut
import TypeNotation.Proofs.Lexeme.Dump
import TypeNotation.Proofs.Lexeme.Layout
import TypeNotation.Proofs.Lexeme.Munch
import TypeNotation.Proofs.Lexeme.Parted
import TypeNotation.Proofs.Lexeme.Scan
import TypeNotation.Proofs.Lexeme.Segments
import TypeNotation.Proofs.Parser.Accept
import TypeNotation.Proofs.Parser.Compare
import TypeNotation.Proofs.Parser.Facing
import TypeNotation.Proofs.Parser.Fault
import TypeNotation.Proofs.Parser.Follow
import TypeNotation.Proofs.Parser.Forward
import TypeNotation.Proofs.Parser.Locality
import TypeNotation.Proofs.Parser.Progress
import TypeNotation.Proofs.Parser.Resume
import TypeNotation.Proofs.Parser.Shorthand
import TypeNotation.Proofs.Parser.Walk
import TypeNotation.Proofs.Prompt.Exchange
import TypeNotation.Proofs.Prompt.Number
import TypeNotation.Proofs.Session.Append
import TypeNotation.Proofs.Session.Check
import TypeNotation.Proofs.Session.Run
import TypeNotation.Proofs.Session.Specs
import TypeNotation.Proofs.Session.Trailing
import TypeNotation.Proofs.Session.Trimmed
import TypeNotation.Proofs.Text.Lines
import TypeNotation.Proofs.Text.Quoted
import TypeNotation.Proofs.TypeExpr.Codec
import TypeNotation.Proofs.TypeExpr.Denote
import TypeNotation.Proofs.TypeExpr.Irredundant
import TypeNotation.Proofs.TypeExpr.JsonText
import TypeNotation.Proofs.TypeExpr.Lenient
import TypeNotation.Proofs.TypeExpr.MemberOrder
import TypeNotation.Proofs.TypeExpr.Merged
import TypeNotation.Proofs.TypeExpr.Normal
import TypeNotation.Proofs.TypeExpr.Outside
import TypeNotation.Proofs.TypeExpr.Printable
import TypeNotation.Proofs.TypeExpr.Reencode
import TypeNotation.Proofs.TypeExpr.Refused
import TypeNotation.Proofs.TypeExpr.RoundTrip
import TypeNotation.Proofs.TypeExpr.Spacing
import TypeNotation.Proofs.TypeExpr.Spelling
import TypeNotation.Proofs.TypeExpr.Uncovered
import TypeNotation.Session
import TypeNotation.Text.Category
import TypeNotation.Text.Width
import TypeNotation.Token
import TypeNotation.TypeExpr
import TypeNotation.TypeExpr.Decode
import TypeNotation.TypeExpr.Encode
import TypeNotation.TypeExpr.Equiv
import TypeNotation.TypeExpr.Text
