import LogoServer.Text.RangeTable
import LogoServer.Text.WhiteSpace
import LogoServer.Text.Alphabetic
import LogoServer.Text.Numeric
import LogoServer.Text.LowerCase
import LogoServer.Text.Position
import LogoServer.Token.Keyword
import LogoServer.Token.Kind
import LogoServer.Token.Basic
import LogoServer.Token.Segment
import LogoServer.Token.Scan
import LogoServer.SyntaxError
import LogoServer.Tree.Form
import LogoServer.Tree.Basic
import LogoServer.Tree.Event
import LogoServer.Parser.State
import LogoServer.Parser.Recovery
import LogoServer.Parser.Repeat
import LogoServer.Parser.Expr
import LogoServer.Parser.Statement
import LogoServer.Parsed.Basic
import LogoServer.Analysis.Span
import LogoServer.Analysis.Highlight
import LogoServer.Analysis.Declaration
import LogoServer.Analysis.Reference
import LogoServer.Parsed.Analysis
import LogoServer.Document
import LogoServer.Log
import LogoServer.Worker.Request
import LogoServer.Worker.Basic
import LogoServer.Registry
import LogoServer.Server.Message
import LogoServer.Server.Basic
import LogoServer.Proofs.Text.Order
import LogoServer.Proofs.Text.WhiteSpace
import LogoServer.Proofs.Token.Opening
import LogoServer.Proofs.Token.Partition
import LogoServer.Proofs.Parser.Passage
import LogoServer.Proofs.Parser.Account
import LogoServer.Proofs.Parser.Grammar
import LogoServer.Proofs.Parser.Repetition
import LogoServer.Proofs.Tree.Gathered
import LogoServer.Proofs.Parser.Expr
import LogoServer.Proofs.Parser.Statement
import LogoServer.Proofs.Parsed.Reading
import LogoServer.Proofs.Analysis.Lookup
import LogoServer.Proofs.Analysis.Declaration
import LogoServer.Proofs.Worker.Foreseen
import LogoServer.Proofs.Registry.Agenda
import LogoServer.Proofs.Registry.Holding
import LogoServer.Proofs.Registry.Operations
import LogoServer.Proofs.Server.Holding
import LogoServer.Proofs.Server.Session
import LogoServer.Proofs.Analysis.Delta
import LogoServer.Proofs.Analysis.Highlight
import LogoServer.Proofs.Registry.Reachable
import LogoServer.Proofs.Registry.Eviction
import LogoServer.Proofs.Registry.Standing
import LogoServer.Proofs.Worker.Moves
import LogoServer.Proofs.Registry.Onward
import LogoServer.Proofs.Server.Course
import LogoServer.Proofs.Server.Publication
import LogoServer.Proofs.Server.UpToDate
import LogoServer.Proofs.Worker.Reception
import LogoServer.Proofs.Parser.Frame
import LogoServer.Proofs.Worker.Queued
import LogoServer.Proofs.Parser.Progress
import LogoServer.Proofs.Parser.Parentheses
import LogoServer.Proofs.Parser.Complaints
import LogoServer.Proofs.Parsed.Errors
import LogoServer.Proofs.Tree.Nesting
import LogoServer.Proofs.Parser.Depth
import LogoServer.Proofs.Parsed.Nesting
import LogoServer.Proofs.Parsed.Progress
import LogoServer.Proofs.Tree.Trimmed
import LogoServer.Proofs.Parser.Fences
import LogoServer.Proofs.Parser.Tracking
import LogoServer.Proofs.Parser.Trimming
import LogoServer.Proofs.Parsed.TooDeep
import LogoServer.Proofs.Text.Lines
import LogoServer.Proofs.Analysis.Inside
import LogoServer.Proofs.Parser.Restore
import LogoServer.Proofs.Parser.RestoreStatement
import LogoServer.Proofs.Parsed.Printed
import LogoServer.Proofs.Token.Respaced
import LogoServer.Proofs.Parsed.Joined
import LogoServer.Proofs.Parsed.Spacing
import LogoServer.Proofs.Analysis.Coverage
import LogoServer.Proofs.Server.Versions
import LogoServer.Proofs.Parser.Matching
