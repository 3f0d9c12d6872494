import LogoServer.Analysis.Highlight
import LogoServer.Analysis.Reference
import LogoServer.Parsed.Basic

/-! What an editor shows of a parsed document. -/
namespace LogoServer

namespace Parsed

def diagnostics (parsed : Parsed) : List Diagnostic :=
  parsed.errors.map .ofError

def highlighting (parsed : Parsed) : List Nat :=
  Highlight.Mark.encode (Highlight.Mark.ofEvents parsed.events)

/-- Spans that declare the name under an editor's cursor. -/
def declarationsAt (parsed : Parsed) (line character : Nat) : List Span :=
  Reference.resolve (Reference.ofEvents parsed.events) (Declaration.ofEvents parsed.events)
    line character

end Parsed

end LogoServer
