import LogoServer.Parser.Statement
import LogoServer.Tree.Event
import LogoServer.Text.LowerCase
import LogoServer.Token.Scan

/-! Whole documents, parsed. -/
namespace LogoServer

/-- Greatest number of levels to which blocks, procedure bodies, parentheses, literal lists and
operator chains nest. -/
def nestingLimit : Nat := 100

/-- A document's best reading, with everything that is wrong with it. -/
structure Parsed where
  statements : List Statement
  /-- Errors in reading order. -/
  errors : List SyntaxError

namespace Parsed

/-- Parses tokens up to the mark of the end; answers the statements and the end of the parse. -/
def runTokens (limit : Nat) (tokens : List Token) (eof : Token) :
    List Statement × Parser.State :=
  (Parser.statements limit .document).run (.start limit tokens eof)

/-- Parses a text within a nesting limit. Letter case is folded first, character by character, so
places stay those of the text as it was written. -/
def ofTextWithin (limit : Nat) (text : List Char) : Parsed :=
  let scan := Scan.ofText (text.map Text.foldCase)
  let (statements, finish) := runTokens limit scan.tokens scan.eof
  { statements
    errors := (scan.errors ++ finish.errors).mergeSort fun a b => a.position.notAfter b.position }

def ofText (text : String) : Parsed :=
  ofTextWithin nestingLimit text.toList

def events (parsed : Parsed) : List Event :=
  Statement.eventsOfAll parsed.statements

end Parsed

end LogoServer
