import LogoServer.Text.Position
import LogoServer.Token.Kind

/-! Tokens: lexemes at their places in a text. -/
namespace LogoServer

/-- A kind with the text that was read as it. -/
structure Lexeme where
  kind : Kind
  /-- Empty at the end of the text. -/
  text : String
  deriving DecidableEq, Repr

namespace Lexeme

def quoted (l : Lexeme) : String :=
  if l.kind = .eof then "'<EOF>'" else "'" ++ l.text ++ "'"

def length (l : Lexeme) : Nat :=
  l.text.length

/-- Number of characters a message underlines: none at the end of the text. -/
def width (l : Lexeme) : Nat :=
  if l.kind = .eof then 0 else l.length

end Lexeme

structure Token extends Lexeme where
  position : Position
  deriving DecidableEq, Repr

namespace Token

def endOfText (position : Position) : Token :=
  { kind := .eof, text := "", position }

def describe (t : Token) : String :=
  t.kind.tag ++ "(" ++ t.text ++ ") at " ++ toString t.position.line ++ ":" ++
    toString t.position.column

end Token

end LogoServer
