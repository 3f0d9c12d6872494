import LogoServer.Token.Keyword

/-! Lexical categories and the order in which messages list them. -/
namespace LogoServer

inductive Kind where
  | keyword (k : Keyword)
  | leftBracket | rightBracket | leftParen | rightParen
  | plus | minus | star | slash
  | equal | less | greater | lessEqual | greaterEqual | notEqual
  /-- A bare identifier, such as the name of a procedure. -/
  | name
  /-- A variable reference: a colon and a name. -/
  | colonName
  /-- A quoted word: a double quote and what follows it. -/
  | word
  | number
  | eof
  deriving DecidableEq, Repr

namespace Kind

def tag : Kind → String
  | .keyword k => "Keyword(" ++ k.tag ++ ")"
  | .leftBracket => "LBracket"
  | .rightBracket => "RBracket"
  | .leftParen => "LParen"
  | .rightParen => "RParen"
  | .plus => "Plus"
  | .minus => "Minus"
  | .star => "Star"
  | .slash => "Slash"
  | .equal => "Equal"
  | .less => "Less"
  | .greater => "Greater"
  | .lessEqual => "LessEqual"
  | .greaterEqual => "GreaterEqual"
  | .notEqual => "NotEqual"
  | .name => "Name"
  | .colonName => "ColonName"
  | .word => "Word"
  | .number => "Number"
  | .eof => "Eof"

def displayName : Kind → String
  | .keyword k => "'" ++ k.text ++ "'"
  | .leftBracket => "'['"
  | .rightBracket => "']'"
  | .leftParen => "'('"
  | .rightParen => "')'"
  | .plus => "'+'"
  | .minus => "'-'"
  | .star => "'*'"
  | .slash => "'/'"
  | .equal => "'='"
  | .less => "'<'"
  | .greater => "'>'"
  | .lessEqual => "'<='"
  | .greaterEqual => "'>='"
  | .notEqual => "'<>'"
  | .name => "NAME"
  | .colonName => "COLON_NAME"
  | .word => "WORD"
  | .number => "NUMBER"
  | .eof => "<EOF>"

/-- Every kind, in the order in which messages list expected kinds. -/
def vocabulary : List Kind :=
  [.eof] ++ Keyword.leading.map .keyword ++ [.leftBracket, .rightBracket] ++
    Keyword.middle.map .keyword ++ [.leftParen, .rightParen] ++ Keyword.trailing.map .keyword ++
    [.plus, .minus, .star, .slash, .equal, .less, .greater, .lessEqual, .greaterEqual, .notEqual,
      .name, .colonName, .word, .number]

def rank (kind : Kind) : Nat :=
  vocabulary.idxOf kind

def accepted (accepts : Kind → Bool) : List Kind :=
  vocabulary.filter accepts

def closer? : Kind → Option Kind
  | .leftBracket => some .rightBracket
  | .leftParen => some .rightParen
  | _ => none

/-- Operators of the loosest binding: they compare two sums. -/
def isComparison : Kind → Bool
  | .equal | .less | .greater | .lessEqual | .greaterEqual | .notEqual => true
  | _ => false

def isAdditive : Kind → Bool
  | .plus | .minus => true
  | _ => false

def isMultiplicative : Kind → Bool
  | .star | .slash => true
  | _ => false

/-- Kinds that end a value; a minus right behind one subtracts. -/
def endsValue : Kind → Bool
  | .number | .colonName | .word | .rightBracket | .rightParen => true
  | _ => false

end Kind

end LogoServer
