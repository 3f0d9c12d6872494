import LogoServer.Token.Basic

/-! What is wrong with a text, and where. -/
namespace LogoServer

/-- The cause of a syntax error. -/
inductive Complaint where
  | unrecognized (c : Char)
  /-- The lexeme was passed over; one of the kinds was expected in its place. -/
  | extraneous (found : Lexeme) (expected : List Kind)
  /-- The kind was taken as present in front of the lexeme. -/
  | missing (expected : Kind) (found : Lexeme)
  /-- The lexeme stands where one of the kinds was expected. -/
  | mismatched (found : Lexeme) (expected : List Kind)
  | tooDeep (found : Lexeme) (limit : Nat)
  | remark (words : String)
  deriving DecidableEq, Repr

namespace Complaint

/-- Expected kinds in a message: one stands bare, several stand in braces. -/
def expecting : List Kind → String
  | [kind] => kind.displayName
  | kinds => "\x7b" ++ String.intercalate ", " (kinds.map Kind.displayName) ++ "\x7d"

def message : Complaint → String
  | .unrecognized c => "token recognition error at: '" ++ c.toString ++ "'"
  | .extraneous found expected =>
    "extraneous input " ++ found.quoted ++ " expecting " ++ expecting expected
  | .missing expected found => "missing " ++ expected.displayName ++ " at " ++ found.quoted
  | .mismatched found expected =>
    "mismatched input " ++ found.quoted ++ " expecting " ++ expecting expected
  | .tooDeep found limit =>
    "input nested too deeply at " ++ found.quoted ++ ": limit is " ++ toString limit ++ " levels"
  | .remark words => words

end Complaint

/-- A complaint with the stretch of text it is about. -/
structure SyntaxError where
  complaint : Complaint
  position : Position
  length : Nat
  deriving DecidableEq, Repr

namespace SyntaxError

def atToken (complaint : Complaint) (t : Token) : SyntaxError :=
  ⟨complaint, t.position, t.width⟩

def message (e : SyntaxError) : String :=
  e.complaint.message

def describe (e : SyntaxError) : String :=
  "syntax error at line " ++ toString e.position.line ++ ", column " ++
    toString e.position.column ++ ": " ++ e.message

end SyntaxError

end LogoServer
