import LogoServer.Token.Basic
import LogoServer.Tree.Form

/-! Parse trees. A tree keeps the tokens that mean something to a reader of the text; one that had
to be taken as present is `none`. -/
namespace LogoServer

/-- An element of a literal list. -/
inductive Datum where
  | number (t : Token)
  | word (t : Token)
  /-- Any other token, kept as it stands. -/
  | atom (t : Token)
  | list (items : List Datum)

inductive Expr where
  | number (t : Token)
  | word (t : Token)
  | reference (t : Token)
  | list (items : List Datum)
  | query (keyword : Token) (inputs : List Expr)
  | binary (left : Expr) (operator : Token) (right : Expr)
  | group (inner : Expr)
  /-- Stands where an expression was expected and none was found. -/
  | missing

mutual
/-- What a command takes in one of its slots. -/
inductive Argument where
  | expr (value : Expr)
  | block (body : List Statement)

inductive Statement where
  | command (keyword : Token) (arguments : List Argument)
  | setPosition (keyword : Token) (target : Option Token) (value : Expr)
  /-- A procedure. The parameters of `to` carry colons, those of `define` are bare. -/
  | definition (form : DefinitionForm) (keyword : Token) (name : Option Token)
      (parameters : List Token) (body : List Statement) (closing : Option Token)
  | binding (form : BindingForm) (keyword : Token) (name : Option Token) (value : Expr)
  | loop (form : LoopForm) (keyword : Token) (counter : Option Token) (bounds : List Expr)
      (body : List Statement)
  | call (name : Token) (inputs : List Expr)
end

end LogoServer
