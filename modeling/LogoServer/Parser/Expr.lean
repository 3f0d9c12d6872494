import LogoServer.Parser.Recovery
import LogoServer.Parser.Repeat
import LogoServer.Tree.Basic

/-! Parsing of literal lists and expressions. A parser is given the nesting levels left to it. -/
namespace LogoServer.Parser

/-- Builds one element of a literal list; `inner` builds the one that an opening bracket starts. -/
def datum (inner : Parser Datum) : Parser Datum := do
  match ← currentKind with
  | .leftBracket => inner
  | .number => return .number (← take)
  | .word => return .word (← take)
  | _ => return .atom (← take)

def bracketed (inner : Parser Datum) : Parser (List Datum) := do
  let _ ← take
  let items ← many (fun kind => kind != .rightBracket && kind != .eof) (datum inner)
  let _ ← expect .rightBracket
  return items

/-- Stands in for a list that would nest too deeply: its bracket alone is kept. -/
def datumTooDeep : Parser Datum := do
  complainTooDeep
  let t ← current
  skipConstruct
  return .atom t

def dataList : (levels : Nat) → Parser (List Datum)
  | 0 => bracketed datumTooDeep
  | levels + 1 => bracketed (nested (return .list (← dataList levels)))

/-- Joins operands to the left of the next operator, at most once for each element of the budget.
Each link nests the tree one level; with no `room` left, it is reported and its operand is
dropped. -/
def chainLinks (isOperator : Kind → Bool) (operand : Parser Expr) :
    (budget : List Token) → (room : Nat) → (left : Expr) → Parser Expr
  | [], _, left => return left
  | _ :: budget, room, left => do
    if isOperator (← currentKind) then
      let operator ← take
      let right ← operand
      match room with
      | 0 =>
        complainTooDeep
        chainLinks isOperator operand budget 0 left
      | room + 1 => chainLinks isOperator operand budget room (.binary left operator right)
    else
      return left

/-- Builds a chain of operands that associates to the left. A link takes its operator, so there are
no more links than tokens ahead. -/
def chain (isOperator : Kind → Bool) (levels : Nat) (operand : Parser Expr) : Parser Expr := do
  let first ← operand
  chainLinks isOperator operand (← get).rest levels first

def additiveOver (levels : Nat) (primary : Parser Expr) : Parser Expr :=
  chain Kind.isAdditive levels (chain Kind.isMultiplicative levels primary)

def exprOver (levels : Nat) (primary : Parser Expr) : Parser Expr :=
  chain Kind.isComparison levels (additiveOver levels primary)

/-- Builds a reporter and its inputs, which bind tighter than a comparison. -/
def query (arity : Arity) (input : Parser Expr) : Parser Expr := do
  let keyword ← take
  return .query keyword (← inputs arity input)

/-- Builds what stands between parentheses: a reporter with any number of inputs, or a group. -/
def enclosed (inner : Parser Expr) : Parser Expr := do
  match ← currentKind with
  | .keyword k =>
    if k.isParenthesizedQuery then
      let keyword ← take
      return .query keyword (← many Kind.startsExpr inner)
    else
      return .group (← inner)
  | _ => return .group (← inner)

def parenthesized (inner : Parser Expr) : Parser Expr := do
  let _ ← take
  let e ← enclosed inner
  let _ ← expect .rightParen
  return e

/-- Answers a token that starts no expression. One that closes nothing and starts no statement is
passed over if an expression starts behind it. -/
def missingExpr (primary : Parser Expr) : Parser Expr := do
  let s ← get
  let kind := s.current.kind
  let found := s.current.toLexeme
  let expected := Kind.accepted Kind.startsExpr
  if !kind.closesSomething && !kind.startsStatement && s.followingKind.startsExpr then
    complain (.extraneous found expected)
    skip 1
    primary
  else
    complain (.mismatched found expected)
    return .missing

/-- Builds an operand; expressions inside it are built from `primary`. -/
def term (levels : Nat) (primary : Parser Expr) : Parser Expr := do
  match ← currentKind with
  | .number => return .number (← take)
  | .word => return .word (← take)
  | .colonName => return .reference (← take)
  | .leftBracket => return .list (← dataList levels)
  | .leftParen => parenthesized (exprOver levels primary)
  | .keyword k =>
    match k.queryArity? with
    | some arity => query arity (additiveOver levels primary)
    | none => missingExpr primary
  | _ => missingExpr primary

def primaryTooDeep : Parser Expr := do
  complainTooDeep
  if (← currentKind).startsExpr then
    skipConstruct
  return .missing

def primary : (levels : Nat) → Parser Expr
  | 0 => primaryTooDeep
  | levels + 1 => nested (term levels (primary levels))

def expr (levels : Nat) : Parser Expr :=
  exprOver levels (primary levels)

end LogoServer.Parser
