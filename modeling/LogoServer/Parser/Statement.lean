import LogoServer.Parser.Expr

/-! Parsing of statements. A parser is given the nesting levels left to it. -/
namespace LogoServer.Parser

/-- Where a sequence of statements stands. -/
inductive Scope where
  | document | block | procedure
  deriving DecidableEq, Repr

namespace Scope

def closer : Scope → Kind
  | .document => .eof
  | .block => .rightBracket
  | .procedure => .keyword .end_

/-- The kind that opens a like sequence inside. -/
def opener : Scope → Kind
  | .document => .eof
  | .block => .leftBracket
  | .procedure => .keyword .to

/-- What may follow a statement of the sequence. -/
def continues (scope : Scope) (kind : Kind) : Bool :=
  kind.startsStatement || kind = scope.closer

end Scope

/-- Builds the statements of one sequence, given where it stands. -/
abbrev Body := Scope → Parser (List Statement)

def block (body : Body) : Parser (List Statement) := do
  let _ ← expect .leftBracket
  let statements ← body .block
  let _ ← expect .rightBracket
  return statements

def argument (levels : Nat) (body : Body) : Slot → Parser Argument
  | .expr => return .expr (← expr levels)
  | .block => return .block (← block body)

def arguments (levels : Nat) (body : Body) : List Slot → Parser (List Argument)
  | [] => return []
  | slot :: slots => return (← argument levels body slot) :: (← arguments levels body slots)

/-- Builds the procedure whose keyword was taken. -/
def definition (body : Body) (keyword : Token) : DefinitionForm → Parser Statement
  | .to => do
    let name ← expect .name
    let parameters ← many (· == .colonName) take
    let statements ← body .procedure
    let closing ← expect (.keyword .end_)
    return .definition .to keyword name parameters statements closing
  | .define => do
    let name ← expect .word
    let _ ← expect .leftBracket
    let _ ← expect .leftBracket
    let parameters ← many (· == .name) take
    let _ ← expect .rightBracket
    let statements ← block body
    let _ ← expect .rightBracket
    let closing ← takeIf (.keyword .end_)
    return .definition .define keyword name parameters statements closing

def binding (levels : Nat) (keyword : Token) (form : BindingForm) : Parser Statement := do
  match form with
  | .name =>
    let value ← expr levels
    let name ← expect .word
    return .binding form keyword name value
  | .make | .localmake =>
    let name ← expect .word
    let value ← expr levels
    return .binding form keyword name value

def loop (levels : Nat) (body : Body) (keyword : Token) (form : LoopForm) : Parser Statement := do
  let _ ← expect .leftBracket
  let counter ← expect .name
  let bounds ← inputs form.bounds (expr levels)
  let _ ← expect .rightBracket
  let statements ← block body
  return .loop form keyword counter bounds statements

def statementOf (levels : Nat) (body : Body) (form : StatementForm) : Parser Statement := do
  let first ← take
  match form with
  | .command slots => return .command first (← arguments levels body slots)
  | .setPosition =>
    let target ← expect (.keyword .pos)
    return .setPosition first target (← expr levels)
  | .definition form => definition body first form
  | .binding form => binding levels first form
  | .loop form => loop levels body first form
  | .call => return .call first (← many Kind.startsExpr (expr levels))

def statement (levels : Nat) (body : Body) : Parser Statement := do
  let kind ← currentKind
  statementOf levels body (kind.statementForm?.getD .call)

/-- Passes over what can neither start a statement nor end the sequence. -/
def resume (scope : Scope) : Parser Unit := do
  let s ← get
  unless scope.continues s.current.kind do
    complain (.extraneous s.current.toLexeme (Kind.accepted scope.continues))
    skip (s.rest.takeWhile (fun t => !scope.continues t.kind)).length

/-- Builds a sequence of statements and leaves what ends it ahead. -/
def sequence (scope : Scope) (item : Parser Statement) : Parser (List Statement) := do
  resume scope
  many Kind.startsStatement do
    let s ← item
    resume scope
    return s

def statementsTooDeep (scope : Scope) : Parser (List Statement) := do
  complainTooDeep
  skipToCloser scope.opener scope.closer
  return []

def statements : (levels : Nat) → Body
  | 0, scope => statementsTooDeep scope
  | levels + 1, scope => nested (sequence scope (statement levels (statements levels)))

end LogoServer.Parser
