import LogoServer.Token.Kind

/-! The forms of statement and expression that the keywords introduce. -/
namespace LogoServer

inductive DefinitionForm where
  | to | define
  deriving DecidableEq, Repr

inductive BindingForm where
  | make | name | localmake
  deriving DecidableEq, Repr

inductive LoopForm where
  | for_ | dotimes
  deriving DecidableEq, Repr

/-- What a command takes in one place behind its keyword. -/
inductive Slot where
  | expr | block
  deriving DecidableEq, Repr

structure Arity where
  least : Nat
  most : Nat
  deriving DecidableEq, Repr

/-- Bounds of a loop: start, end and perhaps a step, or only a count. -/
def LoopForm.bounds : LoopForm → Arity
  | .for_ => ⟨2, 3⟩
  | .dotimes => ⟨1, 1⟩

inductive StatementForm where
  | command (slots : List Slot)
  | setPosition
  | definition (form : DefinitionForm)
  | binding (form : BindingForm)
  | loop (form : LoopForm)
  | call
  deriving DecidableEq, Repr

namespace Keyword

def statementForm? : Keyword → Option StatementForm
  | .forward | .fd | .back | .bk | .left | .lt | .right | .rt | .setx | .sety | .setheading
  | .seth | .label | .print | .show_ | .setlabelheight | .setcolor | .setpencolor | .setwidth
  | .setpensize | .changeshape | .csh | .test | .wait => some (.command [.expr])
  | .setxy | .arc | .ellipse => some (.command [.expr, .expr])
  | .home | .showturtle | .st | .hideturtle | .ht | .clean | .clearscreen | .cs | .fill | .wrap
  | .window | .fence | .penup | .pu | .pendown | .pd | .repcount | .bye => some (.command [])
  | .filled | .repeat_ | .if_ | .while_ | .until_ => some (.command [.expr, .block])
  | .ifelse => some (.command [.expr, .block, .block])
  | .iftrue | .iffalse => some (.command [.block])
  | .doWhile | .doUntil => some (.command [.block, .expr])
  | .set => some .setPosition
  | .to => some (.definition .to)
  | .define => some (.definition .define)
  | .make => some (.binding .make)
  | .name => some (.binding .name)
  | .localmake => some (.binding .localmake)
  | .for_ => some (.loop .for_)
  | .dotimes => some (.loop .dotimes)
  | _ => none

/-- Number of inputs of a reporter that may stand bare. -/
def queryArity? : Keyword → Option Arity
  | .pos | .xcor | .ycor | .heading | .shownp | .shownQ | .labelsize | .pendownp | .pendownQ
  | .pencolor | .pc | .pensize => some ⟨0, 0⟩
  | .towards => some ⟨0, 1⟩
  | .def_ | .thing | .first | .butfirst | .last | .butlast | .pick | .wordp | .wordQ | .listp
  | .listQ | .arrayp | .arrayQ | .numberp | .numberQ | .emptyp | .emptyQ => some ⟨1, 1⟩
  | .item | .sum | .minus | .modulo | .power | .equalp | .equalQ | .notequalp | .notequalQ
  | .beforep | .beforeQ | .substringp | .substringQ => some ⟨2, 2⟩
  | .random => some ⟨1, 2⟩
  | _ => none

/-- Reporters that may follow an opening parenthesis and then take any number of inputs. -/
def isParenthesizedQuery : Keyword → Bool
  | .list | .readword | .readlist => true
  | k => k.queryArity?.isSome

end Keyword

namespace Kind

def statementForm? : Kind → Option StatementForm
  | .keyword k => k.statementForm?
  | .name => some .call
  | _ => none

def startsStatement (kind : Kind) : Bool :=
  kind.statementForm?.isSome

def startsExpr : Kind → Bool
  | .number | .word | .colonName | .leftBracket | .leftParen => true
  | .keyword k => k.queryArity?.isSome
  | _ => false

/-- Kinds that close a construct or the text; none is passed over in search of an expression. -/
def closesSomething : Kind → Bool
  | .eof | .rightBracket | .rightParen | .keyword .end_ => true
  | _ => false

end Kind

end LogoServer
