import LogoServer.Tree.Basic
import Mathlib.Tactic

/-! Trees written out as tokens. A tree's own tokens come in the order of the grammar; the brackets
and parentheses that it does not keep are put in anew, all of them at one place, since no tree tells
where they stood. A reporter is always written in parentheses. -/
namespace LogoServer

/-- Tokens between brackets that stand at the given place. -/
def Token.inBrackets (place : Position) (ts : List Token) : List Token :=
  ⟨⟨.leftBracket, "["⟩, place⟩ :: (ts ++ [⟨⟨.rightBracket, "]"⟩, place⟩])

def Token.inParens (place : Position) (ts : List Token) : List Token :=
  ⟨⟨.leftParen, "("⟩, place⟩ :: (ts ++ [⟨⟨.rightParen, ")"⟩, place⟩])

open Token (inBrackets inParens)

variable (place : Position)

mutual
def Datum.printed : Datum → List Token
  | .number t | .word t | .atom t => [t]
  | .list items => inBrackets place (Datum.printedAll items)

def Datum.printedAll : List Datum → List Token
  | [] => []
  | item :: items => item.printed ++ Datum.printedAll items
end

mutual
def Expr.printed : Expr → List Token
  | .number t | .word t | .reference t => [t]
  | .list items => inBrackets place (Datum.printedAll place items)
  | .query keyword inputs => inParens place (keyword :: Expr.printedAll inputs)
  | .binary left operator right => left.printed ++ operator :: right.printed
  | .group inner => inParens place inner.printed
  | .missing => []

def Expr.printedAll : List Expr → List Token
  | [] => []
  | e :: es => e.printed ++ Expr.printedAll es
end

mutual
def Argument.printed : Argument → List Token
  | .expr value => value.printed place
  | .block body => inBrackets place (Statement.printedAll body)

def Argument.printedAll : List Argument → List Token
  | [] => []
  | a :: as => a.printed ++ Argument.printedAll as

/-- A token that is missing is left out. The word that `name` binds stands behind the value. -/
def Statement.printed : Statement → List Token
  | .command keyword arguments => keyword :: Argument.printedAll arguments
  | .setPosition keyword target value => keyword :: (target.toList ++ value.printed place)
  | .definition .to keyword name parameters body closing =>
    keyword :: (name.toList ++ (parameters ++ (Statement.printedAll body ++ closing.toList)))
  | .definition .define keyword name parameters body closing =>
    keyword :: (name.toList ++ (inBrackets place (inBrackets place parameters ++
      inBrackets place (Statement.printedAll body)) ++ closing.toList))
  | .binding .name keyword name value => keyword :: (value.printed place ++ name.toList)
  | .binding _ keyword name value => keyword :: (name.toList ++ value.printed place)
  | .loop _ keyword counter bounds body =>
    keyword :: (inBrackets place (counter.toList ++ Expr.printedAll place bounds) ++
      inBrackets place (Statement.printedAll body))
  | .call name inputs => name :: Expr.printedAll place inputs

def Statement.printedAll : List Statement → List Token
  | [] => []
  | s :: ss => s.printed ++ Statement.printedAll ss
end

theorem Datum.printedAll_eq (items : List Datum) :
    Datum.printedAll place items = items.flatMap (Datum.printed place) := by
  induction items with
  | nil => rfl
  | cons item items ih => rw [Datum.printedAll, ih, List.flatMap_cons]

theorem Expr.printedAll_eq (es : List Expr) :
    Expr.printedAll place es = es.flatMap (Expr.printed place) := by
  induction es with
  | nil => rfl
  | cons e es ih => rw [Expr.printedAll, ih, List.flatMap_cons]

theorem Statement.printedAll_eq (ss : List Statement) :
    Statement.printedAll place ss = ss.flatMap (Statement.printed place) := by
  induction ss with
  | nil => rfl
  | cons s ss ih => rw [Statement.printedAll, ih, List.flatMap_cons]

end LogoServer
