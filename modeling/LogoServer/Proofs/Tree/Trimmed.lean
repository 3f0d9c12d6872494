import LogoServer.Parser.Statement
import LogoServer.Proofs.Tree.Nesting
import Mathlib.Tactic

/-! Trees that are cut off at a nesting limit. What lies beyond the limit is not parsed but passed
over, by counting openers and closers up to the closer that matches; a tree is spared if no opener
or closer stands in it that counting would take for another. -/
namespace LogoServer

open Grammar LogoServer.Parser

/-- What encloses a part that is passed over. -/
inductive Fence where
  | parens
  | scope (s : Scope)
  deriving DecidableEq, Repr

namespace Fence

def opener : Fence → Kind
  | .parens => .leftParen
  | .scope s => s.opener

def closer : Fence → Kind
  | .parens => .rightParen
  | .scope s => s.closer

/-- Tokens of this kind are counted. -/
def counts (f : Fence) (kind : Kind) : Bool :=
  kind = f.opener || kind = f.closer

end Fence

/-! ### Stray openers and closers -/

mutual
/-- A token that is counted is quoted in the element of a literal list. -/
def Datum.strays (f : Fence) : Datum → Bool
  | .atom t => f.counts t.kind
  | .list items => Datum.anyStrays f items
  | .number _ | .word _ => false

def Datum.anyStrays (f : Fence) : List Datum → Bool
  | [] => false
  | item :: items => item.strays f || Datum.anyStrays f items
end

mutual
def Expr.strays (f : Fence) : Expr → Bool
  | .list items => Datum.anyStrays f items
  | .query _ inputs => Expr.anyStrays f inputs
  | .binary left _ right => left.strays f || right.strays f
  | .group inner => inner.strays f
  | .number _ | .word _ | .reference _ | .missing => false

def Expr.anyStrays (f : Fence) : List Expr → Bool
  | [] => false
  | e :: es => e.strays f || Expr.anyStrays f es
end

mutual
def Argument.strays (f : Fence) : Argument → Bool
  | .expr value => value.strays f
  | .block body => Statement.anyStrays f body

def Argument.anyStrays (f : Fence) : List Argument → Bool
  | [] => false
  | a :: as => a.strays f || Argument.anyStrays f as

/-- A token that is counted is quoted in a literal list, or closes a `define`, which has no opener
of that sort. -/
def Statement.strays (f : Fence) : Statement → Bool
  | .command _ arguments => Argument.anyStrays f arguments
  | .setPosition _ _ value | .binding _ _ _ value => value.strays f
  | .definition .to _ _ _ body _ => Statement.anyStrays f body
  | .definition .define _ _ _ body closing =>
    Statement.anyStrays f body || closing.any (f.counts ·.kind)
  | .loop _ _ _ bounds body => Expr.anyStrays f bounds || Statement.anyStrays f body
  | .call _ inputs => Expr.anyStrays f inputs

def Statement.anyStrays (f : Fence) : List Statement → Bool
  | [] => false
  | s :: ss => s.strays f || Statement.anyStrays f ss
end

/-! ### Spared trees -/

mutual
/-- Counting finds the ends of the operands that are beyond so many levels. -/
def Expr.isSpared : (levels : Nat) → Expr → Bool
  | 0, .query _ inputs => !Expr.anyStrays .parens inputs
  | 0, .group inner => !inner.strays .parens
  | levels + 1, .query _ inputs => Expr.areSpared levels inputs
  | levels + 1, .group inner => inner.isSpared levels
  | levels, .binary left _ right => left.isSpared levels && right.isSpared levels
  | _, _ => true

def Expr.areSpared (levels : Nat) : List Expr → Bool
  | [] => true
  | e :: es => e.isSpared levels && Expr.areSpared levels es
end

mutual
def Argument.isSpared (levels : Nat) : Argument → Bool
  | .expr value => value.isSpared levels
  | .block body => Statement.bodySpared .block levels body

def Argument.areSpared (levels : Nat) : List Argument → Bool
  | [] => true
  | a :: as => a.isSpared levels && Argument.areSpared levels as

/-- Counting finds the ends of what is beyond so many levels in the statement. -/
def Statement.isSpared (levels : Nat) : Statement → Bool
  | .command _ arguments => Argument.areSpared levels arguments
  | .setPosition _ _ value | .binding _ _ _ value => value.isSpared levels
  | .definition .to _ _ _ body _ => Statement.bodySpared .procedure levels body
  | .definition .define _ _ _ body _ => Statement.bodySpared .block levels body
  | .loop _ _ _ bounds body =>
    Expr.areSpared levels bounds && Statement.bodySpared .block levels body
  | .call _ inputs => Expr.areSpared levels inputs

/-- A sequence takes a level. Brackets cannot be quoted, so only the end of a procedure can be
missed. -/
def Statement.bodySpared (scope : Scope) : (levels : Nat) → List Statement → Bool
  | 0, body => scope != .procedure || !Statement.anyStrays (.scope scope) body
  | _ + 1, [] => true
  | levels + 1, s :: ss => s.isSpared levels && Statement.bodySpared scope (levels + 1) ss
end

/-! ### Trimmed trees -/

mutual
/-- The second element is what so many levels leave of the first one. -/
inductive Datum.Trims : Nat → Datum → Datum → Prop
  | number {levels : Nat} (t : Token) : Datum.Trims levels (.number t) (.number t)
  | word {levels : Nat} (t : Token) : Datum.Trims levels (.word t) (.word t)
  | atom {levels : Nat} (t : Token) : Datum.Trims levels (.atom t) (.atom t)
  | list {levels : Nat} {items items' : List Datum} (h : Datum.AllTrim levels items items') :
      Datum.Trims (levels + 1) (.list items) (.list items')
  /-- Of a list beyond the levels its bracket is left. -/
  | cut {items : List Datum} {t : Token} (ht : t.kind = .leftBracket) :
      Datum.Trims 0 (.list items) (.atom t)

inductive Datum.AllTrim : Nat → List Datum → List Datum → Prop
  | nil {levels : Nat} : Datum.AllTrim levels [] []
  | cons {levels : Nat} {item item' : Datum} {items items' : List Datum}
      (head : Datum.Trims levels item item') (tail : Datum.AllTrim levels items items') :
      Datum.AllTrim levels (item :: items) (item' :: items')
end

mutual
/-- The second expression is what so many levels leave of the first one. -/
inductive Expr.Trims : Nat → Expr → Expr → Prop
  | number {levels : Nat} (t : Token) : Expr.Trims (levels + 1) (.number t) (.number t)
  | word {levels : Nat} (t : Token) : Expr.Trims (levels + 1) (.word t) (.word t)
  | reference {levels : Nat} (t : Token) : Expr.Trims (levels + 1) (.reference t) (.reference t)
  | list {levels : Nat} {items items' : List Datum} (h : Datum.AllTrim levels items items') :
      Expr.Trims (levels + 1) (.list items) (.list items')
  | query {levels : Nat} {t : Token} {inputs inputs' : List Expr}
      (h : Expr.AllTrim levels inputs inputs') :
      Expr.Trims (levels + 1) (.query t inputs) (.query t inputs')
  | group {levels : Nat} {inner inner' : Expr} (h : Expr.Trims levels inner inner') :
      Expr.Trims (levels + 1) (.group inner) (.group inner')
  | cut (e : Expr) : Expr.Trims 0 e .missing
  | link {levels : Nat} {left left' right right' : Expr} {operator : Token}
      (hleft : Expr.Trims levels left left') (hright : Expr.Trims levels right right')
      (hroom : left'.links operator.kind.tier < levels) :
      Expr.Trims levels (.binary left operator right) (.binary left' operator right')
  /-- A link for which there is no room is dropped with its operand. -/
  | drop {levels : Nat} {left left' right : Expr} {operator : Token}
      (hleft : Expr.Trims levels left left') (hroom : left'.links operator.kind.tier = levels) :
      Expr.Trims levels (.binary left operator right) left'

inductive Expr.AllTrim : Nat → List Expr → List Expr → Prop
  | nil {levels : Nat} : Expr.AllTrim levels [] []
  | cons {levels : Nat} {e e' : Expr} {es es' : List Expr} (head : Expr.Trims levels e e')
      (tail : Expr.AllTrim levels es es') : Expr.AllTrim levels (e :: es) (e' :: es')
end

mutual
inductive Argument.Trims : Nat → Argument → Argument → Prop
  | expr {levels : Nat} {value value' : Expr} (h : value.Trims levels value') :
      Argument.Trims levels (.expr value) (.expr value')
  | block {levels : Nat} {body body' : List Statement} (h : Statement.BodyTrims levels body body') :
      Argument.Trims levels (.block body) (.block body')

inductive Argument.AllTrim : Nat → List Argument → List Argument → Prop
  | nil {levels : Nat} : Argument.AllTrim levels [] []
  | cons {levels : Nat} {a a' : Argument} {as as' : List Argument}
      (head : Argument.Trims levels a a') (tail : Argument.AllTrim levels as as') :
      Argument.AllTrim levels (a :: as) (a' :: as')

/-- The second statement is what so many levels leave of the first one. -/
inductive Statement.Trims : Nat → Statement → Statement → Prop
  | command {levels : Nat} {t : Token} {arguments arguments' : List Argument}
      (h : Argument.AllTrim levels arguments arguments') :
      Statement.Trims levels (.command t arguments) (.command t arguments')
  | setPosition {levels : Nat} {t : Token} {target : Option Token} {value value' : Expr}
      (h : value.Trims levels value') :
      Statement.Trims levels (.setPosition t target value) (.setPosition t target value')
  | definition {levels : Nat} {form : DefinitionForm} {t : Token} {name closing : Option Token}
      {parameters : List Token} {body body' : List Statement}
      (h : Statement.BodyTrims levels body body') :
      Statement.Trims levels (.definition form t name parameters body closing)
        (.definition form t name parameters body' closing)
  | binding {levels : Nat} {form : BindingForm} {t : Token} {name : Option Token}
      {value value' : Expr} (h : value.Trims levels value') :
      Statement.Trims levels (.binding form t name value) (.binding form t name value')
  | loop {levels : Nat} {form : LoopForm} {t : Token} {counter : Option Token}
      {bounds bounds' : List Expr} {body body' : List Statement}
      (hbounds : Expr.AllTrim levels bounds bounds')
      (hbody : Statement.BodyTrims levels body body') :
      Statement.Trims levels (.loop form t counter bounds body) (.loop form t counter bounds' body')
  | call {levels : Nat} {t : Token} {inputs inputs' : List Expr}
      (h : Expr.AllTrim levels inputs inputs') :
      Statement.Trims levels (.call t inputs) (.call t inputs')

/-- A sequence takes a level; of one beyond the levels nothing is left. -/
inductive Statement.BodyTrims : Nat → List Statement → List Statement → Prop
  | cut (body : List Statement) : Statement.BodyTrims 0 body []
  | nil {levels : Nat} : Statement.BodyTrims (levels + 1) [] []
  | cons {levels : Nat} {s s' : Statement} {ss ss' : List Statement}
      (head : Statement.Trims levels s s') (tail : Statement.BodyTrims (levels + 1) ss ss') :
      Statement.BodyTrims (levels + 1) (s :: ss) (s' :: ss')
end

section AllTrim

variable {levels : Nat}

theorem Datum.AllTrim.of_forall₂ {items items' : List Datum}
    (h : List.Forall₂ (Datum.Trims levels) items items') : Datum.AllTrim levels items items' := by
  induction h with
  | nil => exact .nil
  | cons head _ ih => exact .cons head ih

theorem Expr.AllTrim.of_forall₂ {es es' : List Expr}
    (h : List.Forall₂ (Expr.Trims levels) es es') : Expr.AllTrim levels es es' := by
  induction h with
  | nil => exact .nil
  | cons head _ ih => exact .cons head ih

theorem Statement.BodyTrims.of_forall₂ {ss ss' : List Statement}
    (h : List.Forall₂ (Statement.Trims levels) ss ss') :
    Statement.BodyTrims (levels + 1) ss ss' := by
  induction h with
  | nil => exact .nil
  | cons head _ ih => exact .cons head ih

end AllTrim

theorem Expr.areSpared_iff {levels : Nat} {es : List Expr} :
    Expr.areSpared levels es = true ↔ ∀ e ∈ es, e.isSpared levels = true := by
  induction es with
  | nil => simp [Expr.areSpared]
  | cons e es ih => simp [Expr.areSpared, ih]

theorem Statement.bodySpared_succ_iff {scope : Scope} {levels : Nat} {ss : List Statement} :
    Statement.bodySpared scope (levels + 1) ss = true ↔ ∀ s ∈ ss, s.isSpared levels = true := by
  induction ss with
  | nil => simp [Statement.bodySpared]
  | cons s ss ih => simp [Statement.bodySpared, ih]

theorem Expr.isSpared_binary {levels : Nat} {left right : Expr} {operator : Token} :
    (Expr.binary left operator right).isSpared levels =
      (left.isSpared levels && right.isSpared levels) := by
  cases levels <;> rw [Expr.isSpared]

end LogoServer
