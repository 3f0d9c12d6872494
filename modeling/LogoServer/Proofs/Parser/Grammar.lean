import LogoServer.Tree.Basic
import Mathlib.Tactic

/-! The grammar of Logo. A derivation says of a tree from which tokens, in reading order, it is made
up; tokens that the tree does not keep, such as brackets, have their places in it too. -/
namespace LogoServer

def DefinitionForm.keyword : DefinitionForm → Keyword
  | .to => .to
  | .define => .define

def BindingForm.keyword : BindingForm → Keyword
  | .make => .make
  | .name => .name
  | .localmake => .localmake

def LoopForm.keyword : LoopForm → Keyword
  | .for_ => .for_
  | .dotimes => .dotimes

namespace Grammar

/-- Parts one behind the other, each made up of its own tokens. -/
inductive Each {α : Type} (derives : α → List Token → Prop) : List α → List Token → Prop
  | nil : Each derives [] []
  | cons {a : α} {as : List α} {ts us : List Token} (head : derives a ts)
      (tail : Each derives as us) : Each derives (a :: as) (ts ++ us)

/-- Elements of literal lists. -/
inductive Element : Datum → List Token → Prop
  | number {t : Token} (ht : t.kind = .number) : Element (.number t) [t]
  | word {t : Token} (ht : t.kind = .word) : Element (.word t) [t]
  /-- Any other token that is no bracket stands for itself. -/
  | atom {t : Token} (ht : t.kind ∉ [.number, .word, .leftBracket, .rightBracket, .eof]) :
      Element (.atom t) [t]
  | list {opening closing : Token} {items : List Datum} {ts : List Token}
      (hopening : opening.kind = .leftBracket) (hitems : Each Element items ts)
      (hclosing : closing.kind = .rightBracket) :
      Element (.list items) (opening :: (ts ++ [closing]))

/-- How loosely an expression may bind. -/
inductive Tier where
  | factor | product | sum | comparison
  deriving DecidableEq, Repr

/-- Operators that join the parts of a tier. -/
def Tier.joins : Tier → Kind → Bool
  | .factor, _ => false
  | .product, kind => kind.isMultiplicative
  | .sum, kind => kind.isAdditive
  | .comparison, kind => kind.isComparison

/-- The tier of the parts that the operators of a tier join. -/
def Tier.tighter : Tier → Tier
  | .comparison => .sum
  | .sum => .product
  | .product | .factor => .factor

mutual
/-- Expressions of a tier. -/
inductive Phrase : Tier → Expr → List Token → Prop
  | number {t : Token} (ht : t.kind = .number) : Phrase .factor (.number t) [t]
  | word {t : Token} (ht : t.kind = .word) : Phrase .factor (.word t) [t]
  | reference {t : Token} (ht : t.kind = .colonName) : Phrase .factor (.reference t) [t]
  | list {opening closing : Token} {items : List Datum} {ts : List Token}
      (hopening : opening.kind = .leftBracket) (hitems : Each Element items ts)
      (hclosing : closing.kind = .rightBracket) :
      Phrase .factor (.list items) (opening :: (ts ++ [closing]))
  /-- A bare reporter takes a number of inputs within its arity, each of which is a sum. -/
  | query {t : Token} {k : Keyword} {arity : Arity} {inputs : List Expr} {ts : List Token}
      (ht : t.kind = .keyword k) (harity : k.queryArity? = some arity)
      (hleast : arity.least ≤ inputs.length) (hmost : inputs.length ≤ arity.most)
      (hinputs : Phrases .sum inputs ts) : Phrase .factor (.query t inputs) (t :: ts)
  /-- A reporter in parentheses takes any number of inputs. -/
  | enclosedQuery {opening t closing : Token} {k : Keyword} {inputs : List Expr} {ts : List Token}
      (hopening : opening.kind = .leftParen) (ht : t.kind = .keyword k)
      (hk : k.isParenthesizedQuery = true) (hinputs : Phrases .comparison inputs ts)
      (hclosing : closing.kind = .rightParen) :
      Phrase .factor (.query t inputs) (opening :: t :: (ts ++ [closing]))
  | group {opening closing : Token} {inner : Expr} {ts : List Token}
      (hopening : opening.kind = .leftParen) (hinner : Phrase .comparison inner ts)
      (hclosing : closing.kind = .rightParen) :
      Phrase .factor (.group inner) (opening :: (ts ++ [closing]))
  | single {tier : Tier} {e : Expr} {ts : List Token} (h : Phrase tier.tighter e ts) :
      Phrase tier e ts
  /-- Operators of one tier associate to the left. -/
  | link {tier : Tier} {left right : Expr} {operator : Token} {ts us : List Token}
      (hleft : Phrase tier left ts) (hoperator : tier.joins operator.kind = true)
      (hright : Phrase tier.tighter right us) :
      Phrase tier (.binary left operator right) (ts ++ operator :: us)

inductive Phrases : Tier → List Expr → List Token → Prop
  | nil {tier : Tier} : Phrases tier [] []
  | cons {tier : Tier} {e : Expr} {es : List Expr} {ts us : List Token} (head : Phrase tier e ts)
      (tail : Phrases tier es us) : Phrases tier (e :: es) (ts ++ us)
end

theorem Phrases.of_each {tier : Tier} {es : List Expr} {ts : List Token}
    (h : Each (Phrase tier) es ts) : Phrases tier es ts := by
  induction h with
  | nil => exact .nil
  | cons head _ ih => exact .cons head ih

mutual
inductive Sentence : Statement → List Token → Prop
  | command {t : Token} {k : Keyword} {slots : List Slot} {arguments : List Argument}
      {ts : List Token} (ht : t.kind = .keyword k)
      (hslots : k.statementForm? = some (.command slots))
      (harguments : Filling slots arguments ts) : Sentence (.command t arguments) (t :: ts)
  | setPosition {t target : Token} {value : Expr} {ts : List Token} (ht : t.kind = .keyword .set)
      (htarget : target.kind = .keyword .pos) (hvalue : Phrase .comparison value ts) :
      Sentence (.setPosition t (some target) value) (t :: target :: ts)
  | to {t name closing : Token} {parameters : List Token} {body : List Statement}
      {ts : List Token} (ht : t.kind = .keyword .to) (hname : name.kind = .name)
      (hparameters : ∀ p ∈ parameters, p.kind = .colonName) (hbody : Each Sentence body ts)
      (hclosing : closing.kind = .keyword .end_) :
      Sentence (.definition .to t (some name) parameters body (some closing))
        (t :: name :: (parameters ++ (ts ++ [closing])))
  /-- The parameters and the body stand in brackets of their own; `end` may be left out. -/
  | define {t name : Token} {opening closing opening' closing' : Token} {parameters : List Token}
      {body : List Statement} {ts : List Token} {final : Option Token}
      (ht : t.kind = .keyword .define) (hname : name.kind = .word)
      (hopening : opening.kind = .leftBracket) (hopening' : opening'.kind = .leftBracket)
      (hparameters : ∀ p ∈ parameters, p.kind = .name)
      (hclosing' : closing'.kind = .rightBracket) (hbody : Block body ts)
      (hclosing : closing.kind = .rightBracket) (hfinal : ∀ e ∈ final, e.kind = .keyword .end_) :
      Sentence (.definition .define t (some name) parameters body final)
        (t :: name :: opening :: opening' ::
          (parameters ++ closing' :: (ts ++ closing :: final.toList)))
  | binding {form : BindingForm} {t name : Token} {value : Expr} {ts : List Token}
      (hform : form ≠ .name) (ht : t.kind = .keyword form.keyword) (hname : name.kind = .word)
      (hvalue : Phrase .comparison value ts) :
      Sentence (.binding form t (some name) value) (t :: name :: ts)
  /-- The word that `name` binds stands behind the value. -/
  | name {t name : Token} {value : Expr} {ts : List Token} (ht : t.kind = .keyword .name)
      (hvalue : Phrase .comparison value ts) (hname : name.kind = .word) :
      Sentence (.binding .name t (some name) value) (t :: (ts ++ [name]))
  | loop {form : LoopForm} {t opening counter closing : Token} {bounds : List Expr}
      {body : List Statement} {ts us : List Token} (ht : t.kind = .keyword form.keyword)
      (hopening : opening.kind = .leftBracket) (hcounter : counter.kind = .name)
      (hleast : form.bounds.least ≤ bounds.length) (hmost : bounds.length ≤ form.bounds.most)
      (hbounds : Phrases .comparison bounds ts) (hclosing : closing.kind = .rightBracket)
      (hbody : Block body us) :
      Sentence (.loop form t (some counter) bounds body)
        (t :: opening :: counter :: (ts ++ closing :: us))
  | call {t : Token} {inputs : List Expr} {ts : List Token} (ht : t.kind = .name)
      (hinputs : Phrases .comparison inputs ts) : Sentence (.call t inputs) (t :: ts)

/-- Sequences of statements in brackets. -/
inductive Block : List Statement → List Token → Prop
  | mk {opening closing : Token} {body : List Statement} {ts : List Token}
      (hopening : opening.kind = .leftBracket) (hbody : Each Sentence body ts)
      (hclosing : closing.kind = .rightBracket) : Block body (opening :: (ts ++ [closing]))

/-- What the slots of a command take, one each. -/
inductive Filling : List Slot → List Argument → List Token → Prop
  | nil : Filling [] [] []
  | expr {slots : List Slot} {value : Expr} {arguments : List Argument} {ts us : List Token}
      (hvalue : Phrase .comparison value ts) (h : Filling slots arguments us) :
      Filling (.expr :: slots) (.expr value :: arguments) (ts ++ us)
  | block {slots : List Slot} {body : List Statement} {arguments : List Argument}
      {ts us : List Token} (hbody : Block body ts) (h : Filling slots arguments us) :
      Filling (.block :: slots) (.block body :: arguments) (ts ++ us)
end

theorem Sentence.ne_nil {s : Statement} {ts : List Token} (h : Sentence s ts) : ts ≠ [] := by
  cases h <;> simp

end Grammar

mutual
/-- No expression is missing in the expression. -/
def Expr.isWhole : Expr → Bool
  | .number _ | .word _ | .reference _ | .list _ => true
  | .query _ inputs => Expr.areWhole inputs
  | .binary left _ right => left.isWhole && right.isWhole
  | .group inner => inner.isWhole
  | .missing => false

def Expr.areWhole : List Expr → Bool
  | [] => true
  | e :: es => e.isWhole && Expr.areWhole es
end

mutual
/-- Nothing is missing in the argument but closing keywords that may be left out. -/
def Argument.isWhole (mayStayOpen : DefinitionForm → Bool) : Argument → Bool
  | .expr value => value.isWhole
  | .block body => Statement.areWhole mayStayOpen body

def Argument.areWhole (mayStayOpen : DefinitionForm → Bool) : List Argument → Bool
  | [] => true
  | a :: as => a.isWhole mayStayOpen && Argument.areWhole mayStayOpen as

/-- No token had to be taken as present in the statement and no expression is missing. Only a
procedure of a form that may stay open can lack its closing keyword. -/
def Statement.isWhole (mayStayOpen : DefinitionForm → Bool) : Statement → Bool
  | .command _ arguments => Argument.areWhole mayStayOpen arguments
  | .setPosition _ target value => target.isSome && value.isWhole
  | .definition form _ name _ body closing =>
    name.isSome && Statement.areWhole mayStayOpen body && (closing.isSome || mayStayOpen form)
  | .binding _ _ name value => name.isSome && value.isWhole
  | .loop _ _ counter bounds body =>
    counter.isSome && Expr.areWhole bounds && Statement.areWhole mayStayOpen body
  | .call _ inputs => Expr.areWhole inputs

def Statement.areWhole (mayStayOpen : DefinitionForm → Bool) : List Statement → Bool
  | [] => true
  | s :: ss => s.isWhole mayStayOpen && Statement.areWhole mayStayOpen ss
end

/-- A procedure of this form needs no closing keyword. -/
def DefinitionForm.mayStayOpen : DefinitionForm → Bool
  | .to => false
  | .define => true

namespace Grammar

mutual
theorem Phrase.isWhole {tier : Tier} {e : Expr} {ts : List Token} :
    Phrase tier e ts → e.isWhole = true
  | .number _ | .word _ | .reference _ | .list _ _ _ => rfl
  | .query _ _ _ _ hinputs => hinputs.areWhole
  | .enclosedQuery _ _ _ hinputs _ => hinputs.areWhole
  | .group _ hinner _ => hinner.isWhole
  | .single h => h.isWhole
  | .link hleft _ hright => by simp [Expr.isWhole, hleft.isWhole, hright.isWhole]

theorem Phrases.areWhole {tier : Tier} {es : List Expr} {ts : List Token} :
    Phrases tier es ts → Expr.areWhole es = true
  | .nil => rfl
  | .cons head tail => by simp [Expr.areWhole, head.isWhole, tail.areWhole]
end

mutual
/-- A derived statement has all its parts, except that `define` may stay open. -/
theorem Sentence.isWhole {s : Statement} {ts : List Token} :
    Sentence s ts → s.isWhole DefinitionForm.mayStayOpen = true
  | .command _ _ harguments => harguments.areWhole
  | .setPosition _ _ hvalue => hvalue.isWhole
  | .to _ _ _ hbody _ => by simp [Statement.isWhole, Each.sentences_areWhole hbody]
  | .define _ _ _ _ _ _ hbody _ _ => by
    simp [Statement.isWhole, hbody.areWhole, DefinitionForm.mayStayOpen]
  | .binding _ _ _ hvalue => hvalue.isWhole
  | .name _ hvalue _ => hvalue.isWhole
  | .loop _ _ _ _ _ hbounds _ hbody => by
    simp [Statement.isWhole, hbounds.areWhole, hbody.areWhole]
  | .call _ hinputs => hinputs.areWhole

theorem Each.sentences_areWhole {ss : List Statement} {ts : List Token} :
    Each Sentence ss ts → Statement.areWhole DefinitionForm.mayStayOpen ss = true
  | .nil => rfl
  | .cons head tail => by simp [Statement.areWhole, head.isWhole, Each.sentences_areWhole tail]

theorem Block.areWhole {body : List Statement} {ts : List Token} :
    Block body ts → Statement.areWhole DefinitionForm.mayStayOpen body = true
  | .mk _ hbody _ => Each.sentences_areWhole hbody

theorem Filling.areWhole {slots : List Slot} {arguments : List Argument} {ts : List Token} :
    Filling slots arguments ts → Argument.areWhole DefinitionForm.mayStayOpen arguments = true
  | .nil => rfl
  | .expr hvalue h => by simp [Argument.areWhole, Argument.isWhole, hvalue.isWhole, h.areWhole]
  | .block hbody h => by simp [Argument.areWhole, Argument.isWhole, hbody.areWhole, h.areWhole]
end

end Grammar

end LogoServer
