import LogoServer.Tree.Basic

/-! What a tree says about the tokens it keeps, in reading order. -/
namespace LogoServer

/-- The part a token plays in a tree. -/
inductive Event where
  | keyword (t : Token)
  | number (t : Token)
  | word (t : Token)
  | reference (t : Token)
  | call (t : Token)
  | binding (form : BindingForm) (t : Token)
  | definition (form : DefinitionForm) (t : Token)
  | parameter (form : DefinitionForm) (t : Token)
  | counter (form : LoopForm) (t : Token)
  deriving DecidableEq, Repr

def Event.token : Event → Token
  | .keyword t | .number t | .word t | .reference t | .call t | .binding _ t | .definition _ t
  | .parameter _ t | .counter _ t => t

mutual
def Datum.events : Datum → List Event
  | .number t => [.number t]
  | .word t => [.word t]
  | .atom _ => []
  | .list items => Datum.eventsOfAll items

def Datum.eventsOfAll : List Datum → List Event
  | [] => []
  | item :: items => item.events ++ Datum.eventsOfAll items
end

mutual
/-- Events of an expression. Operators and parentheses have none. -/
def Expr.events : Expr → List Event
  | .number t => [.number t]
  | .word t => [.word t]
  | .reference t => [.reference t]
  | .list items => Datum.eventsOfAll items
  | .query keyword inputs => .keyword keyword :: Expr.eventsOfAll inputs
  | .binary left _ right => left.events ++ right.events
  | .group inner => inner.events
  | .missing => []

def Expr.eventsOfAll : List Expr → List Event
  | [] => []
  | e :: es => e.events ++ Expr.eventsOfAll es
end

def Event.ofOption (event : Token → Event) (t : Option Token) : List Event :=
  (t.map event).toList

mutual
def Argument.events : Argument → List Event
  | .expr value => value.events
  | .block body => Statement.eventsOfAll body

def Argument.eventsOfAll : List Argument → List Event
  | [] => []
  | a :: as => a.events ++ Argument.eventsOfAll as

/-- Events of a statement, told in the order in which its tokens were read. -/
def Statement.events : Statement → List Event
  | .command keyword arguments => .keyword keyword :: Argument.eventsOfAll arguments
  | .setPosition keyword target value =>
    .keyword keyword :: (Event.ofOption .keyword target ++ value.events)
  | .definition form keyword name parameters body closing =>
    .keyword keyword :: (Event.ofOption (.definition form) name ++
      parameters.map (.parameter form) ++ Statement.eventsOfAll body ++
      Event.ofOption .keyword closing)
  -- The word that it binds stands behind the value.
  | .binding .name keyword name value =>
    .keyword keyword :: (value.events ++ Event.ofOption (.binding .name) name)
  | .binding form keyword name value =>
    .keyword keyword :: (Event.ofOption (.binding form) name ++ value.events)
  | .loop form keyword counter bounds body =>
    .keyword keyword :: (Event.ofOption (.counter form) counter ++ Expr.eventsOfAll bounds ++
      Statement.eventsOfAll body)
  | .call name inputs => .call name :: Expr.eventsOfAll inputs

def Statement.eventsOfAll : List Statement → List Event
  | [] => []
  | s :: ss => s.events ++ Statement.eventsOfAll ss
end

end LogoServer
