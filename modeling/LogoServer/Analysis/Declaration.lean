import LogoServer.Analysis.Span
import LogoServer.Tree.Event

/-! Declarations of variables and procedures. -/
namespace LogoServer

/-- Variables and procedures are named apart from each other. -/
inductive NameSpace where
  | variables | procedures
  deriving DecidableEq, Repr

structure Declaration where
  space : NameSpace
  /-- The name without the mark in front of it. -/
  name : String
  span : Span
  deriving DecidableEq, Repr

namespace Declaration

def withoutMark (mark : Char) (text : String) : Option String :=
  match text.toList with
  | [] => none
  | c :: rest => if c = mark then some (String.ofList rest) else none

def unquoted (text : String) : String :=
  (withoutMark '"' text).getD text

def ofEvent? : Event → Option Declaration
  | .binding _ t => some ⟨.variables, unquoted t.text, .ofToken t⟩
  | .definition .to t => some ⟨.procedures, t.text, .ofToken t⟩
  | .definition .define t => some ⟨.procedures, unquoted t.text, .ofToken t⟩
  | _ => none

def ofEvents (events : List Event) : List Declaration :=
  events.filterMap ofEvent?

def spansOf (declarations : List Declaration) (space : NameSpace) (name : String) : List Span :=
  (declarations.filter fun d => d.space = space ∧ d.name = name).map span

end Declaration

end LogoServer
