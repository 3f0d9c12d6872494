import LogoServer.SyntaxError
import LogoServer.Tree.Form

/-! How far a parse has come, and the journal it keeps of every token and nesting level. -/
namespace LogoServer

namespace Parser

/-- What a parse did in one step. -/
inductive Note where
  | taken (t : Token)
  | skipped (t : Token)
  | complained (e : SyntaxError)
  | entered
  | left
  deriving DecidableEq, Repr

def Note.error? : Note → Option SyntaxError
  | .complained e => some e
  | _ => none

structure State where
  limit : Nat
  /-- The tokens ahead, without the mark of the end. -/
  rest : List Token
  eof : Token
  /-- What was done so far, newest first. -/
  journal : List Note
  /-- A complaint was made and no token has been matched since; further ones are withheld. -/
  recovering : Bool
  /-- The nesting limit was reported, which happens once. -/
  tooDeep : Bool
  deriving Repr

namespace State

def start (limit : Nat) (tokens : List Token) (eof : Token) : State :=
  { limit, rest := tokens, eof, journal := [], recovering := false, tooDeep := false }

/-- The next token; behind the last one, the mark of the end. -/
def current (s : State) : Token :=
  s.rest.headD s.eof

/-- Kind of the token behind the next one. -/
def followingKind (s : State) : Kind :=
  match s.rest with
  | _ :: t :: _ => t.kind
  | _ => .eof

/-- Adds a note about the next token, whether or not complaints are withheld. -/
def note (s : State) (complaint : Complaint) : State :=
  { s with journal := .complained (.atToken complaint s.current) :: s.journal }

def errors (s : State) : List SyntaxError :=
  s.journal.reverse.filterMap Note.error?

end State

end Parser

/-- A part of the parse: what it builds from the tokens ahead, and how far it comes. It never
fails. -/
abbrev Parser := StateM Parser.State

namespace Parser

def current : Parser Token := do
  return (← get).current

def currentKind : Parser Kind := do
  return (← get).current.kind

/-- Matches the next token. The mark of the end stays ahead. -/
def take : Parser Token :=
  modifyGet fun s =>
    (s.current,
      { s with
        rest := s.rest.tail
        journal := .taken s.current :: s.journal
        recovering := false })

def takeIf (kind : Kind) : Parser (Option Token) := do
  if (← currentKind) = kind then
    return some (← take)
  else
    return none

def skip (n : Nat) : Parser Unit :=
  modify fun s =>
    { s with
      rest := s.rest.drop n
      journal := (s.rest.take n).reverse.map .skipped ++ s.journal }

def mark (note : Note) : Parser Unit :=
  modify fun s => { s with journal := note :: s.journal }

def nested (part : Parser α) : Parser α := do
  mark .entered
  let a ← part
  mark .left
  return a

/-- Complains about the next token, unless recovering already. -/
def complain (complaint : Complaint) : Parser Unit :=
  modify fun s => if s.recovering then s else { s.note complaint with recovering := true }

/-- Matches a token of the given kind; one that is missing is taken as present. -/
def expect (kind : Kind) : Parser (Option Token) := do
  let s ← get
  if s.current.kind = kind then
    return some (← take)
  -- A single token is in the way and is passed over.
  else if s.current.kind ≠ .eof ∧ s.followingKind = kind then
    complain (.extraneous s.current.toLexeme [kind])
    skip 1
    return some (← take)
  else
    complain (.missing kind s.current.toLexeme)
    return none

end Parser

end LogoServer
