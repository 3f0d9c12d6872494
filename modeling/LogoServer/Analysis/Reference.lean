import LogoServer.Analysis.Declaration

/-! Uses of names, and the way from a cursor over the use under it to its declarations. -/
namespace LogoServer

namespace Reference

def ofEvent? : Event → Option Token
  | .reference t | .call t => some t
  | _ => none

def ofEvents (events : List Event) : List Token :=
  events.filterMap ofEvent?

/-- Where the name in a token is declared: a colon in front makes it a variable. -/
def declarations (index : List Declaration) (t : Token) : List Span :=
  match Declaration.withoutMark ':' t.text with
  | some name => Declaration.spansOf index .variables name
  | none => Declaration.spansOf index .procedures t.text

/-- Halves a stretch of `size` entries from `base` on, keeping the part where the test turns from
true to false, until one entry is left. -/
def bisect (test : α → Bool) (entries : Array α) (base size : Nat) : Nat :=
  if size ≤ 1 then base
  else
    let half := size / 2
    if entries[base + half]?.any test then bisect test entries (base + half) (size - half)
    else bisect test entries base (size - half)
termination_by size

/-- The last token that does not start after the cursor, in an array in reading order. -/
def lastNotAfter (cursor : Position) (uses : Array Token) : Option Token :=
  let test (t : Token) := t.position.notAfter cursor
  uses[bisect test uses 0 uses.size]?.filter test

/-- The cursor stands on the token or right behind it. -/
def touches (cursor : Position) (t : Token) : Bool :=
  t.position.line = cursor.line && cursor.column ≤ t.position.column + t.length

def under (cursor : Position) (uses : Array Token) : Option Token :=
  (lastNotAfter cursor uses).filter (touches cursor)

def resolve (uses : List Token) (index : List Declaration) (line character : Nat) : List Span :=
  match under ⟨line + 1, character⟩ uses.toArray with
  | some t => declarations index t
  | none => []

end Reference

end LogoServer
