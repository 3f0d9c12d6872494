import LogoServer.SyntaxError

/-! Stretches of text as an editor counts them: lines and characters both from zero, each written
in 32 bits. -/
namespace LogoServer

def maxCoordinate : Nat := 0xFFFFFFFF

/-- A count as a coordinate; a greater one stays at the greatest. -/
def coordinate (n : Nat) : Nat :=
  min n maxCoordinate

/-- An editor's line of a line counted from one. -/
def editorLine (line : Nat) : Nat :=
  coordinate (line - 1)

/-- Characters `start` up to and not including `finish` of one line. -/
structure Span where
  line : Nat
  start : Nat
  finish : Nat
  deriving DecidableEq, Repr

namespace Span

def ofPlace (p : Position) (length : Nat) : Span :=
  { line := editorLine p.line
    start := coordinate p.column
    finish := coordinate (p.column + length) }

def ofToken (t : Token) : Span :=
  ofPlace t.position t.length

end Span

/-- A message an editor shows at a span. Each one tells of an error. -/
structure Diagnostic where
  span : Span
  message : String
  deriving DecidableEq, Repr

namespace Diagnostic

/-- The number by which editors know an error. -/
def severity : Nat := 1

def ofError (e : SyntaxError) : Diagnostic :=
  ⟨.ofPlace e.position e.length, e.message⟩

end Diagnostic

end LogoServer
