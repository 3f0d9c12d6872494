import LogoServer.SyntaxError
import LogoServer.Token.Segment

/-! Texts cut into tokens. -/
namespace LogoServer

structure Placed where
  position : Position
  segment : Segment
  deriving DecidableEq, Repr

namespace Placed

def token? (p : Placed) : Option Token :=
  match p.segment with
  | .lexeme l => some { l with position := p.position }
  | _ => none

/-- The error of a placed stray character; it underlines nothing. -/
def error? (p : Placed) : Option SyntaxError :=
  match p.segment with
  | .stray c => some ⟨.unrecognized c, p.position, 0⟩
  | _ => none

end Placed

/-- Puts the segments of a text behind those found before, newest first. The fuel bounds the number
of segments; none is empty, so the length of the text suffices. -/
def placeSegments : (fuel : Nat) → Position → (previous : Option Kind) → List Char →
    List Placed → List Placed
  | fuel + 1, position, previous, c :: rest, found =>
    let (segment, rest) := Segment.cut previous c rest
    placeSegments fuel (position.advanceOver segment.chars) (segment.kind?.or previous) rest
      (⟨position, segment⟩ :: found)
  | _, _, _, _, found => found

def segments (text : List Char) : List Placed :=
  (placeSegments text.length .first none text []).reverse

structure Scan where
  /-- The tokens in reading order, without the mark of the end. -/
  tokens : List Token
  /-- The place behind the last character. -/
  finish : Position
  errors : List SyntaxError
  deriving Repr

namespace Scan

/-- Cuts a text into tokens. Letter case counts: keywords are written in lower case. -/
def ofText (text : List Char) : Scan :=
  let placed := segments text
  { tokens := placed.filterMap Placed.token?
    finish := Position.first.advanceOver text
    errors := placed.filterMap Placed.error? }

def eof (scan : Scan) : Token :=
  .endOfText scan.finish

def stream (scan : Scan) : List Token :=
  scan.tokens ++ [scan.eof]

end Scan

end LogoServer
