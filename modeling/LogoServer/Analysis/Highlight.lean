import LogoServer.Analysis.Span
import LogoServer.Tree.Event

/-! Highlighting: the tokens an editor colours, and the numbers that tell it so. -/
namespace LogoServer

namespace Highlight

inductive Category where
  | keyword | string | number | function | variable
  deriving DecidableEq, Repr

namespace Category

def all : List Category := [.keyword, .string, .number, .function, .variable]

def ordinal : Category → Nat
  | .keyword => 0
  | .string => 1
  | .number => 2
  | .function => 3
  | .variable => 4

def name : Category → String
  | .keyword => "keyword"
  | .string => "string"
  | .number => "number"
  | .function => "function"
  | .variable => "variable"

end Category

inductive Modifier where
  | declaration | definition
  deriving DecidableEq, Repr

namespace Modifier

def all : List Modifier := [.declaration, .definition]

def ordinal : Modifier → Nat
  | .declaration => 0
  | .definition => 1

def name : Modifier → String
  | .declaration => "declaration"
  | .definition => "definition"

/-- A set of modifiers as one number: each sets the bit of its own number. -/
def mask (modifiers : List Modifier) : Nat :=
  modifiers.foldl (fun bits m => bits ||| 1 <<< m.ordinal) 0

end Modifier

/-- The names behind the numbers, as an editor is told them once. -/
structure Legend where
  categories : List String
  modifiers : List String
  deriving DecidableEq, Repr

def legend : Legend :=
  ⟨Category.all.map Category.name, Modifier.all.map Modifier.name⟩

/-- A coloured stretch of one line. -/
structure Mark where
  line : Nat
  start : Nat
  length : Nat
  category : Category
  modifiers : List Modifier
  deriving DecidableEq, Repr

/-- A mark told by its distance from the mark before it. -/
structure Delta where
  /-- Lines below the mark before. -/
  line : Nat
  /-- Characters behind the start of the mark before on the same line, or from the line's start. -/
  start : Nat
  length : Nat
  category : Nat
  modifiers : Nat
  deriving DecidableEq, Repr

namespace Delta

def numbers (d : Delta) : List Nat :=
  [d.line, d.start, d.length, d.category, d.modifiers]

/-- Reads numbers in groups of five; an incomplete last group is dropped. -/
def ofNumbers : List Nat → List Delta
  | line :: start :: length :: category :: modifiers :: rest =>
    ⟨line, start, length, category, modifiers⟩ :: ofNumbers rest
  | _ => []

theorem ofNumbers_flatMap_numbers (deltas : List Delta) :
    ofNumbers (deltas.flatMap numbers) = deltas := by
  induction deltas with
  | nil => rfl
  | cons d deltas ih => simp [numbers, ofNumbers, ih]

end Delta

namespace Mark

def place (m : Mark) : Nat × Nat :=
  (m.line, m.start)

/-- A mark told from the place of the one before it. Distances stop at zero, so only marks in
reading order are told without loss. -/
def deltaFrom (before : Nat × Nat) (m : Mark) : Delta :=
  let line := m.line - before.1
  { line
    start := if line = 0 then m.start - before.2 else m.start
    length := m.length
    category := m.category.ordinal
    modifiers := Modifier.mask m.modifiers }

/-- Marks told each from the one before, the first from the start of the text. -/
def deltas (marks : List Mark) : List Delta :=
  List.zipWith deltaFrom ((0, 0) :: marks.map place) marks

def encode (marks : List Mark) : List Nat :=
  (deltas marks).flatMap Delta.numbers

def ofToken (category : Category) (modifiers : List Modifier) (t : Token) : Mark :=
  { line := editorLine t.position.line
    start := coordinate t.position.column
    length := coordinate t.length
    category
    modifiers }

/-- How the token of an event is coloured. A parameter behind `to` is not. -/
def ofEvent? : Event → Option Mark
  | .keyword t => some (ofToken .keyword [] t)
  | .number t => some (ofToken .number [] t)
  | .word t => some (ofToken .string [] t)
  | .reference t => some (ofToken .variable [] t)
  | .call t => some (ofToken .function [] t)
  | .binding _ t => some (ofToken .variable [.definition] t)
  | .definition _ t => some (ofToken .function [.definition] t)
  | .parameter .to _ => none
  | .parameter .define t => some (ofToken .variable [.declaration] t)
  | .counter .for_ t => some (ofToken .variable [.declaration] t)
  | .counter .dotimes t => some (ofToken .variable [.definition] t)

def ofEvents (events : List Event) : List Mark :=
  events.filterMap ofEvent?

end Mark

end Highlight

end LogoServer
