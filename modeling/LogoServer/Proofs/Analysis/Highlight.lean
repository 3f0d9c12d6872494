import LogoServer.Proofs.Analysis.Declaration
import LogoServer.Proofs.Analysis.Delta
import Mathlib.Tactic

/-! What an editor reads from the highlighting of a document: one stretch for every token that is
coloured, in reading order, whatever is wrong with the text. -/
namespace LogoServer

open Highlight

/-- How a token is coloured for the part it plays, in the words of the legend: its category and its
modifiers. -/
def Event.colour? : Event → Option (String × List String)
  | .keyword _ => some ("keyword", [])
  | .word _ => some ("string", [])
  | .number _ => some ("number", [])
  | .call _ => some ("function", [])
  | .definition _ _ => some ("function", ["definition"])
  | .parameter .define _ | .counter .for_ _ => some ("variable", ["declaration"])
  | .binding _ _ | .counter .dotimes _ => some ("variable", ["definition"])
  | .reference _ => some ("variable", [])
  | .parameter .to _ => none

/-- The number of a category: its place in the legend. -/
def Highlight.Legend.categoryNumber (legend : Legend) (name : String) : Nat :=
  legend.categories.idxOf name

/-- A set of modifiers as a number: each adds the power of two of its place in the legend. -/
def Highlight.Legend.modifierMask (legend : Legend) (names : List String) : Nat :=
  (names.map fun name => 2 ^ legend.modifiers.idxOf name).sum

/-- What an editor is to see of the token of an event, counted without a limit. -/
def Event.shade? (e : Event) : Option Shade :=
  e.colour?.map fun (category, modifiers) =>
    { line := e.token.position.line - 1
      start := e.token.position.column
      length := e.token.length
      category := legend.categoryNumber category
      modifiers := legend.modifierMask modifiers }

theorem Event.shade?_eq_some {e : Event} {a : Shade} (h : e.shade? = some a) :
    a.line = e.token.position.line - 1 ∧ a.start = e.token.position.column ∧
      a.length = e.token.length := by
  obtain ⟨colour, _, rfl⟩ := Option.map_eq_some_iff.mp h
  exact ⟨rfl, rfl, rfl⟩

namespace Parsed

variable {text : String}

/-- In a text that an editor can count, the mark of a token tells its place and length. -/
theorem map_shade_ofEvent? (htext : text.length < 2 ^ 32) {e : Event}
    (he : e ∈ (ofText text).events) : (Mark.ofEvent? e).map Mark.shade = e.shade? := by
  have hwithin := ofText_within he
  have hline : editorLine e.token.position.line = e.token.position.line - 1 := by
    unfold editorLine coordinate maxCoordinate
    omega
  have hcolumn : coordinate e.token.position.column = e.token.position.column := by
    unfold coordinate maxCoordinate
    omega
  have hlength : coordinate e.token.length = e.token.length := by
    unfold coordinate maxCoordinate
    omega
  have hmark : ∀ category modifiers, (Mark.ofToken category modifiers e.token).shade =
      ⟨e.token.position.line - 1, e.token.position.column, e.token.length, category.ordinal,
        Modifier.mask modifiers⟩ := by
    intro category modifiers
    simp only [Mark.shade, Mark.ofToken, hline, hcolumn, hlength]
  -- What is left is that the legend counts its names as the marks do.
  rcases e with t | t | t | t | t | ⟨form, t⟩ | ⟨form, t⟩ | ⟨_ | _, t⟩ | ⟨_ | _, t⟩
  case parameter.to => rfl
  all_goals exact congrArg some (hmark _ _)

theorem map_shade_marks (htext : text.length < 2 ^ 32) :
    (Mark.ofEvents (ofText text).events).map Mark.shade =
      (ofText text).events.filterMap Event.shade? := by
  rw [Mark.ofEvents, List.map_filterMap]
  exact List.filterMap_congr fun e he => map_shade_ofEvent? htext he

/-- Stretches come in reading order and none reaches into the next. -/
theorem shades_pairwise (text : String) :
    ((ofText text).events.filterMap Event.shade?).Pairwise fun a b => a.Before b ∧ a.Apart b := by
  have hprecedes := List.pairwise_map.mp (ofText_precedes text)
  refine (List.Pairwise.and_mem.mp hprecedes).filterMap _ ?_
  rintro e f ⟨he, hf, hef⟩ a ha b hb
  obtain ⟨haline, hastart, halength⟩ := Event.shade?_eq_some ha
  obtain ⟨hbline, hbstart, _⟩ := Event.shade?_eq_some hb
  have hbefore := hef.before (ofText_wellFormed text e he)
  have hline := (ofText_within he).1
  rw [Token.Precedes, Position.notAfter_iff] at hef
  unfold Position.Before at hbefore
  simp only [Token.finish] at hef
  unfold Shade.Before Shade.Apart
  constructor <;> omega

theorem marks_unclamped (htext : text.length < 2 ^ 32) :
    ∀ x ∈ Mark.paired (0, 0) (Mark.ofEvents (ofText text).events), x.2.Unclamped x.1 := by
  have hshades := shades_pairwise text
  rw [← map_shade_marks htext] at hshades
  apply Mark.unclamped_of_ordered
  refine (List.pairwise_map.mp hshades).imp fun {a b} hab => ?_
  have hbefore := hab.1
  simp only [Shade.Before, Mark.shade] at hbefore
  omega

theorem decode_eq_shades (htext : text.length < 2 ^ 32) :
    Shade.decode (ofText text).highlighting = (ofText text).events.filterMap Event.shade? := by
  rw [highlighting, Mark.decode_encode (marks_unclamped htext), map_shade_marks htext]

/-- Highlighting tells of every coloured token and of nothing else. An editor reads one stretch for
each, at its place and with its colour; the stretches come in reading order, do not overlap, and no
distance between them was cut short. -/
theorem decode_highlighting (text : String) (htext : text.length < 2 ^ 32) :
    Shade.decode (ofText text).highlighting = (ofText text).events.filterMap Event.shade? ∧
      5 ∣ (ofText text).highlighting.length ∧
      (∀ x ∈ Mark.paired (0, 0) (Mark.ofEvents (ofText text).events), x.2.Unclamped x.1) ∧
      (Shade.decode (ofText text).highlighting).Pairwise fun a b => a.Before b ∧ a.Apart b := by
  refine ⟨decode_eq_shades htext, ⟨_, Mark.length_encode _⟩, marks_unclamped htext, ?_⟩
  rw [decode_eq_shades htext]
  exact shades_pairwise text

theorem decode_highlighting_of_procedure :
    Shade.decode (ofText "to f :n\nfd :n )\nend f").highlighting =
      [⟨0, 0, 2, 0, 0⟩, ⟨0, 3, 1, 3, 2⟩, ⟨1, 0, 2, 0, 0⟩, ⟨1, 3, 2, 4, 0⟩, ⟨2, 0, 3, 0, 0⟩,
        ⟨2, 4, 1, 3, 0⟩] := by
  rw [(decode_highlighting "to f :n\nfd :n )\nend f" (by decide)).1]
  decide +kernel

end Parsed

end LogoServer
